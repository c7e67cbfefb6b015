import Stencil.Template.Basic

/-!
# Parsing templates

A template is read in two steps. `marks` finds the braces and bars: in a run of more than three
opening braces the last three open a placeholder and the others are text. `Template.parse` then
nests the placeholders with a stack of those still open. A bar separates the name of the
innermost one from its fallback, and what follows a second bar is dropped. Placeholders that are
never closed, and those nested too deep, are text, as is everything outside a placeholder that
would only mean something inside one.
-/

namespace Stencil.Template

/-- A character of a template, or a sign that means something in it. -/
inductive Mark where
  | char (c : Char)
  | opening
  | bar
  | closing
  deriving DecidableEq, Repr

/-- The characters and signs of a text. -/
def marks : Text → List Mark
  | [] => []
  | c :: cs =>
    if c = '\x7b' && ['\x7b', '\x7b'].isPrefixOf cs && cs[2]? ≠ some '\x7b' then
      .opening :: marks (cs.drop 2)
    else if c = '\x7d' && ['\x7d', '\x7d'].isPrefixOf cs then .closing :: marks (cs.drop 2)
    else if c = '|' then .bar :: marks cs
    else .char c :: marks cs
termination_by t => t.length
decreasing_by all_goals simp only [List.length_cons, List.length_drop]; omega

/-- The most placeholders that can be open at once. -/
def maxNesting : Nat := 40

/-- A placeholder that is not closed yet. -/
structure OpenSlot where
  /-- The parts that a bar has ended, the latest first. -/
  parts : List Template := []
  /-- The part that is being read. -/
  current : Template := .nil
  deriving DecidableEq, Repr

namespace OpenSlot

/-- The parts, in order. -/
def allParts (s : OpenSlot) : List Template := (s.current :: s.parts).reverse

/-- The placeholder, once it is closed. -/
def close (s : OpenSlot) : Template :=
  match s.allParts with
  | name :: fallback :: _ => .slotOr name fallback .nil
  | [name] => .slot name .nil
  | [] => .slot .nil .nil

/-- The parts with bars between them. -/
def barred : List Template → Template
  | [] => .nil
  | [part] => part
  | part :: parts => part.join ((ofText ['|']).join (barred parts))

/-- The text and placeholders it stands for if it is never closed. -/
def literal (s : OpenSlot) : Template := (ofText Template.opening).join (barred s.allParts)

/-- Adds to the part that is being read. -/
def add (s : OpenSlot) (t : Template) : OpenSlot := { s with current := s.current.join t }

end OpenSlot

/-- What has been read of a template. -/
structure Reader where
  /-- What stands outside every open placeholder. -/
  root : Template := .nil
  /-- The open placeholders, innermost first. -/
  stack : List OpenSlot := []
  /-- The text read last, the latest character first. -/
  run : Text := []
  deriving DecidableEq, Repr

namespace Reader

/-- Adds to the innermost open placeholder, or to the root. -/
def add (r : Reader) (t : Template) : Reader :=
  match r.stack with
  | [] => { r with root := r.root.join t }
  | s :: outer => { r with stack := s.add t :: outer }

/-- Adds the text read last. -/
def flush (r : Reader) : Reader := { r.add (ofText r.run.reverse) with run := [] }

/-- Reads text. -/
def say (r : Reader) (t : Text) : Reader := { r with run := t.reverseAux r.run }

/-- Reads one mark. -/
def step (r : Reader) : Mark → Reader
  | .char c => r.say [c]
  | .opening =>
    if r.stack.length < maxNesting then
      let r := r.flush
      { r with stack := {} :: r.stack }
    else r.say Template.opening
  | .bar =>
    match r.flush.stack with
    | [] => r.say ['|']
    | s :: outer =>
      { r.flush with stack := { parts := s.current :: s.parts, current := .nil } :: outer }
  | .closing =>
    match r.flush.stack with
    | [] => r.say Template.closing
    | s :: outer => { r.flush with stack := outer }.add s.close

/-- What is read, with the placeholders that are still open taken as text, innermost first. -/
def collapse (root : Template) : List OpenSlot → Template
  | [] => root
  | [s] => root.join s.literal
  | s :: outer :: stack => collapse root (outer.add s.literal :: stack)
termination_by stack => stack.length

/-- The template, when there is nothing more to read. -/
def finish (r : Reader) : Template := collapse r.flush.root r.flush.stack

end Reader

/-- The template that a text stands for. -/
def parse (t : Text) : Template := ((marks t).foldl Reader.step {}).finish

namespace Reader

theorem run_add (r : Reader) (t : Template) : (r.add t).run = r.run := by
  unfold add
  split
  · rfl
  · rfl

theorem root_add (r : Reader) (t : Template) :
    (r.add t).root = if r.stack = [] then r.root.join t else r.root := by
  unfold add
  split
  · next h => rw [if_pos h]
  · next h => rw [if_neg (by simp [h])]

theorem length_stack_add (r : Reader) (t : Template) :
    (r.add t).stack.length = r.stack.length := by
  unfold add
  split
  · rfl
  · next h => simp [h]

theorem root_flush (r : Reader) : r.flush.root =
    if r.stack = [] then r.root.join (ofText r.run.reverse) else r.root :=
  root_add r _

theorem length_stack_flush (r : Reader) : r.flush.stack.length = r.stack.length :=
  length_stack_add r _

theorem stack_flush_ne_nil {r : Reader} (h : r.stack ≠ []) : r.flush.stack ≠ [] := by
  rw [← List.length_pos_iff, length_stack_flush]
  exact List.length_pos_iff.2 h

end Reader

end Stencil.Template
