import Stencil.Html.Event
import Stencil.Html.Scope
import Stencil.Html.Token

/-!
# Builder

The builder turns tokens into events. It knows the context element, whose contents are being
parsed, and the elements opened inside it. A tag may close elements that are open, open one,
or do nothing. End tags that are left out are implied: a paragraph ends where a block
starts, a list item where the next one starts. Inside SVG and MathML elements the foreign
rules hold up to a tag that only HTML has.

The builder never sees what a fragment is serialized to, so the events are the same for
every serializer.
-/

namespace Stencil.Html

/-- The state between two tokens. -/
structure Builder where
  /-- The element whose contents are parsed; it is never closed. -/
  context : Element
  /-- The elements open inside the context element, innermost first. -/
  stack : List Element := []
  /-- Whether a line feed at the start of the next token is dropped. -/
  skipNewline : Bool := false
  deriving DecidableEq, Repr

/-- What a token does: the elements open after it, and its events in order. -/
structure Step where
  stack : List Element
  events : List Event := []
  /-- Whether a line feed at the start of the next token is dropped. -/
  skipNewline : Bool := false
  deriving DecidableEq, Repr

namespace Step

/-- Adds an event that leaves the open elements as they are. -/
def emit (s : Step) (e : Event) : Step := { s with events := s.events ++ [e] }

/-- Closes the innermost `n` open elements, or as many as there are. -/
def close (s : Step) (n : Nat) : Step :=
  { s with stack := s.stack.drop n, events := s.events ++ (s.stack.take n).map fun _ => .leave }

/-- Opens an element. -/
def enter (s : Step) (e : Element) : Step :=
  { s with stack := e :: s.stack, events := s.events ++ [.enter e] }

/-- Closes the nearest matching element in scope, and those inside it. -/
def closeInScope (s : Step) (scope : Scope) (matching : Element → Bool) : Step :=
  match scope.depth? matching s.stack with
  | some n => s.close n
  | none => s

/-- Closes foreign elements up to one whose contents are HTML. -/
def leaveForeign (s : Step) : Step :=
  s.close (s.stack.takeWhile fun e => !e.holdsHtml).length

/-- The innermost open element, or the context element. -/
def current (s : Step) (context : Element) : Element := s.stack.headD context

/-- Inserts an SVG or MathML element, with the capital letters SVG gives its names. A slash before
the closing bracket leaves it without contents. -/
def insertForeign (s : Step) (name : Text) (ns : Namespace) (attributes : Attributes)
    (selfClosing : Bool) : Step :=
  let e : Element :=
    if ns = .svg then
      { name := restoreCase svgElementNames name, ns, selfClosing
        attributes := attributes.map fun (n, v) => (restoreCase svgAttributeNames n, v) }
    else { name, ns, attributes, selfClosing }
  if selfClosing then s.emit (.leaf e) else s.enter e

/-- Inserts an HTML element. Void elements have no contents, and neither have those with a colon in
their name and a slash before the closing bracket. -/
def insertHtml (s : Step) (name : Text) (attributes : Attributes) (selfClosing : Bool) : Step :=
  let e : Element := { name, attributes, selfClosing }
  if isVoid name || (selfClosing && name.contains ':') then s.emit (.leaf e)
  else { s.enter e with skipNewline := dropsLeadingNewline name }

end Step

namespace Builder

/-- Tags of the document around a fragment, which mean nothing inside one. -/
def documentNames : List Text := ["html", "head", "body"].map String.toList

def listItemNames : List Text := ["li", "dd", "dt"].map String.toList

def definitionNames : List Text := ["dd", "dt"].map String.toList

def optionNames : List Text := ["option", "optgroup"].map String.toList

def cellNames : List Text := ["td", "th"].map String.toList

/-- Elements whose end tag is looked for in table scope. -/
def tableScopeNames : List Text := ["table", "caption", "tr", "td", "th"].map String.toList

/-- Whether an element has a name. -/
def named (name : Text) (e : Element) : Bool := e.name = name

/-- Whether an element has one of the names. -/
def amongst (names : List Text) (e : Element) : Bool := e.name ∈ names

/-- The innermost open element, or the context element. -/
def current (b : Builder) : Element := b.stack.headD b.context

/-- Whether a start tag ends the foreign content around it. -/
def breaksOut (name : Text) (attributes : Attributes) : Bool :=
  name ∈ breakoutNames ||
    (name = "font".toList && fontBreakoutAttributes.any attributes.contains)

/-- Closes the open paragraph that a start tag ends. -/
def endParagraph (name : Text) (s : Step) : Step :=
  if closesParagraph name || name ∈ listItemNames then
    s.closeInScope .button (named "p".toList)
  else s

/-- Closes the open element of the same kind that a start tag ends. -/
def endSibling (context : Element) (name : Text) (s : Step) : Step :=
  if isHeading name then
    if (s.current context).isHtml && isHeading (s.current context).name then
      (s.emit (.headingNested name)).close 1
    else s
  else if name = "li".toList then s.closeInScope .listItem (named name)
  else if name ∈ definitionNames then s.closeInScope .general (amongst definitionNames)
  else if name ∈ optionNames then
    if (s.current context).isHtmlNamed "option".toList then s.close 1 else s
  else if name = "tr".toList then s.closeInScope .table (named name)
  else if name ∈ cellNames then s.closeInScope .table (amongst cellNames)
  else if name = "a".toList then
    match Scope.general.depth? (named name) s.stack with
    | some n => (s.emit .anchorNested).close n
    | none => s
  else s

/-- What an HTML start tag does where the rules of HTML hold. -/
def htmlStartTag (context : Element) (name : Text) (attributes : Attributes) (selfClosing : Bool)
    (s : Step) : Step :=
  if name ∈ documentNames then s.emit (.documentTagIgnored name)
  else if name = "svg".toList then s.insertForeign name .svg attributes selfClosing
  else if name = "math".toList then s.insertForeign name .math attributes selfClosing
  else
    (endSibling context name (endParagraph name s)).insertHtml name attributes selfClosing

/-- What a start tag does. -/
def startTag (b : Builder) (name : Text) (attributes : Attributes) (selfClosing : Bool) : Step :=
  let s : Step := { stack := b.stack }
  if b.current.holdsHtml then htmlStartTag b.context name attributes selfClosing s
  else if breaksOut name attributes then
    htmlStartTag b.context name attributes selfClosing (s.emit (.foreignLeft name)).leaveForeign
  else s.insertForeign name b.current.ns attributes selfClosing

/-- The scope in which the element of an end tag is looked for. -/
def endTagScope (name : Text) : Scope :=
  if name = "li".toList then .listItem
  else if name ∈ tableScopeNames then .table
  else .general

/-- Whether an element is closed by the end tag of a name: any heading closes any other. -/
def closedBy (name : Text) (e : Element) : Bool :=
  if isHeading name then isHeading e.name else e.name = name

/-- What an end tag does where the rules of HTML hold. -/
def htmlEndTag (name : Text) (s : Step) : Step :=
  if name ∈ documentNames then s
  else if name = "p".toList then
    match Scope.button.depth? (named name) s.stack with
    | some n => s.close n
    | none => (s.emit .paragraphMissing).emit (.leaf { name })
  else if name = "br".toList then (s.emit .breakEnded).emit (.leaf { name })
  else
    match (endTagScope name).depth? (closedBy name) s.stack with
    | some n => s.close n
    | none => s.emit (.strayEndTag name)

/-- What an end tag does. -/
def endTag (b : Builder) (name : Text) : Step :=
  let s : Step := { stack := b.stack }
  match foreignDepth? name b.stack with
  | some n => s.close n
  | none => htmlEndTag name s

/-- Text without a line feed at its start. -/
def dropNewline : Text → Text
  | '\n' :: t => t
  | t => t

/-- What a token does. -/
def step (b : Builder) : Token → Step
  | .doctype content => { stack := b.stack, events := [.doctypeIgnored content] }
  | .comment content => { stack := b.stack, events := [.comment content] }
  | .text content =>
    let content := if b.skipNewline then dropNewline content else content
    { stack := b.stack, events := if content = [] then [] else [.text content] }
  | .startTag name attributes selfClosing =>
    b.startTag name (attributes.map fun (n, v) => (n, v.getD [])) selfClosing
  | .endTag name => b.endTag name

/-- The state after a token, and the events of the token. -/
def push (b : Builder) (t : Token) : Builder × List Event :=
  let s := b.step t
  ({ b with stack := s.stack, skipNewline := s.skipNewline }, s.events)

/-- The events of the end of the fragment: every open element is closed. -/
def finish (b : Builder) : List Event := b.stack.map fun _ => .leave

end Builder

end Stencil.Html
