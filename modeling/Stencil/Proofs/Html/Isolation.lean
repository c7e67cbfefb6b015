import Stencil.Proofs.Html.Calls

/-!
# Isolation of bodies

Inside an element such as `script` or `textarea` a serializer is asked for one text and nothing
else (`isolated_calls`): no element and no comment is ever written there, whatever the fragment, so
what a serializer writes as it is was never markup.
-/

namespace Stencil.Html

/-- Requests that make no element and no comment inside an element with a body, and no text there
but its body, right before the element itself. -/
def Isolated : List Call → Prop
  | [] => True
  | .start _ :: cs => Isolated cs
  | .text parent t :: cs =>
    (parent.readsBody = true → IsBody parent.name t ∧
      ∃ outer, cs.head? = some (.element outer parent [])) ∧ Isolated cs
  | .element parent _ _ :: cs => parent.readsBody = false ∧ Isolated cs
  | .comment parent _ :: cs => parent.readsBody = false ∧ Isolated cs

/-- The requests of a walk are isolated, as long as no element it starts in has a body. -/
theorem isolated_of_walk {P : List Element → Element → Prop} {context : Element}
    {S S' : List Element} {es : List Event} (h : Walk P S es S')
    (hopen : ∀ e ∈ S ++ [context], e.readsBody = false) {e : Element} {outer : List Element}
    (hpath : S ++ [context] = e :: outer) : Isolated (Event.calls e outer es) := by
  induction h generalizing e outer with
  | stay => trivial
  | text ht _ ih =>
    have he : e.readsBody = false := hopen e (by rw [hpath]; exact List.mem_cons_self)
    refine ⟨fun hbody => ?_, ih hopen hpath⟩
    rw [he] at hbody
    cases hbody
  | comment ht _ ih => exact ⟨hopen e (by rw [hpath]; exact List.mem_cons_self), ih hopen hpath⟩
  | notice _ ih => exact ih hopen hpath
  | leaf _ _ _ ih => exact ⟨hopen e (by rw [hpath]; exact List.mem_cons_self), ih hopen hpath⟩
  | @enter S S' d es _ hbody _ _ ih =>
    refine ih (fun c hc => ?_) (congrArg (d :: ·) hpath)
    rcases List.mem_cons.1 hc with rfl | hc
    · exact hbody
    · exact hopen c hc
  | @leave S S' d es _ ih =>
    obtain ⟨rfl, rfl⟩ := List.cons.inj hpath
    have hopen' : ∀ c ∈ S ++ [context], c.readsBody = false := fun c hc =>
      hopen c (List.mem_cons_of_mem _ hc)
    change Isolated (Event.calls d (S ++ [context]) (.leave :: es))
    cases hS : S ++ [context] with
    | nil => simp at hS
    | cons parent outer =>
      exact ⟨hopen' parent (by rw [hS]; exact List.mem_cons_self), ih hopen' hS⟩
  | @body S S' d c es _ hbody hc _ ih =>
    have he : e.readsBody = false := hopen e (by rw [hpath]; exact List.mem_cons_self)
    unfold Event.ofText
    split
    · exact ⟨he, ih hopen hpath⟩
    · exact ⟨fun _ => ⟨hc, e, rfl⟩, he, ih hopen hpath⟩

theorem isolated_parse {context : Element} (hcontext : context.isHtml = true)
    (hbody : context.readsBody = false) (t : Text) :
    Isolated (Event.calls context [] (parse context t)) := by
  have hholds : context.holdsHtml = true := by rw [Element.holdsHtml, hcontext, Bool.true_or]
  have hwalk : Walk (fun _ _ => True) [] (parse context t) [] :=
    walk_parse hholds t fun _ _ _ _ _ _ => trivial
  refine isolated_of_walk hwalk (fun e he => ?_) rfl
  rw [List.mem_singleton.1 he]
  exact hbody

theorem not_readsBody_of_isolated {cs : List Call} (h : Isolated cs) {c : Call} (hc : c ∈ cs) :
    (∀ parent e contents, c = .element parent e contents → parent.readsBody = false) ∧
      ∀ parent t, c = .comment parent t → parent.readsBody = false := by
  induction cs with
  | nil => cases hc
  | cons d cs ih =>
    rcases List.mem_cons.1 hc with rfl | hc
    · cases c <;> simp_all [Isolated]
    · refine ih ?_ hc
      cases d <;> simp_all [Isolated]

theorem text_of_isolated {before after : List Call} {parent : Element} {t : Text}
    (h : Isolated (before ++ .text parent t :: after)) (hbody : parent.readsBody = true) :
    IsBody parent.name t ∧ ∃ outer, after.head? = some (.element outer parent []) := by
  induction before with
  | nil => exact h.1 hbody
  | cons d before ih =>
    refine ih ?_
    cases d <;> simp_all [Isolated]

/-- **Bodies are isolated.** Whatever a fragment holds, no serializer is asked to write an element
or a comment inside an element with a body, and it is asked for text there only right before the
element itself: for its whole body, which holds no close tag that would have ended it. -/
theorem isolated_calls {σ : Type} (z : Serializer (StateM σ)) (fragment : Text) (s : σ) :
    (∀ parent e contents, .element parent e contents ∈
        z.calls divElement (parse divElement fragment) s → parent.readsBody = false) ∧
      (∀ parent t, .comment parent t ∈ z.calls divElement (parse divElement fragment) s →
        parent.readsBody = false) ∧
      ∀ before parent t after,
        z.calls divElement (parse divElement fragment) s = before ++ .text parent t :: after →
          parent.readsBody = true →
            IsBody parent.name t ∧
              ∃ outer contents rest, after = .element outer parent contents :: rest := by
  have hcalls := z.bare_calls divElement (parse divElement fragment) s
  have hisolated : Isolated ((z.calls divElement (parse divElement fragment) s).map Call.bare) := by
    rw [hcalls]
    exact isolated_parse rfl (by decide) fragment
  generalize z.calls divElement (parse divElement fragment) s = cs at hisolated
  refine ⟨fun parent e contents h => ?_, fun parent t h => ?_, fun before parent t after h hb => ?_⟩
  · exact (not_readsBody_of_isolated hisolated (List.mem_map_of_mem h)).1 parent e [] rfl
  · exact (not_readsBody_of_isolated hisolated (List.mem_map_of_mem h)).2 parent t rfl
  · rw [h, List.map_append] at hisolated
    obtain ⟨hc, outer, hhead⟩ := text_of_isolated hisolated hb
    refine ⟨hc, outer, ?_⟩
    cases after with
    | nil => cases hhead
    | cons c rest =>
      have hbare : c.bare = .element outer parent [] := Option.some.inj hhead
      cases c with
      | element p e contents =>
        cases hbare
        exact ⟨contents, rest, rfl⟩
      | start | text | comment => cases hbare

/-- A body may end in the opening of a close tag, up to its name: what follows the name in the
fragment is no longer part of the body. -/
theorem body_ends_in_close_tag : ¬∀ (fragment : Text) (before : List Call) (parent : Element)
    (t : Text) (after : List Call),
    (Serializer.plain fun _ => pure ()).calls divElement (parse divElement fragment) () =
        before ++ .text parent t :: after →
      parent.isHtml = true → isRawText parent.name = true → parent.name ≠ plaintextName →
        ¬∃ start written rest, t = start ++ "</".toList ++ written ++ rest ∧
          Ascii.sameName written parent.name = true ∧ rest.head?.all Tag.endsName = true := by
  intro h
  refine h "<script></script</script>".toList [.start divElement] { name := "script".toList }
    "</script".toList
    [.element divElement { name := "script".toList } "</script".toList] ?_ rfl (by decide)
    (by decide) ⟨[], "script".toList, [], by decide, by decide, by decide⟩
  decide +kernel

end Stencil.Html
