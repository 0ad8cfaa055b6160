/-
  PackBindings.Proofs.Bindings.Wishes — which names the members of a directory get.

  A component wishes for its file name in camel case, a subdirectory for its own name in
  Pascal case (`wish`). Who wishes for a free name first gets it. Whatever else is handed
  out is a second name or has a number at its end.

  Proved, for every scope and all components:
  - `exists_slot_of_wish`: a free name that is wished for is handed out.
  - `secondName_ne`: a second name ends as the suffix of its kind does.
  - `exists_slot_iff`: a name without a number that is no second name is handed out exactly
    if it is free and wished for.
-/

import PackBindings.Proofs.Bindings.Slots
import PackBindings.Proofs.Kotlin.NameEnds

namespace PackBindings.Bindings

open PackBindings.Kotlin

/-- The name that is asked for, for a component in the directory itself or for the subdirectory
that holds it. -/
def wish : Placed → String
  | ([], c) => camel c.location.stem
  | (segment :: _, _) => pascal segment

theorem wish_of_head? {p : Placed} {segment : String} (h : p.1.head? = some segment) :
    wish p = pascal segment := by
  obtain ⟨_ | ⟨first, segments⟩, c⟩ := p
  · simp at h
  · rw [← Option.some.inj h]
    rfl

/-! ## Wishes that are granted -/

theorem exists_slot_of_wish {scope : Scope} {known : List String} {ps : List Placed} {p : Placed}
    (hp : p ∈ ps) (hknown : ∀ segment, p.1.head? = some segment → segment ∉ known)
    (hfree : wish p ∉ scope.taken) : ∃ x ∈ slots scope known ps, x.name = wish p := by
  induction ps generalizing scope known with
  | nil => exact absurd hp List.not_mem_nil
  | cons q ps ih =>
    obtain ⟨_ | ⟨segment, segments⟩, c⟩ := q
    · rw [slots_own]
      by_cases hname : (scope.claim (camel c.location.stem) (secondName c)).1 = wish p
      · exact ⟨_, List.mem_cons_self, hname⟩
      · have hrest : p ∈ ps := by
          rcases List.mem_cons.1 hp with rfl | hp
          · exact absurd (Scope.claim_of_not_mem hfree _) hname
          · exact hp
        have hstill : wish p ∉ (scope.reserve
            (scope.claim (camel c.location.stem) (secondName c)).1).taken :=
          List.not_mem_cons_of_ne_of_not_mem (Ne.symm hname) hfree
        obtain ⟨x, hx, he⟩ := ih hrest hknown hstill
        exact ⟨x, List.mem_cons_of_mem _ hx, he⟩
    · by_cases hk : segment ∈ known
      · rw [slots_known hk]
        refine ih ?_ hknown hfree
        rcases List.mem_cons.1 hp with rfl | hp
        · exact absurd hk (hknown segment rfl)
        · exact hp
      · rw [slots_new hk]
        by_cases hname : scope.freshName (pascal segment) = wish p
        · exact ⟨_, List.mem_cons_self, hname⟩
        · -- only who is on the way to this subdirectory would have been served
          have hother : p.1.head? ≠ some segment := by
            intro hhead
            have hwish := wish_of_head? hhead
            exact hname (hwish ▸ Scope.freshName_of_not_mem (hwish ▸ hfree))
          have hrest : p ∈ ps := by
            rcases List.mem_cons.1 hp with rfl | hp
            · exact absurd rfl hother
            · exact hp
          have hnew : ∀ first, p.1.head? = some first → first ∉ segment :: known := by
            intro first hhead
            refine List.not_mem_cons_of_ne_of_not_mem ?_ (hknown first hhead)
            rintro rfl
            exact hother hhead
          have hstill : wish p ∉ (scope.reserve (scope.freshName (pascal segment))).taken :=
            List.not_mem_cons_of_ne_of_not_mem (Ne.symm hname) hfree
          obtain ⟨x, hx, he⟩ := ih hrest hnew hstill
          exact ⟨x, List.mem_cons_of_mem _ hx, he⟩

/-! ## What else is handed out -/

/-- A slot has a name that some scope hands out for a wish or for a second name. -/
theorem origin_of_mem_slots {scope : Scope} {known : List String} {ps : List Placed} {x : Slot}
    (h : x ∈ slots scope known ps) :
    ∃ (s : Scope) (p : Placed), p ∈ ps ∧
      (x.name = s.freshName (wish p) ∨ x.name = s.freshName (secondName p.2)) := by
  induction ps generalizing scope known with
  | nil => exact absurd h List.not_mem_nil
  | cons q ps ih =>
    have hrest : ∀ {s : Scope} {known : List String}, x ∈ slots s known ps →
        ∃ (s : Scope) (p : Placed), p ∈ q :: ps ∧
          (x.name = s.freshName (wish p) ∨ x.name = s.freshName (secondName p.2)) := by
      intro s known hx
      obtain ⟨s, p, hp, hname⟩ := ih hx
      exact ⟨s, p, List.mem_cons_of_mem _ hp, hname⟩
    obtain ⟨_ | ⟨segment, segments⟩, c⟩ := q
    · rw [slots_own] at h
      rcases List.mem_cons.1 h with rfl | h
      · refine ⟨scope, ([], c), List.mem_cons_self, ?_⟩
        show (scope.claim (camel c.location.stem) (secondName c)).1 = _ ∨
          (scope.claim (camel c.location.stem) (secondName c)).1 = _
        unfold Scope.claim
        split
        · exact Or.inr rfl
        · exact Or.inl rfl
      · exact hrest h
    · by_cases hk : segment ∈ known
      · rw [slots_known hk] at h
        exact hrest h
      · rw [slots_new hk] at h
        rcases List.mem_cons.1 h with rfl | h
        · exact ⟨scope, (segment :: segments, c), List.mem_cons_self, Or.inl rfl⟩
        · exact hrest h

theorem suffix_words (k : Kind) :
    k.shape.suffix.toList ≠ [] ∧ ∀ c ∈ k.shape.suffix.toList, c.isAlphanum = true := by
  have hall : k.shape.suffix.toList.all Char.isAlphanum = true := by cases k <;> decide
  exact ⟨by cases k <;> decide, List.all_eq_true.1 hall⟩

theorem secondName_ne {name : String}
    (h : ∀ k : Kind, ¬k.shape.suffix.toList.tail <:+ name.toList) (c : Component) :
    secondName c ≠ name := by
  rintro rfl
  obtain ⟨hne, hchars⟩ := suffix_words c.kind
  refine h c.kind ?_
  have hlist : (secondName c).toList =
      camelChars (c.location.stem.toList ++ '_' :: c.kind.shape.suffix.toList) := by
    simp [secondName, camel]
  rw [hlist]
  exact tail_suffix_camelChars hne hchars

/-- Names that only a wish leads to. -/
structure IsWished (name : String) : Prop where
  bare : EndsBare name
  second : ∀ c, secondName c ≠ name

theorem exists_slot_iff {name : String} (h : IsWished name) {scope : Scope} {ps : List Placed} :
    (∃ x ∈ slots scope [] ps, x.name = name) ↔ name ∉ scope.taken ∧ ∃ p ∈ ps, wish p = name := by
  constructor
  · rintro ⟨x, hx, rfl⟩
    refine ⟨not_mem_of_mem_slots hx, ?_⟩
    obtain ⟨s, p, hp, hwish | hsecond⟩ := origin_of_mem_slots hx
    · exact ⟨p, hp, eq_of_freshName h.bare hwish.symm⟩
    · exact absurd (eq_of_freshName h.bare hsecond.symm) (h.second p.2)
  · rintro ⟨hfree, p, hp, rfl⟩
    exact exists_slot_of_wish hp (fun _ _ => List.not_mem_nil) hfree

/-- The constants, and what calls begin with, are no names of classes. -/
theorem unreserved : ∀ n ∈ ["NAMESPACE", "PATH", "PREFIX", "NAMESPACES"] ++ ["nbt", "io", "listOf"],
    n ∉ reservedNames := by
  unfold reservedNames
  simp only [List.mem_eraseDups]
  decide

end PackBindings.Bindings
