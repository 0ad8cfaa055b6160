/-
  PackBindings.Proofs.Bindings.Slots — the names that one directory hands out.

  A directory has one slot for each of its own components and one for each segment that
  components below it start with.

  Proved, for every scope and all components:
  - `nodup_names_slots` / `not_mem_of_mem_slots`: the names of the slots differ from one
    another and from all names taken before.
  - `components_slots`: the accessors are for the directory's own components, in order.
  - `mem_children` / `nodup_segments_children`: the children are the segments that come
    first on the way to a component, each once.
-/

import Mathlib.Data.List.Nodup
import PackBindings.Bindings.Directory
import PackBindings.Proofs.Kotlin.NameCharacters

namespace PackBindings.Bindings

open PackBindings.Kotlin

namespace Slot

def name : Slot → String
  | accessor n _ => n
  | child _ n => n

def component? : Slot → Option Component
  | accessor _ c => some c
  | child .. => none

end Slot

/-- The components that lie in the directory itself. -/
def own (ps : List Placed) : List Component :=
  ps.filterMap fun
    | ([], c) => some c
    | (_ :: _, _) => none

/-! ## One slot -/

theorem claim_fresh (s : Scope) (base second : String) : (s.claim base second).1 ∉ s.taken :=
  s.freshName_not_mem _

theorem isPlain_claim {s : Scope} {base second : String} (hb : IsPlain base)
    (hs : IsPlain second) : IsPlain (s.claim base second).1 := by
  refine isPlain_freshName s ?_
  split
  · exact hs
  · exact hb

theorem slots_own (scope : Scope) (known : List String) (c : Component) (ps : List Placed) :
    slots scope known (([], c) :: ps) =
      .accessor (scope.claim (camel c.location.stem) (secondName c)).1 c ::
        slots (scope.reserve (scope.claim (camel c.location.stem) (secondName c)).1) known ps :=
  rfl

theorem slots_known {known : List String} {segment : String} (h : segment ∈ known)
    (scope : Scope) (segments : List String) (c : Component) (ps : List Placed) :
    slots scope known ((segment :: segments, c) :: ps) = slots scope known ps := by
  rw [slots, if_pos (by simpa using h)]

theorem slots_new {known : List String} {segment : String} (h : segment ∉ known)
    (scope : Scope) (segments : List String) (c : Component) (ps : List Placed) :
    slots scope known ((segment :: segments, c) :: ps) =
      .child segment (scope.freshName (pascal segment)) ::
        slots (scope.reserve (scope.freshName (pascal segment))) (segment :: known) ps := by
  rw [slots, if_neg (by simpa using h)]
  rfl

/-- Slots are handed out one after the other; each name is new where it is handed out. -/
theorem slots_induct {motive : Scope → List String → List Placed → List Slot → Prop}
    (nil : ∀ s known, motive s known [] [])
    (accessor : ∀ s known c ps name xs, name ∉ s.taken → IsPlain name →
      motive (s.reserve name) known ps xs → motive s known (([], c) :: ps) (.accessor name c :: xs))
    (seen : ∀ s known segment segments c ps xs, segment ∈ known →
      motive s known ps xs → motive s known ((segment :: segments, c) :: ps) xs)
    (child : ∀ s known segment segments c ps name xs, segment ∉ known → name ∉ s.taken →
      IsPlain name → motive (s.reserve name) (segment :: known) ps xs →
      motive s known ((segment :: segments, c) :: ps) (.child segment name :: xs))
    (s : Scope) (known : List String) (ps : List Placed) : motive s known ps (slots s known ps) := by
  induction ps generalizing s known with
  | nil => exact nil s known
  | cons p ps ih =>
    obtain ⟨_ | ⟨segment, segments⟩, c⟩ := p
    · rw [slots_own]
      exact accessor _ _ _ _ _ _ (s.freshName_not_mem _)
        (isPlain_claim (isPlain_camel _) (isPlain_camel _)) (ih _ _)
    · by_cases hk : segment ∈ known
      · rw [slots_known hk]
        exact seen _ _ _ _ _ _ _ hk (ih _ _)
      · rw [slots_new hk]
        exact child _ _ _ _ _ _ _ _ hk (s.freshName_not_mem _)
          (isPlain_freshName _ (isPlain_pascal _)) (ih _ _)

/-! ## All slots of a directory -/

theorem mem_slots {scope : Scope} {known : List String} {ps : List Placed} {x : Slot}
    (h : x ∈ slots scope known ps) : x.name ∉ scope.taken ∧ IsPlain x.name := by
  revert h
  refine slots_induct (motive := fun s _ _ xs => x ∈ xs → x.name ∉ s.taken ∧ IsPlain x.name)
    ?nil ?accessor ?seen ?child scope known ps
  case nil => simp
  case seen => exact fun _ _ _ _ _ _ _ _ ih => ih
  case accessor =>
    intro s _ c _ name xs hnew hplain ih h
    rcases List.mem_cons.1 h with rfl | h
    · exact ⟨hnew, hplain⟩
    · exact ⟨fun ht => (ih h).1 (List.mem_cons_of_mem _ ht), (ih h).2⟩
  case child =>
    intro s _ segment _ _ _ name xs _ hnew hplain ih h
    rcases List.mem_cons.1 h with rfl | h
    · exact ⟨hnew, hplain⟩
    · exact ⟨fun ht => (ih h).1 (List.mem_cons_of_mem _ ht), (ih h).2⟩

theorem not_mem_of_mem_slots {scope : Scope} {known : List String} {ps : List Placed} {x : Slot}
    (h : x ∈ slots scope known ps) : x.name ∉ scope.taken := (mem_slots h).1

theorem isPlain_of_mem_slots {scope : Scope} {known : List String} {ps : List Placed} {x : Slot}
    (h : x ∈ slots scope known ps) : IsPlain x.name := (mem_slots h).2

theorem nodup_names_slots (scope : Scope) (known : List String) (ps : List Placed) :
    ((slots scope known ps).map Slot.name).Nodup := by
  -- a name that has just been handed out is taken for all slots after it
  have later : ∀ (s : Scope) (known : List String) (ps : List Placed) (name : String),
      name ∉ (slots (s.reserve name) known ps).map Slot.name := by
    intro s known ps name hmem
    obtain ⟨x, hx, rfl⟩ := List.mem_map.1 hmem
    exact not_mem_of_mem_slots hx List.mem_cons_self
  induction ps generalizing scope known with
  | nil => exact List.nodup_nil
  | cons p ps ih =>
    obtain ⟨_ | ⟨segment, segments⟩, c⟩ := p
    · rw [slots_own, List.map_cons, List.nodup_cons]
      exact ⟨later _ _ _ _, ih _ _⟩
    · by_cases hk : segment ∈ known
      · rw [slots_known hk]
        exact ih _ _
      · rw [slots_new hk, List.map_cons, List.nodup_cons]
        exact ⟨later _ _ _ _, ih _ _⟩

theorem components_slots (scope : Scope) (known : List String) (ps : List Placed) :
    (slots scope known ps).filterMap Slot.component? = own ps := by
  refine slots_induct (motive := fun _ _ ps xs => xs.filterMap Slot.component? = own ps)
    ?nil ?accessor ?seen ?child scope known ps
  case nil => exact fun _ _ => rfl
  case seen => exact fun _ _ _ _ _ _ _ _ ih => ih
  case child => exact fun _ _ _ _ _ _ _ _ _ _ _ ih => ih
  case accessor =>
    intro _ _ c ps name xs _ _ ih
    exact congrArg (c :: ·) ih

/-- The components that have an accessor, with its name. -/
def accessors (xs : List Slot) : List (Component × String) :=
  xs.filterMap fun
    | .accessor name c => some (c, name)
    | .child .. => none

theorem mem_accessors {xs : List Slot} {c : Component} {name : String} :
    (c, name) ∈ accessors xs ↔ Slot.accessor name c ∈ xs := by
  rw [accessors, List.mem_filterMap]
  constructor
  · intro ⟨x, hx, h⟩
    cases x with
    | accessor n d =>
      obtain ⟨rfl, rfl⟩ := Prod.mk.inj (Option.some.inj h)
      exact hx
    | child segment n => simp at h
  · intro h
    exact ⟨_, h, rfl⟩

theorem components_accessors (scope : Scope) (ps : List Placed) :
    (accessors (slots scope [] ps)).map (·.1) = own ps := by
  rw [← components_slots scope [] ps, accessors, List.map_filterMap]
  congr 1
  funext x
  cases x <;> rfl

theorem nodup_names_accessors (scope : Scope) (ps : List Placed) :
    ((accessors (slots scope [] ps)).map (·.2)).Nodup := by
  have hsub : ∀ xs : List Slot, ((accessors xs).map (·.2)).Sublist (xs.map Slot.name) := by
    intro xs
    induction xs with
    | nil => exact List.Sublist.refl _
    | cons x xs ih =>
      cases x with
      | accessor n c => exact ih.cons_cons n
      | child segment n => exact ih.cons n
  exact (hsub _).nodup (nodup_names_slots scope [] ps)

/-! ## Children -/

/-- The segments that come first on the way to components below. -/
def StartsWith (ps : List Placed) (segment : String) : Prop :=
  ∃ p ∈ ps, p.1.head? = some segment

theorem startsWith_own {c : Component} {ps : List Placed} {segment : String} :
    StartsWith (([], c) :: ps) segment ↔ StartsWith ps segment := by
  simp [StartsWith]

theorem startsWith_cons {first : String} {segments : List String} {c : Component}
    {ps : List Placed} {segment : String} :
    StartsWith ((first :: segments, c) :: ps) segment ↔ segment = first ∨ StartsWith ps segment := by
  rw [StartsWith, List.exists_mem_cons_iff, List.head?_cons, Option.some.injEq, eq_comm]
  rfl

def segment? : Slot → Option String
  | .accessor .. => none
  | .child segment _ => some segment

theorem segments_slots (scope : Scope) (known : List String) (ps : List Placed) :
    ((slots scope known ps).filterMap segment?).Nodup ∧
      ∀ segment, segment ∈ (slots scope known ps).filterMap segment? ↔
        segment ∉ known ∧ StartsWith ps segment := by
  refine slots_induct (motive := fun _ known ps xs => (xs.filterMap segment?).Nodup ∧
      ∀ segment, segment ∈ xs.filterMap segment? ↔ segment ∉ known ∧ StartsWith ps segment)
    ?nil ?accessor ?seen ?child scope known ps
  case nil => simp [StartsWith]
  case accessor =>
    intro _ known c ps name xs _ _ ih
    refine ⟨ih.1, fun segment => ?_⟩
    rw [startsWith_own]
    exact ih.2 segment
  case seen =>
    intro _ known first segments c ps xs hk ih
    refine ⟨ih.1, fun segment => ?_⟩
    rw [ih.2 segment, startsWith_cons]
    constructor
    · exact fun ⟨h, hp⟩ => ⟨h, Or.inr hp⟩
    · rintro ⟨h, rfl | hp⟩
      · exact absurd hk h
      · exact ⟨h, hp⟩
  case child =>
    intro _ known first segments c ps name xs hk _ _ ih
    have hcons : (Slot.child first name :: xs).filterMap segment? =
        first :: xs.filterMap segment? := rfl
    rw [hcons, List.nodup_cons]
    refine ⟨⟨fun h => ((ih.2 _).1 h).1 List.mem_cons_self, ih.1⟩, fun segment => ?_⟩
    rw [List.mem_cons, ih.2 segment, startsWith_cons, List.mem_cons, not_or]
    constructor
    · rintro (rfl | ⟨⟨_, h⟩, hp⟩)
      · exact ⟨hk, Or.inl rfl⟩
      · exact ⟨h, Or.inr hp⟩
    · rintro ⟨h, he | hp⟩
      · exact Or.inl he
      · by_cases he : segment = first
        · exact Or.inl he
        · exact Or.inr ⟨⟨he, h⟩, hp⟩

theorem mem_children {xs : List Slot} {segment name : String} :
    (segment, name) ∈ children xs ↔ Slot.child segment name ∈ xs := by
  rw [children, List.mem_mergeSort, List.mem_filterMap]
  constructor
  · rintro ⟨x, hx, h⟩
    cases x with
    | accessor n c => simp at h
    | child s n =>
      obtain ⟨rfl, rfl⟩ := Prod.mk.inj (Option.some.inj h)
      exact hx
  · exact fun h => ⟨_, h, rfl⟩

theorem perm_segments_children (xs : List Slot) :
    ((children xs).map (·.1)).Perm (xs.filterMap segment?) := by
  refine ((List.mergeSort_perm _ _).map _).trans (List.Perm.of_eq ?_)
  rw [List.map_filterMap]
  congr 1
  funext x
  cases x <;> rfl

theorem nodup_segments_children (scope : Scope) (ps : List Placed) :
    ((children (slots scope [] ps)).map (·.1)).Nodup :=
  (perm_segments_children _).nodup_iff.2 (segments_slots scope [] ps).1

theorem exists_mem_children_iff {scope : Scope} {ps : List Placed} {segment : String} :
    (∃ name, (segment, name) ∈ children (slots scope [] ps)) ↔ StartsWith ps segment := by
  have h := (segments_slots scope [] ps).2 segment
  rw [← (perm_segments_children _).mem_iff, List.mem_map] at h
  constructor
  · rintro ⟨name, hmem⟩
    exact (h.1 ⟨_, hmem, rfl⟩).2
  · intro hs
    obtain ⟨⟨s, name⟩, hmem, rfl⟩ := h.2 ⟨List.not_mem_nil, hs⟩
    exact ⟨name, hmem⟩

end PackBindings.Bindings
