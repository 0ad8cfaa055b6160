/-
  PackBindings.Proofs.Kotlin.Lookup — what a name refers to inside nested objects.

  A name that is written in an object is looked for among the members of that object, and
  then among those of the objects around it, from the inside out. The first object that
  declares it decides (`Source.lookup`); a name that none of them declares is left to the
  imports.

  Proved, for all sources:
  - `lookup_eq_none_iff`: a name is left to the imports if no object around declares it.
  - `lookup_eq_some_iff`: the object that is found declares the name, and no object farther
    inside does, where no two objects have the same path.
-/

import Mathlib.Data.List.Induction
import PackBindings.Proofs.Kotlin.Objects

namespace PackBindings.Kotlin

namespace Source

variable (s : Source)

/-- The object at a path, if it declares a name. -/
def declaring (path : List String) (n : String) : Option Node :=
  s.objects.find? fun o => o.1 = path ∧ n ∈ o.2.map Decl.name

/-- The object in which a name is found. The path is given from the inside out. -/
def lookupFrom (n : String) : List String → Option Node
  | [] => none
  | inner :: outer => (s.declaring (inner :: outer).reverse n).or (lookupFrom n outer)

def lookup (path : List String) (n : String) : Option Node := s.lookupFrom n path.reverse

variable {s}

theorem lookup_concat (path : List String) (inner n : String) :
    s.lookup (path ++ [inner]) n = (s.declaring (path ++ [inner]) n).or (s.lookup path n) := by
  unfold lookup
  rw [List.reverse_append, List.reverse_singleton, List.singleton_append, lookupFrom,
    List.reverse_cons, List.reverse_reverse]

theorem path_ne_nil {o : Node} (ho : o ∈ s.objects) : o.1 ≠ [] := by
  rcases mem_objects.1 ho with rfl | ⟨i, -, rfl⟩
  · exact List.cons_ne_nil _ _
  · exact List.cons_ne_nil _ _

theorem declaring_eq_none_iff {path : List String} {n : String} :
    s.declaring path n = none ↔ ∀ o ∈ s.objects, o.1 = path → n ∉ o.2.map Decl.name := by
  unfold declaring
  rw [List.find?_eq_none]
  refine forall₂_congr fun o _ => ?_
  rw [decide_eq_true_iff, not_and]

theorem mem_of_declaring {path : List String} {n : String} {o : Node}
    (h : s.declaring path n = some o) : o ∈ s.objects ∧ o.1 = path ∧ n ∈ o.2.map Decl.name := by
  unfold declaring at h
  exact ⟨List.mem_of_find?_eq_some h, by simpa using List.find?_some h⟩

theorem lookup_eq_none_iff {path : List String} {n : String} :
    s.lookup path n = none ↔ ∀ o ∈ s.objects, o.1 <+: path → n ∉ o.2.map Decl.name := by
  induction path using List.reverseRecOn with
  | nil =>
    refine iff_of_true rfl fun o ho hpath => ?_
    exact absurd (List.prefix_nil.1 hpath) (path_ne_nil ho)
  | append_singleton path inner ih =>
    rw [lookup_concat, Option.or_eq_none_iff, declaring_eq_none_iff, ih]
    constructor
    · intro ⟨hinner, houter⟩ o ho hpath
      rcases List.prefix_concat_iff.1 hpath with hpath | hpath
      · exact hinner o ho hpath
      · exact houter o ho hpath
    · intro h
      refine ⟨fun o ho hpath => h o ho (hpath ▸ List.prefix_rfl), fun o ho hpath => ?_⟩
      exact h o ho (hpath.trans (List.prefix_append path [inner]))

/-- An object around a place that declares a name. -/
structure Offers (s : Source) (path : List String) (n : String) (o : Node) : Prop where
  mem : o ∈ s.objects
  around : o.1 <+: path
  declares : n ∈ o.2.map Decl.name

theorem lookup_eq_some_iff (hnd : (s.objects.map (·.1)).Nodup) {path : List String} {n : String}
    {o : Node} : s.lookup path n = some o ↔
      s.Offers path n o ∧ ∀ i, s.Offers path n i → i.1.length ≤ o.1.length := by
  induction path using List.reverseRecOn with
  | nil =>
    refine iff_of_false nofun fun h => ?_
    exact path_ne_nil h.1.mem (List.prefix_nil.1 h.1.around)
  | append_singleton path inner ih =>
    rw [lookup_concat]
    cases hd : s.declaring (path ++ [inner]) n with
    | some i =>
      -- an object that is as long as the path is the innermost one
      obtain ⟨hi, hpath, hn⟩ := mem_of_declaring hd
      have hoffers : s.Offers (path ++ [inner]) n i := ⟨hi, hpath ▸ List.prefix_rfl, hn⟩
      rw [Option.some_or, Option.some.injEq]
      constructor
      · rintro rfl
        refine ⟨hoffers, fun j hj => ?_⟩
        rw [hpath]
        exact hj.around.length_le
      · intro ⟨ho, hlongest⟩
        have hlen := hlongest i hoffers
        rw [hpath] at hlen
        have hsame : o.1 = path ++ [inner] := ho.around.eq_of_length_le hlen
        exact List.inj_on_of_nodup_map hnd hi ho.mem (hpath.trans hsame.symm)
    | none =>
      have hnone := declaring_eq_none_iff.1 hd
      have hoffers : ∀ i, s.Offers (path ++ [inner]) n i ↔ s.Offers path n i := by
        intro i
        constructor
        · intro h
          rcases List.prefix_concat_iff.1 h.around with hi | hi
          · exact absurd h.declares (hnone i h.mem hi)
          · exact ⟨h.mem, hi, h.declares⟩
        · intro h
          exact ⟨h.mem, h.around.trans (List.prefix_append path [inner]), h.declares⟩
      rw [Option.none_or, ih, hoffers o]
      simp only [hoffers]

end Source

end PackBindings.Kotlin
