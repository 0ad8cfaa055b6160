/-
  PackBindings.Proofs.Settings.Packages — the directories of packages.

  Files go to the package of the settings or to one just below it. The directory of a
  package leaves out the parent package, if the package lies below it; a package that
  is the parent itself does not, so it keeps all of its segments while the packages
  below it lose them.

  Proved, for all settings, every package and every segment without a dot:
  - `segmentsOf_child`: where the package is not the parent, the directory of a package
    below it is that of the package and one more segment.
  - `segmentsOf_child_of_parent`: where it is, it is that segment alone.
  - `mem_splitOn_of_mem_segmentsOf`: the segments of a directory are segments of its package.
  - `intercalate_segmentsOf_below` / `intercalate_segmentsOf_beside`: with dots between them
    they are the package without the parent, if it lies below that, and else the package.
-/

import Mathlib.Data.List.Basic
import PackBindings.Proofs.Kotlin.NameCharacters
import PackBindings.Settings

namespace PackBindings.Settings

/-! ## Packages -/

/-- A name that can stand between dots. -/
def IsPart (part : List Char) : Prop := part ≠ [] ∧ ∀ c ∈ part, Kotlin.isNameChar c = true

theorem isPart_of_isPackageSegment {segment : List Char} (h : isPackageSegment segment = true) :
    IsPart segment := by
  cases segment with
  | nil => simp [isPackageSegment] at h
  | cons c cs =>
    simp only [isPackageSegment, Bool.and_eq_true, List.all_eq_true] at h
    obtain ⟨hc, hcs⟩ := h
    refine ⟨List.cons_ne_nil c cs, fun d hd => ?_⟩
    rcases List.mem_cons.1 hd with rfl | hd
    · simp only [Kotlin.isNameChar, Char.isAlphanum, Bool.or_eq_true] at hc ⊢
      exact hc.imp_left Or.inl
    · exact hcs d hd

theorem isPackage_of_valid {s : Settings} (h : s.invalidPackage? = none) :
    isPackage s.package = true := by
  rw [invalidPackage?] at h
  split at h
  · simp at h
  · rename_i hp
    simpa using hp

theorem package_ne_empty {s : Settings} (h : s.invalidPackage? = none) : s.package ≠ "" := by
  intro he
  have hp := isPackage_of_valid h
  rw [he] at hp
  exact absurd hp (by decide)

/-! ## The part below the parent -/

/-- Putting a segment after a package takes nothing away from what lies below the parent, unless
the package is the parent. -/
theorem isPrefixOf?_child {parent package segment : List Char} (hseg : '.' ∉ segment) :
    (parent ++ ['.']).isPrefixOf? (package ++ '.' :: segment) =
      if parent = package then some segment
      else ((parent ++ ['.']).isPrefixOf? package).map (· ++ '.' :: segment) := by
  by_cases h : parent = package
  · rw [if_pos h, List.isPrefixOf?_eq_some_iff_append_eq, h]
    simp
  · rw [if_neg h]
    cases hp : (parent ++ ['.']).isPrefixOf? package with
    | some rest =>
      rw [List.isPrefixOf?_eq_some_iff_append_eq] at hp
      rw [Option.map_some, List.isPrefixOf?_eq_some_iff_append_eq, ← hp]
      simp
    | none =>
      rw [Option.map_none, Option.eq_none_iff_forall_ne_some]
      intro rest hrest
      rw [List.isPrefixOf?_eq_some_iff_append_eq, List.append_assoc, List.singleton_append,
        List.append_eq_append_iff] at hrest
      -- the dot after the parent is the one after the package, stands before it or behind it
      rcases hrest with ⟨between, hpackage, htail⟩ | ⟨between, hparent, htail⟩
      · cases between with
        | nil => exact h (by rw [hpackage, List.append_nil])
        | cons c between =>
          obtain ⟨rfl, -⟩ := List.cons.inj htail
          have hsome : (parent ++ ['.']).isPrefixOf? package = some between := by
            rw [List.isPrefixOf?_eq_some_iff_append_eq, hpackage]
            simp
          rw [hp] at hsome
          cases hsome
      · cases between with
        | nil => exact h (by rw [hparent, List.append_nil])
        | cons c between =>
          obtain ⟨-, htail⟩ := List.cons.inj htail
          exact hseg (by rw [htail]; simp)

theorem splitOn_child {package segment : List Char} (hseg : '.' ∉ segment) :
    (package ++ '.' :: segment).splitOn '.' = package.splitOn '.' ++ [segment] := by
  rw [List.splitOn_append_cons_self, List.splitOn_eq_singleton hseg]

theorem toList_child (package segment : String) :
    (package ++ "." ++ segment).toList = package.toList ++ '.' :: segment.toList := by
  simp

theorem segmentsOf_child {s : Settings} (h : s.parent ≠ s.package) {segment : String}
    (hseg : '.' ∉ segment.toList) :
    s.segmentsOf (s.package ++ "." ++ segment) = s.segmentsOf s.package ++ [segment] := by
  have hsplit : ((s.below? (s.package ++ "." ++ segment).toList).getD
      (s.package ++ "." ++ segment).toList).splitOn '.' =
      ((s.below? s.package.toList).getD s.package.toList).splitOn '.' ++ [segment.toList] := by
    rw [toList_child]
    by_cases hp : s.parent = ""
    · rw [below?, if_pos hp, below?, if_pos hp, Option.getD_some, Option.getD_some,
        splitOn_child hseg]
    · have hne : s.parent.toList ≠ s.package.toList := fun he => h (String.toList_inj.1 he)
      rw [below?, if_neg hp, below?, if_neg hp, isPrefixOf?_child hseg, if_neg hne]
      cases (s.parent.toList ++ ['.']).isPrefixOf? s.package.toList with
      | none => rw [Option.map_none, Option.getD_none, Option.getD_none, splitOn_child hseg]
      | some rest => rw [Option.map_some, Option.getD_some, Option.getD_some, splitOn_child hseg]
  rw [segmentsOf, hsplit, segmentsOf, List.map_append]
  simp

theorem segmentsOf_child_of_parent {s : Settings} (h : s.parent = s.package) (hne : s.package ≠ "")
    {segment : String} (hseg : '.' ∉ segment.toList) :
    s.segmentsOf (s.package ++ "." ++ segment) = [segment] := by
  rw [segmentsOf, toList_child, below?, if_neg (h ▸ hne), h, isPrefixOf?_child hseg, if_pos rfl,
    Option.getD_some, List.splitOn_eq_singleton hseg]
  simp

/-- The parent package keeps all of its segments. -/
theorem segmentsOf_parent {s : Settings} (h : s.parent = s.package) (hne : s.package ≠ "") :
    s.segmentsOf s.package = (s.package.toList.splitOn '.').map String.ofList := by
  have hnone : (s.package.toList ++ ['.']).isPrefixOf? s.package.toList = none := by
    rw [Option.eq_none_iff_forall_ne_some]
    intro rest hrest
    rw [List.isPrefixOf?_eq_some_iff_append_eq] at hrest
    have hlen := congrArg List.length hrest
    simp only [List.length_append, List.length_singleton] at hlen
    omega
  rw [segmentsOf, below?, if_neg (h ▸ hne), h, hnone, Option.getD_none]

/-! ## Segments of directories -/

/-- What is left of a package below the parent has no segments but those of the package. -/
theorem mem_splitOn_of_mem_segmentsOf {s : Settings} {package segment : String}
    (h : segment ∈ s.segmentsOf package) : segment.toList ∈ package.toList.splitOn '.' := by
  obtain ⟨part, hpart, rfl⟩ := List.mem_map.1 h
  rw [String.toList_ofList]
  rw [below?] at hpart
  split at hpart
  · exact hpart
  · cases hp : (s.parent.toList ++ ['.']).isPrefixOf? package.toList with
    | none =>
      rw [hp] at hpart
      exact hpart
    | some rest =>
      rw [hp, Option.getD_some] at hpart
      rw [List.isPrefixOf?_eq_some_iff_append_eq, List.append_assoc, List.singleton_append] at hp
      rw [← hp, List.splitOn_append_cons_self]
      exact List.mem_append_right _ hpart

theorem isPart_of_mem_segmentsOf {s : Settings} {package : String}
    (h : ∀ part ∈ package.toList.splitOn '.', IsPart part) :
    ∀ segment ∈ s.segmentsOf package, IsPart segment.toList :=
  fun _ hsegment => h _ (mem_splitOn_of_mem_segmentsOf hsegment)

theorem segmentsOf_ne_nil (s : Settings) (package : String) : s.segmentsOf package ≠ [] := by
  unfold segmentsOf
  rw [ne_eq, List.map_eq_nil_iff]
  exact List.splitOn_ne_nil '.' _

/-- The segments with dots between them are the package, or what is left of it. -/
theorem intercalate_segmentsOf (s : Settings) (package : String) :
    ".".intercalate (s.segmentsOf package) =
      String.ofList ((s.below? package.toList).getD package.toList) := by
  have hid : String.toList ∘ String.ofList = id := funext fun _ => String.toList_ofList
  apply String.toList_inj.1
  rw [String.toList_intercalate, segmentsOf, List.map_map, hid, List.map_id]
  simp [List.intercalate_splitOn]

theorem intercalate_segmentsOf_below {s : Settings} (hne : s.parent ≠ "") (rest : String) :
    ".".intercalate (s.segmentsOf (s.parent ++ "." ++ rest)) = rest := by
  have hbelow : s.below? (s.parent ++ "." ++ rest).toList = some rest.toList := by
    rw [below?, if_neg hne, toList_child, List.isPrefixOf?_eq_some_iff_append_eq]
    simp
  rw [intercalate_segmentsOf, hbelow, Option.getD_some, String.ofList_toList]

/-- A package that does not lie below the parent keeps all of its segments. -/
theorem intercalate_segmentsOf_beside {s : Settings} {package : String}
    (h : s.parent = "" ∨ ∀ rest, package ≠ s.parent ++ "." ++ rest) :
    ".".intercalate (s.segmentsOf package) = package := by
  have hbelow : (s.below? package.toList).getD package.toList = package.toList := by
    by_cases hp : s.parent = ""
    · rw [below?, if_pos hp, Option.getD_some]
    · rw [below?, if_neg hp]
      cases hrest : (s.parent.toList ++ ['.']).isPrefixOf? package.toList with
      | none => rfl
      | some rest =>
        -- the package would be the parent, a dot and the rest
        rw [List.isPrefixOf?_eq_some_iff_append_eq] at hrest
        apply absurd _ (h.resolve_left hp (String.ofList rest))
        rw [← String.toList_inj, toList_child, String.toList_ofList, ← hrest]
        simp
  rw [intercalate_segmentsOf, hbelow, String.ofList_toList]

theorem isPart_of_valid {s : Settings} (h : s.invalidPackage? = none) :
    ∀ part ∈ s.package.toList.splitOn '.', IsPart part := by
  intro part hpart
  have hp := isPackage_of_valid h
  rw [isPackage, List.all_eq_true] at hp
  exact isPart_of_isPackageSegment (hp part hpart)

theorem isPart_child {s : Settings} (h : s.invalidPackage? = none) {segment : String}
    (hplain : Kotlin.IsPlain segment) (hne : segment ≠ "") :
    ∀ part ∈ (s.package ++ "." ++ segment).toList.splitOn '.', IsPart part := by
  intro part hpart
  rw [toList_child, splitOn_child (Kotlin.dot_not_mem_of_isNameChar hplain), List.mem_append,
    List.mem_singleton] at hpart
  rcases hpart with hpart | rfl
  · exact isPart_of_valid h part hpart
  · exact ⟨fun hnil => hne (String.toList_inj.1 hnil), hplain⟩

end PackBindings.Settings
