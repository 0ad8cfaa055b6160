/-
  PackBindings.Proofs.Bindings.ImportTable — texts of classes that are fixed while imports come in.

  A unit is made one use of a class after the other. At each use the text of the class is fixed
  by the imports there are: its simple name if it is imported, and the class in full if another
  one has the name. Where none has it, the class is imported and the name is its text. What
  comes later adds imports of other names only, so every text is the one that the imports of
  the whole unit give.

  Proved, for any imports with a name each and any uses from there on:
  - `snd_use`: a use adds a class of a new name or nothing.
  - `fst_use_eq_spelled`: the text of a use is that of all imports that come out in the end.
  - `spelled_after`: what is used later does not change the text of a class.
  - `useAll_eq`: the texts of a row of uses are those of all its imports.
-/

import PackBindings.Bindings.Imports
import PackBindings.Proofs.Lists

namespace PackBindings.Bindings.Imports

open PackBindings.Kotlin

/-- The text of a class where it is used, and the imports from there on. -/
def use (imports : Imports) (e : ClassName) : String × Imports :=
  match imports.find? (·.name = e.name) with
  | some other => (if other.package = e.package then e.name else e.qualified, imports)
  | none => (e.name, imports ++ [e])

/-- One use after the other: their texts, and the imports in the end. -/
def useAll (imports : Imports) : List ClassName → List String × Imports
  | [] => ([], imports)
  | e :: es => ((imports.use e).1 :: ((imports.use e).2.useAll es).1, ((imports.use e).2.useAll es).2)

/-- The imports when classes have been used, the first one of each name. -/
def after (imports : Imports) (uses : List ClassName) : Imports :=
  uses.foldl (takeUp ClassName.name) imports

/-- No two imports have the same name. -/
def NamedApart (imports : Imports) : Prop := (imports.map ClassName.name).Nodup

variable {imports later : Imports} {e : ClassName}

theorem spelled_of_mem (h : e ∈ imports) : imports.spelled e = e.name := by
  rw [spelled, if_pos (List.contains_iff_mem.2 h)]

theorem spelled_of_not_mem (h : e ∉ imports) : imports.spelled e = e.qualified := by
  rw [spelled, if_neg fun hcontains => h (List.contains_iff_mem.1 hcontains)]

theorem snd_use (imports : Imports) (e : ClassName) : (imports.use e).2 = imports.after [e] := by
  show _ = takeUp ClassName.name imports e
  unfold use takeUp
  cases hfound : imports.find? (·.name = e.name) with
  | none =>
    have hnew : ¬imports.any (fun i => i.name == e.name) = true := by
      rw [List.any_eq_true]
      rintro ⟨i, hi, hname⟩
      exact List.find?_eq_none.1 hfound i hi (decide_eq_true (beq_iff_eq.1 hname))
    rw [if_neg hnew]
  | some other =>
    have hname : other.name = e.name := by simpa using List.find?_some hfound
    have htaken : imports.any (fun i => i.name == e.name) = true :=
      List.any_eq_true.2 ⟨other, List.mem_of_find?_eq_some hfound, beq_iff_eq.2 hname⟩
    rw [if_pos htaken]

/-- Imports that come in later do not change the text. -/
theorem fst_use_eq_spelled (hlater : later.NamedApart) (h : (imports.use e).2 ⊆ later) :
    (imports.use e).1 = later.spelled e := by
  revert h
  unfold use
  cases hfound : imports.find? (·.name = e.name) with
  | none =>
    intro h
    exact (spelled_of_mem (h (List.mem_append_right _ (List.mem_singleton_self e)))).symm
  | some other =>
    intro h
    have hmem : other ∈ later := h (List.mem_of_find?_eq_some hfound)
    have hname : other.name = e.name := by simpa using List.find?_some hfound
    show (if other.package = e.package then e.name else e.qualified) = later.spelled e
    split
    · rename_i hpackage
      obtain rfl : other = e := by
        cases other
        cases e
        simp_all
      exact (spelled_of_mem hmem).symm
    · rename_i hpackage
      refine (spelled_of_not_mem fun he => hpackage ?_).symm
      exact congrArg ClassName.package (List.inj_on_of_nodup_map hlater hmem he hname)

theorem namedApart_nil : NamedApart [] := List.nodup_nil

theorem namedApart_after (h : imports.NamedApart) (uses : List ClassName) :
    (imports.after uses).NamedApart := nodup_foldl_takeUp _ uses h

theorem subset_after (imports : Imports) (uses : List ClassName) : imports ⊆ imports.after uses :=
  subset_foldl_takeUp _ uses imports

/-- More uses do not change the text of a class that has been used. -/
theorem spelled_after (h : imports.NamedApart) {uses : List ClassName} (he : e ∈ uses)
    (more : List ClassName) :
    ((imports.after uses).after more).spelled e = (imports.after uses).spelled e := by
  by_cases hmem : e ∈ imports.after uses
  · rw [spelled_of_mem hmem, spelled_of_mem (subset_after _ more hmem)]
  · rw [spelled_of_not_mem hmem]
    refine spelled_of_not_mem fun hlater => hmem ?_
    -- another class of the name has been there since, and stays
    obtain ⟨y, hy, hname⟩ := exists_mem_foldl_takeUp ClassName.name imports he
    have hapart := namedApart_after (namedApart_after h uses) more
    exact List.inj_on_of_nodup_map hapart (subset_after _ more hy) hlater hname ▸ hy

theorem useAll_eq (h : imports.NamedApart) (uses : List ClassName) :
    imports.useAll uses = (uses.map (imports.after uses).spelled, imports.after uses) := by
  induction uses generalizing imports with
  | nil => rfl
  | cons e es ih =>
    have hnext : (imports.after [e]).NamedApart := namedApart_after h [e]
    have htext : (imports.use e).1 = ((imports.after [e]).after es).spelled e := by
      refine fst_use_eq_spelled (namedApart_after hnext es) ?_
      rw [snd_use]
      exact subset_after _ es
    rw [useAll, htext, snd_use, ih hnext]
    rfl

theorem namedApart_ofUses (uses : List ClassName) : (ofUses uses).NamedApart :=
  namedApart_after namedApart_nil uses

/-- The texts of a unit are those that all its imports give. -/
theorem useAll_nil (uses : List ClassName) :
    useAll [] uses = (uses.map (ofUses uses).spelled, ofUses uses) :=
  useAll_eq namedApart_nil uses

end PackBindings.Bindings.Imports
