/-
  PackBindings.Proofs.Script.Names — of which characters the names in a script are made.

  Names of objectives, namespaces and paths of storages, and parameters are each read as the
  longest run of characters of their kind, so a name has no other characters: no blank, no
  quotation mark, and neither a line feed nor a carriage return.

  Proved, for every text:
  - `isObjectiveChar_of_mem`, `storageChars_of_mem`, `isParameterChar_of_mem`: the
    characters of each name that is read.
  - `isTokens_ofText`: those of what a script uses, and of its template.
-/

import Mathlib.Data.List.TakeWhile
import PackBindings.Proofs.Resources.Inventories
import PackBindings.Script.Usage

namespace PackBindings.Script

open PackBindings.Text

/-! ## Objectives -/

theorem isObjectiveChar_of_objectiveAt? {cs name : List Char} (h : objectiveAt? cs = some name) :
    ∀ c ∈ name, isObjectiveChar c = true := by
  unfold objectiveAt? at h
  split at h
  · cases h
  · rw [← Option.some.inj h]
    exact fun c hc => List.mem_takeWhile_imp hc

theorem isObjectiveChar_of_command {line name : List Char}
    (h : objectiveCommand? line = some (some name)) : ∀ c ∈ name, isObjectiveChar c = true := by
  obtain ⟨rest, -, h⟩ := Option.bind_eq_some_iff.1 h
  rcases Option.or_eq_some_iff.1 h with h | ⟨-, h⟩
  · obtain ⟨declared, hdeclared, he⟩ := Option.map_eq_some_iff.1 h
    obtain rfl := Option.some.inj he
    obtain ⟨verb, -, hverb⟩ := List.exists_of_findSome?_eq_some hdeclared
    obtain ⟨after, -, hname⟩ := Option.bind_eq_some_iff.1 hverb
    exact isObjectiveChar_of_objectiveAt? hname
  · obtain ⟨slot, -, h⟩ := Option.bind_eq_some_iff.1 h
    split at h
    · cases h
    · obtain ⟨after, -, hname⟩ := Option.bind_eq_some_iff.1 (Option.some.inj h)
      exact isObjectiveChar_of_objectiveAt? hname

theorem isObjectiveChar_of_mem {text name : List Char} (h : name ∈ objectiveNames text) :
    ∀ c ∈ name, isObjectiveChar c = true := by
  obtain ⟨command, hcommand, he⟩ := List.mem_filterMap.1 h
  obtain ⟨line, -, hline⟩ := List.mem_filterMap.1 hcommand
  obtain rfl : command = some name := he
  exact isObjectiveChar_of_command hline

/-! ## Storages -/

/-- A reference to a storage is made of the characters of namespaces and of paths. -/
def IsReference (r : List Char × List Char) : Prop :=
  (∀ c ∈ r.1, isStorageChar c = true) ∧ ∀ c ∈ r.2, isStoragePathChar c = true

theorem isReference_of_storageAt? {cs : List Char} {r : List Char × List Char}
    (h : storageAt? cs = some r) : IsReference r := by
  obtain ⟨rest, -, h⟩ := Option.bind_eq_some_iff.1 h
  obtain ⟨tail, -, h⟩ := Option.bind_eq_some_iff.1 h
  dsimp only at h
  split at h
  · cases h
  · obtain rfl := Option.some.inj h
    exact ⟨fun c hc => List.mem_takeWhile_imp hc, fun c hc => List.mem_takeWhile_imp hc⟩

theorem isReference_of_mem_storagesFrom {inWord : Bool} {skip : Nat} {cs : List Char}
    {r : List Char × List Char} (h : r ∈ storagesFrom inWord skip cs) : IsReference r := by
  induction cs generalizing inWord skip with
  | nil => exact absurd h List.not_mem_nil
  | cons c cs ih =>
    cases skip with
    | succ n => exact ih h
    | zero =>
      unfold storagesFrom at h
      dsimp only at h
      split at h
      · rename_i found hfound
        rcases List.mem_cons.1 h with rfl | h
        · split at hfound
          · cases hfound
          · exact isReference_of_storageAt? hfound
        · exact ih h
      · exact ih h

theorem isReference_of_mem {text : List Char} {r : List Char × List Char}
    (h : r ∈ storageReferences text) : IsReference r := isReference_of_mem_storagesFrom h

/-! ## Parameters -/

theorem isParameterChar_of_mem_parametersIn {line name : List Char} (h : name ∈ parametersIn line) :
    ∀ c ∈ name, isParameterChar c = true := by
  induction line with
  | nil => exact absurd h List.not_mem_nil
  | cons c cs ih =>
    rw [parametersIn, List.mem_append] at h
    rcases h with h | h
    · obtain ⟨rest, -, hat⟩ := Option.bind_eq_some_iff.1 (Option.mem_toList.1 h)
      split at hat
      · rename_i first more _ htake _
        rw [← Option.some.inj hat, ← htake]
        exact fun d hd => List.mem_takeWhile_imp hd
      · cases hat
    · exact ih h

theorem isParameterChar_of_mem {text name : List Char} (h : name ∈ parameterOccurrences text) :
    ∀ c ∈ name, isParameterChar c = true := by
  obtain ⟨line, -, hname⟩ := List.mem_flatMap.1 h
  exact isParameterChar_of_mem_parametersIn hname

/-! ## What a script uses -/

/-- Every name that a script gives is made of the characters of its kind. -/
structure IsTokens (u : Usage) : Prop where
  objectives : ∀ a ∈ u.objectives.items, ∀ c ∈ a.name.toList, isObjectiveChar c = true
  storages : ∀ a ∈ u.storages.items, IsReference (a.owner.toList, a.name.toList)
  parameters : ∀ t ∈ u.template, ∀ name ∈ t.parameters, ∀ c ∈ name.toList, isParameterChar c = true

theorem isTokens_ofText (text source location : String) : IsTokens (.ofText text source location) where
  objectives := by
    intro a ha
    obtain ⟨name, hname, rfl⟩ := List.mem_map.1 (Inventory.mem_of_mem_ofList ha)
    simpa [Objective.ofName] using isObjectiveChar_of_mem hname
  storages := by
    intro a ha
    obtain ⟨reference, hreference, rfl⟩ := List.mem_map.1 (Inventory.mem_of_mem_ofList ha)
    simpa using isReference_of_mem hreference
  parameters := by
    intro t ht name hname
    rw [Usage.ofText, Usage.ofPlain] at ht
    dsimp only at ht
    split at ht
    · cases ht
    · rename_i occurrences _
      obtain rfl := Option.some.inj ht
      obtain ⟨chars, hchars, rfl⟩ := List.mem_map.1 hname
      rw [String.toList_ofList]
      exact isParameterChar_of_mem (List.mem_eraseDups.1 hchars)

end PackBindings.Script
