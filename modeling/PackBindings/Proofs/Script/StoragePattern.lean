/-
  PackBindings.Proofs.Script.StoragePattern — references to storages, searched for.

  A reference is a pattern that begins at the edge of a word (`storagePattern`). Its namespace
  is taken whole, since there is no colon behind a part of it, and so is its path, since
  nothing has to follow. So the search never has to go back, and finds what one look at each
  place finds.

  Proved, for all texts:
  - `first?_storagePattern`: what the pattern takes is the reference at the place.
  - `storageReferences_eq_found`: a search for the pattern finds the references of a text.
-/

import PackBindings.Proofs.Script.StorageReferences
import PackBindings.Proofs.Text.LineSearch

namespace PackBindings.Script

open PackBindings.Text

def storagePattern : Pattern :=
  .seq .wordEdge <| .seq (.literal "storage ".toList) <| .seq (.group 1 (.run isStorageChar)) <|
    .seq (.literal [':']) (.group 2 (.run isStoragePathChar))

def referenceIn (w : Way) : Option (List Char × List Char) := do
  let owner ← w.group? 1
  let path ← w.group? 2
  return (owner, path)

/-- What is taken for a reference. -/
def wayOf (r : List Char × List Char) : Way := ⟨written r.1 r.2, [(1, r.1), (2, r.2)]⟩

theorem referenceIn_wayOf (r : List Char × List Char) : referenceIn (wayOf r) = some r := rfl

theorem length_wayOf (r : List Char × List Char) : (wayOf r).taken.length = storageLength r :=
  length_written r.1 r.2

/-- The namespace is taken whole, as a colon is none of its characters. -/
theorem first?_named (before : Option Char) (cs : List Char) :
    (Pattern.seq (.group 1 (.run isStorageChar)) (.seq (.literal [':'])
      (.group 2 (.run isStoragePathChar)))).first? before cs =
        ([':'].isPrefixOf? (cs.dropWhile isStorageChar)).bind fun tail =>
          if cs.takeWhile isStorageChar = [] ∨ tail.takeWhile isStoragePathChar = [] then none
          else some ⟨cs.takeWhile isStorageChar ++ ':' :: tail.takeWhile isStoragePathChar,
            [(1, cs.takeWhile isStorageChar), (2, tail.takeWhile isStoragePathChar)]⟩ := by
  have hstops : ∀ before c rest, isStorageChar c = true → (Pattern.seq (.literal [':'])
      (.group 2 (.run isStoragePathChar))).ways before (c :: rest) = [] :=
    fun before c rest hc =>
      Pattern.ways_seq_eq_nil (Pattern.ways_literal_eq_nil hc (by decide) [] before rest)
  rw [Pattern.first?_group_run_seq hstops]
  by_cases howner : cs.takeWhile isStorageChar = []
  · simp [howner]
  · rw [if_neg howner, Pattern.first?_literal_seq, Option.map_bind]
    refine Option.bind_congr fun tail _ => ?_
    rw [Function.comp_apply, Pattern.first?_group, Pattern.first?_run]
    by_cases hpath : tail.takeWhile isStoragePathChar = []
    · rw [if_pos hpath, if_pos (Or.inr hpath)]
      rfl
    · rw [if_neg hpath, if_neg (not_or.2 ⟨howner, hpath⟩)]
      rfl

theorem first?_storagePattern (before : Option Char) (cs : List Char) :
    storagePattern.first? before cs =
      (if before.any isWord then none else storageAt? cs).map wayOf := by
  have hbody : (Pattern.seq (.literal "storage ".toList) (.seq (.group 1 (.run isStorageChar))
      (.seq (.literal [':']) (.group 2 (.run isStoragePathChar))))).first? before cs =
        (storageAt? cs).map wayOf := by
    rw [Pattern.first?_literal_seq, storageAt?, Option.map_bind]
    refine Option.bind_congr fun rest _ => ?_
    rw [first?_named, Option.map_bind, Function.comp_apply, Option.map_bind]
    refine Option.bind_congr fun tail _ => ?_
    dsimp only [Function.comp_apply]
    by_cases hnil : rest.takeWhile isStorageChar = [] ∨ tail.takeWhile isStoragePathChar = []
    · rw [if_pos hnil, if_pos hnil]
      rfl
    · rw [if_neg hnil, if_neg hnil, Option.map_some, Option.map_some, storageWord_append_space,
        Way.follow, List.append_assoc]
      rfl
  rw [storagePattern, Pattern.first?_wordEdge_seq, hbody]
  cases hr : storageAt? cs with
  | none => simp
  | some r =>
    have hhead : cs.head?.any isWord = true := by
      obtain ⟨rest, rfl, -⟩ := storageAt?_eq_some_iff.1 hr
      exact isWord_of_mem_storageWord List.mem_cons_self
    rw [hhead]
    cases before.any isWord with
    | true => rfl
    | false => rfl

/-- The search for the pattern, and what its groups have, make the references. -/
theorem storageReferences_eq_found (text : List Char) :
    storageReferences text = (storagePattern.found text).filterMap referenceIn := by
  have hstep : ∀ (before : Option Char) (skip : Nat) (cs : List Char),
      storagePattern.foundFrom before skip cs = (storagesFrom (before.any isWord) skip cs).map wayOf := by
    intro before skip cs
    induction cs generalizing before skip with
    | nil => rfl
    | cons c cs ih =>
      cases skip with
      | succ n => exact ih (some c) n
      | zero =>
        have hfirst := first?_storagePattern before (c :: cs)
        rw [storagesFrom]
        cases hr : if before.any isWord then none else storageAt? (c :: cs) with
        | none =>
          rw [hr] at hfirst
          rw [Pattern.foundFrom_of_none hfirst]
          exact ih (some c) 0
        | some r =>
          rw [hr] at hfirst
          rw [Pattern.foundFrom_of_some hfirst, length_wayOf, ih]
          rfl
  have hread : referenceIn ∘ wayOf = some := funext referenceIn_wayOf
  rw [Pattern.found, hstep, List.filterMap_map, hread, List.filterMap_some]
  rfl

end PackBindings.Script
