/-
  PackBindings.Proofs.Script.ObjectivePattern — objective commands, searched for and line by line.

  An objective command is a pattern at the beginning of a line (`objectivePattern`): a
  declaration with a name after the verb, or a display with a slot and perhaps a name. What
  a search through a whole text finds is what the lines say, each for itself
  (`IsObjectiveCommand`): no slot gives a part of itself to the name, no name comes from
  the line after, and no line is missed behind one that says little.

  Proved, for all texts:
  - `first?_objectivePattern`: at the beginning of a line the pattern gives the command on it.
  - `objectiveCommand?_eq_some_iff`: which lines are commands, and which name each has.
  - `objective_commands_by_line`: the search, its finds and their names.
-/

import PackBindings.Proofs.Text.LineSearch
import PackBindings.Script.Objectives

namespace PackBindings.Script

open PackBindings.Text

/-! ## The pattern -/

/-- A space and a name. -/
def spacedName (number : Nat) : Pattern := .seq (.literal [' ']) (.group number (.run isObjectiveChar))

/-- A declared name is group 1, a displayed one is group 2. -/
def objectivePattern : Pattern :=
  .seq .lineStart <| .seq (.literal "scoreboard objectives ".toList) <| .either
    (.seq (.either (.literal "add".toList)
      (.either (.literal "remove".toList) (.literal "modify".toList))) (spacedName 1))
    (.seq (.literal "setdisplay ".toList)
      (.seq (.run (!isBlank ·)) (.optional (spacedName 2))))

def nameIn (w : Way) : Option (List Char) := (w.group? 1).or (w.group? 2)

theorem nameIn_follow (text : List Char) (w : Way) : nameIn ((Way.mk text []).follow w) = nameIn w := rfl

theorem map_nameIn_literal_seq (text : List Char) (p : Pattern) (before : Option Char)
    (cs : List Char) : ((Pattern.seq (.literal text) p).first? before cs).map nameIn =
      (text.isPrefixOf? cs).bind fun rest => (p.first? (text.getLast?.or before) rest).map nameIn := by
  rw [Pattern.first?_literal_seq, Option.map_bind]
  refine Option.bind_congr fun rest _ => ?_
  rw [Function.comp_apply, Option.map_map]
  rfl

theorem objectiveAt?_eq (cs : List Char) : objectiveAt? cs =
    if cs.takeWhile isObjectiveChar = [] then none else some (cs.takeWhile isObjectiveChar) := by
  unfold objectiveAt?
  cases cs.takeWhile isObjectiveChar with
  | nil => rfl
  | cons c name => rfl

theorem map_nameIn_spacedName {number : Nat} (h : number = 1 ∨ number = 2) (before : Option Char)
    (cs : List Char) : ((spacedName number).first? before cs).map nameIn =
      (([' '].isPrefixOf? cs).bind objectiveAt?).map some := by
  rw [spacedName, map_nameIn_literal_seq, Option.map_bind]
  refine Option.bind_congr fun rest _ => ?_
  rw [Pattern.first?_group, Pattern.first?_run, Function.comp_apply, objectiveAt?_eq]
  split
  · rfl
  · rcases h with rfl | rfl <;> rfl

theorem map_nameIn_declared (verb : List Char) (before : Option Char) (cs : List Char) :
    ((Pattern.seq (.literal verb) (spacedName 1)).first? before cs).map nameIn =
      (((verb ++ [' ']).isPrefixOf? cs).bind objectiveAt?).map some := by
  rw [map_nameIn_literal_seq, isPrefixOf?_append, Option.bind_assoc, Option.map_bind]
  exact Option.bind_congr fun rest _ => map_nameIn_spacedName (Or.inl rfl) _ rest

theorem map_nameIn_verbs (before : Option Char) (cs : List Char) :
    ((Pattern.seq (.either (.literal "add".toList) (.either (.literal "remove".toList)
      (.literal "modify".toList))) (spacedName 1)).first? before cs).map nameIn =
        (declared? cs).map some := by
  have hdeclared : declared? cs = (("add ".toList.isPrefixOf? cs).bind objectiveAt?).or
      ((("remove ".toList.isPrefixOf? cs).bind objectiveAt?).or
        (("modify ".toList.isPrefixOf? cs).bind objectiveAt?)) := by
    simp only [declared?, List.findSome?_cons, List.findSome?_nil]
    cases ("add ".toList.isPrefixOf? cs).bind objectiveAt? with
    | some name => rfl
    | none =>
      cases ("remove ".toList.isPrefixOf? cs).bind objectiveAt? with
      | some name => rfl
      | none =>
        cases ("modify ".toList.isPrefixOf? cs).bind objectiveAt? with
        | some name => rfl
        | none => rfl
  rw [Pattern.first?_either_seq, Pattern.first?_either_seq, Option.map_or, Option.map_or,
    map_nameIn_declared, map_nameIn_declared, map_nameIn_declared, hdeclared, Option.map_or,
    Option.map_or]
  rfl

/-- The slot is taken whole, whether a name follows or not. -/
theorem map_nameIn_displayed (before : Option Char) (cs : List Char) :
    ((Pattern.seq (.run (!isBlank ·)) (.optional (spacedName 2))).first? before cs).map nameIn =
      if cs.takeWhile (!isBlank ·) = [] then none
      else some (([' '].isPrefixOf? (cs.dropWhile (!isBlank ·))).bind objectiveAt?) := by
  rw [Pattern.first?_run_seq_optional]
  split
  · rfl
  · have hname := map_nameIn_spacedName (Or.inr rfl)
      ((cs.takeWhile (!isBlank ·)).getLast?.or before) (cs.dropWhile (!isBlank ·))
    generalize (spacedName 2).first? _ _ = found at hname ⊢
    generalize ([' '].isPrefixOf? _).bind objectiveAt? = name at hname ⊢
    rw [Option.map_some, nameIn_follow]
    cases found with
    | none => rw [Option.map_eq_none_iff.1 hname.symm]; rfl
    | some w =>
      obtain ⟨n, rfl, hn⟩ := Option.map_eq_some_iff.1 hname.symm
      rw [Option.getD_some, ← hn]

/-- At the beginning of a line, the pattern gives the command on the line. -/
theorem first?_objectivePattern (line : List Char) :
    (objectivePattern.first? none line).map nameIn = objectiveCommand? line := by
  have hstart : startsLine none = true := rfl
  rw [objectivePattern, Pattern.first?_lineStart_seq, if_pos hstart, map_nameIn_literal_seq,
    objectiveCommand?]
  refine Option.bind_congr fun rest _ => ?_
  rw [Pattern.first?_either, Option.map_or, map_nameIn_verbs, map_nameIn_literal_seq, displayed?]
  refine congrArg _ (Option.bind_congr fun slot _ => ?_)
  rw [map_nameIn_displayed]

/-! ## Lines -/

/-- The objective commands, each with the name that it has, if any. -/
inductive IsObjectiveCommand : List Char → Option (List Char) → Prop
  | declares (verb : String) (name rest : List Char) : verb ∈ ["add", "remove", "modify"] →
      IsRun isObjectiveChar name rest →
      IsObjectiveCommand ("scoreboard objectives ".toList ++ verb.toList ++ ' ' :: (name ++ rest))
        (some name)
  | displays (slot name rest : List Char) : slot ≠ [] → (∀ c ∈ slot, isBlank c = false) →
      IsRun isObjectiveChar name rest →
      IsObjectiveCommand ("scoreboard objectives setdisplay ".toList ++ slot ++ ' ' :: (name ++ rest))
        (some name)
  | clears (slot rest : List Char) : IsRun (!isBlank ·) slot rest →
      (∀ name more, rest = ' ' :: (name ++ more) → ¬ IsRun isObjectiveChar name more) →
      IsObjectiveCommand ("scoreboard objectives setdisplay ".toList ++ slot ++ rest) none

theorem objectiveAt?_eq_some_iff {cs name : List Char} :
    objectiveAt? cs = some name ↔ ∃ rest, cs = name ++ rest ∧ IsRun isObjectiveChar name rest := by
  rw [objectiveAt?_eq]
  constructor
  · intro h
    split at h
    · cases h
    · rename_i hne
      obtain rfl := Option.some.inj h
      exact ⟨_, List.takeWhile_append_dropWhile.symm, isRun_takeWhile hne⟩
  · rintro ⟨rest, rfl, hrun⟩
    rw [hrun.takeWhile_eq, if_neg hrun.ne_nil]

theorem spacedName?_eq_some_iff {cs name : List Char} :
    ([' '].isPrefixOf? cs).bind objectiveAt? = some name ↔
      ∃ rest, cs = ' ' :: (name ++ rest) ∧ IsRun isObjectiveChar name rest := by
  rw [Option.bind_eq_some_iff]
  constructor
  · rintro ⟨after, hafter, hname⟩
    obtain ⟨rest, rfl, hrun⟩ := objectiveAt?_eq_some_iff.1 hname
    exact ⟨rest, (List.isPrefixOf?_eq_some_iff_append_eq.1 hafter).symm, hrun⟩
  · rintro ⟨rest, rfl, hrun⟩
    exact ⟨_, List.isPrefixOf?_eq_some_iff_append_eq.2 rfl, objectiveAt?_eq_some_iff.2 ⟨rest, rfl, hrun⟩⟩

theorem declared?_eq_findSome? (cs : List Char) : declared? cs =
    ["add", "remove", "modify"].findSome? fun verb : String =>
      ((verb.toList ++ [' ']).isPrefixOf? cs).bind objectiveAt? := rfl

/-- A verb is not taken for another word that begins with a different letter. -/
theorem verb_isPrefixOf?_eq_none {verb : String} (h : verb ∈ ["add", "remove", "modify"])
    {cs : List Char} (hne : verb.toList.head? ≠ cs.head?) :
    ((verb.toList ++ [' ']).isPrefixOf? cs).bind objectiveAt? = none := by
  have hverbs : ∀ verb ∈ ["add", "remove", "modify"], verb.toList ≠ [] := by decide
  rw [isPrefixOf?_eq_none (by simp), Option.bind_none]
  rwa [List.head?_append_of_ne_nil _ (hverbs verb h)]

theorem declared?_eq_some_iff {cs name : List Char} : declared? cs = some name ↔
    ∃ verb ∈ ["add", "remove", "modify"], ∃ rest, cs = verb.toList ++ ' ' :: (name ++ rest) ∧
      IsRun isObjectiveChar name rest := by
  rw [declared?_eq_findSome?]
  constructor
  · intro h
    obtain ⟨verb, hmem, hverb⟩ := List.exists_of_findSome?_eq_some h
    rw [isPrefixOf?_append, Option.bind_assoc] at hverb
    obtain ⟨after, hafter, hname⟩ := Option.bind_eq_some_iff.1 hverb
    obtain ⟨rest, rfl, hrun⟩ := spacedName?_eq_some_iff.1 hname
    exact ⟨verb, hmem, rest, (List.isPrefixOf?_eq_some_iff_append_eq.1 hafter).symm, hrun⟩
  · rintro ⟨verb, hmem, rest, rfl, hrun⟩
    have hletters : ∀ verb ∈ ["add", "remove", "modify"], verb.toList ≠ [] ∧
        ∀ other ∈ ["add", "remove", "modify"], other ≠ verb →
          other.toList.head? ≠ verb.toList.head? := by decide
    obtain ⟨hne, hothers⟩ := hletters verb hmem
    rw [findSome?_eq_of_mem hmem]
    · rw [isPrefixOf?_append, Option.bind_assoc]
      refine Option.bind_eq_some_iff.2 ⟨_, List.isPrefixOf?_eq_some_iff_append_eq.2 rfl, ?_⟩
      exact spacedName?_eq_some_iff.2 ⟨rest, rfl, hrun⟩
    · intro other hother hdiffers
      refine verb_isPrefixOf?_eq_none hother ?_
      rw [List.head?_append_of_ne_nil _ hne]
      exact hothers other hother hdiffers

/-- A display is no declaration. -/
theorem declared?_display (cs : List Char) : declared? ("setdisplay ".toList ++ cs) = none := by
  have hdisplay : "setdisplay ".toList ≠ [] ∧ ∀ verb ∈ ["add", "remove", "modify"],
      verb.toList.head? ≠ "setdisplay ".toList.head? := by decide
  rw [declared?_eq_findSome?, List.findSome?_eq_none_iff]
  intro verb hverb
  refine verb_isPrefixOf?_eq_none hverb ?_
  rw [List.head?_append_of_ne_nil _ hdisplay.1]
  exact hdisplay.2 verb hverb

theorem displayed?_eq_some_iff {cs : List Char} {command : Option (List Char)} :
    displayed? cs = some command ↔ ∃ slot rest, cs = "setdisplay ".toList ++ slot ++ rest ∧
      IsRun (!isBlank ·) slot rest ∧ ([' '].isPrefixOf? rest).bind objectiveAt? = command := by
  unfold displayed?
  rw [Option.bind_eq_some_iff]
  constructor
  · rintro ⟨after, hafter, h⟩
    split at h
    · cases h
    · rename_i hne
      refine ⟨_, _, ?_, isRun_takeWhile hne, Option.some.inj h⟩
      rw [List.append_assoc, List.takeWhile_append_dropWhile]
      exact (List.isPrefixOf?_eq_some_iff_append_eq.1 hafter).symm
  · rintro ⟨slot, rest, rfl, hslot, rfl⟩
    refine ⟨slot ++ rest, ?_, ?_⟩
    · rw [List.isPrefixOf?_eq_some_iff_append_eq, List.append_assoc]
    · rw [hslot.takeWhile_eq, hslot.dropWhile_eq, if_neg hslot.ne_nil]

theorem objectiveCommand?_eq_some_iff {line : List Char} {command : Option (List Char)} :
    objectiveCommand? line = some command ↔ IsObjectiveCommand line command := by
  have hdisplay : "scoreboard objectives setdisplay ".toList =
      "scoreboard objectives ".toList ++ "setdisplay ".toList := by decide
  unfold objectiveCommand?
  rw [Option.bind_eq_some_iff]
  constructor
  · rintro ⟨after, hafter, h⟩
    obtain rfl := List.isPrefixOf?_eq_some_iff_append_eq.1 hafter
    rcases Option.or_eq_some_iff.1 h with h | ⟨-, h⟩
    · obtain ⟨name, hname, rfl⟩ := Option.map_eq_some_iff.1 h
      obtain ⟨verb, hverb, rest, rfl, hrun⟩ := declared?_eq_some_iff.1 hname
      rw [← List.append_assoc]
      exact .declares verb name rest hverb hrun
    · obtain ⟨slot, rest, rfl, hslot, hname⟩ := displayed?_eq_some_iff.1 h
      rw [List.append_assoc, ← List.append_assoc, ← hdisplay, ← List.append_assoc]
      cases command with
      | none =>
        refine .clears slot rest hslot fun name more hrest hrun => ?_
        rw [spacedName?_eq_some_iff.2 ⟨more, hrest, hrun⟩] at hname
        cases hname
      | some name =>
        obtain ⟨more, rfl, hrun⟩ := spacedName?_eq_some_iff.1 hname
        exact .displays slot name more hslot.ne_nil (by simpa using hslot.of_kind) hrun
  · intro h
    cases h with
    | declares verb name rest hverb hrun =>
      refine ⟨verb.toList ++ ' ' :: (name ++ rest), ?_, ?_⟩
      · rw [List.isPrefixOf?_eq_some_iff_append_eq, List.append_assoc]
      · rw [declared?_eq_some_iff.2 ⟨verb, hverb, rest, rfl, hrun⟩]
        rfl
    | displays slot name rest hne hslot hrun =>
      have hwhole : IsRun (!isBlank ·) slot (' ' :: (name ++ rest)) :=
        ⟨hne, by simpa using hslot, stops_cons (by decide) _⟩
      refine ⟨"setdisplay ".toList ++ (slot ++ ' ' :: (name ++ rest)), ?_, ?_⟩
      · rw [List.isPrefixOf?_eq_some_iff_append_eq, hdisplay, List.append_assoc, List.append_assoc]
      · rw [declared?_display, Option.map_none, Option.none_or, displayed?_eq_some_iff]
        exact ⟨slot, _, (List.append_assoc _ _ _).symm, hwhole, spacedName?_eq_some_iff.2 ⟨rest, rfl, hrun⟩⟩
    | clears slot rest hslot hnone =>
      refine ⟨"setdisplay ".toList ++ (slot ++ rest), ?_, ?_⟩
      · rw [List.isPrefixOf?_eq_some_iff_append_eq, hdisplay, List.append_assoc, List.append_assoc]
      · rw [declared?_display, Option.map_none, Option.none_or, displayed?_eq_some_iff]
        refine ⟨slot, rest, (List.append_assoc _ _ _).symm, hslot, ?_⟩
        refine Option.eq_none_iff_forall_ne_some.2 fun name hname => ?_
        obtain ⟨more, hrest, hrun⟩ := spacedName?_eq_some_iff.1 hname
        exact hnone name more hrest hrun

/-! ## Texts -/

theorem found_objectivePattern (text : List Char) : objectivePattern.found text =
    (text.splitOn '\n').filterMap (objectivePattern.first? none) := by
  have hnil : objectivePattern.first? none [] = none :=
    Option.map_eq_none_iff.1 (first?_objectivePattern [])
  unfold objectivePattern at hnil ⊢
  exact Pattern.found_lineStart_seq (by decide) hnil text

/-- A search finds what the lines say, one command for each line that is one, and nothing else. -/
theorem objective_commands_by_line (text : List Char) :
    (objectivePattern.found text).map nameIn = objectiveCommands text ∧
      objectivePattern.found text = (text.splitOn '\n').filterMap (objectivePattern.first? none) ∧
      (∀ line command, (objectivePattern.first? none line).map nameIn = some command ↔
        IsObjectiveCommand line command) ∧
      objectiveNames text = (objectivePattern.found text).filterMap nameIn := by
  have hfound := found_objectivePattern text
  have hcommands : (objectivePattern.found text).map nameIn = objectiveCommands text := by
    rw [hfound, List.map_filterMap, objectiveCommands]
    exact List.filterMap_congr fun line _ => first?_objectivePattern line
  refine ⟨hcommands, hfound, fun line command => ?_, ?_⟩
  · rw [first?_objectivePattern, objectiveCommand?_eq_some_iff]
  · rw [objectiveNames, ← hcommands, List.filterMap_map]
    rfl

/-- A slot without a name, and a line that does not begin with the command. -/
example : (objectivePattern.found
    "scoreboard objectives setdisplay list\n kills\nscoreboard objectives add a-b!c".toList).map nameIn =
      [none, some "a-b".toList] := by
  decide

end PackBindings.Script
