/-
  PackBindings.Proofs.Script.Seams — one script after another.

  Two scripts with a line feed between them use what each of them uses alone, if the first
  leaves no line open: its last line that says anything does not end in a backslash
  (`EndsClosed`). Comments, quotes and continuations are a matter of one line or of lines
  that are joined, so they stop at the seam; and no search finds anything across a line
  feed, whatever stands on either side of it (`LineByLine`).

  Proved, for all texts:
  - `logicalLines_seam`: the logical lines are those of the one text and then those of the
    other.
  - `lineByLine_objectiveNames` / `lineByLine_storageReferences` /
    `lineByLine_parameterOccurrences`: what is found before a line feed and what is found
    after it is all that is found.
  - `usage_of_joined_scripts`: the resources are the union, and the parameters those of the
    first script and then the new ones of the second.

  A line that is left open takes up the first line of the second script.
-/

import PackBindings.Proofs.Lists
import PackBindings.Proofs.Resources.Inventories
import PackBindings.Script.Usage

namespace PackBindings.Script

open PackBindings.Text

/-! ## Logical lines -/

/-- The last line that says anything is not continued. -/
def EndsClosed (text : List Char) : Prop :=
  ∀ line, (contents text).getLast? = some line → line.getLast? ≠ some '\\'

theorem contents_seam (a b : List Char) :
    contents (a ++ '\n' :: b) = contents a ++ contents b := by
  unfold contents
  rw [List.splitOn_append_cons_self, List.map_append, List.filter_append]

/-- What is held over at the end of the first lines goes to none of the lines after them. -/
theorem joined_append {held : List Char} {xs : List (List Char)} (ys : List (List Char))
    (h : ∀ line, xs.getLast? = some line → line.getLast? ≠ some '\\') (hheld : xs = [] → held = []) :
    joined held (xs ++ ys) = joined held xs ++ joined [] ys := by
  induction xs generalizing held with
  | nil =>
    rw [hheld rfl]
    simp [joined]
  | cons line lines ih =>
    have hlines : ∀ last, lines.getLast? = some last → last.getLast? ≠ some '\\' := by
      intro last hlast
      exact h last (by simp [List.getLast?_cons, hlast])
    by_cases hopen : line.getLast? = some '\\'
    · -- a line that is continued is not the last one
      have hne : lines ≠ [] := by
        intro hnil
        exact h line (by simp [hnil]) hopen
      have hpart : continued? line = some (trimEnd line.dropLast) := by simp [continued?, hopen]
      simp only [List.cons_append, joined, hpart]
      exact ih hlines fun hnil => absurd hnil hne
    · have hpart : continued? line = none := by simp [continued?, hopen]
      simp only [List.cons_append, joined, hpart]
      rw [ih hlines fun _ => rfl]

theorem logicalLines_seam {a : List Char} (h : EndsClosed a) (b : List Char) :
    logicalLines (a ++ '\n' :: b) = logicalLines a ++ logicalLines b := by
  unfold logicalLines
  rw [contents_seam]
  exact joined_append _ h fun _ => rfl

/-! ## Searches -/

/-- A search whose finds are those before a line feed and then those after it. -/
structure LineByLine {α : Type} (find : List Char → List α) : Prop where
  nothing : find [] = []
  seam : ∀ x y, find (x ++ '\n' :: y) = find x ++ find y

theorem LineByLine.intercalate {α : Type} {find : List Char → List α} (h : LineByLine find)
    (lines : List (List Char)) : find (['\n'].intercalate lines) = lines.flatMap find := by
  induction lines with
  | nil => simpa using h.nothing
  | cons line lines ih =>
    cases lines with
    | nil => simp
    | cons next lines =>
      rw [List.intercalate_cons_cons, List.append_assoc, List.singleton_append, h.seam, ih]
      rfl

theorem LineByLine.plain {α : Type} {find : List Char → List α} (h : LineByLine find)
    {a : List Char} (ha : EndsClosed a) (b : List Char) :
    find (plain (a ++ '\n' :: b)) = find (plain a) ++ find (plain b) := by
  unfold Script.plain
  rw [h.intercalate, h.intercalate, h.intercalate, logicalLines_seam ha, List.flatMap_append]

theorem lineByLine_objectiveNames : LineByLine objectiveNames where
  nothing := by decide
  seam := by
    intro x y
    unfold objectiveNames objectiveCommands
    rw [List.splitOn_append_cons_self, List.filterMap_append, List.filterMap_append]

theorem lineByLine_parameterOccurrences : LineByLine parameterOccurrences where
  nothing := by decide
  seam := by
    intro x y
    unfold parameterOccurrences
    rw [List.splitOn_append_cons_self, List.filter_append, List.flatMap_append]

/-! ### Storages

References are searched for in the whole text, so the seam has to be followed through one
reference after the other. -/

theorem takeWhile_append_stop {p : Char → Bool} {c : Char} (hc : p c = false) (xs ys : List Char) :
    (xs ++ c :: ys).takeWhile p = xs.takeWhile p := by
  induction xs with
  | nil => simp [hc]
  | cons x xs ih =>
    rw [List.cons_append, List.takeWhile_cons, List.takeWhile_cons, ih]

theorem dropWhile_append_stop {p : Char → Bool} {c : Char} (hc : p c = false) (xs ys : List Char) :
    (xs ++ c :: ys).dropWhile p = xs.dropWhile p ++ c :: ys := by
  induction xs with
  | nil => simp [hc]
  | cons x xs ih =>
    rw [List.cons_append, List.dropWhile_cons, List.dropWhile_cons, ih]
    split <;> rfl

/-- A text that does not hold `c` is in front of another one only if it ends before the first `c`. -/
theorem isPrefixOf?_append_stop {p : List Char} {c : Char} (hc : c ∉ p) (xs ys : List Char) :
    p.isPrefixOf? (xs ++ c :: ys) = (p.isPrefixOf? xs).map (· ++ c :: ys) := by
  induction p generalizing xs with
  | nil => simp [List.isPrefixOf?]
  | cons d p ih =>
    rw [List.mem_cons, not_or] at hc
    obtain ⟨hd, hp⟩ := hc
    cases xs with
    | nil => simp [List.isPrefixOf?, Ne.symm hd]
    | cons x xs =>
      simp only [List.cons_append, List.isPrefixOf?]
      split
      · exact ih hp xs
      · rfl

theorem storageAt?_seam (xs ys : List Char) : storageAt? (xs ++ '\n' :: ys) = storageAt? xs := by
  unfold storageAt?
  rw [isPrefixOf?_append_stop (by decide)]
  cases "storage ".toList.isPrefixOf? xs with
  | none => rfl
  | some rest =>
    simp only [Option.map_some, Option.bind_some]
    rw [takeWhile_append_stop (by decide), dropWhile_append_stop (by decide),
      isPrefixOf?_append_stop (by decide)]
    cases [':'].isPrefixOf? (rest.dropWhile isStorageChar) with
    | none => rfl
    | some tail =>
      simp only [Option.map_some, Option.bind_some]
      rw [takeWhile_append_stop (by decide)]

/-- A reference is no longer than the text it is found in. -/
theorem storageLength_le {cs : List Char} {r : List Char × List Char} (h : storageAt? cs = some r) :
    storageLength r ≤ cs.length := by
  unfold storageAt? at h
  obtain ⟨rest, hrest, h⟩ := Option.bind_eq_some_iff.1 h
  obtain ⟨tail, htail, h⟩ := Option.bind_eq_some_iff.1 h
  have hword := congrArg List.length (List.append_eq_of_isPrefixOf?_eq_some hrest)
  have hcolon := congrArg List.length (List.append_eq_of_isPrefixOf?_eq_some htail)
  have howner := congrArg List.length (List.takeWhile_append_dropWhile (p := isStorageChar) (l := rest))
  have hpath := (List.takeWhile_prefix (p := isStoragePathChar) (l := tail)).length_le
  have height : "storage ".toList.length = 8 := by decide
  simp only [Option.ite_none_left_eq_some, Option.some.injEq] at h
  obtain ⟨-, rfl⟩ := h
  simp only [List.length_append, List.length_singleton] at hword hcolon howner
  show (rest.takeWhile isStorageChar).length + (tail.takeWhile isStoragePathChar).length + 9 ≤ _
  omega

theorem storagesFrom_seam {skip : Nat} {xs : List Char} (h : skip ≤ xs.length) (inWord : Bool)
    (ys : List Char) : storagesFrom inWord skip (xs ++ '\n' :: ys) =
      storagesFrom inWord skip xs ++ storagesFrom false 0 ys := by
  induction xs generalizing inWord skip with
  | nil =>
    obtain rfl : skip = 0 := Nat.le_zero.1 h
    have hnone : storageAt? ('\n' :: ys) = none := by
      rw [← List.nil_append ('\n' :: ys), storageAt?_seam]
      decide
    cases inWord <;> simp [storagesFrom, hnone, isWord_feed]
  | cons c xs ih =>
    rw [List.length_cons] at h
    cases skip with
    | succ n => exact ih (by omega) (isWord c)
    | zero =>
      have hseam : storageAt? (c :: (xs ++ '\n' :: ys)) = storageAt? (c :: xs) :=
        storageAt?_seam (c :: xs) ys
      simp only [List.cons_append, storagesFrom, hseam]
      cases inWord with
      | true => exact ih (Nat.zero_le _) (isWord c)
      | false =>
        simp only [Bool.false_eq_true, if_false]
        cases hr : storageAt? (c :: xs) with
        | none => exact ih (Nat.zero_le _) (isWord c)
        | some r =>
          have hlen := storageLength_le hr
          rw [List.length_cons] at hlen
          simp only [List.cons_append]
          rw [ih (by omega) (isWord c)]

theorem lineByLine_storageReferences : LineByLine storageReferences where
  nothing := by decide
  seam := fun x y => storagesFrom_seam (Nat.zero_le _) false y

/-! ## Scripts -/

/-- The parameters of a script, none if it is no template. -/
def Usage.parameters (u : Usage) : List String := (u.template.map (·.parameters)).getD []

theorem template_ofPlain (text : List Char) (source location : String) :
    (Usage.ofPlain text source location).template =
      if parameterOccurrences text = [] then none
      else some ⟨location, ((parameterOccurrences text).map String.ofList).eraseDups⟩ := by
  rw [eraseDups_map fun _ _ => String.ofList_inj.1]
  unfold Usage.ofPlain
  cases parameterOccurrences text with
  | nil => simp
  | cons name names => simp [List.eraseDups_cons]

theorem parameters_ofPlain (text : List Char) (source location : String) :
    (Usage.ofPlain text source location).parameters =
      ((parameterOccurrences text).map String.ofList).eraseDups := by
  rw [Usage.parameters, template_ofPlain]
  by_cases h : parameterOccurrences text = []
  · simp [h]
  · simp [h]

/-- In one script, the name of an objective tells who owns it. -/
theorem mem_objectives_ofPlain {text : List Char} {source location : String} {o : Objective} :
    o ∈ (Usage.ofPlain text source location).objectives.items ↔
      o ∈ (objectiveNames text).map fun name => .ofName (String.ofList name) source := by
  refine Inventory.mem_ofList fun x hx y hy hkey => ?_
  obtain ⟨m, -, rfl⟩ := List.mem_map.1 hx
  obtain ⟨n, -, rfl⟩ := List.mem_map.1 hy
  have hname : String.ofList m = String.ofList n := (List.cons.inj hkey).1
  rw [hname]

theorem mem_storages_ofPlain {text : List Char} {source location : String} {st : Storage} :
    st ∈ (Usage.ofPlain text source location).storages.items ↔
      st ∈ (storageReferences text).map fun (owner, path) =>
        ⟨String.ofList owner, String.ofList path, source⟩ := by
  refine Inventory.mem_ofList fun x hx y hy hkey => ?_
  obtain ⟨⟨m, p⟩, -, rfl⟩ := List.mem_map.1 hx
  obtain ⟨⟨n, q⟩, -, rfl⟩ := List.mem_map.1 hy
  obtain ⟨howner, hrest⟩ := List.cons.inj hkey
  have howner : String.ofList m = String.ofList n := howner
  have hname : String.ofList p = String.ofList q := (List.cons.inj hrest).1
  show (⟨String.ofList m, String.ofList p, source⟩ : Storage) = ⟨_, _, source⟩
  rw [howner, hname]

/-- A script that uses what two others use, one after the other. -/
structure Joins (location : String) (first second whole : Usage) : Prop where
  objectives : ∀ o, o ∈ whole.objectives.items ↔
    o ∈ first.objectives.items ∨ o ∈ second.objectives.items
  storages : ∀ st, st ∈ whole.storages.items ↔
    st ∈ first.storages.items ∨ st ∈ second.storages.items
  parameters : whole.parameters = (first.parameters ++ second.parameters).eraseDups
  noTemplate : whole.template = none ↔ first.template = none ∧ second.template = none
  script : ∀ t, whole.template = some t → t.script = location

/-- Nothing leaks from one script into the next, and nothing is lost where they meet. -/
theorem usage_of_joined_scripts {a : String} (h : EndsClosed a.toList)
    (b source location : String) :
    Joins location (.ofText a source location) (.ofText b source location)
      (.ofText (a ++ "\n" ++ b) source location) := by
  have hchars : (a ++ "\n" ++ b).toList = a.toList ++ '\n' :: b.toList := by simp
  have hobjectives := lineByLine_objectiveNames.plain h b.toList
  have hstorages := lineByLine_storageReferences.plain h b.toList
  have hparameters := lineByLine_parameterOccurrences.plain h b.toList
  unfold Usage.ofText
  rw [hchars]
  constructor
  case objectives =>
    intro o
    rw [mem_objectives_ofPlain, mem_objectives_ofPlain, mem_objectives_ofPlain, hobjectives,
      List.map_append, List.mem_append]
  case storages =>
    intro st
    rw [mem_storages_ofPlain, mem_storages_ofPlain, mem_storages_ofPlain, hstorages,
      List.map_append, List.mem_append]
  case parameters =>
    rw [parameters_ofPlain, parameters_ofPlain, parameters_ofPlain, hparameters, List.map_append,
      eraseDups_append_eraseDups]
  case noTemplate =>
    rw [template_ofPlain, template_ofPlain, template_ofPlain, hparameters]
    simp
  case script =>
    intro t ht
    rw [template_ofPlain] at ht
    simp only [Option.ite_none_left_eq_some, Option.some.injEq] at ht
    rw [← ht.2]

/-- The apostrophe of the first script opens a quote that its line does not close, so what follows
it is no comment; the next script is read as if it stood alone. -/
theorem an_open_quote_ends_with_its_line :
    let a := "say don't # storage pack:kept"
    let b := "$data get storage pack:read $(x) # storage pack:dropped"
    EndsClosed a.toList ∧ Joins "load" (.ofText a "pack" "load") (.ofText b "pack" "load")
      (.ofText (a ++ "\n" ++ b) "pack" "load") := by
  intro a b
  have hclosed : EndsClosed a.toList := by
    have hline : contents a.toList = [a.toList] := by decide
    intro line hlast
    rw [hline] at hlast
    cases hlast
    decide
  exact ⟨hclosed, usage_of_joined_scripts hclosed b "pack" "load"⟩

/-- A line that is left open takes up the first line after it. -/
example :
    objectiveNames (plain "scoreboard objectives add \\\nkills".toList) = ["kills".toList] ∧
      objectiveNames (plain "scoreboard objectives add \\".toList) = [] ∧
      objectiveNames (plain "kills".toList) = [] := by
  decide

end PackBindings.Script
