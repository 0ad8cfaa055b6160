/-
  PackBindings.Proofs.Script.PlainText — the plain text of a script is in normal form.

  What is searched for at the beginning of a line needs lines that begin with something, and
  what is searched for anywhere needs lines without comments. Every logical line is made of
  pieces without blanks at their ends (`IsNeat`), with one space between two of them. As long
  as no line is continued, a logical line is what one line says, and a line that is read again
  says the same.

  Proved, for all texts:
  - `isNeat_of_mem_joined`: a logical line is not empty, has no blank at either end, and no
    line feed.
  - `code_content`: what a line says has no comment of its own.
  - `plain_normal_form`: the lines of the plain text, and the plain text of the plain text.

  Where a quote is open at the end of a continued line, the next line closes it, and what was
  quoted there is uncovered.
-/

import Mathlib.Data.List.TakeWhile
import PackBindings.Proofs.Script.LogicalLines

namespace PackBindings.Script

open PackBindings.Text

/-! ## Lines without blanks at their ends -/

structure IsTrimmed (line : List Char) : Prop where
  first : ∀ c, line.head? = some c → isBlank c = false
  last : ∀ c, line.getLast? = some c → isBlank c = false

theorem isTrimmed_trim (line : List Char) : IsTrimmed (trim line) := ⟨head_trim, getLast_trim⟩

theorem isPrefix_trimEnd (cs : List Char) : trimEnd cs <+: cs := by
  induction cs with
  | nil => exact List.prefix_rfl
  | cons c cs ih =>
    rw [trimEnd_cons]
    split
    · exact List.nil_prefix
    · exact List.cons_prefix_cons.2 ⟨rfl, ih⟩

theorem trimEnd_eq_self {cs : List Char} (h : ∀ c, cs.getLast? = some c → isBlank c = false) :
    trimEnd cs = cs := by
  induction cs with
  | nil => rfl
  | cons c cs ih =>
    rw [trimEnd_cons]
    cases cs with
    | nil =>
      have hc : isBlank c = false := h c rfl
      rw [if_neg (by simp [hc])]
      rfl
    | cons d cs =>
      have hrest : trimEnd (d :: cs) = d :: cs := ih fun e he => h e (by simpa using he)
      rw [hrest, if_neg (by simp)]

theorem IsTrimmed.trim_eq {line : List Char} (h : IsTrimmed line) : trim line = line := by
  have hstart : trimStart line = line := by
    cases line with
    | nil => rfl
    | cons c cs => exact List.dropWhile_cons_of_neg (by simp [h.first c rfl])
  rw [trim, hstart, trimEnd_eq_self h.last]

/-! ## Logical lines -/

/-- No blank at either end, and no line feed. -/
structure IsNeat (line : List Char) : Prop extends IsTrimmed line where
  feed : '\n' ∉ line

theorem isNeat_nil : IsNeat [] := ⟨⟨by simp, by simp⟩, by simp⟩

theorem IsNeat.glue {held part : List Char} (hheld : IsNeat held) (hpart : IsNeat part) :
    IsNeat (glue held part) := by
  unfold Script.glue
  by_cases hp : part = []
  · rwa [if_pos hp]
  by_cases hh : held = []
  · rwa [if_neg hp, if_pos hh]
  rw [if_neg hp, if_neg hh]
  refine ⟨⟨?_, ?_⟩, ?_⟩
  · intro c hc
    rw [List.head?_append_of_ne_nil _ hh] at hc
    exact hheld.first c hc
  · intro c hc
    rw [List.getLast?_append_of_ne_nil _ (List.cons_ne_nil _ _), List.getLast?_cons_of_ne_nil hp] at hc
    exact hpart.last c hc
  · simp [hheld.feed, hpart.feed]

/-- What a continued line gives is a part of its beginning. -/
theorem IsNeat.continued {line : List Char} (h : IsNeat line) : IsNeat (trimEnd line.dropLast) := by
  have hfront : trimEnd line.dropLast <+: line :=
    (isPrefix_trimEnd line.dropLast).trans (List.dropLast_prefix line)
  refine ⟨⟨?_, fun c => getLast_trimEnd c⟩, fun hfeed => h.feed (hfront.subset hfeed)⟩
  intro c hc
  obtain ⟨cs, hcs⟩ := List.head?_eq_some_iff.1 hc
  obtain ⟨rest, hrest⟩ := hfront
  refine h.first c ?_
  rw [← hrest, hcs]
  rfl

theorem isNeat_of_mem_joined {held : List Char} {lines : List (List Char)} (hheld : IsNeat held)
    (hlines : ∀ line ∈ lines, line ≠ [] ∧ IsNeat line) :
    ∀ line ∈ joined held lines, line ≠ [] ∧ IsNeat line := by
  induction lines generalizing held with
  | nil =>
    intro line hline
    rw [joined] at hline
    split at hline
    · cases hline
    · rename_i hne
      exact List.mem_singleton.1 hline ▸ ⟨hne, hheld⟩
  | cons first lines ih =>
    obtain ⟨⟨hne, hneat⟩, hlines⟩ := List.forall_mem_cons.1 hlines
    intro line hline
    rw [joined] at hline
    split at hline
    · rename_i part hpart
      unfold continued? at hpart
      split at hpart
      · obtain rfl := Option.some.inj hpart
        exact ih (hheld.glue hneat.continued) hlines line hline
      · cases hpart
    · rcases List.mem_cons.1 hline with rfl | hline
      · refine ⟨?_, hheld.glue hneat⟩
        rw [Script.glue, if_neg hne]
        split
        · exact hne
        · simp
      · exact ih isNeat_nil hlines line hline

theorem isNeat_of_mem_contents {text line : List Char} (h : line ∈ contents text) :
    line ≠ [] ∧ IsNeat line := by
  obtain ⟨hmem, hne⟩ := List.mem_filter.1 h
  obtain ⟨row, hrow, rfl⟩ := List.mem_map.1 hmem
  refine ⟨by simpa using hne, ⟨isTrimmed_trim _, fun hfeed => ?_⟩⟩
  have htrim : '\n' ∈ code false false row :=
    (List.dropWhile_suffix isBlank).subset ((isPrefix_trimEnd _).subset hfeed)
  rw [code_eq_uncommented] at htrim
  exact not_mem_of_mem_splitOn hrow (List.mem_of_mem_take htrim)

theorem isNeat_of_mem_logicalLines {text line : List Char} (h : line ∈ logicalLines text) :
    line ≠ [] ∧ IsNeat line :=
  isNeat_of_mem_joined isNeat_nil (fun _ => isNeat_of_mem_contents) line h

/-- The plain text is cut into the logical lines again, if there are any. -/
theorem splitOn_plain {text : List Char} (h : logicalLines text ≠ []) :
    (plain text).splitOn '\n' = logicalLines text :=
  List.splitOn_intercalate '\n' (fun _ hline => (isNeat_of_mem_logicalLines hline).2.feed) h

theorem plain_eq_nil {text : List Char} (h : logicalLines text = []) : plain text = [] := by
  rw [plain, h]
  rfl

/-! ## What a line says, once more -/

theorem uncommented_eq_self_iff {line : List Char} :
    uncommented line = line ↔ ∀ i, ¬ StartsComment line i := by
  constructor
  · intro hself i hi
    have hlt : i < line.length := (List.getElem?_eq_some_iff.1 hi.1).1
    have hfirst : (List.range line.length).findIdx (StartsComment line ·) ≤ i := by
      rw [← Nat.not_lt]
      intro hbefore
      have hnot := List.not_of_lt_findIdx hbefore
      simp only [List.getElem_range, decide_eq_false_iff_not] at hnot
      exact hnot hi
    have hlength := congrArg List.length hself
    rw [uncommented, List.length_take] at hlength
    omega
  · intro hnone
    rw [uncommented, List.findIdx_eq_length_of_false (fun i _ => by simpa using hnone i),
      List.length_range, List.take_length]

theorem code_code (quoted escaped : Bool) (line : List Char) :
    code quoted escaped (code quoted escaped line) = code quoted escaped line := by
  induction line generalizing quoted escaped with
  | nil => rfl
  | cons c line ih =>
    rw [code]
    by_cases hmark : (c == '#' && !quoted) = true
    · rw [if_pos hmark]
      rfl
    · rw [if_neg hmark, code, if_neg hmark, ih]

/-- The beginning of a line without a comment has no comment. -/
theorem code_eq_self_of_append {quoted escaped : Bool} {line rest : List Char}
    (h : code quoted escaped (line ++ rest) = line ++ rest) : code quoted escaped line = line := by
  induction line generalizing quoted escaped with
  | nil => rfl
  | cons c line ih =>
    rw [List.cons_append, code] at h
    rw [code]
    by_cases hmark : (c == '#' && !quoted) = true
    · rw [if_pos hmark] at h
      cases h
    · rw [if_neg hmark] at h
      rw [if_neg hmark, ih (List.cons.inj h).2]

/-- Blanks neither quote nor escape, so what stands behind them is read as if it stood alone. -/
theorem code_trim {line : List Char} (h : code false false line = line) :
    code false false (trim line) = trim line := by
  have hblanks : AllBlank (line.takeWhile isBlank) := fun c hc => List.mem_takeWhile_imp hc
  have hline : line.takeWhile isBlank ++ trimStart line = line := List.takeWhile_append_dropWhile
  have hstart : code false false (trimStart line) = trimStart line := by
    rw [← hline, code_blanks_append hblanks] at h
    exact List.append_cancel_left h
  obtain ⟨rest, hrest⟩ := isPrefix_trimEnd (trimStart line)
  rw [← hrest] at hstart
  exact code_eq_self_of_append hstart

theorem code_content (line : List Char) : code false false (content line) = content line :=
  code_trim (code_code false false line)

theorem content_content (line : List Char) : content (content line) = content line := by
  rw [content, code_content]
  exact (isTrimmed_trim _).trim_eq

/-! ## Scripts without continued lines -/

/-- No line of a script is continued. -/
def NothingContinued (text : List Char) : Prop :=
  ∀ line ∈ text.splitOn '\n', (content line).getLast? ≠ some '\\'

instance (text : List Char) : Decidable (NothingContinued text) :=
  inferInstanceAs (Decidable (∀ line ∈ text.splitOn '\n', _))

theorem joined_eq_self {lines : List (List Char)}
    (h : ∀ line ∈ lines, line ≠ [] ∧ line.getLast? ≠ some '\\') : joined [] lines = lines := by
  induction lines with
  | nil => rfl
  | cons line lines ih =>
    obtain ⟨⟨hne, hclosed⟩, hlines⟩ := List.forall_mem_cons.1 h
    rw [joined, continued?, if_neg hclosed]
    dsimp only
    rw [glue, if_neg hne, if_pos rfl, ih hlines]

theorem logicalLines_eq_contents {text : List Char} (h : NothingContinued text) :
    logicalLines text = contents text := by
  refine joined_eq_self fun line hline => ⟨(isNeat_of_mem_contents hline).1, ?_⟩
  obtain ⟨row, hrow, rfl⟩ := List.mem_map.1 (List.mem_of_mem_filter hline)
  exact h row hrow

theorem content_eq_self {text line : List Char} (h : line ∈ contents text) : content line = line := by
  obtain ⟨row, -, rfl⟩ := List.mem_map.1 (List.mem_of_mem_filter h)
  exact content_content row

/-- The lines of a plain text say what they said. -/
theorem plain_plain {text : List Char} (h : NothingContinued text) : plain (plain text) = plain text := by
  by_cases hnil : logicalLines text = []
  · rw [plain_eq_nil hnil]
    rfl
  · have hcontents : contents (plain text) = contents text := by
      rw [contents, splitOn_plain hnil, logicalLines_eq_contents h,
        List.map_congr_left fun line hline => content_eq_self hline, List.map_id']
      exact List.filter_eq_self.2 fun line hline => (List.mem_filter.1 hline).2
    rw [plain, logicalLines, hcontents]
    rfl

/-- The plain text is empty or has trimmed lines only. Where no line is continued, its lines have no
comments, and reading it again changes nothing. -/
theorem plain_normal_form (text : List Char) :
    (plain text = [] ∨ ∀ line ∈ (plain text).splitOn '\n', line ≠ [] ∧ IsTrimmed line) ∧
      (NothingContinued text →
        (∀ line ∈ (plain text).splitOn '\n', ∀ i, ¬ StartsComment line i) ∧
          plain (plain text) = plain text) := by
  by_cases hnil : logicalLines text = []
  · have hplain := plain_eq_nil hnil
    refine ⟨Or.inl hplain, fun hclosed => ⟨?_, plain_plain hclosed⟩⟩
    rw [hplain]
    simp [StartsComment]
  · rw [splitOn_plain hnil]
    constructor
    · refine Or.inr fun line hline => ?_
      obtain ⟨hne, hneat⟩ := isNeat_of_mem_logicalLines hline
      exact ⟨hne, hneat.toIsTrimmed⟩
    · intro hclosed
      refine ⟨fun line hline => ?_, plain_plain hclosed⟩
      rw [logicalLines_eq_contents hclosed] at hline
      obtain ⟨row, -, rfl⟩ := List.mem_map.1 (List.mem_of_mem_filter hline)
      rw [← uncommented_eq_self_iff, ← code_eq_uncommented]
      exact code_content row

/-- A quoted mark, a comment before a carriage return, a blank line, a comment that ends in a
backslash, and a mark after an escaped quotation mark. -/
theorem plain_of_a_commented_script :
    let text := "\tsay \"a # b\" # c\r\n\n# \\\n'd \\' # e'".toList
    NothingContinued text ∧ plain text = "say \"a # b\"\n'd \\' # e'".toList ∧
      (∀ line ∈ (plain text).splitOn '\n', ∀ i, ¬ StartsComment line i) ∧
      plain (plain text) = plain text := by
  intro text
  have hclosed : NothingContinued text := by decide
  exact ⟨hclosed, by decide, (plain_normal_form text).2 hclosed⟩

/-- The quote that is open before a continuation is closed by the first character behind it. -/
example :
    let text := "say ' \\\n'#'".toList
    plain text = "say ' '#'".toList ∧ StartsComment (plain text) 7 ∧
      plain (plain text) = "say ' '".toList := by
  decide

end PackBindings.Script
