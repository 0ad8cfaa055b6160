/-
  PackBindings.Proofs.Script.LogicalLines — the logical lines of a script, told without a pass.

  A script is read in one pass, which keeps a quote toggle inside of a line and the text held
  over from the lines before. The same lines come out when each step looks at all it is about:
  a line goes up to the first mark with an even number of quotation marks before it
  (`StartsComment`), the lines that say anything fall into blocks of which all but the last
  line are continued (`blocks`), and each block is one line (`flowed`).

  Proved, for all texts:
  - `code_eq_uncommented`: the code of a line is what stands before the first comment.
  - `forall₂_rows`: a line that ends in a carriage return and a line feed differs from what
    stands before the line feed in the carriage return alone.
  - `joined_eq_flowed`: what is held over is the block so far, flowed.
  - `plain_eq_flowed_blocks`: the plain text is that of the flowed blocks.
-/

import Mathlib.Algebra.Group.Nat.Even
import Mathlib.Data.List.SplitBy
import PackBindings.Proofs.Lists
import PackBindings.Proofs.Script.Edits

namespace PackBindings.Script

open PackBindings.Text

/-! ## Comments -/

/-- At `i` stands a quotation mark, and no backslash directly before it. -/
def toggles (cs : List Char) (i : Nat) : Bool :=
  cs[i]?.any isQuote && (i == 0 || cs[i - 1]? != some '\\')

def togglesBefore (line : List Char) (i : Nat) : Nat := (List.range i).countP (toggles line)

/-- A `#` stands at `i`, outside of quotes. -/
def StartsComment (cs : List Char) (i : Nat) : Prop :=
  cs[i]? = some '#' ∧ Even (togglesBefore cs i)

instance (line : List Char) (i : Nat) : Decidable (StartsComment line i) :=
  inferInstanceAs (Decidable (_ ∧ _))

/-- A line up to its first comment. -/
def uncommented (line : List Char) : List Char :=
  line.take ((List.range line.length).findIdx (StartsComment line ·))

theorem toggles_append_cons (before : List Char) (c : Char) (after : List Char) :
    toggles (before ++ c :: after) before.length =
      (isQuote c && !(before.getLast? == some '\\')) := by
  unfold toggles
  have hhere : (before ++ c :: after)[before.length]? = some c := by simp
  rw [hhere]
  cases before using List.reverseRecOn with
  | nil => simp
  | append_singleton before d =>
    have hbefore : ((before ++ [d]) ++ c :: after)[(before ++ [d]).length - 1]? = some d := by simp
    rw [hbefore]
    simp [bne]

theorem odd_togglesBefore_succ (line : List Char) (i : Nat) :
    decide (¬ Even (togglesBefore line (i + 1))) =
      (decide (¬ Even (togglesBefore line i)) ^^ toggles line i) := by
  unfold togglesBefore
  rw [List.range_succ, List.countP_append, List.countP_singleton]
  cases toggles line i with
  | false => rw [Bool.xor_false, if_neg Bool.false_ne_true, Nat.add_zero]
  | true =>
    rw [if_pos rfl, Bool.xor_true, ← decide_not]
    exact decide_eq_decide.2 (not_congr Nat.even_add_one)

/-- The code of what is left of a line stops at the first comment in there. -/
theorem code_after (before after : List Char) : ∃ n ≤ after.length,
    code (decide (¬ Even (togglesBefore (before ++ after) before.length)))
        (before.getLast? == some '\\') after = after.take n ∧
      (∀ i < n, ¬ StartsComment (before ++ after) (before.length + i)) ∧
      (n < after.length → StartsComment (before ++ after) (before.length + n)) := by
  induction after generalizing before with
  | nil => exact ⟨0, Nat.le_refl 0, rfl, by simp, by simp⟩
  | cons c after ih =>
    have hhere : (before ++ c :: after)[before.length]? = some c := by simp
    by_cases hmark : StartsComment (before ++ c :: after) before.length
    · obtain rfl : c = '#' := Option.some.inj (hhere.symm.trans hmark.1)
      refine ⟨0, Nat.zero_le _, ?_, by simp, fun _ => hmark⟩
      simp [code, hmark.2]
    · obtain ⟨n, hn, hcode, hnone, hsome⟩ := ih (before ++ [c])
      have hopen : (c == '#' && !decide (¬ Even (togglesBefore (before ++ c :: after) before.length)))
          = false := by
        rw [Bool.eq_false_iff]
        intro h
        simp only [Bool.and_eq_true, beq_iff_eq, decide_not, Bool.not_not, decide_eq_true_eq] at h
        exact hmark ⟨h.1 ▸ hhere, h.2⟩
      rw [List.length_append, List.length_singleton, List.append_assoc, List.singleton_append,
        odd_togglesBefore_succ, toggles_append_cons, List.getLast?_concat] at hcode
      rw [List.length_append, List.length_singleton, List.append_assoc, List.singleton_append]
        at hnone hsome
      refine ⟨n + 1, Nat.succ_le_succ hn, ?_, ?_, ?_⟩
      · rw [code, hopen, List.take_succ_cons, ← hcode]
        rfl
      · intro i hi
        cases i with
        | zero => exact hmark
        | succ i =>
          have := hnone i (Nat.lt_of_succ_lt_succ hi)
          rwa [Nat.add_assoc, Nat.add_comm 1 i] at this
      · intro hlt
        have := hsome (Nat.lt_of_succ_lt_succ hlt)
        rwa [Nat.add_assoc, Nat.add_comm 1 n] at this

theorem code_eq_uncommented (line : List Char) : code false false line = uncommented line := by
  obtain ⟨n, hn, hcode, hnone, hsome⟩ := code_after [] line
  simp only [List.nil_append, List.length_nil, Nat.zero_add] at hcode hnone hsome
  have hfirst : (List.range line.length).findIdx (StartsComment line ·) = n := by
    rcases Nat.lt_or_eq_of_le hn with hlt | rfl
    · rw [List.findIdx_eq (by simpa using hlt)]
      refine ⟨by simpa using hsome hlt, fun j hj => by simpa using hnone j hj⟩
    · rw [List.findIdx_eq_length_of_false, List.length_range]
      intro i hi
      simpa using hnone i (List.mem_range.1 hi)
  rw [uncommented, hfirst, ← hcode]
  rfl

/-! ## Lines -/

/-- The lines of a text. A line feed ends a line, or a carriage return and a line feed do. -/
def rows : List Char → List (List Char)
  | [] => [[]]
  | '\r' :: '\n' :: cs => [] :: rows cs
  | '\n' :: cs => [] :: rows cs
  | c :: cs => (rows cs).modifyHead (c :: ·)

theorem forall₂_rows (text : List Char) :
    List.Forall₂ (fun row line => line = row ∨ line = row ++ ['\r']) (rows text) (text.splitOn '\n') := by
  fun_induction rows text with
  | case1 => exact List.Forall₂.cons (Or.inl rfl) List.Forall₂.nil
  | case2 cs ih =>
    have hcut : ('\r' :: '\n' :: cs).splitOn '\n' = ['\r'] :: cs.splitOn '\n' :=
      List.splitOn_append_cons_self ['\r'] cs
    rw [hcut]
    exact List.Forall₂.cons (Or.inr rfl) ih
  | case3 cs ih =>
    have hcut : ('\n' :: cs).splitOn '\n' = [] :: cs.splitOn '\n' :=
      List.splitOn_append_cons_self [] cs
    rw [hcut]
    exact List.Forall₂.cons (Or.inl rfl) ih
  | case4 c cs _ hfeed ih =>
    rw [List.splitOn_cons_eq_if_modifyHead, if_neg (by simpa using hfeed)]
    generalize rows cs = below, cs.splitOn '\n' = lines at ih
    cases ih with
    | nil => exact List.Forall₂.nil
    | cons hhead htail =>
      refine List.Forall₂.cons ?_ htail
      rcases hhead with rfl | rfl
      · exact Or.inl rfl
      · exact Or.inr rfl

/-- What the lines say is the same with a carriage return at their ends and without. -/
theorem map_content_rows (text : List Char) :
    (rows text).map content = (text.splitOn '\n').map content := by
  have hblank : AllBlank ['\r'] := List.forall_mem_singleton.2 rfl
  have hrows := forall₂_rows text
  generalize rows text = these, text.splitOn '\n' = lines at hrows
  induction hrows with
  | nil => rfl
  | cons hhead _ ih =>
    rw [List.map_cons, List.map_cons, ih]
    rcases hhead with rfl | rfl
    · rfl
    · rw [content_append_blanks hblank]

/-! ## Blocks -/

/-- The line is continued by the next one. -/
def isOpen (line : List Char) : Bool := line.getLast? == some '\\'

/-- Every line that is not continued ends a block. -/
def blocks (lines : List (List Char)) : List (List (List Char)) := lines.splitBy fun line _ => isOpen line

/-- What a line gives to its block: if it is continued, the text before its last backslash. -/
def share (line : List Char) : List Char := if isOpen line then trimEnd line.dropLast else line

/-- A block as one line. -/
def flowed (block : List (List Char)) : List Char :=
  [' '].intercalate ((block.map share).filter (· ≠ []))

theorem flowed_concat (block : List (List Char)) (line : List Char) :
    flowed (block ++ [line]) = glue (flowed block) (share line) := by
  by_cases hshare : share line = []
  · simp [flowed, glue, hshare]
  · have hmade : flowed (block ++ [line]) =
        [' '].intercalate ((block.map share).filter (· ≠ []) ++ [share line]) := by
      rw [flowed, List.map_append, List.map_singleton, List.filter_append,
        List.filter_cons_of_pos (by simpa using hshare), List.filter_nil]
    rw [hmade, glue, if_neg hshare]
    by_cases hparts : (block.map share).filter (· ≠ []) = []
    · rw [flowed, hparts, List.intercalate_nil, if_pos rfl, List.nil_append,
        List.intercalate_singleton]
    · have hheld : flowed block ≠ [] := by
        obtain ⟨part, hpart⟩ := List.exists_mem_of_ne_nil _ hparts
        have hne : part ≠ [] := by simpa using (List.mem_filter.1 hpart).2
        obtain ⟨c, hc⟩ := List.exists_mem_of_ne_nil part hne
        exact List.ne_nil_of_mem (mem_intercalate_of_mem [' '] hpart hc)
      rw [if_neg hheld, intercalate_concat _ hparts, List.append_assoc, List.singleton_append]
      rfl

theorem blocks_of_open {opens : List (List Char)} (h : ∀ line ∈ opens, isOpen line = true) :
    blocks opens = if opens = [] then [] else [opens] := by
  by_cases hnil : opens = []
  · rw [if_pos hnil, hnil]
    rfl
  · rw [if_neg hnil, blocks, List.splitBy_of_isChain hnil]
    exact (List.pairwise_of_forall_mem_list fun line hline _ _ => h line hline).isChain

theorem blocks_of_closed {opens : List (List Char)} (h : ∀ line ∈ opens, isOpen line = true)
    {line : List Char} (hline : isOpen line = false) (lines : List (List Char)) :
    blocks (opens ++ line :: lines) = (opens ++ [line]) :: blocks lines := by
  have hchain : (opens ++ [line]).IsChain fun line _ => isOpen line = true := by
    refine List.Pairwise.isChain (List.pairwise_append.2 ⟨?_, List.pairwise_singleton _ _, ?_⟩)
    · exact List.pairwise_of_forall_mem_list fun line hline _ _ => h line hline
    · exact fun line hline _ _ => h line hline
  rw [← List.singleton_append, ← List.append_assoc, blocks, List.splitBy_append,
    List.splitBy_of_isChain (by simp) hchain]
  · rfl
  · intro last hlast _ _
    rw [List.getLast?_concat] at hlast
    exact Option.some.inj hlast ▸ hline

/-- The held text is the block so far. -/
theorem joined_eq_flowed (opens : List (List Char)) {lines : List (List Char)}
    (hopens : ∀ line ∈ opens, isOpen line = true) (hlines : ∀ line ∈ lines, line ≠ []) :
    joined (flowed opens) lines = ((blocks (opens ++ lines)).map flowed).filter (· ≠ []) := by
  induction lines generalizing opens with
  | nil =>
    rw [List.append_nil, blocks_of_open hopens, joined]
    by_cases hnil : opens = []
    · rw [hnil]
      rfl
    · rw [if_neg hnil, List.map_singleton]
      by_cases hheld : flowed opens = []
      · rw [if_pos hheld, List.filter_cons_of_neg (by simpa using hheld), List.filter_nil]
      · rw [if_neg hheld, List.filter_cons_of_pos (by simpa using hheld), List.filter_nil]
  | cons line lines ih =>
    obtain ⟨hne, hlines⟩ := List.forall_mem_cons.1 hlines
    cases hline : isOpen line with
    | true =>
      have hcontinued : continued? line = some (share line) := by
        rw [continued?, if_pos (by simpa [isOpen] using hline), share, if_pos hline]
      have hmore : ∀ before ∈ opens ++ [line], isOpen before = true := by
        intro before hbefore
        rcases List.mem_append.1 hbefore with hbefore | hbefore
        · exact hopens before hbefore
        · exact List.mem_singleton.1 hbefore ▸ hline
      rw [joined, hcontinued]
      dsimp only
      rw [← flowed_concat, ih _ hmore hlines, List.append_assoc, List.singleton_append]
    | false =>
      have hcontinued : continued? line = none := by
        rw [continued?, if_neg (by simpa [isOpen] using hline)]
      have hshare : share line = line := by rw [share, if_neg (by simp [hline])]
      have hflowed : flowed (opens ++ [line]) ≠ [] := by
        rw [flowed_concat, hshare, glue, if_neg hne]
        split
        · exact hne
        · simp
      have hrest := ih [] (by simp) hlines
      rw [joined, hcontinued]
      dsimp only
      rw [blocks_of_closed hopens hline, List.map_cons, List.filter_cons_of_pos (by simpa using hflowed),
        flowed_concat, hshare]
      exact congrArg _ hrest

/-! ## The plain text -/

/-- What each line of a text says, without the lines that say nothing. -/
def spoken (text : List Char) : List (List Char) :=
  ((rows text).map fun row => trim (uncommented row)).filter (· ≠ [])

theorem spoken_eq_contents (text : List Char) : spoken text = contents text := by
  have hcontent : (fun row => trim (uncommented row)) = content := by
    funext row
    rw [content, code_eq_uncommented]
  rw [spoken, contents, hcontent, map_content_rows]

/-- Nothing but the lines of a text and the blocks they fall into tells what its plain text is. -/
theorem plain_eq_flowed_blocks (text : List Char) :
    plain text = ['\n'].intercalate (((blocks (spoken text)).map flowed).filter (· ≠ [])) := by
  have hne : ∀ line ∈ contents text, line ≠ [] := by
    intro line hline
    simpa using (List.mem_filter.1 hline).2
  rw [plain, logicalLines, spoken_eq_contents, ← List.nil_append (contents text),
    ← joined_eq_flowed [] (by simp) hne]
  rfl

/-- A comment between a line and its continuation, a line that is a backslash alone, and a text that
ends before the last block does. -/
example : (blocks (spoken "a \\\\\n# \\\nb\r\n\\\n c \\".toList)).map flowed =
    ["a \\ b".toList, "c".toList] := by
  decide

end PackBindings.Script
