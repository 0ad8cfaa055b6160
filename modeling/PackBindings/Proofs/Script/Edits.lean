/-
  PackBindings.Proofs.Script.Edits — edits after which a script uses what it used before.

  An edit changes one line of a script, or puts a new one between two others (`Edit`). No
  line holds a line feed, so an edit that is made of lines brings none into a line. These
  leave the script as it was for everybody who uses it: a carriage return before a line
  feed, a line that says nothing (`IsRemark`), blanks put before a line or after it or
  taken away there, and a comment put after a line at whose end no quote is open
  (`quotedAfter`). It does not matter whether the line is continued, or continues another.

  Proved, for all scripts:
  - `content_blanks_append` / `content_append_blanks` / `content_append_comment`: what a line
    says does not change.
  - `content_of_isRemark`: a line of blanks and a comment says nothing.
  - `said_of_edit`: one edit changes nothing of what the lines say.
  - `usage_of_edited_script`: no row of edits changes what a script uses.

  A comment put after an open quote is no comment.
-/

import Mathlib.Logic.Relation
import PackBindings.Script.Usage

namespace PackBindings.Script

open PackBindings.Text

def AllBlank (cs : List Char) : Prop := ∀ c ∈ cs, isBlank c = true

instance (cs : List Char) : Decidable (AllBlank cs) := inferInstanceAs (Decidable (∀ c ∈ cs, _))

/-! ## Trimming -/

theorem trimEnd_cons (c : Char) (cs : List Char) :
    trimEnd (c :: cs) = if trimEnd cs = [] ∧ isBlank c = true then [] else c :: trimEnd cs := by
  simp only [trimEnd]
  split <;> simp_all

theorem trimEnd_eq_nil {cs : List Char} (h : AllBlank cs) : trimEnd cs = [] := by
  induction cs with
  | nil => rfl
  | cons c cs ih =>
    obtain ⟨hc, hcs⟩ := List.forall_mem_cons.1 h
    rw [trimEnd_cons, if_pos ⟨ih hcs, hc⟩]

theorem trimEnd_append_blanks {blanks : List Char} (h : AllBlank blanks) (cs : List Char) :
    trimEnd (cs ++ blanks) = trimEnd cs := by
  induction cs with
  | nil => exact trimEnd_eq_nil h
  | cons c cs ih => rw [List.cons_append, trimEnd_cons, trimEnd_cons, ih]

theorem trimStart_blanks_append {blanks : List Char} (h : AllBlank blanks) (cs : List Char) :
    trimStart (blanks ++ cs) = trimStart cs := by
  induction blanks with
  | nil => rfl
  | cons c blanks ih =>
    obtain ⟨hc, hblanks⟩ := List.forall_mem_cons.1 h
    rw [trimStart, List.cons_append, List.dropWhile_cons_of_pos hc]
    exact ih hblanks

theorem trim_blanks_append {blanks : List Char} (h : AllBlank blanks) (cs : List Char) :
    trim (blanks ++ cs) = trim cs := by
  rw [trim, trimStart_blanks_append h, trim]

theorem trim_append_blanks {blanks : List Char} (h : AllBlank blanks) (cs : List Char) :
    trim (cs ++ blanks) = trim cs := by
  have hblank : trimStart blanks = [] := by
    have := trimStart_blanks_append h []
    rwa [List.append_nil] at this
  unfold trim
  rw [trimStart, List.dropWhile_append]
  by_cases hcs : (cs.dropWhile isBlank).isEmpty = true
  · rw [if_pos hcs, trimStart, List.isEmpty_iff.1 hcs]
    exact congrArg trimEnd hblank
  · rw [if_neg hcs]
    exact trimEnd_append_blanks h _

/-! ## Comments -/

/-- Whether a quote is open at the end of a line; in a comment none is. -/
def quotedAfter (quoted escaped : Bool) : List Char → Bool
  | [] => quoted
  | c :: cs =>
    if c == '#' && !quoted then false
    else quotedAfter (quoted ^^ (isQuote c && !escaped)) (c == '\\') cs

/-- A blank starts no comment, is no quote and escapes none. -/
theorem ordinary_of_isBlank {c : Char} (h : isBlank c = true) :
    (c == '#') = false ∧ isQuote c = false ∧ (c == '\\') = false := by
  refine ⟨?_, ?_, ?_⟩
  · rw [beq_eq_false_iff_ne]
    rintro rfl
    exact absurd h (by decide)
  · rw [isQuote, Bool.or_eq_false_iff, beq_eq_false_iff_ne, beq_eq_false_iff_ne]
    constructor
    · rintro rfl
      exact absurd h (by decide)
    · rintro rfl
      exact absurd h (by decide)
  · rw [beq_eq_false_iff_ne]
    rintro rfl
    exact absurd h (by decide)

theorem code_blank_cons {c : Char} (h : isBlank c = true) (quoted escaped : Bool) (cs : List Char) :
    code quoted escaped (c :: cs) = c :: code quoted false cs := by
  obtain ⟨hmark, hquote, hslash⟩ := ordinary_of_isBlank h
  simp [code, hmark, hquote, hslash]

theorem code_blanks_append {blanks : List Char} (h : AllBlank blanks) (quoted : Bool) (cs : List Char) :
    code quoted false (blanks ++ cs) = blanks ++ code quoted false cs := by
  induction blanks with
  | nil => rfl
  | cons c blanks ih =>
    obtain ⟨hc, hblanks⟩ := List.forall_mem_cons.1 h
    rw [List.cons_append, code_blank_cons hc, ih hblanks, List.cons_append]

theorem code_blanks {blanks : List Char} (h : AllBlank blanks) (quoted escaped : Bool) :
    code quoted escaped blanks = blanks := by
  cases blanks with
  | nil => rfl
  | cons c blanks =>
    obtain ⟨hc, hblanks⟩ := List.forall_mem_cons.1 h
    have hrest := code_blanks_append hblanks quoted []
    rw [List.append_nil] at hrest
    rw [code_blank_cons hc, hrest, code, List.append_nil]

/-- Blanks at the end of a line belong to its code, or to its comment. -/
theorem code_append_blanks {blanks : List Char} (h : AllBlank blanks) (quoted escaped : Bool)
    (line : List Char) : ∃ rest, AllBlank rest ∧
      code quoted escaped (line ++ blanks) = code quoted escaped line ++ rest := by
  induction line generalizing quoted escaped with
  | nil => exact ⟨blanks, h, code_blanks h quoted escaped⟩
  | cons c line ih =>
    rw [List.cons_append, code, code]
    by_cases hmark : (c == '#' && !quoted) = true
    · rw [if_pos hmark, if_pos hmark]
      exact ⟨[], by simp [AllBlank], rfl⟩
    · rw [if_neg hmark, if_neg hmark]
      obtain ⟨rest, hrest, he⟩ := ih (quoted ^^ (isQuote c && !escaped)) (c == '\\')
      exact ⟨rest, hrest, by rw [he, List.cons_append]⟩

theorem code_append_comment {quoted escaped : Bool} {line : List Char}
    (h : quotedAfter quoted escaped line = false) (comment : List Char) :
    code quoted escaped (line ++ '#' :: comment) = code quoted escaped line := by
  induction line generalizing quoted escaped with
  | nil =>
    have hquoted : quoted = false := h
    rw [hquoted]
    rfl
  | cons c line ih =>
    rw [quotedAfter] at h
    rw [List.cons_append, code, code]
    by_cases hmark : (c == '#' && !quoted) = true
    · rw [if_pos hmark, if_pos hmark]
    · rw [if_neg hmark] at h
      rw [if_neg hmark, if_neg hmark, ih h]

/-! ## What a line says -/

/-- A line of blanks, with a comment after them or without. -/
def IsRemark (line : List Char) : Prop :=
  ∃ blanks rest, AllBlank blanks ∧ (rest = [] ∨ rest.head? = some '#') ∧ line = blanks ++ rest

theorem content_blanks_append {blanks : List Char} (h : AllBlank blanks) (line : List Char) :
    content (blanks ++ line) = content line := by
  rw [content, code_blanks_append h, trim_blanks_append h, content]

theorem content_append_blanks {blanks : List Char} (h : AllBlank blanks) (line : List Char) :
    content (line ++ blanks) = content line := by
  obtain ⟨rest, hrest, he⟩ := code_append_blanks h false false line
  rw [content, he, trim_append_blanks hrest, content]

theorem content_append_comment {line : List Char} (h : quotedAfter false false line = false)
    (comment : List Char) : content (line ++ '#' :: comment) = content line := by
  rw [content, code_append_comment h, content]

theorem content_of_isRemark {line : List Char} (h : IsRemark line) : content line = [] := by
  obtain ⟨blanks, rest, hblanks, hrest, rfl⟩ := h
  rw [content_blanks_append hblanks]
  rcases hrest with rfl | hmark
  · rfl
  · obtain ⟨comment, rfl⟩ := List.head?_eq_some_iff.1 hmark
    rfl

/-! ## Edits -/

def linesOf (text : String) : List (List Char) := text.toList.splitOn '\n'

/-- One edit of the lines of a script. -/
inductive Edit : List (List Char) → List (List Char) → Prop
  /-- The line feed between two lines gets a carriage return before it. -/
  | carriageReturn (before : List (List Char)) (line next : List Char) (after : List (List Char)) :
      Edit (before ++ line :: next :: after) (before ++ (line ++ ['\r']) :: next :: after)
  | insertRemark (before : List (List Char)) (line : List Char) (after : List (List Char)) :
      IsRemark line → Edit (before ++ after) (before ++ line :: after)
  | indent (before : List (List Char)) (blanks line : List Char) (after : List (List Char)) :
      AllBlank blanks → Edit (before ++ line :: after) (before ++ (blanks ++ line) :: after)
  | outdent (before : List (List Char)) (blanks line : List Char) (after : List (List Char)) :
      AllBlank blanks → Edit (before ++ (blanks ++ line) :: after) (before ++ line :: after)
  | pad (before : List (List Char)) (line blanks : List Char) (after : List (List Char)) :
      AllBlank blanks → Edit (before ++ line :: after) (before ++ (line ++ blanks) :: after)
  | unpad (before : List (List Char)) (line blanks : List Char) (after : List (List Char)) :
      AllBlank blanks → Edit (before ++ (line ++ blanks) :: after) (before ++ line :: after)
  | appendComment (before : List (List Char)) (line comment : List Char)
      (after : List (List Char)) : quotedAfter false false line = false →
      Edit (before ++ line :: after) (before ++ (line ++ '#' :: comment) :: after)

/-- What lines say, without those that say nothing. -/
def said (lines : List (List Char)) : List (List Char) := (lines.map content).filter (· ≠ [])

theorem contents_eq_said (text : String) : contents text.toList = said (linesOf text) := rfl

theorem said_replace {line other : List Char} (h : content other = content line)
    (before after : List (List Char)) :
    said (before ++ line :: after) = said (before ++ other :: after) := by
  unfold said
  rw [List.map_append, List.map_append, List.map_cons, List.map_cons, h]

theorem said_insert {line : List Char} (h : content line = []) (before after : List (List Char)) :
    said (before ++ after) = said (before ++ line :: after) := by
  unfold said
  rw [List.map_append, List.map_append, List.map_cons, h, List.filter_append, List.filter_append,
    List.filter_cons_of_neg (by simp)]

theorem said_of_edit {lines others : List (List Char)} (h : Edit lines others) :
    said lines = said others := by
  cases h with
  | carriageReturn before line next after =>
    have hblank : AllBlank ['\r'] := List.forall_mem_singleton.2 rfl
    exact said_replace (content_append_blanks hblank line) before (next :: after)
  | insertRemark before line after hline =>
    exact said_insert (content_of_isRemark hline) before after
  | indent before blanks line after hblanks =>
    exact said_replace (content_blanks_append hblanks line) before after
  | outdent before blanks line after hblanks =>
    exact (said_replace (content_blanks_append hblanks line) before after).symm
  | pad before line blanks after hblanks =>
    exact said_replace (content_append_blanks hblanks line) before after
  | unpad before line blanks after hblanks =>
    exact (said_replace (content_append_blanks hblanks line) before after).symm
  | appendComment before line comment after hquoted =>
    exact said_replace (content_append_comment hquoted comment) before after

/-! ## Scripts -/

/-- One edit of a script. -/
def Edits (text other : String) : Prop := Edit (linesOf text) (linesOf other)

theorem contents_of_edits {text other : String} (h : Relation.ReflTransGen Edits text other) :
    contents text.toList = contents other.toList := by
  induction h with
  | refl => rfl
  | tail _ hedit ih => rw [ih, contents_eq_said, contents_eq_said, said_of_edit hedit]

/-- Whatever is edited, and however often, the script uses the same objectives and storages and
substitutes the same parameters. -/
theorem usage_of_edited_script {text other : String} (h : Relation.ReflTransGen Edits text other)
    (source location : String) :
    Usage.ofText text source location = Usage.ofText other source location := by
  unfold Usage.ofText plain logicalLines
  rw [contents_of_edits h]

/-- A remark with an open quote in it between a continued line and its continuation, a carriage
return and a comment after the backslash, and no indentation. -/
theorem a_continued_command_edited :
    let text := "$say \\\n $(x)"
    let other := "$say \\#1\r\n\t#don't\n$(x)"
    Relation.ReflTransGen Edits text other ∧
      Usage.ofText text "pack" "load" = Usage.ofText other "pack" "load" := by
  intro text other
  have hcomment : Edits "$say \\\n $(x)" "$say \\#1\n $(x)" :=
    Edit.appendComment [] "$say \\".toList ['1'] [" $(x)".toList] (by decide)
  have hreturn : Edits "$say \\#1\n $(x)" "$say \\#1\r\n $(x)" :=
    Edit.carriageReturn [] "$say \\#1".toList " $(x)".toList []
  have hremark : Edits "$say \\#1\r\n $(x)" "$say \\#1\r\n\t#don't\n $(x)" :=
    Edit.insertRemark ["$say \\#1\r".toList] "\t#don't".toList [" $(x)".toList]
      ⟨['\t'], "#don't".toList, List.forall_mem_singleton.2 rfl, Or.inr rfl, rfl⟩
  have hindent : Edits "$say \\#1\r\n\t#don't\n $(x)" "$say \\#1\r\n\t#don't\n$(x)" :=
    Edit.outdent ["$say \\#1\r".toList, "\t#don't".toList] [' '] "$(x)".toList []
      (List.forall_mem_singleton.2 rfl)
  have hedits : Relation.ReflTransGen Edits text other :=
    (((Relation.ReflTransGen.single hcomment).tail hreturn).tail hremark).tail hindent
  exact ⟨hedits, usage_of_edited_script hedits "pack" "load"⟩

/-- After an apostrophe that is left open, a mark is a character like any other. -/
example :
    quotedAfter false false "say don't".toList = true ∧
      content "say don't# storage pack:kept".toList = "say don't# storage pack:kept".toList := by
  decide

end PackBindings.Script
