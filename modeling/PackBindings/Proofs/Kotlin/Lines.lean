/-
  PackBindings.Proofs.Kotlin.Lines — the lines of a source are those that are written.

  A line feed ends each line of a source, so its text falls into these lines again if none of
  them holds a line feed. The first is the comment, which takes whatever it is given. All
  others are code (`IsCode`), names and fixed texts with literals in between: a literal
  escapes line feeds and ends where it should, but leaves carriage returns as they are.

  Proved, for every source:
  - `IsCode.noBreak` / `IsCode.closes`: code stays on its line, and closes every literal that
    it opens.
  - `isClosed_code`: so the lines of declarations are code if what is written in each of them is.
  - `Source.keepsLines`: a source keeps its lines if its comment does and the rest is code.
  - `mem_text_of_comment` / `mem_text_of_value` / `mem_text_of_body`: what is written in the
    comment or in a member is part of the text.
-/

import PackBindings.Proofs.Kotlin.Styles

namespace PackBindings.Kotlin

/-! ## Code -/

/-- Fixed texts and names, with literals of texts that have no carriage return. -/
inductive IsCode : String → Prop
  | plain {text : String} : text.toList.all isCodeChar = true → IsCode text
  | literal {text : String} : '\r' ∉ text.toList → IsCode (literal text)
  | append {x y : String} : IsCode x → IsCode y → IsCode (x ++ y)

/-- Read as code, a line ends outside of literals. -/
def ClosesLiterals (line : List Char) : Prop :=
  ∃ word blank, (Reader.code [] false).run line = .code word blank

namespace IsCode

theorem noBreak {text : String} (h : IsCode text) : ∀ c ∈ text.toList, c ≠ '\n' ∧ c ≠ '\r' := by
  intro c hc
  induction h with
  | plain h =>
    have hchar := List.all_eq_true.1 h c hc
    simp only [isCodeChar, Bool.and_eq_true, bne_iff_ne] at hchar
    exact ⟨hchar.1.2, hchar.2⟩
  | literal h =>
    rcases mem_literal hc with rfl | ⟨d, hd, hc⟩
    · decide
    · obtain ⟨hfeed, hreturn⟩ := break_escapedChar hc
      refine ⟨hfeed, fun he => h ?_⟩
      rwa [← hreturn he]
  | append _ _ ihx ihy =>
    rw [String.toList_append, List.mem_append] at hc
    exact hc.elim ihx ihy

theorem run {text : String} (h : IsCode text) : ∀ word blank, ∃ word' blank',
    (Reader.code word blank).run text.toList = .code word' blank' := by
  induction h with
  | plain h =>
    refine Reader.exists_run_code fun hquote => ?_
    exact absurd (List.all_eq_true.1 h _ hquote) (by decide)
  | literal _ =>
    rw [toList_literal]
    exact (Calls.literal _).ends
  | append _ _ ihx ihy =>
    intro word blank
    obtain ⟨word', blank', hx⟩ := ihx word blank
    rw [String.toList_append, Reader.run_append, hx]
    exact ihy word' blank'

theorem closes {text : String} (h : IsCode text) : ClosesLiterals text.toList := h.run [] false

end IsCode

theorem isCodeChar_of_isTypeChar {c : Char} (h : isTypeChar c = true) : isCodeChar c = true := by
  simp only [isCodeChar, Bool.and_eq_true, bne_iff_ne]
  refine ⟨⟨?_, ?_⟩, ?_⟩
  all_goals
    rintro rfl
    exact absurd h (by decide)

/-- All that is written is code. -/
def code : Style := ⟨IsPlain, IsCode, IsCode, fun text => '\r' ∉ text.toList⟩

theorem isClosed_code : code.IsClosed where
  identifier h := h.plain
  type h := .plain (List.all_eq_true.2 fun c hc => isCodeChar_of_isTypeChar (List.all_eq_true.1 h c hc))
  code := .plain
  literal := .literal
  append := .append
  plain_of_name := id
  value_of_type := id

/-! ## Declarations -/

namespace Decl

theorem memberLines_subset (depth : Nat) (n : String) (ms : List Decl) :
    memberLines (depth + 1) none ms ⊆ lines depth (object n ms) := by
  cases ms with
  | nil => exact List.nil_subset _
  | cons m ms =>
    rw [lines]
    exact List.Subset.trans (List.subset_append_right _ _) (List.subset_append_left _ _)

theorem lines_subset_memberLines {m : Decl} {ms : List Decl} (h : m ∈ ms) (depth : Nat)
    (above : Option Decl) : lines depth m ⊆ memberLines depth above ms := by
  induction ms generalizing above with
  | nil => exact absurd h List.not_mem_nil
  | cons d ms ih =>
    rw [memberLines]
    rcases List.mem_cons.1 h with rfl | h
    · exact List.Subset.trans (List.subset_append_right _ _) (List.subset_append_left _ _)
    · exact List.Subset.trans (ih h _) (List.subset_append_right _ _)

mutual

/-- The lines of a member, some tabs deeper, are lines of the object. -/
theorem exists_lines_subset : (d : Decl) → (depth : Nat) → ∀ o ∈ nodes d, ∀ m ∈ o.2,
    ∃ deeper, lines deeper m ⊆ lines depth d
  | .property _, _, _, ho => absurd ho List.not_mem_nil
  | .function _, _, _, ho => absurd ho List.not_mem_nil
  | .object n ms, depth, o, ho => by
    intro m hm
    rcases mem_nodes_object.1 ho with rfl | ⟨i, hi, rfl⟩
    · refine ⟨depth + 1, List.Subset.trans ?_ (memberLines_subset depth n ms)⟩
      exact lines_subset_memberLines hm (depth + 1) none
    · obtain ⟨deeper, hsub⟩ := exists_lines_subset_within ms (depth + 1) none i hi m hm
      exact ⟨deeper, List.Subset.trans hsub (memberLines_subset depth n ms)⟩

theorem exists_lines_subset_within : (ms : List Decl) → (depth : Nat) → (above : Option Decl) →
    ∀ o ∈ within ms, ∀ m ∈ o.2, ∃ deeper, lines deeper m ⊆ memberLines depth above ms
  | [], _, _, _, ho => absurd ho List.not_mem_nil
  | d :: ms, depth, above, o, ho => by
    intro m hm
    rw [memberLines]
    rcases List.mem_append.1 ho with ho | ho
    · obtain ⟨deeper, hsub⟩ := exists_lines_subset d depth o ho m hm
      refine ⟨deeper, List.Subset.trans hsub ?_⟩
      exact List.Subset.trans (List.subset_append_right _ _) (List.subset_append_left _ _)
    · obtain ⟨deeper, hsub⟩ := exists_lines_subset_within ms depth (some d) o ho m hm
      exact ⟨deeper, List.Subset.trans hsub (List.subset_append_right _ _)⟩

end

theorem mem_lines_of_value {p : Property} {c : Char} (h : c ∈ p.value.toList) (depth : Nat) :
    ∃ line ∈ lines depth (property p), c ∈ line.toList := by
  refine ⟨indent depth p.text, List.mem_singleton_self _, ?_⟩
  rw [indent, Property.text, String.toList_append, String.toList_append]
  exact List.mem_append_right _ (List.mem_append_right _ h)

theorem mem_lines_of_body {f : Function} {c : Char} (h : c ∈ f.body.toList) (depth : Nat) :
    ∃ line ∈ lines depth (function f), c ∈ line.toList := by
  refine ⟨indent depth f.text, List.mem_append_right _ (List.mem_singleton_self _), ?_⟩
  rw [indent, Function.text, String.toList_append, String.toList_append]
  exact List.mem_append_right _ (List.mem_append_right _ h)

end Decl

/-! ## Texts -/

theorem splitOn_textOf_cons (line : String) (lines : List String) :
    (textOf (line :: lines)).toList.splitOn '\n' =
      line.toList.splitOn '\n' ++ (textOf lines).toList.splitOn '\n' := by
  have htext : (textOf (line :: lines)).toList = line.toList ++ '\n' :: (textOf lines).toList := by
    simp [textOf]
  rw [htext, List.splitOn_append_cons_self]

theorem splitOn_textOf {lines : List String} (h : ∀ line ∈ lines, '\n' ∉ line.toList) :
    (textOf lines).toList.splitOn '\n' = lines.map String.toList ++ [[]] := by
  induction lines with
  | nil => rfl
  | cons line lines ih =>
    obtain ⟨hline, hlines⟩ := List.forall_mem_cons.1 h
    rw [splitOn_textOf_cons, List.splitOn_eq_singleton hline, ih hlines]
    rfl

theorem mem_textOf {lines : List String} {c : Char} :
    c ∈ (textOf lines).toList ↔ ∃ line ∈ lines, c ∈ line.toList ∨ c = '\n' := by
  have hfeed : "\n".toList = ['\n'] := rfl
  rw [textOf, String.toList_join, List.flatMap_map, List.mem_flatMap]
  simp [hfeed]

/-! ## Sources -/

/-- Every line break is the end of a line that was written, and no literal goes past one. -/
structure Source.KeepsLines (s : Source) : Prop where
  lines : s.text.toList.splitOn '\n' = (s.lines 0).map String.toList ++ [[]]
  comment : (s.text.toList.splitOn '\n')[0]? = some ("// " ++ s.comment).toList
  suppression : (s.text.toList.splitOn '\n')[1]? =
    some "@file:Suppress(\"unused\", \"RedundantVisibilityModifier\")".toList
  noReturn : '\r' ∉ s.text.toList
  /-- No literal that is opened after the comment is still open at the end of its line. -/
  literals : ∀ line ∈ (s.text.toList.splitOn '\n').tail, ClosesLiterals line

namespace Source

theorem isCode_suppression :
    IsCode "@file:Suppress(\"unused\", \"RedundantVisibilityModifier\")" := by
  have htext : "@file:Suppress(\"unused\", \"RedundantVisibilityModifier\")" =
      "@file:Suppress(" ++ literal "unused" ++ ", " ++ literal "RedundantVisibilityModifier" ++ ")" := by
    decide
  rw [htext]
  refine ((((IsCode.plain (by decide)).append (.literal (by decide))).append
    (.plain (by decide))).append (.literal (by decide))).append (.plain (by decide))

variable {s : Source}

theorem keepsLines (hcomment : ∀ c ∈ s.comment.toList, c ≠ '\n' ∧ c ≠ '\r')
    (hcode : ∀ line ∈ (s.lines 0).tail, IsCode line) : s.KeepsLines := by
  have hlines : s.lines 0 = ("// " ++ s.comment) :: (s.lines 0).tail := rfl
  have hfirst : ∀ c ∈ ("// " ++ s.comment).toList, c ≠ '\n' ∧ c ≠ '\r' := by
    intro c hc
    rw [String.toList_append, List.mem_append] at hc
    rcases hc with hc | hc
    · exact (IsCode.plain (by decide)).noBreak c hc
    · exact hcomment c hc
  have hall : ∀ line ∈ s.lines 0, ∀ c ∈ line.toList, c ≠ '\n' ∧ c ≠ '\r' := by
    rw [hlines]
    exact List.forall_mem_cons.2 ⟨hfirst, fun line hline => (hcode line hline).noBreak⟩
  have hsplit : s.text.toList.splitOn '\n' = (s.lines 0).map String.toList ++ [[]] :=
    splitOn_textOf fun line hline hfeed => (hall line hline _ hfeed).1 rfl
  exact {
    lines := hsplit
    comment := by rw [hsplit]; rfl
    suppression := by rw [hsplit]; rfl
    noReturn := by
      intro hreturn
      obtain ⟨line, hline, hc | hc⟩ := mem_textOf.1 hreturn
      · exact (hall line hline _ hc).2 rfl
      · exact absurd hc (by decide)
    literals := by
      rw [hsplit, hlines]
      intro line hline
      rcases List.mem_append.1 hline with hline | hline
      · obtain ⟨text, htext, rfl⟩ := List.mem_map.1 hline
        exact (hcode text htext).closes
      · rw [List.mem_singleton.1 hline]
        exact ⟨[], false, rfl⟩ }

/-- Package, imports and members are code. -/
theorem isCode_tail (hpackage : IsCode s.package) (himports : ∀ name ∈ s.imports, IsCode name)
    (hname : IsPlain s.name) (hmembers : ∀ o ∈ s.objects, ∀ m ∈ o.2, m.Obeys code) :
    ∀ line ∈ (s.lines 0).tail, IsCode line := by
  have hempty : IsCode "" := .plain rfl
  have htail : (s.lines 0).tail = ["@file:Suppress(\"unused\", \"RedundantVisibilityModifier\")", "",
      "package " ++ s.package] ++
      (if s.imports = [] then [] else "" :: s.imports.map ("import " ++ ·)) ++
      [""] ++ s.object.lines 0 := rfl
  rw [htail]
  intro line hline
  rw [List.mem_append, List.mem_append, List.mem_append, List.mem_singleton] at hline
  rcases hline with ((hline | hline) | rfl) | hline
  · simp only [List.mem_cons, List.not_mem_nil, or_false] at hline
    rcases hline with rfl | rfl | rfl
    · exact isCode_suppression
    · exact hempty
    · exact (IsCode.plain (by decide)).append hpackage
  · split at hline
    · exact absurd hline List.not_mem_nil
    · rcases List.mem_cons.1 hline with rfl | hline
      · exact hempty
      · obtain ⟨name, hname, rfl⟩ := List.mem_map.1 hline
        exact (IsCode.plain (by decide)).append (himports name hname)
  · exact hempty
  · exact Decl.value_lines isClosed_code s.object 0 hname hmembers line hline

theorem mem_text_of_mem_lines {line : String} (h : line ∈ s.lines 0) {c : Char} (hc : c ∈ line.toList) :
    c ∈ s.text.toList :=
  mem_textOf.2 ⟨line, h, Or.inl hc⟩

section

variable {o : Node} (ho : o ∈ s.objects)

include ho

theorem mem_text_of_mem_objects {m : Decl} (hm : m ∈ o.2) {c : Char}
    (hc : ∀ depth, ∃ line ∈ m.lines depth, c ∈ line.toList) : c ∈ s.text.toList := by
  obtain ⟨deeper, hsub⟩ := Decl.exists_lines_subset s.object 0 o ho m hm
  obtain ⟨line, hline, hc⟩ := hc deeper
  exact mem_text_of_mem_lines (List.mem_append_right _ (hsub hline)) hc

theorem mem_text_of_value {p : Property} (hp : .property p ∈ o.2) {c : Char}
    (hc : c ∈ p.value.toList) : c ∈ s.text.toList :=
  mem_text_of_mem_objects ho hp (Decl.mem_lines_of_value hc)

theorem mem_text_of_body {f : Function} (hf : .function f ∈ o.2) {c : Char}
    (hc : c ∈ f.body.toList) : c ∈ s.text.toList :=
  mem_text_of_mem_objects ho hf (Decl.mem_lines_of_body hc)

end

theorem mem_text_of_comment {c : Char} (hc : c ∈ s.comment.toList) : c ∈ s.text.toList := by
  refine mem_text_of_mem_lines List.mem_cons_self ?_
  rw [String.toList_append]
  exact List.mem_append_right _ hc

/-- A source that keeps its lines has no line feed in its comment. -/
theorem KeepsLines.feed_not_mem_comment (h : s.KeepsLines) : '\n' ∉ s.comment.toList := by
  intro hfeed
  have hline : '\n' ∈ ("// " ++ s.comment).toList := by
    rw [String.toList_append]
    exact List.mem_append_right _ hfeed
  exact not_mem_of_mem_splitOn (List.mem_of_getElem? h.comment) hline

end Source

end PackBindings.Kotlin
