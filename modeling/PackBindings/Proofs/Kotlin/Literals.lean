/-
  PackBindings.Proofs.Kotlin.Literals — a literal says where it ends and what it stands for.

  Proved, for all texts:
  - `literalChars_append_inj`: two literals at the start of the same characters are the
    same literal, whatever follows them.
  - `literal_injective`: two texts with the same literal are equal.
  - `not_literal_of_head`: what does not start with a quotation mark is no literal.
  - `mem_literal`: the characters of a literal are its marks and what its text is written with.
  - `bare_literalChars`: outside of escapes a literal has the characters that stand for
    themselves, between its two quotation marks.
  - `literals_delimit_themselves`: so a literal tells its text and where it ends, and it ends
    at no earlier place.
-/

import Mathlib.Logic.Function.Basic
import PackBindings.Proofs.Kotlin.Scanning

namespace PackBindings.Kotlin

/-! ## Literals in front of other text -/

/-- What is scanned tells the literal. -/
theorem literalChars_append_inj {text other xs ys : List Char}
    (h : literalChars text ++ xs = literalChars other ++ ys) : text = other ∧ xs = ys := by
  have hscan : scan? (literalChars text ++ xs) = some (other, ys) := scan?_eq_some_iff.2 h
  rw [scan?_eq_some_iff.2 rfl] at hscan
  exact Prod.mk.inj (Option.some.inj hscan)

theorem literal_append_inj {text other x y : String} (h : literal text ++ x = literal other ++ y) :
    text = other ∧ x = y := by
  have hc := congrArg String.toList h
  rw [String.toList_append, String.toList_append, toList_literal, toList_literal] at hc
  obtain ⟨ht, hx⟩ := literalChars_append_inj hc
  exact ⟨String.toList_inj.1 ht, String.toList_inj.1 hx⟩

theorem literal_injective {text other : String} (h : literal text = literal other) :
    text = other :=
  (literal_append_inj (x := "") (y := "") (by rw [h])).1

theorem not_literal_of_head {text other : String} (h : other.toList.head? ≠ some '"') :
    literal text ≠ other := by
  intro he
  exact h (by rw [← he, toList_literal]; rfl)

/-! ## Characters of a literal -/

/-- Escaping writes no line feed, and a carriage return for a carriage return only. -/
theorem break_escapedChar {c d : Char} (h : c ∈ escapedChar d) : c ≠ '\n' ∧ (c = '\r' → d = '\r') := by
  unfold escapedChar at h
  split at h
  all_goals simp only [List.mem_cons, List.not_mem_nil, or_false] at h
  · rcases h with rfl | rfl <;> decide
  · rcases h with rfl | rfl <;> decide
  · rcases h with rfl | rfl <;> decide
  · rcases h with rfl | rfl <;> decide
  · rename_i hfeed
    subst h
    exact ⟨hfeed, id⟩

theorem mem_literal {c : Char} {text : String} (h : c ∈ (literal text).toList) :
    c = '"' ∨ ∃ d ∈ text.toList, c ∈ escapedChar d := by
  rw [toList_literal, literalChars, List.mem_append, List.mem_cons, List.mem_flatMap,
    List.mem_singleton] at h
  rcases h with (h | h) | h
  · exact Or.inl h
  · exact Or.inr h
  · exact Or.inl h

theorem return_mem_literal {text : String} (h : '\r' ∈ text.toList) : '\r' ∈ (literal text).toList := by
  have hescaped : '\r' ∈ text.toList.flatMap escapedChar :=
    List.mem_flatMap.2 ⟨_, h, List.mem_singleton_self _⟩
  rw [toList_literal, literalChars]
  exact List.mem_append_left _ (List.mem_cons_of_mem _ hescaped)

/-! ## What is not escaped -/

/-- The characters that belong to no escape. -/
def bare : List Char → List Char
  | '\\' :: _ :: rest => bare rest
  | c :: rest => c :: bare rest
  | [] => []

theorem bare_escapedChar (c : Char) (rest : List Char) :
    bare (escapedChar c ++ rest) = [c].filter standsForItself ++ bare rest := by
  rcases escapedChar_cases c with ⟨hself, he⟩ | ⟨hnot, d, he, -⟩
  · have hslash := (ne_of_standsForItself hself).2
    rw [he, List.filter_cons_of_pos hself]
    show bare (c :: rest) = c :: bare rest
    rw [bare]
    exact fun _ _ heq => absurd heq hslash
  · rw [he, List.filter_cons_of_neg (by simp [hnot])]
    rfl

theorem bare_escaped (text rest : List Char) : bare (text.flatMap escapedChar ++ rest) =
    text.filter standsForItself ++ bare rest := by
  induction text with
  | nil => rfl
  | cons c cs ih =>
    rw [List.flatMap_cons, List.append_assoc, bare_escapedChar, ih, ← List.append_assoc,
      ← List.filter_append]
    rfl

theorem bare_literalChars (text : List Char) :
    bare (literalChars text) = '"' :: text.filter standsForItself ++ ['"'] := by
  have hopen : literalChars text = '"' :: (text.flatMap escapedChar ++ ['"']) := by
    simp [literalChars]
  have hquote : bare (literalChars text) = '"' :: bare (text.flatMap escapedChar ++ ['"']) := by
    rw [hopen]
    rfl
  rw [hquote, bare_escaped]
  rfl

theorem feed_not_mem_literal (text : String) : '\n' ∉ (literal text).toList := by
  intro hfeed
  rcases mem_literal hfeed with hquote | ⟨d, -, hd⟩
  · exact absurd hquote (by decide)
  · exact (break_escapedChar hd).1 rfl

/-- No beginning of a literal is a literal before it is all there. -/
theorem scan?_take_isSome_iff (text : List Char) (n : Nat) :
    (scan? ((literalChars text).take n)).isSome = true ↔ (literalChars text).length ≤ n := by
  rw [Option.isSome_iff_exists]
  constructor
  · rintro ⟨⟨inner, after⟩, hscan⟩
    have htake := scan?_eq_some_iff.1 hscan
    have hwhole : literalChars text ++ [] =
        literalChars inner ++ (after ++ (literalChars text).drop n) := by
      rw [← List.append_assoc, ← htake, List.take_append_drop, List.append_nil]
    have hnil := (literalChars_append_inj hwhole).2.symm
    exact List.drop_eq_nil_iff.1 (List.append_eq_nil_iff.1 hnil).2
  · intro hlen
    rw [List.take_of_length_le hlen]
    exact ⟨(text, []), scan?_eq_some_iff.2 (List.append_nil _).symm⟩

/-- A literal is read back with whatever comes after it, so no two texts have the same one; no
dollar sign stands in it that is not escaped, and no line feed at all; and it cannot end early. -/
theorem literals_delimit_themselves :
    (∀ text rest source : String,
      scanLiteral? source = some (text, rest) ↔ source = literal text ++ rest) ∧
    Function.Injective literal ∧
    (∀ text : String, '\n' ∉ (literal text).toList ∧ '$' ∉ bare (literal text).toList ∧
      bare (literal text).toList = '"' :: text.toList.filter standsForItself ++ ['"']) ∧
    ∀ (text : String) (n : Nat),
      (scan? ((literal text).toList.take n)).isSome = true ↔ (literal text).length ≤ n := by
  refine ⟨fun text rest source => scanLiteral?_eq_some_iff, fun _ _ => literal_injective,
    fun text => ?_, fun text n => ?_⟩
  · have hbare : bare (literal text).toList = '"' :: text.toList.filter standsForItself ++ ['"'] := by
      rw [toList_literal, bare_literalChars]
    refine ⟨feed_not_mem_literal text, ?_, hbare⟩
    rw [hbare]
    simp [standsForItself]
  · rw [toList_literal, ← String.length_toList, toList_literal]
    exact scan?_take_isSome_iff text.toList n

end PackBindings.Kotlin
