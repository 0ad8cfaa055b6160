/-
  PackBindings.Proofs.Kotlin.Scanning — a literal is scanned back, whatever comes after it.

  A scanner of literals goes from one character to the next and needs to see one more after a
  backslash alone. It knows four escapes and refuses all others; a dollar sign and a line feed
  that are not escaped it refuses as well. The first quotation mark that is not escaped ends
  the literal, and what is left is handed back.

  Proved, for all texts and all that follows them:
  - `escapedChar_cases`: a character stands for itself, or for it stands a backslash and one
    more.
  - `scanOpen_escapedChar`: the scanner takes one character of the text at a time.
  - `scan?_eq_some_iff`: it accepts what begins with a literal and nothing else, and leaves
    what stands behind that.
-/

import PackBindings.Kotlin.Literal

namespace PackBindings.Kotlin

/-! ## The scanner -/

/-- The character that a backslash and this one stand for. -/
def unescape? : Char → Option Char
  | '"' => some '"'
  | '\\' => some '\\'
  | '$' => some '$'
  | 'n' => some '\n'
  | _ => none

def standsForItself (c : Char) : Bool := c != '"' && c != '\\' && c != '$' && c != '\n'

/-- The text of a literal that is open, and what comes after its end. -/
def scanOpen : List Char → Option (List Char × List Char)
  | [] => none
  | '"' :: rest => some ([], rest)
  | '\\' :: d :: rest =>
    (unescape? d).bind fun c => (scanOpen rest).map fun (text, after) => (c :: text, after)
  | c :: rest =>
    if standsForItself c then (scanOpen rest).map fun (text, after) => (c :: text, after) else none

def scan? : List Char → Option (List Char × List Char)
  | '"' :: rest => scanOpen rest
  | _ => none

/-- The text of the literal that a source begins with, and the source after it. -/
def scanLiteral? (source : String) : Option (String × String) :=
  (scan? source.toList).map fun (text, rest) => (String.ofList text, String.ofList rest)

/-! ## One character -/

/-- What does not stand for itself is written as an escape that stands for it. -/
theorem escapedChar_cases (c : Char) : (standsForItself c = true ∧ escapedChar c = [c]) ∨
    standsForItself c = false ∧ ∃ d, escapedChar c = ['\\', d] ∧ unescape? d = some c := by
  unfold escapedChar
  split
  · exact Or.inr ⟨rfl, _, rfl, rfl⟩
  · exact Or.inr ⟨rfl, _, rfl, rfl⟩
  · exact Or.inr ⟨rfl, _, rfl, rfl⟩
  · exact Or.inr ⟨rfl, _, rfl, rfl⟩
  · rename_i hquote hslash hdollar hfeed
    have hself : ((c ≠ '"' ∧ c ≠ '\\') ∧ c ≠ '$') ∧ c ≠ '\n' := ⟨⟨⟨hquote, hslash⟩, hdollar⟩, hfeed⟩
    exact Or.inl ⟨by simpa [standsForItself] using hself, rfl⟩

theorem ne_of_standsForItself {c : Char} (h : standsForItself c = true) : c ≠ '"' ∧ c ≠ '\\' := by
  simp only [standsForItself, Bool.and_eq_true, bne_iff_ne] at h
  exact h.1.1

theorem scanOpen_self {c : Char} (h : standsForItself c = true) (rest : List Char) :
    scanOpen (c :: rest) = (scanOpen rest).map fun (text, after) => (c :: text, after) := by
  obtain ⟨hquote, hslash⟩ := ne_of_standsForItself h
  rw [scanOpen, if_pos h]
  · exact hquote
  · exact fun _ _ he => absurd he hslash

theorem scanOpen_escape {c d : Char} (h : unescape? d = some c) (rest : List Char) :
    scanOpen ('\\' :: d :: rest) =
      (scanOpen rest).map fun (text, after) => (c :: text, after) := by
  rw [scanOpen, h]
  rfl

theorem scanOpen_escapedChar (c : Char) (rest : List Char) : scanOpen (escapedChar c ++ rest) =
    (scanOpen rest).map fun (text, after) => (c :: text, after) := by
  rcases escapedChar_cases c with ⟨hself, he⟩ | ⟨-, d, he, hd⟩
  · rw [he]
    exact scanOpen_self hself rest
  · rw [he]
    exact scanOpen_escape hd rest

theorem escapedChar_of_self {c : Char} (h : standsForItself c = true) : escapedChar c = [c] := by
  rcases escapedChar_cases c with ⟨-, he⟩ | ⟨hnot, -⟩
  · exact he
  · rw [h] at hnot
    cases hnot

theorem escapedChar_of_unescape? {c d : Char} (h : unescape? d = some c) :
    escapedChar c = ['\\', d] := by
  unfold unescape? at h
  split at h
  · rw [← Option.some.inj h]
    rfl
  · rw [← Option.some.inj h]
    rfl
  · rw [← Option.some.inj h]
    rfl
  · rw [← Option.some.inj h]
    rfl
  · cases h

/-! ## Literals -/

theorem scanOpen_escaped (text rest : List Char) :
    scanOpen (text.flatMap escapedChar ++ '"' :: rest) = some (text, rest) := by
  induction text with
  | nil => rfl
  | cons c cs ih =>
    rw [List.flatMap_cons, List.append_assoc, scanOpen_escapedChar, ih]
    rfl

/-- Only what has been escaped comes to an end. -/
theorem eq_of_scanOpen {source text rest : List Char} (h : scanOpen source = some (text, rest)) :
    source = text.flatMap escapedChar ++ '"' :: rest := by
  fun_induction scanOpen source generalizing text with
  | case1 => cases h
  | case2 after =>
    obtain ⟨rfl, rfl⟩ := Prod.mk.inj (Option.some.inj h)
    rfl
  | case3 d source ih =>
    obtain ⟨c, hc, h⟩ := Option.bind_eq_some_iff.1 h
    obtain ⟨⟨inner, after⟩, hinner, he⟩ := Option.map_eq_some_iff.1 h
    obtain ⟨rfl, rfl⟩ := Prod.mk.inj he
    rw [List.flatMap_cons, escapedChar_of_unescape? hc, ih hinner]
    rfl
  | case4 c source _ _ hself ih =>
    obtain ⟨⟨inner, after⟩, hinner, he⟩ := Option.map_eq_some_iff.1 h
    obtain ⟨rfl, rfl⟩ := Prod.mk.inj he
    rw [List.flatMap_cons, escapedChar_of_self hself, ih hinner]
    rfl
  | case5 c source _ _ hnot => cases h

/-- The scanner accepts exactly what begins with a literal, and leaves what comes after it. -/
theorem scan?_eq_some_iff {source text rest : List Char} :
    scan? source = some (text, rest) ↔ source = literalChars text ++ rest := by
  constructor
  · intro h
    unfold scan? at h
    split at h
    · rw [eq_of_scanOpen h]
      simp [literalChars]
    · cases h
  · rintro rfl
    have hopen : literalChars text ++ rest = '"' :: (text.flatMap escapedChar ++ '"' :: rest) := by
      simp [literalChars]
    rw [hopen]
    exact scanOpen_escaped text rest

theorem toList_literal (text : String) : (literal text).toList = literalChars text.toList := by
  simp [literal]

theorem scanLiteral?_eq_some_iff {source text rest : String} :
    scanLiteral? source = some (text, rest) ↔ source = literal text ++ rest := by
  rw [← String.toList_inj, String.toList_append, toList_literal, ← scan?_eq_some_iff, scanLiteral?,
    Option.map_eq_some_iff]
  constructor
  · rintro ⟨⟨inner, after⟩, hscan, he⟩
    obtain ⟨rfl, rfl⟩ := Prod.mk.inj he
    rwa [String.toList_ofList, String.toList_ofList]
  · intro hscan
    exact ⟨_, hscan, by simp⟩

end PackBindings.Kotlin
