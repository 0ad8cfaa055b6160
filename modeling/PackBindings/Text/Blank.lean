/-
  PackBindings.Text.Blank — white space, and trimming it.

  The class is Unicode's `White_Space` property: twenty-five characters, among them
  the carriage return, the next-line control and the no-break space, but not the
  zero-width space. What is left after trimming neither begins nor ends with a blank
  (`head_trim`, `getLast_trim`).
-/

namespace PackBindings.Text

/-- The code points of Unicode's `White_Space`. -/
def blanks : List Nat :=
  [0x09, 0x0A, 0x0B, 0x0C, 0x0D, 0x20, 0x85, 0xA0, 0x1680, 0x2000, 0x2001, 0x2002, 0x2003, 0x2004,
    0x2005, 0x2006, 0x2007, 0x2008, 0x2009, 0x200A, 0x2028, 0x2029, 0x202F, 0x205F, 0x3000]

def isBlank (c : Char) : Bool := blanks.contains c.toNat

example : isBlank '\u200b' = false := by decide

def trimStart (cs : List Char) : List Char := cs.dropWhile isBlank

def trimEnd : List Char → List Char
  | [] => []
  | c :: cs =>
    match trimEnd cs with
    | [] => if isBlank c then [] else [c]
    | d :: ds => c :: d :: ds

def trim (cs : List Char) : List Char := trimEnd (trimStart cs)

theorem getLast_trimEnd {cs : List Char} (c : Char) (h : (trimEnd cs).getLast? = some c) :
    isBlank c = false := by
  induction cs with
  | nil => simp [trimEnd] at h
  | cons d ds ih =>
    simp only [trimEnd] at h
    split at h
    · split at h
      · simp at h
      · rename_i hd
        simp at h
        subst h
        simpa using hd
    · rename_i e es he
      rw [he] at ih
      simp only [List.getLast?_cons_cons] at h
      exact ih h

/-- Trimming the end keeps the first character of anything that is not blank. -/
theorem head_trimEnd {c : Char} {cs : List Char} (h : isBlank c = false) :
    (trimEnd (c :: cs)).head? = some c := by
  simp only [trimEnd]
  split <;> simp [h]

theorem head_trimStart {cs : List Char} (c : Char) (h : (trimStart cs).head? = some c) :
    isBlank c = false := by
  induction cs with
  | nil => simp [trimStart] at h
  | cons d ds ih =>
    simp only [trimStart, List.dropWhile_cons] at h ih
    split at h
    · exact ih h
    · rename_i hd
      simp at h
      subst h
      simpa using hd

theorem head_trim {cs : List Char} (c : Char) (h : (trim cs).head? = some c) : isBlank c = false := by
  cases hs : trimStart cs with
  | nil => simp [trim, hs, trimEnd] at h
  | cons d ds =>
    have hd : isBlank d = false :=
      head_trimStart d (show (trimStart cs).head? = some d by simp [hs])
    rw [trim, hs, head_trimEnd hd] at h
    simp at h
    exact h ▸ hd

theorem getLast_trim {cs : List Char} (c : Char) (h : (trim cs).getLast? = some c) :
    isBlank c = false := getLast_trimEnd c h

end PackBindings.Text
