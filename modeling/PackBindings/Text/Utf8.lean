/-
  PackBindings.Text.Utf8 — reading bytes as text when they may not be UTF-8.

  Bytes that belong to no character become replacement characters: one for each longest
  start of a character that breaks off, and one for each byte that starts none.
-/

namespace PackBindings.Text

def replacement : Char := '\ufffd'

/-- The range of the second byte of a character, and how many bytes the character has. -/
def lead? (b : Nat) : Option (Nat × Nat × Nat) :=
  if 0xC2 ≤ b ∧ b ≤ 0xDF then some (0x80, 0xBF, 2)
  else if b = 0xE0 then some (0xA0, 0xBF, 3)
  else if b = 0xED then some (0x80, 0x9F, 3)
  else if 0xE1 ≤ b ∧ b ≤ 0xEF then some (0x80, 0xBF, 3)
  else if b = 0xF0 then some (0x90, 0xBF, 4)
  else if 0xF1 ≤ b ∧ b ≤ 0xF3 then some (0x80, 0xBF, 4)
  else if b = 0xF4 then some (0x80, 0x8F, 4)
  else none

/-- The bytes that continue a character, up to `n` of them. -/
def continuation (n : Nat) (bytes : List Nat) : List Nat :=
  (bytes.take n).takeWhile fun b => 0x80 ≤ b && b ≤ 0xBF

def codePoint (mark : Nat) (rest : List Nat) : Nat := rest.foldl (fun v b => v * 64 + b % 64) mark

/-- The character at the head of bytes, and how many bytes it takes up. -/
def charAt (b : Nat) (bytes : List Nat) : Char × Nat :=
  if b < 0x80 then (Char.ofNat b, 1)
  else
    match lead? b with
    | none => (replacement, 1)
    | some (lo, hi, n) =>
      match bytes with
      | [] => (replacement, 1)
      | second :: later =>
        if lo ≤ second ∧ second ≤ hi then
          let rest := second :: continuation (n - 2) later
          if rest.length = n - 1 then
            (Char.ofNat (codePoint (b % (if n = 2 then 32 else if n = 3 then 16 else 8)) rest), n)
          else (replacement, 1 + rest.length)
        else (replacement, 1)

/-- The text of bytes after `skip` of them. -/
def lossyFrom (skip : Nat) : List Nat → List Char
  | [] => []
  | b :: bytes =>
    match skip with
    | n + 1 => lossyFrom n bytes
    | 0 => (charAt b bytes).1 :: lossyFrom ((charAt b bytes).2 - 1) bytes

def lossy (bytes : ByteArray) : String :=
  (String.fromUTF8? bytes).getD (String.ofList (lossyFrom 0 (bytes.toList.map (·.toNat))))

end PackBindings.Text
