/-
  PackBindings.Kotlin.Literal — string literals.

  A literal stands between quotation marks on one line. A quotation mark, a backslash,
  a dollar sign and a line feed are written as a backslash and a character that names
  them; every other character stands for itself.
-/

namespace PackBindings.Kotlin

def escapedChar (c : Char) : List Char :=
  match c with
  | '"' => ['\\', '"']
  | '\\' => ['\\', '\\']
  | '$' => ['\\', '$']
  | '\n' => ['\\', 'n']
  | c => [c]

def literalChars (text : List Char) : List Char := '"' :: text.flatMap escapedChar ++ ['"']

def literal (text : String) : String := String.ofList (literalChars text.toList)

end PackBindings.Kotlin
