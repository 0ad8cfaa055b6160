/-
  PackBindings.Kotlin.Identifier — identifiers made from names that packs use.

  A name falls into words, the runs of its ASCII letters and digits; every other
  character separates. Words are set one after the other, the first letter of each in
  upper case (`pascal`), or of each but the first (`camel`); only first letters change
  their case. A package segment is the words in lower case with low lines between
  (`packageSegment`). What would be empty or begin with a digit gets a low line first
  (`startedLegally`), and an identifier that is a hard keyword is written between grave
  accents (`quoted`), except in a package, where a low line is put after it.
-/

namespace PackBindings.Kotlin

/-- The words that no identifier may be. -/
def keywords : List String :=
  ["as", "break", "class", "continue", "do", "else", "false", "for", "fun", "if", "in",
    "interface", "is", "null", "object", "package", "return", "super", "this", "throw", "true",
    "try", "typealias", "typeof", "val", "var", "when", "while"]

def isKeyword (name : String) : Bool := keywords.contains name

/-- An identifier as it is written. -/
def quoted (name : String) : String :=
  if isKeyword name then "\x60" ++ name ++ "\x60" else name

def words (text : List Char) : List (List Char) :=
  (text.splitOnP (!·.isAlphanum)).filter (· ≠ [])

def mapHead (f : Char → Char) : List Char → List Char
  | [] => []
  | c :: cs => f c :: cs

def startedLegally : List Char → List Char
  | [] => ['_', '0']
  | c :: cs => if c.isDigit then '_' :: c :: cs else c :: cs

def pascalChars (text : List Char) : List Char :=
  startedLegally ((words text).map (mapHead Char.toUpper)).flatten

def camelChars (text : List Char) : List Char :=
  startedLegally <|
    match words text with
    | [] => []
    | first :: rest => mapHead Char.toLower first ++ (rest.map (mapHead Char.toUpper)).flatten

def segmentChars (text : List Char) : List Char :=
  startedLegally (['_'].intercalate ((words text).map (·.map Char.toLower)))

def pascal (text : String) : String := String.ofList (pascalChars text.toList)

def camel (text : String) : String := String.ofList (camelChars text.toList)

def packageSegment (text : String) : String :=
  let segment := String.ofList (segmentChars text.toList)
  if isKeyword segment then segment ++ "_" else segment

end PackBindings.Kotlin
