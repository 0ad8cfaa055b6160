/-
  PackBindings.Archive.CodePage — file names in the first code page of archives.

  Entry names that are not marked as UTF-8 are in code page 437: below 128 the bytes are
  ASCII, above they are the characters of the table.
-/

namespace PackBindings.Archive

/-- The upper half of code page 437. -/
def upperHalf : List Char :=
  ("ÇüéâäàåçêëèïîìÄÅÉæÆôöòûùÿÖÜ¢£¥₧ƒáíóúñÑªº¿⌐¬½¼¡«»░▒▓│┤╡╢╖╕╣║╗╝╜╛┐└┴┬├─┼╞╟╚╔╩╦╠═╬╧╨╤╥╙╘╒╓╫╪┘┌█▄▌▐▀" ++
    "αßΓπΣσµτΦΘΩδ∞φε∩≡±≥≤⌠⌡÷≈°∙·√ⁿ²■\u00a0").toList

def charOf (b : UInt8) : Char :=
  if b < 128 then Char.ofNat b.toNat else upperHalf.getD (b.toNat - 128) ' '

def nameOf (bytes : ByteArray) : String := String.ofList (bytes.toList.map charOf)

end PackBindings.Archive
