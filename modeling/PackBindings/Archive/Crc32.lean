/-
  PackBindings.Archive.Crc32 — the cyclic redundancy check of archives.

  The check value of bytes is the remainder of division by the polynomial `0xEDB88320`,
  least significant bit first, with all bits inverted before and after.
-/

namespace PackBindings.Archive

def crcBit (r : UInt32) : UInt32 := if r &&& 1 = 1 then (r >>> 1) ^^^ 0xEDB88320 else r >>> 1

def crcByte (r : UInt32) (b : UInt8) : UInt32 :=
  (List.range 8).foldl (fun r _ => crcBit r) (r ^^^ b.toUInt32)

def crc32 (bytes : ByteArray) : UInt32 := (bytes.foldl crcByte 0xFFFFFFFF) ^^^ 0xFFFFFFFF

end PackBindings.Archive
