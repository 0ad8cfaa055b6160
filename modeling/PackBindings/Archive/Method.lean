/-
  PackBindings.Archive.Method — how the contents of an entry are kept.
-/

import PackBindings.Archive.Deflate
import PackBindings.Archive.Inflate

namespace PackBindings.Archive

inductive Method where
  | stored
  | deflated
  deriving DecidableEq, Repr

namespace Method

def code : Method → Nat
  | stored => 0
  | deflated => 8

def ofCode? (n : Nat) : Option Method := [stored, deflated].find? (·.code = n)

def pack : Method → ByteArray → ByteArray
  | stored, contents => contents
  | deflated, contents => deflate contents

def unpack? : Method → ByteArray → Option ByteArray
  | stored, packed => some packed
  | deflated, packed => inflate? packed

end Method

end PackBindings.Archive
