/-
  PackBindings.Archive.Writer — the archive of some entries.

  Entries stand one after the other, each behind a header of its own; after them stand
  their directory and the record that ends an archive. A name is marked as UTF-8 if it is
  not plain, and a directory is stored whatever the method of the rest. Dates are the first
  that an archive can have. Files are for their owner to write and for all to read.
-/

import PackBindings.Archive.Crc32
import PackBindings.Archive.Entry
import PackBindings.Archive.Method

namespace PackBindings.Archive

/-- An entry with its contents as they are kept. -/
structure Member where
  entry : Entry
  method : Method
  packed : ByteArray

def Member.ofEntry (method : Method) (e : Entry) : Member :=
  let method := if e.isDirectory then .stored else method
  ⟨e, method, method.pack e.contents⟩

namespace Member

def flags (m : Member) : Nat := if m.entry.name.toList.all (·.toNat < 0x80) then 0 else 0x800

/-- What the header of an entry and the directory say alike: version, flags, method, time,
date, check value and sizes, how long the name is, and that there are no extra fields. -/
def commonPart (m : Member) : List UInt8 :=
  bytesOf 2 20 ++ bytesOf 2 m.flags ++ bytesOf 2 m.method.code ++ bytesOf 2 0 ++
    bytesOf 2 0x21 ++ bytesOf 4 (crc32 m.entry.contents).toNat ++ bytesOf 4 m.packed.size ++
    bytesOf 4 m.entry.contents.size ++ bytesOf 2 m.entry.name.utf8ByteSize ++ bytesOf 2 0

def localHeader (m : Member) : ByteArray :=
  ⟨(bytesOf 4 0x04034B50 ++ m.commonPart).toArray⟩ ++ m.entry.name.toUTF8

/-- The kind of an entry and what may be done with it. -/
def mode (m : Member) : Nat := if m.entry.isDirectory then 0o40755 else 0o100644

def directoryHeader (m : Member) (position : Nat) : ByteArray :=
  ⟨(bytesOf 4 0x02014B50 ++ bytesOf 2 0x32E ++ m.commonPart ++ bytesOf 2 0 ++ bytesOf 2 0 ++
    bytesOf 2 0 ++ bytesOf 2 0 ++ bytesOf 2 m.mode ++ bytesOf 4 position).toArray⟩ ++
    m.entry.name.toUTF8

end Member

/-- The data of the entries, and their directory. -/
def parts (ms : List Member) : ByteArray × ByteArray :=
  ms.foldl (fun (data, directory) m =>
    (data ++ m.localHeader ++ m.packed, directory ++ m.directoryHeader data.size))
    (.empty, .empty)

def endRecord (count size position : Nat) : ByteArray :=
  ⟨(bytesOf 4 0x06054B50 ++ bytesOf 2 0 ++ bytesOf 2 0 ++ bytesOf 2 count ++ bytesOf 2 count ++
    bytesOf 4 size ++ bytesOf 4 position ++ bytesOf 2 0).toArray⟩

def write (method : Method) (es : List Entry) : ByteArray :=
  let (data, directory) := parts (es.map (.ofEntry method))
  data ++ directory ++ endRecord es.length directory.size data.size

end PackBindings.Archive
