/-
  PackBindings.Archive.Entry — what an archive holds.
-/

namespace PackBindings.Archive

structure Entry where
  name : String
  contents : ByteArray

/-- A name that ends in a slash is that of a directory. -/
def namesDirectory (name : String) : Bool := name.toList.getLast? = some '/'

def Entry.isDirectory (e : Entry) : Bool := namesDirectory e.name

end PackBindings.Archive
