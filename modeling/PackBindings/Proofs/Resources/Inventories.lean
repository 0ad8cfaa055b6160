/-
  PackBindings.Proofs.Resources.Inventories — an inventory has each key once.

  Keys are in increasing order, so none comes up twice, and inserting compares with each
  of them until the place is found.

  Proved, for every inventory and all resources:
  - `nodup_keys`: no two resources of an inventory have the same key.
  - `hasKey_ofList`: an inventory made of a list has the keys of the list and no others.
  - `mem_of_mem_ofList`: it holds resources of the list only.
  - `mem_ofList`: it holds all of them, where the key tells all of a resource (`KeyTells`).
  - `countP_key`: an inventory has one resource of a key, or none.
-/

import Mathlib.Data.List.Nodup
import Mathlib.Data.String.Basic
import PackBindings.Resource

namespace PackBindings

variable {α : Type} [Keyed α]

theorem key_eq_of_not_lt {a b : α} (h : ¬key a < key b) (h' : ¬key b < key a) : key a = key b :=
  List.le_antisymm h' h

theorem mem_keys_insertItem {a : α} {bs : List α} {k : List String} :
    k ∈ (insertItem a bs).map key ↔ k = key a ∨ k ∈ bs.map key := by
  induction bs with
  | nil => simp [insertItem]
  | cons b bs ih =>
    rw [insertItem]
    by_cases hab : key a < key b
    · rw [if_pos hab, List.map_cons, List.mem_cons]
    · rw [if_neg hab]
      by_cases hba : key b < key a
      · rw [if_pos hba, List.map_cons, List.mem_cons, ih, List.map_cons, List.mem_cons]
        exact or_left_comm
      · -- a resource with the key is there already
        rw [if_neg hba, key_eq_of_not_lt hab hba, List.map_cons, List.mem_cons]
        constructor
        · exact Or.inr
        · intro h
          exact h.elim Or.inl id

namespace Inventory

theorem hasKey_iff {inv : Inventory α} {k : List String} :
    inv.hasKey k = true ↔ k ∈ inv.items.map key := by
  simp [hasKey]

theorem has_iff {inv : Inventory α} {a : α} : inv.has a = true ↔ ∃ x ∈ inv.items, key x = key a := by
  rw [has, hasKey_iff, List.mem_map]

theorem has_of_mem {inv : Inventory α} {a : α} (h : a ∈ inv.items) : inv.has a = true :=
  has_iff.2 ⟨a, h, rfl⟩

theorem nodup_keys (inv : Inventory α) : (inv.items.map key).Nodup := by
  refine List.pairwise_map.2 (inv.increasing.imp ?_)
  intro a b hab he
  exact List.lt_irrefl (key b) (he ▸ hab)

theorem key_injective {inv : Inventory α} {a b : α} (ha : a ∈ inv.items) (hb : b ∈ inv.items)
    (h : key a = key b) : a = b :=
  List.inj_on_of_nodup_map inv.nodup_keys ha hb h

/-! ## Inventories of lists -/

theorem insertAll_append (inv : Inventory α) (xs ys : List α) :
    inv.insertAll (xs ++ ys) = (inv.insertAll xs).insertAll ys := List.foldl_append

theorem hasKey_insertAll (inv : Inventory α) (xs : List α) (k : List String) :
    (inv.insertAll xs).hasKey k = true ↔ inv.hasKey k = true ∨ k ∈ xs.map key := by
  induction xs generalizing inv with
  | nil => simp [insertAll]
  | cons x xs ih =>
    have hinsert : (inv.insert x).hasKey k = true ↔ k = key x ∨ inv.hasKey k = true := by
      rw [hasKey_iff, hasKey_iff]
      exact mem_keys_insertItem
    have hstep : inv.insertAll (x :: xs) = (inv.insert x).insertAll xs := rfl
    rw [hstep, ih, hinsert, List.map_cons, List.mem_cons, or_assoc, or_left_comm]

theorem hasKey_ofList {xs : List α} {k : List String} :
    (ofList xs).hasKey k = true ↔ k ∈ xs.map key := by
  rw [ofList, hasKey_insertAll]
  simp [hasKey, empty]

theorem mem_of_mem_insertAll {inv : Inventory α} {xs : List α} {x : α}
    (h : x ∈ (inv.insertAll xs).items) : x ∈ inv.items ∨ x ∈ xs := by
  induction xs generalizing inv with
  | nil => exact Or.inl h
  | cons y xs ih =>
    have hrest : x ∈ (inv.insert y).items ∨ x ∈ xs := ih h
    rcases hrest with hrest | hrest
    · rcases mem_of_mem_insertItem hrest with rfl | hold
      · exact Or.inr List.mem_cons_self
      · exact Or.inl hold
    · exact Or.inr (List.mem_cons_of_mem _ hrest)

theorem mem_of_mem_ofList {xs : List α} {x : α} (h : x ∈ (ofList xs).items) : x ∈ xs := by
  rcases mem_of_mem_insertAll h with h | h
  · simp [empty] at h
  · exact h

/-- Among these resources, those with the same key are the same. -/
def KeyTells (xs : List α) : Prop := ∀ a ∈ xs, ∀ b ∈ xs, key a = key b → a = b

theorem mem_ofList {xs : List α} (h : KeyTells xs) {x : α} : x ∈ (ofList xs).items ↔ x ∈ xs := by
  constructor
  · exact mem_of_mem_ofList
  · intro hx
    have hkey : key x ∈ (ofList xs).items.map key :=
      hasKey_iff.1 (hasKey_ofList.2 (List.mem_map_of_mem hx))
    obtain ⟨y, hy, he⟩ := List.mem_map.1 hkey
    rw [← h y (mem_of_mem_ofList hy) x hx he]
    exact hy

/-! ## Counting -/

theorem countP_key (inv : Inventory α) (a : α) :
    inv.items.countP (key · == key a) = if inv.has a then 1 else 0 := by
  have hcount : inv.items.countP (key · == key a) = (inv.items.map key).count (key a) := by
    rw [List.count, List.countP_map]
    rfl
  rw [hcount]
  by_cases h : inv.has a = true
  · rw [if_pos h, List.count_eq_one_of_mem inv.nodup_keys (hasKey_iff.1 h)]
  · rw [if_neg h, List.count_eq_zero_of_not_mem fun hmem => h (hasKey_iff.2 hmem)]

end Inventory

end PackBindings
