/-
  PackBindings.Proofs.Resources.Iteration — resources and families, taken up in any order.

  Resources are held in sets, which list them in an order of their own, and families come
  up in the order in which a map lists them. Both are sorted before anything depends on
  their order, and a set keeps one resource of each key: which one does not matter where
  the key tells all of a resource, or where no key comes up twice.

  Proved, for every order:
  - `sortedIn_eq`: the resources of a set, sorted by their keys.
  - `ofList_eq_of_perm`: the set of resources that are the same where their keys are.
  - `sharedIn_eq`: what the members of a family share.
  - `ofNamespacesIn_eq`: the families of namespaces with names of their own, in whichever
    order these come as well.
-/

import PackBindings.Proofs.Orders
import PackBindings.Proofs.Resources.Families

namespace PackBindings

/-! ## Sets of resources -/

namespace Inventory

variable {α : Type} [Keyed α]

/-- The resources of a set, sorted as they are listed. -/
def sortedIn (o : Order) (spot : Spot) (inv : Inventory α) : List α :=
  (o.list spot inv.items).mergeSort fun a b => key a ≤ key b

theorem pairwise_key_le (inv : Inventory α) : inv.items.Pairwise fun a b => key a ≤ key b :=
  inv.increasing.imp fun {_ _} h => le_of_lt h

theorem sortedIn_eq (o : Order) (spot : Spot) (inv : Inventory α) : inv.sortedIn o spot = inv.items :=
  mergeSort_eq_of_pairwise key (o.perm spot inv.items) inv.nodup_keys inv.pairwise_key_le

theorem eq_of_items {inv other : Inventory α} (h : inv.items = other.items) : inv = other := by
  cases inv
  cases other
  cases h
  rfl

theorem eq_of_mem_iff {inv other : Inventory α} (h : ∀ x, x ∈ inv.items ↔ x ∈ other.items) :
    inv = other := by
  have hperm : inv.items.Perm other.items :=
    (List.perm_ext_iff_of_nodup inv.nodup_keys.of_map other.nodup_keys.of_map).2 h
  refine eq_of_items (List.Perm.eq_of_pairwise (fun a b ha hb hab hba => ?_) inv.increasing
    other.increasing hperm)
  exact absurd (List.lt_trans hab hba) (List.lt_irrefl _)

theorem keyTells_of_perm {xs ys : List α} (h : xs.Perm ys) (hys : KeyTells ys) : KeyTells xs :=
  fun a ha b hb => hys a (h.mem_iff.1 ha) b (h.mem_iff.1 hb)

theorem ofList_eq_of_perm {xs ys : List α} (h : xs.Perm ys) (hys : KeyTells ys) :
    ofList xs = ofList ys := by
  refine eq_of_mem_iff fun x => ?_
  rw [mem_ofList (keyTells_of_perm h hys), mem_ofList hys, h.mem_iff]

end Inventory

/-! ## Families -/

namespace Family

section

variable {α : Type} [Keyed α]

def sharedIn (o : Order) (spot : Spot) (id : α → String) (xs : List α) : Inventory α :=
  .ofList (o.list spot (repeated id xs))

omit [Keyed α] in
theorem nodup_repeated (id : α → String) (xs : List α) : ((repeated id xs).map id).Nodup :=
  (List.filter_sublist.map id).nodup (nodup_foldl_takeUp id xs List.nodup_nil)

theorem sharedIn_eq (o : Order) (spot : Spot) {id : α → String}
    (hid : ∀ a b : α, key a = key b → id a = id b) (inventories : List (Inventory α)) :
    sharedIn o spot id (inventories.flatMap (·.items)) = shared id inventories :=
  Inventory.ofList_eq_of_perm (o.perm _ _) fun _ ha _ hb hkey =>
    List.inj_on_of_nodup_map (nodup_repeated id _) ha hb (hid _ _ hkey)

end

/-- The family of members that are sorted by name. -/
def ofMembersIn (o : Order) (name : String) (members : List Namespace) : Family where
  name := name
  members := members.map (·.name)
  objectives := sharedIn o (.shared name) (·.name)
    (members.flatMap fun m => m.objectives.sortedIn o (.member name m.name))
  storages := sharedIn o (.shared name) Storage.id
    (members.flatMap fun m => m.storages.sortedIn o (.member name m.name))

def ofNamespacesIn (o : Order) (namespaces : List Namespace) : List Family :=
  (((o.list .families (namespaces.filterMap (·.family?)).eraseDups).map fun name =>
    (name, membersOf name namespaces)).filterMap fun (name, members) =>
      if 1 < members.length then some (ofMembersIn o name members) else none).mergeSort
    fun f g => f.name ≤ g.name

theorem ofMembersIn_eq (o : Order) (name : String) (members : List Namespace) :
    ofMembersIn o name members = ofMembers name members := by
  have hobjectives : ∀ a b : Objective, key a = key b → a.name = b.name :=
    fun a b h => (List.cons.inj h).1
  have hstorages : ∀ a b : Storage, key a = key b → a.id = b.id := by
    intro a b h
    obtain ⟨howner, htail⟩ := List.cons.inj h
    rw [Storage.id, Storage.id, howner, (List.cons.inj htail).1]
  unfold ofMembersIn ofMembers
  simp only [Inventory.sortedIn_eq]
  rw [← sharedIn_eq o (.shared name) hobjectives, ← sharedIn_eq o (.shared name) hstorages,
    List.flatMap_map, List.flatMap_map]

section

variable {namespaces others : List Namespace}

theorem membersOf_eq_of_perm (h : others.Perm namespaces) (hnd : (namespaces.map (·.name)).Nodup)
    (name : String) : membersOf name others = membersOf name namespaces :=
  mergeSort_eq_of_perm Namespace.name (h.filter _) ((List.filter_sublist.map _).nodup hnd)

theorem perm_familyNames (o : Order) (h : others.Perm namespaces) :
    (o.list .families (others.filterMap (·.family?)).eraseDups).Perm (familyNames namespaces) := by
  have hsame : (others.filterMap (·.family?)).eraseDups.Perm
      (namespaces.filterMap (·.family?)).eraseDups := by
    refine (List.perm_ext_iff_of_nodup (nodup_eraseDups _) (nodup_eraseDups _)).2 fun name => ?_
    rw [List.mem_eraseDups, List.mem_eraseDups]
    exact (h.filterMap _).mem_iff
  exact (o.perm _ _).trans (hsame.trans (List.mergeSort_perm _ _).symm)

theorem name_of_ofName? {name : String} {f : Family} (h : ofName? namespaces name = some f) :
    f.name = name := by
  rw [(ofName?_eq_some.1 h).2]
  rfl

theorem nodup_names_ofNamespaces (namespaces : List Namespace) :
    ((ofNamespaces namespaces).map (·.name)).Nodup := by
  have hnd : (familyNames namespaces).Nodup :=
    (List.mergeSort_perm _ _).nodup_iff.2 (nodup_eraseDups _)
  rw [ofNamespaces_eq, List.Nodup, List.pairwise_map]
  refine List.Pairwise.filterMap _ ?_ hnd
  intro name name' hne f hf f' hf'
  rwa [name_of_ofName? hf, name_of_ofName? hf']

theorem pairwise_name_ofNamespaces (namespaces : List Namespace) :
    (ofNamespaces namespaces).Pairwise fun f g => f.name ≤ g.name := by
  rw [ofNamespaces_eq]
  refine List.Pairwise.filterMap _ ?_ (pairwise_mergeSort_key id _)
  intro name name' hle f hf f' hf'
  rwa [name_of_ofName? hf, name_of_ofName? hf']

/-- Namespaces in any order have the same families, and so they have in whichever order the families
and their resources come up. -/
theorem ofNamespacesIn_eq (o : Order) (h : others.Perm namespaces)
    (hnd : (namespaces.map (·.name)).Nodup) : ofNamespacesIn o others = ofNamespaces namespaces := by
  have hread : ofNamespacesIn o others =
      ((o.list .families (others.filterMap (·.family?)).eraseDups).filterMap
        (ofName? namespaces)).mergeSort fun f g => f.name ≤ g.name := by
    unfold ofNamespacesIn
    rw [List.filterMap_map]
    congr 1
    refine List.filterMap_congr fun name _ => ?_
    simp only [Function.comp_apply, membersOf_eq_of_perm h hnd, ofMembersIn_eq, ofName?]
  rw [hread]
  refine mergeSort_eq_of_pairwise Family.name ?_ (nodup_names_ofNamespaces namespaces)
    (pairwise_name_ofNamespaces namespaces)
  rw [ofNamespaces_eq]
  exact (perm_familyNames o h).filterMap _

end

end Family

end PackBindings
