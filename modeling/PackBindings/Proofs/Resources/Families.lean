/-
  PackBindings.Proofs.Resources.Families — which resources the members of a family share.

  A resource is shared if at least two members refer to it. Occurrences are counted over
  all members at once, but one member has a resource once at most, so two occurrences are
  two members.

  Proved, for all namespaces with names of their own, where ids tell resources apart as
  keys do (`IdsTellApart`):
  - `has_shared`: the shared resources are those that come up twice.
  - `familyOf?_ofNamespaces`: a namespace is counted in the family of its name, if that
    has a second member.
  - `any_has_iff`: what a namespace refers to is shared exactly if another member of its
    family refers to it.
-/

import Mathlib.Data.List.Nodup
import PackBindings.Datapack
import PackBindings.Proofs.Lists
import PackBindings.Proofs.Resources.Inventories

namespace PackBindings

namespace Family

/-! ## What comes up twice -/

section

variable {α : Type} {id : α → String}

theorem mem_of_mem_firstsBy {xs : List α} {x : α} (h : x ∈ firstsBy id xs) : x ∈ xs :=
  (mem_foldl_takeUp id h).resolve_left List.not_mem_nil

theorem exists_mem_firstsBy (id : α → String) {xs : List α} {x : α} (h : x ∈ xs) :
    ∃ y ∈ firstsBy id xs, id y = id x :=
  exists_mem_foldl_takeUp id [] h

end

section

variable {α : Type} [Keyed α] {id : α → String}

theorem has_shared {inventories : List (Inventory α)}
    (hid : ∀ a ∈ inventories.flatMap (·.items), ∀ b ∈ inventories.flatMap (·.items),
      id a = id b ↔ key a = key b) {r : α} (hr : r ∈ inventories.flatMap (·.items)) :
    (shared id inventories).has r = true ↔
      1 < (inventories.flatMap (·.items)).countP (key · == key r) := by
  rw [shared, Inventory.has, Inventory.hasKey_ofList, List.mem_map]
  generalize inventories.flatMap (·.items) = xs at hid hr
  have hcount : ∀ x ∈ xs, xs.countP (id · == id x) = xs.countP (key · == key x) := by
    intro x hx
    refine List.countP_congr fun y hy => ?_
    rw [beq_iff_eq, beq_iff_eq]
    exact hid y hy x hx
  constructor
  · intro h
    obtain ⟨x, hx, hkey⟩ := h
    obtain ⟨hfirst, htwice⟩ := List.mem_filter.1 hx
    rw [← hkey, ← hcount x (mem_of_mem_firstsBy hfirst)]
    exact of_decide_eq_true htwice
  · intro htwice
    obtain ⟨x, hfirst, he⟩ := exists_mem_firstsBy id hr
    have hx := mem_of_mem_firstsBy hfirst
    have hkey : key x = key r := (hid x hx r hr).1 he
    refine ⟨x, List.mem_filter.2 ⟨hfirst, decide_eq_true ?_⟩, hkey⟩
    rwa [hcount x hx, hkey]

end

/-! ## Members -/

theorem mem_membersOf {name : String} {namespaces : List Namespace} {m : Namespace} :
    m ∈ membersOf name namespaces ↔ m ∈ namespaces ∧ m.family? = some name := by
  rw [membersOf, List.mem_mergeSort, List.mem_filter, decide_eq_true_iff]

theorem nodup_names_membersOf {namespaces : List Namespace} (h : (namespaces.map (·.name)).Nodup)
    (name : String) : ((membersOf name namespaces).map (·.name)).Nodup := by
  refine (((List.mergeSort_perm _ _).map _).nodup_iff).2 ?_
  exact (List.filter_sublist.map _).nodup h

/-- The family of a name, if it has a second member. -/
def ofName? (namespaces : List Namespace) (name : String) : Option Family :=
  if 1 < (membersOf name namespaces).length then
    some (ofMembers name (membersOf name namespaces))
  else none

theorem ofName?_eq_some {namespaces : List Namespace} {name : String} {f : Family} :
    ofName? namespaces name = some f ↔
      1 < (membersOf name namespaces).length ∧ f = ofMembers name (membersOf name namespaces) := by
  rw [ofName?]
  split
  · rename_i h
    simp [h, eq_comm]
  · rename_i h
    simp [h]

def familyNames (namespaces : List Namespace) : List String :=
  (namespaces.filterMap (·.family?)).eraseDups.mergeSort (· ≤ ·)

theorem mem_familyNames {namespaces : List Namespace} {name : String} :
    name ∈ familyNames namespaces ↔ ∃ m ∈ namespaces, m.family? = some name := by
  rw [familyNames, List.mem_mergeSort, List.mem_eraseDups, List.mem_filterMap]

theorem ofNamespaces_eq (namespaces : List Namespace) :
    ofNamespaces namespaces = (familyNames namespaces).filterMap (ofName? namespaces) := by
  rw [ofNamespaces, List.filterMap_map]
  rfl

theorem mem_familyNames_of_ofName? {namespaces : List Namespace} {name : String} {f : Family}
    (h : ofName? namespaces name = some f) : name ∈ familyNames namespaces := by
  have hpos : 0 < (membersOf name namespaces).length := by
    have := (ofName?_eq_some.1 h).1
    omega
  obtain ⟨m, hm⟩ := List.exists_mem_of_length_pos hpos
  obtain ⟨hm, hf⟩ := mem_membersOf.1 hm
  exact mem_familyNames.2 ⟨m, hm, hf⟩

theorem mem_ofNamespaces {namespaces : List Namespace} {f : Family} :
    f ∈ ofNamespaces namespaces ↔ ∃ name, ofName? namespaces name = some f := by
  rw [ofNamespaces_eq, List.mem_filterMap]
  constructor
  · intro ⟨name, _, h⟩
    exact ⟨name, h⟩
  · intro ⟨name, h⟩
    exact ⟨name, mem_familyNames_of_ofName? h, h⟩

theorem find_ofNamespaces (namespaces : List Namespace) (name : String) :
    (ofNamespaces namespaces).find? (·.name = name) = ofName? namespaces name := by
  have hfind : ∀ names : List String, (names.filterMap (ofName? namespaces)).find? (·.name = name) =
      if name ∈ names then ofName? namespaces name else none := by
    intro names
    induction names with
    | nil => rfl
    | cons other names ih =>
      cases ho : ofName? namespaces other with
      | none =>
        rw [List.filterMap_cons_none ho, ih]
        by_cases he : name = other
        · simp [he, ho]
        · simp [he]
      | some f =>
        rw [List.filterMap_cons_some ho, List.find?_cons]
        have hname : f.name = other := by
          rw [(ofName?_eq_some.1 ho).2]
          rfl
        by_cases he : name = other
        · simp [he, hname, ho]
        · simp [he, hname, ih, Ne.symm he]
  rw [ofNamespaces_eq, hfind]
  split
  · rfl
  · rename_i hno
    cases ho : ofName? namespaces name with
    | none => rfl
    | some f => exact absurd (mem_familyNames_of_ofName? ho) hno

end Family

theorem Datapack.familyOf?_ofNamespaces {namespaces : List Namespace} {ns : Namespace}
    (h : ns ∈ namespaces) : (Datapack.ofNamespaces namespaces).familyOf? ns.name =
      ns.family?.bind (Family.ofName? namespaces) := by
  rw [familyOf?]
  show (ns.family?.bind fun family =>
    ((Family.ofNamespaces namespaces).find? (·.name = family)).filter (·.members.contains ns.name)) = _
  cases hf : ns.family? with
  | none => rfl
  | some family =>
    simp only [Option.bind_some, Family.find_ofNamespaces]
    cases ho : Family.ofName? namespaces family with
    | none => rfl
    | some f =>
      have hmember : ns.name ∈ f.members := by
        rw [(Family.ofName?_eq_some.1 ho).2]
        exact List.mem_map_of_mem (Family.mem_membersOf.2 ⟨h, hf⟩)
      simp [Option.filter, hmember]

/-! ## Kinds of resources -/

/-- A kind of resource, as namespaces have it and families share it. -/
structure ResourceKind (α : Type) [Keyed α] where
  ofNamespace : Namespace → Inventory α
  ofFamily : Family → Inventory α
  id : α → String
  shared : ∀ name members,
    ofFamily (Family.ofMembers name members) = Family.shared id (members.map ofNamespace)

namespace ResourceKind

def objectives : ResourceKind Objective := ⟨(·.objectives), (·.objectives), (·.name), fun _ _ => rfl⟩

def storages : ResourceKind Storage := ⟨(·.storages), (·.storages), Storage.id, fun _ _ => rfl⟩

section

variable {α : Type} [Keyed α] (kind : ResourceKind α) (namespaces : List Namespace)

/-- Two resources of the namespaces have the same id only if they have the same key. -/
def IdsTellApart : Prop :=
  ∀ m ∈ namespaces, ∀ a ∈ (kind.ofNamespace m).items,
    ∀ n ∈ namespaces, ∀ b ∈ (kind.ofNamespace n).items, kind.id a = kind.id b ↔ key a = key b

/-- Another member of the family of a namespace refers to a resource. -/
def AnotherRefers (ns : Namespace) (r : α) : Prop :=
  ∃ m ∈ namespaces, m.name ≠ ns.name ∧ (∃ family, ns.family? = some family ∧ m.family? = some family) ∧
    (kind.ofNamespace m).has r = true

variable {kind namespaces}

/-- Members have a resource once each. -/
theorem countP_members (members : List Namespace) (r : α) :
    ((members.map kind.ofNamespace).flatMap (·.items)).countP (key · == key r) =
      members.countP fun m => (kind.ofNamespace m).has r := by
  induction members with
  | nil => rfl
  | cons m members ih =>
    rw [List.map_cons, List.flatMap_cons, List.countP_append, ih, Inventory.countP_key,
      List.countP_cons, Nat.add_comm]

theorem one_lt_countP_iff {members : List Namespace} (hnd : (members.map (·.name)).Nodup)
    {ns : Namespace} (hns : ns ∈ members) {r : α} (hr : r ∈ (kind.ofNamespace ns).items) :
    1 < members.countP (fun m => (kind.ofNamespace m).has r) ↔
      ∃ m ∈ members, m.name ≠ ns.name ∧ (kind.ofNamespace m).has r = true := by
  obtain ⟨before, after, rfl⟩ := List.append_of_mem hns
  have hself : (kind.ofNamespace ns).has r = true := Inventory.has_of_mem hr
  have hcount : (before ++ ns :: after).countP (fun m => (kind.ofNamespace m).has r) =
      (before ++ after).countP (fun m => (kind.ofNamespace m).has r) + 1 := by
    rw [List.countP_append, List.countP_cons, if_pos hself, List.countP_append, Nat.add_assoc]
  rw [hcount, Nat.lt_add_left_iff_pos, List.countP_pos_iff]
  constructor
  · intro ⟨m, hm, hhas⟩
    obtain ⟨hm, hne⟩ := (mem_append_iff_of_nodup_map hnd).1 hm
    exact ⟨m, hm, hne, hhas⟩
  · intro ⟨m, hm, hne, hhas⟩
    exact ⟨m, (mem_append_iff_of_nodup_map hnd).2 ⟨hm, hne⟩, hhas⟩

theorem has_ofMembers_iff (hnd : (namespaces.map (·.name)).Nodup)
    (hid : kind.IdsTellApart namespaces) {ns : Namespace} (hns : ns ∈ namespaces) {r : α}
    (hr : r ∈ (kind.ofNamespace ns).items) {family : String} (hf : ns.family? = some family) :
    (kind.ofFamily (Family.ofMembers family (Family.membersOf family namespaces))).has r = true ↔
      kind.AnotherRefers namespaces ns r := by
  have hmem : ns ∈ Family.membersOf family namespaces := Family.mem_membersOf.2 ⟨hns, hf⟩
  have hin : ∀ a ∈ ((Family.membersOf family namespaces).map kind.ofNamespace).flatMap (·.items),
      ∃ m ∈ namespaces, a ∈ (kind.ofNamespace m).items := by
    intro a ha
    rw [List.flatMap_map, List.mem_flatMap] at ha
    obtain ⟨m, hm, ha⟩ := ha
    exact ⟨m, (Family.mem_membersOf.1 hm).1, ha⟩
  have hids : ∀ a ∈ ((Family.membersOf family namespaces).map kind.ofNamespace).flatMap (·.items),
      ∀ b ∈ ((Family.membersOf family namespaces).map kind.ofNamespace).flatMap (·.items),
      kind.id a = kind.id b ↔ key a = key b := by
    intro a ha b hb
    obtain ⟨m, hm, ha⟩ := hin a ha
    obtain ⟨n, hn, hb⟩ := hin b hb
    exact hid m hm a ha n hn b hb
  have hrall : r ∈ ((Family.membersOf family namespaces).map kind.ofNamespace).flatMap (·.items) := by
    rw [List.flatMap_map]
    exact List.mem_flatMap.2 ⟨ns, hmem, hr⟩
  rw [kind.shared, Family.has_shared hids hrall, countP_members,
    one_lt_countP_iff (Family.nodup_names_membersOf hnd family) hmem hr]
  constructor
  · intro ⟨m, hm, hne, hhas⟩
    obtain ⟨hm, hfam⟩ := Family.mem_membersOf.1 hm
    exact ⟨m, hm, hne, ⟨family, hf, hfam⟩, hhas⟩
  · intro ⟨m, hm, hne, ⟨g, hg, hfam⟩, hhas⟩
    obtain rfl : family = g := Option.some.inj (hf.symm.trans hg)
    exact ⟨m, Family.mem_membersOf.2 ⟨hm, hfam⟩, hne, hhas⟩

theorem any_has_iff (hnd : (namespaces.map (·.name)).Nodup) (hid : kind.IdsTellApart namespaces)
    {ns : Namespace} (hns : ns ∈ namespaces) {r : α} (hr : r ∈ (kind.ofNamespace ns).items) :
    (((Datapack.ofNamespaces namespaces).familyOf? ns.name).any
        fun f => (kind.ofFamily f).has r) = true ↔ kind.AnotherRefers namespaces ns r := by
  rw [Datapack.familyOf?_ofNamespaces hns]
  cases hf : ns.family? with
  | none =>
    constructor
    · intro h
      simp at h
    · intro ⟨_, _, _, ⟨g, hg, _⟩, _⟩
      simp [hf] at hg
  | some family =>
    rw [Option.bind_some, ← has_ofMembers_iff hnd hid hns hr hf]
    cases ho : Family.ofName? namespaces family with
    | some f =>
      rw [(Family.ofName?_eq_some.1 ho).2]
      rfl
    | none =>
      -- a namespace alone in its family shares nothing
      refine iff_of_false (by simp) ?_
      rw [has_ofMembers_iff hnd hid hns hr hf]
      intro ⟨m, hm, hne, ⟨g, hg, hfam⟩, _⟩
      obtain rfl : family = g := Option.some.inj (hf.symm.trans hg)
      have hle : (Family.membersOf family namespaces).length ≤ 1 := by
        by_contra hlt
        rw [Family.ofName?, if_pos (by omega)] at ho
        simp at ho
      have hmem := Family.mem_membersOf.2 ⟨hm, hfam⟩
      have hself := Family.mem_membersOf.2 ⟨hns, hf⟩
      match hl : Family.membersOf family namespaces with
      | [] => simp [hl] at hmem
      | [x] =>
        rw [hl, List.mem_singleton] at hmem hself
        exact hne (hmem.trans hself.symm ▸ rfl)
      | x :: y :: rest => simp [hl] at hle

end

end ResourceKind

end PackBindings
