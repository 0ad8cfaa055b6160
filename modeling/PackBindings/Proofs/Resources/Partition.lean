/-
  PackBindings.Proofs.Resources.Partition — families divide namespaces by what stands before
  their first dot.

  A namespace is in a family if its name is the name of the family, a dot and a rest, and
  the name of the family has no dot (`Namespace.IsIn`). The families of a datapack are
  those with two namespaces in them, each with all of its namespaces.

  Proved, for all namespaces with names of their own, whose storages have no colon in the
  namespace they belong to:
  - `family?_eq_some_iff`: the family that is read off a name is the one it is in.
  - `divides`: the families, their members and the family of each namespace (`Divides`).
  - `find?_of_mem_firstsBy`: what is kept of an id is the first that has it.
  - `sharesRepeated`: a family shares the ids that two of its members have, as the first of
    them by name has it (`SharesRepeated`).
  - `families_partition_namespaces`: all of this, for objectives and for storages.
-/

import PackBindings.Proofs.Bindings.Sharing
import PackBindings.Proofs.Resources.Iteration

namespace PackBindings

/-! ## Names -/

namespace Namespace

/-- The name of the namespace is that of the family, the first dot, and a rest. -/
def IsIn (ns : Namespace) (family : String) : Prop :=
  '.' ∉ family.toList ∧ ∃ rest, ns.name.toList = family.toList ++ '.' :: rest

theorem takeWhile_before_dot {before : List Char} (h : '.' ∉ before) (rest : List Char) :
    (before ++ '.' :: rest).takeWhile (· ≠ '.') = before := by
  have hall : ∀ c ∈ before, decide (c ≠ '.') = true := by
    intro c hc
    refine decide_eq_true ?_
    rintro rfl
    exact h hc
  rw [List.takeWhile_append_of_pos hall]
  simp

theorem family?_eq_some_iff {ns : Namespace} {family : String} :
    ns.family? = some family ↔ ns.IsIn family := by
  unfold family? familyOf? IsIn
  generalize ns.name.toList = cs
  constructor
  · intro h
    obtain ⟨hdot, h⟩ := Option.ite_none_right_eq_some.1 h
    obtain ⟨before, rest, rfl, hbefore⟩ := List.eq_append_cons_of_mem (List.contains_iff_mem.1 hdot)
    rw [takeWhile_before_dot hbefore] at h
    obtain rfl := Option.some.inj h
    rw [String.toList_ofList]
    exact ⟨hbefore, rest, rfl⟩
  · intro ⟨hbefore, rest, he⟩
    rw [he, if_pos (by simp), takeWhile_before_dot hbefore, String.ofList_toList]

end Namespace

/-! ## Families and their members -/

namespace Family

variable {namespaces : List Namespace}

/-- Families in order of name, one for each name that two namespaces are in, with the names of all
namespaces that are in it. -/
structure Divides (namespaces : List Namespace) : Prop where
  increasing : (ofNamespaces namespaces).Pairwise fun f g => f.name < g.name
  exists_iff : ∀ name, (∃ f ∈ ofNamespaces namespaces, f.name = name) ↔
    ∃ m ∈ namespaces, ∃ n ∈ namespaces, m.name ≠ n.name ∧ m.IsIn name ∧ n.IsIn name
  members : ∀ f ∈ ofNamespaces namespaces, f.members.Pairwise (· < ·) ∧
    ∀ name, name ∈ f.members ↔ ∃ ns ∈ namespaces, ns.name = name ∧ ns.IsIn f.name
  familyOf : ∀ ns ∈ namespaces, ∀ f, (Datapack.ofNamespaces namespaces).familyOf? ns.name = some f ↔
    f ∈ ofNamespaces namespaces ∧ ns.IsIn f.name
  once : ∀ f ∈ ofNamespaces namespaces, ∀ g ∈ ofNamespaces namespaces,
    ∀ name ∈ f.members, name ∈ g.members → f = g

/-- Two members of a family are two namespaces with different names in it. -/
theorem one_lt_length_membersOf_iff (hnd : (namespaces.map (·.name)).Nodup) (name : String) :
    1 < (membersOf name namespaces).length ↔
      ∃ m ∈ namespaces, ∃ n ∈ namespaces, m.name ≠ n.name ∧ m.IsIn name ∧ n.IsIn name := by
  have hmembers := nodup_names_membersOf hnd name
  constructor
  · intro hlen
    match hl : membersOf name namespaces with
    | [] => simp [hl] at hlen
    | [m] => simp [hl] at hlen
    | m :: n :: rest =>
      rw [hl] at hmembers
      obtain ⟨hm, hmin⟩ := mem_membersOf.1 (hl ▸ List.mem_cons_self : m ∈ membersOf name namespaces)
      obtain ⟨hn, hnin⟩ := mem_membersOf.1
        (hl ▸ List.mem_cons_of_mem _ List.mem_cons_self : n ∈ membersOf name namespaces)
      refine ⟨m, hm, n, hn, fun he => ?_, Namespace.family?_eq_some_iff.1 hmin,
        Namespace.family?_eq_some_iff.1 hnin⟩
      simp [he] at hmembers
  · intro ⟨m, hm, n, hn, hne, hmin, hnin⟩
    have hm := mem_membersOf.2 ⟨hm, Namespace.family?_eq_some_iff.2 hmin⟩
    have hn := mem_membersOf.2 ⟨hn, Namespace.family?_eq_some_iff.2 hnin⟩
    match hl : membersOf name namespaces with
    | [] => simp [hl] at hm
    | [x] =>
      rw [hl, List.mem_singleton] at hm hn
      exact absurd (hm.trans hn.symm ▸ rfl) hne
    | x :: y :: rest => simp

theorem eq_ofMembers_of_mem {f : Family} (h : f ∈ ofNamespaces namespaces) :
    1 < (membersOf f.name namespaces).length ∧
      f = ofMembers f.name (membersOf f.name namespaces) := by
  obtain ⟨name, hname⟩ := mem_ofNamespaces.1 h
  obtain rfl := name_of_ofName? hname
  exact ofName?_eq_some.1 hname

theorem eq_of_name_eq {f g : Family} (hf : f ∈ ofNamespaces namespaces)
    (hg : g ∈ ofNamespaces namespaces) (h : f.name = g.name) : f = g :=
  List.inj_on_of_nodup_map (nodup_names_ofNamespaces namespaces) hf hg h

theorem mem_members_iff {f : Family} (hf : f ∈ ofNamespaces namespaces) {name : String} :
    name ∈ f.members ↔ ∃ ns ∈ namespaces, ns.name = name ∧ ns.IsIn f.name := by
  have hmembers : f.members = (membersOf f.name namespaces).map (·.name) :=
    congrArg members (eq_ofMembers_of_mem hf).2
  rw [hmembers, List.mem_map]
  simp only [mem_membersOf, Namespace.family?_eq_some_iff, and_assoc]
  constructor
  · intro ⟨ns, hns, hin, he⟩
    exact ⟨ns, hns, he, hin⟩
  · intro ⟨ns, hns, he, hin⟩
    exact ⟨ns, hns, hin, he⟩

theorem name_mem_members_iff (hnd : (namespaces.map (·.name)).Nodup) {f : Family}
    (hf : f ∈ ofNamespaces namespaces) {ns : Namespace} (hns : ns ∈ namespaces) :
    ns.name ∈ f.members ↔ ns.IsIn f.name := by
  rw [mem_members_iff hf]
  constructor
  · intro ⟨m, hm, he, hin⟩
    rwa [List.inj_on_of_nodup_map hnd hm hns he] at hin
  · intro hin
    exact ⟨ns, hns, rfl, hin⟩

theorem divides (hnd : (namespaces.map (·.name)).Nodup) : Divides namespaces := by
  have hexists : ∀ name, (∃ f ∈ ofNamespaces namespaces, f.name = name) ↔
      1 < (membersOf name namespaces).length := by
    intro name
    constructor
    · rintro ⟨f, hf, rfl⟩
      exact (eq_ofMembers_of_mem hf).1
    · intro hlen
      exact ⟨_, mem_ofNamespaces.2 ⟨name, ofName?_eq_some.2 ⟨hlen, rfl⟩⟩, rfl⟩
  constructor
  case increasing =>
    exact pairwise_lt_of_nodup (pairwise_name_ofNamespaces namespaces)
      (nodup_names_ofNamespaces namespaces)
  case exists_iff =>
    intro name
    rw [hexists, one_lt_length_membersOf_iff hnd]
  case members =>
    intro f hf
    refine ⟨?_, fun name => mem_members_iff hf⟩
    rw [(eq_ofMembers_of_mem hf).2]
    exact List.pairwise_map.2 (pairwise_lt_of_nodup (pairwise_mergeSort_key Namespace.name _)
      (nodup_names_membersOf hnd f.name))
  case familyOf =>
    intro ns hns f
    rw [Datapack.familyOf?_ofNamespaces hns, Option.bind_eq_some_iff]
    constructor
    · intro ⟨name, hin, hname⟩
      rw [name_of_ofName? hname]
      exact ⟨mem_ofNamespaces.2 ⟨name, hname⟩, Namespace.family?_eq_some_iff.1 hin⟩
    · intro ⟨hf, hin⟩
      exact ⟨f.name, Namespace.family?_eq_some_iff.2 hin,
        ofName?_eq_some.2 (eq_ofMembers_of_mem hf)⟩
  case once =>
    intro f hf g hg name hfname hgname
    obtain ⟨ns, hns, rfl, hin⟩ := (mem_members_iff hf).1 hfname
    have hother := (name_mem_members_iff hnd hg hns).1 hgname
    rw [← Namespace.family?_eq_some_iff] at hin hother
    exact eq_of_name_eq hf hg (Option.some.inj (hin.symm.trans hother))

end Family

/-! ## The copy that is kept -/

namespace Family

variable {α : Type} {id : α → String}

/-- What is taken up of an id is there before, or it is the first with the id to come. -/
theorem find?_of_mem_foldl_takeUp {xs firsts : List α} {y : α}
    (h : y ∈ xs.foldl (takeUp id) firsts) :
    y ∈ firsts ∨ (∀ z ∈ firsts, id z ≠ id y) ∧ xs.find? (id · == id y) = some y := by
  induction xs generalizing firsts with
  | nil => exact Or.inl h
  | cons x xs ih =>
    rcases ih h with hy | ⟨hnone, hfind⟩
    · by_cases hfirst : y ∈ firsts
      · exact Or.inl hfirst
      · -- the value taken up now is the first with its id
        obtain rfl := (mem_takeUp id hy).resolve_left hfirst
        refine Or.inr ⟨fun z hz he => hfirst ?_, by simp⟩
        have htaken : (firsts.any fun z => id z == id y) = true :=
          List.any_eq_true.2 ⟨z, hz, beq_iff_eq.2 he⟩
        rwa [takeUp, if_pos htaken] at hy
    · obtain ⟨z, hz, he⟩ := exists_mem_takeUp id firsts x
      have hne : id x ≠ id y := fun hxy => hnone z hz (he.trans hxy)
      refine Or.inr ⟨fun z hz => hnone z (subset_takeUp id firsts x hz), ?_⟩
      rw [List.find?_cons_of_neg (by simpa using hne)]
      exact hfind

theorem find?_of_mem_firstsBy {xs : List α} {y : α} (h : y ∈ firstsBy id xs) :
    xs.find? (id · == id y) = some y :=
  ((find?_of_mem_foldl_takeUp h).resolve_left List.not_mem_nil).2

end Family

namespace ResourceKind

variable {α : Type} [Keyed α] (kind : ResourceKind α) (namespaces : List Namespace)

/-- The namespace has a resource of the id. -/
def HasId (ns : Namespace) (id : String) : Prop := id ∈ (kind.ofNamespace ns).items.map kind.id

/-- A family has the ids that two of its members have, each in the copy of the first member by name
that has it. -/
structure SharesRepeated : Prop where
  ids : ∀ f ∈ Family.ofNamespaces namespaces, ∀ id, id ∈ (kind.ofFamily f).items.map kind.id ↔
    ∃ m ∈ namespaces, ∃ n ∈ namespaces, m.name ≠ n.name ∧ m.name ∈ f.members ∧ n.name ∈ f.members ∧
      kind.HasId m id ∧ kind.HasId n id
  copies : ∀ f ∈ Family.ofNamespaces namespaces, ∀ r ∈ (kind.ofFamily f).items,
    ∃ m ∈ namespaces, m.name ∈ f.members ∧ r ∈ (kind.ofNamespace m).items ∧
      ∀ n ∈ namespaces, n.name ∈ f.members → kind.HasId n (kind.id r) → m.name ≤ n.name

variable {kind namespaces}

/-- A shared resource is what the first member with its id has. -/
theorem exists_first_member {name : String} {members : List Namespace} {r : α}
    (hr : r ∈ (kind.ofFamily (Family.ofMembers name members)).items) :
    ∃ before m after, members = before ++ m :: after ∧ r ∈ (kind.ofNamespace m).items ∧
      ∀ n ∈ before, ¬kind.HasId n (kind.id r) := by
  rw [kind.shared] at hr
  have hfirst := (List.mem_filter.1 (Inventory.mem_of_mem_ofList hr)).1
  have hfind := Family.find?_of_mem_firstsBy hfirst
  rw [List.flatMap_map, List.find?_flatMap] at hfind
  obtain ⟨before, m, after, hmembers, hm, hbefore⟩ := List.findSome?_eq_some_iff.1 hfind
  refine ⟨before, m, after, hmembers, List.mem_of_find?_eq_some hm, fun n hn hid => ?_⟩
  obtain ⟨a, ha, he⟩ := List.mem_map.1 hid
  exact List.find?_eq_none.1 (hbefore n hn) a ha (beq_iff_eq.2 he)

theorem has_iff_hasId {m n : Namespace} (hid : kind.IdsTellApart namespaces) (hm : m ∈ namespaces)
    (hn : n ∈ namespaces) {r : α} (hr : r ∈ (kind.ofNamespace m).items) :
    (kind.ofNamespace n).has r = true ↔ kind.HasId n (kind.id r) := by
  rw [Inventory.has_iff, HasId, List.mem_map]
  constructor
  · intro ⟨a, ha, he⟩
    exact ⟨a, ha, (hid n hn a ha m hm r hr).2 he⟩
  · intro ⟨a, ha, he⟩
    exact ⟨a, ha, (hid n hn a ha m hm r hr).1 he⟩

variable (hnd : (namespaces.map (·.name)).Nodup) (hid : kind.IdsTellApart namespaces)

include hnd hid

theorem hasId_family_iff {f : Family} (hf : f ∈ Family.ofNamespaces namespaces) (id : String) :
    id ∈ (kind.ofFamily f).items.map kind.id ↔
      ∃ m ∈ namespaces, ∃ n ∈ namespaces, m.name ≠ n.name ∧ m.IsIn f.name ∧ n.IsIn f.name ∧
        kind.HasId m id ∧ kind.HasId n id := by
  obtain ⟨-, he⟩ := Family.eq_ofMembers_of_mem hf
  have hmember : ∀ a ∈ (kind.ofFamily f).items,
      ∃ m ∈ namespaces, m.family? = some f.name ∧ a ∈ (kind.ofNamespace m).items := by
    intro a ha
    rw [he] at ha
    obtain ⟨before, m, after, hmembers, ha, -⟩ := exists_first_member ha
    have hm : m ∈ Family.membersOf f.name namespaces := by simp [hmembers]
    exact ⟨m, (Family.mem_membersOf.1 hm).1, (Family.mem_membersOf.1 hm).2, ha⟩
  constructor
  · intro h
    obtain ⟨r, hr, rfl⟩ := List.mem_map.1 h
    obtain ⟨m, hm, hfam, hrm⟩ := hmember r hr
    have hhas : (kind.ofFamily f).has r = true := Inventory.has_of_mem hr
    rw [he, has_ofMembers_iff hnd hid hm hrm hfam] at hhas
    obtain ⟨n, hn, hne, ⟨family, hmf, hnf⟩, hnr⟩ := hhas
    obtain rfl := Option.some.inj (hfam.symm.trans hmf)
    exact ⟨m, hm, n, hn, hne.symm, Namespace.family?_eq_some_iff.1 hfam,
      Namespace.family?_eq_some_iff.1 hnf, List.mem_map_of_mem hrm,
      (has_iff_hasId hid hm hn hrm).1 hnr⟩
  · intro ⟨m, hm, n, hn, hne, hmf, hnf, hma, hna⟩
    obtain ⟨r, hr, rfl⟩ := List.mem_map.1 hma
    have hfam := Namespace.family?_eq_some_iff.2 hmf
    have hother : kind.AnotherRefers namespaces m r :=
      ⟨n, hn, hne.symm, ⟨f.name, hfam, Namespace.family?_eq_some_iff.2 hnf⟩,
        (has_iff_hasId hid hm hn hr).2 hna⟩
    rw [← has_ofMembers_iff hnd hid hm hr hfam, ← he, Inventory.has_iff] at hother
    obtain ⟨a, ha, hkey⟩ := hother
    obtain ⟨k, hk, -, hak⟩ := hmember a ha
    exact List.mem_map.2 ⟨a, ha, (hid k hk a hak m hm r hr).2 hkey⟩

theorem sharesRepeated : kind.SharesRepeated namespaces := by
  constructor
  case ids =>
    intro f hf id
    rw [hasId_family_iff hnd hid hf]
    constructor
    · intro ⟨m, hm, n, hn, hne, hmf, hnf, h⟩
      exact ⟨m, hm, n, hn, hne, (Family.name_mem_members_iff hnd hf hm).2 hmf,
        (Family.name_mem_members_iff hnd hf hn).2 hnf, h⟩
    · intro ⟨m, hm, n, hn, hne, hmf, hnf, h⟩
      exact ⟨m, hm, n, hn, hne, (Family.name_mem_members_iff hnd hf hm).1 hmf,
        (Family.name_mem_members_iff hnd hf hn).1 hnf, h⟩
  case copies =>
    intro f hf r hr
    obtain ⟨-, he⟩ := Family.eq_ofMembers_of_mem hf
    rw [he] at hr
    obtain ⟨before, m, after, hmembers, hrm, hbefore⟩ := exists_first_member hr
    have hmem : ∀ n, n ∈ Family.membersOf f.name namespaces ↔ n ∈ namespaces ∧ n.IsIn f.name := by
      intro n
      rw [Family.mem_membersOf, Namespace.family?_eq_some_iff]
    obtain ⟨hm, hmf⟩ := (hmem m).1 (by simp [hmembers])
    refine ⟨m, hm, (Family.name_mem_members_iff hnd hf hm).2 hmf, hrm, fun n hn hnf hnr => ?_⟩
    have hin := (hmem n).2 ⟨hn, (Family.name_mem_members_iff hnd hf hn).1 hnf⟩
    -- members are sorted by name, and none before `m` has the id
    have hsorted : (Family.membersOf f.name namespaces).Pairwise fun a b => a.name ≤ b.name :=
      pairwise_mergeSort_key Namespace.name _
    rw [hmembers] at hin hsorted
    have hafter := (List.pairwise_cons.1 (List.pairwise_append.1 hsorted).2.1).1
    rcases List.mem_append.1 hin with hin | hin
    · exact absurd hnr (hbefore n hin)
    · rcases List.mem_cons.1 hin with rfl | hin
      · exact le_refl _
      · exact hafter n hin

end ResourceKind

/-! ## Objectives and storages -/

/-- Families are the exact partition by what stands before the first dot, and each shares what comes
up in two of its members, in the copy of the first of them. -/
theorem families_partition_namespaces {namespaces : List Namespace}
    (hnd : (namespaces.map (·.name)).Nodup)
    (howner : ∀ ns ∈ namespaces, ∀ st ∈ ns.storages.items, ':' ∉ st.owner.toList) :
    Family.Divides namespaces ∧ ResourceKind.objectives.SharesRepeated namespaces ∧
      ResourceKind.storages.SharesRepeated namespaces :=
  ⟨Family.divides hnd,
    ResourceKind.sharesRepeated hnd (Bindings.objectiveIdsTellApart namespaces),
    ResourceKind.sharesRepeated hnd (Bindings.storageIdsTellApart howner)⟩

/-- Three namespaces of a family without a name, listed backwards, and one beside them. -/
theorem a_family_without_a_name :
    let namespaces : List Namespace :=
      [⟨".z", [], .ofList [.ofName "kills" ".z"], .ofList [⟨"pack", "data", ".z"⟩]⟩,
        ⟨".y", [], .ofList [.ofName "kills" ".y"], .empty⟩,
        ⟨".x", [], .empty, .ofList [⟨"pack", "data", ".x"⟩]⟩,
        ⟨"lone.x", [], .ofList [.ofName "kills" "lone.x"], .empty⟩]
    (namespaces.map (·.name)).Nodup ∧
      (∀ ns ∈ namespaces, ∀ st ∈ ns.storages.items, ':' ∉ st.owner.toList) ∧
      Family.Divides namespaces ∧ ResourceKind.objectives.SharesRepeated namespaces ∧
      ResourceKind.storages.SharesRepeated namespaces := by
  intro namespaces
  have hnd : (namespaces.map (·.name)).Nodup := by decide
  have howner : ∀ ns ∈ namespaces, ∀ st ∈ ns.storages.items, ':' ∉ st.owner.toList := by decide
  exact ⟨hnd, howner, families_partition_namespaces hnd howner⟩

end PackBindings
