/-
  PackBindings.Proofs.Bindings.Sharing — where each resource of a namespace is found.

  A resource that a namespace refers to stands in its own source, unless another member of
  its family refers to it as well; then it stands in the source of the family, and in none
  of its members'. A source denotes a resource by the value of a property, and two values
  are equal only if the resources have the same key.

  Proved, for all namespaces with names of their own, whose storages have no colon in the
  namespace they belong to:
  - `occurrences_source`: a resource occurs in a source once if it is among those that the
    source is about, and else not at all.
  - `sharedOnce`: each resource of a namespace occurs exactly once in its own source or
    exactly once in that of its family; and nothing else is found on a shelf.
  - `resources_shared_once`: this holds for objectives and for storages.
-/

import PackBindings.Proofs.Bindings.Shelves
import PackBindings.Proofs.Kotlin.Literals
import PackBindings.Proofs.Resources.Families

namespace PackBindings.Bindings

open PackBindings.Kotlin

/-! ## Shelves of a kind -/

/-- The resources of a kind that a source is about. -/
def resourcesOf {α : Type} [Keyed α] (kind : ResourceKind α) : Subject → List α
  | .member ns family =>
    (kind.ofNamespace ns).items.filter fun r => !family.any fun f => (kind.ofFamily f).has r
  | .shared f => (kind.ofFamily f).items

/-- A kind of resource with the name of its shelf and the value that stands for a resource. -/
structure Shelf (α : Type) [Keyed α] extends ResourceKind α where
  base : String
  value : α → String
  value_eq_iff : ∀ a b, value a = value b ↔ key a = key b
  displays : ∀ (x : Subject) (name package : String),
    (x.source name package).Displays base ((resourcesOf toResourceKind x).map value)

theorem leavesShelves_unit (x : Subject) : x.unit.LeavesShelves := by
  cases x with
  | member ns family =>
    show ∀ n ∈ ["Scoreboards", "Scoreboards2", "Storages", "Storages2"], n ∉ ["NAMESPACE", "PATH"]
    decide
  | shared f =>
    show ∀ n ∈ ["Scoreboards", "Scoreboards2", "Storages", "Storages2"], n ∉ ["PREFIX", "NAMESPACES"]
    decide

def scoreboards : Shelf Objective where
  toResourceKind := .objectives
  base := "Scoreboards"
  value := fun o => literal o.name
  value_eq_iff := by
    intro a b
    constructor
    · intro h
      exact congrArg ([·]) (literal_injective h)
    · intro h
      exact congrArg literal (List.cons.inj h).1
  displays := by
    intro x name package
    have hitems : x.unit.objectives = resourcesOf .objectives x := by
      cases x <;> rfl
    rw [Subject.source_eq, ← hitems]
    exact Contents.displays_objectives x.nodup_constants (leavesShelves_unit x)

theorem storageText_eq (st : Storage) : Contents.storageText st =
    "StorageArgument(" ++ ("name = " ++ (literal st.name ++ (", " ++ ("namespace = " ++
      (literal st.owner ++ ")"))))) := by
  simp [Contents.storageText, callText, String.append_assoc]

theorem storageText_eq_iff (a b : Storage) :
    Contents.storageText a = Contents.storageText b ↔ key a = key b := by
  have hkey : key a = key b ↔ a.owner = b.owner ∧ a.name = b.name := by
    show [a.owner, a.name] = [b.owner, b.name] ↔ _
    simp
  rw [hkey]
  constructor
  · intro h
    rw [storageText_eq, storageText_eq, String.append_right_inj, String.append_right_inj] at h
    obtain ⟨hname, hrest⟩ := literal_append_inj h
    rw [String.append_right_inj, String.append_right_inj] at hrest
    exact ⟨(literal_append_inj hrest).1, hname⟩
  · intro ⟨howner, hname⟩
    rw [Contents.storageText, Contents.storageText, howner, hname]

def storages : Shelf Storage where
  toResourceKind := .storages
  base := "Storages"
  value := Contents.storageText
  value_eq_iff := storageText_eq_iff
  displays := by
    intro x name package
    have hitems : x.unit.storages = resourcesOf .storages x := by
      cases x <;> rfl
    rw [Subject.source_eq, ← hitems]
    exact Contents.displays_storages x.nodup_constants (leavesShelves_unit x)

/-! ## Occurrences in a source -/

section

variable {α : Type} [Keyed α] (shelf : Shelf α)

/-- How many properties on a shelf of the source stand for a resource. -/
def Shelf.occurrences (src : Source) (r : α) : Nat := (src.shelved shelf.base).count (shelf.value r)

theorem occurrences_source (x : Subject) (name package : String) (r : α) :
    shelf.occurrences (x.source name package) r =
      (resourcesOf shelf.toResourceKind x).countP (key · == key r) := by
  rw [Shelf.occurrences, Source.shelved_of_displays (shelf.displays x name package), List.count,
    List.countP_map]
  refine List.countP_congr fun a _ => ?_
  simp [shelf.value_eq_iff]

theorem occurrences_member {ns : Namespace} {family : Option Family} (name package : String) {r : α}
    (hr : r ∈ (shelf.ofNamespace ns).items) :
    shelf.occurrences ((Subject.member ns family).source name package) r =
      if family.any (fun f => (shelf.ofFamily f).has r) then 0 else 1 := by
  rw [occurrences_source]
  show ((shelf.ofNamespace ns).items.filter _).countP _ = _
  rw [List.countP_filter]
  by_cases hshared : family.any (fun f => (shelf.ofFamily f).has r) = true
  · rw [if_pos hshared, List.countP_eq_zero]
    intro a ha h
    rw [Bool.and_eq_true, beq_iff_eq] at h
    obtain rfl := Inventory.key_injective ha hr h.1
    simp [hshared] at h
  · have hcount := Inventory.countP_key (shelf.ofNamespace ns) r
    rw [if_pos (Inventory.has_of_mem hr)] at hcount
    rw [if_neg hshared, ← hcount]
    refine List.countP_congr fun a ha => ?_
    rw [Bool.and_eq_true, beq_iff_eq]
    constructor
    · exact fun h => h.1
    · intro h
      obtain rfl := Inventory.key_injective ha hr h
      exact ⟨rfl, by simpa using hshared⟩

theorem occurrences_shared (f : Family) (name package : String) (r : α) :
    shelf.occurrences ((Subject.shared f).source name package) r =
      if (shelf.ofFamily f).has r then 1 else 0 := by
  rw [occurrences_source]
  exact Inventory.countP_key _ _

/-! ## Each resource in its place -/

variable (namespaces : List Namespace) (s : Settings)

/-- The family of a namespace among all of them. -/
def familyIn (ns : Namespace) : Option Family :=
  (Datapack.ofNamespaces namespaces).familyOf? ns.name

/-- Each resource of a namespace occurs once, in its own source or in that of its family, and
nothing else stands on a shelf. -/
structure SharedOnce : Prop where
  alone : ∀ ns ∈ namespaces, ∀ r ∈ (shelf.ofNamespace ns).items,
    ¬shelf.AnotherRefers namespaces ns r →
      (∃ f, (.member ns (familyIn namespaces ns), f) ∈ units (.ofNamespaces namespaces) s) ∧
      (∀ f, (.member ns (familyIn namespaces ns), f) ∈ units (.ofNamespaces namespaces) s →
        shelf.occurrences f.source r = 1) ∧
      ∀ g f, familyIn namespaces ns = some g →
        (.shared g, f) ∈ units (.ofNamespaces namespaces) s → shelf.occurrences f.source r = 0
  shared : ∀ ns ∈ namespaces, ∀ r ∈ (shelf.ofNamespace ns).items,
    shelf.AnotherRefers namespaces ns r →
      (∀ f, (.member ns (familyIn namespaces ns), f) ∈ units (.ofNamespaces namespaces) s →
        shelf.occurrences f.source r = 0) ∧
      ∃ g, familyIn namespaces ns = some g ∧
        (∃ f, (.shared g, f) ∈ units (.ofNamespaces namespaces) s) ∧
        ∀ f, (.shared g, f) ∈ units (.ofNamespaces namespaces) s →
          shelf.occurrences f.source r = 1
  /-- A shelf has properties, at least one, and each stands for a resource that belongs there. -/
  nothingElse : ∀ x f, (x, f) ∈ units (.ofNamespaces namespaces) s →
    (f.source.shelves shelf.base).length ≤ 1 ∧ ∀ ms ∈ f.source.shelves shelf.base, ms ≠ [] ∧
      ∀ m ∈ ms, ∃ p, m = .property p ∧ ∃ ns ∈ namespaces, ∃ r ∈ (shelf.ofNamespace ns).items,
        p.value = shelf.value r ∧
          ((x = .member ns (familyIn namespaces ns) ∧ ¬shelf.AnotherRefers namespaces ns r) ∨
            ∃ g, x = .shared g ∧ familyIn namespaces ns = some g ∧
              shelf.AnotherRefers namespaces ns r)

variable {namespaces s}

theorem mem_subjects {x : Subject} (h : x ∈ subjects (.ofNamespaces namespaces)) :
    (∃ ns ∈ namespaces, x = .member ns (familyIn namespaces ns)) ∨
      ∃ g ∈ Family.ofNamespaces namespaces, x = .shared g := by
  rcases List.mem_append.1 h with h | h
  · obtain ⟨ns, hns, rfl⟩ := List.mem_map.1 h
    exact Or.inl ⟨ns, hns, rfl⟩
  · obtain ⟨g, hg, rfl⟩ := List.mem_map.1 h
    exact Or.inr ⟨g, hg, rfl⟩

theorem member_mem_subjects {ns : Namespace} (h : ns ∈ namespaces) :
    .member ns (familyIn namespaces ns) ∈ subjects (.ofNamespaces namespaces) :=
  List.mem_append_left _ (List.mem_map_of_mem (f := fun ns => Subject.member ns _) h)

theorem shared_mem_subjects {ns : Namespace} (h : ns ∈ namespaces) {g : Family}
    (hg : familyIn namespaces ns = some g) : .shared g ∈ subjects (.ofNamespaces namespaces) := by
  rw [familyIn, Datapack.familyOf?_ofNamespaces h] at hg
  obtain ⟨name, -, hname⟩ := Option.bind_eq_some_iff.1 hg
  exact List.mem_append_right _ (List.mem_map_of_mem (Family.mem_ofNamespaces.2 ⟨name, hname⟩))

theorem mem_units {x : Subject} {f : SourceFile}
    (h : (x, f) ∈ units (.ofNamespaces namespaces) s) :
    x ∈ subjects (.ofNamespaces namespaces) ∧ ∃ name package, f.source = x.source name package := by
  obtain ⟨taken, rfl⟩ := exists_rootName h
  exact ⟨(List.of_mem_zip h).1, _, _, rfl⟩

/-- What a source is about is what belongs there. -/
theorem exists_of_mem_resourcesOf (hnd : (namespaces.map (·.name)).Nodup)
    (hid : shelf.IdsTellApart namespaces) {x : Subject}
    (hx : x ∈ subjects (.ofNamespaces namespaces)) {r : α}
    (hr : r ∈ resourcesOf shelf.toResourceKind x) :
    ∃ ns ∈ namespaces, r ∈ (shelf.ofNamespace ns).items ∧
      ((x = .member ns (familyIn namespaces ns) ∧ ¬shelf.AnotherRefers namespaces ns r) ∨
        ∃ g, x = .shared g ∧ familyIn namespaces ns = some g ∧
          shelf.AnotherRefers namespaces ns r) := by
  rcases mem_subjects hx with ⟨ns, hns, rfl⟩ | ⟨g, hg, rfl⟩
  · obtain ⟨hr, hnone⟩ := List.mem_filter.1 hr
    refine ⟨ns, hns, hr, Or.inl ⟨rfl, fun hother => ?_⟩⟩
    rw [← ResourceKind.any_has_iff hnd hid hns hr] at hother
    simp [familyIn, hother] at hnone
  · obtain ⟨name, hname⟩ := Family.mem_ofNamespaces.1 hg
    obtain ⟨hlen, rfl⟩ := Family.ofName?_eq_some.1 hname
    have hhas : (shelf.ofFamily (Family.ofMembers name (Family.membersOf name namespaces))).has r =
        true := Inventory.has_of_mem hr
    have hin : r ∈ (Family.shared shelf.id
        ((Family.membersOf name namespaces).map shelf.ofNamespace)).items := by
      rw [← shelf.shared]
      exact hr
    have hall := Family.mem_of_mem_firstsBy (List.mem_filter.1 (Inventory.mem_of_mem_ofList hin)).1
    rw [List.flatMap_map, List.mem_flatMap] at hall
    obtain ⟨ns, hns, hr⟩ := hall
    obtain ⟨hns, hfam⟩ := Family.mem_membersOf.1 hns
    refine ⟨ns, hns, hr, Or.inr ⟨_, rfl, ?_, ?_⟩⟩
    · rw [familyIn, Datapack.familyOf?_ofNamespaces hns, hfam]
      exact hname
    · exact (ResourceKind.has_ofMembers_iff hnd hid hns hr hfam).1 hhas

theorem sharedOnce (hnd : (namespaces.map (·.name)).Nodup) (hid : shelf.IdsTellApart namespaces) :
    SharedOnce shelf namespaces s := by
  constructor
  case alone =>
    intro ns hns r hr halone
    have hany : (familyIn namespaces ns).any (fun f => (shelf.ofFamily f).has r) = false := by
      rw [Bool.eq_false_iff]
      exact fun h => halone ((ResourceKind.any_has_iff hnd hid hns hr).1 h)
    refine ⟨exists_file_of_mem_subjects (member_mem_subjects hns), ?_, ?_⟩
    · intro f hf
      obtain ⟨-, name, package, hsrc⟩ := mem_units hf
      rw [hsrc, occurrences_member shelf name package hr, hany]
      rfl
    · intro g f hg hf
      obtain ⟨-, name, package, hsrc⟩ := mem_units hf
      rw [hg] at hany
      rw [hsrc, occurrences_shared, if_neg (by simpa using hany)]
  case shared =>
    intro ns hns r hr hother
    have hany : (familyIn namespaces ns).any (fun f => (shelf.ofFamily f).has r) = true :=
      (ResourceKind.any_has_iff hnd hid hns hr).2 hother
    refine ⟨?_, ?_⟩
    · intro f hf
      obtain ⟨-, name, package, hsrc⟩ := mem_units hf
      rw [hsrc, occurrences_member shelf name package hr, hany]
      rfl
    · cases hg : familyIn namespaces ns with
      | none => simp [hg] at hany
      | some g =>
        refine ⟨g, rfl, exists_file_of_mem_subjects (shared_mem_subjects hns hg), ?_⟩
        intro f hf
        obtain ⟨-, name, package, hsrc⟩ := mem_units hf
        rw [hg] at hany
        rw [hsrc, occurrences_shared, if_pos (by simpa using hany)]
  case nothingElse =>
    intro x f hf
    obtain ⟨hx, name, package, hsrc⟩ := mem_units hf
    rw [hsrc]
    rcases shelf.displays x name package with ⟨-, hnone⟩ | ⟨hne, ps, hone, hvalues⟩
    · rw [hnone]
      exact ⟨Nat.zero_le 1, fun ms hms => absurd hms List.not_mem_nil⟩
    · rw [hone]
      refine ⟨Nat.le_refl 1, fun ms hms => ?_⟩
      obtain rfl := List.mem_singleton.1 hms
      refine ⟨?_, fun m hm => ?_⟩
      · intro hnil
        rw [List.map_eq_nil_iff] at hnil
        exact hne (by rw [← hvalues, hnil]; rfl)
      · obtain ⟨p, hp, rfl⟩ := List.mem_map.1 hm
        have hvalue : p.value ∈ (resourcesOf shelf.toResourceKind x).map shelf.value :=
          hvalues ▸ List.mem_map_of_mem hp
        obtain ⟨r, hr, he⟩ := List.mem_map.1 hvalue
        obtain ⟨ns, hns, hrns, hplace⟩ := exists_of_mem_resourcesOf shelf hnd hid hx hr
        exact ⟨p, rfl, ns, hns, r, hrns, he.symm, hplace⟩

end

/-! ## Objectives and storages -/

theorem objectiveIdsTellApart (namespaces : List Namespace) :
    scoreboards.IdsTellApart namespaces := by
  intro m _ a _ n _ b _
  show a.name = b.name ↔ [a.name] = [b.name]
  simp

/-- Without a colon in what stands before it, the colon of an id is its first. -/
theorem storageIdsTellApart {namespaces : List Namespace}
    (h : ∀ ns ∈ namespaces, ∀ st ∈ ns.storages.items, ':' ∉ st.owner.toList) :
    storages.IdsTellApart namespaces := by
  intro m hm a ha n hn b hb
  show a.owner ++ ":" ++ a.name = b.owner ++ ":" ++ b.name ↔ [a.owner, a.name] = [b.owner, b.name]
  constructor
  · intro he
    have hchars := congrArg String.toList he
    simp only [String.toList_append, List.append_assoc] at hchars
    obtain ⟨howner, hname⟩ := append_cons_inj (h m hm a ha) (h n hn b hb) hchars
    rw [String.toList_inj.1 howner, String.toList_inj.1 hname]
  · intro he
    simp only [List.cons.injEq, and_true] at he
    rw [he.1, he.2]

/-- No objective and no storage is lost between the sources of namespaces and of families, and none
is found in two of them. -/
theorem resources_shared_once (namespaces : List Namespace) (s : Settings)
    (hnd : (namespaces.map (·.name)).Nodup)
    (howner : ∀ ns ∈ namespaces, ∀ st ∈ ns.storages.items, ':' ∉ st.owner.toList) :
    SharedOnce scoreboards namespaces s ∧ SharedOnce storages namespaces s :=
  ⟨sharedOnce _ hnd (objectiveIdsTellApart namespaces),
    sharedOnce _ hnd (storageIdsTellApart howner)⟩

theorem kills_is_shared_once :
    let namespaces : List Namespace :=
      [⟨"a.x", [], .ofList [.ofName "kills" "a.x", .ofName "deaths" "a.x"],
          .ofList [⟨"a.x", "data", "a.x"⟩]⟩,
        ⟨"a.y", [], .ofList [.ofName "kills" "a.y"], .empty⟩]
    (namespaces.map (·.name)).Nodup ∧
      (∀ ns ∈ namespaces, ∀ st ∈ ns.storages.items, ':' ∉ st.owner.toList) ∧
      SharedOnce scoreboards namespaces (.forPackage "generated") ∧
      SharedOnce storages namespaces (.forPackage "generated") := by
  intro namespaces
  have hnd : (namespaces.map (·.name)).Nodup := by decide
  have howner : ∀ ns ∈ namespaces, ∀ st ∈ ns.storages.items, ':' ∉ st.owner.toList := by decide
  exact ⟨hnd, howner, resources_shared_once namespaces _ hnd howner⟩

end PackBindings.Bindings
