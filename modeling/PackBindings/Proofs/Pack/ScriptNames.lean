/-
  PackBindings.Proofs.Pack.ScriptNames — the names in a datapack that come from its scripts.

  File names may have any character, but what scripts name may not: objectives, storages and
  parameters reach a datapack only from texts of scripts, and families take theirs from their
  members. So of all names in a datapack that is read, only those of namespaces, directories
  and files are arbitrary.

  Proved, for every directory that is read:
  - `isTokens_of_readNamespace`: a namespace has names of scripts for its objectives,
    storages and parameters.
  - `exists_of_readDatapack`: a datapack consists of namespaces that are read, and of the
    families that they form.
  - `mem_objectives_of_family` / `mem_storages_of_family`: families have no resources of
    their own.
-/

import PackBindings.Proofs.Pack.NamespaceFiles
import PackBindings.Proofs.Resources.Partition
import PackBindings.Proofs.Script.Names

namespace PackBindings

open PackBindings.Script

/-- What a namespace has from its scripts is named as scripts name it. -/
structure Namespace.IsTokens (ns : Namespace) : Prop where
  objectives : ∀ a ∈ ns.objectives.items, ∀ c ∈ a.name.toList, isObjectiveChar c = true
  storages : ∀ a ∈ ns.storages.items, IsReference (a.owner.toList, a.name.toList)
  parameters : ∀ component ∈ ns.components, ∀ t ∈ component.template?, ∀ name ∈ t.parameters,
    ∀ c ∈ name.toList, isParameterChar c = true

/-! ## Families -/

namespace Family

theorem mem_of_mem_shared {α : Type} [Keyed α] {id : α → String} {inventories : List (Inventory α)}
    {a : α} (h : a ∈ (shared id inventories).items) : ∃ inv ∈ inventories, a ∈ inv.items := by
  have hfirst := (List.mem_filter.1 (Inventory.mem_of_mem_ofList h)).1
  exact List.mem_flatMap.1 (mem_of_mem_firstsBy hfirst)

variable {namespaces : List Namespace} {f : Family}

theorem mem_objectives_of_family (hf : f ∈ ofNamespaces namespaces) {a : Objective}
    (ha : a ∈ f.objectives.items) : ∃ ns ∈ namespaces, a ∈ ns.objectives.items := by
  have hobjectives : f.objectives =
      shared (·.name) ((membersOf f.name namespaces).map (·.objectives)) :=
    congrArg objectives (eq_ofMembers_of_mem hf).2
  obtain ⟨inv, hinv, ha⟩ := mem_of_mem_shared (hobjectives ▸ ha)
  obtain ⟨ns, hns, rfl⟩ := List.mem_map.1 hinv
  exact ⟨ns, (mem_membersOf.1 hns).1, ha⟩

theorem mem_storages_of_family (hf : f ∈ ofNamespaces namespaces) {a : Storage}
    (ha : a ∈ f.storages.items) : ∃ ns ∈ namespaces, a ∈ ns.storages.items := by
  have hstorages : f.storages =
      shared Storage.id ((membersOf f.name namespaces).map (·.storages)) :=
    congrArg storages (eq_ofMembers_of_mem hf).2
  obtain ⟨inv, hinv, ha⟩ := mem_of_mem_shared (hstorages ▸ ha)
  obtain ⟨ns, hns, rfl⟩ := List.mem_map.1 hinv
  exact ⟨ns, (mem_membersOf.1 hns).1, ha⟩

end Family

namespace Pack

open PackBindings.Files

/-! ## Namespaces -/

theorem isTokens_of_isRead {name : String} {dir : Place} {k : Kind} {f : ComponentFile}
    {c : ReadComponent} (h : IsRead name dir k f c) : ∀ u ∈ c.usage, IsTokens u := by
  intro u hu
  cases h with
  | script text _ _ =>
    obtain rfl := Option.some.inj hu
    exact isTokens_ofText _ _ _
  | other _ => cases hu

theorem isTokens_of_readNamespace {here : Place} {name : String} {ns : Namespace}
    (h : readNamespace here name = .ok ns) : ns.IsTokens := by
  obtain ⟨read, hread, rfl⟩ := readNamespace_eq_ok_iff.1 h
  have hused : ∀ c ∈ Kind.all.flatMap read, ∀ u ∈ c.usage, IsTokens u := by
    intro c hc
    obtain ⟨k, f, -, hr⟩ := (mem_flatMap_read_iff hread).1 hc
    exact isTokens_of_isRead hr
  exact {
    objectives := by
      intro a ha
      obtain ⟨c, hc, u, hu, ha⟩ := mem_resources_iff.1 (Inventory.mem_of_mem_ofList ha)
      exact (hused c hc u hu).objectives a ha
    storages := by
      intro a ha
      obtain ⟨c, hc, u, hu, ha⟩ := mem_resources_iff.1 (Inventory.mem_of_mem_ofList ha)
      exact (hused c hc u hu).storages a ha
    parameters := by
      intro component hcomponent t ht
      obtain ⟨k, f, -, r, hr, rfl⟩ := (mem_components_iff hread).1 hcomponent
      cases hr with
      | script text hk _ =>
        subst hk
        exact (isTokens_ofText text name f.location.full).parameters t ht
      | other hk => simp [hk] at ht }

/-! ## Datapacks -/

theorem exists_of_readDatapack {root : Place} {d : Datapack} (h : readDatapack root = .ok d) :
    ∃ namespaces, d = .ofNamespaces namespaces ∧ ∀ ns ∈ namespaces,
      ∃ name, readNamespace ((root.below "data").below name) name = .ok ns := by
  rw [← toOption_eq_some_iff] at h
  unfold readDatapack at h
  dsimp only at h
  split at h
  · cases h
  · rw [toOption_bind, Option.bind_eq_bind, Option.bind_eq_some_iff, toOption_mapM] at h
    obtain ⟨namespaces, hread, h⟩ := h
    refine ⟨namespaces, (Option.some.inj h).symm, fun ns hns => ?_⟩
    rw [← (mapM_eq_some_iff.1 hread).2] at hns
    obtain ⟨name, -, hns⟩ := List.mem_filterMap.1 hns
    rw [toOption_mapError] at hns
    exact ⟨name, toOption_eq_some_iff.1 hns⟩

end Pack

end PackBindings
