/-
  PackBindings.Proofs.Bindings.Shelves — the objects for objectives and storages.

  A shelf is the object at the root in which a unit has its resources of one kind. It is
  told from the object of a directory by its name and by having no path
  (`Source.shelves`).

  Proved, for every namespace and family, whatever the root is called:
  - `resourceNames_eq`: a shelf has the name of its kind, with a two after it only where
    the root is called so.
  - `displays_objectives` / `displays_storages`: a source has the shelf of a kind exactly
    if there is a resource to put on it, and the properties of the shelf are the
    resources, one for one and in their order.
-/

import PackBindings.Proofs.Bindings.ImportTable
import PackBindings.Proofs.Bindings.RootNames

namespace PackBindings.Kotlin

/-- The name of a resource object below a root. -/
def resourceName (root base : String) : String := if root = base then base ++ "2" else base

/-- The objects at the root that have the name of a kind of resource and are no directories. -/
def Source.shelves (s : Source) (base : String) : List (List Decl) :=
  (Decl.objects s.members (resourceName s.name base)).filter fun ms =>
    (Decl.named ms "PATH").isEmpty

/-- The values of the properties on the shelves of a kind. -/
def Source.shelved (s : Source) (base : String) : List String :=
  (s.shelves base).flatMap fun ms => ms.filterMap fun
    | .property p => some p.value
    | _ => none

/-- A source has one shelf with these values, or none if there are none. -/
def Source.Displays (s : Source) (base : String) (values : List String) : Prop :=
  (values = [] ∧ s.shelves base = []) ∨
    (values ≠ [] ∧ ∃ ps : List Property, s.shelves base = [ps.map .property] ∧
      ps.map (·.value) = values)

theorem Source.shelved_of_displays {s : Source} {base : String} {values : List String}
    (h : s.Displays base values) : s.shelved base = values := by
  rcases h with ⟨rfl, hnone⟩ | ⟨-, ps, hone, rfl⟩
  · rw [shelved, hnone, List.flatMap_nil]
  · rw [shelved, hone, List.flatMap_singleton, List.filterMap_map]
    show ps.filterMap (some ∘ (·.value)) = _
    rw [List.filterMap_eq_map]

theorem freshName_eq_resourceName {s : Scope} {root base : String} (hroot : root ∈ s.taken)
    (hone : base ∈ s.taken → root = base) (htwo : base ++ "2" ∈ s.taken → root = base ++ "2") :
    s.freshName base = resourceName root base := by
  rw [resourceName]
  by_cases h : root = base
  · have hfree : Scope.numbered base 2 ∉ s.taken := by
      intro hmem
      have hlen := congrArg String.length (h.symm.trans (htwo hmem))
      simp at hlen
    rw [if_pos h, Scope.freshName_eq_two (h ▸ hroot) hfree]
    rfl
  · rw [if_neg h, Scope.freshName_of_not_mem fun hmem => h (hone hmem)]

end PackBindings.Kotlin

namespace PackBindings.Bindings

open PackBindings.Kotlin

namespace Contents

variable {u : Contents} {name package comment : String}

/-- No constant has the name of a shelf. -/
def LeavesShelves (u : Contents) : Prop :=
  ∀ n ∈ ["Scoreboards", "Scoreboards2", "Storages", "Storages2"], n ∉ u.constants.map (·.name)

theorem not_mem_reservedNames {n : String}
    (h : n ∈ ["Scoreboards", "Scoreboards2", "Storages", "Storages2"]) :
    n ∉ "PATH" :: reservedNames := by
  revert n
  decide

theorem root_of_mem_rootScope (hu : u.LeavesShelves) {n : String}
    (h : n ∈ ["Scoreboards", "Scoreboards2", "Storages", "Storages2"])
    (ht : n ∈ (u.rootScope (name :: reservedNames)).taken) : name = n := by
  rw [rootScope, List.mem_append] at ht
  rcases ht with ht | ht
  · exact absurd ht (hu n h)
  · have hres := not_mem_reservedNames h
    rw [List.mem_cons, not_or] at hres
    rw [List.mem_cons, List.mem_cons] at ht
    rcases ht with ht | ht | ht
    · exact absurd ht hres.1
    · exact ht.symm
    · exact absurd ht hres.2

theorem bases_eq (u : Contents) : u.resourceObjects.map (·.1) =
    (if u.objectives = [] then [] else ["Scoreboards"]) ++
      if u.storages = [] then [] else ["Storages"] := by
  rw [resourceObjects, List.map_append]
  congr 1
  · split <;> rfl
  · split <;> rfl

theorem resourceNames_eq (hu : u.LeavesShelves) (name : String) :
    u.resourceNames (name :: reservedNames) =
      u.resourceObjects.map fun r => resourceName name r.1 := by
  have hroot : name ∈ (u.rootScope (name :: reservedNames)).taken := by simp [rootScope]
  have hfirst : ∀ base ∈ ["Scoreboards", "Storages"],
      (u.rootScope (name :: reservedNames)).freshName base = resourceName name base := by
    intro base hbase
    refine freshName_eq_resourceName hroot (root_of_mem_rootScope hu ?_)
      (root_of_mem_rootScope hu ?_)
    · simp only [List.mem_cons, List.not_mem_nil, or_false] at hbase ⊢
      rcases hbase with rfl | rfl <;> decide
    · simp only [List.mem_cons, List.not_mem_nil, or_false] at hbase ⊢
      rcases hbase with rfl | rfl <;> decide
  have hsecond : ((u.rootScope (name :: reservedNames)).reserve
      (resourceName name "Scoreboards")).freshName "Storages" = resourceName name "Storages" := by
    have hother : ∀ n ∈ ["Storages", "Storages2"], n ≠ resourceName name "Scoreboards" := by
      intro n hn
      rw [resourceName]
      simp only [List.mem_cons, List.not_mem_nil, or_false] at hn
      split <;> rcases hn with rfl | rfl <;> decide
    refine freshName_eq_resourceName (List.mem_cons_of_mem _ hroot) ?_ ?_
    · intro ht
      exact root_of_mem_rootScope hu (by decide)
        ((List.mem_cons.1 ht).resolve_left (hother _ (by decide)))
    · intro ht
      exact root_of_mem_rootScope hu (by decide)
        ((List.mem_cons.1 ht).resolve_left (hother _ (by decide)))
  have hmap : (u.resourceObjects.map fun r => resourceName name r.1) =
      (u.resourceObjects.map (·.1)).map (resourceName name) := by
    rw [List.map_map]
    rfl
  rw [resourceNames, hmap, bases_eq]
  by_cases ho : u.objectives = []
  · by_cases hs : u.storages = []
    · rw [if_pos ho, if_pos hs]
      rfl
    · rw [if_pos ho, if_neg hs, List.nil_append]
      simp only [Scope.nameAll, hfirst "Storages" (by decide), List.map_cons, List.map_nil]
  · by_cases hs : u.storages = []
    · rw [if_neg ho, if_pos hs, List.append_nil]
      simp only [Scope.nameAll, hfirst "Scoreboards" (by decide), List.map_cons, List.map_nil]
    · rw [if_neg ho, if_neg hs]
      simp only [List.cons_append, List.nil_append, Scope.nameAll, hfirst "Scoreboards" (by decide),
        hsecond, List.map_cons, List.map_nil]

theorem mem_resources_iff (hu : u.LeavesShelves) {r : String × List Decl} :
    r ∈ u.resources reservedNames name ↔
      ∃ o ∈ u.resourceObjects, r = (resourceName name o.1, o.2) := by
  rw [resources, resourceNames_eq hu, List.zip_map', List.mem_map]
  exact exists_congr fun o => and_congr_right fun _ => eq_comm

theorem resourceName_injective {root base other : String}
    (hbase : base ∈ ["Scoreboards", "Storages"]) (hother : other ∈ ["Scoreboards", "Storages"])
    (h : resourceName root base = resourceName root other) : base = other := by
  simp only [List.mem_cons, List.not_mem_nil, or_false] at hbase hother
  rw [resourceName, resourceName] at h
  split at h <;> split at h <;> rcases hbase with rfl | rfl <;> rcases hother with rfl | rfl <;>
    first | rfl | exact absurd h (by decide)

theorem base_of_mem_resourceObjects {o : String × List Decl} (h : o ∈ u.resourceObjects) :
    o.1 ∈ ["Scoreboards", "Storages"] := by
  have hmem := List.mem_map_of_mem (f := (·.1)) h
  rw [bases_eq, List.mem_append] at hmem
  rcases hmem with hmem | hmem <;> split at hmem <;> simp_all

/-! ## Shelves and directories -/

theorem mem_members_object (hu : u.LeavesShelves) {n : String} {inner : List Decl} :
    .object n inner ∈ u.rootMembers reservedNames name ↔
      (∃ o ∈ u.resourceObjects, n = resourceName name o.1 ∧ inner = o.2) ∨
        ∃ segment, Holds (u.components.map placed) [segment] ∧
          u.address reservedNames name [segment] = [name, n] ∧
          inner = u.membersAt reservedNames name [segment] := by
  have hpair : .object n inner ∈ u.rootMembers reservedNames name ↔
      ([name, n], inner) ∈ (u.source reservedNames name "" "").objects :=
    (Source.mem_objects_pair (s := u.source reservedNames name "" "")).symm
  rw [hpair, mem_objects_source]
  constructor
  · intro h
    rcases h with ⟨dir, hdir, he⟩ | ⟨r, hr, he⟩
    · obtain ⟨haddress, hinner⟩ := Prod.mk.inj he
      match dir, hdir, haddress, hinner with
      | [], _, haddress, _ => simp [address, namesTo] at haddress
      | [segment], hdir, haddress, hinner =>
        exact Or.inr ⟨segment, hdir, haddress.symm, hinner⟩
      | _ :: _ :: _, _, haddress, _ => simp [address, namesTo] at haddress
    · obtain ⟨o, ho, rfl⟩ := (mem_resources_iff hu).1 hr
      simp only [Prod.mk.injEq, List.cons.injEq, true_and, and_true] at he
      exact Or.inl ⟨o, ho, he⟩
  · intro h
    rcases h with ⟨o, ho, rfl, rfl⟩ | ⟨segment, hdir, haddress, rfl⟩
    · exact Or.inr ⟨_, (mem_resources_iff hu).2 ⟨o, ho, rfl⟩, rfl⟩
    · exact Or.inl ⟨[segment], hdir, by rw [haddress]⟩

/-- The object of a directory has a path. -/
theorem named_path_ne_nil (segment : String) :
    Decl.named (u.membersAt reservedNames name [segment]) "PATH" ≠ [] := by
  have hfirst : u.firstAt reservedNames name [segment] =
      [pathConstant (dotted (u.address reservedNames name [])) segment] :=
    firstAt_concat [] segment
  rw [named_path_membersAt_eq, hfirst]
  intro h
  have hlen := congrArg List.length h
  rw [(Decl.byRank_perm _).length_eq] at hlen
  exact absurd hlen (by simp [Decl.named, pathConstant, Decl.name])

theorem shelves_of_mem (hnd : (u.constants.map (·.name)).Nodup) (hu : u.LeavesShelves)
    {o : String × List Decl} (ho : o ∈ u.resourceObjects) :
    (u.source reservedNames name package comment).shelves o.1 = [o.2] := by
  have hobject : .object (resourceName name o.1) o.2 ∈ u.rootMembers reservedNames name :=
    (mem_members_object hu).2 (Or.inl ⟨o, ho, rfl, rfl⟩)
  have hself : ([name], u.rootMembers reservedNames name) ∈
      (u.source reservedNames name package comment).objects :=
    Source.mem_objects.2 (Or.inl rfl)
  have hroot : (Decl.objectNames (u.rootMembers reservedNames name)).Nodup :=
    nodup_objectNames_of_mem_objects hnd hself
  have hr : (resourceName name o.1, o.2) ∈ u.resources reservedNames name :=
    (mem_resources_iff hu).2 ⟨o, ho, rfl⟩
  have hshelf := isShelf_of_mem_resources hr
  have hone : Decl.objects (u.rootMembers reservedNames name) (resourceName name o.1) = [o.2] :=
    Decl.objects_eq_singleton hroot hobject
  show (Decl.objects (u.rootMembers reservedNames name) (resourceName name o.1)).filter _ = _
  rw [hone, List.filter_cons_of_pos]
  · rfl
  · rw [Decl.named_eq_nil hshelf.noPath]
    rfl

theorem shelves_of_not_mem (hu : u.LeavesShelves) {base : String}
    (hbase : base ∈ ["Scoreboards", "Storages"]) (h : base ∉ u.resourceObjects.map (·.1)) :
    (u.source reservedNames name package comment).shelves base = [] := by
  show (Decl.objects (u.rootMembers reservedNames name) (resourceName name base)).filter _ = _
  rw [List.filter_eq_nil_iff]
  intro inner hinner hpath
  rcases (mem_members_object hu).1 (Decl.mem_objects_iff.1 hinner) with
    ⟨o, ho, hn, -⟩ | ⟨segment, -, -, rfl⟩
  · have hsame := resourceName_injective hbase (base_of_mem_resourceObjects ho) hn
    exact h (hsame ▸ List.mem_map_of_mem ho)
  · exact named_path_ne_nil segment (by simpa using hpath)

/-! ## What stands on a shelf -/

theorem exists_properties {α : Type} (f : α → String → Property) (value : α → String)
    (hvalue : ∀ a n, (f a n).value = value a) (xs : List α) (names : List String)
    (hlen : xs.length ≤ names.length) :
    ∃ ps : List Property, List.zipWith (fun a n => Decl.property (f a n)) xs names =
      ps.map .property ∧ ps.map (·.value) = xs.map value := by
  refine ⟨List.zipWith f xs names, (List.map_zipWith ..).symm, ?_⟩
  have hfst : (·.value) ∘ Function.uncurry f = value ∘ Prod.fst := funext fun ⟨a, n⟩ => hvalue a n
  rw [← List.map_uncurry_zip_eq_zipWith, List.map_map, hfst, ← List.map_map, List.map_fst_zip hlen]

theorem displays_objectives (hnd : (u.constants.map (·.name)).Nodup) (hu : u.LeavesShelves) :
    (u.source reservedNames name package comment).Displays "Scoreboards"
      (u.objectives.map fun o => literal o.name) := by
  by_cases h : u.objectives = []
  · refine Or.inl ⟨by rw [h]; rfl, shelves_of_not_mem hu (by decide) ?_⟩
    rw [bases_eq, if_pos h]
    split <;> simp
  · have hmem : ("Scoreboards", objectiveMembers u.owner u.objectives) ∈ u.resourceObjects := by
      rw [resourceObjects, if_neg h]
      exact List.mem_cons_self
    obtain ⟨ps, hps, hvalues⟩ := exists_properties
      (fun (o : Objective) n => ⟨n, "String", literal o.name, true⟩) (fun o => literal o.name)
      (fun _ _ => rfl) u.objectives
      ((Scope.mk []).nameAll (u.objectives.map fun o => camel (localName u.owner o))) (by simp)
    refine Or.inr ⟨by simpa using h, ps, ?_, hvalues⟩
    rw [shelves_of_mem hnd hu hmem]
    exact congrArg ([·]) hps

theorem spelled_storageArgument (h : u.storages ≠ []) :
    u.imports.spelled storageArgument = "StorageArgument" := by
  have hmem : storageArgument ∈ u.imports := by
    rw [imports, uses, if_neg h]
    exact subset_foldl_takeUp (·.name) _ [storageArgument] List.mem_cons_self
  exact Imports.spelled_of_mem hmem

/-- The text that stands for a storage. -/
def storageText (st : Storage) : String :=
  callText "StorageArgument" ["name = " ++ literal st.name, "namespace = " ++ literal st.owner]

theorem displays_storages (hnd : (u.constants.map (·.name)).Nodup) (hu : u.LeavesShelves) :
    (u.source reservedNames name package comment).Displays "Storages"
      (u.storages.map storageText) := by
  by_cases h : u.storages = []
  · refine Or.inl ⟨by rw [h]; rfl, shelves_of_not_mem hu (by decide) ?_⟩
    rw [bases_eq, if_pos h, List.append_nil]
    split <;> simp
  · have hmem : ("Storages", storageMembers u.imports u.owner u.storages) ∈ u.resourceObjects := by
      rw [resourceObjects, if_neg h, List.mem_append]
      exact Or.inr List.mem_cons_self
    obtain ⟨ps, hps, hvalues⟩ := exists_properties
      (fun (st : Storage) n => ⟨n, "StorageArgument", storageText st, false⟩) storageText
      (fun _ _ => rfl) u.storages
      ((Scope.mk []).nameAll (u.storages.map (storageName u.owner))) (by simp)
    refine Or.inr ⟨by simpa using h, ps, ?_, hvalues⟩
    have hmembers : storageMembers u.imports u.owner u.storages = ps.map .property := by
      rw [storageMembers, spelled_storageArgument h]
      exact hps
    rw [shelves_of_mem hnd hu hmem, hmembers]

end Contents

end PackBindings.Bindings
