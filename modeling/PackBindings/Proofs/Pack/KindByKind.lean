/-
  PackBindings.Proofs.Pack.KindByKind — what is read of a namespace, one kind after the other.

  Of a kind its files are read in order, one component for each (`IsRead`). A reader that goes
  through the kinds takes up what their scripts use, and keeps the components of a kind under
  the kind if there are any (`Collected.take`); its family is told from its name at the start.
  A namespace keeps its components in one list, and its family, its templates and the components
  of a kind are told from that when they are asked for (`Collected.ofNamespace`).

  Proved, for every tree and every place in it:
  - `toOption_readKind_eq_some_iff`: what is read of a kind.
  - `readNamespace_eq_ok_iff`: a namespace is what is read of each kind.
  - `ofKind_namespaceOf` / `mem_components_iff`: its components are those of the kinds.
  - `foldl_take`: what a reader has kept after some of the kinds.
  - `collect_eq`: what it has kept in the end is what is told from the namespace.
-/

import PackBindings.Proofs.Pack.ComponentFiles

namespace PackBindings

/-! ## Components of a kind -/

theorem Kind.role_eq_script_iff {k : Kind} : k.role = .script ↔ k = .function := by
  cases k <;> decide

theorem Kind.role_eq_scriptTag_iff {k : Kind} : k.role = .scriptTag ↔ k = .functionTag := by
  cases k <;> decide

namespace Component

variable (k : Kind) (l : Location) (t : Option Template)

@[simp] theorem kind_ofKind : (ofKind k l t).kind = k := by
  unfold ofKind
  split
  · rename_i hrole
    exact (Kind.role_eq_script_iff.1 hrole).symm
  · rename_i hrole
    exact (Kind.role_eq_scriptTag_iff.1 hrole).symm
  · rfl

@[simp] theorem location_ofKind : (ofKind k l t).location = l := by
  unfold ofKind
  split <;> rfl

@[simp] theorem template?_ofKind : (ofKind k l t).template? = if k = .function then t else none := by
  unfold ofKind
  split
  · rename_i hrole
    rw [if_pos (Kind.role_eq_script_iff.1 hrole)]
    rfl
  · rename_i hrole
    rw [Kind.role_eq_scriptTag_iff.1 hrole]
    rfl
  · rename_i hrole
    rw [if_neg]
    · rfl
    · rintro rfl
      exact absurd hrole (by decide)

theorem template?_eq_none {c : Component} (h : c.kind ≠ .function) : c.template? = none := by
  cases c with
  | resource k l => rfl
  | script l t => exact absurd rfl h
  | scriptTag l => rfl

end Component

/-- Only scripts are templates. -/
theorem Namespace.templates_eq (ns : Namespace) :
    ns.templates = (ns.ofKind .function).filterMap Component.template? := by
  rw [templates, inOrder, List.filterMap_flatMap]
  refine flatMap_eq_of_eq_nil Kind.nodup_all (Kind.mem_all .function) fun k _ hk => ?_
  refine List.filterMap_eq_nil_iff.2 fun c hc => Component.template?_eq_none ?_
  rw [of_decide_eq_true (List.mem_filter.1 hc).2]
  exact hk

end PackBindings

namespace PackBindings.Pack

open PackBindings.Files

/-! ## What is read of a kind -/

/-- Every directory below that of the kind can be opened. -/
def DirectoriesInReach (here : Place) (k : Kind) : Prop :=
  (here.below k.directory).isDirectory = true →
    ∀ p ∈ here.tree.directoriesBelow (here.below k.directory).path,
      ((here.below k.directory).along p).isInReach = true

theorem outOfReach?_eq_none_iff {dir : Place} : outOfReach? dir = none ↔
    ∀ p ∈ dir.tree.directoriesBelow dir.path, (dir.along p).isInReach = true := by
  rw [outOfReach?, List.find?_eq_none, List.forall_mem_map]
  simp

theorem toOption_filesOf_eq_some_iff {here : Place} {k : Kind} {fs : List ComponentFile} :
    (filesOf here k).toOption = some fs ↔ DirectoriesInReach here k ∧ fs = foundFiles here k := by
  unfold filesOf foundFiles DirectoriesInReach
  cases hdir : (here.below k.directory).isDirectory with
  | false =>
    simp only [hdir]
    exact ⟨fun h => ⟨nofun, (Option.some.inj h).symm⟩, fun h => congrArg some h.2.symm⟩
  | true =>
    have hreach : outOfReach? (here.below k.directory) = none ↔ _ := outOfReach?_eq_none_iff
    cases hout : outOfReach? (here.below k.directory) with
    | some there =>
      simp only [hdir, hout]
      refine ⟨nofun, fun h => ?_⟩
      rw [hreach.2 (h.1 trivial)] at hout
      cases hout
    | none =>
      simp only [hdir, hout]
      exact ⟨fun h => ⟨fun _ => hreach.1 hout, (Option.some.inj h).symm⟩,
        fun h => congrArg some h.2.symm⟩

/-- What a component file of a kind is read as. -/
inductive IsRead (name : String) (dir : Place) (k : Kind) (f : ComponentFile) : ReadComponent → Prop
  | script (text : String) : k = .function → textOf? (dir.along f.path) f.contents = some text →
      IsRead name dir k f ⟨.ofKind k f.location (Script.Usage.ofText text name f.location.full).template,
        some (.ofText text name f.location.full)⟩
  | other : k ≠ .function → IsRead name dir k f ⟨.ofKind k f.location none, none⟩

theorem readComponent_of_ne_function {k : Kind} (hk : k ≠ .function) (name : String) (dir : Place)
    (f : ComponentFile) : readComponent name dir k f = .ok ⟨.ofKind k f.location none, none⟩ := by
  unfold readComponent Component.ofKind
  cases hrole : k.role with
  | script => exact absurd (Kind.role_eq_script_iff.1 hrole) hk
  | scriptTag => rfl
  | resource => rfl

theorem toOption_readComponent_eq_some_iff {name : String} {dir : Place} {k : Kind}
    {f : ComponentFile} {c : ReadComponent} :
    (readComponent name dir k f).toOption = some c ↔ IsRead name dir k f c := by
  by_cases hk : k = .function
  · subst hk
    have hread : readComponent name dir .function f = (do
        let usage ← readScript name dir f
        return ⟨.script f.location usage.template, some usage⟩) := rfl
    rw [hread, readScript]
    cases htext : textOf? (dir.along f.path) f.contents with
    | none =>
      refine ⟨nofun, fun h => ?_⟩
      cases h with
      | script text _ hsome =>
        rw [htext] at hsome
        cases hsome
      | other hk => exact absurd rfl hk
    | some text =>
      constructor
      · intro h
        obtain rfl := Option.some.inj h
        exact .script text rfl htext
      · intro h
        cases h with
        | script other _ hsome =>
          obtain rfl := Option.some.inj (htext.symm.trans hsome)
          rfl
        | other hk => exact absurd rfl hk
  · rw [readComponent_of_ne_function hk]
    constructor
    · intro h
      obtain rfl := Option.some.inj h
      exact .other hk
    · intro h
      cases h with
      | script _ hk' _ => exact absurd hk' hk
      | other _ => rfl

namespace IsRead

variable {name : String} {dir : Place} {k : Kind} {f : ComponentFile} {c : ReadComponent}
  (h : IsRead name dir k f c)

include h

theorem kind_eq : c.component.kind = k := by
  cases h <;> simp

theorem location_eq : c.component.location = f.location := by
  cases h <;> simp

theorem variant : c.component = .ofKind c.component.kind c.component.location c.component.template? := by
  cases h with
  | script text hk _ =>
    subst hk
    rfl
  | other hk => simp [hk]

/-- A component that was read is the template that its text says. -/
theorem template?_eq : c.component.template? = c.usage.bind (·.template) := by
  cases h with
  | script text hk _ => rw [Component.template?_ofKind, if_pos hk, Option.bind_some]
  | other hk => rw [Component.template?_ofKind, if_neg hk, Option.bind_none]

end IsRead

/-- Only scripts can make a reading fail. -/
theorem isSome_readComponent_iff {name : String} {dir : Place} {k : Kind} {f : ComponentFile} :
    (readComponent name dir k f).toOption.isSome = true ↔
      (k = .function → (textOf? (dir.along f.path) f.contents).isSome = true) := by
  rw [Option.isSome_iff_exists]
  simp only [toOption_readComponent_eq_some_iff]
  constructor
  · rintro ⟨c, h⟩ hk
    cases h with
    | script text _ htext => rw [htext, Option.isSome_some]
    | other hne => exact absurd hk hne
  · intro h
    by_cases hk : k = .function
    · obtain ⟨text, htext⟩ := Option.isSome_iff_exists.1 (h hk)
      exact ⟨_, .script text hk htext⟩
    · exact ⟨_, .other hk⟩

section

variable {here : Place} {name : String} {k : Kind} {cs : List ReadComponent}

theorem toOption_readKind_eq_some_iff : (readKind here name k).toOption = some cs ↔
    DirectoriesInReach here k ∧
      (foundFiles here k).mapM (fun f => (readComponent name (here.below k.directory) k f).toOption) =
        some cs := by
  rw [readKind, toOption_mapError, toOption_bind, Option.bind_eq_bind, Option.bind_eq_some_iff]
  simp only [toOption_filesOf_eq_some_iff, toOption_mapM]
  constructor
  · rintro ⟨fs, ⟨hreach, rfl⟩, hread⟩
    exact ⟨hreach, hread⟩
  · intro ⟨hreach, hread⟩
    exact ⟨_, ⟨hreach, rfl⟩, hread⟩

theorem isSome_readKind_iff : (readKind here name k).toOption.isSome = true ↔
    DirectoriesInReach here k ∧ ∀ f ∈ foundFiles here k, k = .function →
      (textOf? ((here.below k.directory).along f.path) f.contents).isSome = true := by
  rw [Option.isSome_iff_exists]
  simp only [toOption_readKind_eq_some_iff, mapM_eq_some_iff, isSome_readComponent_iff]
  exact ⟨fun ⟨_, hreach, hall, _⟩ => ⟨hreach, hall⟩, fun ⟨hreach, hall⟩ => ⟨_, hreach, hall, rfl⟩⟩

theorem mem_iff_of_readKind (h : (readKind here name k).toOption = some cs) {c : ReadComponent} :
    c ∈ cs ↔ ∃ f ∈ foundFiles here k, IsRead name (here.below k.directory) k f c := by
  obtain ⟨-, hread⟩ := toOption_readKind_eq_some_iff.1 h
  rw [← (mapM_eq_some_iff.1 hread).2, List.mem_filterMap]
  simp only [toOption_readComponent_eq_some_iff]

/-- Components come in the order of their files. -/
theorem map_location_of_readKind (h : (readKind here name k).toOption = some cs) :
    cs.map (·.component.location) = (foundFiles here k).map (·.location) :=
  map_eq_map_of_mapM (fun _ _ hread => (toOption_readComponent_eq_some_iff.1 hread).location_eq)
    (toOption_readKind_eq_some_iff.1 h).2

theorem kind_of_readKind (h : (readKind here name k).toOption = some cs) :
    ∀ c ∈ cs, c.component.kind = k := by
  intro c hc
  obtain ⟨f, -, hread⟩ := (mem_iff_of_readKind h).1 hc
  exact hread.kind_eq

end

/-! ## What is read of a namespace -/

/-- A namespace is what is read of one kind after the other. -/
theorem readNamespace_eq_ok_iff {here : Place} {name : String} {ns : Namespace} :
    readNamespace here name = .ok ns ↔ ∃ read : Kind → List ReadComponent,
      (∀ k, (readKind here name k).toOption = some (read k)) ∧
        ns = namespaceOf name (Kind.all.flatMap read) := by
  rw [← toOption_eq_some_iff, readNamespace, toOption_bind, Option.bind_eq_bind,
    Option.bind_eq_some_iff, toOption_mapM]
  constructor
  · intro ⟨css, hcss, hns⟩
    obtain ⟨hall, -⟩ := mapM_eq_some_iff.1 hcss
    have hread : ∀ k, (readKind here name k).toOption =
        some ((readKind here name k).toOption.getD []) := by
      intro k
      obtain ⟨cs, hcs⟩ := Option.isSome_iff_exists.1 (hall k (Kind.mem_all k))
      rw [hcs, Option.getD_some]
    obtain rfl := Option.some.inj (hcss.symm.trans (mapM_eq_some_map fun k _ => hread k))
    exact ⟨_, hread, (Option.some.inj hns).symm⟩
  · rintro ⟨read, hread, rfl⟩
    exact ⟨_, mapM_eq_some_map fun k _ => hread k, rfl⟩

section

variable {here : Place} {name : String} {read : Kind → List ReadComponent}
  (hread : ∀ k, (readKind here name k).toOption = some (read k))

include hread

theorem mem_flatMap_read_iff {c : ReadComponent} : c ∈ Kind.all.flatMap read ↔
    ∃ k, ∃ f ∈ foundFiles here k, IsRead name (here.below k.directory) k f c := by
  rw [List.mem_flatMap]
  constructor
  · rintro ⟨k, -, hc⟩
    exact ⟨k, (mem_iff_of_readKind (hread k)).1 hc⟩
  · intro ⟨k, hc⟩
    exact ⟨k, Kind.mem_all k, (mem_iff_of_readKind (hread k)).2 hc⟩

theorem ofKind_namespaceOf (k : Kind) :
    (namespaceOf name (Kind.all.flatMap read)).ofKind k = (read k).map (·.component) := by
  have hkinds : ∀ k, ∀ c ∈ (read k).map (·.component), c.kind = k := by
    intro k c hc
    obtain ⟨r, hr, rfl⟩ := List.mem_map.1 hc
    exact kind_of_readKind (hread k) r hr
  rw [Namespace.ofKind, namespaceOf, List.map_flatMap]
  exact filter_flatMap_eq Kind.nodup_all hkinds (Kind.mem_all k)

theorem isUsedFrom_of_mem_read : ∀ c ∈ Kind.all.flatMap read, ∀ u, c.usage = some u →
    IsUsedFrom name u := by
  intro c hc
  obtain ⟨k, -, hc⟩ := List.mem_flatMap.1 hc
  exact isUsedFrom_of_readKind (hread k) c hc

theorem mem_components_iff {c : Component} :
    c ∈ (namespaceOf name (Kind.all.flatMap read)).components ↔ ∃ k, ∃ f ∈ foundFiles here k, ∃ r,
      IsRead name (here.below k.directory) k f r ∧ r.component = c := by
  rw [namespaceOf, List.mem_map]
  simp only [mem_flatMap_read_iff hread]
  constructor
  · rintro ⟨r, ⟨k, f, hf, hr⟩, rfl⟩
    exact ⟨k, f, hf, r, hr, rfl⟩
  · rintro ⟨k, f, hf, r, hr, rfl⟩
    exact ⟨r, ⟨k, f, hf, hr⟩, rfl⟩

end

/-! ## A namespace as it is collected -/

/-- A namespace as a reader keeps it: its family, its templates and the components of a kind stand
beside the rest. -/
structure Collected where
  name : String
  family? : Option String
  /-- The kinds that have components, and these. -/
  entries : List (Kind × List Component)
  objectives : Inventory Objective
  storages : Inventory Storage
  templates : List Template

namespace Collected

def start (name : String) : Collected := ⟨name, Namespace.familyOf? name, [], .empty, .empty, []⟩

/-- Takes up what a script uses, and the template that it is. -/
def use (n : Collected) (c : ReadComponent) : Collected :=
  match c.usage with
  | none => n
  | some u =>
    { n with
      objectives := n.objectives.insertAll u.objectives.items
      storages := n.storages.insertAll u.storages.items
      templates := n.templates ++ u.template.toList }

/-- Components are kept under their kind; a kind without any has no entry. -/
def enter (n : Collected) (k : Kind) (cs : List Component) : Collected :=
  if cs.isEmpty then n else { n with entries := n.entries ++ [(k, cs)] }

/-- Takes up what was read of a kind. -/
def take (n : Collected) (k : Kind) (cs : List ReadComponent) : Collected :=
  (cs.foldl use n).enter k (cs.map (·.component))

/-- What is kept once all kinds are read. -/
def collect (name : String) (read : Kind → List ReadComponent) : Collected :=
  Kind.all.foldl (fun n k => n.take k (read k)) (start name)

/-- What is told from a namespace. -/
def ofNamespace (ns : Namespace) : Collected where
  name := ns.name
  family? := ns.family?
  entries := (Kind.all.map fun k => (k, ns.ofKind k)).filter (!·.2.isEmpty)
  objectives := ns.objectives
  storages := ns.storages
  templates := ns.templates

theorem mem_entries_ofNamespace {ns : Namespace} {k : Kind} {cs : List Component} :
    (k, cs) ∈ (ofNamespace ns).entries ↔ cs = ns.ofKind k ∧ cs ≠ [] := by
  rw [ofNamespace, List.mem_filter, List.mem_map, Bool.not_eq_true', List.isEmpty_eq_false_iff]
  refine and_congr_left fun _ => ⟨?_, fun h => ⟨k, Kind.mem_all k, by rw [h]⟩⟩
  rintro ⟨j, -, he⟩
  obtain ⟨rfl, rfl⟩ := Prod.mk.inj he
  rfl

/-! What is kept after any number of components and kinds. -/

/-- These entries and what these components use, on top of what is kept. -/
def adding (n : Collected) (entries : List (Kind × List Component)) (cs : List ReadComponent) :
    Collected where
  name := n.name
  family? := n.family?
  entries := n.entries ++ entries
  objectives :=
    n.objectives.insertAll (cs.flatMap fun c => (c.usage.map (·.objectives.items)).getD [])
  storages := n.storages.insertAll (cs.flatMap fun c => (c.usage.map (·.storages.items)).getD [])
  templates := n.templates ++ cs.filterMap fun c => c.usage.bind (·.template)

theorem adding_nil (n : Collected) : n.adding [] [] = n := by
  simp [adding, Inventory.insertAll]

theorem adding_adding (n : Collected) (es fs : List (Kind × List Component))
    (cs ds : List ReadComponent) :
    (n.adding es cs).adding fs ds = n.adding (es ++ fs) (cs ++ ds) := by
  simp [adding, Inventory.insertAll_append]

theorem use_eq (n : Collected) (c : ReadComponent) : n.use c = n.adding [] [c] := by
  rw [use, adding]
  cases hu : c.usage with
  | none => simp [hu, Inventory.insertAll]
  | some u => cases ht : u.template <;> simp [hu, ht]

theorem foldl_use (n : Collected) (cs : List ReadComponent) : cs.foldl use n = n.adding [] cs := by
  induction cs generalizing n with
  | nil => exact n.adding_nil.symm
  | cons c cs ih =>
    rw [List.foldl_cons, ih, use_eq, adding_adding, List.nil_append, List.singleton_append]

theorem enter_eq (n : Collected) (k : Kind) (cs : List Component) :
    n.enter k cs = n.adding ([(k, cs)].filter (!·.2.isEmpty)) [] := by
  cases cs with
  | nil => exact n.adding_nil.symm
  | cons c cs => simp [enter, adding, Inventory.insertAll]

theorem foldl_take (n : Collected) (read : Kind → List ReadComponent) (ks : List Kind) :
    ks.foldl (fun n k => n.take k (read k)) n =
      n.adding ((ks.map fun k => (k, (read k).map (·.component))).filter (!·.2.isEmpty))
        (ks.flatMap read) := by
  induction ks generalizing n with
  | nil => exact n.adding_nil.symm
  | cons k ks ih =>
    have htake : n.take k (read k) =
        n.adding ([(k, (read k).map (·.component))].filter (!·.2.isEmpty)) (read k) := by
      rw [take, foldl_use, enter_eq, adding_adding, List.nil_append, List.append_nil]
    rw [List.foldl_cons, ih, htake, adding_adding, ← List.filter_append, List.singleton_append,
      List.map_cons, List.flatMap_cons]

end Collected

section

variable {here : Place} {name : String} {read : Kind → List ReadComponent}
  (hread : ∀ k, (readKind here name k).toOption = some (read k))

include hread

theorem templates_namespaceOf : (namespaceOf name (Kind.all.flatMap read)).templates =
    (Kind.all.flatMap read).filterMap fun c => c.usage.bind (·.template) := by
  have hinOrder : (namespaceOf name (Kind.all.flatMap read)).inOrder =
      (Kind.all.flatMap read).map (·.component) := by
    rw [Namespace.inOrder, List.map_flatMap]
    exact List.flatMap_congr fun k _ => ofKind_namespaceOf hread k
  rw [Namespace.templates, hinOrder, List.filterMap_map]
  refine List.filterMap_congr fun c hc => ?_
  obtain ⟨k, f, -, hr⟩ := (mem_flatMap_read_iff hread).1 hc
  exact hr.template?_eq

/-- A reader that goes through the kinds has kept in the end what is told from the namespace. -/
theorem collect_eq :
    Collected.collect name read = .ofNamespace (namespaceOf name (Kind.all.flatMap read)) := by
  have htemplates := templates_namespaceOf hread
  rw [Collected.collect, Collected.foldl_take, Collected.ofNamespace, htemplates]
  simp only [ofKind_namespaceOf hread]
  rfl

end

end PackBindings.Pack
