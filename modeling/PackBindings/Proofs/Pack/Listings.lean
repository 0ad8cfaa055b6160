/-
  PackBindings.Proofs.Pack.Listings — reading a datapack in whichever order it is listed.

  A reading goes through the listing of `data`, the walk below the directory of each kind
  and the sets of resources of each script, and all of these come in an order of their own
  (`readDatapackIn`). The entries of the tree may stand in any order as well.

  Proved, for every order and every tree whose names are names of files:
  - `full_of_componentFile?`: a component file is found under its location and the
    extension of its kind, so no two of one kind have the same location
    (`nodup_full_filesBelow`).
  - `componentFilesIn_eq`: the component files of a kind come out in one order.
  - `namespaceOfIn_eq`: the resources of a namespace are the same, as scripts of one
    namespace agree on a resource that they both use.
  - `toOption_readDatapackIn`: the reading succeeds exactly if it does on the tree as it
    stands, with the same datapack.
-/

import Mathlib.Data.List.Perm.Basic
import PackBindings.Pack.Contents
import PackBindings.Proofs.Component.Directories
import PackBindings.Proofs.Files.Growth
import PackBindings.Proofs.Resources.Iteration

namespace PackBindings.Files

/-! ## Trees with the same entries -/

namespace Tree

variable {t t' : Tree} (h : t'.entries.Perm t.entries)

include h

theorem node?_eq_of_perm (p : Path) : t'.node? p = t.node? p := by
  unfold node?
  split
  · rfl
  · refine Option.ext fun n => ?_
    rw [lookup_eq_some_iff_mem t'.nodup, lookup_eq_some_iff_mem t.nodup, h.mem_iff]

theorem isDirectory_eq_of_perm (p : Path) : t'.isDirectory p = t.isDirectory p := by
  rw [isDirectory, isDirectory, node?_eq_of_perm h]

theorem filesBelow_perm (p : Path) : (t'.filesBelow p).Perm (t.filesBelow p) := h.filterMap _

theorem directoriesIn_perm (p : Path) : (t'.directoriesIn p).Perm (t.directoriesIn p) :=
  h.filterMap _

theorem directoriesBelow_perm (p : Path) : (t'.directoriesBelow p).Perm (t.directoriesBelow p) :=
  h.filterMap _

end Tree

namespace Tree

variable {t : Tree} {p : Path}

theorem path_of_directoryIn {e : Path × Node} {name : String}
    (h : (match p.isPrefixOf? e.1, e.2 with
      | some [name], .directory => some name
      | _, _ => none) = some name) : e.1 = p ++ [name] := by
  split at h
  · rename_i hrest _
    obtain rfl := Option.some.inj h
    exact isPrefixOf?_eq_some.1 hrest
  · cases h

theorem nodup_directoriesIn (t : Tree) (p : Path) : (t.directoriesIn p).Nodup := by
  refine List.Pairwise.filterMap _ ?_ (List.pairwise_map.1 t.nodup)
  intro e e' hne name hname name' hname' he
  exact hne ((path_of_directoryIn hname).trans (he ▸ (path_of_directoryIn hname').symm))

/-- Every name is one that a file can have. -/
def IsNamed (t : Tree) : Prop := ∀ e ∈ t.entries, ∀ name ∈ e.1, IsSegment name

end Tree

/-- A place in another tree. -/
def Place.inTree (here : Place) (t : Tree) : Place := { here with tree := t }

theorem Place.along_inTree (here : Place) (t : Tree) (p : Path) :
    (here.inTree t).along p = (here.along p).inTree t := by
  induction p generalizing here with
  | nil => rfl
  | cons name p ih => exact ih (here.below name)

theorem Place.isDirectory_inTree {here : Place} {t : Tree} (h : t.entries.Perm here.tree.entries) :
    (here.inTree t).isDirectory = here.isDirectory := by
  unfold isDirectory
  exact congrArg (here.isInReach && ·) (Tree.isDirectory_eq_of_perm h here.path)

/-! ## Names of component files -/

/-- Stem and extension make up the name, with the dot between them. -/
theorem eq_of_stemAndExtension? {name stem extension : List Char}
    (h : stemAndExtension? name = some (stem, extension)) : stem ++ '.' :: extension = name := by
  unfold stemAndExtension? at h
  split at h
  · cases h
  · split at h
    · cases h
    · cases h
    · rename_i parts last hlast hnil _
      obtain ⟨rfl, rfl⟩ := Prod.mk.inj (Option.some.inj h)
      have hne : (name.splitOn '.').dropLast ≠ [] := hnil
      have hsplit : (name.splitOn '.').dropLast ++ [last] = name.splitOn '.' :=
        List.dropLast_append_getLast? last hlast
      have hname : ['.'].intercalate (name.splitOn '.') = name := List.intercalate_splitOn '.'
      rw [← hsplit, intercalate_concat ['.'] hne] at hname
      simpa using hname
    · cases h

end PackBindings.Files

namespace PackBindings.Pack

open PackBindings.Files

/-- A component file is found under its location and the extension of its kind. -/
theorem full_of_componentFile? {k : Kind} {path : Path} {contents : ByteArray} {f : ComponentFile}
    (h : componentFile? k path contents = some f) (hpath : ∀ name ∈ path, IsSegment name) :
    f.path = path ∧ f.location.full.toList ++ '.' :: k.extension.toList =
      ['/'].intercalate (path.map String.toList) := by
  unfold componentFile? at h
  obtain ⟨name, hlast, h⟩ := Option.bind_eq_some_iff.1 h
  split at h
  · rename_i hextension
    obtain rfl := Option.some.inj h
    refine ⟨rfl, ?_⟩
    obtain ⟨dir, rfl⟩ := List.getLast?_eq_some_iff.1 hlast
    -- the name is the stem with the extension after it
    obtain ⟨⟨first, last⟩, hcut, hlast⟩ := Option.map_eq_some_iff.1 hextension
    have hstem : stem name.toList = first := by rw [stem, hcut]; rfl
    have hname : first ++ '.' :: k.extension.toList = name.toList :=
      hlast ▸ eq_of_stemAndExtension? hcut
    rw [List.dropLast_concat, hstem, List.map_append, List.map_singleton, ← hname, Location.full]
    by_cases hdir : dir = []
    · rw [if_pos (by simp [hdir]), hdir]
      simp
    · have hne : "/".intercalate dir ≠ "" := by
        obtain ⟨segment, rest, rfl⟩ := List.exists_cons_of_ne_nil hdir
        intro hempty
        have hsegment := (hpath segment (by simp)).1
        cases rest with
        | nil => simp_all
        | cons next rest => simp [String.intercalate_cons_cons] at hempty
      have hchars : dir.map String.toList ≠ [] := by simpa using hdir
      rw [if_neg hne, intercalate_concat ['/'] hchars]
      simp [String.toList_intercalate]
  · cases h

theorem path_eq_of_full {k : Kind} {p q : Path} {c e : ByteArray} {f g : ComponentFile}
    (hf : componentFile? k p c = some f) (hg : componentFile? k q e = some g)
    (hp : ∀ name ∈ p, IsSegment name) (hq : ∀ name ∈ q, IsSegment name)
    (h : f.location.full = g.location.full) : p = q := by
  have hne : ∀ {r : Path} {contents : ByteArray} {i : ComponentFile},
      componentFile? k r contents = some i → r ≠ [] := by
    rintro r contents i hi rfl
    exact absurd hi nofun
  have htext : "/".intercalate p = "/".intercalate q := by
    rw [← String.toList_inj, String.toList_intercalate, String.toList_intercalate]
    show ['/'].intercalate _ = ['/'].intercalate _
    rw [← (full_of_componentFile? hf hp).2, ← (full_of_componentFile? hg hq).2, h]
  have hslash : "/".toList = ['/'] := rfl
  have hsplit := splitOn_toList_intercalate hslash (hne hf) fun name hname => (hp name hname).2
  rw [htext, splitOn_toList_intercalate hslash (hne hg) fun name hname => (hq name hname).2] at hsplit
  have hinjective : Function.Injective String.toList := fun _ _ h => String.toList_injective h
  exact (List.map_injective_iff.2 hinjective hsplit).symm

/-- No two files of a kind have the same location. -/
theorem nodup_full_filesBelow (k : Kind) {dir : Place} (hnames : dir.tree.IsNamed) :
    (((dir.tree.filesBelow dir.path).filterMap fun (p, contents) =>
      componentFile? k p contents).map fun f => f.location.full).Nodup := by
  have hsegments : ∀ f ∈ dir.tree.filesBelow dir.path, ∀ name ∈ f.1, IsSegment name := by
    intro f hf name hname
    obtain ⟨p, contents⟩ := f
    have hmem := Tree.file?_eq_some.1 (Tree.mem_filesBelow.1 hf)
    exact hnames _ hmem name (List.mem_append_right _ hname)
  rw [List.Nodup, List.pairwise_map]
  refine List.Pairwise.filterMap _ ?_ (List.Pairwise.and_mem.1
    (List.pairwise_map.1 (dir.tree.nodup_filesBelow dir.path)))
  rintro ⟨p, c⟩ ⟨q, e⟩ ⟨hp, hq, hne⟩ f hf g hg hfull
  exact hne (path_eq_of_full hf hg (hsegments _ hp) (hsegments _ hq) hfull)

/-! ## Files in order -/

section

variable (o : Order)

/-- The component files below the directory of a kind, as a walk comes upon them, in order. -/
def componentFilesIn (k : Kind) (dir : Place) : List ComponentFile :=
  ((o.list (.below dir.spelled) (dir.tree.filesBelow dir.path)).filterMap fun (p, contents) =>
    componentFile? k p contents).mergeSort fun f g => f.location.full ≤ g.location.full

/-- The first directory out of reach that a walk comes upon. -/
def outOfReachIn? (dir : Place) : Option Place :=
  ((o.list (.below dir.spelled) (dir.tree.directoriesBelow dir.path)).map dir.along).find?
    (!·.isInReach)

def filesOfIn (here : Place) (k : Kind) : Except Failure (List ComponentFile) :=
  let dir := here.below k.directory
  if !dir.isDirectory then .ok []
  else
    match outOfReachIn? o dir with
    | some there => .error (.ofCause (.unlistable dir.spelled there.spelled))
    | none => .ok (componentFilesIn o k dir)

def readKindIn (here : Place) (name : String) (k : Kind) : Except Failure (List ReadComponent) :=
  (filesOfIn o here k >>= List.mapM (readComponent name (here.below k.directory) k)).mapError
    (.within (.components k name))

/-- The namespace whose components these are; each script hands on its resources as its set lists
them. -/
def namespaceOfIn (name : String) (cs : List ReadComponent) : Namespace where
  name := name
  components := cs.map (·.component)
  objectives := .ofList (cs.flatMap fun c => (c.usage.map fun u =>
    o.list (.script name c.component.location.full) u.objectives.items).getD [])
  storages := .ofList (cs.flatMap fun c => (c.usage.map fun u =>
    o.list (.script name c.component.location.full) u.storages.items).getD [])

def readNamespaceIn (here : Place) (name : String) : Except Failure Namespace := do
  return namespaceOfIn o name (← Kind.all.mapM (readKindIn o here name)).flatten

/-- The namespaces in `data`, read as they are listed and then sorted. -/
def readNamespacesIn (data : Place) : Except Failure (List Namespace) := do
  let namespaces ← (o.list .namespaces (data.tree.directoriesIn data.path)).mapM fun name =>
    (readNamespaceIn o (data.below name) name).mapError (.within (.inNamespace name))
  return namespaces.mergeSort fun m n => m.name ≤ n.name

/-- The datapack in a directory. -/
def readDatapackIn (root : Place) : Except Failure Datapack := do
  let data := root.below "data"
  if !data.isDirectory then throw (.ofCause (.missingData root.spelled))
  let namespaces ← readNamespacesIn o data
  return ⟨namespaces, Family.ofNamespacesIn o namespaces⟩

end

section

variable (o : Order) {t : Tree} {dir here : Place}

theorem componentFilesIn_eq (k : Kind) (h : t.entries.Perm dir.tree.entries)
    (hnames : dir.tree.IsNamed) :
    componentFilesIn o k (dir.inTree t) = componentFiles k dir :=
  mergeSort_eq_of_perm (fun f : ComponentFile => f.location.full)
    (((o.perm _ _).trans (Tree.filesBelow_perm h dir.path)).filterMap _)
    (nodup_full_filesBelow k hnames)

theorem outOfReachIn?_eq_none_iff (h : t.entries.Perm dir.tree.entries) :
    outOfReachIn? o (dir.inTree t) = none ↔ outOfReach? dir = none := by
  have hsame : ∀ p, ((dir.inTree t).along p).isInReach = (dir.along p).isInReach := by
    intro p
    rw [Place.along_inTree]
    rfl
  have hperm := (o.perm (.below dir.spelled) (t.directoriesBelow dir.path)).trans
    (Tree.directoriesBelow_perm h dir.path)
  unfold outOfReachIn? outOfReach?
  rw [List.find?_eq_none, List.find?_eq_none, List.forall_mem_map, List.forall_mem_map]
  constructor
  · intro hall p hp
    rw [← hsame]
    exact hall p (hperm.mem_iff.2 hp)
  · intro hall p hp
    rw [hsame]
    exact hall p (hperm.mem_iff.1 hp)

theorem toOption_filesOfIn (h : t.entries.Perm here.tree.entries) (hnames : here.tree.IsNamed)
    (k : Kind) : (filesOfIn o (here.inTree t) k).toOption = (filesOf here k).toOption := by
  have hbelow : (here.inTree t).below k.directory = (here.below k.directory).inTree t := rfl
  have hperm : t.entries.Perm (here.below k.directory).tree.entries := h
  unfold filesOfIn filesOf
  simp only [hbelow, Place.isDirectory_inTree hperm]
  split
  · rfl
  · have hreach := outOfReachIn?_eq_none_iff o hperm
    cases hout : outOfReach? (here.below k.directory) with
    | some there =>
      cases hin : outOfReachIn? o ((here.below k.directory).inTree t) with
      | some other => rfl
      | none => exact absurd (hreach.1 hin) (by simp [hout])
    | none =>
      rw [hreach.2 hout]
      exact congrArg some (componentFilesIn_eq o k hperm hnames)

theorem readComponent_inTree (source : String) (dir : Place) (t : Tree) (k : Kind) (f : ComponentFile) :
    readComponent source (dir.inTree t) k f = readComponent source dir k f := by
  unfold readComponent readScript
  rw [Place.along_inTree]
  rfl

theorem toOption_readKindIn (h : t.entries.Perm here.tree.entries) (hnames : here.tree.IsNamed)
    (name : String) (k : Kind) :
    (readKindIn o (here.inTree t) name k).toOption = (readKind here name k).toOption := by
  have hread : readComponent name ((here.inTree t).below k.directory) k =
      readComponent name (here.below k.directory) k :=
    funext fun f => readComponent_inTree name (here.below k.directory) t k f
  unfold readKindIn readKind
  rw [toOption_mapError, toOption_mapError, toOption_bind, toOption_bind,
    toOption_filesOfIn o h hnames, hread]

end

/-! ## Resources of a namespace -/

/-- What a script of a namespace uses is told by the names that it uses. -/
structure IsUsedFrom (source : String) (u : Script.Usage) : Prop where
  objectives : ∀ a ∈ u.objectives.items, a = .ofName a.name source
  storages : ∀ a ∈ u.storages.items, a.source = source

theorem isUsedFrom_ofText (text source location : String) :
    IsUsedFrom source (.ofText text source location) where
  objectives := by
    intro a ha
    obtain ⟨name, -, rfl⟩ := List.mem_map.1 (Inventory.mem_of_mem_ofList ha)
    rfl
  storages := by
    intro a ha
    obtain ⟨reference, -, rfl⟩ := List.mem_map.1 (Inventory.mem_of_mem_ofList ha)
    rfl

theorem isUsedFrom_of_readComponent {source : String} {dir : Place} {k : Kind} {f : ComponentFile}
    {c : ReadComponent} (h : (readComponent source dir k f).toOption = some c) :
    ∀ u, c.usage = some u → IsUsedFrom source u := by
  intro u hu
  unfold readComponent at h
  split at h
  · unfold readScript at h
    split at h
    · obtain rfl := Option.some.inj h
      obtain rfl := Option.some.inj hu
      exact isUsedFrom_ofText _ _ _
    · cases h
  · obtain rfl := Option.some.inj h
    cases hu
  · obtain rfl := Option.some.inj h
    cases hu

theorem isUsedFrom_of_readKind {here : Place} {name : String} {k : Kind} {cs : List ReadComponent}
    (h : (readKind here name k).toOption = some cs) :
    ∀ c ∈ cs, ∀ u, c.usage = some u → IsUsedFrom name u := by
  unfold readKind at h
  rw [toOption_mapError, toOption_bind, Option.bind_eq_bind, Option.bind_eq_some_iff] at h
  obtain ⟨fs, -, h⟩ := h
  rw [toOption_mapM, mapM_eq_some_iff] at h
  intro c hc
  obtain ⟨f, -, hf⟩ := List.mem_filterMap.1 (h.2 ▸ hc)
  exact isUsedFrom_of_readComponent hf

section

variable {name : String} {cs : List ReadComponent}

theorem perm_resources {α : Type} (o : Order) (items : Script.Usage → List α) :
    (cs.flatMap fun c => (c.usage.map fun u =>
      o.list (.script name c.component.location.full) (items u)).getD []).Perm
    (cs.flatMap fun c => (c.usage.map items).getD []) := by
  refine List.Perm.flatMap_left _ fun c _ => ?_
  cases c.usage with
  | none => exact List.Perm.refl _
  | some u => exact o.perm _ _

theorem mem_resources_iff {α : Type} {items : Script.Usage → List α} {a : α} :
    a ∈ (cs.flatMap fun c => (c.usage.map items).getD []) ↔
      ∃ c ∈ cs, ∃ u, c.usage = some u ∧ a ∈ items u := by
  rw [List.mem_flatMap]
  refine exists_congr fun c => and_congr_right fun _ => ?_
  cases c.usage with
  | none => simp
  | some u => simp

/-- Scripts of a namespace agree on an objective that they both use. -/
theorem keyTells_objectives (h : ∀ c ∈ cs, ∀ u, c.usage = some u → IsUsedFrom name u) :
    Inventory.KeyTells (cs.flatMap fun c => (c.usage.map (·.objectives.items)).getD []) := by
  intro a ha b hb hkey
  obtain ⟨c, hc, u, hu, ha⟩ := mem_resources_iff.1 ha
  obtain ⟨d, hd, v, hv, hb⟩ := mem_resources_iff.1 hb
  have hname : a.name = b.name := (List.cons.inj hkey).1
  rw [(h c hc u hu).objectives a ha, (h d hd v hv).objectives b hb, hname]

theorem keyTells_storages (h : ∀ c ∈ cs, ∀ u, c.usage = some u → IsUsedFrom name u) :
    Inventory.KeyTells (cs.flatMap fun c => (c.usage.map (·.storages.items)).getD []) := by
  intro a ha b hb hkey
  obtain ⟨c, hc, u, hu, ha⟩ := mem_resources_iff.1 ha
  obtain ⟨d, hd, v, hv, hb⟩ := mem_resources_iff.1 hb
  have hsource : a.source = b.source :=
    ((h c hc u hu).storages a ha).trans ((h d hd v hv).storages b hb).symm
  cases a
  cases b
  simp_all [key]

theorem namespaceOfIn_eq (o : Order) (h : ∀ c ∈ cs, ∀ u, c.usage = some u → IsUsedFrom name u) :
    namespaceOfIn o name cs = namespaceOf name cs := by
  unfold namespaceOfIn namespaceOf
  rw [Inventory.ofList_eq_of_perm (perm_resources o _) (keyTells_objectives h),
    Inventory.ofList_eq_of_perm (perm_resources o _) (keyTells_storages h)]

end

/-! ## Datapacks -/

section

variable (o : Order) {t : Tree}

theorem toOption_readNamespaceIn (here : Place) (h : t.entries.Perm here.tree.entries)
    (hnames : here.tree.IsNamed) (name : String) :
    (readNamespaceIn o (here.inTree t) name).toOption = (readNamespace here name).toOption := by
  unfold readNamespaceIn readNamespace
  rw [toOption_bind, toOption_bind, toOption_mapM, toOption_mapM]
  simp only [toOption_readKindIn o h hnames]
  cases hread : Kind.all.mapM fun k => (readKind here name k).toOption with
  | none => rfl
  | some css =>
    have hused : ∀ c ∈ css.flatten, ∀ u, c.usage = some u → IsUsedFrom name u := by
      intro c hc
      obtain ⟨cs, hcs, hc⟩ := List.mem_flatten.1 hc
      obtain ⟨k, -, hk⟩ := List.mem_filterMap.1 ((mapM_eq_some_iff.1 hread).2 ▸ hcs)
      exact isUsedFrom_of_readKind hk c hc
    exact congrArg some (namespaceOfIn_eq o hused)

theorem name_of_readNamespace {here : Place} {name : String} {ns : Namespace}
    (h : (readNamespace here name).toOption = some ns) : ns.name = name := by
  unfold readNamespace at h
  rw [toOption_bind, Option.bind_eq_bind, Option.bind_eq_some_iff] at h
  obtain ⟨css, -, h⟩ := h
  obtain rfl := Option.some.inj h
  rfl

theorem toOption_readNamespacesIn {data : Place} (h : t.entries.Perm data.tree.entries)
    (hnames : data.tree.IsNamed) : (readNamespacesIn o (data.inTree t)).toOption =
      (namespaceNames data).mapM fun name => (readNamespace (data.below name) name).toOption := by
  have hread : ∀ name, (readNamespaceIn o ((data.inTree t).below name) name).toOption =
      (readNamespace (data.below name) name).toOption :=
    fun name => toOption_readNamespaceIn o (data.below name) h hnames name
  have hperm : (o.list .namespaces (t.directoriesIn data.path)).Perm
      (data.tree.directoriesIn data.path) :=
    (o.perm _ _).trans (Tree.directoriesIn_perm h data.path)
  unfold readNamespacesIn namespaceNames
  rw [toOption_bind, toOption_mapM]
  simp only [toOption_mapError, hread]
  rw [← map_mergeSort_mapM (fun _ _ => name_of_readNamespace) hperm
    (data.tree.nodup_directoriesIn data.path), Option.map_eq_bind]
  rfl

/-- A reading in any order succeeds exactly if the reading of the tree as it stands does, and with
the same datapack. -/
theorem toOption_readDatapackIn (root : Place) (h : t.entries.Perm root.tree.entries)
    (hnames : root.tree.IsNamed) :
    (readDatapackIn o (root.inTree t)).toOption = (readDatapack root).toOption := by
  have hdata : (root.inTree t).below "data" = (root.below "data").inTree t := rfl
  have hperm : t.entries.Perm (root.below "data").tree.entries := h
  unfold readDatapackIn readDatapack
  simp only [hdata, Place.isDirectory_inTree hperm]
  split
  · rfl
  · rw [toOption_bind, toOption_bind, toOption_mapM, toOption_readNamespacesIn o hperm hnames]
    simp only [toOption_mapError]
    cases hread : (namespaceNames (root.below "data")).mapM fun name =>
        (readNamespace ((root.below "data").below name) name).toOption with
    | none => rfl
    | some nss =>
      have hnd : (nss.map (·.name)).Nodup := by
        rw [map_of_mapM (fun _ _ => name_of_readNamespace) hread]
        exact (List.mergeSort_perm _ _).nodup_iff.2 (Tree.nodup_directoriesIn _ _)
      show some (Datapack.mk nss (Family.ofNamespacesIn o nss)) = some (Datapack.ofNamespaces nss)
      rw [Family.ofNamespacesIn_eq o (List.Perm.refl nss) hnd]
      rfl

end

end PackBindings.Pack
