/-
  PackBindings.Proofs.Pack.Agreement — what of a datapack a run depends on.

  A run asks whether something is there, lists names, reads the manifest and reads scripts. The
  manifest is only kept, and of any other file the name is enough. So two packs come to the same
  outcome if they have the same namespaces, the same component files, scripts that say the same,
  and both have a manifest or neither (`SamePack`): the same datapack and source files, or
  failures of one category. What their manifests and all other files say does not matter, nor
  which other files there are.

  What is opened must be in reach, though, and how long the way is to something depends on the
  path of the pack. Two packs must have the same things in reach (`SameReach`), or else one of
  them may be read and the other not (`a_roundabout_changes_the_outcome`).

  Proved, for all trees whose names are names of files:
  - `check_of_hasNeeds` / `outcome_check_of_not`: a pack is opened if it has what it needs.
  - `outcome_check`: what comes after that, whatever its manifest says.
  - `map_location_foundFiles_eq` / `scriptFiles_eq`: the component files of a kind have the same
    locations, and script files are the same.
  - `outcome_readKind` / `outcome_readNamespace` / `outcome_readDatapack`: what is read.
  - `exists_generateFiles_iff`: a run succeeds if the pack has what it needs and its namespaces
    can be read.
  - `outcome_eq_of_samePack`: what a run comes to.
-/

import PackBindings.Generate
import PackBindings.Proofs.Pack.NamespaceFiles

namespace PackBindings

/-! ## Outcomes -/

/-- What results are told apart by: the value, or the category of the failure. -/
def outcome {α : Type} (x : Except Failure α) : Except Category α := x.mapError Failure.category

section

variable {α β : Type}

theorem outcome_bind (x : Except Failure α) (f : α → Except Failure β) :
    outcome (x >>= f) = outcome x >>= fun a => outcome (f a) := by
  cases x <;> rfl

theorem outcome_within (s : Stage) (x : Except Failure α) :
    outcome (x.mapError (.within s)) = outcome x := by
  cases x <;> rfl

theorem outcome_mapM_congr {f g : α → Except Failure β} {xs : List α}
    (h : ∀ x ∈ xs, outcome (f x) = outcome (g x)) : outcome (xs.mapM f) = outcome (xs.mapM g) := by
  induction xs with
  | nil => rfl
  | cons x xs ih =>
    obtain ⟨hx, hxs⟩ := List.forall_mem_cons.1 h
    rw [List.mapM_cons, List.mapM_cons, outcome_bind, outcome_bind, hx]
    refine congrArg _ (funext fun b => ?_)
    rw [outcome_bind, outcome_bind, ih hxs]

end

end PackBindings

namespace PackBindings.Files

theorem Tree.isFile_iff {t : Tree} {p : Path} :
    t.isFile p = true ↔ ∃ contents, t.file? p = some contents := by
  unfold isFile file?
  cases t.node? p with
  | none => simp
  | some n => cases n <;> simp

end PackBindings.Files

namespace PackBindings.Pack

open PackBindings.Files

/-! ## Packs that agree -/

/-- Two namespaces with the same component files, whose scripts say the same. -/
structure SameNamespace (here there : Place) : Prop where
  located : ∀ k p l, Locates k p l →
    here.tree.isFile (here.path ++ p) = there.tree.isFile (there.path ++ p)
  scripts : ∀ p l, Locates .function p l →
    here.tree.file? (here.path ++ p) = there.tree.file? (there.path ++ p)

/-- Two packs with the same namespaces, which both have a manifest or both have none. -/
structure SamePack (root other : Place) : Prop where
  data : root.tree.isDirectory (root.below "data").path =
    other.tree.isDirectory (other.below "data").path
  manifest : root.tree.isFile (root.below manifestName).path =
    other.tree.isFile (other.below manifestName).path
  names : ∀ name, name ∈ root.tree.directoriesIn (root.below "data").path ↔
    name ∈ other.tree.directoriesIn (other.below "data").path
  namespaces : ∀ name ∈ root.tree.directoriesIn (root.below "data").path,
    SameNamespace ((root.below "data").below name) ((other.below "data").below name)

/-- What is opened to read a namespace is in reach in two places or in neither. -/
structure SameNamespaceReach (here there : Place) : Prop where
  kinds : ∀ k p l, Locates k p l → here.tree.isFile (here.path ++ p) = true →
    (here.below k.directory).isInReach = (there.below k.directory).isInReach
  directories : ∀ k, DirectoriesInReach here k ↔ DirectoriesInReach there k
  scripts : ∀ p l, Locates .function p l → here.tree.isFile (here.path ++ p) = true →
    (here.along p).isInReach = (there.along p).isInReach

/-- What is opened to read a pack is in reach in two places or in neither. -/
structure SameReach (root other : Place) : Prop where
  data : root.tree.isDirectory (root.below "data").path = true →
    (root.below "data").isInReach = (other.below "data").isInReach
  manifest : root.tree.isFile (root.below manifestName).path = true →
    (root.below manifestName).isInReach = (other.below manifestName).isInReach
  namespaces : ∀ name ∈ root.tree.directoriesIn (root.below "data").path,
    SameNamespaceReach ((root.below "data").below name) ((other.below "data").below name)

/-! ## Opening -/

/-- A pack has data, and a manifest if one is asked for. -/
@[mk_iff]
structure HasNeeds (root : Place) (manifestRequired : Bool) : Prop where
  data : (root.below "data").isDirectory = true
  manifest : manifestRequired = true → (root.below manifestName).isFile = true

section

variable {o : Opened} {required : Bool}

theorem check_of_hasNeeds (h : HasNeeds o.root required) :
    ∃ m, o.check required = .ok { o with manifest := m } := by
  unfold Opened.check
  simp only [h.data]
  cases hmanifest : (o.root.below manifestName).isFile with
  | true => exact ⟨_, rfl⟩
  | false =>
    cases required with
    | true => exact absurd (hmanifest.symm.trans (h.manifest rfl)) Bool.false_ne_true
    | false => exact ⟨o.manifest, rfl⟩

theorem outcome_check_of_not (h : ¬HasNeeds o.root required) :
    outcome (o.check required) = .error .packLayout := by
  unfold Opened.check
  cases hdata : (o.root.below "data").isDirectory with
  | false => rfl
  | true =>
    cases hmanifest : (o.root.below manifestName).isFile with
    | true => exact absurd ⟨hdata, fun _ => hmanifest⟩ h
    | false =>
      cases required with
      | true =>
        simp only [hmanifest]
        rfl
      | false => exact absurd ⟨hdata, nofun⟩ h

end

theorem and_eq_and {a b c d : Bool} (h : b = true → a = c) (hbd : b = d) : (a && b) = (c && d) := by
  subst hbd
  cases b with
  | false => rw [Bool.and_false, Bool.and_false]
  | true => rw [h rfl]

section

variable {root other : Place} (hsame : SamePack root other) (hreach : SameReach root other)

include hsame hreach

theorem isDirectory_data : (root.below "data").isDirectory = (other.below "data").isDirectory :=
  and_eq_and hreach.data hsame.data

theorem isFile_manifest : (root.below manifestName).isFile = (other.below manifestName).isFile :=
  and_eq_and hreach.manifest hsame.manifest

end

/-- What comes after a pack is opened comes to the same in both, whatever their manifests say. -/
theorem outcome_check {α : Type} {o o' : Opened} (hsame : SamePack o.root o'.root)
    (hreach : SameReach o.root o'.root) (required : Bool) {f g : Place → Except Failure α}
    (h : outcome (f o.root) = outcome (g o'.root)) :
    outcome (o.check required >>= fun o => f o.root) =
      outcome (o'.check required >>= fun o => g o.root) := by
  have hneeds : HasNeeds o.root required ↔ HasNeeds o'.root required := by
    rw [hasNeeds_iff, hasNeeds_iff, isDirectory_data hsame hreach, isFile_manifest hsame hreach]
  by_cases hhere : HasNeeds o.root required
  · obtain ⟨m, hm⟩ := check_of_hasNeeds hhere
    obtain ⟨m', hm'⟩ := check_of_hasNeeds (hneeds.1 hhere)
    rw [hm, hm']
    exact h
  · rw [outcome_bind, outcome_bind, outcome_check_of_not hhere,
      outcome_check_of_not fun hthere => hhere (hneeds.2 hthere)]
    rfl

/-! ## Component files -/

theorem mem_foundFiles_iff {here : Place} {k : Kind} {f : ComponentFile} :
    f ∈ foundFiles here k ↔ HasFile here (k.path ++ f.path) f.contents k f.location := by
  constructor
  · intro hf
    exact hasFile_iff.2 ⟨f, hf, rfl, rfl, rfl⟩
  · intro h
    obtain ⟨g, hg, hpath, hcontents, hlocation⟩ := hasFile_iff.1 h
    cases f
    cases g
    simp_all

theorem mem_map_location_iff {here : Place} {k : Kind} {l : Location} :
    l ∈ (foundFiles here k).map (·.location) ↔ ∃ p, Locates k p l ∧
      here.tree.isFile (here.path ++ p) = true ∧ (here.below k.directory).isInReach = true := by
  rw [List.mem_map]
  constructor
  · rintro ⟨f, hf, rfl⟩
    have hfile := mem_foundFiles_iff.1 hf
    exact ⟨_, hfile.locates, Tree.isFile_iff.2 ⟨_, hfile.stands⟩, hfile.inReach⟩
  · intro ⟨p, hlocates, hfile, hin⟩
    obtain ⟨contents, hstands⟩ := Tree.isFile_iff.1 hfile
    obtain ⟨f, hf, -, -, hlocation⟩ := hasFile_iff.1 ⟨hstands, hin, hlocates⟩
    exact ⟨f, hf, hlocation⟩

section

variable {here there : Place} (hhere : here.tree.IsNamed) (hthere : there.tree.IsNamed)
  (hsame : SameNamespace here there) (hreach : SameNamespaceReach here there)

include hhere hthere hsame hreach

/-- Component files have the same locations in both, and come in the same order. -/
theorem map_location_foundFiles_eq (k : Kind) :
    (foundFiles here k).map (·.location) = (foundFiles there k).map (·.location) := by
  refine pairwise_lt_ext (List.pairwise_map.2 (pairwise_foundFiles hhere k))
    (List.pairwise_map.2 (pairwise_foundFiles hthere k)) fun l => ?_
  rw [mem_map_location_iff, mem_map_location_iff]
  refine exists_congr fun p => and_congr_right fun hlocates => ?_
  rw [← hsame.located k p l hlocates]
  refine and_congr_right fun hfile => ?_
  rw [hreach.kinds k p l hlocates hfile]

/-- Script files are the same, with their contents. -/
theorem scriptFiles_eq : foundFiles here .function = foundFiles there .function := by
  refine pairwise_lt_ext (pairwise_foundFiles hhere .function)
    (pairwise_foundFiles hthere .function) fun f => ?_
  rw [mem_foundFiles_iff, mem_foundFiles_iff]
  constructor
  · rintro ⟨hfile, hin, hlocates⟩
    have hkind := hreach.kinds _ _ _ hlocates (Tree.isFile_iff.2 ⟨_, hfile⟩)
    exact ⟨hsame.scripts _ _ hlocates ▸ hfile, hkind ▸ hin, hlocates⟩
  · rintro ⟨hfile, hin, hlocates⟩
    rw [← hsame.scripts _ _ hlocates] at hfile
    have hkind := hreach.kinds _ _ _ hlocates (Tree.isFile_iff.2 ⟨_, hfile⟩)
    exact ⟨hfile, hkind.symm ▸ hin, hlocates⟩

end

/-! ## Reading -/

theorem filesOf_eq_ok {here : Place} {k : Kind} (h : DirectoriesInReach here k) :
    filesOf here k = .ok (foundFiles here k) :=
  toOption_eq_some_iff.1 (toOption_filesOf_eq_some_iff.2 ⟨h, rfl⟩)

/-- A directory that is too far down to be opened is the only thing that keeps files from being
listed. -/
theorem outcome_filesOf_of_not {here : Place} {k : Kind} (h : ¬DirectoriesInReach here k) :
    outcome (filesOf here k) = .error .io := by
  cases hfiles : filesOf here k with
  | ok fs => exact absurd (toOption_filesOf_eq_some_iff.1 (toOption_eq_some_iff.2 hfiles)).1 h
  | error e =>
    unfold filesOf at hfiles
    dsimp only at hfiles
    split at hfiles
    · cases hfiles
    · split at hfiles
      · rw [← Except.error.inj hfiles]
        rfl
      · cases hfiles

/-- A script comes out the same where it is in reach in both places or in neither. -/
theorem outcome_readComponent {dir dir' : Place} {f : ComponentFile}
    (h : (dir.along f.path).isInReach = (dir'.along f.path).isInReach) (name : String) (k : Kind) :
    outcome (readComponent name dir k f) = outcome (readComponent name dir' k f) := by
  have htext : textOf? (dir.along f.path) f.contents = textOf? (dir'.along f.path) f.contents := by
    rw [textOf?, textOf?, h]
  unfold readComponent readScript
  rw [htext]
  split
  · split
    · rfl
    · rfl
  · rfl
  · rfl

/-- Files other than scripts are not opened. -/
theorem mapM_readComponent_of_ne_function {k : Kind} (hk : k ≠ .function) (name : String)
    (dir : Place) (fs : List ComponentFile) : fs.mapM (readComponent name dir k) =
      .ok ((fs.map (·.location)).map fun l => ⟨.ofKind k l none, none⟩) := by
  rw [funext (readComponent_of_ne_function hk name dir), List.map_map]
  exact List.mapM_pure

section

variable {here there : Place} (hhere : here.tree.IsNamed) (hthere : there.tree.IsNamed)
  (hsame : SameNamespace here there) (hreach : SameNamespaceReach here there)

include hhere hthere hsame hreach

theorem outcome_readKind (name : String) (k : Kind) :
    outcome (readKind here name k) = outcome (readKind there name k) := by
  unfold readKind
  rw [outcome_within, outcome_within]
  by_cases hdirs : DirectoriesInReach here k
  · rw [filesOf_eq_ok hdirs, filesOf_eq_ok ((hreach.directories k).1 hdirs)]
    show outcome (List.mapM _ _) = outcome (List.mapM _ _)
    by_cases hk : k = .function
    · subst hk
      rw [← scriptFiles_eq hhere hthere hsame hreach]
      refine outcome_mapM_congr fun f hf => outcome_readComponent ?_ name .function
      have hfile := mem_foundFiles_iff.1 hf
      have hin := hreach.scripts _ _ hfile.locates (Tree.isFile_iff.2 ⟨_, hfile.stands⟩)
      rwa [along_function, along_function] at hin
    · -- their contents may differ, but what is read of them is their locations
      rw [mapM_readComponent_of_ne_function hk, mapM_readComponent_of_ne_function hk,
        map_location_foundFiles_eq hhere hthere hsame hreach]
  · have hdirs' : ¬DirectoriesInReach there k := fun h => hdirs ((hreach.directories k).2 h)
    rw [outcome_bind, outcome_bind, outcome_filesOf_of_not hdirs, outcome_filesOf_of_not hdirs']
    rfl

theorem outcome_readNamespace (name : String) :
    outcome (readNamespace here name) = outcome (readNamespace there name) := by
  unfold readNamespace
  rw [outcome_bind, outcome_bind, outcome_mapM_congr fun k _ =>
    outcome_readKind hhere hthere hsame hreach name k]

end

theorem readDatapack_of_missing {root : Place} (h : (root.below "data").isDirectory = false) :
    readDatapack root = .error (.ofCause (.missingData root.spelled)) := by
  unfold readDatapack
  simp only [h, Bool.not_false, if_true]
  rfl

theorem readDatapack_of_data {root : Place} (h : (root.below "data").isDirectory = true) :
    readDatapack root = (namespaceNames (root.below "data")).mapM (fun name =>
      (readNamespace ((root.below "data").below name) name).mapError (.within (.inNamespace name)))
        >>= fun namespaces => .ok (.ofNamespaces namespaces) := by
  unfold readDatapack
  simp only [h, Bool.not_true]
  rfl

section

variable {root other : Place} (hroot : root.tree.IsNamed) (hother : other.tree.IsNamed)
  (hsame : SamePack root other) (hreach : SameReach root other)

include hsame in
theorem namespaceNames_eq :
    namespaceNames (root.below "data") = namespaceNames (other.below "data") := by
  have hperm : (root.tree.directoriesIn (root.below "data").path).Perm
      (other.tree.directoriesIn (other.below "data").path) :=
    (List.perm_ext_iff_of_nodup (Tree.nodup_directoriesIn _ _) (Tree.nodup_directoriesIn _ _)).2
      hsame.names
  refine mergeSort_eq_of_perm id hperm ?_
  rw [List.map_id]
  exact Tree.nodup_directoriesIn _ _

include hroot hother hsame hreach

theorem outcome_readDatapack : outcome (readDatapack root) = outcome (readDatapack other) := by
  have hdata := isDirectory_data hsame hreach
  cases hthere : (other.below "data").isDirectory with
  | false =>
    rw [readDatapack_of_missing hthere, readDatapack_of_missing (hdata.trans hthere)]
    rfl
  | true =>
    rw [readDatapack_of_data hthere, readDatapack_of_data (hdata.trans hthere),
      ← namespaceNames_eq hsame, outcome_bind, outcome_bind,
      outcome_mapM_congr fun name hname => ?_]
    have hmem := List.mem_mergeSort.1 hname
    have hhere : ((root.below "data").below name).tree.IsNamed := hroot
    have hthere : ((other.below "data").below name).tree.IsNamed := hother
    rw [outcome_within, outcome_within]
    exact outcome_readNamespace hhere hthere (hsame.namespaces name hmem)
      (hreach.namespaces name hmem) name

end

/-! ## When a run succeeds -/

theorem exists_readDatapack_iff {root : Place} (h : (root.below "data").isDirectory = true) :
    (∃ d, readDatapack root = .ok d) ↔
      ∀ name ∈ root.tree.directoriesIn (root.below "data").path,
        ∃ ns, readNamespace ((root.below "data").below name) name = .ok ns := by
  rw [readDatapack_of_data h, exists_bind_ok_iff, exists_mapM_iff]
  simp only [exists_mapError_iff, namespaceNames, List.mem_mergeSort]
  exact Iff.rfl

theorem exists_check_bind_iff {α : Type} {o : Opened} {required : Bool}
    {f : Place → Except Failure α} : (∃ r, (o.check required >>= fun o => f o.root) = .ok r) ↔
      HasNeeds o.root required ∧ ∃ r, f o.root = .ok r := by
  by_cases h : HasNeeds o.root required
  · obtain ⟨m, hm⟩ := check_of_hasNeeds h
    rw [hm]
    exact ⟨fun hok => ⟨h, hok⟩, fun hok => hok.2⟩
  · refine ⟨fun ⟨r, hr⟩ => ?_, fun hok => absurd hok.1 h⟩
    have hfailed := congrArg outcome hr
    rw [outcome_bind, outcome_check_of_not h] at hfailed
    cases hfailed

/-- A run succeeds if the pack has what it needs and its namespaces can be read, and only then. -/
theorem exists_generateFiles_iff {p : String} {t : Tree} {s : Settings} :
    (∃ r, generateFiles (.directory p) (.directory t) s = .ok r) ↔
      HasNeeds ⟨t, [], p⟩ s.manifestRequired ∧
        ∀ name ∈ t.directoriesIn (Place.below ⟨t, [], p⟩ "data").path,
          ∃ ns, readNamespace ((Place.below ⟨t, [], p⟩ "data").below name) name = .ok ns := by
  let o : Opened := ⟨⟨t, [], p⟩, false, none⟩
  calc (∃ r, generateFiles (.directory p) (.directory t) s = .ok r)
    _ ↔ ∃ d, readSource (.directory p) (.directory t) s = .ok d := exists_bind_ok_iff
    _ ↔ _ := exists_check_bind_iff (o := o)
      (f := fun root => (readDatapack root).mapError (.within (.datapack p)))
    _ ↔ _ := and_congr_right fun h => exists_mapError_iff.trans (exists_readDatapack_iff h.data)

/-! ## Outcomes of runs -/

/-- A run comes to the same outcome on two packs with the same component files, whose scripts say
the same: one datapack and its source files, or failures of one category. -/
theorem outcome_eq_of_samePack {t u : Tree} {p q : String} (s : Settings) (ht : t.IsNamed)
    (hu : u.IsNamed) (hsame : SamePack ⟨t, [], p⟩ ⟨u, [], q⟩)
    (hreach : SameReach ⟨t, [], p⟩ ⟨u, [], q⟩) :
    outcome (generateFiles (.directory p) (.directory t) s) =
      outcome (generateFiles (.directory q) (.directory u) s) := by
  let o : Opened := ⟨⟨t, [], p⟩, false, none⟩
  let o' : Opened := ⟨⟨u, [], q⟩, false, none⟩
  have hpack : SamePack o.root o'.root := hsame
  have hread : outcome (readSource (.directory p) (.directory t) s) =
      outcome (readSource (.directory q) (.directory u) s) := by
    refine outcome_check hpack hreach s.manifestRequired
      (f := fun root => (readDatapack root).mapError (.within (.datapack p)))
      (g := fun root => (readDatapack root).mapError (.within (.datapack q))) ?_
    rw [outcome_within, outcome_within]
    exact outcome_readDatapack ht hu hsame hreach
  unfold generateFiles
  rw [outcome_bind, outcome_bind, hread]

/-- Directories of kinds that hold only files are in reach. -/
theorem directoriesInReach_of_length {here : Place} (h : ∀ e ∈ here.tree.entries,
    e.2 = .directory → e.1.length ≤ here.path.length + 1) (k : Kind) :
    DirectoriesInReach here k := by
  intro _ p hp
  obtain ⟨hne, hnode⟩ := Tree.mem_directoriesBelow.1 hp
  have hmem := (Tree.node?_eq_some (by simp [hne])).1 hnode
  have hlen := h _ hmem rfl
  have hkind : 0 < k.path.length :=
    List.length_pos_of_ne_nil (by simp [Kind.path, List.splitOn_ne_nil])
  have hrest := List.length_pos_of_ne_nil hne
  rw [path_below_kind, List.length_append, List.length_append] at hlen
  omega

/-- The directories of kinds are in reach from any but a very long path. -/
theorem isInReach_kind {here : Place} (h : here.spelled.utf8ByteSize ≤ 4000) (k : Kind) :
    (here.below k.directory).isInReach = true := by
  have hkind : k.directory.utf8ByteSize ≤ 64 := by
    cases k <;> decide
  have hreach : (here.along [k.directory]).isInReach = true := by
    have hslash : "/".utf8ByteSize = 1 := by decide
    refine Place.isInReach_along ?_
    rw [List.map_singleton, String.join_cons, String.join_nil, String.append_empty,
      String.utf8ByteSize_append, pathLimit]
    omega
  exact hreach

theorem two_packs_with_one_script :
    let say : ByteArray := "say hi".toUTF8
    let broken : ByteArray := ⟨#[0xff]⟩
    let t : Tree := ⟨[(["pack.mcmeta"], .file .empty), (["data"], .directory),
      (["data", "p"], .directory), (["data", "p", "function"], .directory),
      (["data", "p", "function", "tick.mcfunction"], .file say),
      (["data", "p", "recipe"], .directory),
      (["data", "p", "recipe", "bread.json"], .file .empty)], by decide, by decide⟩
    let u : Tree := ⟨[(["notes.txt"], .file say), (["pack.mcmeta"], .file broken),
      (["data"], .directory), (["data", "p"], .directory), (["data", "p", "function"], .directory),
      (["data", "p", "function", "tick.mcfunction"], .file say),
      (["data", "p", "recipe"], .directory),
      (["data", "p", "recipe", "bread.json"], .file broken)], by decide, by decide⟩
    (t.IsNamed ∧ u.IsNamed) ∧ SamePack ⟨t, [], "old"⟩ ⟨u, [], "new"⟩ ∧
      SameReach ⟨t, [], "old"⟩ ⟨u, [], "new"⟩ ∧ ∀ s,
        outcome (generateFiles (.directory "old") (.directory t) s) =
          outcome (generateFiles (.directory "new") (.directory u) s) := by
  intro say broken t u
  have ht : t.IsNamed := by
    unfold Tree.IsNamed IsSegment
    decide
  have hu : u.IsNamed := by
    unfold Tree.IsNamed IsSegment
    decide
  have htnames : t.directoriesIn ["data"] = ["p"] := by decide
  have hunames : u.directoriesIn ["data"] = ["p"] := by decide
  have htfiles : ∀ rest contents, t.file? ("data" :: "p" :: rest) = some contents ↔
      rest = ["function", "tick.mcfunction"] ∧ contents = say ∨
        rest = ["recipe", "bread.json"] ∧ contents = .empty := by
    intro rest contents
    rw [Tree.file?_eq_some]
    simp [t]
  have hufiles : ∀ rest contents, u.file? ("data" :: "p" :: rest) = some contents ↔
      rest = ["function", "tick.mcfunction"] ∧ contents = say ∨
        rest = ["recipe", "bread.json"] ∧ contents = broken := by
    intro rest contents
    rw [Tree.file?_eq_some]
    simp [u]
  have hnamespace : SameNamespace ((Place.below ⟨t, [], "old"⟩ "data").below "p")
      ((Place.below ⟨u, [], "new"⟩ "data").below "p") := by
    constructor
    · intro k rest l _
      show t.isFile ("data" :: "p" :: rest) = u.isFile ("data" :: "p" :: rest)
      rw [Bool.eq_iff_iff, Tree.isFile_iff, Tree.isFile_iff]
      simp only [htfiles, hufiles, exists_or, exists_and_left, exists_eq, and_true]
    · -- what is not a script is told apart from one by its directory
      rintro _ l ⟨dir, stem, -, rfl, -⟩
      show t.file? ("data" :: "p" :: "function" :: (dir ++ _)) =
        u.file? ("data" :: "p" :: "function" :: (dir ++ _))
      refine Option.ext fun contents => ?_
      rw [htfiles, hufiles]
      simp
  have hsame : SamePack ⟨t, [], "old"⟩ ⟨u, [], "new"⟩ := by
    refine ⟨by decide, by decide, fun name => ?_, fun name hname => ?_⟩
    · show name ∈ t.directoriesIn ["data"] ↔ name ∈ u.directoriesIn ["data"]
      rw [htnames, hunames]
    · have hmem : name ∈ t.directoriesIn ["data"] := hname
      rw [htnames, List.mem_singleton] at hmem
      rw [hmem]
      exact hnamespace
  have hreach : SameReach ⟨t, [], "old"⟩ ⟨u, [], "new"⟩ := by
    refine ⟨fun _ => by decide, fun _ => by decide, fun name hname => ?_⟩
    have hmem : name ∈ t.directoriesIn ["data"] := hname
    rw [htnames, List.mem_singleton] at hmem
    rw [hmem]
    refine ⟨fun k rest l _ _ => ?_, fun k => ?_, fun rest l _ hfile => ?_⟩
    · rw [isInReach_kind (by decide) k, isInReach_kind (by decide) k]
    · refine iff_of_true (directoriesInReach_of_length ?_ k) (directoriesInReach_of_length ?_ k)
      · decide
      · decide
    · obtain ⟨contents, hcontents⟩ := Tree.isFile_iff.1 hfile
      rcases (htfiles rest contents).1 hcontents with ⟨rfl, -⟩ | ⟨rfl, -⟩ <;> decide
  exact ⟨⟨ht, hu⟩, hsame, hreach, fun s => outcome_eq_of_samePack s ht hu hsame hreach⟩

/-- A pack is the same wherever it stands. -/
theorem SamePack.of_tree (t : Tree) (p q : String) : SamePack ⟨t, [], p⟩ ⟨t, [], q⟩ where
  data := rfl
  manifest := rfl
  names _ := Iff.rfl
  namespaces _ _ := ⟨fun _ _ _ _ => rfl, fun _ _ _ => rfl⟩

/-- Of two packs that are the same, one is read and the other is not, as the way to its script was
spelled too long. -/
theorem a_roundabout_changes_the_outcome :
    let say : ByteArray := "say hi".toUTF8
    let t : Tree := ⟨[(["pack.mcmeta"], .file .empty), (["data"], .directory),
      (["data", "p"], .directory), (["data", "p", "function"], .directory),
      (["data", "p", "function", "tick.mcfunction"], .file say)], by decide, by decide⟩
    let s : Settings := .forPackage "generated"
    let way := roundabout 2035 "b"
    t.IsNamed ∧ SamePack ⟨t, [], "a"⟩ ⟨t, [], way⟩ ∧
      (∃ r, generateFiles (.directory "a") (.directory t) s = .ok r) ∧
      outcome (generateFiles (.directory "a") (.directory t) s) ≠
        outcome (generateFiles (.directory way) (.directory t) s) := by
  intro say t s way
  have hnames : t.IsNamed := by
    unfold Tree.IsNamed IsSegment
    decide
  have hnamespaces : t.directoriesIn ["data"] = ["p"] := by decide
  have hfiles : ∀ rest contents, t.file? ("data" :: "p" :: "function" :: rest) = some contents ↔
      rest = ["tick.mcfunction"] ∧ contents = say := by
    intro rest contents
    rw [Tree.file?_eq_some]
    simp [t]
  have hshort : ∃ r, generateFiles (.directory "a") (.directory t) s = .ok r := by
    refine exists_generateFiles_iff.2 ⟨⟨by decide, fun _ => by decide⟩, fun name hname => ?_⟩
    have hmem : name ∈ t.directoriesIn ["data"] := hname
    rw [hnamespaces, List.mem_singleton] at hmem
    subst hmem
    refine exists_readNamespace_iff.2 fun k => isSome_readKind_iff.2
      ⟨directoriesInReach_of_length (by decide) k, ?_⟩
    rintro f hf rfl
    obtain ⟨hpath, hcontents⟩ := (hfiles f.path f.contents).1 (mem_foundFiles_iff.1 hf).stands
    obtain ⟨text, htext⟩ := Option.isSome_iff_exists.1 (isSome_fromUTF8?_toUTF8 "say hi")
    rw [hpath, hcontents]
    exact Option.isSome_iff_exists.2 ⟨text, textOf?_eq_some_iff.2 ⟨by decide, htext⟩⟩
  have hlong : ¬∃ r, generateFiles (.directory way) (.directory t) s = .ok r := by
    have hsize : way.utf8ByteSize = 4071 := (utf8ByteSize_roundabout 2035 "b").trans (by decide)
    generalize way = path at hsize
    have hfunction : (Place.along ⟨t, [], path⟩ ["data", "p", "function"]).isInReach = true := by
      refine Place.isInReach_along ?_
      unfold pathLimit
      show path.utf8ByteSize + 16 ≤ 4095
      omega
    have hscript : (Place.along ⟨t, [], path⟩
        ["data", "p", "function", "tick.mcfunction"]).isInReach = false := by
      refine Place.isInReach_along_eq_false (by decide) ?_
      unfold pathLimit
      show 4095 < path.utf8ByteSize + 28
      omega
    have hfile : HasFile ((Place.below ⟨t, [], path⟩ "data").below "p")
        ["function", "tick.mcfunction"] say .function ⟨"", "tick"⟩ :=
      ⟨(hfiles _ _).2 ⟨rfl, rfl⟩, hfunction, [], "tick", by decide, by decide, rfl⟩
    intro h
    have hmem : "p" ∈ t.directoriesIn ["data"] := by decide
    have hread := exists_readNamespace_iff.1 ((exists_generateFiles_iff.1 h).2 "p" hmem) .function
    have hin := isInReach_of_script hread hfile
    exact absurd (hscript.symm.trans hin) (by decide)
  refine ⟨hnames, .of_tree t "a" way, hshort, fun he => hlong ?_⟩
  obtain ⟨r, hr⟩ := hshort
  refine exists_mapError_iff.1 ⟨r, he.symm.trans ?_⟩
  rw [hr]
  rfl

end PackBindings.Pack
