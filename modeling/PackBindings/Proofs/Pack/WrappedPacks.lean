/-
  PackBindings.Proofs.Pack.WrappedPacks — archives with the pack in a directory.

  Where an archive has a pack in a directory at its top, that directory is found by two
  questions. The first is whether the top itself looks like a pack; it does as soon as the
  directory is called as the one with the data of a pack is, and then its contents are taken for
  namespaces. The second is whether anything stands beside the directory; if so, no pack is found.
  In all other cases the pack in the archive is read as it would be outside of it.

  Proved, for every pack, all files beside it and every archive that unpacks to them:
  - `node?_of_wraps`: what stands in the directory stands in the pack.
  - `packRoot?_of_wraps`: what is taken for the pack.
  - `samePack_of_wraps` / `sameReach_of_opensAll`: the pack in the archive is the same pack.
  - `wrapped_pack_read_iff`: when it is read, and what happens otherwise.
-/

import PackBindings.Archive.Writer
import PackBindings.Proofs.Archive.Reach
import PackBindings.Proofs.Pack.RunFailures

namespace PackBindings.Pack

open PackBindings.Files

/-! ## Packs that can be opened -/

/-- Below two places there is the same. -/
theorem samePack_of_node? {root other : Place}
    (h : ∀ p, root.tree.node? (root.path ++ p) = other.tree.node? (other.path ++ p)) :
    SamePack root other := by
  have hdirectory : ∀ p, root.tree.isDirectory (root.path ++ p) =
      other.tree.isDirectory (other.path ++ p) := fun p => by rw [Tree.isDirectory, Tree.isDirectory, h]
  have hfile : ∀ p, root.tree.isFile (root.path ++ p) = other.tree.isFile (other.path ++ p) :=
    fun p => by rw [Tree.isFile, Tree.isFile, h]
  have hcontents : ∀ p, root.tree.file? (root.path ++ p) = other.tree.file? (other.path ++ p) :=
    fun p => by rw [Tree.file?, Tree.file?, h]
  have hbelow : ∀ (here : Place) name p, ((here.below "data").below name).path ++ p =
      here.path ++ (["data"] ++ ((name.toList.splitOn '/').map String.ofList ++ p)) := by
    intro here name p
    show here.path ++ ["data"] ++ _ ++ p = _
    simp
  constructor
  case data => exact hdirectory ["data"]
  case manifest => exact hfile [manifestName]
  case names =>
    intro name
    have hname := h (["data"] ++ [name])
    rw [← List.append_assoc, ← List.append_assoc] at hname
    rw [Tree.mem_directoriesIn, Tree.mem_directoriesIn]
    exact Eq.congr_left hname
  case namespaces =>
    intro name _
    constructor
    · intro k p l _
      rw [hbelow, hbelow]
      exact hfile _
    · intro p l _
      rw [hbelow, hbelow]
      exact hcontents _

/-- A component file stands in the directory of its kind. -/
theorem isDirectory_of_locates {here : Place} {k : Kind} {p : Path} {l : Location}
    (h : Locates k p l) (hfile : here.tree.isFile (here.path ++ p) = true) :
    here.tree.isDirectory (here.below k.directory).path = true := by
  obtain ⟨dir, stem, -, rfl, -⟩ := h
  obtain ⟨contents, hcontents⟩ := Tree.isFile_iff.1 hfile
  have hnode := Tree.node?_eq_file.2 (Tree.file?_eq_some.1 hcontents)
  rw [← List.append_assoc] at hnode
  exact Tree.isDirectory_of_append (by simp) hnode

section

variable {root : Place} (h : OpensAll root) {name : String}
  (hname : name ∈ root.tree.directoriesIn (root.below "data").path)

include h hname

theorem isInReach_kind_of_opensAll {k : Kind} {p : Path} {l : Location} (hlocates : Locates k p l)
    (hfile : ((root.below "data").below name).tree.isFile
      (((root.below "data").below name).path ++ p) = true) :
    (((root.below "data").below name).below k.directory).isInReach = true :=
  h.kinds name hname k (isDirectory_of_locates hlocates hfile)

theorem isInReach_script_of_opensAll {p : Path} {l : Location} (hlocates : Locates .function p l)
    (hfile : ((root.below "data").below name).tree.isFile
      (((root.below "data").below name).path ++ p) = true) :
    (((root.below "data").below name).along p).isInReach = true := by
  obtain ⟨contents, hcontents⟩ := Tree.isFile_iff.1 hfile
  exact (h.namespaces name hname).scripts p contents l
    ⟨hcontents, isInReach_kind_of_opensAll h hname hlocates hfile, hlocates⟩

end

/-- Packs that are the same and can be opened have the same in reach. -/
theorem sameReach_of_opensAll {root other : Place} (hsame : SamePack root other)
    (hroot : OpensAll root) (hother : OpensAll other) : SameReach root other := by
  constructor
  case data =>
    intro hdata
    rw [hroot.data hdata, hother.data (hsame.data ▸ hdata)]
  case manifest =>
    intro hmanifest
    rw [hroot.manifest hmanifest, hother.manifest (hsame.manifest ▸ hmanifest)]
  case namespaces =>
    intro name hname
    have hname' := (hsame.names name).1 hname
    have hspace := hsame.namespaces name hname
    constructor
    case kinds =>
      intro k p l hlocates hfile
      rw [isInReach_kind_of_opensAll hroot hname hlocates hfile,
        isInReach_kind_of_opensAll hother hname' hlocates (hspace.located k p l hlocates ▸ hfile)]
    case directories =>
      exact fun k => iff_of_true ((hroot.namespaces name hname).directories k)
        ((hother.namespaces name hname').directories k)
    case scripts =>
      intro p l hlocates hfile
      rw [isInReach_script_of_opensAll hroot hname hlocates hfile,
        isInReach_script_of_opensAll hother hname' hlocates
          (hspace.located .function p l hlocates ▸ hfile)]

/-! ## Packs in a directory -/

/-- The tree has a pack in a directory, and files beside that, but none that is a manifest. -/
structure Wraps (u t : Tree) (dir : String) (beside : List (String × ByteArray)) : Prop where
  entries : u.entries.Perm (([dir], .directory) :: t.entries.map (fun e => (dir :: e.1, e.2)) ++
    beside.map fun f => ([f.1], .file f.2))
  directory : IsSegment dir
  files : ∀ f ∈ beside, IsSegment f.1 ∧ f.1 ≠ manifestName

section

variable {u t : Tree} {dir : String} {beside : List (String × ByteArray)} (h : Wraps u t dir beside)

include h

theorem mem_entries_of_wraps {p : Path} {n : Node} : (p, n) ∈ u.entries ↔
    (p = [dir] ∧ n = .directory) ∨ (∃ q, p = dir :: q ∧ (q, n) ∈ t.entries) ∨
      ∃ f ∈ beside, p = [f.1] ∧ n = .file f.2 := by
  rw [h.entries.mem_iff]
  simp only [List.cons_append, List.mem_cons, List.mem_append, List.mem_map, Prod.mk.injEq]
  refine or_congr_right (or_congr ?_ ?_)
  · constructor
    · rintro ⟨⟨q, m⟩, hmem, rfl, rfl⟩
      exact ⟨q, rfl, hmem⟩
    · rintro ⟨q, rfl, hmem⟩
      exact ⟨(q, n), hmem, rfl, rfl⟩
  · exact exists_congr fun f => and_congr_right fun _ => and_congr eq_comm eq_comm

theorem isNamed_of_wraps (hnames : t.IsNamed) : u.IsNamed := by
  rintro ⟨p, n⟩ hmem name hname
  rcases (mem_entries_of_wraps h).1 hmem with ⟨rfl, -⟩ | ⟨q, rfl, hq⟩ | ⟨f, hf, rfl, -⟩
  · rw [List.mem_singleton.1 hname]
    exact h.directory
  · rcases List.mem_cons.1 hname with rfl | hname
    · exact h.directory
    · exact hnames _ hq name hname
  · rw [List.mem_singleton.1 hname]
    exact (h.files f hf).1

/-- What stands in the directory stands in the pack. -/
theorem node?_of_wraps (p : Path) : u.node? (dir :: p) = t.node? p := by
  by_cases hp : p = []
  · rw [hp]
    exact (Tree.node?_eq_some (List.cons_ne_nil _ _)).2
      ((mem_entries_of_wraps h).2 (Or.inl ⟨rfl, rfl⟩))
  · refine Option.ext fun n => ?_
    rw [Tree.node?_eq_some (List.cons_ne_nil _ _), mem_entries_of_wraps h, Tree.node?_eq_some hp]
    simp [hp]

theorem isDirectory_of_wraps (p : Path) : u.isDirectory (dir :: p) = t.isDirectory p := by
  rw [Tree.isDirectory, Tree.isDirectory, node?_of_wraps h]

/-- At the top there are the directory and the files beside it. -/
theorem node?_top_of_wraps {name : String} {n : Node} : u.node? [name] = some n ↔
    (name = dir ∧ n = .directory) ∨ ∃ f ∈ beside, name = f.1 ∧ n = .file f.2 := by
  rw [Tree.node?_eq_some (List.cons_ne_nil _ _), mem_entries_of_wraps h]
  simp only [List.cons.injEq, and_true]
  refine or_congr_right (or_iff_right ?_)
  rintro ⟨q, ⟨-, rfl⟩, hmem⟩
  exact (t.closed _ hmem).1 rfl

theorem namesIn_top_of_wraps : (u.namesIn []).Perm (dir :: beside.map (·.1)) := by
  refine (h.entries.filterMap _).trans (List.Perm.of_eq ?_)
  rw [List.filterMap_append, List.filterMap_cons, List.filterMap_map, List.filterMap_map,
    List.filterMap_eq_nil_iff.2]
  · exact congrArg (dir :: ·) ((List.nil_append _).trans (congrFun List.filterMap_eq_map beside))
  · rintro ⟨p, n⟩ hmem
    -- nothing in the pack stands as high as that
    cases hp : p with
    | nil => exact absurd hp (t.closed _ hmem).1
    | cons name q => rfl

/-! ## The root of an archive -/

theorem isDirectory_top_of_wraps : u.isDirectory ["data"] = true ↔ dir = "data" := by
  rw [Tree.isDirectory_iff, node?_top_of_wraps h]
  simp [eq_comm]

theorem isFile_top_of_wraps : u.isFile [manifestName] = false := by
  rw [Bool.eq_false_iff, ne_eq, Tree.isFile_iff]
  rintro ⟨contents, hfile⟩
  have hnode := Tree.node?_eq_file.2 (Tree.file?_eq_some.1 hfile)
  rcases (node?_top_of_wraps h).1 hnode with ⟨-, hn⟩ | ⟨f, hf, hname, -⟩
  · cases hn
  · exact (h.files f hf).2 hname.symm

theorem looksLikePack_top_iff : looksLikePack ⟨u, [], unpackedName⟩ = true ↔ dir = "data" := by
  have hmanifest : (Place.below ⟨u, [], unpackedName⟩ manifestName).isFile = false :=
    (Bool.and_eq_false_iff).2 (Or.inr (isFile_top_of_wraps h))
  have hdata : (Place.below ⟨u, [], unpackedName⟩ "data").isInReach = true := by
    show Tree.isInReach (join unpackedName "data") = true
    decide
  rw [looksLikePack, hmanifest, Bool.or_false, Place.isDirectory, hdata, Bool.true_and]
  exact isDirectory_top_of_wraps h

end

section

variable {u t : Tree} {dir : String} {beside : List (String × ByteArray)} (h : Wraps u t dir beside)

include h

theorem path_root_of_wraps : (Place.below ⟨u, [], unpackedName⟩ dir).path = [dir] :=
  Place.path_below h.directory

variable {b : ByteArray} (hunpack : Archive.unpack? b = some u)

include hunpack

/-- All of the pack in an archive can be opened. -/
theorem isInReach_below_of_wraps {p : Path} {n : Node} (hn : t.node? p = some n) :
    ((Place.below ⟨u, [], unpackedName⟩ dir).along p).isInReach = true := by
  rw [← node?_of_wraps h] at hn
  exact Archive.isInReach_of_unpack? hunpack hn

theorem isDirectory_root_of_wraps : (Place.below ⟨u, [], unpackedName⟩ dir).isDirectory = true := by
  rw [Place.isDirectory, path_root_of_wraps h, Bool.and_eq_true]
  exact ⟨isInReach_below_of_wraps h hunpack (p := []) rfl, isDirectory_of_wraps h []⟩

theorem looksLikePack_root_of_wraps (hdata : t.isDirectory ["data"] = true) :
    looksLikePack (Place.below ⟨u, [], unpackedName⟩ dir) = true := by
  rw [looksLikePack, Bool.or_eq_true, Place.isDirectory, Bool.and_eq_true]
  refine Or.inl ⟨?_, ?_⟩
  · exact isInReach_below_of_wraps h hunpack (p := ["data"]) (Tree.isDirectory_iff.1 hdata)
  · have hpath : ((Place.below ⟨u, [], unpackedName⟩ dir).below "data").path = [dir, "data"] :=
      congrArg (· ++ ["data"]) (path_root_of_wraps h)
    rw [hpath]
    exact (isDirectory_of_wraps h ["data"]).trans hdata

/-- What is taken for the pack: the top if the directory is called as the data of a pack is, else
the directory if nothing stands beside it. -/
theorem packRoot?_of_wraps (hdata : t.isDirectory ["data"] = true) :
    packRoot? ⟨u, [], unpackedName⟩ =
      if dir = "data" then some ⟨u, [], unpackedName⟩
      else if beside = [] then some (Place.below ⟨u, [], unpackedName⟩ dir)
      else none := by
  have hnames := namesIn_top_of_wraps h
  unfold packRoot?
  by_cases hname : dir = "data"
  · rw [if_pos hname, if_pos ((looksLikePack_top_iff h).2 hname)]
  · rw [if_neg hname, if_neg fun htop => hname ((looksLikePack_top_iff h).1 htop)]
    cases beside with
    | nil =>
      have honly : u.namesIn [] = [dir] := List.perm_singleton.1 hnames
      simp only [honly, isDirectory_root_of_wraps h hunpack, looksLikePack_root_of_wraps h hunpack hdata]
      rfl
    | cons f fs =>
      split
      · rename_i only honly
        have hone : u.namesIn [] = [only] := honly
        have hlen := hnames.length_eq
        simp [hone] at hlen
      · rfl

end

/-! ## Reading -/

section

variable {u t : Tree} {dir : String} {beside : List (String × ByteArray)} (h : Wraps u t dir beside)
  {b : ByteArray} (hunpack : Archive.unpack? b = some u)

include h

theorem samePack_of_wraps (path : String) :
    SamePack (Place.below ⟨u, [], unpackedName⟩ dir) ⟨t, [], path⟩ := by
  refine samePack_of_node? fun p => ?_
  rw [path_root_of_wraps h]
  exact node?_of_wraps h p

/-- The top has no manifest, as none stands beside the directory. -/
theorem check_top_of_wraps (hname : dir = "data") (required : Bool) :
    Opened.check ⟨⟨u, [], unpackedName⟩, true, none⟩ required =
      if required then .error (.ofCause (.missingManifest unpackedName))
      else .ok ⟨⟨u, [], unpackedName⟩, true, none⟩ := by
  have hmanifest : (Place.below ⟨u, [], unpackedName⟩ manifestName).isFile = false :=
    Bool.and_eq_false_iff.2 (Or.inr (isFile_top_of_wraps h))
  have hdata : (Place.below ⟨u, [], unpackedName⟩ "data").isDirectory = true := by
    have hlooks := (looksLikePack_top_iff h).2 hname
    rwa [looksLikePack, hmanifest, Bool.or_false] at hlooks
  unfold Opened.check
  simp only [hdata, hmanifest]
  rfl

include hunpack

theorem opensAll_of_wraps (hnames : t.IsNamed) :
    OpensAll (Place.below ⟨u, [], unpackedName⟩ dir) := by
  refine opensAll_of_isInReach (isNamed_of_wraps h hnames) fun p _ n hn => ?_
  rw [path_root_of_wraps h] at hn
  exact isInReach_below_of_wraps h hunpack ((node?_of_wraps h p).symm.trans hn)

theorem hasNeeds_root_of_wraps (hnames : t.IsNamed) (hdata : t.isDirectory ["data"] = true)
    (hmanifest : t.isFile [manifestName] = true) (required : Bool) :
    HasNeeds (Place.below ⟨u, [], unpackedName⟩ dir) required := by
  have hopens := opensAll_of_wraps h hunpack hnames
  have hsame := samePack_of_wraps h ""
  exact ⟨(isDirectory_data_iff hopens).2 (hsame.data.trans hdata),
    fun _ => (isFile_manifest_iff hopens).2 (hsame.manifest.trans hmanifest)⟩

theorem resolve_of_wraps (hdata : t.isDirectory ["data"] = true) (a : String) :
    (Source.archive a).resolve (.file b) =
      if dir = "data" then .ok ⟨⟨u, [], unpackedName⟩, true, none⟩
      else if beside = [] then .ok ⟨Place.below ⟨u, [], unpackedName⟩ dir, true, none⟩
      else .error (.ofCause (.noPack a)) := by
  unfold Source.resolve
  simp only [hunpack, packRoot?_of_wraps h hunpack hdata]
  by_cases hname : dir = "data"
  · rw [if_pos hname, if_pos hname]
  · rw [if_neg hname, if_neg hname]
    by_cases hbeside : beside = []
    · rw [if_pos hbeside, if_pos hbeside]
    · rw [if_neg hbeside, if_neg hbeside]

/-- The directory is not looked at, as the top looks like a pack. -/
theorem open_of_wraps_data (hdata : t.isDirectory ["data"] = true) (a : String) (hname : dir = "data")
    (required : Bool) : (Source.archive a).open (.file b) required =
      if required then .error (.ofCause (.missingManifest unpackedName))
      else .ok ⟨⟨u, [], unpackedName⟩, true, none⟩ := by
  have hopen : (Source.archive a).open (.file b) required =
      (Source.archive a).resolve (.file b) >>= fun o => o.check required := rfl
  rw [hopen, resolve_of_wraps h hunpack hdata, if_pos hname]
  exact check_top_of_wraps h hname required

theorem open_of_wraps_beside (hdata : t.isDirectory ["data"] = true) (a : String)
    (hname : dir ≠ "data") (hbeside : beside ≠ []) (required : Bool) :
    (Source.archive a).open (.file b) required = .error (.ofCause (.noPack a)) := by
  have hopen : (Source.archive a).open (.file b) required =
      (Source.archive a).resolve (.file b) >>= fun o => o.check required := rfl
  rw [hopen, resolve_of_wraps h hunpack hdata, if_neg hname, if_neg hbeside]
  rfl

theorem open_of_wraps (hdata : t.isDirectory ["data"] = true) (a : String) (hname : dir ≠ "data")
    (hbeside : beside = []) (required : Bool) : (Source.archive a).open (.file b) required =
      Opened.check ⟨Place.below ⟨u, [], unpackedName⟩ dir, true, none⟩ required := by
  have hopen : (Source.archive a).open (.file b) required =
      (Source.archive a).resolve (.file b) >>= fun o => o.check required := rfl
  rw [hopen, resolve_of_wraps h hunpack hdata, if_neg hname, if_pos hbeside]
  rfl

/-- Out of the archive comes the same as out of the pack. -/
theorem outcome_readSource_of_wraps {path : String} (hnames : t.IsNamed)
    (hdata : t.isDirectory ["data"] = true) (hopens : OpensAll ⟨t, [], path⟩) (a : String)
    (s : Settings) (hname : dir ≠ "data") (hbeside : beside = []) :
    outcome (readSource (.archive a) (.file b) s) =
      outcome (readSource (.directory path) (.directory t) s) := by
  have hsame := samePack_of_wraps h path
  have hreach := sameReach_of_opensAll hsame (opensAll_of_wraps h hunpack hnames) hopens
  have hread : readSource (.archive a) (.file b) s =
      (Source.archive a).open (.file b) s.manifestRequired >>=
        fun o => (readDatapack o.root).mapError (.within (.datapack a)) := rfl
  have hread' : readSource (.directory path) (.directory t) s =
      Opened.check ⟨⟨t, [], path⟩, false, none⟩ s.manifestRequired >>=
        fun o => (readDatapack o.root).mapError (.within (.datapack path)) := rfl
  rw [hread, hread', open_of_wraps h hunpack hdata a hname hbeside]
  refine outcome_check hsame hreach s.manifestRequired
    (f := fun root => (readDatapack root).mapError (.within (.datapack a)))
    (g := fun root => (readDatapack root).mapError (.within (.datapack path))) ?_
  rw [outcome_within, outcome_within]
  exact outcome_readDatapack (isNamed_of_wraps h hnames) hnames hsame hreach

end

/-- What an archive comes to that has a pack in a directory. -/
structure ReadsWrapped (a : String) (b : ByteArray) (s : Settings) (u t : Tree) (path dir : String)
    (beside : List (String × ByteArray)) : Prop where
  opened : (∃ o, (Source.archive a).open (.file b) s.manifestRequired = .ok o ∧
      o.root = Place.below ⟨u, [], unpackedName⟩ dir) ↔ dir ≠ "data" ∧ beside = []
  read : dir ≠ "data" → beside = [] → outcome (readSource (.archive a) (.file b) s) =
    outcome (readSource (.directory path) (.directory t) s)
  top : dir = "data" → (Source.archive a).open (.file b) s.manifestRequired =
    if s.manifestRequired then .error (.ofCause (.missingManifest unpackedName))
    else .ok ⟨⟨u, [], unpackedName⟩, true, none⟩
  hidden : dir ≠ "data" → beside ≠ [] → (Source.archive a).open (.file b) s.manifestRequired =
    .error (.ofCause (.noPack a))

/-- A pack in a directory of an archive is read as it is outside of the archive exactly if nothing
stands beside the directory and it is not called as the one with the data of a pack is. -/
theorem wrapped_pack_read_iff {u t : Tree} {path dir : String} {beside : List (String × ByteArray)}
    {b : ByteArray} (a : String) (s : Settings) (hnames : t.IsNamed)
    (hdata : t.isDirectory ["data"] = true) (hmanifest : t.isFile [manifestName] = true)
    (hopens : OpensAll ⟨t, [], path⟩) (h : Wraps u t dir beside)
    (hunpack : Archive.unpack? b = some u) : ReadsWrapped a b s u t path dir beside := by
  have hopen := fun hname hbeside =>
    open_of_wraps h hunpack hdata a hname hbeside s.manifestRequired
  have htop := fun hname => open_of_wraps_data h hunpack hdata a hname s.manifestRequired
  have hhidden := fun hname hbeside =>
    open_of_wraps_beside h hunpack hdata a hname hbeside s.manifestRequired
  refine ⟨⟨fun ⟨o, ho, hroot⟩ => ?_, fun ⟨hname, hbeside⟩ => ?_⟩,
    outcome_readSource_of_wraps h hunpack hnames hdata hopens a s, htop, hhidden⟩
  · have hname : dir ≠ "data" := by
      intro hname
      rw [htop hname] at ho
      split at ho
      · cases ho
      · obtain rfl := Except.ok.inj ho
        have hpath := congrArg Place.path hroot
        rw [path_root_of_wraps h] at hpath
        cases hpath
    refine ⟨hname, ?_⟩
    by_contra hbeside
    rw [hhidden hname hbeside] at ho
    cases ho
  · obtain ⟨m, hm⟩ := check_of_hasNeeds
      (o := ⟨Place.below ⟨u, [], unpackedName⟩ dir, true, none⟩)
      (hasNeeds_root_of_wraps h hunpack hnames hdata hmanifest s.manifestRequired)
    exact ⟨_, (hopen hname hbeside).trans hm, rfl⟩

theorem a_pack_in_a_directory_is_read :
    let t : Tree := ⟨[(["pack.mcmeta"], .file .empty), (["data"], .directory),
      (["data", "p"], .directory), (["data", "p", "function"], .directory),
      (["data", "p", "function", "tick.mcfunction"], .file .empty)], by decide, by decide⟩
    let b := Archive.write .stored [⟨"pack/pack.mcmeta", .empty⟩,
      ⟨"pack/data/p/function/tick.mcfunction", .empty⟩]
    let s : Settings := .forPackage "generated"
    (t.IsNamed ∧ t.isDirectory ["data"] = true ∧ t.isFile [manifestName] = true ∧
        OpensAll ⟨t, [], "pack"⟩) ∧
      ∃ u, Archive.unpack? b = some u ∧ Wraps u t "pack" [] ∧
        outcome (readSource (.archive "a.zip") (.file b) s) =
          outcome (readSource (.directory "pack") (.directory t) s) := by
  intro t b s
  have hnames : t.IsNamed := by
    unfold Tree.IsNamed IsSegment
    decide
  have hopens : OpensAll ⟨t, [], "pack"⟩ := opensAll_of_wayLength hnames (by decide)
  have hdata : t.isDirectory ["data"] = true := by decide
  have hmanifest : t.isFile [manifestName] = true := by decide
  have hmap : (Archive.unpack? b).map (·.entries) =
      some ((["pack"], .directory) :: t.entries.map fun e => ("pack" :: e.1, e.2)) := by decide +kernel
  obtain ⟨u, hunpack, hentries⟩ := Option.map_eq_some_iff.1 hmap
  have hwraps : Wraps u t "pack" [] := by
    refine ⟨List.Perm.of_eq ?_, ⟨by decide, by decide⟩, nofun⟩
    rw [hentries, List.map_nil, List.append_nil]
  have hread := wrapped_pack_read_iff "a.zip" s hnames hdata hmanifest hopens hwraps hunpack
  exact ⟨⟨hnames, hdata, hmanifest, hopens⟩, u, hunpack, hwraps, hread.read (by decide) rfl⟩

/-- A file beside the directory hides the pack in it. -/
theorem a_file_beside_hides_the_pack :
    let t : Tree := ⟨[(["pack.mcmeta"], .file .empty), (["data"], .directory)], by decide, by decide⟩
    let b := Archive.write .stored [⟨"pack/pack.mcmeta", .empty⟩, ⟨"pack/data/", .empty⟩,
      ⟨"README.md", .empty⟩]
    let s : Settings := .forPackage "generated"
    t.IsNamed ∧ OpensAll ⟨t, [], "pack"⟩ ∧
      (∃ u, Archive.unpack? b = some u ∧ Wraps u t "pack" [("README.md", .empty)]) ∧
      (∃ d, readSource (.directory "pack") (.directory t) s = .ok d) ∧
      readSource (.archive "a.zip") (.file b) s = .error (.ofCause (.noPack "a.zip")) := by
  intro t b s
  have hnames : t.IsNamed := by
    unfold Tree.IsNamed IsSegment
    decide
  have hopens : OpensAll ⟨t, [], "pack"⟩ := opensAll_of_wayLength hnames (by decide)
  have hmap : (Archive.unpack? b).map (·.entries) =
      some ((["pack"], .directory) :: t.entries.map (fun e => ("pack" :: e.1, e.2)) ++
        [(["README.md"], .file .empty)]) := by decide +kernel
  obtain ⟨u, hunpack, hentries⟩ := Option.map_eq_some_iff.1 hmap
  have hwraps : Wraps u t "pack" [("README.md", .empty)] := by
    refine ⟨List.Perm.of_eq hentries, ⟨by decide, by decide⟩, ?_⟩
    unfold IsSegment
    decide
  have hwhole : ¬HasBrokenScript t := by
    rintro ⟨p, contents, ⟨space, dir, name, rfl, -⟩, hfile, -⟩
    have hmem := Tree.file?_eq_some.1 hfile
    simp [t] at hmem
  have hread : ∃ d, readSource (.directory "pack") (.directory t) s = .ok d := by
    rw [readSource_of_hasEnough hopens ⟨by decide, fun _ => by decide⟩, exists_mapError_iff]
    exact (exists_readDatapack_iff_of_opensAll hnames hopens (by decide)).2 hwhole
  refine ⟨hnames, hopens, ⟨u, hunpack, hwraps⟩, hread, ?_⟩
  have hopen := open_of_wraps_beside hwraps hunpack (by decide) "a.zip" (by decide) (by decide)
    s.manifestRequired
  show ((Source.archive "a.zip").open (.file b) s.manifestRequired >>= fun o =>
    (readDatapack o.root).mapError (.within (.datapack "a.zip"))) = _
  rw [hopen]
  rfl

end PackBindings.Pack
