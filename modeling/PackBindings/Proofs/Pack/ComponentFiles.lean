/-
  PackBindings.Proofs.Pack.ComponentFiles — which files are components, and of which kind.

  A file of a namespace is a component of a kind if it stands at any depth below the
  directory of the kind and its name is a stem that is not empty, a dot and the extension
  of the kind (`Locates`). Directories of kinds do not lie in one another, so no file is a
  component of two kinds.

  Proved, for every tree and all names:
  - `stemAndExtension?_eq_some_iff`: how a name is cut at its last dot.
  - `componentFile?_eq_some_iff`: which files count, and their locations.
  - `isDirectory_of_append`: what stands below a path stands in a directory.
  - `eq_of_locates`: a path has one kind and one location.
  - `hasFile_iff`: the files that are found are those that stand there.
-/

import Mathlib.Data.List.Induction
import Mathlib.Data.List.Infix
import PackBindings.Proofs.Pack.Listings

namespace PackBindings.Files

/-- An extension without a dot is cut off at the dot before it. -/
theorem stemAndExtension?_append {stem extension : List Char} (hne : extension ≠ [])
    (hdot : '.' ∉ extension) : stemAndExtension? (stem ++ '.' :: extension) =
      if stem = [] then none else some (stem, extension) := by
  have hdots : stem ++ '.' :: extension ≠ ['.', '.'] := by
    intro h
    have hpos := List.length_pos_of_ne_nil hne
    have hlen := congrArg List.length h
    rw [List.length_append, List.length_cons] at hlen
    have hstem : stem = [] := List.length_eq_zero_iff.1 (by simp at hlen; omega)
    have hextension : extension = ['.'] := by simpa [hstem] using h
    exact hdot (by simp [hextension])
  have hcut : (stem ++ '.' :: extension).splitOn '.' = stem.splitOn '.' ++ [extension] := by
    rw [List.splitOn_append_cons_self, List.splitOn_eq_singleton hdot]
  have hstem : ['.'].intercalate (stem.splitOn '.') = stem := List.intercalate_splitOn '.'
  unfold stemAndExtension?
  rw [if_neg hdots, hcut, List.dropLast_concat, List.getLast?_concat]
  cases hparts : stem.splitOn '.' with
  | nil => exact absurd hparts (List.splitOn_ne_nil _ _)
  | cons part parts =>
    rw [hparts] at hstem
    cases parts with
    | nil =>
      rw [List.intercalate_singleton] at hstem
      cases part with
      | nil => simp [← hstem]
      | cons c part => simp [← hstem]
    | cons next parts =>
      have hlong : stem ≠ [] := by
        rintro rfl
        simp at hparts
      rw [if_neg hlong, ← hstem]
      cases part with
      | nil => rfl
      | cons c part => rfl

theorem stemAndExtension?_eq_some_iff {name stem extension : List Char} (hne : extension ≠ [])
    (hdot : '.' ∉ extension) : stemAndExtension? name = some (stem, extension) ↔
      stem ≠ [] ∧ name = stem ++ '.' :: extension := by
  constructor
  · intro h
    have hname := eq_of_stemAndExtension? h
    rw [← hname, stemAndExtension?_append hne hdot, Option.ite_none_left_eq_some] at h
    exact ⟨h.1, hname.symm⟩
  · rintro ⟨hstem, rfl⟩
    rw [stemAndExtension?_append hne hdot, if_neg hstem]

/-- What stands below a path stands in a directory. -/
theorem Tree.isDirectory_of_append {t : Tree} {p q : Path} {n : Node} (hq : q ≠ [])
    (h : t.node? (p ++ q) = some n) : t.isDirectory p = true := by
  rw [Tree.isDirectory_iff]
  induction q using List.reverseRecOn generalizing n with
  | nil => exact absurd rfl hq
  | append_singleton q name ih =>
    have hdir : t.node? (p ++ q) = some .directory := by
      have hne : p ++ (q ++ [name]) ≠ [] := by simp
      have hclosed := (t.closed _ ((Tree.node?_eq_some hne).1 h)).2
      rw [← List.append_assoc, List.dropLast_concat] at hclosed
      by_cases hnil : p ++ q = []
      · rw [hnil]
        rfl
      · exact (Tree.node?_eq_some hnil).2 (hclosed hnil)
    by_cases hnil : q = []
    · rwa [hnil, List.append_nil] at hdir
    · exact ih hnil hdir

end PackBindings.Files

namespace PackBindings

open PackBindings.Files

/-! ## Paths of components -/

/-- The directory of a kind, from its namespace. -/
def Kind.path (k : Kind) : Path := (k.directory.toList.splitOn '/').map String.ofList

/-- The path of a component of the kind at the location, from its namespace. -/
def Locates (k : Kind) (p : Path) (l : Location) : Prop :=
  ∃ dir stem, stem ≠ "" ∧ p = k.path ++ (dir ++ [stem ++ "." ++ k.extension]) ∧
    l = ⟨"/".intercalate dir, stem⟩

/-- The directories around the directories of kinds; none of them is one itself. -/
def outerDirectories : List (List (List Char)) :=
  [["tags".toList], ["worldgen".toList], ["tags".toList, "worldgen".toList]]

theorem Kind.directory_spec (k : Kind) : ∃ cs, k.directory = String.ofList cs ∧
    cs.splitOn '/' ∉ outerDirectories ∧ (cs.splitOn '/').dropLast ∈ [] :: outerDirectories := by
  cases k <;> exact ⟨_, rfl, by decide⟩

theorem Kind.nodup_directories : (Kind.all.map Kind.directory).Nodup := by decide +kernel

theorem mem_outerDirectories_of_prefix : ∀ p ∈ [] :: outerDirectories, ∀ q ∈ p.inits,
    q = [] ∨ q ∈ outerDirectories := by decide

/-- The directory of a kind does not lie in that of another. -/
theorem Kind.eq_of_path_prefix {k j : Kind} (h : k.path <+: j.path) : k = j := by
  obtain ⟨cs, hk, hnot, -⟩ := k.directory_spec
  obtain ⟨ds, hj, -, hout⟩ := j.directory_spec
  have hsplit : cs.splitOn '/' <+: ds.splitOn '/' := by
    have hmap := h.map String.toList
    simpa [Kind.path, hk, hj, Function.comp_def] using hmap
  rw [← List.dropLast_concat_getLast (List.splitOn_ne_nil '/' ds), List.prefix_concat_iff,
    List.dropLast_concat_getLast] at hsplit
  rcases hsplit with hsame | houter
  · have hchars := congrArg (['/'].intercalate ·) hsame
    simp only [List.intercalate_splitOn] at hchars
    exact List.inj_on_of_nodup_map nodup_directories (Kind.mem_all k) (Kind.mem_all j)
      (by rw [hk, hj, hchars])
  · rcases mem_outerDirectories_of_prefix _ hout _ ((List.mem_inits _ _).2 houter) with hnil | hmem
    · exact absurd hnil (List.splitOn_ne_nil '/' cs)
    · exact absurd hmem hnot

theorem Kind.extension_spec (k : Kind) : k.extension.toList ≠ [] ∧ '.' ∉ k.extension.toList := by
  cases k <;> decide

/-- A path has one kind and one location. -/
theorem eq_of_locates {k j : Kind} {p : Path} {l m : Location} (hk : Locates k p l)
    (hj : Locates j p m) : k = j ∧ l = m := by
  obtain ⟨dir, stem, -, rfl, rfl⟩ := hk
  obtain ⟨dir', stem', -, he, rfl⟩ := hj
  have hsame : k = j := by
    rcases List.prefix_or_prefix_of_prefix (List.prefix_append k.path _)
      (he ▸ List.prefix_append j.path _) with h | h
    · exact Kind.eq_of_path_prefix h
    · exact (Kind.eq_of_path_prefix h).symm
  subst hsame
  obtain ⟨rfl, hname⟩ := List.append_inj' (List.append_cancel_left he) rfl
  have hstem : stem = stem' := by
    simpa using (List.cons.inj hname).1
  rw [hstem]
  exact ⟨rfl, rfl⟩

end PackBindings

namespace PackBindings.Pack

open PackBindings.Files

theorem componentFile?_eq_some_iff {k : Kind} {p : Path} {contents : ByteArray} {f : ComponentFile} :
    componentFile? k p contents = some f ↔ ∃ dir stem, stem ≠ "" ∧
      p = dir ++ [stem ++ "." ++ k.extension] ∧ f = ⟨⟨"/".intercalate dir, stem⟩, p, contents⟩ := by
  obtain ⟨hne, hdot⟩ := k.extension_spec
  unfold componentFile?
  rw [Option.bind_eq_some_iff]
  constructor
  · intro ⟨name, hlast, h⟩
    obtain ⟨hextension, h⟩ := Option.ite_none_right_eq_some.1 h
    obtain ⟨dir, rfl⟩ := List.getLast?_eq_some_iff.1 hlast
    obtain ⟨⟨first, last⟩, hcut, rfl⟩ := Option.map_eq_some_iff.1 hextension
    obtain ⟨hfirst, hname⟩ := (stemAndExtension?_eq_some_iff hne hdot).1 hcut
    have hstem : stem name.toList = first := by
      rw [stem, hcut]
      rfl
    refine ⟨dir, String.ofList first, by simpa using hfirst, ?_, ?_⟩
    · have htext : name = String.ofList first ++ "." ++ k.extension := by
        rw [← String.toList_inj, hname]
        simp
      rw [htext]
    · rw [← Option.some.inj h, hstem, List.dropLast_concat]
  · rintro ⟨dir, stem, hstem, rfl, rfl⟩
    have hcut : stemAndExtension? (stem ++ "." ++ k.extension).toList =
        some (stem.toList, k.extension.toList) :=
      (stemAndExtension?_eq_some_iff hne hdot).2 ⟨by simpa using hstem, by simp⟩
    refine ⟨stem ++ "." ++ k.extension, List.getLast?_concat, ?_⟩
    rw [extension?, Files.stem, hcut]
    simp

/-! ## Files of a namespace -/

/-- A file of the namespace is a component of the kind, and the directory of the kind is in reach. -/
structure HasFile (here : Place) (p : Path) (contents : ByteArray) (k : Kind) (l : Location) :
    Prop where
  stands : here.tree.file? (here.path ++ p) = some contents
  inReach : (here.below k.directory).isInReach = true
  locates : Locates k p l

/-- The component files of a kind, where its directory can be opened. -/
def foundFiles (here : Place) (k : Kind) : List ComponentFile :=
  if (here.below k.directory).isDirectory then componentFiles k (here.below k.directory) else []

theorem path_below_kind (here : Place) (k : Kind) :
    (here.below k.directory).path = here.path ++ k.path := rfl

/-- A file below the directory of a kind makes that a directory. -/
theorem isDirectory_of_hasFile {here : Place} {p : Path} {contents : ByteArray} {k : Kind}
    {l : Location} (h : HasFile here p contents k l) : (here.below k.directory).isDirectory = true := by
  obtain ⟨dir, stem, -, rfl, -⟩ := h.locates
  have hnode := Tree.node?_eq_file.2 (Tree.file?_eq_some.1 h.stands)
  rw [← List.append_assoc] at hnode
  have hdir := Tree.isDirectory_of_append (by simp) hnode
  rw [Place.isDirectory, h.inReach, path_below_kind]
  exact hdir

theorem mem_componentFiles {k : Kind} {dir : Place} {f : ComponentFile} :
    f ∈ componentFiles k dir ↔ dir.tree.file? (dir.path ++ f.path) = some f.contents ∧
      ∃ above stem, stem ≠ "" ∧ f.path = above ++ [stem ++ "." ++ k.extension] ∧
        f.location = ⟨"/".intercalate above, stem⟩ := by
  rw [componentFiles, List.mem_mergeSort, List.mem_filterMap]
  constructor
  · intro ⟨(p, contents), hmem, hf⟩
    obtain ⟨above, stem, hstem, hp, rfl⟩ := componentFile?_eq_some_iff.1 hf
    exact ⟨Tree.mem_filesBelow.1 hmem, above, stem, hstem, hp, rfl⟩
  · intro ⟨hfile, above, stem, hstem, hp, hlocation⟩
    refine ⟨(f.path, f.contents), Tree.mem_filesBelow.2 hfile,
      componentFile?_eq_some_iff.2 ⟨above, stem, hstem, hp, ?_⟩⟩
    rw [← hlocation]

/-- What is found of a kind is what stands there. -/
theorem hasFile_iff {here : Place} {p : Path} {contents : ByteArray} {k : Kind} {l : Location} :
    HasFile here p contents k l ↔
      ∃ f ∈ foundFiles here k, p = k.path ++ f.path ∧ f.contents = contents ∧ f.location = l := by
  constructor
  · intro h
    obtain ⟨above, stem, hstem, rfl, rfl⟩ := h.locates
    refine ⟨⟨_, _, contents⟩, ?_, rfl, rfl, rfl⟩
    rw [foundFiles, if_pos (isDirectory_of_hasFile h)]
    refine mem_componentFiles.2 ⟨?_, above, stem, hstem, rfl, rfl⟩
    rw [path_below_kind, List.append_assoc]
    exact h.stands
  · rintro ⟨f, hf, rfl, rfl, rfl⟩
    obtain ⟨hdir, hf⟩ := List.mem_ite_nil_right.1 hf
    obtain ⟨hfile, above, stem, hstem, hp, hlocation⟩ := mem_componentFiles.1 hf
    rw [path_below_kind, List.append_assoc] at hfile
    exact ⟨hfile, ((Bool.and_eq_true _ _).mp hdir).1, above, stem, hstem, by rw [hp], hlocation⟩

theorem nodup_full_componentFiles (k : Kind) {dir : Place} (hnames : dir.tree.IsNamed) :
    ((componentFiles k dir).map fun f => f.location.full).Nodup :=
  ((List.mergeSort_perm _ _).map _).nodup_iff.2 (nodup_full_filesBelow k hnames)

/-- The files of a kind come in the order of their locations, each location once. -/
theorem pairwise_foundFiles {here : Place} (hnames : here.tree.IsNamed) (k : Kind) :
    (foundFiles here k).Pairwise fun f g => f.location.full < g.location.full := by
  rw [foundFiles]
  split
  · have hin : (here.below k.directory).tree.IsNamed := hnames
    exact pairwise_lt_of_nodup (pairwise_mergeSort_key _ _) (nodup_full_componentFiles k hin)
  · exact List.Pairwise.nil

end PackBindings.Pack
