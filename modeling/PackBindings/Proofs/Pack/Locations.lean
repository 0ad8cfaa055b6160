/-
  PackBindings.Proofs.Pack.Locations — a location is read back from its full form.

  The full form puts a slash between directory and file name, and none where there is no
  directory. It is read back by its last slash; the directories above a file are told by all
  slashes, and what would be empty between two of them is left out. These agree where no
  directory is empty and neither a directory nor the file name has a slash in it (`IsProper`),
  and so it is for all files that are listed.

  Proved:
  - `full_eq_intercalate`: the full form is the directories and the file name with slashes
    between them.
  - `ofFull_full` / `eq_of_full`: it is read back, so it is that of one location only.
  - `isProper_of_mem_componentFiles`: the files below the directory of a kind have such
    locations, for every tree.
  - `locations_read_back`: so the files of a kind are in order of a key that tells them apart.
-/

import PackBindings.Proofs.Pack.ComponentFiles

namespace PackBindings

theorem intercalate_concat_slash (segments : List String) (last : String) :
    "/".intercalate (segments ++ [last]) = directoryText segments ++ last := by
  by_cases hnil : segments = []
  · simp [hnil, directoryText_nil]
  · rw [String.intercalate_append_of_ne_nil hnil (List.cons_ne_nil _ _),
      intercalate_append_slash hnil, String.intercalate_singleton]

namespace Location

/-- Segments that are not empty make up the directory, and no slash is in them or the file name. -/
structure IsProper (l : Location) : Prop where
  directory : IsDirectoryPath l.directory
  stem : '/' ∉ l.stem.toList

theorem full_eq_intercalate {l : Location} (h : IsDirectoryPath l.directory) :
    l.full = "/".intercalate (l.segments ++ [l.stem]) := by
  rw [intercalate_concat_slash, directoryText_segments h]

/-- Cut at every slash, the full form falls into the directories and the file name. -/
theorem splitOn_full {l : Location} (h : l.IsProper) :
    l.full.toList.splitOn '/' = (l.segments ++ [l.stem]).map String.toList := by
  obtain ⟨segments, hs, hdir⟩ := h.directory
  rw [full_eq_intercalate h.directory, segments_of_directory hs hdir]
  refine splitOn_toList_intercalate rfl (by simp) fun part hpart => ?_
  rcases List.mem_append.1 hpart with hsegment | hlast
  · exact (hs part hsegment).2
  · rw [List.mem_singleton.1 hlast]
    exact h.stem

theorem ofFull_full {l : Location} (h : l.IsProper) : ofFull l.full = l := by
  obtain ⟨segments, hs, hdir⟩ := h.directory
  have hjoined : String.ofList (['/'].intercalate (segments.map String.toList)) = l.directory := by
    rw [hdir, ← String.toList_inj, String.toList_ofList, String.toList_intercalate]
    rfl
  rw [ofFull, splitOn_full h, segments_of_directory hs hdir, ofSegments, List.map_append,
    List.map_singleton, List.dropLast_concat, hjoined]
  simp

theorem eq_of_full {l m : Location} (hl : l.IsProper) (hm : m.IsProper) (h : l.full = m.full) :
    l = m := by
  rw [← ofFull_full hl, h, ofFull_full hm]

end Location

end PackBindings

namespace PackBindings.Pack

open PackBindings.Files

theorem isProper_of_mem_componentFiles {k : Kind} {dir : Place} (hnames : dir.tree.IsNamed)
    {f : ComponentFile} (hf : f ∈ componentFiles k dir) : f.location.IsProper := by
  obtain ⟨hfile, above, stem, -, hpath, hlocation⟩ := mem_componentFiles.1 hf
  have hsegments : ∀ name ∈ above ++ [stem ++ "." ++ k.extension], IsSegment name := by
    intro name hname
    refine hnames _ (Tree.file?_eq_some.1 hfile) name ?_
    rw [hpath]
    exact List.mem_append_right _ hname
  rw [hlocation]
  constructor
  · exact ⟨above, fun name hname => hsegments name (List.mem_append_left _ hname), rfl⟩
  · intro hslash
    refine (hsegments _ (List.mem_append_right _ (List.mem_singleton_self _))).2 ?_
    simp [hslash]

/-- A location is read back from its full form, and its directories from its directory; so no two
locations have the same full form, and no two files of a kind that are listed. -/
theorem locations_read_back {l : Location} {segments : List String}
    (hs : ∀ segment ∈ segments, IsSegment segment)
    (hdirectory : l.directory = "/".intercalate segments) (hstem : '/' ∉ l.stem.toList) :
    Location.ofFull l.full = l ∧ l.segments = segments ∧
      l.full = "/".intercalate (l.segments ++ [l.stem]) ∧
      (∀ m : Location, m.IsProper → m.full = l.full → m = l) ∧
      ∀ (k : Kind) (dir : Place), dir.tree.IsNamed →
        (∀ f ∈ componentFiles k dir, f.location.IsProper) ∧
          ((componentFiles k dir).map fun f => f.location.full).Nodup := by
  have hpath : IsDirectoryPath l.directory := ⟨segments, hs, hdirectory⟩
  have hproper : l.IsProper := ⟨hpath, hstem⟩
  refine ⟨Location.ofFull_full hproper, Location.segments_of_directory hs hdirectory,
    Location.full_eq_intercalate hpath, fun m hm h => Location.eq_of_full hm hproper h,
    fun k dir hnames => ⟨fun f hf => isProper_of_mem_componentFiles hnames hf,
      nodup_full_componentFiles k hnames⟩⟩

theorem a_nested_location_read_back :
    let l : Location := ⟨"story/sub", "root"⟩
    let dir : Place := ⟨⟨[(["sub"], .directory), (["root.json"], .file .empty),
      (["sub", "root.json"], .file .empty)], by decide, by decide⟩, [], "advancement"⟩
    ((∀ segment ∈ ["story", "sub"], IsSegment segment) ∧
      l.directory = "/".intercalate ["story", "sub"] ∧ '/' ∉ l.stem.toList ∧ dir.tree.IsNamed) ∧
      Location.ofFull "story/sub/root" = l ∧ l.segments = ["story", "sub"] ∧
      ((componentFiles .advancement dir).map fun f => f.location.full).Nodup := by
  intro l dir
  have hs : ∀ segment ∈ ["story", "sub"], IsSegment segment := by
    unfold IsSegment
    decide
  have hdirectory : l.directory = "/".intercalate ["story", "sub"] := by decide
  have hstem : '/' ∉ l.stem.toList := by decide
  have hnames : dir.tree.IsNamed := by
    unfold Tree.IsNamed IsSegment
    decide
  have hfull : l.full = "story/sub/root" := by decide
  obtain ⟨hread, hsegments, -, -, hlisted⟩ := locations_read_back hs hdirectory hstem
  exact ⟨⟨hs, hdirectory, hstem, hnames⟩, hfull ▸ hread, hsegments,
    (hlisted .advancement dir hnames).2⟩

end PackBindings.Pack
