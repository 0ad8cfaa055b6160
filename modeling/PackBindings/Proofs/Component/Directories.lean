/-
  PackBindings.Proofs.Component.Directories — the directories of a location, and the
  components of a namespace.

  Proved:
  - `segments_of_directory`: a directory written as segments between slashes has these
    segments, for all segments that are not empty and hold no slash.
  - `directoryText_segments`: the path down to such a directory and then the file name
    spell the full location.
  - `mem_full_iff`: of which characters a location is made.
  - `inOrder_perm`: taking components kind by kind loses none and takes none twice.
-/

import Mathlib.Data.List.Nodup
import PackBindings.Namespace
import PackBindings.Proofs.Lists

namespace PackBindings

/-! ## Directories -/

/-- A name between two slashes. -/
def IsSegment (segment : String) : Prop := segment ≠ "" ∧ '/' ∉ segment.toList

/-- Segments with slashes between them, none of them empty. -/
def IsDirectoryPath (directory : String) : Prop :=
  ∃ segments, (∀ segment ∈ segments, IsSegment segment) ∧ directory = "/".intercalate segments

/-- The path down to a directory; every segment is followed by a slash. -/
def directoryText (segments : List String) : String := String.join (segments.map (· ++ "/"))

theorem directoryText_nil : directoryText [] = "" := rfl

theorem directoryText_concat (dir : List String) (segment : String) :
    directoryText (dir ++ [segment]) = directoryText dir ++ (segment ++ "/") := by
  simp [directoryText]

theorem directoryText_cons (segment : String) (dir : List String) :
    directoryText (segment :: dir) = segment ++ "/" ++ directoryText dir := by
  simp [directoryText]

theorem intercalate_append_slash {segments : List String} (h : segments ≠ []) :
    "/".intercalate segments ++ "/" = directoryText segments := by
  induction segments with
  | nil => exact absurd rfl h
  | cons segment rest ih =>
    cases rest with
    | nil => simp [directoryText]
    | cons next rest =>
      rw [String.intercalate_cons_cons, directoryText_cons, ← ih (by simp)]
      simp [String.append_assoc]

namespace Location

theorem segments_of_directory {l : Location} {segments : List String}
    (hs : ∀ segment ∈ segments, IsSegment segment) (h : l.directory = "/".intercalate segments) :
    l.segments = segments := by
  rw [Location.segments, h]
  cases segments with
  | nil => rfl
  | cons first rest =>
    have hsplit : ("/".intercalate (first :: rest)).toList.splitOn '/' =
        (first :: rest).map String.toList :=
      splitOn_toList_intercalate rfl (List.cons_ne_nil first rest) fun segment hmem =>
        (hs segment hmem).2
    have hall : ((first :: rest).map String.toList).filter (· ≠ []) =
        (first :: rest).map String.toList := by
      refine List.filter_eq_self.2 fun cs hcs => ?_
      obtain ⟨segment, hmem, rfl⟩ := List.mem_map.1 hcs
      simpa using (hs segment hmem).1
    rw [hsplit, hall, List.map_map]
    simp

theorem directoryText_segments {l : Location} (h : IsDirectoryPath l.directory) :
    directoryText l.segments ++ l.stem = l.full := by
  obtain ⟨segments, hs, hdir⟩ := h
  rw [segments_of_directory hs hdir, Location.full]
  by_cases hnil : segments = []
  · rw [hdir, hnil, directoryText_nil, String.empty_append]
    rfl
  · have hne : l.directory ≠ "" := by
      intro he
      have hnone : l.segments = [] := by
        rw [Location.segments, he]
        rfl
      exact hnil (segments_of_directory hs hdir ▸ hnone)
    rw [if_neg hne, hdir, ← intercalate_append_slash hnil]

/-- Each character of a location but the slashes stands in its file name or in a directory. -/
theorem mem_full_iff {l : Location} {c : Char} (h : c ≠ '/') :
    c ∈ l.full.toList ↔ c ∈ l.stem.toList ∨ ∃ segment ∈ l.segments, c ∈ segment.toList := by
  have hdirectory : c ∈ l.directory.toList ↔ ∃ segment ∈ l.segments, c ∈ segment.toList := by
    rw [mem_iff_splitOn h]
    constructor
    · intro ⟨part, hpart, hc⟩
      have hne : part ≠ [] := List.ne_nil_of_mem hc
      exact ⟨_, List.mem_map_of_mem (List.mem_filter.2 ⟨hpart, by simpa using hne⟩), by simpa using hc⟩
    · intro ⟨segment, hsegment, hc⟩
      obtain ⟨part, hpart, rfl⟩ := List.mem_map.1 hsegment
      exact ⟨part, List.mem_of_mem_filter hpart, by simpa using hc⟩
  rw [← hdirectory, full]
  split
  · rename_i hempty
    simp [hempty]
  · have hslash : c ∉ "/".toList := fun hc => h (List.mem_singleton.1 hc)
    simp only [String.toList_append, List.mem_append, hslash, or_false]
    exact or_comm

end Location

/-! ## Kind by kind -/

theorem Kind.nodup_all : Kind.all.Nodup := by decide

theorem Kind.mem_all (k : Kind) : k ∈ Kind.all := by
  cases k <;> decide

theorem Namespace.inOrder_perm (ns : Namespace) : ns.inOrder.Perm ns.components :=
  perm_flatMap_filter Component.kind Kind.nodup_all fun c _ => Kind.mem_all c.kind

end PackBindings
