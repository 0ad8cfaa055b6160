/-
  PackBindings.Proofs.Output.Collisions — when an output keeps every file.

  A directory holds each file that is written to it only as long as no two of them have one
  path. Packages that are told apart may have one directory, so this can fail: where the
  package is its own parent, the package and the one below it that has its name lie in the
  same directory. Then a file of a namespace is written first and one of a family in its
  place, and nothing fails (`a_family_overwrites_its_member`).

  Proved, for every datapack and all valid settings:
  - `output_keeps_every_file_iff`: but for this case paths are apart, and a directory without
    files holds exactly the files afterwards. An archive is written of one entry for each file
    in any case, with its path and its contents.
-/

import PackBindings.Proofs.Bindings.FilePaths
import PackBindings.Proofs.Output.Written

namespace PackBindings.Output

open PackBindings.Bindings PackBindings.Files PackBindings.Files.Tree

/-! ## Archives -/

theorem laidOut_entries {fs : List SourceFile}
    (hfs : ∀ f ∈ fs, ∀ name ∈ f.path, IsOrdinary name) :
    (fs.map entryOf).map (fun e => (spelledNames e.name, e.contents)) = laidOut fs := by
  rw [List.map_map, laidOut]
  refine List.map_congr_left fun f hf => ?_
  have hne : f.path ≠ [] := by
    rw [SourceFile.path]
    simp
  have hnames : spelledNames (entryOf f).name = f.path := spelledNames_intercalate hne (hfs f hf)
  exact Prod.ext hnames rfl

theorem written_archive {t t' : Tree} {path : String} {fs : List SourceFile}
    (h : perform t (actions (.archive path) fs) = (t', none)) :
    t'.find path = .file (Archive.write .deflated (fs.map entryOf)) := by
  obtain ⟨u, -, hrest⟩ := perform_makeDirectories h
  obtain ⟨v, hwrite, hdone⟩ := perform_write hrest
  cases hdone
  exact find_of_write? hwrite

/-! ## All files -/

theorem output_keeps_every_file_iff (d : Datapack) {s : Settings} (h : s.invalidPackage? = none) :
    (((files d s).map SourceFile.path).Nodup ↔ ¬Collide d s) ∧
    (∀ t t' root, perform t (actions (.directory root) (files d s)) = (t', none) →
      ∃ p, t'.follow? root = some p ∧ (t.filesBelow p = [] →
        ((t'.filesBelow p).Perm (laidOut (files d s)) ↔ ¬Collide d s))) ∧
    (∀ t t' path, perform t (actions (.archive path) (files d s)) = (t', none) →
      t'.find path = .file (Archive.write .deflated ((files d s).map entryOf))) ∧
    ((files d s).map entryOf).map (fun e => (spelledNames e.name, e.contents)) =
      laidOut (files d s) := by
  have hpaths := nodup_paths_iff (d := d) h
  have hfs : ∀ f ∈ files d s, ∀ name ∈ f.path, IsOrdinary name := fun _ => isOrdinary_of_mem_path h
  refine ⟨hpaths, fun t t' root hdone => ?_, fun t t' path => written_archive, laidOut_entries hfs⟩
  obtain ⟨p, hp, hbelow, -⟩ := written_directory hfs hdone
  exact ⟨p, hp, fun hempty => (filesBelow_perm_iff hempty hbelow).trans hpaths⟩

theorem generated_output_keeps_every_file :
    let d : Datapack := ⟨[⟨"bs.bs", [], .empty, .empty⟩, ⟨"bs.x", [], .empty, .empty⟩],
      [⟨"bs", ["bs.bs", "bs.x"], .empty, .empty⟩]⟩
    let s : Settings := .forPackage "generated"
    s.invalidPackage? = none ∧ ∃ t', perform .empty (actions s.target (files d s)) = (t', none) ∧
      (t'.filesBelow ["generated"]).Perm (laidOut (files d s)) := by
  intro d s
  have hvalid : s.invalidPackage? = none := by decide +kernel
  have hapart : ¬Collide d s := fun hcollide => absurd hcollide.1 (by decide +kernel)
  have hroots : rootNames s [] (subjects d) = ["Bs", "X", "Bs"] := by decide +kernel
  have hdone : (perform .empty (actions s.target (files d s))).2.isNone = true := by
    rw [files, hroots]
    decide +kernel
  have hplace : (perform .empty (actions s.target (files d s))).1.follow? "generated" =
      some ["generated"] := by
    rw [files, hroots]
    decide +kernel
  have hrun := perform_of_isNone hdone
  obtain ⟨p, hp, hfiles⟩ := (output_keeps_every_file_iff d hvalid).2.1 .empty _ "generated" hrun
  rw [hplace] at hp
  cases hp
  exact ⟨hvalid, _, hrun, (hfiles rfl).2 hapart⟩

/-- The namespace `bs.bs` and the family `bs` both have the root object `Bs` in the directory
`bs`. -/
theorem a_family_overwrites_its_member :
    let namespaces : List Namespace := [⟨"bs.bs", [], .empty, .empty⟩, ⟨"bs.x", [], .empty, .empty⟩]
    let s : Settings := ⟨"bs", "bs", .directory "out", 0, true⟩
    let fs := files (.ofNamespaces namespaces) s
    s.invalidPackage? = none ∧ (namespaces.map (·.name)).Nodup ∧ ¬(fs.map SourceFile.path).Nodup ∧
      fs.length = 3 ∧ ∃ t', perform .empty (actions s.target fs) = (t', none) ∧
        (t'.filesBelow ["out"]).length = 2 := by
  intro namespaces s fs
  let d : Datapack := ⟨namespaces, [⟨"bs", ["bs.bs", "bs.x"], .empty, .empty⟩]⟩
  have hd : Datapack.ofNamespaces namespaces = d := by
    have hsorted : Family.membersOf "bs" namespaces = namespaces := by
      rw [Family.membersOf]
      exact List.mergeSort_of_pairwise (by decide +kernel)
    have hnames : (namespaces.filterMap (·.family?)).eraseDups.mergeSort (· ≤ ·) = ["bs"] := by
      decide +kernel
    rw [Datapack.ofNamespaces, Family.ofNamespaces, hnames, List.map_singleton, hsorted]
    rfl
  have hroots : rootNames s [] (subjects d) = ["Bs", "X", "Bs"] := by decide +kernel
  have hfs : fs = List.zipWith
      (fun x name => ⟨s.segmentsOf (x.package s), x.source name (x.package s)⟩)
      (subjects d) ["Bs", "X", "Bs"] := by
    show files (.ofNamespaces namespaces) s = _
    rw [hd, files, hroots]
  have hdone : (perform .empty (actions s.target fs)).2.isNone = true := by
    rw [hfs]
    decide +kernel
  refine ⟨by decide +kernel, by decide, ?_, ?_, _, perform_of_isNone hdone, ?_⟩
  · rw [hfs]
    decide +kernel
  · rw [hfs]
    rfl
  · rw [hfs]
    decide +kernel

end PackBindings.Output
