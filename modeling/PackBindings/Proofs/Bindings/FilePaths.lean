/-
  PackBindings.Proofs.Bindings.FilePaths — which files of a datapack have one path.

  Names are given out in packages, but files lie in directories. Two packages have one
  directory only if the parent package is the package itself and one of the two lies below
  it under its own name: the package keeps its segments and the other one loses them
  (`segmentsOf_eq`).

  Proved, for every datapack and all valid settings:
  - `nodup_paths_iff`: no two files have one path, unless such packages have root objects
    of one name (`Collide`).
  - `isOrdinary_of_mem_path`: a path goes down with every name on it.
-/

import PackBindings.Proofs.Bindings.RootNames
import PackBindings.Proofs.Files.Growth
import PackBindings.Proofs.Settings.Packages

namespace PackBindings.Bindings

open PackBindings.Kotlin

/-! ## Directories of subjects -/

theorem package_eq_or_below (x : Subject) (s : Settings) :
    x.package s = s.package ∨ ∃ text, x.package s = s.package ++ "." ++ packageSegment text := by
  cases x with
  | shared f => exact Or.inl rfl
  | member ns family =>
    cases family with
    | none => exact Or.inl rfl
    | some f => exact Or.inr ⟨f.name, rfl⟩

theorem package_cases (x : Subject) (s : Settings) :
    x.package s = s.package ∨ ∃ segment, IsPlain segment ∧ segment ≠ "" ∧
      x.package s = s.package ++ "." ++ segment := by
  rcases package_eq_or_below x s with h | ⟨text, h⟩
  · exact Or.inl h
  · exact Or.inr ⟨_, isPlain_packageSegment text, packageSegment_ne_empty text, h⟩

/-- The package has the directory of one below it only if that has its name. -/
theorem package_eq_of_segmentsOf {s : Settings} (hne : s.package ≠ "") {segment : String}
    (hplain : IsPlain segment)
    (h : s.segmentsOf s.package = s.segmentsOf (s.package ++ "." ++ segment)) :
    s.parent = s.package ∧ segment = s.package := by
  have hdot := dot_not_mem_of_isNameChar hplain
  by_cases hp : s.parent = s.package
  · rw [Settings.segmentsOf_parent hp hne, Settings.segmentsOf_child_of_parent hp hne hdot] at h
    have hsplit : s.package.toList.splitOn '.' = [segment.toList] := by
      have hmap := congrArg (List.map String.toList) h
      simpa using hmap
    have hchars : ['.'].intercalate (s.package.toList.splitOn '.') = s.package.toList :=
      List.intercalate_splitOn '.'
    rw [hsplit, List.intercalate_singleton] at hchars
    exact ⟨hp, String.toList_inj.1 hchars⟩
  · rw [Settings.segmentsOf_child hp hdot] at h
    have hlen := congrArg List.length h
    simp at hlen

theorem segmentsOf_eq {s : Settings} (hne : s.package ≠ "") {x y : Subject}
    (h : s.segmentsOf (x.package s) = s.segmentsOf (y.package s)) :
    x.package s = y.package s ∨ s.parent = s.package ∧
      ((x.package s = s.package ∧ y.package s = s.package ++ "." ++ s.package) ∨
        (y.package s = s.package ∧ x.package s = s.package ++ "." ++ s.package)) := by
  rcases package_cases x s with hx | ⟨a, ha, -, hx⟩
  · rcases package_cases y s with hy | ⟨b, hb, -, hy⟩
    · exact Or.inl (hx.trans hy.symm)
    · rw [hx, hy] at h
      obtain ⟨hp, rfl⟩ := package_eq_of_segmentsOf hne hb h
      exact Or.inr ⟨hp, Or.inl ⟨hx, hy⟩⟩
  · rcases package_cases y s with hy | ⟨b, hb, -, hy⟩
    · rw [hx, hy] at h
      obtain ⟨hp, rfl⟩ := package_eq_of_segmentsOf hne ha h.symm
      exact Or.inr ⟨hp, Or.inr ⟨hy, hx⟩⟩
    · have hda := dot_not_mem_of_isNameChar ha
      have hdb := dot_not_mem_of_isNameChar hb
      rw [hx, hy] at h
      have hab : a = b := by
        by_cases hp : s.parent = s.package
        · rw [Settings.segmentsOf_child_of_parent hp hne hda,
            Settings.segmentsOf_child_of_parent hp hne hdb] at h
          simpa using h
        · rw [Settings.segmentsOf_child hp hda, Settings.segmentsOf_child hp hdb] at h
          simpa using h
      exact Or.inl (by rw [hx, hy, hab])

/-! ## Paths of files -/

section

variable {d : Datapack} {s : Settings}

theorem exists_subject {f : SourceFile} (h : f ∈ files d s) :
    ∃ x : Subject, f.source.package = x.package s ∧ f.directory = s.segmentsOf (x.package s) ∧
      IsPlain f.source.name := by
  obtain ⟨x, hx⟩ := exists_mem_units h
  obtain ⟨taken, rfl⟩ := exists_rootName hx
  refine ⟨x, ?_, rfl, ?_⟩
  · rw [fileOf, Subject.source_eq]
    rfl
  · rw [fileOf, Subject.source_eq]
    exact x.isPlain_rootName taken

theorem path_eq_iff {f g : SourceFile} :
    f.path = g.path ↔ f.directory = g.directory ∧ f.source.name = g.source.name := by
  rw [SourceFile.path, SourceFile.path]
  constructor
  · intro h
    obtain ⟨hdir, hname⟩ := List.append_inj' h rfl
    refine ⟨hdir, ?_⟩
    simpa using hname
  · intro ⟨hdir, hname⟩
    rw [hdir, hname]

/-- A file of the package and one of the package below it that has its name have root objects of
one name, and the package is its own parent. -/
def Collide (d : Datapack) (s : Settings) : Prop :=
  s.parent = s.package ∧ ∃ f ∈ files d s, ∃ g ∈ files d s, f.source.package = s.package ∧
    g.source.package = s.package ++ "." ++ s.package ∧ f.source.name = g.source.name

theorem path_eq_of_collide (hne : s.package ≠ "") {f g : SourceFile} (hf : f ∈ files d s)
    (hg : g ∈ files d s) (hp : s.parent = s.package) (hfp : f.source.package = s.package)
    (hgp : g.source.package = s.package ++ "." ++ s.package)
    (hname : f.source.name = g.source.name) : f.path = g.path := by
  obtain ⟨x, hxp, hxd, -⟩ := exists_subject hf
  obtain ⟨y, hyp, hyd, -⟩ := exists_subject hg
  refine path_eq_iff.2 ⟨?_, hname⟩
  -- the package stands below itself as one segment, so it has no dot
  have hdot : '.' ∉ s.package.toList := by
    rcases package_cases y s with hy | ⟨b, hb, -, hy⟩
    · rw [← hyp, hgp] at hy
      have hlen := congrArg String.length hy
      simp only [String.length_append] at hlen
      have hone : ".".length = 1 := rfl
      omega
    · rw [← hyp, hgp, String.append_right_inj] at hy
      rw [hy]
      exact dot_not_mem_of_isNameChar hb
  rw [hxd, hyd, ← hxp, ← hyp, hfp, hgp, Settings.segmentsOf_parent hp hne,
    Settings.segmentsOf_child_of_parent hp hne hdot, List.splitOn_eq_singleton hdot]
  simp

theorem nodup_paths_iff (h : s.invalidPackage? = none) :
    ((files d s).map SourceFile.path).Nodup ↔ ¬Collide d s := by
  have hne := Settings.package_ne_empty h
  constructor
  · intro hnd ⟨hp, f, hf, g, hg, hfp, hgp, hname⟩
    have hsame := List.inj_on_of_nodup_map hnd hf hg
      (path_eq_of_collide hne hf hg hp hfp hgp hname)
    rw [← hsame, hfp] at hgp
    have hlen := congrArg String.length hgp
    simp only [String.length_append] at hlen
    have hone : ".".length = 1 := rfl
    omega
  · intro hno
    have hroots := nodup_roots d s
    rw [List.Nodup, List.pairwise_map] at hroots ⊢
    refine hroots.imp_of_mem ?_
    intro f g hf hg hdiff hpath
    obtain ⟨hdir, hname⟩ := path_eq_iff.1 hpath
    obtain ⟨x, hxp, hxd, -⟩ := exists_subject hf
    obtain ⟨y, hyp, hyd, -⟩ := exists_subject hg
    rw [hxd, hyd] at hdir
    rcases segmentsOf_eq hne hdir with he | ⟨hp, ⟨hx, hy⟩ | ⟨hy, hx⟩⟩
    · exact hdiff (Prod.ext (hxp.trans (he.trans hyp.symm)) hname)
    · exact hno ⟨hp, f, hf, g, hg, hxp.trans hx, hyp.trans hy, hname⟩
    · exact hno ⟨hp, g, hg, f, hf, hyp.trans hy, hxp.trans hx, hname.symm⟩

theorem isOrdinary_of_isPart {name : String} (h : Settings.IsPart name.toList) :
    Files.Tree.IsOrdinary name := by
  obtain ⟨hne, hchars⟩ := h
  refine ⟨?_, ?_, ?_, ?_⟩
  · intro he
    exact hne (by rw [he]; rfl)
  · intro he
    exact dot_not_mem_of_isNameChar hchars (by rw [he]; decide)
  · intro he
    exact dot_not_mem_of_isNameChar hchars (by rw [he]; decide)
  · exact slash_not_mem_of_isNameChar hchars

theorem isOrdinary_fileName {name : String} (h : IsPlain name) :
    Files.Tree.IsOrdinary (name ++ ".kt") := by
  have hlen : (name ++ ".kt").length = name.length + 3 := String.length_append name ".kt"
  refine ⟨?_, ?_, ?_, ?_⟩
  · intro he
    rw [he] at hlen
    exact absurd hlen (by simp)
  · intro he
    rw [he] at hlen
    have hone : ".".length = 1 := rfl
    omega
  · intro he
    rw [he] at hlen
    have htwo : "..".length = 2 := rfl
    omega
  · rw [String.toList_append, List.mem_append]
    intro hslash
    rcases hslash with hslash | hslash
    · exact slash_not_mem_of_isNameChar h hslash
    · exact absurd hslash (by decide)

theorem isOrdinary_of_mem_path (h : s.invalidPackage? = none) {f : SourceFile}
    (hf : f ∈ files d s) : ∀ name ∈ f.path, Files.Tree.IsOrdinary name := by
  obtain ⟨x, -, hdir, hplain⟩ := exists_subject hf
  intro name hmem
  rcases List.mem_append.1 hmem with hmem | hmem
  · rw [hdir] at hmem
    refine isOrdinary_of_isPart (Settings.isPart_of_mem_segmentsOf ?_ name hmem)
    rcases package_cases x s with hx | ⟨a, ha, hane, hx⟩
    · rw [hx]
      exact Settings.isPart_of_valid h
    · rw [hx]
      exact Settings.isPart_child h ha hane
  · rw [List.mem_singleton.1 hmem]
    exact isOrdinary_fileName hplain

end

end PackBindings.Bindings
