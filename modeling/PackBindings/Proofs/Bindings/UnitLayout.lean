/-
  PackBindings.Proofs.Bindings.UnitLayout — the files of a datapack, one after the other.

  The only thing that could keep a unit from being made is a script or a tag of scripts
  that is called in no context (`files?`), and the kinds of both have one. So there is a
  file for every namespace and every family. Its directories are the segments of its
  package, or what the parent package leaves of them; none of them has a dot, so none is
  the name of a file.

  Proved, for every datapack and all valid settings:
  - `files?_eq_some`: all units are made.
  - `isLaidOut_of_mem_units`: what the path of a file says about its package, and the
    other way round.
  - `not_path_prefix_directory`: no file stands where another one has a directory.
  - `files_laid_out`: all of this, with the files in order of their namespaces and families.
-/

import Mathlib.Data.List.Forall2
import PackBindings.Proofs.Bindings.FilePaths
import PackBindings.Proofs.Kotlin.Identifiers
import PackBindings.Proofs.Orders

namespace PackBindings.Bindings

open PackBindings.Kotlin

/-! ## Files that are made -/

/-- Whether a component cannot be called, for want of a context. -/
def lacksContext (c : Component) : Bool :=
  match c with
  | .resource .. => false
  | .script .. | .scriptTag .. => c.kind.shape.context.isNone

/-- The source of a subject, unless one of its components cannot be called. -/
def Subject.source? (x : Subject) (name package : String) : Option Source :=
  if x.unit.components.any lacksContext then none else some (x.source name package)

/-- One file after the other, if all of them can be made. -/
def files? (d : Datapack) (s : Settings) : Option (List SourceFile) :=
  ((subjects d).zip (rootNames s [] (subjects d))).mapM fun (x, name) =>
    (x.source? name (x.package s)).map fun source => ⟨s.segmentsOf (x.package s), source⟩

theorem lacksContext_eq_false (c : Component) : lacksContext c = false := by
  cases c with
  | resource k l => rfl
  | script l t => rfl
  | scriptTag l => rfl

theorem Subject.source?_eq_some (x : Subject) (name package : String) :
    x.source? name package = some (x.source name package) := by
  unfold source?
  rw [if_neg]
  rw [List.any_eq_true]
  rintro ⟨c, -, hc⟩
  rw [lacksContext_eq_false] at hc
  exact Bool.false_ne_true hc

theorem files?_eq_some (d : Datapack) (s : Settings) : files? d s = some (files d s) := by
  unfold files? files
  rw [← List.map_uncurry_zip_eq_zipWith]
  apply mapM_eq_some_map
  intro (x, name) _
  show (x.source? name (x.package s)).map _ = _
  rw [x.source?_eq_some]
  rfl

/-! ## Segments -/

theorem isPackageSegment_of_isIdentifier {name : String} (h : IsIdentifier name) :
    isPackageSegment name.toList = true := by
  have hplain := h.plain
  obtain ⟨c, cs, he, hc⟩ := h.begins
  unfold IsPlain at hplain
  rw [he] at hplain ⊢
  rw [isPackageSegment, Bool.and_eq_true, List.all_eq_true, Bool.or_eq_true, beq_iff_eq]
  exact ⟨hc.imp_right fun h => h.1, fun d hd => hplain d (List.mem_cons_of_mem _ hd)⟩

theorem isPackageSegment_of_mem_package {s : Settings} (h : s.invalidPackage? = none) (x : Subject) :
    ∀ part ∈ (x.package s).toList.splitOn '.', isPackageSegment part = true := by
  have hvalid : ∀ part ∈ s.package.toList.splitOn '.', isPackageSegment part = true :=
    List.all_eq_true.1 (Settings.isPackage_of_valid h)
  rcases package_eq_or_below x s with hx | ⟨text, hx⟩
  · rwa [hx]
  · have hdot := dot_not_mem_of_isNameChar (isPlain_packageSegment text)
    rw [hx, Settings.toList_child, Settings.splitOn_child hdot]
    intro part hpart
    rcases List.mem_append.1 hpart with hpart | hpart
    · exact hvalid part hpart
    · rw [List.mem_singleton.1 hpart]
      exact isPackageSegment_of_isIdentifier (isIdentifier_packageSegment text)

/-! ## One file -/

/-- The file of a subject lies where its package says. -/
structure IsLaidOut (s : Settings) (x : Subject) (f : SourceFile) : Prop where
  source : f.source = x.source f.source.name (x.package s)
  package : f.source.package = x.package s
  path : f.path = f.directory ++ [f.source.name ++ ".kt"]
  directory : f.directory ≠ []
  segments : ∀ segment ∈ f.directory, isPackageSegment segment.toList = true
  /-- Below the parent package, the parent and the dot after it are left out. -/
  below : s.parent ≠ "" → ∀ rest, f.source.package = s.parent ++ "." ++ rest →
    ".".intercalate f.directory = rest
  beside : (s.parent = "" ∨ ∀ rest, f.source.package ≠ s.parent ++ "." ++ rest) →
    ".".intercalate f.directory = f.source.package

theorem isLaidOut_fileOf {s : Settings} (h : s.invalidPackage? = none) (x : Subject) (name : String) :
    IsLaidOut s x (fileOf s x name) := by
  have hname : (fileOf s x name).source.name = name := congrArg Source.name (x.source_eq name _)
  have hpackage : (fileOf s x name).source.package = x.package s :=
    congrArg Source.package (x.source_eq name _)
  constructor
  case source => rw [hname]; rfl
  case package => exact hpackage
  case path => rfl
  case directory => exact Settings.segmentsOf_ne_nil s _
  case segments =>
    intro segment hsegment
    exact isPackageSegment_of_mem_package h x _ (Settings.mem_splitOn_of_mem_segmentsOf hsegment)
  case below =>
    intro hne rest hrest
    rw [hpackage] at hrest
    show ".".intercalate (s.segmentsOf (x.package s)) = rest
    rw [hrest]
    exact Settings.intercalate_segmentsOf_below hne rest
  case beside =>
    rw [hpackage]
    exact Settings.intercalate_segmentsOf_beside

section

variable {d : Datapack} {s : Settings}

theorem isLaidOut_of_mem_units (h : s.invalidPackage? = none) {x : Subject} {f : SourceFile}
    (hx : (x, f) ∈ units d s) : IsLaidOut s x f := by
  obtain ⟨taken, rfl⟩ := exists_rootName hx
  exact isLaidOut_fileOf h x _

/-- A namespace has the package of its family exactly if a family counts it among its members. -/
theorem package_of_namespace {ns : Namespace} {family : Option Family} {f : SourceFile}
    (h : IsLaidOut s (.member ns family) f) :
    (family = none ↔ f.source.package = s.package) ∧
      ∀ g, family = some g → f.source.package = s.package ++ "." ++ packageSegment g.name := by
  rw [h.package]
  cases family with
  | none => exact ⟨iff_of_true rfl rfl, fun g hg => absurd hg (Option.some_ne_none g).symm⟩
  | some g =>
    refine ⟨iff_of_false (Option.some_ne_none g) fun he => ?_, fun g' hg => ?_⟩
    · -- the package would have a dot and a segment more than it has
      have hlen := congrArg String.length he
      have hdot : ".".length = 1 := rfl
      simp only [Subject.package, String.length_append] at hlen
      omega
    · rw [← Option.some.inj hg]
      rfl

/-- A file has a dot in its name, and a directory has none. -/
theorem not_path_prefix_directory (h : s.invalidPackage? = none) {f g : SourceFile}
    (hg : g ∈ files d s) : ¬f.path <+: g.directory := by
  intro hpre
  obtain ⟨y, hy⟩ := exists_mem_units hg
  have hmem : f.source.name ++ ".kt" ∈ g.directory := hpre.subset (by simp [SourceFile.path])
  have hsegment := (isLaidOut_of_mem_units h hy).segments _ hmem
  have hdot : '.' ∈ (f.source.name ++ ".kt").toList := by simp
  exact dot_not_mem_of_isNameChar (Settings.isPart_of_isPackageSegment hsegment).2 hdot

/-! ## All files -/

/-- Every unit is made. There is a file for each namespace, and after these one for each family,
and all of them lie below the output, where their packages say. -/
theorem files_laid_out (d : Datapack) (h : s.invalidPackage? = none) :
    files? d s = some (files d s) ∧
      List.Forall₂ (IsLaidOut s)
        (d.namespaces.map (fun ns => .member ns (d.familyOf? ns.name)) ++ d.families.map .shared)
        (files d s) ∧
      (∀ ns family f, (.member ns family, f) ∈ units d s → family = d.familyOf? ns.name ∧
        (family = none ↔ f.source.package = s.package) ∧
          ∀ g, family = some g → f.source.package = s.package ++ "." ++ packageSegment g.name) ∧
      (∀ f ∈ files d s, ∀ name ∈ f.path, Files.Tree.IsOrdinary name) ∧
      ∀ f ∈ files d s, ∀ g ∈ files d s, ¬f.path <+: g.directory := by
  refine ⟨files?_eq_some d s, ?_, ?_, ?_, ?_⟩
  · show List.Forall₂ (IsLaidOut s) (subjects d) (files d s)
    rw [List.forall₂_iff_zip]
    exact ⟨(length_files d s).symm, fun hx => isLaidOut_of_mem_units h hx⟩
  · intro ns family f hf
    refine ⟨?_, package_of_namespace (isLaidOut_of_mem_units h hf)⟩
    have hsubject : .member ns family ∈ subjects d := (List.of_mem_zip hf).1
    rcases List.mem_append.1 hsubject with hmem | hmem
    · obtain ⟨ns', -, he⟩ := List.mem_map.1 hmem
      obtain ⟨rfl, rfl⟩ := Subject.member.inj he
      rfl
    · obtain ⟨g, -, he⟩ := List.mem_map.1 hmem
      exact Subject.noConfusion he
  · exact fun f hf => isOrdinary_of_mem_path h hf
  · exact fun f _ g hg => not_path_prefix_directory h hg

end

/-- Below the parent package lie the two namespaces of a family that is called as a keyword is, one
on its own, and what the two share. -/
theorem files_laid_out_below_a_parent :
    let d : Datapack := ⟨[⟨"is.a", [], .empty, .empty⟩, ⟨"is.b", [], .empty, .empty⟩,
      ⟨"solo", [.script ⟨"a", "b"⟩ none], .empty, .empty⟩], [⟨"is", ["is.a", "is.b"], .empty, .empty⟩]⟩
    let s : Settings := ⟨"gen.packs", "gen", .directory "out", 0, true⟩
    s.invalidPackage? = none ∧ files? d s = some (files d s) ∧
      List.Forall₂ (IsLaidOut s) (subjects d) (files d s) ∧ (files d s).map SourceFile.path =
        [["packs", "is_", "A.kt"], ["packs", "is_", "B.kt"], ["packs", "Solo.kt"], ["packs", "Is.kt"]] := by
  intro d s
  have hvalid : s.invalidPackage? = none := by decide +kernel
  obtain ⟨hmade, hlaid, -⟩ := files_laid_out d hvalid
  exact ⟨hvalid, hmade, hlaid, by decide +kernel⟩

end PackBindings.Bindings
