/-
  PackBindings.Proofs.Bindings.PackageHeaders — the packages that files declare.

  A file writes its package as it is, so no segment of it may be a keyword. There are two
  sources of segments. The one that a family adds is made to be an identifier, and gets a
  low line if it would be a keyword. Those of the settings are checked, but for their
  characters only: keywords pass, and are written into the header of every file
  (`a_keyword_in_the_package`).

  Proved, for every datapack and all valid settings:
  - `packageParts_package`: what the segments of a file's package are.
  - `header_legal_iff`: a file has a legal header exactly if the package of the settings has
    no keyword among its segments.
-/

import PackBindings.Generate
import PackBindings.Proofs.Bindings.UnitLayout

namespace PackBindings.Kotlin

/-- A name that can stand in a package without grave accents. -/
structure IsLegalSegment (segment : String) : Prop where
  begins : ∃ c cs, segment.toList = c :: cs ∧ (c.isAlpha = true ∨ c = '_')
  plain : ∀ c ∈ segment.toList, c.isAlphanum = true ∨ c = '_'
  noKeyword : segment ∉ keywords

/-- The names between the dots of a package. -/
def packageParts (package : String) : List String := (package.toList.splitOn '.').map String.ofList

theorem packageParts_child (package : String) {segment : String} (h : '.' ∉ segment.toList) :
    packageParts (package ++ "." ++ segment) = packageParts package ++ [segment] := by
  simp [packageParts, Settings.splitOn_child h]

/-- What is checked of a segment leaves keywords aside. -/
theorem isLegalSegment_iff {segment : String} (h : isPackageSegment segment.toList = true) :
    IsLegalSegment segment ↔ segment ∉ keywords := by
  refine ⟨fun hlegal => hlegal.noKeyword, fun hword => ?_⟩
  have hplain := (Settings.isPart_of_isPackageSegment h).2
  refine ⟨?_, fun c hc => ?_, hword⟩
  · cases hchars : segment.toList with
    | nil => simp [hchars, isPackageSegment] at h
    | cons c cs =>
      simp only [hchars, isPackageSegment, Bool.and_eq_true, Bool.or_eq_true, beq_iff_eq] at h
      exact ⟨c, cs, rfl, h.1⟩
  · simpa [isNameChar] using hplain c hc

namespace Source

/-- The package stands in the fourth line that is written. -/
theorem header_line (s : Source) : (s.lines 0)[3]? = some ("package " ++ s.package) := rfl

/-- Every name between the dots of the package can stand there as it is. -/
def HasLegalHeader (s : Source) : Prop := ∀ segment ∈ packageParts s.package, IsLegalSegment segment

end Source

end PackBindings.Kotlin

namespace PackBindings.Bindings

open PackBindings.Kotlin

variable {d : Datapack} {s : Settings}

/-- The segments of a package are those of the settings, and one of a family at most. -/
theorem packageParts_package (x : Subject) (s : Settings) :
    packageParts (x.package s) = packageParts s.package ∨
      ∃ text, packageParts (x.package s) = packageParts s.package ++ [packageSegment text] := by
  rcases package_eq_or_below x s with h | ⟨text, h⟩
  · left
    rw [h]
  · right
    refine ⟨text, ?_⟩
    rw [h, packageParts_child _ (dot_not_mem_of_isNameChar (isPlain_packageSegment text))]

theorem isPackageSegment_of_mem_packageParts (h : s.invalidPackage? = none) (x : Subject) :
    ∀ segment ∈ packageParts (x.package s), isPackageSegment segment.toList = true := by
  intro segment hsegment
  obtain ⟨part, hpart, rfl⟩ := List.mem_map.1 hsegment
  rw [String.toList_ofList]
  exact isPackageSegment_of_mem_package h x part hpart

/-- No keyword comes from a family. -/
theorem noKeyword_package_iff (x : Subject) :
    (∀ segment ∈ packageParts (x.package s), segment ∉ keywords) ↔
      ∀ segment ∈ packageParts s.package, segment ∉ keywords := by
  rcases packageParts_package x s with h | ⟨text, h⟩
  · rw [h]
  · rw [h, List.forall_mem_append, List.forall_mem_singleton]
    exact and_iff_left (packageSegment_not_keyword text)

/-- The header of a file is legal exactly if no name in the package of the settings is a keyword;
there is nothing else that could be wrong with it. -/
theorem header_legal_iff (h : s.invalidPackage? = none) : ∀ f ∈ files d s,
    f.contents = textOf (f.source.lines 0) ∧
      (f.source.lines 0)[3]? = some ("package " ++ f.source.package) ∧
      (f.source.HasLegalHeader ↔ ∀ segment ∈ packageParts s.package, segment ∉ keywords) := by
  intro f hf
  obtain ⟨x, hx⟩ := exists_mem_units hf
  have hpackage : f.source.package = x.package s := (isLaidOut_of_mem_units h hx).package
  refine ⟨rfl, f.source.header_line, ?_⟩
  unfold Source.HasLegalHeader
  rw [hpackage, ← noKeyword_package_iff x]
  refine forall_congr' fun segment => forall_congr' fun hsegment => ?_
  exact isLegalSegment_iff (isPackageSegment_of_mem_packageParts h x segment hsegment)

/-- A family that is called as a keyword is gets a package all the same. -/
theorem header_legal_below_a_keyword :
    let d : Datapack := ⟨[⟨"is.a", [], .empty, .empty⟩, ⟨"is.b", [], .empty, .empty⟩],
      [⟨"is", ["is.a", "is.b"], .empty, .empty⟩]⟩
    let s : Settings := ⟨"gen.packs", "gen", .directory "out", 0, true⟩
    let f := fileOf s (.member ⟨"is.a", [], .empty, .empty⟩ d.families.head?) "A"
    (s.invalidPackage? = none ∧ f ∈ files d s) ∧ f.source.HasLegalHeader ∧
      (f.source.lines 0)[3]? = some "package gen.packs.is_" := by
  intro d s f
  have hvalid : s.invalidPackage? = none := by decide +kernel
  have hfile : f ∈ files d s := by
    rw [← files_units]
    exact List.mem_map.2 ⟨_, List.mem_cons_self, rfl⟩
  obtain ⟨-, -, hlegal⟩ := header_legal_iff hvalid f hfile
  exact ⟨⟨hvalid, hfile⟩, hlegal.2 (by decide +kernel), by decide +kernel⟩

/-- The settings are accepted, and the header of the only file is none that a compiler takes. -/
theorem a_keyword_in_the_package :
    let s : Settings := .forPackage "com.object"
    let f := fileOf s (.member ⟨"p", [], .empty, .empty⟩ none) "P"
    s.validate = .ok s ∧ f ∈ files ⟨[⟨"p", [], .empty, .empty⟩], []⟩ s ∧
      (f.source.lines 0)[3]? = some "package com.object" ∧ ¬f.source.HasLegalHeader := by
  intro s f
  have hfile : f ∈ files ⟨[⟨"p", [], .empty, .empty⟩], []⟩ s := by
    rw [← files_units]
    exact List.mem_map_of_mem (f := Prod.snd) (mem_units_singleton (by decide))
  have hvalid : s.invalidPackage? = none := by decide +kernel
  have haccepted : s.validate = .ok s := by rw [Settings.validate, hvalid]
  have hword : "object" ∈ packageParts f.source.package := by decide +kernel
  exact ⟨haccepted, hfile, by decide +kernel, fun h => (h _ hword).noKeyword (by decide)⟩

end PackBindings.Bindings
