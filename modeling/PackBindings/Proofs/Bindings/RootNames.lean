/-
  PackBindings.Proofs.Bindings.RootNames — what the root objects of a datapack are called.

  A root object gets its name in a scope that holds the reserved names and all names given
  to files of the same package before it (`Subject.rootName`). Whatever those are, the
  name is new, so one step of `rootNames` keeps the pairs of package and name apart.

  Proved, for every datapack and all settings:
  - `nodup_roots`: no two files have both the same package and the same root object.
  - `exists_rootName`: the source of a file is that of its subject, under a name that its
    subject gets in some such scope.
-/

import PackBindings.Bindings.Files
import PackBindings.Proofs.Bindings.Units

namespace PackBindings.Bindings

open PackBindings.Kotlin

namespace Subject

/-- The contents of the source file. -/
def unit : Subject → Contents
  | member ns family => ofNamespace ns family
  | shared f => ofFamily f

def comment : Subject → String
  | member ns _ => namespaceComment ns
  | shared f => familyComment f

/-- The name of the root object where other names are taken. -/
def rootName (x : Subject) (taken : List String) : String :=
  ((Scope.mk (taken ++ reservedNames)).claim x.wish (x.wish ++ x.suffix)).1

theorem source_eq (x : Subject) (name package : String) :
    x.source name package = x.unit.source reservedNames name package x.comment := by
  cases x <;> rfl

theorem nodup_constants (x : Subject) : (x.unit.constants.map (·.name)).Nodup := by
  cases x <;> simp [unit, ofNamespace, ofFamily]

theorem isPlain_wish (x : Subject) : IsPlain x.wish := by
  cases x with
  | member ns family => cases family <;> exact isPlain_pascal _
  | shared f => exact isPlain_pascal _

theorem isPlain_suffix (x : Subject) : IsPlain x.suffix := by
  cases x with
  | member ns family =>
    show IsPlain "Namespace"
    decide
  | shared f =>
    show IsPlain "Group"
    decide

theorem rootName_not_mem (x : Subject) (taken : List String) :
    x.rootName taken ∉ taken ∧ x.rootName taken ∉ reservedNames := by
  have hnew : x.rootName taken ∉ taken ++ reservedNames := claim_fresh _ _ _
  rw [List.mem_append, not_or] at hnew
  exact hnew

theorem isPlain_rootName (x : Subject) (taken : List String) : IsPlain (x.rootName taken) :=
  isPlain_claim x.isPlain_wish (isPlain_append x.isPlain_wish x.isPlain_suffix)

end Subject

/-! ## One name after the other -/

/-- The names given in a package. -/
def givenIn (given : List (String × String)) (package : String) : List String :=
  (given.filter (·.1 = package)).map (·.2)

theorem mem_givenIn {given : List (String × String)} {package name : String} :
    name ∈ givenIn given package ↔ (package, name) ∈ given := by
  rw [givenIn, List.mem_map]
  constructor
  · intro ⟨p, hp, he⟩
    obtain ⟨hp, hpack⟩ := List.mem_filter.1 hp
    rw [← he, ← of_decide_eq_true hpack]
    exact hp
  · intro h
    exact ⟨_, List.mem_filter.2 ⟨h, decide_eq_true rfl⟩, rfl⟩

section

variable (s : Settings)

theorem rootNames_cons (given : List (String × String)) (x : Subject) (xs : List Subject) :
    rootNames s given (x :: xs) = x.rootName (givenIn given (x.package s)) ::
      rootNames s ((x.package s, x.rootName (givenIn given (x.package s))) :: given) xs := rfl

theorem length_rootNames (given : List (String × String)) (xs : List Subject) :
    (rootNames s given xs).length = xs.length := by
  induction xs generalizing given with
  | nil => rfl
  | cons x xs ih => rw [rootNames_cons, List.length_cons, ih, List.length_cons]

theorem exists_taken_of_mem_zip {given : List (String × String)} {xs : List Subject}
    {x : Subject} {name : String} (h : (x, name) ∈ xs.zip (rootNames s given xs)) :
    ∃ taken, name = x.rootName taken := by
  induction xs generalizing given with
  | nil => simp at h
  | cons y xs ih =>
    rw [rootNames_cons, List.zip_cons_cons, List.mem_cons] at h
    rcases h with h | h
    · obtain ⟨rfl, rfl⟩ := Prod.mk.inj h
      exact ⟨_, rfl⟩
    · exact ih h

/-- Packages and names of files in turn. -/
def rootsOf (given : List (String × String)) (xs : List Subject) : List (String × String) :=
  (xs.zip (rootNames s given xs)).map fun p => (p.1.package s, p.2)

theorem rootsOf_cons (given : List (String × String)) (x : Subject) (xs : List Subject) :
    ∃ root, root ∉ given ∧ rootsOf s given (x :: xs) = root :: rootsOf s (root :: given) xs := by
  refine ⟨(x.package s, x.rootName (givenIn given (x.package s))), ?_, rfl⟩
  intro h
  exact (x.rootName_not_mem _).1 (mem_givenIn.2 h)

theorem not_mem_of_mem_rootsOf {given : List (String × String)} {xs : List Subject}
    {root : String × String} (h : root ∈ rootsOf s given xs) : root ∉ given := by
  induction xs generalizing given with
  | nil => simp [rootsOf] at h
  | cons x xs ih =>
    obtain ⟨r, hr, he⟩ := rootsOf_cons s given x xs
    rw [he, List.mem_cons] at h
    rcases h with rfl | h
    · exact hr
    · intro hg
      exact ih h (List.mem_cons_of_mem _ hg)

theorem nodup_rootsOf (given : List (String × String)) (xs : List Subject) :
    (rootsOf s given xs).Nodup := by
  induction xs generalizing given with
  | nil => exact List.nodup_nil
  | cons x xs ih =>
    obtain ⟨r, -, he⟩ := rootsOf_cons s given x xs
    rw [he, List.nodup_cons]
    exact ⟨fun h => not_mem_of_mem_rootsOf s h List.mem_cons_self, ih _⟩

end

/-! ## The files of a datapack -/

section

variable (d : Datapack) (s : Settings)

/-- What each source file is about, with the file. -/
def units : List (Subject × SourceFile) := (subjects d).zip (files d s)

def fileOf (x : Subject) (name : String) : SourceFile :=
  ⟨s.segmentsOf (x.package s), x.source name (x.package s)⟩

theorem units_eq_zipWith : units d s =
    List.zipWith (fun x name => (x, fileOf s x name)) (subjects d) (rootNames s [] (subjects d)) := by
  rw [units, files]
  exact zip_zipWith _ _ _

theorem length_files : (files d s).length = (subjects d).length := by
  simp [files, length_rootNames]

theorem subjects_units : (units d s).map (·.1) = subjects d :=
  List.map_fst_zip (Nat.le_of_eq (length_files d s).symm)

theorem files_units : (units d s).map (·.2) = files d s :=
  List.map_snd_zip (Nat.le_of_eq (length_files d s))

variable {d s}

theorem exists_rootName {x : Subject} {f : SourceFile} (h : (x, f) ∈ units d s) :
    ∃ taken, f = fileOf s x (x.rootName taken) := by
  rw [units_eq_zipWith, ← List.map_uncurry_zip_eq_zipWith, List.mem_map] at h
  obtain ⟨⟨y, name⟩, hmem, he⟩ := h
  obtain ⟨rfl, rfl⟩ := Prod.mk.inj he
  obtain ⟨taken, rfl⟩ := exists_taken_of_mem_zip s hmem
  exact ⟨taken, rfl⟩

theorem exists_mem_units {f : SourceFile} (h : f ∈ files d s) : ∃ x, (x, f) ∈ units d s := by
  rw [← files_units, List.mem_map] at h
  obtain ⟨⟨x, g⟩, hmem, rfl⟩ := h
  exact ⟨x, hmem⟩

theorem exists_file_of_mem_subjects {x : Subject} (h : x ∈ subjects d) :
    ∃ f, (x, f) ∈ units d s := by
  rw [← subjects_units d s, List.mem_map] at h
  obtain ⟨⟨y, f⟩, hmem, rfl⟩ := h
  exact ⟨f, hmem⟩

/-- One namespace alone makes one file. -/
theorem units_singleton (ns : Namespace) : units ⟨[ns], []⟩ s =
    [(.member ns none, fileOf s (.member ns none) ((Subject.member ns none).rootName []))] := by
  have hsubjects : subjects ⟨[ns], []⟩ = [.member ns none] := by
    simp [subjects, Datapack.familyOf?]
  rw [units_eq_zipWith, hsubjects]
  rfl

theorem mem_units_singleton {ns : Namespace} {name : String}
    (h : (Subject.member ns none).rootName [] = name) :
    (.member ns none, fileOf s (.member ns none) name) ∈ units ⟨[ns], []⟩ s := by
  rw [units_singleton, h]
  exact List.mem_singleton_self _

variable (d s)

theorem roots_files : (files d s).map (fun f => (f.source.package, f.source.name)) =
    rootsOf s [] (subjects d) := by
  rw [files, rootsOf, ← List.map_uncurry_zip_eq_zipWith, List.map_map]
  refine List.map_congr_left fun p _ => ?_
  obtain ⟨x, name⟩ := p
  simp [Subject.source_eq, Contents.source]

theorem nodup_roots : ((files d s).map fun f => (f.source.package, f.source.name)).Nodup := by
  rw [roots_files]
  exact nodup_rootsOf s [] _

end

end PackBindings.Bindings
