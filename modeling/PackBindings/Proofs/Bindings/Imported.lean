/-
  PackBindings.Proofs.Bindings.Imported — which classes a unit imports.

  No two classes that units use have the same name but one pair: the arguments of structure
  templates and of structures of world generation. Templates come up first, so where a unit
  has both, it imports the class of the templates and writes the other one out in full.

  Proved, for every unit whose templates come up first, as those of all sources do
  (`templatesFirst_unit`):
  - `spelled_of_mem_uses`: every class that is used is written by its simple name, but for
    that of structures.
  - `spelled_structureArgument`: that one is written in full where there are templates.
-/

import PackBindings.Proofs.Bindings.ClassTexts
import PackBindings.Proofs.Bindings.RootNames

namespace PackBindings.Bindings

open PackBindings.Kotlin

/-! ## Classes of one name -/

/-- The argument of structure templates. -/
def templateArgument : ClassName := ⟨Kind.resources, "StructureArgument"⟩

/-- The argument of structures of world generation, of the same name. -/
def structureArgument : ClassName := ⟨Kind.worldgen, "StructureArgument"⟩

/-- All other classes that a unit can use. -/
def ordinaryClasses : List ClassName :=
  [storageArgument, nbtBuilder, nbtCompound, dataArgument, ⟨Kind.commands, "Command"⟩,
    ⟨Kind.functions, "Function"⟩] ++
    (Kind.all.filter fun k => k ≠ .functionTag ∧ k ≠ .worldStructure).map (·.shape.callee)

theorem nodup_names_ordinaryClasses : (ordinaryClasses.map (·.name)).Nodup := by
  decide

theorem callee_ordinary (k : Kind) :
    k.shape.callee ∈ ordinaryClasses ∨ k.shape.callee = structureArgument := by
  by_cases htag : k = .functionTag
  · left
    rw [htag]
    exact List.mem_append_right _ (List.mem_map.2 ⟨.function, by decide, rfl⟩)
  · by_cases hworld : k = .worldStructure
    · right
      rw [hworld]
      rfl
    · left
      refine List.mem_append_right _ (List.mem_map.2 ⟨k, List.mem_filter.2 ⟨Kind.mem_all k, ?_⟩, rfl⟩)
      simp [htag, hworld]

theorem ordinary_of_mem_classesOf {k : Kind} {e : ClassName} (h : e ∈ classesOf k) :
    e ∈ ordinaryClasses ∨ e = structureArgument := by
  rcases classesOf_cases h with rfl | rfl | rfl
  · exact callee_ordinary k
  · exact Or.inl (by simp [ordinaryClasses])
  · exact Or.inl (by simp [ordinaryClasses])

theorem kind_of_templateArgument {k : Kind} (h : templateArgument ∈ classesOf k) :
    k = .structureTemplate := by
  revert h
  cases k <;> simp [templateArgument, classesOf, Kind.shape, Kind.argument, Kind.call, Kind.resources, Kind.worldgen, Kind.tagged]

theorem kind_of_structureArgument {k : Kind} (h : structureArgument ∈ classesOf k) :
    k = .worldStructure := by
  revert h
  cases k <;> simp [structureArgument, classesOf, Kind.shape, Kind.argument, Kind.call, Kind.resources, Kind.worldgen, Kind.tagged]

theorem ordinary_of_mem_usesOf {c : Component} {e : ClassName} (h : e ∈ usesOf c) :
    e ∈ ordinaryClasses ∨ e = structureArgument := by
  rcases mem_usesOf.1 h with h | ⟨-, h⟩
  · exact ordinary_of_mem_classesOf h
  · left
    simp only [List.mem_cons, List.not_mem_nil, or_false] at h
    rcases h with rfl | rfl | rfl <;> simp [ordinaryClasses]

/-! ## Units -/

/-- No structure of world generation comes up before a structure template. -/
def TemplatesFirst (cs : List Component) : Prop :=
  ∃ before after, cs = before ++ after ∧ (∀ c ∈ before, c.kind ≠ .worldStructure) ∧
    ∀ c ∈ after, c.kind ≠ .structureTemplate

theorem templatesFirst_inOrder (ns : Namespace) : TemplatesFirst ns.inOrder := by
  have hkind : ∀ {ks : List Kind} {k : Kind}, k ∉ ks → ∀ c ∈ ks.flatMap ns.ofKind, c.kind ≠ k := by
    rintro ks k hk c hc rfl
    obtain ⟨j, hj, hmem⟩ := List.mem_flatMap.1 hc
    exact hk (of_decide_eq_true (List.mem_filter.1 hmem).2 ▸ hj)
  refine ⟨(Kind.all.take 17).flatMap ns.ofKind, (Kind.all.drop 17).flatMap ns.ofKind, ?_,
    hkind (by decide), hkind (by decide)⟩
  rw [← List.flatMap_append, List.take_append_drop]
  rfl

theorem Subject.templatesFirst_unit (x : Subject) : TemplatesFirst x.unit.components := by
  cases x with
  | member ns family => exact templatesFirst_inOrder ns
  | shared f => exact ⟨[], [], rfl, by simp, by simp⟩

namespace Contents

variable {u : Contents}

theorem mem_uses {e : ClassName} : e ∈ u.uses ↔
    (u.storages ≠ [] ∧ e = storageArgument) ∨ ∃ c ∈ u.components, e ∈ usesOf c := by
  unfold uses
  rw [List.mem_append, List.mem_flatMap]
  refine or_congr_left ?_
  split
  · simp_all
  · simp_all

theorem isNamed_of_mem_uses {e : ClassName} (h : e ∈ u.uses) : IsNamed e := by
  rcases mem_uses.1 h with ⟨-, rfl⟩ | ⟨c, -, h⟩
  · exact isNamed_storage
  · exact isNamed_of_mem_usesOf h

theorem mem_uses_of_mem_imports {e : ClassName} (h : e ∈ u.imports) : e ∈ u.uses :=
  (mem_foldl_takeUp (·.name) h).resolve_left List.not_mem_nil

theorem ordinary_of_mem_uses {e : ClassName} (h : e ∈ u.uses) :
    e ∈ ordinaryClasses ∨ e = structureArgument := by
  rcases mem_uses.1 h with ⟨-, rfl⟩ | ⟨c, -, h⟩
  · exact Or.inl List.mem_cons_self
  · exact ordinary_of_mem_usesOf h

/-- Some class of the name of one that is used is imported. -/
theorem exists_mem_imports {e : ClassName} {uses : List ClassName} (h : e ∈ uses) :
    ∃ y ∈ uses, y ∈ Imports.ofUses uses ∧ y.name = e.name := by
  obtain ⟨y, hy, hname⟩ := exists_mem_foldl_takeUp (·.name) [] h
  exact ⟨y, (mem_foldl_takeUp (·.name) hy).resolve_left List.not_mem_nil, hy, hname⟩

theorem eq_of_name {e y : ClassName} (he : e ∈ ordinaryClasses) (hy : y ∈ ordinaryClasses)
    (h : y.name = e.name) : y = e :=
  List.inj_on_of_nodup_map nodup_names_ordinaryClasses hy he h

theorem templateArgument_ordinary : templateArgument ∈ ordinaryClasses :=
  List.mem_append_right _ (List.mem_map.2 ⟨.structureTemplate, by decide, rfl⟩)

theorem mem_usesOf_of_template {c : Component} (h : templateArgument ∈ usesOf c) :
    c.kind = .structureTemplate := by
  rcases mem_usesOf.1 h with h | ⟨-, h⟩
  · exact kind_of_templateArgument h
  · exact absurd h (by decide)

theorem mem_usesOf_of_structure {c : Component} (h : structureArgument ∈ usesOf c) :
    c.kind = .worldStructure := by
  rcases mem_usesOf.1 h with h | ⟨-, h⟩
  · exact kind_of_structureArgument h
  · exact absurd h (by decide)

theorem mem_uses_template : templateArgument ∈ u.uses ↔
    ∃ t ∈ u.components, t.kind = .structureTemplate := by
  rw [mem_uses]
  constructor
  · rintro (⟨-, h⟩ | ⟨c, hc, h⟩)
    · exact absurd h (by decide)
    · exact ⟨c, hc, mem_usesOf_of_template h⟩
  · rintro ⟨t, ht, hk⟩
    refine Or.inr ⟨t, ht, mem_usesOf.2 (Or.inl ?_)⟩
    rw [hk]
    exact List.mem_cons_self

/-- The class of structure templates is imported where there are any. -/
theorem templateArgument_mem_imports (hu : TemplatesFirst u.components)
    (h : templateArgument ∈ u.uses) : templateArgument ∈ u.imports := by
  obtain ⟨before, after, hcs, hbefore, hafter⟩ := hu
  -- what the components up to the last template use, and the rest
  let early := (if u.storages = [] then [] else [storageArgument]) ++ before.flatMap usesOf
  have huses : u.uses = early ++ after.flatMap usesOf := by
    rw [uses, hcs, List.flatMap_append, List.append_assoc]
  have hearly : templateArgument ∈ early := by
    rw [huses, List.mem_append] at h
    rcases h with h | h
    · exact h
    · obtain ⟨c, hc, hmem⟩ := List.mem_flatMap.1 h
      exact absurd (mem_usesOf_of_template hmem) (hafter c hc)
  obtain ⟨y, hy, himport, hname⟩ := exists_mem_imports hearly
  have hsame : y = templateArgument := by
    have hmem : y ∈ u.uses := huses ▸ List.mem_append_left _ hy
    rcases ordinary_of_mem_uses hmem with hord | rfl
    · exact eq_of_name templateArgument_ordinary hord hname
    · rcases List.mem_append.1 hy with hy | hy
      · split at hy
        · simp at hy
        · exact absurd hy (by decide)
      · obtain ⟨c, hc, hmem⟩ := List.mem_flatMap.1 hy
        exact absurd (mem_usesOf_of_structure hmem) (hbefore c hc)
  rw [imports, huses, Imports.ofUses, List.foldl_append]
  exact subset_foldl_takeUp (·.name) _ _ (hsame ▸ himport)

theorem spelled_of_mem_uses (hu : TemplatesFirst u.components) {e : ClassName} (h : e ∈ u.uses)
    (hne : e ≠ structureArgument) : u.imports.spelled e = e.name := by
  refine Imports.spelled_of_mem ?_
  have hord := (ordinary_of_mem_uses h).resolve_right hne
  obtain ⟨y, hy, himport, hname⟩ := exists_mem_imports h
  rcases ordinary_of_mem_uses hy with hord' | rfl
  · exact eq_of_name hord hord' hname ▸ himport
  · obtain rfl := eq_of_name templateArgument_ordinary hord hname.symm
    exact templateArgument_mem_imports hu h

theorem spelled_structureArgument (hu : TemplatesFirst u.components)
    (h : structureArgument ∈ u.uses) : u.imports.spelled structureArgument =
      if templateArgument ∈ u.uses then structureArgument.qualified else structureArgument.name := by
  split
  · rename_i htemplate
    -- no other class of the name can be imported beside that of the templates
    have hmem := templateArgument_mem_imports hu htemplate
    have hnot : structureArgument ∉ u.imports := by
      intro hboth
      have hapart := Imports.namedApart_ofUses u.uses
      exact absurd (List.inj_on_of_nodup_map hapart hmem hboth rfl) (by decide)
    exact Imports.spelled_of_not_mem hnot
  · rename_i htemplate
    refine Imports.spelled_of_mem ?_
    obtain ⟨y, hy, himport, hname⟩ := exists_mem_imports h
    rcases ordinary_of_mem_uses hy with hord | rfl
    · obtain rfl := eq_of_name templateArgument_ordinary hord hname
      exact absurd hy htemplate
    · exact himport

end Contents

end PackBindings.Bindings
