/-
  PackBindings.Proofs.Bindings.Redeclaration — nothing is declared twice.

  Two declarations clash if they are members of one object, have the same name and are not
  functions with different parameters; two files clash if they declare the same root
  object in the same package.

  Proved, for every datapack and all settings:
  - `overloadsOnly_of_mem_objects`: members of an object share a name only as functions of
    one component, and no two of these take parameters of the same types.
  - `parametersApart_of_mem_objects`: no function has two parameters of the same name.
  - `no_redeclaration`: both, in every object of every file, and the root objects apart.
-/

import PackBindings.Proofs.Bindings.RootNames

namespace PackBindings.Bindings

open PackBindings.Kotlin

/-- Members share a name only as functions of one component, told apart by the types of their
parameters. -/
def OverloadsOnly (u : Contents) (ms : List Decl) : Prop :=
  ∀ n, (Decl.named ms n).length ≤ 1 ∨
    ∃ c ∈ u.components, ∃ fs : List Function, Decl.named ms n = fs.map .function ∧
      accessorsOf u.imports u.owner c n = fs.map .function ∧ (fs.map parameterTypes).Nodup

theorem overloadsOnly_of_isShelf {u : Contents} {ms : List Decl} (h : IsShelf ms) :
    OverloadsOnly u ms :=
  fun n => Or.inl (Decl.length_named_le_one h.apart n)

theorem parametersApart_of_isShelf {ms : List Decl} (h : IsShelf ms) : ParametersApart ms := by
  intro f hf
  obtain ⟨p, hp⟩ := h.properties _ hf
  simp at hp

namespace Contents

variable {u : Contents} {reserved : List String} {name : String}

theorem overloadsOnly_membersAt (h : (u.constants.map (·.name)).Nodup) (dir : List String) :
    OverloadsOnly u (u.membersAt reserved name dir) := by
  intro n
  rcases named_membersAt h dir n with hone | ⟨c, hc, hnamed⟩
  · exact Or.inl hone
  · rcases accessorsOf_cases u.imports u.owner c n with ⟨p, -, hp⟩ | hfs
    · left
      rw [hnamed, hp, (Decl.byRank_perm _).length_eq]
      exact Nat.le_refl 1
    · right
      refine ⟨c, List.mem_of_mem_filter hc, functionsOf u.imports u.owner c n, ?_, hfs, ?_⟩
      · rw [hnamed, byRank_accessorsOf, hfs]
      · exact nodup_parameterTypes_functionsOf

theorem not_function_of_mem_firstAt (dir : List String) (f : Function) :
    .function f ∉ u.firstAt reserved name dir := by
  rcases List.eq_nil_or_concat' dir with rfl | ⟨dir, segment, rfl⟩
  · intro hf
    rcases List.mem_append.1 hf with hf | hf
    · simp at hf
    · simp at hf
  · rw [firstAt_concat, List.mem_singleton]
    exact fun h => Decl.noConfusion h

theorem parametersApart_membersAt (dir : List String) :
    ParametersApart (u.membersAt reserved name dir) := by
  intro f hf
  rcases mem_layout.1 hf with hf | ⟨n, c, -, hf⟩ | ⟨child, -, hf⟩
  · exact absurd hf (not_function_of_mem_firstAt dir f)
  · exact parametersApart_accessorsOf f hf
  · exact Decl.noConfusion hf

theorem overloadsOnly_of_mem_objects (h : (u.constants.map (·.name)).Nodup)
    {package comment : String} {o : Node}
    (ho : o ∈ (u.source reserved name package comment).objects) : OverloadsOnly u o.2 := by
  rcases mem_objects_source.1 ho with ⟨dir, -, rfl⟩ | ⟨r, hr, rfl⟩
  · exact overloadsOnly_membersAt h dir
  · exact overloadsOnly_of_isShelf (isShelf_of_mem_resources hr)

theorem parametersApart_of_mem_objects {package comment : String} {o : Node}
    (ho : o ∈ (u.source reserved name package comment).objects) : ParametersApart o.2 := by
  rcases mem_objects_source.1 ho with ⟨dir, -, rfl⟩ | ⟨r, hr, rfl⟩
  · exact parametersApart_membersAt dir
  · exact parametersApart_of_isShelf (isShelf_of_mem_resources hr)

end Contents

/-- Root objects are apart in their packages and from the types that sources refer to, and so
are the members of every object of every file. -/
theorem no_redeclaration (d : Datapack) (s : Settings) :
    ((files d s).map fun f => (f.source.package, f.source.name)).Nodup ∧
      (units d s).map (·.2) = files d s ∧
      ∀ x f, (x, f) ∈ units d s → f.source.name ∉ reservedNames ∧
        ∀ o ∈ f.source.objects, OverloadsOnly x.unit o.2 ∧ ParametersApart o.2 := by
  refine ⟨nodup_roots d s, files_units d s, ?_⟩
  intro x f hx
  obtain ⟨taken, rfl⟩ := exists_rootName hx
  simp only [fileOf, Subject.source_eq]
  refine ⟨(x.rootName_not_mem taken).2, ?_⟩
  intro o ho
  exact ⟨Contents.overloadsOnly_of_mem_objects x.nodup_constants ho,
    Contents.parametersApart_of_mem_objects ho⟩

end PackBindings.Bindings
