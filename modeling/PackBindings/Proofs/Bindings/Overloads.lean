/-
  PackBindings.Proofs.Bindings.Overloads — what the accessors of one component are.

  Proved, for every component and whatever a unit imports:
  - `namesFile_argumentsOf`: what it is called with names its file and its namespace.
  - `name_of_mem_accessorsOf` / `isObject_of_mem_accessorsOf`: each accessor has the name
    that was handed out for the component, and none is an object.
  - `accessorsOf_cases`: a resource has one property; a script or a tag has functions of
    which no two take parameters of the same types, and no function has two parameters of
    the same name.
-/

import PackBindings.Proofs.Kotlin.FreshNames
import PackBindings.Proofs.Kotlin.Objects
import PackBindings.Bindings.Accessor

namespace PackBindings.Bindings

open PackBindings.Kotlin

/-- By what functions of one name are told apart. -/
def parameterTypes (f : Function) : List String := f.parameters.map (·.type)

/-- No function has two parameters of the same name. -/
def ParametersApart (ms : List Decl) : Prop :=
  ∀ f, .function f ∈ ms → (f.parameters.map (·.name)).Nodup

/-! ## Arguments -/

/-- The argument that a file is passed on by. -/
def fileKey : Kind → String
  | .dimension => "dimension"
  | .enchantment => "enchantment"
  | .biome => "biome"
  | _ => "name"

/-- What arguments say of a component. The file stands below the constant `PATH` of the object
around, in the namespace of the constant `NAMESPACE`; a template of a structure has both in one
text. A tag of scripts says that it is one. -/
structure NamesFile (owner : String) (c : Component) (arguments : List String) : Prop where
  file : arguments.head? = some (fileKey c.kind ++ " = " ++
    if c.kind = .structureTemplate then literal (owner ++ ":" ++ c.location.full)
    else "PATH + " ++ literal c.location.stem)
  rest : arguments.tail = if c.kind = .structureTemplate then []
    else "namespace = NAMESPACE" :: if c.kind = .functionTag then ["group = true"] else []

theorem shape_arguments (k : Kind) : k.shape.arguments =
    if k = .structureTemplate then [(fileKey k, .itself)]
    else (fileKey k, .stem) :: ("namespace", .owner) ::
      if k = .functionTag then [("group", .fixed "true")] else [] := by
  cases k <;> rfl

theorem namesFile_argumentsOf (owner : String) (c : Component) :
    NamesFile owner c (argumentsOf owner c) := by
  have hnamespace : "namespace" ++ " = " ++ "NAMESPACE" = "namespace = NAMESPACE" := by decide
  have hgroup : "group" ++ " = " ++ "true" = "group = true" := by decide
  rw [argumentsOf, shape_arguments]
  by_cases htemplate : c.kind = .structureTemplate
  · simp only [if_pos htemplate]
    constructor
    · simp only [if_pos htemplate]
      rfl
    · simp only [if_pos htemplate]
      rfl
  · simp only [if_neg htemplate]
    constructor
    · simp only [if_neg htemplate]
      rfl
    · simp only [if_neg htemplate, List.map_cons, List.tail_cons, argumentValue, hnamespace]
      split
      · simp only [List.map_cons, List.map_nil, hgroup]
      · rfl

section

variable (imports : Imports) (owner : String) (c : Component) (name : String)

/-- The functions of a script or a tag of scripts. -/
def functionsOf : List Function :=
  callable imports owner name c [] [] ::
    if parametersOf c = [] then [] else overloads imports owner name c (parametersOf c)

theorem accessorsOf_script (l : Location) (t : Option Template) :
    accessorsOf imports owner (.script l t) name =
      (functionsOf imports owner (.script l t) name).map .function := by
  simp only [accessorsOf, functionsOf]
  split <;> simp

theorem accessorsOf_scriptTag (l : Location) : accessorsOf imports owner (.scriptTag l) name =
      (functionsOf imports owner (.scriptTag l) name).map .function := by
  simp only [accessorsOf, functionsOf]
  split <;> simp

theorem accessorsOf_cases :
    (∃ p : Property, (p.name = name ∧ p.isConst = false) ∧
        accessorsOf imports owner c name = [.property p]) ∨
      accessorsOf imports owner c name = (functionsOf imports owner c name).map .function := by
  cases c with
  | resource k l => exact Or.inl ⟨_, ⟨rfl, rfl⟩, rfl⟩
  | script l t => exact Or.inr (accessorsOf_script imports owner name l t)
  | scriptTag l => exact Or.inr (accessorsOf_scriptTag imports owner name l)

variable {imports owner c name}

theorem name_of_mem_functionsOf {f : Function} (h : f ∈ functionsOf imports owner c name) :
    f.name = name := by
  rw [functionsOf] at h
  split at h
  · simp_all [callable]
  · simp only [overloads, List.mem_cons, List.not_mem_nil, or_false] at h
    rcases h with rfl | rfl | rfl | rfl <;> rfl

theorem name_of_mem_accessorsOf {m : Decl} (h : m ∈ accessorsOf imports owner c name) :
    m.name = name := by
  rcases accessorsOf_cases imports owner c name with ⟨p, hp, he⟩ | he <;> rw [he] at h
  · rw [List.mem_singleton.1 h]
    exact hp.1
  · obtain ⟨f, hf, rfl⟩ := List.mem_map.1 h
    exact name_of_mem_functionsOf hf

theorem isObject_of_mem_accessorsOf {m : Decl} (h : m ∈ accessorsOf imports owner c name) :
    m.isObject = false := by
  rcases accessorsOf_cases imports owner c name with ⟨p, -, he⟩ | he <;> rw [he] at h
  · rw [List.mem_singleton.1 h]
    rfl
  · obtain ⟨f, -, rfl⟩ := List.mem_map.1 h
    rfl

/-- Values that are no constants, and functions. -/
def isAccessor (m : Decl) : Bool := m.rank == 1 || m.rank == 2

theorem rank_accessorsOf (imports : Imports) (owner : String) (c : Component) (name : String) :
    ∃ r, (r = 1 ∨ r = 2) ∧ ∀ m ∈ accessorsOf imports owner c name, m.rank = r := by
  rcases accessorsOf_cases imports owner c name with ⟨p, ⟨-, hp⟩, he⟩ | he <;> rw [he]
  · refine ⟨1, Or.inl rfl, fun m hm => ?_⟩
    rw [List.mem_singleton.1 hm]
    simp [Decl.rank, hp]
  · refine ⟨2, Or.inr rfl, fun m hm => ?_⟩
    obtain ⟨f, -, rfl⟩ := List.mem_map.1 hm
    rfl

theorem byRank_accessorsOf : Decl.byRank (accessorsOf imports owner c name) =
    accessorsOf imports owner c name := by
  obtain ⟨r, -, hr⟩ := rank_accessorsOf imports owner c name
  exact Decl.byRank_eq_self hr

theorem isAccessor_of_mem_accessorsOf {m : Decl} (h : m ∈ accessorsOf imports owner c name) :
    isAccessor m = true := by
  obtain ⟨r, hr, hrank⟩ := rank_accessorsOf imports owner c name
  rw [isAccessor, hrank m h]
  rcases hr with rfl | rfl <;> rfl

/-! ## Calls -/

/-- A call that names the file of a component, with arguments beyond those of every call. -/
def IsCallOf (imports : Imports) (owner : String) (c : Component) (text : String) : Prop :=
  ∃ arguments more, NamesFile owner c arguments ∧
    text = callText (imports.spelled c.kind.shape.callee) (arguments ++ more)

theorem isCallOf_callText (more : List String) : IsCallOf imports owner c
    (callText (imports.spelled c.kind.shape.callee) (argumentsOf owner c ++ more)) :=
  ⟨_, more, namesFile_argumentsOf owner c, rfl⟩

/-- One value for a resource, functions for a script or a tag of scripts; all of them name the
file of the component. -/
def IsAccessorOf (imports : Imports) (owner : String) (c : Component) (ms : List Decl) : Prop :=
  match c with
  | .resource .. => ∃ p : Property, ms = [.property p] ∧ p.isConst = false ∧
      IsCallOf imports owner c p.value
  | .script .. | .scriptTag .. => ∃ fs : List Function, fs ≠ [] ∧ ms = fs.map .function ∧
      ∀ f ∈ fs, IsCallOf imports owner c f.body

theorem isCallOf_of_mem_functionsOf {f : Function} (h : f ∈ functionsOf imports owner c name) :
    IsCallOf imports owner c f.body := by
  rw [functionsOf] at h
  split at h
  · rw [List.mem_singleton.1 h]
    exact isCallOf_callText _
  · simp only [overloads, List.mem_cons, List.not_mem_nil, or_false] at h
    rcases h with rfl | rfl | rfl | rfl <;> exact isCallOf_callText _

theorem isAccessorOf_accessorsOf :
    IsAccessorOf imports owner c (accessorsOf imports owner c name) := by
  have hfunctions : accessorsOf imports owner c name =
        (functionsOf imports owner c name).map .function →
      ∃ fs : List Function, fs ≠ [] ∧ accessorsOf imports owner c name = fs.map .function ∧
        ∀ f ∈ fs, IsCallOf imports owner c f.body :=
    fun he => ⟨_, List.cons_ne_nil _ _, he, fun _ => isCallOf_of_mem_functionsOf⟩
  cases c with
  | resource k l =>
    have hcall : IsCallOf imports owner (.resource k l) _ := isCallOf_callText []
    rw [List.append_nil] at hcall
    exact ⟨_, rfl, rfl, hcall⟩
  | script l t => exact hfunctions (accessorsOf_script imports owner name l t)
  | scriptTag l => exact hfunctions (accessorsOf_scriptTag imports owner name l)

/-! ## Parameters -/

theorem spelled_ne {d : ClassName} {text : String} (hn : d.name ≠ text) (hq : d.qualified ≠ text) :
    imports.spelled d ≠ text := by
  rw [Imports.spelled]
  split
  · exact hn
  · exact hq

theorem length_identifiersOf (parameters : List String) :
    (identifiersOf parameters).length = parameters.length := by
  simp [identifiersOf]

theorem nodup_parameterTypes_functionsOf :
    ((functionsOf imports owner c name).map parameterTypes).Nodup := by
  rw [functionsOf]
  split
  · simp
  · rename_i hne
    obtain ⟨x, xs, hxs⟩ : ∃ x xs, identifiersOf (parametersOf c) = x :: xs := by
      refine List.exists_cons_of_ne_nil fun h => hne ?_
      rw [← List.length_eq_zero_iff, ← length_identifiersOf, h]
      rfl
    have hcompound : "String" ≠ imports.spelled nbtCompound :=
      (spelled_ne (by decide) (by decide)).symm
    have hstrings : List.replicate xs.length "String" ≠ ["String?"] := by
      cases xs <;> simp [List.replicate_succ]
    have htypes : (callable imports owner name c [] [] ::
        overloads imports owner name c (parametersOf c)).map parameterTypes =
        [[], "String" :: List.replicate xs.length "String", [imports.spelled nbtCompound],
          [imports.spelled dataArgument, "String?"]] := by
      simp [overloads, callable, parameterTypes, hxs, Function.comp_def]
    rw [htypes]
    simp [hcompound, hstrings]

theorem nodup_parameterNames {f : Function} (h : f ∈ functionsOf imports owner c name) :
    (f.parameters.map (·.name)).Nodup := by
  have hids : ((identifiersOf (parametersOf c)).map fun x => x).Nodup := by
    simpa [identifiersOf] using Scope.nodup_nameAll _ _
  rw [functionsOf] at h
  split at h
  · simp_all [callable]
  · simp only [overloads, List.mem_cons, List.not_mem_nil, or_false] at h
    rcases h with rfl | rfl | rfl | rfl
    · simp [callable]
    · simpa [callable, Function.comp_def] using hids
    · simp [callable]
    · simp [callable]

theorem parametersApart_accessorsOf : ParametersApart (accessorsOf imports owner c name) := by
  intro f hf
  rcases accessorsOf_cases imports owner c name with ⟨p, -, he⟩ | he <;> rw [he] at hf
  · simp at hf
  · obtain ⟨g, hg, heq⟩ := List.mem_map.1 hf
    obtain rfl : g = f := Decl.function.inj heq
    exact nodup_parameterNames hg

end

end PackBindings.Bindings
