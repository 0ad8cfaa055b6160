/-
  PackBindings.Proofs.Bindings.ClassTexts — from which classes the texts in an accessor are made.

  Every text of a class in an accessor stands for one class of its component, and where it
  stands decides for which. A value has the class of its type and then that of its value. A
  function has its context first, then what its parameters are, its result and what it calls;
  the one that takes a string for each parameter calls the builder besides.

  Proved, for every component and whatever a unit imports:
  - `references_accessorsOf`: the references of each accessor, one by one, are the texts of
    these classes, and `String` for each parameter that is a string.
  - `mem_usesOf_of_mem_accessorClasses` / `exists_mem_accessorClasses`: these are classes that
    the component uses, and all of them if it is as files are read.
  - `accessorsOf_congr`: imports decide on the texts of these classes, and on nothing else.
  - `mem_references_accessorsOf`: an accessor refers to strings and to classes that its
    component uses, and to nothing else.
  - `exists_reference_callee` / `exists_reference_builder`: it does refer to its callee, and
    to the builder where there are parameters.
-/

import PackBindings.Proofs.Bindings.ImportTable
import PackBindings.Proofs.Bindings.References

namespace PackBindings.Bindings

open PackBindings.Kotlin

/-- The text of a class, and that of a string where there is none. -/
def Imports.text (imports : Imports) : Option ClassName → String
  | some e => imports.spelled e
  | none => "String"

@[simp] theorem Imports.text_some (imports : Imports) (e : ClassName) :
    imports.text (some e) = imports.spelled e := rfl

@[simp] theorem Imports.text_none (imports : Imports) : imports.text none = "String" := rfl

/-- The classes in a function of a component, with those of its parameters and those that further
arguments call. -/
def functionClasses (c : Component) (parameters more : List (Option ClassName)) :
    List (Option ClassName) :=
  c.kind.shape.context.toList.map some ++ parameters ++ [some c.kind.shape.result] ++
    some c.kind.shape.callee :: more

/-- The classes in each function of a script or a tag of scripts. -/
def classesOfFunctions (c : Component) : List (List (Option ClassName)) :=
  functionClasses c [] [] ::
    if parametersOf c = [] then []
    else [functionClasses c (List.replicate (parametersOf c).length none) [some nbtBuilder],
      functionClasses c [some nbtCompound] [], functionClasses c [some dataArgument, none] []]

/-- The classes in each accessor of a component. -/
def accessorClasses (c : Component) : List (List (Option ClassName)) :=
  match c with
  | .resource k _ => [[some k.shape.result, some k.shape.callee]]
  | .script .. | .scriptTag .. => classesOfFunctions c

theorem some_mem_functionClasses {c : Component} {types calls : List (Option ClassName)}
    {e : ClassName} : some e ∈ functionClasses c types calls ↔
      e ∈ classesOf c.kind ∨ some e ∈ types ∨ some e ∈ calls := by
  simp only [functionClasses, classesOf, List.mem_append, List.mem_map, Option.some.injEq,
    exists_eq_right, List.mem_cons, List.not_mem_nil, or_false, Option.mem_toList]
  tauto

theorem mem_usesOf_iff_of_functions {c : Component} {e : ClassName} :
    e ∈ usesOf c ↔ ∃ es ∈ classesOfFunctions c, some e ∈ es := by
  rw [mem_usesOf, classesOfFunctions]
  split
  · rename_i hnone
    simp [hnone, some_mem_functionClasses]
  · rename_i hsome
    simp only [List.mem_cons, List.not_mem_nil, or_false, exists_eq_or_imp, exists_eq_left,
      some_mem_functionClasses, Option.some.injEq, List.mem_replicate, reduceCtorEq, and_false,
      false_or]
    tauto

/-! ## Functions -/

section

variable {imports : Imports} {owner name : String} {c : Component}

variable (imports owner name c) in
/-- The references of a function, from what its parameters and its further arguments refer to. -/
theorem references_eq_text (parameters : List Parameter) (more : List (String × List String))
    {types calls : List (Option ClassName)}
    (hmore : ∀ a ∈ more, Calls a.1.toList (a.2.map String.toList))
    (htypes : parameters.flatMap (fun p => typeNames p.type ++ p.default.toList.flatMap callsOf) =
      types.map imports.text) (hcalls : more.flatMap (·.2) = calls.map imports.text) :
    (Decl.function (callable imports owner name c parameters (more.map (·.1)))).references =
      (functionClasses c types calls).map imports.text := by
  rw [references_callable imports owner name c parameters more hmore, htypes, hcalls,
    functionClasses]
  simp only [List.map_append, List.map_cons, List.map_map, List.map_nil]
  rfl

theorem typeNames_string : typeNames "String" = ["String"] := typeNames_name (by decide)

variable (imports owner name c) in
/-- One string for each parameter. -/
theorem references_strings (parameters : List String) :
    (Decl.function (callable imports owner name c
      ((identifiersOf parameters).map fun x => ⟨x, "String", none⟩)
      ["arguments = " ++ imports.spelled nbtBuilder ++ " \x7b " ++ payload parameters ++
        " \x7d"])).references =
      (functionClasses c (List.replicate parameters.length none) [some nbtBuilder]).map
        imports.text := by
  refine references_eq_text imports owner name c _ [(_, [imports.spelled nbtBuilder])] ?_ ?_ rfl
  · intro a ha
    rw [List.mem_singleton.1 ha]
    exact calls_compound (isReference_spelled isNamed_builder imports) _
  · have htype : ∀ x : String, typeNames (⟨x, "String", none⟩ : Parameter).type ++
        (none : Option String).toList.flatMap callsOf = ["String"] := fun _ => by
      simpa using typeNames_string
    rw [List.flatMap_map, List.flatMap_congr fun x _ => htype x, ← List.map_eq_flatMap,
      List.map_const', List.map_replicate, length_identifiersOf, Imports.text_none]

variable (imports owner name c) in
/-- A compound. -/
theorem references_compound : (Decl.function (callable imports owner name c
      [⟨"arguments", imports.spelled nbtCompound, none⟩] ["arguments = arguments"])).references =
      (functionClasses c [some nbtCompound] []).map imports.text := by
  refine references_eq_text imports owner name c _ [("arguments = arguments", [])] ?_ ?_ rfl
  · intro a ha
    rw [List.mem_singleton.1 ha]
    exact Calls.silent (by decide)
  · simpa using typeNames_spelled isNamed_compound

variable (imports owner name c) in
/-- A data argument and a path. -/
theorem references_data : (Decl.function (callable imports owner name c
      [⟨"arguments", imports.spelled dataArgument, none⟩, ⟨"path", "String?", some "null"⟩]
      ["arguments = arguments", "path = path"])).references =
      (functionClasses c [some dataArgument, none] []).map imports.text := by
  refine references_eq_text imports owner name c _
    [("arguments = arguments", []), ("path = path", [])] ?_ ?_ rfl
  · intro a ha
    simp only [List.mem_cons, List.not_mem_nil, or_false] at ha
    rcases ha with rfl | rfl
    · exact Calls.silent (by decide)
    · exact Calls.silent (by decide)
  · have hpath : typeNames "String?" ++ callsOf "null" = ["String"] := by decide
    have hdata : typeNames (imports.spelled dataArgument) = [imports.spelled dataArgument] :=
      typeNames_spelled isNamed_data
    simp [hdata, hpath]

/-- The references of the accessors of a component, in their order. -/
theorem references_accessorsOf (imports : Imports) (owner name : String) (c : Component) :
    (accessorsOf imports owner c name).map Decl.references =
      (accessorClasses c).map (·.map imports.text) := by
  have hfunctions : (functionsOf imports owner c name).map (fun f => (Decl.function f).references) =
      (classesOfFunctions c).map (·.map imports.text) := by
    have hplain : (Decl.function (callable imports owner name c [] [])).references =
        (functionClasses c [] []).map imports.text :=
      references_eq_text imports owner name c [] [] (by simp) (List.map_nil).symm (List.map_nil).symm
    rw [functionsOf, classesOfFunctions, List.map_cons, List.map_cons, hplain]
    split
    · rfl
    · simp only [overloads, List.map_cons, List.map_nil, references_strings, references_compound,
        references_data]
  cases c with
  | resource k l => exact references_resource imports owner name k l
  | script l t =>
    rw [accessorsOf_script, List.map_map]
    exact hfunctions
  | scriptTag l =>
    rw [accessorsOf_scriptTag, List.map_map]
    exact hfunctions

theorem mem_usesOf_of_mem_accessorClasses {es : List (Option ClassName)}
    (h : es ∈ accessorClasses c) {e : ClassName} (he : some e ∈ es) : e ∈ usesOf c := by
  cases c with
  | resource k l =>
    rw [List.mem_singleton.1 h] at he
    refine mem_usesOf.2 (Or.inl ?_)
    simp only [List.mem_cons, List.not_mem_nil, or_false, Option.some.injEq] at he
    rcases he with rfl | rfl
    · exact List.mem_cons_of_mem _ List.mem_cons_self
    · exact List.mem_cons_self
  | script l t => exact mem_usesOf_iff_of_functions.2 ⟨es, h, he⟩
  | scriptTag l => exact mem_usesOf_iff_of_functions.2 ⟨es, h, he⟩

theorem context_of_role {k : Kind} (h : k.role = .resource) : k.shape.context = none := by
  revert h
  cases k <;> simp [Kind.role, Kind.shape, Kind.argument]

/-- A component of the variant that its kind prescribes has all classes it uses in its accessors. -/
theorem exists_mem_accessorClasses (hc : c = .ofKind c.kind c.location c.template?) {e : ClassName}
    (h : e ∈ usesOf c) : ∃ es ∈ accessorClasses c, some e ∈ es := by
  cases c with
  | resource k l =>
    have hrole : k.role = .resource := by
      cases hrole : k.role with
      | resource => rfl
      | script => simp [Component.ofKind, Component.kind, hrole] at hc
      | scriptTag => simp [Component.ofKind, Component.kind, hrole] at hc
    refine ⟨_, List.mem_singleton_self _, ?_⟩
    have hclasses : e ∈ classesOf k := (mem_usesOf.1 h).resolve_right fun hparams => hparams.1 rfl
    rw [classesOf, context_of_role hrole] at hclasses
    simpa [or_comm] using hclasses
  | script l t => exact mem_usesOf_iff_of_functions.1 h
  | scriptTag l => exact mem_usesOf_iff_of_functions.1 h

/-- A component is written with the texts of its classes, and imports have no other part in it. -/
theorem accessorsOf_congr {later : Imports}
    (h : ∀ e ∈ usesOf c, imports.spelled e = later.spelled e) :
    accessorsOf imports owner c name = accessorsOf later owner c name := by
  have hcallee : imports.spelled c.kind.shape.callee = later.spelled c.kind.shape.callee :=
    h _ (mem_usesOf.2 (Or.inl List.mem_cons_self))
  have hresult : imports.spelled c.kind.shape.result = later.spelled c.kind.shape.result :=
    h _ (mem_usesOf.2 (Or.inl (List.mem_cons_of_mem _ List.mem_cons_self)))
  have hcontext : c.kind.shape.context.map imports.spelled =
      c.kind.shape.context.map later.spelled := by
    refine Option.map_congr fun e he => h e (mem_usesOf.2 (Or.inl ?_))
    exact List.mem_append_right _ (Option.mem_toList.2 he)
  have hcallable : ∀ parameters more, callable imports owner name c parameters more =
      callable later owner name c parameters more := by
    intro parameters more
    rw [callable, callable, hcallee, hresult, hcontext]
  have hfunctions : functionsOf imports owner c name = functionsOf later owner c name := by
    rw [functionsOf, functionsOf, hcallable]
    split
    · rfl
    · rename_i hparams
      have hmore : ∀ e ∈ [nbtBuilder, nbtCompound, dataArgument],
          imports.spelled e = later.spelled e :=
        fun e he => h e (mem_usesOf.2 (Or.inr ⟨hparams, he⟩))
      rw [overloads, overloads, hcallable, hcallable, hcallable, hmore nbtBuilder (by simp),
        hmore nbtCompound (by simp), hmore dataArgument (by simp)]
  cases c with
  | resource k l => rw [accessorsOf, accessorsOf, hcallee, hresult]
  | script l t => rw [accessorsOf_script, accessorsOf_script, hfunctions]
  | scriptTag l => rw [accessorsOf_scriptTag, accessorsOf_scriptTag, hfunctions]

/-! ## What an accessor refers to -/

/-- A string, or a class that the component uses. -/
def IsUsed (imports : Imports) (c : Component) (r : String) : Prop :=
  r = "String" ∨ ∃ e ∈ usesOf c, r = imports.spelled e

theorem mem_references_accessorsOf {m : Decl} (hm : m ∈ accessorsOf imports owner c name) {r : String}
    (h : r ∈ m.references) : IsUsed imports c r := by
  have hmem := List.mem_map_of_mem (f := Decl.references) hm
  rw [references_accessorsOf, List.mem_map] at hmem
  obtain ⟨es, hes, he⟩ := hmem
  rw [← he, List.mem_map] at h
  obtain ⟨class?, hclass, rfl⟩ := h
  cases class? with
  | none => exact Or.inl rfl
  | some e => exact Or.inr ⟨e, mem_usesOf_of_mem_accessorClasses hes hclass, rfl⟩

variable (imports owner name) in
theorem exists_reference {es : List (Option ClassName)} (h : es ∈ accessorClasses c) {e : ClassName}
    (he : some e ∈ es) : ∃ m ∈ accessorsOf imports owner c name, imports.spelled e ∈ m.references := by
  have hmem : es.map imports.text ∈ (accessorsOf imports owner c name).map Decl.references := by
    rw [references_accessorsOf]
    exact List.mem_map_of_mem h
  obtain ⟨m, hm, hrefs⟩ := List.mem_map.1 hmem
  refine ⟨m, hm, ?_⟩
  rw [hrefs]
  exact List.mem_map.2 ⟨_, he, rfl⟩

variable (imports owner name c) in
theorem exists_reference_callee : ∃ m ∈ accessorsOf imports owner c name,
    imports.spelled c.kind.shape.callee ∈ m.references := by
  have huse : c.kind.shape.callee ∈ usesOf c := mem_usesOf.2 (Or.inl List.mem_cons_self)
  have hclasses : ∃ es ∈ accessorClasses c, some c.kind.shape.callee ∈ es := by
    cases c with
    | resource k l =>
      exact ⟨_, List.mem_singleton_self _, List.mem_cons_of_mem _ List.mem_cons_self⟩
    | script l t => exact mem_usesOf_iff_of_functions.1 huse
    | scriptTag l => exact mem_usesOf_iff_of_functions.1 huse
  obtain ⟨es, hes, he⟩ := hclasses
  exact exists_reference imports owner name hes he

variable (imports owner name) in
theorem exists_reference_builder (hc : parametersOf c ≠ []) :
    ∃ m ∈ accessorsOf imports owner c name, imports.spelled nbtBuilder ∈ m.references := by
  have huse : nbtBuilder ∈ usesOf c := mem_usesOf.2 (Or.inr ⟨hc, List.mem_cons_self⟩)
  cases c with
  | resource k l => exact absurd rfl hc
  | scriptTag l => exact absurd rfl hc
  | script l t =>
    obtain ⟨es, hes, he⟩ := mem_usesOf_iff_of_functions.1 huse
    exact exists_reference imports owner name hes he

end

end PackBindings.Bindings
