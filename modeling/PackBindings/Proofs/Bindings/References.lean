/-
  PackBindings.Proofs.Bindings.References — what values and functions of a component refer to.

  A value refers to its type and calls its class; a function refers to its context and its
  result and calls the command. What it refers to besides is up to its parameters and its
  further arguments; one of these calls the builder of a compound. All classes are spelled as
  the unit spells them.

  Proved, for every component and whatever a unit imports:
  - `written_argumentsOf` / `written_payload`: what arguments are put together from, for any
    predicate on texts that is closed.
  - `callsOf_callText`: a call with arguments calls its callee and what the arguments call.
  - `references_callable` / `references_resource`: the references of a function and of a
    value, in the order in which they are written.
-/

import PackBindings.Proofs.Bindings.Overloads
import PackBindings.Proofs.Component.Directories
import PackBindings.Proofs.Kotlin.Styles

namespace PackBindings.Bindings

open PackBindings.Kotlin

/-! ## Names of classes -/

/-- A class whose name is an identifier, in a package of identifiers. -/
structure IsNamed (e : ClassName) : Prop where
  plain : IsPlain e.name
  name_ne : e.name ≠ ""
  package : IsReference e.package

/-- The packages that kinds take their classes from. -/
def packages : List String :=
  [Kind.resources, Kind.tagged, Kind.worldgen, Kind.commands, Kind.functions]

/-- The classes of a kind. -/
def classesOf (k : Kind) : List ClassName :=
  [k.shape.callee, k.shape.result] ++ k.shape.context.toList

/-- Beside the class that it calls, a kind has those of commands and of functions at most. -/
theorem classesOf_cases {k : Kind} {e : ClassName} (h : e ∈ classesOf k) :
    e = k.shape.callee ∨ e = ⟨Kind.commands, "Command"⟩ ∨ e = ⟨Kind.functions, "Function"⟩ := by
  have hresult : k.shape.result = k.shape.callee ∨
      k.shape.result = ⟨Kind.commands, "Command"⟩ := by
    cases k <;> first | exact Or.inl rfl | exact Or.inr rfl
  have hcontext : k.shape.context = none ∨
      k.shape.context = some ⟨Kind.functions, "Function"⟩ := by
    cases k <;> first | exact Or.inl rfl | exact Or.inr rfl
  rw [classesOf, List.mem_append, List.mem_cons, List.mem_singleton, Option.mem_toList] at h
  rcases h with (rfl | rfl) | h
  · exact Or.inl rfl
  · exact hresult.imp_right Or.inl
  · rcases hcontext with he | he
    · simp [he] at h
    · rw [he] at h
      exact Or.inr (Or.inr (Option.some.inj h).symm)

theorem isReference_packages : ∀ p ∈ packages, IsReference p := by decide

theorem isNamed_callee (k : Kind) : IsNamed k.shape.callee where
  plain := by cases k <;> decide
  name_ne := by cases k <;> decide
  package := isReference_packages _ (by
    cases k <;> simp [Kind.shape, Kind.argument, Kind.call, packages])

theorem isNamed_classesOf {k : Kind} {e : ClassName} (h : e ∈ classesOf k) : IsNamed e := by
  rcases classesOf_cases h with rfl | rfl | rfl
  · exact isNamed_callee k
  · exact ⟨by decide, by decide, isReference_packages _ (by simp [packages])⟩
  · exact ⟨by decide, by decide, isReference_packages _ (by simp [packages])⟩

theorem isNamed_builder : IsNamed nbtBuilder :=
  ⟨by decide, by decide, by decide⟩

theorem isNamed_compound : IsNamed nbtCompound :=
  ⟨by decide, by decide, by decide⟩

theorem isNamed_data : IsNamed dataArgument :=
  ⟨by decide, by decide, by decide⟩

theorem isNamed_storage : IsNamed storageArgument :=
  ⟨by decide, by decide, by decide⟩

theorem mem_usesOf {c : Component} {e : ClassName} : e ∈ usesOf c ↔
    e ∈ classesOf c.kind ∨ parametersOf c ≠ [] ∧ e ∈ [nbtBuilder, nbtCompound, dataArgument] := by
  unfold usesOf
  rw [List.mem_append]
  refine or_congr_right ?_
  split
  · simp_all
  · simp_all

theorem isNamed_of_mem_usesOf {c : Component} {e : ClassName} (h : e ∈ usesOf c) : IsNamed e := by
  rcases mem_usesOf.1 h with h | ⟨-, h⟩
  · exact isNamed_classesOf h
  · simp only [List.mem_cons, List.not_mem_nil, or_false] at h
    rcases h with rfl | rfl | rfl
    · exact isNamed_builder
    · exact isNamed_compound
    · exact isNamed_data

theorem isReferenceChar_of_isPlain {name : String} (h : IsPlain name) :
    ∀ c ∈ name.toList, isReferenceChar c = true := by
  intro c hc
  simp [isReferenceChar, h c hc]

theorem isReferenceChar_dotted {path : List String} (h : ∀ n ∈ path, IsPlain n) :
    ∀ c ∈ (dotted path).toList, isReferenceChar c = true := by
  intro c hc
  rw [dotted, String.toList_intercalate] at hc
  rcases mem_of_mem_intercalate hc with hc | ⟨part, hpart, hc⟩
  · have hdot : c = '.' := by simpa using hc
    rw [hdot]
    decide
  · obtain ⟨n, hn, rfl⟩ := List.mem_map.1 hpart
    exact isReferenceChar_of_isPlain (h n hn) c hc

theorem isReference_spelled {e : ClassName} (h : IsNamed e) (imports : Imports) :
    IsReference (imports.spelled e) := by
  unfold Imports.spelled
  split
  · exact ⟨h.name_ne, isReferenceChar_of_isPlain h.plain⟩
  · constructor
    · intro he
      have hlen := congrArg String.length he
      simp [ClassName.qualified] at hlen
    · intro c hc
      rw [ClassName.qualified, String.toList_append, String.toList_append, List.mem_append,
        List.mem_append] at hc
      rcases hc with (hc | hc) | hc
      · exact h.package.2 c hc
      · have hdot : c = '.' := by simpa using hc
        rw [hdot]
        decide
      · exact isReferenceChar_of_isPlain h.plain c hc

/-! ## Arguments -/

theorem isPlain_fileKey (k : Kind) : IsPlain (fileKey k) := by
  unfold fileKey
  split <;> decide

theorem isPlain_of_mem_identifiersOf {parameters : List String} {identifier : String}
    (h : identifier ∈ identifiersOf parameters) : IsPlain identifier := by
  refine isPlain_of_mem_nameAll (fun base hbase => ?_) h
  obtain ⟨p, -, rfl⟩ := List.mem_map.1 hbase
  exact isPlain_camel p

section

variable {quotable P : String → Prop} (h : Closed quotable P)

include h

/-- What a component is called with is put together of names, fixed texts and literals. -/
theorem written_argumentsOf {owner : String} {c : Component} (hstem : quotable c.location.stem)
    (hitself : quotable (owner ++ ":" ++ c.location.full)) : ∀ a ∈ argumentsOf owner c, P a := by
  obtain ⟨hfile, hrest⟩ := namesFile_argumentsOf owner c
  obtain ⟨rest, he⟩ := List.head?_eq_some_iff.1 hfile
  have hnamespace : P "namespace = NAMESPACE" := h.quiet (by decide)
  have hgroup : P "group = true" := h.quiet (by decide)
  rw [he, List.tail_cons] at hrest
  rw [he, hrest, List.forall_mem_cons]
  constructor
  · refine h.named (isPlain_fileKey c.kind) ?_
    split
    · exact h.literal hitself
    · exact h.append (h.quiet (by decide)) (h.literal hstem)
  · split
    · simp
    · split
      · simp [hnamespace, hgroup]
      · simp [hnamespace]

theorem written_payload {parameters : List String} (hquotable : ∀ p ∈ parameters, quotable p) :
    P (payload parameters) := by
  have hopen : P "this[" := h.quiet (by decide)
  have hclose : P "] = " := h.quiet (by decide)
  refine h.intercalate (h.quiet (by decide)) fun part hpart => ?_
  obtain ⟨parameter, hparameter, identifier, hidentifier, rfl⟩ := exists_of_mem_zipWith hpart
  exact h.append (h.append (h.append hopen (h.literal (hquotable parameter hparameter))) hclose)
    (h.quoted (isPlain_of_mem_identifiersOf hidentifier))

end

/-! ## What arguments call -/

/-- Neither a name nor a literal calls anything. -/
theorem closed_silent : Closed (fun _ => True) fun text => Calls text.toList [] where
  quiet h := by
    refine Calls.silent fun c hc => ?_
    have hchar := List.all_eq_true.1 h c hc
    simp only [isQuietChar, isCodeChar, Bool.and_eq_true, bne_iff_ne] at hchar
    simp [hchar]
  literal _ := by
    rw [toList_literal]
    exact Calls.literal _
  append hx hy := by
    rw [String.toList_append]
    exact hx.append hy

theorem calls_literal (text : String) : Calls (literal text).toList [] := closed_silent.literal trivial

theorem calls_argumentsOf {owner : String} {c : Component} {a : String} (h : a ∈ argumentsOf owner c) :
    Calls a.toList [] := written_argumentsOf closed_silent trivial trivial a h

theorem calls_payload (parameters : List String) : Calls (payload parameters).toList [] :=
  written_payload closed_silent fun _ _ => trivial

/-- The compound that is passed on is made by the builder. -/
theorem calls_compound {builder : String} (h : IsReference builder) (parameters : List String) :
    Calls ("arguments = " ++ builder ++ " \x7b " ++ payload parameters ++ " \x7d").toList
      [builder.toList] := by
  have hopen : Calls "arguments".toList [] := Calls.silent (by decide)
  have hblank : Calls " ".toList [] := Calls.silent (by decide)
  have hclose : Calls " \x7d".toList [] := Calls.silent (by decide)
  have hblock : Calls (" = ".toList ++ builder.toList ++ " \x7b".toList) [builder.toList] :=
    Calls.block (by simpa using h.1) h.2
  have hall := ((hopen.append hblock).append hblank).append ((calls_payload parameters).append hclose)
  simpa [String.toList_append] using hall

theorem callsOf_callText {callee : String} (h : IsReference callee)
    (arguments : List (String × List String))
    (harguments : ∀ a ∈ arguments, Calls a.1.toList (a.2.map String.toList)) :
    callsOf (callText callee (arguments.map (·.1))) = callee :: arguments.flatMap (·.2) := by
  have hsep : Calls ", ".toList [] := Calls.silent (by decide)
  have hclose : Calls ")".toList [] := Calls.silent (by decide)
  have hparts := Calls.intercalate hsep
    (arguments.map fun a => (a.1.toList, a.2.map String.toList)) (by
      intro p hp
      obtain ⟨a, ha, rfl⟩ := List.mem_map.1 hp
      exact harguments a ha)
  have hall := hparts.append hclose
  have htext : callText callee (arguments.map (·.1)) =
      callee ++ "(" ++ (", ".intercalate (arguments.map (·.1)) ++ ")") := by
    simp [callText, String.append_assoc]
  have hlist : (", ".intercalate (arguments.map (·.1)) ++ ")").toList =
      ", ".toList.intercalate ((arguments.map fun a => (a.1.toList, a.2.map String.toList)).map (·.1)) ++
        ")".toList := by
    rw [String.toList_append, String.toList_intercalate, List.map_map, List.map_map]
    rfl
  rw [← hlist] at hall
  rw [htext, callsOf_call h hall]
  simp [List.map_flatMap, List.flatMap_map, Function.comp_def]

/-! ## Accessors -/

section

variable {imports : Imports} {owner name : String} {c : Component}

theorem typeNames_spelled {e : ClassName} (h : IsNamed e) :
    typeNames (imports.spelled e) = [imports.spelled e] :=
  typeNames_name (isReference_spelled h imports)

/-- The call of a component, with further arguments and what they call. -/
theorem callsOf_call_component (imports : Imports) (owner : String) (c : Component)
    (more : List (String × List String))
    (hmore : ∀ a ∈ more, Calls a.1.toList (a.2.map String.toList)) :
    callsOf (callText (imports.spelled c.kind.shape.callee) (argumentsOf owner c ++ more.map (·.1))) =
      imports.spelled c.kind.shape.callee :: more.flatMap (·.2) := by
  have hcallee : IsNamed c.kind.shape.callee := isNamed_callee c.kind
  have harguments : ∀ a ∈ ((argumentsOf owner c).map fun a => (a, ([] : List String))) ++ more,
      Calls a.1.toList (a.2.map String.toList) := by
    intro a ha
    rcases List.mem_append.1 ha with ha | ha
    · obtain ⟨b, hb, rfl⟩ := List.mem_map.1 ha
      exact calls_argumentsOf hb
    · exact hmore a ha
  have hcalls := callsOf_callText (isReference_spelled hcallee imports) _ harguments
  rw [List.map_append, List.map_map, List.flatMap_append, List.flatMap_eq_nil_iff.2 (by simp)] at hcalls
  simpa [Function.comp_def] using hcalls

/-- Every function of a component refers to its context, its result and its callee. -/
theorem references_callable (imports : Imports) (owner name : String) (c : Component)
    (parameters : List Parameter) (more : List (String × List String))
    (hmore : ∀ a ∈ more, Calls a.1.toList (a.2.map String.toList)) :
    (Decl.function (callable imports owner name c parameters (more.map (·.1)))).references =
      c.kind.shape.context.toList.map imports.spelled ++
        parameters.flatMap (fun p => typeNames p.type ++ p.default.toList.flatMap callsOf) ++
        [imports.spelled c.kind.shape.result] ++
        imports.spelled c.kind.shape.callee :: more.flatMap (·.2) := by
  have hresult : IsNamed c.kind.shape.result :=
    isNamed_classesOf (List.mem_cons_of_mem _ List.mem_cons_self)
  have hcontext : (c.kind.shape.context.map imports.spelled).toList.flatMap typeNames =
      c.kind.shape.context.toList.map imports.spelled := by
    cases he : c.kind.shape.context with
    | none => rfl
    | some e =>
      have hnamed : IsNamed e := isNamed_classesOf (k := c.kind) (by simp [classesOf, he])
      simp [typeNames_spelled hnamed]
  simp only [Decl.references, callable]
  rw [hcontext, typeNames_spelled hresult, callsOf_call_component imports owner c more hmore]

/-- A value refers to its type and calls its class. -/
theorem references_resource (imports : Imports) (owner name : String) (k : Kind) (l : Location) :
    (accessorsOf imports owner (.resource k l) name).map Decl.references =
      [[imports.spelled k.shape.result, imports.spelled k.shape.callee]] := by
  have hcalls := callsOf_call_component imports owner (.resource k l) [] (by simp)
  rw [List.map_nil, List.append_nil] at hcalls
  have hresult : IsNamed k.shape.result :=
    isNamed_classesOf (List.mem_cons_of_mem _ List.mem_cons_self)
  show [typeNames (imports.spelled k.shape.result) ++ callsOf (callText
    (imports.spelled (Component.resource k l).kind.shape.callee) (argumentsOf owner (.resource k l)))] = _
  rw [hcalls, typeNames_spelled hresult]
  rfl

end

end PackBindings.Bindings
