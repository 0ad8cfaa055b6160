/-
  PackBindings.Proofs.Bindings.WrittenMembers — what a unit writes keeps to a style.

  A unit writes identifiers for names and names of classes for types, and makes its values of
  calls, literals and fixed texts. What a pack chooses stands in the literals. So all that is
  declared keeps to a style that is closed, as long as the style admits these literals
  (`Contents.IsQuotable`) and the constants at the root.

  Proved, for every style that is closed and every unit:
  - `obeys_of_mem_functionsOf` / `obeys_of_mem_accessorsOf`: the accessors of a component.
  - `obeys_constants`: the constants of the unit of a namespace or a family.
  - `obeys_of_mem_objects`: the members of every object of a unit.
-/

import PackBindings.Proofs.Bindings.DeclaredNames
import PackBindings.Proofs.Bindings.References
import PackBindings.Proofs.Kotlin.Styles

namespace PackBindings.Bindings

open PackBindings.Kotlin

variable {style : Style} (hs : style.IsClosed)

include hs

/-! ## Accessors -/

theorem type_spelled {e : ClassName} (h : IsNamed e) (imports : Imports) :
    style.type (imports.spelled e) := hs.reference (isReference_spelled h imports).2

theorem type_callee (c : Component) (imports : Imports) :
    style.type (imports.spelled c.kind.shape.callee) := type_spelled hs (isNamed_callee c.kind) imports

theorem type_result (c : Component) (imports : Imports) :
    style.type (imports.spelled c.kind.shape.result) :=
  type_spelled hs (isNamed_classesOf (k := c.kind) (List.mem_cons_of_mem _ List.mem_cons_self)) imports

theorem value_callText {callee : String} (h : style.type callee) {arguments : List String}
    (harguments : ∀ a ∈ arguments, style.value a) : style.value (callText callee arguments) := by
  have hopen : style.value "(" := hs.code (by decide)
  have hcomma : style.value ", " := hs.code (by decide)
  have hclose : style.value ")" := hs.code (by decide)
  exact hs.append (hs.append (hs.append (hs.value_of_type h) hopen)
    (hs.closed.intercalate hcomma harguments)) hclose

/-- A parameter without a default. -/
theorem obeys_parameter {name type : String} (hname : IsIdentifier name) (htype : style.type type) :
    Parameter.Obeys style ⟨name, type, none⟩ :=
  ⟨hs.identifier hname, htype, fun _ h => absurd h (Option.not_mem_none _)⟩

section

variable {imports : Imports} {owner name : String} {c : Component}
  (hstem : style.quotable c.location.stem)
  (hitself : style.quotable (owner ++ ":" ++ c.location.full)) (hname : IsIdentifier name)

include hstem hitself hname

theorem obeys_callable {parameters : List Parameter} (hparameters : ∀ p ∈ parameters, p.Obeys style)
    {more : List String} (hmore : ∀ a ∈ more, style.value a) :
    (callable imports owner name c parameters more).Obeys style where
  name := hs.identifier hname
  context := by
    intro receiver hreceiver
    obtain ⟨e, he, rfl⟩ := Option.map_eq_some_iff.1 hreceiver
    exact type_spelled hs (isNamed_classesOf (k := c.kind) (by simp [classesOf, he])) imports
  parameters := hparameters
  result := type_result hs c imports
  body := by
    refine value_callText hs (type_callee hs c imports) fun a ha => ?_
    exact (List.mem_append.1 ha).elim (written_argumentsOf hs.closed hstem hitself a) (hmore a)

theorem obeys_of_mem_overloads {parameters : List String}
    (hquotable : ∀ p ∈ parameters, style.quotable p) {f : Function}
    (hf : f ∈ overloads imports owner name c parameters) : f.Obeys style := by
  have hstring : style.type "String" := hs.type (by decide)
  have hsame : style.value "arguments = arguments" := hs.code (by decide)
  have hcompound : Parameter.Obeys style ⟨"arguments", imports.spelled nbtCompound, none⟩ :=
    obeys_parameter hs (by decide) (type_spelled hs isNamed_compound imports)
  have hdata : Parameter.Obeys style ⟨"arguments", imports.spelled dataArgument, none⟩ :=
    obeys_parameter hs (by decide) (type_spelled hs isNamed_data imports)
  have hpath : Parameter.Obeys style ⟨"path", "String?", some "null"⟩ := by
    refine ⟨hs.identifier (by decide), hs.type (by decide), fun value hvalue => ?_⟩
    rw [← Option.some.inj hvalue]
    exact hs.type (by decide)
  simp only [overloads, List.mem_cons, List.not_mem_nil, or_false] at hf
  rcases hf with rfl | rfl | rfl
  · refine obeys_callable hs hstem hitself hname ?_ (List.forall_mem_singleton.2 ?_)
    · intro p hp
      obtain ⟨x, hx, rfl⟩ := List.mem_map.1 hp
      exact obeys_parameter hs (isIdentifier_of_mem_identifiersOf hx) hstring
    · have hopen : style.value "arguments = " := hs.code (by decide)
      have hbrace : style.value " \x7b " := hs.code (by decide)
      have hclose : style.value " \x7d" := hs.code (by decide)
      have hbuilder := hs.value_of_type (type_spelled hs isNamed_builder imports)
      exact hs.append (hs.append (hs.append (hs.append hopen hbuilder) hbrace)
        (written_payload hs.closed hquotable)) hclose
  · exact obeys_callable hs hstem hitself hname (List.forall_mem_singleton.2 hcompound)
      (List.forall_mem_singleton.2 hsame)
  · exact obeys_callable hs hstem hitself hname
      (List.forall_mem_cons.2 ⟨hdata, List.forall_mem_singleton.2 hpath⟩)
      (List.forall_mem_cons.2 ⟨hsame, List.forall_mem_singleton.2 (hs.code (by decide))⟩)

variable (hparameters : ∀ p ∈ parametersOf c, style.quotable p)

include hparameters

theorem obeys_of_mem_functionsOf {f : Function} (hf : f ∈ functionsOf imports owner c name) :
    f.Obeys style := by
  rcases List.mem_cons.1 hf with rfl | hf
  · exact obeys_callable hs hstem hitself hname (by simp) (by simp)
  · split at hf
    · exact absurd hf List.not_mem_nil
    · exact obeys_of_mem_overloads hs hstem hitself hname hparameters hf

theorem obeys_of_mem_accessorsOf {m : Decl} (hm : m ∈ accessorsOf imports owner c name) :
    m.Obeys style := by
  rcases accessorsOf_cases imports owner c name with ⟨p, -, he⟩ | he
  · cases c with
    | resource k l =>
      rw [List.mem_singleton.1 hm]
      exact ⟨hs.identifier hname, type_result hs _ imports,
        value_callText hs (type_callee hs _ imports) (written_argumentsOf hs.closed hstem hitself)⟩
    | script l t => simp [accessorsOf] at he
    | scriptTag l => simp [accessorsOf] at he
  · rw [he] at hm
    obtain ⟨f, hf, rfl⟩ := List.mem_map.1 hm
    exact obeys_of_mem_functionsOf hs hstem hitself hname hparameters hf

end

/-! ## Constants -/

theorem obeys_constants {x : Subject} (hempty : style.quotable "") (howner : style.quotable x.unit.owner)
    (hmembers : ∀ f, x = .shared f → ∀ member ∈ f.members, style.quotable member) :
    ∀ p ∈ x.unit.constants, p.Obeys style := by
  have hstring : style.type "String" := hs.type (by decide)
  have hconstant : ∀ {name text : String}, IsIdentifier name → style.quotable text →
      Property.Obeys style ⟨name, "String", literal text, true⟩ :=
    fun hname htext => ⟨hs.identifier hname, hstring, hs.literal htext⟩
  cases x with
  | member ns family =>
    exact List.forall_mem_cons.2 ⟨hconstant (by decide) howner,
      List.forall_mem_singleton.2 (hconstant (by decide) hempty)⟩
  | shared f =>
    have hname : IsIdentifier "NAMESPACES" := by decide
    have hlist : style.type "List<String>" := hs.type (by decide)
    have hliterals : ∀ text ∈ f.members.map literal, style.value text := by
      intro text htext
      obtain ⟨member, hmember, rfl⟩ := List.mem_map.1 htext
      exact hs.literal (hmembers f rfl member hmember)
    exact List.forall_mem_cons.2 ⟨hconstant (by decide) howner,
      List.forall_mem_singleton.2 ⟨hs.identifier hname, hlist,
        value_callText hs (hs.type (by decide)) hliterals⟩⟩

/-! ## Units -/

namespace Contents

omit hs in
variable (style) in
/-- All that a unit writes in literals, apart from its constants, may stand there. -/
structure IsQuotable (u : Contents) : Prop where
  objectives : ∀ o ∈ u.objectives, style.quotable o.name
  storages : ∀ st ∈ u.storages, style.quotable st.owner ∧ style.quotable st.name
  directories : ∀ c ∈ u.components, ∀ segment ∈ c.location.segments, style.quotable (segment ++ "/")
  stems : ∀ c ∈ u.components, style.quotable c.location.stem
  locations : ∀ c ∈ u.components, style.quotable (u.owner ++ ":" ++ c.location.full)
  parameters : ∀ c ∈ u.components, ∀ p ∈ parametersOf c, style.quotable p

variable {u : Contents} {name package comment : String}

theorem obeys_of_mem_objectiveMembers {owner : String} {os : List Objective}
    (h : ∀ o ∈ os, style.quotable o.name) : ∀ m ∈ objectiveMembers owner os, m.Obeys style := by
  intro m hm
  have hstring : style.type "String" := hs.type (by decide)
  obtain ⟨o, ho, n, hn, rfl⟩ := exists_of_mem_zipWith hm
  have hname : IsIdentifier n := by
    refine isIdentifier_of_mem_nameAll (fun base hbase => ?_) hn
    obtain ⟨x, -, rfl⟩ := List.mem_map.1 hbase
    exact isIdentifier_camel _
  exact ⟨hs.identifier hname, hstring, hs.literal (h o ho)⟩

theorem obeys_of_mem_storageMembers {imports : Imports} {owner : String} {ss : List Storage}
    (h : ∀ st ∈ ss, style.quotable st.owner ∧ style.quotable st.name) :
    ∀ m ∈ storageMembers imports owner ss, m.Obeys style := by
  intro m hm
  have hkeys : style.value "name = " ∧ style.value "namespace = " :=
    ⟨hs.code (by decide), hs.code (by decide)⟩
  have htype := type_spelled hs isNamed_storage imports
  obtain ⟨st, hst, n, hn, rfl⟩ := exists_of_mem_zipWith hm
  have hname : IsIdentifier n := by
    refine isIdentifier_of_mem_nameAll (fun base hbase => ?_) hn
    obtain ⟨x, -, rfl⟩ := List.mem_map.1 hbase
    exact isIdentifier_storageName owner x
  refine ⟨hs.identifier hname, htype, value_callText hs htype (List.forall_mem_cons.2 ⟨?_, ?_⟩)⟩
  · exact hs.append hkeys.1 (hs.literal (h st hst).2)
  · exact List.forall_mem_singleton.2 (hs.append hkeys.2 (hs.literal (h st hst).1))

theorem obeys_pathConstant {parent : List String} (hparent : ∀ n ∈ parent, IsPlain n)
    {segment : String} (h : style.quotable (segment ++ "/")) :
    (pathConstant (dotted parent) segment).Obeys style := by
  have hname : IsIdentifier "PATH" := by decide
  have hstring : style.type "String" := hs.type (by decide)
  have hpath : style.value ".PATH + " := hs.code (by decide)
  have hdotted := hs.closed.reference (isReferenceChar_dotted hparent)
  exact ⟨hs.identifier hname, hstring, hs.append (hs.append hdotted hpath) (hs.literal h)⟩

omit hs in
/-- A directory on the way to a component is part of its location. -/
theorem exists_mem_segments {above : List String} {segment : String}
    (hdir : Holds (u.components.map placed) (above ++ [segment])) :
    ∃ c ∈ u.components, segment ∈ c.location.segments := by
  obtain ⟨-, p, hp, hpre⟩ := hdir.resolve_left (by simp)
  obtain ⟨c, hc, rfl⟩ := List.mem_map.1 hp
  exact ⟨c, hc, hpre.subset (by simp)⟩

theorem obeys_of_mem_objects (hconstants : ∀ p ∈ u.constants, p.Obeys style)
    (h : u.IsQuotable style) (hname : IsIdentifier name) {o : Node}
    (ho : o ∈ (u.source reservedNames name package comment).objects) : ∀ m ∈ o.2, m.Obeys style := by
  refine IsKept.forall_mem ?_ ho
  constructor
  case constants => exact hconstants
  case resources => exact fun r hr => hs.identifier (resourceName_legal (mem_resources hr).1).1
  case objectives => exact obeys_of_mem_objectiveMembers hs h.objectives
  case storages => exact obeys_of_mem_storageMembers hs h.storages
  case paths =>
    intro dir segment hdir
    obtain ⟨c, hc, hsegment⟩ := exists_mem_segments hdir
    exact obeys_pathConstant hs (isPlain_of_mem_address hname.plain (holds_of_concat hdir))
      (h.directories c hc segment hsegment)
  case accessors =>
    intro scope ps n c hc hslot m hm
    exact obeys_of_mem_accessorsOf hs (h.stems c hc) (h.locations c hc) (isLegal_of_mem_slots hslot)
      (h.parameters c hc) hm
  case children => exact fun hslot _ => hs.identifier (isLegal_of_mem_slots hslot).1

end Contents

end PackBindings.Bindings
