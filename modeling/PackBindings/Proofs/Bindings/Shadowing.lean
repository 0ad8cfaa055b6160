/-
  PackBindings.Proofs.Bindings.Shadowing — which references the generated names hide.

  A reference means what is imported only if no object around declares its head. The names
  of classes and of the command that calls scripts are reserved, so nothing below a root
  takes them. Two heads are not reserved: the builder `nbt` of the overloads, and `io`,
  with which a class begins that is written out in full. A component of that name gets it
  as its accessor, and hides the reference from its own directory and all below (`Hides`).

  Proved, for every file of every datapack:
  - `not_mem_names_of_reserved`: no object of a directory declares a reserved name.
  - `mem_names_iff`: it declares `nbt` or `io` exactly if a component of the directory has
    that file name in camel case.
  - `references_unshadowed_iff`: no reference is hidden exactly if no component hides the
    builder from a script with parameters, and none hides the class of a structure of world
    generation where there are structure templates too.

  A script `nbt` beside one with parameters hides the builder (`a_script_hides_the_builder`),
  and a script `io` the class of a structure (`a_script_hides_a_class_in_full`).
-/

import PackBindings.Proofs.Bindings.Enclosing
import PackBindings.Proofs.Bindings.Imported
import PackBindings.Proofs.Bindings.Shelves

namespace PackBindings.Kotlin

/-- No reference in a source is hidden from where it stands. -/
def Source.Unshadowed (src : Source) : Prop :=
  ∀ o ∈ src.objects, ∀ m ∈ o.2, ∀ r ∈ m.references, src.lookup o.1 (headOf r) = none

end PackBindings.Kotlin

namespace PackBindings.Bindings

open PackBindings.Kotlin

/-- A component in a directory or above has the name of a reference for its accessor. -/
def Hides (cs : List Component) (dir : List String) (n : String) : Prop :=
  ∃ c ∈ cs, c.location.segments <+: dir ∧ camel c.location.stem = n

instance (cs : List Component) (dir : List String) (n : String) : Decidable (Hides cs dir n) :=
  inferInstanceAs (Decidable (∃ c ∈ cs, c.location.segments <+: dir ∧ camel c.location.stem = n))

/-! ## Reserved names -/

theorem name_reserved {k : Kind} {e : ClassName} (h : e ∈ classesOf k) : e.name ∈ reservedNames := by
  unfold reservedNames
  rw [List.mem_eraseDups, List.mem_append]
  right
  refine List.mem_flatMap.2 ⟨k, Kind.mem_all k, ?_⟩
  rw [classesOf, List.mem_append, List.mem_cons, List.mem_singleton] at h
  rcases h with (rfl | rfl) | h
  · exact List.mem_append_left _ List.mem_cons_self
  · exact List.mem_append_left _ (List.mem_cons_of_mem _ List.mem_cons_self)
  · exact List.mem_append_right _ (List.mem_map_of_mem h)

theorem base_reserved {n : String} (h : n ∈ ["String", "Boolean", "List", nbtCompound.name,
    dataArgument.name, storageArgument.name]) : n ∈ reservedNames := by
  unfold reservedNames
  rw [List.mem_eraseDups]
  exact List.mem_append_left _ h

/-- The builder is the one name of a use that is not reserved. -/
theorem reserved_of_mem_usesOf {c : Component} {e : ClassName} (h : e ∈ usesOf c) :
    e.name ∈ reservedNames ∨ (e = nbtBuilder ∧ parametersOf c ≠ []) := by
  rcases mem_usesOf.1 h with h | ⟨hc, h⟩
  · exact Or.inl (name_reserved h)
  · simp only [List.mem_cons, List.not_mem_nil, or_false] at h
    rcases h with rfl | rfl | rfl
    · exact Or.inr ⟨rfl, hc⟩
    · exact Or.inl (base_reserved (by simp))
    · exact Or.inl (base_reserved (by simp))

/-- Names in lower case that are not reserved, and that only a wish leads to. -/
structure IsUnguarded (n : String) : Prop where
  low : ¬StartsHigh n
  wished : IsWished n
  unreserved : n ∉ reservedNames

theorem isUnguarded_nbt : IsUnguarded "nbt" where
  low := by decide
  wished := ⟨⟨'t', by decide, by decide⟩, secondName_ne fun k => by cases k <;> decide⟩
  unreserved := unreserved _ (by simp)

theorem isUnguarded_io : IsUnguarded "io" where
  low := by decide
  wished := ⟨⟨'o', by decide, by decide⟩, secondName_ne fun k => by cases k <;> decide⟩
  unreserved := unreserved _ (by simp)

theorem isUnguarded_listOf : IsUnguarded "listOf" where
  low := by decide
  wished := ⟨⟨'f', by decide, by decide⟩, secondName_ne fun k => by cases k <;> decide⟩
  unreserved := unreserved _ (by simp)

/-! ## Names in the object of a directory -/

/-- Constants in upper case, none of them of a reserved name. -/
structure HighConstants (u : Contents) : Prop where
  high : ∀ p ∈ u.constants, StartsHigh p.name
  unreserved : ∀ p ∈ u.constants, p.name ∉ reservedNames

theorem name_of_mem_constants (x : Subject) :
    ∀ p ∈ x.unit.constants, p.name ∈ ["NAMESPACE", "PATH", "PREFIX", "NAMESPACES"] := by
  cases x <;> simp [Subject.unit, ofNamespace, ofFamily]

theorem highConstants_unit (x : Subject) : HighConstants x.unit := by
  have hhigh : ∀ n ∈ ["NAMESPACE", "PATH", "PREFIX", "NAMESPACES"], StartsHigh n := by decide
  exact ⟨fun p hp => hhigh _ (name_of_mem_constants x p hp),
    fun p hp => unreserved _ (List.mem_append_left _ (name_of_mem_constants x p hp))⟩

theorem Subject.startsHigh_rootName (x : Subject) (taken : List String) :
    StartsHigh (x.rootName taken) := by
  have hwish : StartsHigh x.wish := by
    cases x with
    | member ns family => cases family <;> exact startsHigh_pascal _
    | shared f => exact startsHigh_pascal _
  unfold rootName Scope.claim
  refine startsHigh_freshName _ ?_
  split
  · exact startsHigh_append hwish _
  · exact hwish

namespace Contents

variable {u : Contents} {name package comment : String}

theorem resourceName_high {n : String} (h : n ∈ u.resourceNames (name :: reservedNames)) :
    StartsHigh n ∧ n ∉ reservedNames := by
  constructor
  · obtain ⟨s, base, hbase, rfl⟩ := Scope.exists_of_mem_nameAll h
    refine startsHigh_freshName s ?_
    obtain ⟨o, ho, rfl⟩ := List.mem_map.1 hbase
    have hbases : ∀ n ∈ ["Scoreboards", "Storages"], StartsHigh n := by decide
    exact hbases _ (name_of_mem_resourceObjects ho)
  · intro hmem
    refine Scope.not_mem_of_mem_nameAll h ?_
    simp [rootScope, hmem]

theorem firstName_high (hu : HighConstants u) {dir : List String} {n : String}
    (h : n ∈ (u.firstAt reservedNames name dir).map Decl.name) : StartsHigh n ∧ n ∉ reservedNames := by
  rcases List.eq_nil_or_concat' dir with rfl | ⟨dir, segment, rfl⟩
  · have h : n ∈ (u.firstMembers reservedNames name).map Decl.name := h
    rw [names_firstMembers, List.mem_append] at h
    rcases h with h | h
    · obtain ⟨p, hp, rfl⟩ := List.mem_map.1 h
      exact ⟨hu.high p hp, hu.unreserved p hp⟩
    · exact resourceName_high h
  · rw [firstAt_concat, List.map_singleton, List.mem_singleton] at h
    have hpath : StartsHigh "PATH" ∧ "PATH" ∉ reservedNames := ⟨by decide, unreserved _ (by simp)⟩
    rw [h]
    exact hpath

theorem taken_scopeAt {dir : List String} {n : String} :
    n ∈ (u.scopeAt reservedNames name dir).taken ↔
      (dir = [] ∧ (n ∈ u.resourceNames (name :: reservedNames) ∨ n ∈ u.constants.map (·.name))) ∨
        n ∈ "PATH" :: name :: reservedNames := by
  unfold scopeAt
  split
  · rename_i hnil
    simp only [mainScope, rootScope, List.mem_append, hnil, true_and, or_assoc]
  · rename_i hne
    simp [nestedScope, hne]

theorem not_mem_names_of_reserved (hu : HighConstants u) {dir : List String} {n : String}
    (h : n ∈ reservedNames) : n ∉ (u.membersAt reservedNames name dir).map Decl.name := by
  have htaken : n ∈ (u.scopeAt reservedNames name dir).taken :=
    taken_scopeAt.2 (Or.inr (List.mem_cons_of_mem _ (List.mem_cons_of_mem _ h)))
  rw [mem_names_of_taken htaken]
  exact fun hmem => (firstName_high hu hmem).2 h

theorem mem_names_iff (hu : HighConstants u) (hname : StartsHigh name) {n : String}
    (hn : IsUnguarded n) {dir : List String} :
    n ∈ (u.membersAt reservedNames name dir).map Decl.name ↔
      ∃ c ∈ u.componentsIn dir, camel c.location.stem = n := by
  have hfirst : n ∉ (u.firstAt reservedNames name dir).map Decl.name :=
    fun hmem => hn.low (firstName_high hu hmem).1
  have hfree : n ∉ (u.scopeAt reservedNames name dir).taken := by
    intro hmem
    rcases taken_scopeAt.1 hmem with ⟨-, hmem | hmem⟩ | hmem
    · exact hn.low (resourceName_high hmem).1
    · obtain ⟨p, hp, rfl⟩ := List.mem_map.1 hmem
      exact hn.low (hu.high p hp)
    · rw [List.mem_cons, List.mem_cons] at hmem
      rcases hmem with rfl | rfl | hmem
      · exact hn.low (by decide)
      · exact hn.low hname
      · exact hn.unreserved hmem
  rw [mem_names_membersAt, or_iff_right hfirst, slotsAt, exists_slot_iff hn.wished,
    and_iff_right hfree]
  constructor
  · rintro ⟨⟨_ | ⟨segment, segments⟩, c⟩, hp, hwish⟩
    · obtain ⟨d, hd, he⟩ := List.mem_map.1 (mem_belowAll.1 hp)
      obtain ⟨hsegments, rfl⟩ := Prod.mk.inj he
      rw [List.append_nil] at hsegments
      exact ⟨_, List.mem_filter.2 ⟨hd, by simpa using hsegments⟩, hwish⟩
    · exact absurd (hwish ▸ startsHigh_pascal segment) hn.low
  · rintro ⟨c, hc, hwish⟩
    obtain ⟨hc, hdir⟩ := List.mem_filter.1 hc
    refine ⟨([], c), mem_belowAll.2 (List.mem_map.2 ⟨c, hc, ?_⟩), hwish⟩
    rw [placed, List.append_nil, of_decide_eq_true hdir]

/-! ## Lookups in the object of a directory -/

variable {dir : List String} (hdir : Holds (u.components.map placed) dir)

include hdir

theorem lookup_directory_eq_none_iff {n : String} :
    (u.source reservedNames name package comment).lookup (u.address reservedNames name dir) n = none ↔
      ∀ above, above <+: dir → n ∉ (u.membersAt reservedNames name above).map Decl.name := by
  rw [Source.lookup_eq_none_iff]
  constructor
  · intro h above hpre
    obtain ⟨ho, haround⟩ := object_above reservedNames name package comment hdir hpre
    exact h _ ho haround
  · intro h o ho haround
    obtain ⟨above, hpre, rfl⟩ := (mem_around_directory hdir).1 ⟨ho, haround⟩
    exact h above hpre

theorem lookup_reserved (hu : HighConstants u) {n : String} (h : n ∈ reservedNames) :
    (u.source reservedNames name package comment).lookup (u.address reservedNames name dir) n =
      none := by
  rw [lookup_directory_eq_none_iff hdir]
  exact fun _ _ => not_mem_names_of_reserved hu h

theorem lookup_unguarded_iff (hu : HighConstants u) (hname : StartsHigh name) {n : String}
    (hn : IsUnguarded n) : (u.source reservedNames name package comment).lookup
        (u.address reservedNames name dir) n = none ↔ ¬Hides u.components dir n := by
  rw [lookup_directory_eq_none_iff hdir]
  constructor
  · rintro h ⟨c, hc, hpre, hwish⟩
    exact h _ hpre ((mem_names_iff hu hname hn).2
      ⟨c, List.mem_filter.2 ⟨hc, decide_eq_true rfl⟩, hwish⟩)
  · intro h above hpre hmem
    obtain ⟨c, hc, hwish⟩ := (mem_names_iff hu hname hn).1 hmem
    obtain ⟨hc, hsegments⟩ := List.mem_filter.1 hc
    exact h ⟨c, hc, of_decide_eq_true hsegments ▸ hpre, hwish⟩

end Contents

/-! ## What is referred to -/

theorem head_base : ∀ t ∈ ["String", "List", storageArgument.name],
    headOf t ∈ reservedNames ∧ ¬StartsLow (headOf t) := by
  intro t ht
  have hplain : ∀ t ∈ ["String", "List", storageArgument.name], IsPlain t ∧ ¬StartsLow t := by decide
  rw [headOf_of_isPlain (hplain t ht).1]
  refine ⟨base_reserved ?_, (hplain t ht).2⟩
  simp only [List.mem_cons, List.not_mem_nil, or_false] at ht
  rcases ht with rfl | rfl | rfl
  · exact List.mem_cons_self
  · simp
  · simp

/-- What a string constant refers to. -/
theorem references_string {n value : String} {isConst : Bool} (h : Calls value.toList []) :
    (Decl.property ⟨n, "String", value, isConst⟩).references = ["String"] := by
  show typeNames "String" ++ callsOf value = _
  rw [typeNames_string, callsOf_of_calls h]
  rfl

theorem references_constants (x : Subject) {p : Property} (hp : p ∈ x.unit.constants) {r : String}
    (h : r ∈ (Decl.property p).references) :
    r ∈ ["String", "List"] ∨ (r = "listOf" ∧ x.unit.components = []) := by
  cases x with
  | member ns family =>
    have hvalue : p = ⟨"NAMESPACE", "String", literal ns.name, true⟩ ∨
        p = ⟨"PATH", "String", literal "", true⟩ := by
      simpa [Subject.unit, ofNamespace] using hp
    left
    rcases hvalue with rfl | rfl
    · rw [references_string (calls_literal _), List.mem_singleton] at h
      simp [h]
    · rw [references_string (calls_literal _), List.mem_singleton] at h
      simp [h]
  | shared f =>
    have hvalue : p = ⟨"PREFIX", "String", literal f.name, true⟩ ∨
        p = ⟨"NAMESPACES", "List<String>", callText "listOf" (f.members.map literal), false⟩ := by
      simpa [Subject.unit, ofFamily] using hp
    rcases hvalue with rfl | rfl
    · rw [references_string (calls_literal _), List.mem_singleton] at h
      exact Or.inl (by simp [h])
    · have htype : typeNames "List<String>" = ["List", "String"] := by decide
      have hlist : IsReference "listOf" := by decide
      have hcalls := callsOf_callText hlist (f.members.map fun m => (literal m, [])) (by
          intro a ha
          obtain ⟨m, -, rfl⟩ := List.mem_map.1 ha
          exact calls_literal m)
      rw [List.map_map, List.flatMap_eq_nil_iff.2 (by simp)] at hcalls
      have h : r ∈ typeNames "List<String>" ++ callsOf (callText "listOf" (f.members.map literal)) := h
      rw [htype, show f.members.map literal = f.members.map ((·.1) ∘ fun m => (literal m, ([] : List String)))
        from rfl, hcalls] at h
      simp only [List.cons_append, List.nil_append, List.mem_cons, List.not_mem_nil, or_false] at h
      rcases h with rfl | rfl | rfl
      · exact Or.inl (by simp)
      · exact Or.inl (by simp)
      · exact Or.inr ⟨rfl, rfl⟩

/-- A path refers to no class: it names a constant of another object. -/
theorem references_pathConstant {parent : List String} (h : ∀ n ∈ parent, IsPlain n)
    (segment : String) : (pathConstant (dotted parent) segment).references = ["String"] := by
  have hdotted := closed_silent.reference (isReferenceChar_dotted h)
  exact references_string (closed_silent.append
    (closed_silent.append hdotted (closed_silent.quiet (by decide))) (calls_literal _))

namespace Contents

variable {u : Contents} {name package comment : String}

/-- What is written in the object of a directory refers to a reserved name, to the builder of a
compound or to a class that is written in full; a list is made where there are no components. -/
theorem reference_cases (x : Subject) (hname : IsPlain name) {dir : List String}
    (hdir : Holds (x.unit.components.map placed) dir) {m : Decl}
    (hm : m ∈ x.unit.membersAt reservedNames name dir) {r : String} (hr : r ∈ m.references) :
    headOf r ∈ reservedNames ∨ (r = "listOf" ∧ x.unit.components = []) ∨
      (∃ c ∈ x.unit.componentsIn dir, parametersOf c ≠ [] ∧ r = "nbt") ∨
      ∃ c ∈ x.unit.componentsIn dir, c.kind = .worldStructure ∧
        (∃ t ∈ x.unit.components, t.kind = .structureTemplate) ∧ r = structureArgument.qualified := by
  have hstring : ∀ t ∈ ["String", "List"], headOf t ∈ reservedNames :=
    fun t ht => (head_base t (List.mem_append_left [storageArgument.name] ht)).1
  rcases mem_layout.1 hm with hm | ⟨n, c, hslot, hm⟩ | ⟨child, -, rfl⟩
  · rcases firstAt_cases hm with ⟨p, hp, rfl⟩ | ⟨shelf, -, rfl⟩ | ⟨above, segment, rfl, rfl⟩
    · rcases references_constants x hp hr with hr | hr
      · exact Or.inl (hstring r hr)
      · exact Or.inr (Or.inl hr)
    · exact absurd hr List.not_mem_nil
    · have hplain : ∀ n ∈ x.unit.address reservedNames name above, IsPlain n :=
        isPlain_of_mem_address hname (holds_of_concat hdir)
      rw [references_pathConstant hplain, List.mem_singleton] at hr
      exact Or.inl (hstring r (by simp [hr]))
  · have hc := mem_componentsIn_of_slot hslot
    have huses : ∀ e ∈ usesOf c, e ∈ x.unit.uses :=
      fun e he => mem_uses.2 (Or.inr ⟨c, List.mem_of_mem_filter hc, he⟩)
    rcases mem_references_accessorsOf hm hr with rfl | ⟨e, he, rfl⟩
    · exact Or.inl (hstring _ (by simp))
    · by_cases hfull : e = structureArgument ∧ templateArgument ∈ x.unit.uses
      · obtain ⟨rfl, htemplate⟩ := hfull
        rw [spelled_structureArgument x.templatesFirst_unit (huses _ he), if_pos htemplate]
        exact Or.inr (Or.inr (Or.inr ⟨c, hc, mem_usesOf_of_structure he,
          mem_uses_template.1 htemplate, rfl⟩))
      · have hs : x.unit.imports.spelled e = e.name := by
          by_cases hstruct : e = structureArgument
          · subst hstruct
            rw [spelled_structureArgument x.templatesFirst_unit (huses _ he),
              if_neg fun htemplate => hfull ⟨rfl, htemplate⟩]
          · exact spelled_of_mem_uses x.templatesFirst_unit (huses _ he) hstruct
        rw [hs, headOf_of_isPlain (isNamed_of_mem_usesOf he).plain]
        rcases reserved_of_mem_usesOf he with hres | ⟨rfl, hparams⟩
        · exact Or.inl hres
        · exact Or.inr (Or.inr (Or.inl ⟨c, hc, hparams, rfl⟩))
  · exact absurd hr List.not_mem_nil

/-! ## Shelves -/

/-- What stands on a shelf has a name in lower case. -/
theorem startsLow_of_mem_shelf {α : Type} {f : α → String → Property} {xs : List α}
    {wish : α → String} (hwish : ∀ a, StartsLow (wish a)) {m : Decl}
    (hm : m ∈ List.zipWith (fun a n => .property (f a n)) xs ((Scope.mk []).nameAll (xs.map wish))) :
    ∃ a n, StartsLow n ∧ m = .property (f a n) := by
  obtain ⟨a, -, n, hn, rfl⟩ := exists_of_mem_zipWith hm
  refine ⟨a, n, startsLow_of_mem_nameAll (fun base hbase => ?_) hn, rfl⟩
  obtain ⟨a, -, rfl⟩ := List.mem_map.1 hbase
  exact hwish a

theorem startsLow_storageName (owner : String) (s : Storage) : StartsLow (storageName owner s) := by
  unfold storageName
  split
  · exact startsLow_camel _
  · exact startsLow_camel _

theorem callsOf_storage {callee : String} (h : IsReference callee) (name owner : String) :
    callsOf (callText callee ["name = " ++ literal name, "namespace = " ++ literal owner]) =
      [callee] := by
  have hname : Calls ("name = " ++ literal name).toList [] :=
    closed_silent.append (closed_silent.quiet (by decide)) (calls_literal name)
  have hnamespace : Calls ("namespace = " ++ literal owner).toList [] :=
    closed_silent.append (closed_silent.quiet (by decide)) (calls_literal owner)
  refine callsOf_callText h [(_, []), (_, [])] fun a ha => ?_
  rw [List.mem_cons, List.mem_singleton] at ha
  rcases ha with rfl | rfl
  · exact hname
  · exact hnamespace

/-- It refers to strings or to storages. -/
theorem shelf_cases {r : String × List Decl} (hr : r ∈ u.resources reservedNames name) {m : Decl}
    (hm : m ∈ r.2) : StartsLow m.name ∧ ∀ t ∈ m.references, t ∈ ["String", "StorageArgument"] := by
  rcases resource_cases hr with he | ⟨hne, he⟩
  · rw [he] at hm
    obtain ⟨a, n, hn, rfl⟩ := startsLow_of_mem_shelf (fun _ => startsLow_camel _) hm
    refine ⟨hn, fun t ht => ?_⟩
    rw [references_string (calls_literal _), List.mem_singleton] at ht
    simp [ht]
  · rw [he] at hm
    obtain ⟨a, n, hn, rfl⟩ := startsLow_of_mem_shelf (startsLow_storageName u.owner) hm
    refine ⟨hn, fun t ht => ?_⟩
    have htype : typeNames "StorageArgument" = ["StorageArgument"] :=
      typeNames_name (by decide)
    rw [spelled_storageArgument hne] at ht
    have ht : t ∈ typeNames "StorageArgument" ++ callsOf (callText "StorageArgument"
      ["name = " ++ literal a.name, "namespace = " ++ literal a.owner]) := ht
    rw [htype, callsOf_storage (by decide)] at ht
    simp_all

/-- Nothing hides a reference on a shelf. -/
theorem lookup_shelf (hnd : (u.constants.map (·.name)).Nodup) (hu : HighConstants u)
    {r : String × List Decl} (hr : r ∈ u.resources reservedNames name) {n : String}
    (hn : n ∈ reservedNames) (hhigh : ¬StartsLow n) :
    (u.source reservedNames name package comment).lookup [name, r.1] n = none := by
  rw [Source.lookup_eq_none_iff]
  intro o ho hpre
  rcases mem_around_resource hnd hr ho hpre with rfl | rfl
  · exact not_mem_names_of_reserved hu hn
  · intro hmem
    obtain ⟨m, hm, rfl⟩ := List.mem_map.1 hmem
    exact hhigh (shelf_cases hr hm).1

end Contents

/-! ## Sources -/

section

variable {u : Contents} {name package comment : String}

theorem head_builder : headOf "nbt" = "nbt" := headOf_of_isPlain (by decide)

theorem head_structureArgument : headOf structureArgument.qualified = "io" := by decide

/-- What an accessor refers to is not hidden if nothing is. -/
theorem lookup_of_unshadowed (h : (u.source reservedNames name package comment).Unshadowed)
    {c : Component} (hc : c ∈ u.components) {r : String}
    (hr : ∀ n, ∃ m ∈ accessorsOf u.imports u.owner c n, r ∈ m.references) :
    (u.source reservedNames name package comment).lookup
      (u.address reservedNames name c.location.segments) (headOf r) = none := by
  obtain ⟨n, hn⟩ := Contents.exists_accessor reservedNames name hc
  obtain ⟨m, hm, hr⟩ := hr n
  have hobject := Contents.object_above reservedNames name package comment (Contents.holds_of_mem hc)
    List.prefix_rfl
  exact h _ hobject.1 m (hn m hm) r hr

end

section

variable {x : Subject} {name package comment : String}

theorem builder_not_hidden (hroot : StartsHigh name)
    (h : (x.unit.source reservedNames name package comment).Unshadowed) {c : Component}
    (hc : c ∈ x.unit.components) (hparams : parametersOf c ≠ []) :
    ¬Hides x.unit.components c.location.segments "nbt" := by
  have huse : nbtBuilder ∈ x.unit.uses :=
    Contents.mem_uses.2 (Or.inr ⟨c, hc, mem_usesOf.2 (Or.inr ⟨hparams, by simp⟩)⟩)
  have hspelled : x.unit.imports.spelled nbtBuilder = "nbt" :=
    Contents.spelled_of_mem_uses x.templatesFirst_unit huse (by decide)
  have hlookup := lookup_of_unshadowed h hc fun n =>
    exists_reference_builder x.unit.imports x.unit.owner n hparams
  rw [hspelled, head_builder] at hlookup
  exact (Contents.lookup_unguarded_iff (Contents.holds_of_mem hc) (highConstants_unit x) hroot
    isUnguarded_nbt).1 hlookup

theorem full_class_not_hidden (hroot : StartsHigh name)
    (h : (x.unit.source reservedNames name package comment).Unshadowed) {c : Component}
    (hc : c ∈ x.unit.components) (hkind : c.kind = .worldStructure)
    (htemplate : ∃ t ∈ x.unit.components, t.kind = .structureTemplate) :
    ¬Hides x.unit.components c.location.segments "io" := by
  have hcallee : c.kind.shape.callee = structureArgument := by
    rw [hkind]
    rfl
  have huse : structureArgument ∈ x.unit.uses := by
    refine Contents.mem_uses.2 (Or.inr ⟨c, hc, mem_usesOf.2 (Or.inl ?_)⟩)
    exact hcallee ▸ List.mem_cons_self
  have hspelled : x.unit.imports.spelled structureArgument = structureArgument.qualified := by
    rw [Contents.spelled_structureArgument x.templatesFirst_unit huse,
      if_pos (Contents.mem_uses_template.2 htemplate)]
  have hlookup := lookup_of_unshadowed h hc fun n =>
    exists_reference_callee x.unit.imports x.unit.owner n c
  rw [hcallee, hspelled, head_structureArgument] at hlookup
  exact (Contents.lookup_unguarded_iff (Contents.holds_of_mem hc) (highConstants_unit x) hroot
    isUnguarded_io).1 hlookup

/-- In the object of a directory, only the two names that are not reserved can be hidden. -/
theorem lookup_of_not_hides (hplain : IsPlain name) (hroot : StartsHigh name)
    (hbuilder : ∀ c ∈ x.unit.components, parametersOf c ≠ [] →
      ¬Hides x.unit.components c.location.segments "nbt")
    (hstructures : ∀ c ∈ x.unit.components, c.kind = .worldStructure →
      (∃ t ∈ x.unit.components, t.kind = .structureTemplate) →
      ¬Hides x.unit.components c.location.segments "io")
    {dir : List String} (hdir : Holds (x.unit.components.map placed) dir) {m : Decl}
    (hm : m ∈ x.unit.membersAt reservedNames name dir) {r : String} (hr : r ∈ m.references) :
    (x.unit.source reservedNames name package comment).lookup
      (x.unit.address reservedNames name dir) (headOf r) = none := by
  have hhigh := highConstants_unit x
  rcases Contents.reference_cases x hplain hdir hm hr with
    hres | ⟨rfl, hnone⟩ | ⟨c, hc, hparams, rfl⟩ | ⟨c, hc, hkind, htemplate, rfl⟩
  · exact Contents.lookup_reserved hdir hhigh hres
  · rw [headOf_of_isPlain (by decide : IsPlain "listOf"),
      Contents.lookup_unguarded_iff hdir hhigh hroot isUnguarded_listOf, hnone]
    rintro ⟨c, hc, -⟩
    exact List.not_mem_nil hc
  · obtain ⟨hc, hsegments⟩ := List.mem_filter.1 hc
    rw [head_builder, Contents.lookup_unguarded_iff hdir hhigh hroot isUnguarded_nbt,
      ← of_decide_eq_true hsegments]
    exact hbuilder c hc hparams
  · obtain ⟨hc, hsegments⟩ := List.mem_filter.1 hc
    rw [head_structureArgument, Contents.lookup_unguarded_iff hdir hhigh hroot isUnguarded_io,
      ← of_decide_eq_true hsegments]
    exact hstructures c hc hkind htemplate

theorem lookup_from_shelf {shelf : String × List Decl}
    (hshelf : shelf ∈ x.unit.resources reservedNames name) {m : Decl} (hm : m ∈ shelf.2) {r : String}
    (hr : r ∈ m.references) :
    (x.unit.source reservedNames name package comment).lookup [name, shelf.1] (headOf r) = none := by
  have hbase : r ∈ ["String", "List", storageArgument.name] := by
    rcases List.mem_pair.1 ((Contents.shelf_cases hshelf hm).2 r hr) with rfl | rfl
    · exact List.mem_cons_self
    · exact List.mem_of_mem_tail (List.mem_of_mem_tail List.mem_cons_self)
  obtain ⟨hres, hlow⟩ := head_base r hbase
  exact Contents.lookup_shelf x.nodup_constants (highConstants_unit x) hshelf hres hlow

end

/-- No reference is hidden exactly if no component hides the builder from a script with parameters,
or the class of a structure that is written out in full. -/
theorem references_unshadowed_iff {d : Datapack} {s : Settings} {x : Subject} {f : SourceFile}
    (h : (x, f) ∈ units d s) : f.source.Unshadowed ↔
      (∀ c ∈ x.unit.components, parametersOf c ≠ [] →
        ¬Hides x.unit.components c.location.segments "nbt") ∧
      ∀ c ∈ x.unit.components, c.kind = .worldStructure →
        (∃ t ∈ x.unit.components, t.kind = .structureTemplate) →
        ¬Hides x.unit.components c.location.segments "io" := by
  obtain ⟨taken, rfl⟩ := exists_rootName h
  have hplain := x.isPlain_rootName taken
  have hroot := x.startsHigh_rootName taken
  have hsource : (fileOf s x (x.rootName taken)).source =
      x.unit.source reservedNames (x.rootName taken) (x.package s) x.comment :=
    x.source_eq _ _
  rw [hsource]
  constructor
  · intro hall
    constructor
    · exact fun c hc hparams => builder_not_hidden hroot hall hc hparams
    · exact fun c hc hkind htemplate => full_class_not_hidden hroot hall hc hkind htemplate
  · rintro ⟨hbuilder, hstructures⟩ o ho m hm r hr
    rcases Contents.mem_objects_source.1 ho with ⟨dir, hdir, rfl⟩ | ⟨shelf, hshelf, rfl⟩
    · exact lookup_of_not_hides hplain hroot hbuilder hstructures hdir hm hr
    · exact lookup_from_shelf hshelf hm hr

/-- The builder stays in reach of a script with parameters if its namesake lies in another directory. -/
theorem references_unshadowed_beside_a_directory :
    let ns : Namespace :=
      ⟨"p", [.script ⟨"a", "nbt"⟩ none, .script ⟨"", "tell"⟩ (some ⟨"tell", ["who"]⟩)], .empty, .empty⟩
    let s : Settings := .forPackage "generated"
    let f := fileOf s (.member ns none) "P"
    (.member ns none, f) ∈ units ⟨[ns], []⟩ s ∧ f.source.Unshadowed := by
  intro ns s f
  have hunit : (.member ns none, f) ∈ units ⟨[ns], []⟩ s := mem_units_singleton (by decide)
  exact ⟨hunit, (references_unshadowed_iff hunit).2 ⟨by decide, by decide⟩⟩

/-- The script `tell` calls the builder by its name, and that is the accessor of the script `nbt`. -/
theorem a_script_hides_the_builder :
    let ns : Namespace :=
      ⟨"p", [.script ⟨"", "nbt"⟩ none, .script ⟨"", "tell"⟩ (some ⟨"tell", ["who"]⟩)], .empty, .empty⟩
    let s : Settings := .forPackage "generated"
    let f := fileOf s (.member ns none) "P"
    (.member ns none, f) ∈ units ⟨[ns], []⟩ s ∧ nbtBuilder ∈ (ofNamespace ns none).imports ∧
      ∃ o ∈ f.source.objects, ∃ m ∈ o.2, m.name = "tell" ∧ "nbt" ∈ m.references ∧
        (Decl.functions o.2 "nbt").length = 1 ∧
        (f.source.lookup o.1 "nbt").map (·.1) = some o.1 := by
  intro ns s f
  have hunit : (.member ns none, f) ∈ units ⟨[ns], []⟩ s := mem_units_singleton (by decide)
  refine ⟨hunit, by decide, ?_⟩
  have hfound : f.source.objects.any (fun o => o.2.any fun m =>
      m.name = "tell" ∧ "nbt" ∈ m.references ∧ (Decl.functions o.2 "nbt").length = 1 ∧
      (f.source.lookup o.1 "nbt").map (·.1) = some o.1) = true := by decide +kernel
  simpa using hfound

/-- The class of the structure `hut` is written out in full, and begins with the accessor of the
script `io`. -/
theorem a_script_hides_a_class_in_full :
    let ns : Namespace := ⟨"p", [.script ⟨"", "io"⟩ none, .resource .structureTemplate ⟨"", "hut"⟩,
      .resource .worldStructure ⟨"", "hut"⟩], .empty, .empty⟩
    let s : Settings := .forPackage "generated"
    let f := fileOf s (.member ns none) "P"
    (.member ns none, f) ∈ units ⟨[ns], []⟩ s ∧ ∃ o ∈ f.source.objects, ∃ m ∈ o.2,
      structureArgument.qualified ∈ m.references ∧
        (f.source.lookup o.1 (headOf structureArgument.qualified)).map (·.1) = some o.1 := by
  intro ns s f
  have hunit : (.member ns none, f) ∈ units ⟨[ns], []⟩ s := mem_units_singleton (by decide)
  refine ⟨hunit, ?_⟩
  have hfound : f.source.objects.any (fun o => o.2.any fun m =>
      structureArgument.qualified ∈ m.references ∧
      (f.source.lookup o.1 (headOf structureArgument.qualified)).map (·.1) = some o.1) = true := by
    decide
  simpa using hfound

end PackBindings.Bindings
