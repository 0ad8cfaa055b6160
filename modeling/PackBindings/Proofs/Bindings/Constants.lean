/-
  PackBindings.Proofs.Bindings.Constants — which constants the accessors reach.

  An accessor names its file by the constant `PATH` of the object it stands in and its
  namespace by the constant `NAMESPACE` of the root, both without saying where they are.
  The name `PATH` is taken in every object before anything is laid out. The name
  `NAMESPACE` is taken at the root alone, so farther down a subdirectory that wishes for
  it gets it, and hides the constant from everything in and below the directory it lies
  in (`Captured`).

  Proved, for every namespace of every datapack:
  - `lookup_path`: `PATH` is that of the object an accessor stands in.
  - `lookup_namespace_iff`: `NAMESPACE` is that of the root exactly where it is not hidden.
  - `constants_reached_iff`: both, with the object of each directory, and that no object
    below the root is called as the root is.

  A directory `NAMESPACE` at the top gets a number; one below another directory hides the
  constant (`a_directory_hides_the_namespace`).
-/

import PackBindings.Proofs.Bindings.Enclosing

namespace PackBindings.Bindings

open PackBindings.Kotlin

/-- Some directory around, other than the top, has a subdirectory that wishes for the name of the
namespace constant. -/
def Captured (cs : List Component) (dir : List String) : Prop :=
  ∃ above segment, above ≠ [] ∧ above <+: dir ∧ pascal segment = "NAMESPACE" ∧
    ∃ c ∈ cs, above ++ [segment] <+: c.location.segments

theorem camel_ne_namespace (text : String) : camel text ≠ "NAMESPACE" := by
  intro he
  have hlow : StartsLow "NAMESPACE" := he ▸ startsLow_camel text
  exact absurd hlow (by decide)

theorem isWished_namespace : IsWished "NAMESPACE" where
  bare := ⟨'E', by decide, by decide⟩
  second := fun _ => camel_ne_namespace _

namespace Contents

variable {u : Contents} {name package comment : String}

/-! ## Paths -/

theorem lookup_path (hnd : (u.constants.map (·.name)).Nodup) (hpath : u.HasPath) {dir : List String}
    (hdir : Holds (u.components.map placed) dir) :
    (u.source reservedNames name package comment).lookup (u.address reservedNames name dir) "PATH" =
      some (u.address reservedNames name dir, u.membersAt reservedNames name dir) := by
  rw [Source.lookup_eq_some_iff (nodup_paths_objects hnd)]
  constructor
  · refine ⟨mem_objects_source.2 (Or.inl ⟨dir, hdir, rfl⟩), List.prefix_rfl, ?_⟩
    have hmem : .property ⟨"PATH", "String", pathValue (u.address reservedNames name) dir, true⟩ ∈
        u.membersAt reservedNames name dir := (mem_path_membersAt hpath).2 rfl
    exact List.mem_map.2 ⟨_, hmem, rfl⟩
  · exact fun o ho => ho.around.length_le

/-! ## The namespace -/

/-- The constant of the root by which accessors name their namespace. -/
def HasNamespace (u : Contents) : Prop :=
  Decl.named (u.constants.map .property) "NAMESPACE" =
    [.property ⟨"NAMESPACE", "String", literal u.owner, true⟩]

theorem named_namespace_rootMembers (h : u.HasNamespace) :
    Decl.named (u.rootMembers reservedNames name) "NAMESPACE" =
      [.property ⟨"NAMESPACE", "String", literal u.owner, true⟩] := by
  have hname : "NAMESPACE" ∈ u.constants.map (·.name) := by
    have hmem : Decl.property ⟨"NAMESPACE", "String", literal u.owner, true⟩ ∈
        Decl.named (u.constants.map .property) "NAMESPACE" := by
      rw [h]
      exact List.mem_singleton_self _
    obtain ⟨p, hp, he⟩ := List.mem_map.1 (List.mem_of_mem_filter hmem)
    exact List.mem_map.2 ⟨p, hp, congrArg Decl.name he⟩
  have htaken : "NAMESPACE" ∈ (u.rootScope (name :: reservedNames)).taken :=
    List.mem_append_left _ hname
  have hresources : Decl.named ((u.resources reservedNames name).map fun r => .object r.1 r.2)
      "NAMESPACE" = [] := by
    refine Decl.named_eq_nil fun hmem => ?_
    simp only [List.map_map, List.mem_map] at hmem
    obtain ⟨r, hr, he⟩ := hmem
    have hr' : "NAMESPACE" ∈ u.resourceNames (name :: reservedNames) := he ▸ (mem_resources hr).1
    exact Scope.not_mem_of_mem_nameAll hr' htaken
  have hmain : "NAMESPACE" ∈ (u.mainScope reservedNames name).taken :=
    List.mem_append_right _ htaken
  rw [rootMembers_eq_layout, named_layout_of_taken (fun _ _ _ hm => name_of_mem_accessorsOf hm) hmain,
    firstMembers, Decl.named_append, hresources, List.append_nil, h]
  rfl

/-- Below the root, the name is that of a subdirectory that wishes for it. -/
theorem namespace_mem_names_iff {above : List String} (hne : above ≠ []) :
    "NAMESPACE" ∈ (u.membersAt reservedNames name above).map Decl.name ↔
      name ≠ "NAMESPACE" ∧ ∃ segment, pascal segment = "NAMESPACE" ∧
        ∃ c ∈ u.components, above ++ [segment] <+: c.location.segments := by
  obtain ⟨dir, last, rfl⟩ := List.eq_nil_or_concat' above |>.resolve_left hne
  have hfirst : "NAMESPACE" ∉ (u.firstAt reservedNames name (dir ++ [last])).map Decl.name := by
    rw [firstAt_concat]
    simp [pathConstant, Decl.name]
  have htaken : "NAMESPACE" ∉ (u.scopeAt reservedNames name (dir ++ [last])).taken ↔
      name ≠ "NAMESPACE" := by
    have hpath : "NAMESPACE" ≠ "PATH" := by decide
    have hreserved : "NAMESPACE" ∉ reservedNames := unreserved _ (by simp)
    unfold scopeAt
    rw [if_neg (by simp)]
    show "NAMESPACE" ∉ "PATH" :: name :: reservedNames ↔ _
    rw [List.mem_cons, List.mem_cons, not_or, not_or]
    exact ⟨fun h => Ne.symm h.2.1, fun h => ⟨hpath, Ne.symm h, hreserved⟩⟩
  rw [mem_names_membersAt, or_iff_right hfirst, slotsAt, exists_slot_iff isWished_namespace, htaken]
  refine and_congr_right fun _ => ?_
  constructor
  · rintro ⟨⟨_ | ⟨segment, segments⟩, c⟩, hp, hwish⟩
    · exact absurd hwish (camel_ne_namespace _)
    · obtain ⟨e, he, hplaced⟩ := List.mem_map.1 (mem_belowAll.1 hp)
      refine ⟨segment, hwish, e, he, ?_⟩
      rw [show e.location.segments = _ from congrArg Prod.fst hplaced]
      exact ⟨segments, by simp⟩
  · rintro ⟨segment, hwish, c, hc, rest, hrest⟩
    refine ⟨(segment :: rest, c), mem_belowAll.2 (List.mem_map.2 ⟨c, hc, ?_⟩), hwish⟩
    rw [placed, ← hrest]
    simp

theorem lookup_namespace_iff (hnd : (u.constants.map (·.name)).Nodup) (hns : u.HasNamespace)
    {dir : List String} (hdir : Holds (u.components.map placed) dir) :
    (u.source reservedNames name package comment).lookup (u.address reservedNames name dir)
        "NAMESPACE" = some ([name], u.rootMembers reservedNames name) ↔
      name = "NAMESPACE" ∨ ¬Captured u.components dir := by
  have hroot : ([name], u.rootMembers reservedNames name) =
      (u.address reservedNames name [], u.membersAt reservedNames name []) := by
    rw [membersAt_nil]
    rfl
  have hdeclares : "NAMESPACE" ∈ (u.rootMembers reservedNames name).map Decl.name := by
    have hin : Decl.property ⟨"NAMESPACE", "String", literal u.owner, true⟩ ∈
        Decl.named (u.rootMembers reservedNames name) "NAMESPACE" := by
      rw [named_namespace_rootMembers hns]
      exact List.mem_singleton_self _
    exact List.mem_map.2 ⟨_, List.mem_of_mem_filter hin, rfl⟩
  rw [Source.lookup_eq_some_iff (nodup_paths_objects hnd)]
  constructor
  · intro h
    by_cases hname : name = "NAMESPACE"
    · exact Or.inl hname
    · right
      rintro ⟨above, segment, hne, hpre, hwish, hc⟩
      obtain ⟨ho, haround⟩ := object_above reservedNames name package comment hdir hpre
      have hlen := h.2 _
        ⟨ho, haround, (namespace_mem_names_iff hne).2 ⟨hname, segment, hwish, hc⟩⟩
      rw [length_address] at hlen
      exact hne (List.length_eq_zero_iff.1 (by simpa using hlen))
  · intro h
    have hself := object_above reservedNames name package comment hdir List.nil_prefix
    rw [← hroot] at hself
    refine ⟨⟨hself.1, hself.2, hdeclares⟩, fun o ho => ?_⟩
    obtain ⟨above, hpre, rfl⟩ := (mem_around_directory hdir).1 ⟨ho.mem, ho.around⟩
    by_cases hne : above = []
    · rw [hne]
      exact Nat.le_refl 1
    · obtain ⟨hname, segment, hwish, hc⟩ := (namespace_mem_names_iff hne).1 ho.declares
      exact absurd ⟨above, segment, hne, hpre, hwish, hc⟩ (h.resolve_left hname)

end Contents

/-! ## The sources of namespaces -/

/-- What the accessors of a unit reach by the names of the two constants. -/
structure ReachesConstants (u : Contents) (src : Source) : Prop where
  /-- No object below the root hides it. -/
  root : ∀ o ∈ src.objects, src.name ∉ o.1.tail
  constant : Decl.named src.members "NAMESPACE" =
    [.property ⟨"NAMESPACE", "String", literal u.owner, true⟩]
  directories : ∃ address, Mirrors u src address ∧
    ∀ dir ∈ [] :: directoriesOf u.components, ∀ ms, (address dir, ms) ∈ src.objects →
      src.lookup (address dir) "PATH" = some (address dir, ms) ∧
      (src.lookup (address dir) "NAMESPACE" = some ([src.name], src.members) ↔
        src.name = "NAMESPACE" ∨ ¬Captured u.components dir)

/-- The path is always that of the object an accessor stands in; the namespace is that of the root
unless a directory around has a subdirectory that takes its name. -/
theorem constants_reached_iff {d : Datapack} {s : Settings} {ns : Namespace}
    {family : Option Family} {f : SourceFile} (h : (.member ns family, f) ∈ units d s) :
    ReachesConstants (ofNamespace ns family) f.source := by
  obtain ⟨taken, rfl⟩ := exists_rootName h
  have hnd := Subject.nodup_constants (.member ns family)
  have hpath : (ofNamespace ns family).HasPath := rfl
  have hns : (ofNamespace ns family).HasNamespace := rfl
  have hconst : ∀ p ∈ (ofNamespace ns family).constants, p.isConst = true := by simp [ofNamespace]
  have hname := Subject.isPlain_rootName (.member ns family) taken
  constructor
  case root => exact fun o ho => Contents.name_not_mem_tail ho
  case constant => exact Contents.named_namespace_rootMembers hns
  case directories =>
    refine ⟨_, mirrors_source hnd hpath hconst hname _ _, fun dir hdir ms hms => ?_⟩
    have hholds := mem_top_directoriesOf.1 hdir
    have hself : ms = (ofNamespace ns family).membersAt reservedNames _ dir :=
      congrArg Prod.snd (List.inj_on_of_nodup_map (Contents.nodup_paths_objects hnd) hms
        (Contents.mem_objects_source.2 (Or.inl ⟨dir, hholds, rfl⟩)) rfl)
    rw [hself]
    exact ⟨Contents.lookup_path hnd hpath hholds, Contents.lookup_namespace_iff hnd hns hholds⟩

/-- A directory `NAMESPACE` at the top hides nothing: the name is taken there. -/
theorem constants_reached_below_a_namesake :
    let ns : Namespace := ⟨"p", [.script ⟨"NAMESPACE", "x"⟩ none], .empty, .empty⟩
    let s : Settings := .forPackage "generated"
    let f := fileOf s (.member ns none) "P"
    (.member ns none, f) ∈ units ⟨[ns], []⟩ s ∧ ReachesConstants (ofNamespace ns none) f.source ∧
      (f.source.lookup ["P", "NAMESPACE2"] "NAMESPACE").map (·.1) = some ["P"] := by
  intro ns s f
  have hunit : (.member ns none, f) ∈ units ⟨[ns], []⟩ s := mem_units_singleton (by decide)
  exact ⟨hunit, constants_reached_iff hunit, by decide +kernel⟩

/-- The script `y` of the directory `a` names its namespace by `NAMESPACE`, and that is the object
of the directory `a/NAMESPACE`. -/
theorem a_directory_hides_the_namespace :
    let ns : Namespace :=
      ⟨"p", [.script ⟨"a/NAMESPACE", "x"⟩ none, .script ⟨"a", "y"⟩ none], .empty, .empty⟩
    let s : Settings := .forPackage "generated"
    let f := fileOf s (.member ns none) "P"
    (.member ns none, f) ∈ units ⟨[ns], []⟩ s ∧ ∃ o ∈ f.source.objects, o.1 = ["P", "A"] ∧
      (Decl.functions o.2 "y").map (·.body) = ["function(name = PATH + \"y\", namespace = NAMESPACE)"] ∧
      (Decl.objects o.2 "NAMESPACE").length = 1 ∧
      (f.source.lookup o.1 "NAMESPACE").map (·.1) = some ["P", "A"] := by
  intro ns s f
  have hunit : (.member ns none, f) ∈ units ⟨[ns], []⟩ s := mem_units_singleton (by decide)
  refine ⟨hunit, ?_⟩
  have hfound : f.source.objects.any (fun o => o.1 = ["P", "A"] ∧
      (Decl.functions o.2 "y").map (·.body) = ["function(name = PATH + \"y\", namespace = NAMESPACE)"] ∧
      (Decl.objects o.2 "NAMESPACE").length = 1 ∧
      (f.source.lookup o.1 "NAMESPACE").map (·.1) = some ["P", "A"]) = true := by decide +kernel
  simpa using hfound

end PackBindings.Bindings
