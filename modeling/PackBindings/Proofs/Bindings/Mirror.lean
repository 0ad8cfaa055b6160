/-
  PackBindings.Proofs.Bindings.Mirror — the objects of a namespace mirror its directories.

  A component lies in a directory, and its accessor lies in the object of that directory.
  The accessor names its file by the constant `PATH` of the object it stands in. Such a
  constant refers to that of the object around it by its dotted path, up to the root,
  where it is empty (`PathOf`).

  Proved, for every namespace with its family, whatever names are taken:
  - `perm_paths`: the objects are the root, one for each directory on the way to a
    component, and the resource objects.
  - `pathOf_iff`: what the constants come to is the path of the directory, and nothing
    else.
  - `accessors_of_directory`: the object of a directory has exactly one accessor for each
    component of the directory.
  - `unit_mirrors_directories`: all of this for every source of a namespace.
-/

import Mathlib.Data.List.Dedup
import Mathlib.Data.List.Infix
import PackBindings.Proofs.Bindings.RootNames
import PackBindings.Proofs.Component.Directories
import PackBindings.Proofs.Kotlin.Literals

namespace PackBindings.Bindings

open PackBindings.Kotlin

/-! ## Directories of components -/

/-- The directories on the way to components, each once. -/
def directoriesOf (cs : List Component) : List (List String) :=
  (cs.flatMap fun c => c.location.segments.inits.filter (· ≠ [])).dedup

theorem mem_directoriesOf {cs : List Component} {dir : List String} :
    dir ∈ directoriesOf cs ↔ IsDirectory (cs.map placed) dir := by
  rw [directoriesOf, List.mem_dedup, List.mem_flatMap, IsDirectory]
  constructor
  · intro h
    obtain ⟨c, hc, hdir⟩ := h
    obtain ⟨hpre, hne⟩ := List.mem_filter.1 hdir
    exact ⟨by simpa using hne, _, List.mem_map_of_mem hc, (List.mem_inits ..).1 hpre⟩
  · intro h
    obtain ⟨hne, p, hp, hpre⟩ := h
    obtain ⟨c, hc, rfl⟩ := List.mem_map.1 hp
    exact ⟨c, hc, List.mem_filter.2 ⟨(List.mem_inits ..).2 hpre, by simpa using hne⟩⟩

theorem mem_top_directoriesOf {cs : List Component} {dir : List String} :
    dir ∈ [] :: directoriesOf cs ↔ Holds (cs.map placed) dir := by
  rw [List.mem_cons, mem_directoriesOf, Holds]

/-! ## What a path comes to -/

/-- What the constant `PATH` comes to in the object with a dotted path. -/
inductive PathOf (src : Source) : String → String → Prop where
  | start {o : Node} {text : String} (ho : o ∈ src.objects)
      (h : .property ⟨"PATH", "String", literal text, true⟩ ∈ o.2) : PathOf src (dotted o.1) text
  | step {o : Node} {above before text : String} (ho : o ∈ src.objects)
      (h : .property ⟨"PATH", "String", above ++ ".PATH + " ++ literal text, true⟩ ∈ o.2)
      (habove : PathOf src above before) : PathOf src (dotted o.1) (before ++ text)

/-- The value of the constant `PATH` in the object of a directory. -/
def pathValue (address : List String → List String) (dir : List String) : String :=
  match dir.getLast? with
  | none => literal ""
  | some segment => dotted (address dir.dropLast) ++ ".PATH + " ++ literal (segment ++ "/")

theorem space_not_mem_dotted {path : List String} (h : ∀ n ∈ path, IsPlain n) :
    ∀ c ∈ (dotted path).toList, c ≠ ' ' ∧ c ≠ '"' := by
  intro c hc
  have hchar : isNameChar c = true ∨ c = '.' := by
    rw [dotted, String.toList_intercalate] at hc
    rcases mem_of_mem_intercalate hc with hc | ⟨part, hpart, hc⟩
    · exact Or.inr (by simpa using hc)
    · obtain ⟨n, hn, rfl⟩ := List.mem_map.1 hpart
      exact Or.inl (h n hn c hc)
  constructor
  · rintro rfl
    exact absurd hchar (by decide)
  · rintro rfl
    exact absurd hchar (by decide)

/-- A reference says where it leads and what is put after it. -/
theorem reference_injective {a b x y : String} (ha : ∀ c ∈ a.toList, c ≠ ' ')
    (hb : ∀ c ∈ b.toList, c ≠ ' ') (h : a ++ ".PATH + " ++ x = b ++ ".PATH + " ++ y) :
    a = b ∧ x = y := by
  -- both are cut at their first space
  have hcut : ∀ z w : String, (z ++ ".PATH + " ++ w).toList =
      (z.toList ++ ".PATH".toList) ++ ' ' :: ('+' :: ' ' :: w.toList) := by
    intro z w
    simp
  have hspace : ∀ z : String, (∀ c ∈ z.toList, c ≠ ' ') → ' ' ∉ z.toList ++ ".PATH".toList := by
    intro z hz hmem
    rcases List.mem_append.1 hmem with hmem | hmem
    · exact hz _ hmem rfl
    · exact absurd hmem (by decide)
  have hlist := congrArg String.toList h
  rw [hcut, hcut] at hlist
  obtain ⟨hab, hxy⟩ := append_cons_inj (hspace a ha) (hspace b hb) hlist
  refine ⟨String.toList_inj.1 (List.append_cancel_right hab), String.toList_inj.1 ?_⟩
  simpa using hxy

theorem literal_ne_reference {a x text : String} (ha : ∀ c ∈ a.toList, c ≠ '"') :
    literal text ≠ a ++ ".PATH + " ++ x := by
  refine not_literal_of_head ?_
  intro hhead
  rw [String.toList_append, String.toList_append] at hhead
  cases hl : a.toList with
  | nil =>
    rw [hl] at hhead
    exact absurd hhead (by simp)
  | cons c cs =>
    rw [hl] at hhead
    exact ha c (hl ▸ List.mem_cons_self) (by simpa using hhead)

theorem exists_of_pathOf {src : Source} {path text : String} (h : PathOf src path text) :
    ∃ o ∈ src.objects, path = dotted o.1 := by
  cases h with
  | start ho _ => exact ⟨_, ho, rfl⟩
  | step ho _ _ => exact ⟨_, ho, rfl⟩

theorem pathValue_concat (address : List String → List String) (dir : List String)
    (segment : String) : pathValue address (dir ++ [segment]) =
      dotted (address dir) ++ ".PATH + " ++ literal (segment ++ "/") := by
  simp [pathValue]

/-! ## Paths in a unit -/

namespace Contents

section

variable {u : Contents} {reserved : List String} {name package comment : String}

/-- The root of all paths stands at the root. -/
def HasPath (u : Contents) : Prop :=
  Decl.named (u.constants.map .property) "PATH" = [.property ⟨"PATH", "String", literal "", true⟩]

theorem named_path_firstAt (hpath : u.HasPath) (dir : List String) :
    Decl.named (u.firstAt reserved name dir) "PATH" =
      [.property ⟨"PATH", "String", pathValue (u.address reserved name) dir, true⟩] := by
  rcases List.eq_nil_or_concat' dir with rfl | ⟨dir, segment, rfl⟩
  · have hresources : Decl.named ((u.resources reserved name).map fun r => .object r.1 r.2)
        "PATH" = [] := by
      refine Decl.named_eq_nil fun h => ?_
      simp only [List.map_map, List.mem_map] at h
      obtain ⟨r, hr, he⟩ := h
      have hmem : "PATH" ∈ u.resourceNames (name :: reserved) := he ▸ (mem_resources hr).1
      exact Scope.not_mem_of_mem_nameAll hmem (by simp [rootScope])
    show Decl.named (u.firstMembers reserved name) "PATH" = _
    rw [firstMembers, Decl.named_append, hresources, List.append_nil, hpath]
    rfl
  · rw [firstAt_concat, pathValue_concat]
    rfl

theorem named_path_membersAt (hpath : u.HasPath) (dir : List String) :
    Decl.named (u.membersAt reserved name dir) "PATH" =
      [.property ⟨"PATH", "String", pathValue (u.address reserved name) dir, true⟩] := by
  rw [named_path_membersAt_eq, named_path_firstAt hpath]
  exact Decl.byRank_eq_self fun m hm => congrArg Decl.rank (List.mem_singleton.1 hm)

theorem mem_path_membersAt (hpath : u.HasPath) {dir : List String} {value : String} :
    .property ⟨"PATH", "String", value, true⟩ ∈ u.membersAt reserved name dir ↔
      value = pathValue (u.address reserved name) dir := by
  have hmem : .property ⟨"PATH", "String", value, true⟩ ∈ u.membersAt reserved name dir ↔
      .property ⟨"PATH", "String", value, true⟩ ∈
        Decl.named (u.membersAt reserved name dir) "PATH" := by
    rw [Decl.named, List.mem_filter]
    exact ⟨fun h => ⟨h, rfl⟩, fun h => h.1⟩
  rw [hmem, named_path_membersAt hpath, List.mem_singleton]
  simp

theorem eq_of_dotted_eq (h : (u.constants.map (·.name)).Nodup) (hname : IsPlain name) {o i : Node}
    (ho : o ∈ (u.source reserved name package comment).objects)
    (hi : i ∈ (u.source reserved name package comment).objects) (he : dotted o.1 = dotted i.1) :
    o = i :=
  List.inj_on_of_nodup_map (nodup_dotted_objects h hname) ho hi he

theorem holds_of_concat {dir : List String} {segment : String}
    (h : Holds (u.components.map placed) (dir ++ [segment])) :
    Holds (u.components.map placed) dir := by
  obtain ⟨-, p, hp, hpre⟩ := h.resolve_left (by simp)
  by_cases hnil : dir = []
  · exact Or.inl hnil
  · exact Or.inr ⟨hnil, p, hp, (List.prefix_append dir [segment]).trans hpre⟩

theorem pathOf_iff (h : (u.constants.map (·.name)).Nodup) (hpath : u.HasPath) (hname : IsPlain name)
    {dir : List String} (hdir : Holds (u.components.map placed) dir) {text : String} :
    PathOf (u.source reserved name package comment) (dotted (u.address reserved name dir)) text ↔
      text = directoryText dir := by
  have hmem : ∀ {d : List String}, Holds (u.components.map placed) d →
      (u.address reserved name d, u.membersAt reserved name d) ∈
        (u.source reserved name package comment).objects :=
    fun hd => mem_objects_source.2 (Or.inl ⟨_, hd, rfl⟩)
  have hplain : ∀ {o : Node}, o ∈ (u.source reserved name package comment).objects →
      ∀ c ∈ (dotted o.1).toList, c ≠ ' ' ∧ c ≠ '"' :=
    fun ho => space_not_mem_dotted (isPlain_of_mem_path hname ho)
  induction dir using List.reverseRecOn generalizing text with
  | nil =>
    constructor
    · intro hp
      generalize he : dotted (u.address reserved name []) = p at hp
      cases hp with
      | start ho hm =>
        obtain rfl := eq_of_dotted_eq h hname (hmem hdir) ho he
        exact literal_injective ((mem_path_membersAt hpath).1 hm)
      | step ho hm habove =>
        obtain rfl := eq_of_dotted_eq h hname (hmem hdir) ho he
        obtain ⟨o, hoa, rfl⟩ := exists_of_pathOf habove
        exact absurd ((mem_path_membersAt hpath).1 hm).symm
          (literal_ne_reference fun c hc => (hplain hoa c hc).2)
    · intro he
      exact PathOf.start (hmem hdir) ((mem_path_membersAt hpath).2 (congrArg literal he))
  | append_singleton dir segment ih =>
    have habove := holds_of_concat hdir
    constructor
    · intro hp
      generalize he : dotted (u.address reserved name (dir ++ [segment])) = p at hp
      cases hp with
      | start ho hm =>
        obtain rfl := eq_of_dotted_eq h hname (hmem hdir) ho he
        have hvalue := (mem_path_membersAt hpath).1 hm
        rw [pathValue_concat] at hvalue
        exact absurd hvalue (literal_ne_reference fun c hc => (hplain (hmem habove) c hc).2)
      | step ho hm hbefore =>
        obtain rfl := eq_of_dotted_eq h hname (hmem hdir) ho he
        obtain ⟨o, hoa, rfl⟩ := exists_of_pathOf hbefore
        have hvalue := (mem_path_membersAt hpath).1 hm
        rw [pathValue_concat] at hvalue
        obtain ⟨hsame, hlit⟩ := reference_injective (fun c hc => (hplain hoa c hc).1)
          (fun c hc => (hplain (hmem habove) c hc).1) hvalue
        rw [hsame] at hbefore
        rw [(ih habove).1 hbefore, literal_injective hlit, directoryText_concat]
    · rintro rfl
      rw [directoryText_concat]
      refine PathOf.step (hmem hdir) ((mem_path_membersAt hpath).2 ?_) ((ih habove).2 rfl)
      exact (pathValue_concat _ _ _).symm

/-! ## One object for each directory -/

theorem address_injective {dir other : List String} (hd : Holds (u.components.map placed) dir)
    (ho : Holds (u.components.map placed) other)
    (h : u.address reserved name dir = u.address reserved name other) : dir = other :=
  namesTo_injective hd ho (List.cons.inj h).2

theorem exists_address_concat (dir : List String) (segment : String) :
    ∃ n, u.address reserved name (dir ++ [segment]) = u.address reserved name dir ++ [n] := by
  have hnames : ∀ (d : List String) (scope : Scope) (ps : List Placed),
      ∃ n, namesTo (name :: reserved) scope ps (d ++ [segment]) =
        namesTo (name :: reserved) scope ps d ++ [n] := by
    intro d
    induction d with
    | nil => exact fun scope ps => ⟨childName scope ps segment, rfl⟩
    | cons first d ih =>
      intro scope ps
      obtain ⟨n, hn⟩ := ih (nestedScope (name :: reserved)) (below first ps)
      exact ⟨n, congrArg (childName scope ps first :: ·) hn⟩
  obtain ⟨n, hn⟩ := hnames dir (u.mainScope reserved name) (u.components.map placed)
  exact ⟨n, congrArg (name :: ·) hn⟩

theorem address_ne_resource {dir : List String} (hd : Holds (u.components.map placed) dir) {n : String}
    (hn : n ∈ u.resourceNames (name :: reserved)) : u.address reserved name dir ≠ [name, n] := by
  intro he
  cases dir with
  | nil => simp [address, namesTo] at he
  | cons segment dir =>
    obtain ⟨hs, -⟩ := holds_cons hd
    have hfirst : childName (u.mainScope reserved name) (u.components.map placed) segment = n := by
      simp only [address, namesTo, List.cons.injEq, true_and] at he
      exact he.1
    exact childName_not_mem hs (hfirst ▸ List.mem_append_left _ hn)

theorem perm_paths (h : (u.constants.map (·.name)).Nodup) :
    ((u.source reserved name package comment).objects.map (·.1)).Perm
      (([] :: directoriesOf u.components).map (u.address reserved name) ++
        (u.resourceNames (name :: reserved)).map fun n => [name, n]) := by
  have hdirs : ([] :: directoriesOf u.components).Nodup := by
    refine List.nodup_cons.2 ⟨fun hnil => ?_, List.nodup_dedup _⟩
    exact (mem_directoriesOf.1 hnil).1 rfl
  have hright : (([] :: directoriesOf u.components).map (u.address reserved name) ++
      (u.resourceNames (name :: reserved)).map fun n => [name, n]).Nodup := by
    rw [List.nodup_append]
    refine ⟨hdirs.map_on ?_, (Scope.nodup_nameAll _ _).map_on ?_, ?_⟩
    · intro d hd e he hde
      exact address_injective (mem_top_directoriesOf.1 hd) (mem_top_directoriesOf.1 he) hde
    · intro m _ n _ hmn
      simpa using hmn
    · intro p hp q hq hpq
      obtain ⟨d, hd, rfl⟩ := List.mem_map.1 hp
      obtain ⟨n, hn, rfl⟩ := List.mem_map.1 hq
      exact address_ne_resource (mem_top_directoriesOf.1 hd) hn hpq
  refine (List.perm_ext_iff_of_nodup (nodup_paths_objects h) hright).2 fun p => ?_
  rw [List.mem_append, List.mem_map, List.mem_map, List.mem_map]
  constructor
  · intro ⟨o, ho, he⟩
    rcases mem_objects_source.1 ho with ⟨dir, hdir, rfl⟩ | ⟨r, hr, rfl⟩
    · exact Or.inl ⟨dir, mem_top_directoriesOf.2 hdir, he⟩
    · exact Or.inr ⟨r.1, (mem_resources hr).1, he⟩
  · intro hp
    rcases hp with ⟨dir, hdir, rfl⟩ | ⟨n, hn, rfl⟩
    · exact ⟨_, mem_objects_source.2 (Or.inl ⟨dir, mem_top_directoriesOf.1 hdir, rfl⟩), rfl⟩
    · have hfst : (u.resources reserved name).map (·.1) = u.resourceNames (name :: reserved) :=
        List.map_fst_zip (by simp [resourceNames])
      rw [← hfst] at hn
      obtain ⟨r, hr, rfl⟩ := List.mem_map.1 hn
      exact ⟨_, mem_objects_source.2 (Or.inr ⟨r, hr, rfl⟩), rfl⟩

/-! ## One accessor for each component -/

theorem filter_isAccessor_firstAt (hconst : ∀ p ∈ u.constants, p.isConst = true)
    (dir : List String) : (u.firstAt reserved name dir).filter isAccessor = [] := by
  rw [List.filter_eq_nil_iff]
  rcases List.eq_nil_or_concat' dir with rfl | ⟨dir, segment, rfl⟩
  · intro m hm
    rcases List.mem_append.1 hm with hm | hm
    · obtain ⟨p, hp, rfl⟩ := List.mem_map.1 hm
      simp [isAccessor, Decl.rank, hconst p hp]
    · obtain ⟨r, -, rfl⟩ := List.mem_map.1 hm
      simp [isAccessor, Decl.rank]
  · intro m hm
    rw [firstAt_concat, List.mem_singleton] at hm
    rw [hm]
    simp [isAccessor, pathConstant, Decl.rank]

variable (reserved name) in
theorem accessors_of_directory (hconst : ∀ p ∈ u.constants, p.isConst = true) (dir : List String) :
    ∃ as : List (Component × String), as.map (·.1) = u.componentsIn dir ∧ (as.map (·.2)).Nodup ∧
      (u.membersAt reserved name dir).filter isAccessor =
        Decl.byRank (as.flatMap fun a => accessorsOf u.imports u.owner a.1 a.2) ∧
      ∀ a ∈ as, Decl.named (u.membersAt reserved name dir) a.2 =
        accessorsOf u.imports u.owner a.1 a.2 := by
  refine ⟨accessors (slots (u.scopeAt reserved name dir) []
    (belowAll dir (u.components.map placed))), ?_, nodup_names_accessors .., ?_, ?_⟩
  · rw [components_accessors, own_componentsIn]
  · rw [membersAt, layout_eq, Decl.filter_byRank, List.filter_append, List.filter_append,
      filter_isAccessor_firstAt hconst, List.nil_append, flatMap_declared]
    have hall : ∀ as : List (Component × String),
        (as.flatMap fun a => accessorsOf u.imports u.owner a.1 a.2).filter isAccessor =
          as.flatMap fun a => accessorsOf u.imports u.owner a.1 a.2 := by
      intro as
      refine List.filter_eq_self.2 fun m hm => ?_
      obtain ⟨a, -, hm⟩ := List.mem_flatMap.1 hm
      exact isAccessor_of_mem_accessorsOf hm
    have hnone : ∀ (cs : List (String × String)) (path : String) (ps : List Placed),
        (cs.map (childObject (name :: reserved) (accessorsOf u.imports u.owner) path ps)).filter
          isAccessor = [] := by
      intro cs path ps
      refine List.filter_eq_nil_iff.2 fun m hm => ?_
      obtain ⟨child, -, rfl⟩ := List.mem_map.1 hm
      simp [isAccessor, childObject, Decl.rank]
    rw [hall, hnone, List.append_nil]
  · intro a ha
    rw [membersAt, named_layout_accessor (fun _ _ _ hm => name_of_mem_accessorsOf hm)
      (names_firstAt_taken dir) (mem_accessors.1 ha), byRank_accessorsOf]

end

end Contents

/-! ## The objects of a namespace -/

/-- The object of a directory, with its path and the accessors of its components. -/
structure IsDirectoryObject (u : Contents) (src : Source) (address : List String → List String)
    (dir : List String) (ms : List Decl) : Prop where
  mem : (address dir, ms) ∈ src.objects
  path : Decl.named ms "PATH" = [.property ⟨"PATH", "String", pathValue address dir, true⟩]
  pathOf : ∀ text, PathOf src (dotted (address dir)) text ↔ text = directoryText dir
  accessors : ∃ as : List (Component × String), as.map (·.1) = u.componentsIn dir ∧
    (as.map (·.2)).Nodup ∧
    ms.filter isAccessor = Decl.byRank (as.flatMap fun a => Decl.named ms a.2) ∧
    ∀ a ∈ as, IsAccessorOf u.imports u.owner a.1 (Decl.named ms a.2)

/-- The objects of a source lie as the directories of components do. `address`: the names that
lead to the object of a directory. -/
structure Mirrors (u : Contents) (src : Source) (address : List String → List String) : Prop where
  root : address [] = [src.name]
  child : ∀ dir segment, ∃ n, address (dir ++ [segment]) = address dir ++ [n]
  /-- The objects besides those of directories are the resource objects. -/
  paths : (src.objects.map (·.1)).Perm (([] :: directoriesOf u.components).map address ++
    (u.resourceNames (src.name :: reservedNames)).map fun n => [src.name, n])
  apart : (src.objects.map fun o => dotted o.1).Nodup
  directories : ∀ dir ∈ [] :: directoriesOf u.components,
    ∃ ms, IsDirectoryObject u src address dir ms
  components : ∀ c ∈ u.components, c.location.segments ∈ [] :: directoriesOf u.components

theorem mirrors_source {u : Contents} {name : String} (hnd : (u.constants.map (·.name)).Nodup)
    (hpath : u.HasPath) (hconst : ∀ p ∈ u.constants, p.isConst = true) (hname : IsPlain name)
    (package comment : String) :
    Mirrors u (u.source reservedNames name package comment) (u.address reservedNames name) := by
  constructor
  case root => rfl
  case child => exact Contents.exists_address_concat
  case paths => exact Contents.perm_paths hnd
  case apart => exact Contents.nodup_dotted_objects hnd hname
  case directories =>
    intro dir hdir
    have hholds := mem_top_directoriesOf.1 hdir
    obtain ⟨as, hcs, has, hfilter, hnamed⟩ :=
      Contents.accessors_of_directory reservedNames name hconst dir
    refine ⟨u.membersAt reservedNames name dir, ?_, Contents.named_path_membersAt hpath dir,
      fun text => Contents.pathOf_iff hnd hpath hname hholds, as, hcs, has, ?_, ?_⟩
    · exact Contents.mem_objects_source.2 (Or.inl ⟨dir, hholds, rfl⟩)
    · rw [hfilter, List.flatMap_congr hnamed]
    · intro a ha
      rw [hnamed a ha]
      exact isAccessorOf_accessorsOf
  case components =>
    intro c hc
    rw [mem_top_directoriesOf]
    by_cases hnil : c.location.segments = []
    · exact Or.inl hnil
    · exact Or.inr ⟨hnil, _, List.mem_map_of_mem hc, List.prefix_rfl⟩

/-- Every source of a namespace mirrors the directories of its components, and each component lies
in its own directory. -/
theorem unit_mirrors_directories (ns : Namespace) (family : Option Family) (taken : List String)
    (package : String) (h : ∀ c ∈ ns.components, IsDirectoryPath c.location.directory) :
    (∃ address, Mirrors (ofNamespace ns family)
      ((Subject.member ns family).source ((Subject.member ns family).rootName taken) package)
        address) ∧
      (ofNamespace ns family).components.Perm ns.components ∧
      ∀ c ∈ ns.components, directoryText c.location.segments ++ c.location.stem = c.location.full := by
  have hpath : (ofNamespace ns family).HasPath := rfl
  have hconst : ∀ p ∈ (ofNamespace ns family).constants, p.isConst = true := by
    simp [ofNamespace]
  have hmirrors := mirrors_source (Subject.nodup_constants (.member ns family)) hpath hconst
    (Subject.isPlain_rootName (.member ns family) taken) package (namespaceComment ns)
  exact ⟨⟨_, hmirrors⟩, ns.inOrder_perm, fun c hc => Location.directoryText_segments (h c hc)⟩

theorem mirrors_nested_directory :
    let ns : Namespace :=
      ⟨"pack", [.resource .advancement ⟨"a/b", "root"⟩, .script ⟨"", "tick"⟩ none], .empty, .empty⟩
    (∀ c ∈ ns.components, IsDirectoryPath c.location.directory) ∧
      ∃ address, Mirrors (ofNamespace ns none)
        ((Subject.member ns none).source ((Subject.member ns none).rootName []) "generated")
          address := by
  intro ns
  have hdirs : ∀ c ∈ ns.components, IsDirectoryPath c.location.directory := by
    intro c hc
    simp only [ns, List.mem_cons, List.not_mem_nil, or_false] at hc
    rcases hc with rfl | rfl
    · exact ⟨["a", "b"], by simp [IsSegment], by decide⟩
    · exact ⟨[], by simp, by decide⟩
  exact ⟨hdirs, (unit_mirrors_directories ns none [] "generated" hdirs).1⟩

end PackBindings.Bindings
