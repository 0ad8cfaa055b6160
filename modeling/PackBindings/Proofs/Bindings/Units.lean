/-
  PackBindings.Proofs.Bindings.Units — the objects of a unit, one by one.

  The root object of a unit is a layout whose first members are the constants and the
  objects for objectives and storages (`rootMembers_eq_layout`). The root and the object
  of a directory are thus told by the same three things: the names that lead there
  (`address`), what comes first in it (`firstAt`) and the scope it starts with
  (`scopeAt`).

  Proved, for every unit, whatever is reserved and whatever the root is called:
  - `mem_objects_source`: an object of the unit is that of a directory of its components,
    the root among them, or it is a resource object.
  - `named_membersAt`: the members of one name in the object of a directory are one at
    most, or they are the accessors of one component of that directory.
  - `isShelf_of_mem_resources`: a resource object has properties only, each with a name
    of its own.
  - `IsKept.forall_mem`: what has to be shown of all members of all objects.
-/

import PackBindings.Bindings.Unit
import PackBindings.Proofs.Bindings.MemberNames
import PackBindings.Proofs.Bindings.Overloads

namespace PackBindings.Bindings

open PackBindings.Kotlin

/-! ## Objectives and storages -/

/-- Properties alone, each with a name of its own, and none of them a path. -/
structure IsShelf (ms : List Decl) : Prop where
  properties : ∀ m ∈ ms, ∃ p, m = .property p
  apart : (ms.map Decl.name).Nodup
  noPath : "PATH" ∉ ms.map Decl.name

theorem names_zipWith {α : Type} (f : α → String → Property) (hf : ∀ a n, (f a n).name = n)
    {xs : List α} {names : List String} (hlen : names.length ≤ xs.length) :
    (List.zipWith (fun a n => Decl.property (f a n)) xs names).map Decl.name = names := by
  have hname : Decl.name ∘ Function.uncurry (fun a n => Decl.property (f a n)) = Prod.snd :=
    funext fun ⟨a, n⟩ => hf a n
  rw [← List.map_uncurry_zip_eq_zipWith, List.map_map, hname, List.map_snd_zip hlen]

theorem isShelf_zipWith {α : Type} (f : α → String → Property) (hf : ∀ a n, (f a n).name = n)
    (xs : List α) (wish : α → String) (hwish : ∀ a, StartsLow (wish a)) :
    IsShelf (List.zipWith (fun a n => .property (f a n)) xs
      ((Scope.mk []).nameAll (xs.map wish))) := by
  have hnames : (List.zipWith (fun a n => Decl.property (f a n)) xs
      ((Scope.mk []).nameAll (xs.map wish))).map Decl.name = (Scope.mk []).nameAll (xs.map wish) :=
    names_zipWith f hf (by simp)
  constructor
  case properties =>
    intro m hm
    obtain ⟨a, -, n, -, rfl⟩ := exists_of_mem_zipWith hm
    exact ⟨f a n, rfl⟩
  case apart =>
    rw [hnames]
    exact Scope.nodup_nameAll _ _
  case noPath =>
    rw [hnames]
    intro h
    refine ne_path_of_startsLow (startsLow_of_mem_nameAll ?_ h) rfl
    intro base hbase
    obtain ⟨a, -, rfl⟩ := List.mem_map.1 hbase
    exact hwish a

theorem isShelf_objectiveMembers (owner : String) (os : List Objective) :
    IsShelf (objectiveMembers owner os) := by
  rw [objectiveMembers]
  exact isShelf_zipWith _ (fun _ _ => by rfl) os _ fun _ => startsLow_camel _

theorem isShelf_storageMembers (imports : Imports) (owner : String) (ss : List Storage) :
    IsShelf (storageMembers imports owner ss) := by
  rw [storageMembers]
  refine isShelf_zipWith _ (fun _ _ => by rfl) ss _ fun st => ?_
  rw [storageName]
  split
  · exact startsLow_camel _
  · exact startsLow_camel _

namespace Contents

/-! ## The parts of a unit -/

section

variable (u : Contents) (reserved : List String) (name : String)

/-- The resource objects, with the names they get. -/
def resources : List (String × List Decl) :=
  (u.resourceNames (name :: reserved)).zip (u.resourceObjects.map (·.2))

def mainScope : Scope :=
  ⟨u.resourceNames (name :: reserved) ++ (u.rootScope (name :: reserved)).taken⟩

def firstMembers : List Decl :=
  u.constants.map .property ++ (u.resources reserved name).map fun r => .object r.1 r.2

theorem rootMembers_eq_layout : u.rootMembers reserved name =
    layout (name :: reserved) (accessorsOf u.imports u.owner) name (u.mainScope reserved name)
      (u.firstMembers reserved name) (u.components.map placed) := by
  rw [firstMembers, resources, List.zip_map_right, List.map_map, List.map_zip_eq_zipWith]
  rfl

/-- The names that lead to the object of a directory. -/
def address (dir : List String) : List String :=
  name :: namesTo (name :: reserved) (u.mainScope reserved name) (u.components.map placed) dir

def firstAt (dir : List String) : List Decl :=
  match dir.getLast? with
  | none => u.firstMembers reserved name
  | some segment => [pathConstant (dotted (u.address reserved name dir.dropLast)) segment]

def scopeAt (dir : List String) : Scope :=
  if dir = [] then u.mainScope reserved name else nestedScope (name :: reserved)

def membersAt (dir : List String) : List Decl :=
  layout (name :: reserved) (accessorsOf u.imports u.owner) (dotted (u.address reserved name dir))
    (u.scopeAt reserved name dir) (u.firstAt reserved name dir)
    (belowAll dir (u.components.map placed))

/-! ## The objects of a unit -/

theorem membersAt_nil : u.membersAt reserved name [] = u.rootMembers reserved name := by
  rw [rootMembers_eq_layout]
  simp [membersAt, address, namesTo, firstAt, scopeAt, belowAll, dotted]

theorem membersAt_concat (dir : List String) (segment : String) :
    (u.address reserved name (dir ++ [segment]), u.membersAt reserved name (dir ++ [segment])) =
      Node.under name (directoryNode (name :: reserved) (accessorsOf u.imports u.owner) [name]
        (u.mainScope reserved name) (u.components.map placed) dir segment) := by
  simp [membersAt, address, firstAt, scopeAt, directoryNode, Node.under]

variable {u reserved name}

theorem mem_resources {r : String × List Decl} (h : r ∈ u.resources reserved name) :
    r.1 ∈ u.resourceNames (name :: reserved) ∧ r.2 ∈ u.resourceObjects.map (·.2) :=
  List.of_mem_zip h

theorem resourceObject_cases {o : String × List Decl} (h : o ∈ u.resourceObjects) :
    o = ("Scoreboards", objectiveMembers u.owner u.objectives) ∨
      u.storages ≠ [] ∧ o = ("Storages", storageMembers u.imports u.owner u.storages) := by
  rw [resourceObjects, List.mem_append] at h
  rcases h with h | h
  · exact Or.inl (List.mem_singleton.1 (List.mem_ite_nil_left.1 h).2)
  · obtain ⟨hne, h⟩ := List.mem_ite_nil_left.1 h
    exact Or.inr ⟨hne, List.mem_singleton.1 h⟩

theorem name_of_mem_resourceObjects {o : String × List Decl} (h : o ∈ u.resourceObjects) :
    o.1 ∈ ["Scoreboards", "Storages"] := by
  rcases resourceObject_cases h with rfl | ⟨-, rfl⟩
  · exact List.mem_cons_self
  · exact List.mem_cons_of_mem _ List.mem_cons_self

/-- A resource object has the objectives of the unit, or its storages if there are any. -/
theorem resource_cases {r : String × List Decl} (h : r ∈ u.resources reserved name) :
    r.2 = objectiveMembers u.owner u.objectives ∨
      u.storages ≠ [] ∧ r.2 = storageMembers u.imports u.owner u.storages := by
  obtain ⟨o, ho, he⟩ := List.mem_map.1 (mem_resources h).2
  rw [← he]
  rcases resourceObject_cases ho with rfl | ⟨hne, rfl⟩
  · exact Or.inl rfl
  · exact Or.inr ⟨hne, rfl⟩

theorem isShelf_of_mem_resources {r : String × List Decl} (h : r ∈ u.resources reserved name) :
    IsShelf r.2 := by
  rcases resource_cases h with he | ⟨-, he⟩
  · rw [he]
    exact isShelf_objectiveMembers _ _
  · rw [he]
    exact isShelf_storageMembers _ _ _

theorem isObject_of_isShelf {ms : List Decl} (h : IsShelf ms) : ∀ m ∈ ms, m.isObject = false := by
  intro m hm
  obtain ⟨p, rfl⟩ := h.properties m hm
  rfl

theorem mem_within_firstMembers {o : Node} :
    o ∈ Decl.within (u.firstMembers reserved name) ↔
      ∃ r ∈ u.resources reserved name, o = ([r.1], r.2) := by
  rw [Decl.mem_within_iff]
  constructor
  · rintro ⟨n, ms, hd, ho⟩
    rcases List.mem_append.1 hd with hd | hd
    · simp at hd
    · obtain ⟨r, hr, he⟩ := List.mem_map.1 hd
      obtain ⟨rfl, rfl⟩ := Decl.object.inj he
      have hnone : Decl.within r.2 = [] :=
        Decl.within_eq_nil (isObject_of_isShelf (isShelf_of_mem_resources hr))
      exact ⟨r, hr, by simpa [hnone] using ho⟩
  · rintro ⟨r, hr, rfl⟩
    exact ⟨r.1, r.2, List.mem_append_right _ (List.mem_map_of_mem hr), Or.inl rfl⟩

theorem mem_objects_source {package comment : String} {o : Node} :
    o ∈ (u.source reserved name package comment).objects ↔
      (∃ dir, Holds (u.components.map placed) dir ∧ o = (u.address reserved name dir, u.membersAt reserved name dir)) ∨
        ∃ r ∈ u.resources reserved name, o = ([name, r.1], r.2) := by
  have hwithin : ∀ i : Node, i ∈ Decl.within (u.rootMembers reserved name) ↔
      (∃ r ∈ u.resources reserved name, i = ([r.1], r.2)) ∨
        ∃ dir segment, IsDirectory (u.components.map placed) (dir ++ [segment]) ∧
          i = directoryNode (name :: reserved) (accessorsOf u.imports u.owner) [name]
            (u.mainScope reserved name) (u.components.map placed) dir segment := by
    intro i
    have hpath : name = dotted [name] := by simp [dotted]
    rw [rootMembers_eq_layout, ← mem_within_firstMembers]
    conv_lhs => rw [hpath]
    exact mem_within_layout (fun _ _ _ hm => isObject_of_mem_accessorsOf hm) (by simp)
  rw [Source.mem_objects]
  constructor
  · rintro (rfl | ⟨i, hi, rfl⟩)
    · exact Or.inl ⟨[], Or.inl rfl, by rw [membersAt_nil]; rfl⟩
    · rcases (hwithin i).1 hi with ⟨r, hr, rfl⟩ | ⟨dir, segment, hdir, rfl⟩
      · exact Or.inr ⟨r, hr, rfl⟩
      · exact Or.inl ⟨_, Or.inr hdir, (membersAt_concat ..).symm⟩
  · rintro (⟨dir, rfl | hdir, rfl⟩ | ⟨r, hr, rfl⟩)
    · exact Or.inl (by rw [membersAt_nil]; rfl)
    · obtain ⟨dir, segment, rfl⟩ := List.eq_nil_or_concat' dir |>.resolve_left hdir.1
      exact Or.inr ⟨_, (hwithin _).2 (Or.inr ⟨dir, segment, hdir, rfl⟩), membersAt_concat ..⟩
    · exact Or.inr ⟨_, (hwithin _).2 (Or.inl ⟨r, hr, rfl⟩), rfl⟩

/-! ## Names side by side -/

theorem names_firstMembers : (u.firstMembers reserved name).map Decl.name =
    u.constants.map (·.name) ++ u.resourceNames (name :: reserved) := by
  have hconstants : (u.constants.map Decl.property).map Decl.name = u.constants.map (·.name) := by
    rw [List.map_map]
    rfl
  have hresources : ((u.resources reserved name).map fun r => Decl.object r.1 r.2).map Decl.name =
      u.resourceNames (name :: reserved) := by
    have hlen : (u.resourceNames (name :: reserved)).length ≤
        (u.resourceObjects.map (·.2)).length := by
      simp [resourceNames]
    rw [List.map_map, resources]
    exact List.map_fst_zip hlen
  rw [firstMembers, List.map_append, hconstants, hresources]

theorem nodup_names_firstMembers (h : (u.constants.map (·.name)).Nodup) :
    ((u.firstMembers reserved name).map Decl.name).Nodup := by
  rw [names_firstMembers, List.nodup_append]
  refine ⟨h, Scope.nodup_nameAll _ _, ?_⟩
  intro n hn m hm he
  exact Scope.not_mem_of_mem_nameAll hm (by simp [rootScope, ← he, hn])

theorem names_firstMembers_taken : ∀ n ∈ (u.firstMembers reserved name).map Decl.name,
    n ∈ (u.mainScope reserved name).taken := by
  intro n hn
  rw [names_firstMembers, List.mem_append] at hn
  rcases hn with hn | hn
  · exact List.mem_append_right _ (by simp [rootScope, hn])
  · exact List.mem_append_left _ hn

theorem firstAt_concat (dir : List String) (segment : String) :
    u.firstAt reserved name (dir ++ [segment]) =
      [pathConstant (dotted (u.address reserved name dir)) segment] := by
  simp [firstAt]

theorem nodup_names_firstAt (h : (u.constants.map (·.name)).Nodup) (dir : List String) :
    ((u.firstAt reserved name dir).map Decl.name).Nodup := by
  rcases List.eq_nil_or_concat' dir with rfl | ⟨dir, segment, rfl⟩
  · exact nodup_names_firstMembers h
  · rw [firstAt_concat]
    exact List.nodup_singleton _

theorem names_firstAt_taken (dir : List String) :
    ∀ n ∈ (u.firstAt reserved name dir).map Decl.name, n ∈ (u.scopeAt reserved name dir).taken := by
  rcases List.eq_nil_or_concat' dir with rfl | ⟨dir, segment, rfl⟩
  · exact names_firstMembers_taken
  · rw [firstAt_concat, scopeAt, if_neg (by simp)]
    intro n hn
    rw [List.mem_singleton.1 hn]
    exact List.mem_cons_self

variable (u) in
/-- The components of a directory, in the order in which they come up. -/
def componentsIn (dir : List String) : List Component :=
  u.components.filter (·.location.segments = dir)

theorem own_componentsIn (dir : List String) :
    own (belowAll dir (u.components.map placed)) = u.componentsIn dir := by
  rw [own_belowAll, List.filter_map, List.map_map]
  exact List.map_id _

theorem named_membersAt (h : (u.constants.map (·.name)).Nodup) (dir : List String) (n : String) :
    (Decl.named (u.membersAt reserved name dir) n).length ≤ 1 ∨
      ∃ c ∈ u.componentsIn dir, Decl.named (u.membersAt reserved name dir) n =
        Decl.byRank (accessorsOf u.imports u.owner c n) := by
  rw [← own_componentsIn]
  exact named_layout (fun _ _ _ hm => name_of_mem_accessorsOf hm) (nodup_names_firstAt h dir)
    (names_firstAt_taken dir) n

/-! ## Paths -/

variable (u reserved name) in
theorem named_path_membersAt_eq (dir : List String) :
    Decl.named (u.membersAt reserved name dir) "PATH" =
      Decl.byRank (Decl.named (u.firstAt reserved name dir) "PATH") := by
  have htaken : "PATH" ∈ (u.scopeAt reserved name dir).taken := by
    rw [scopeAt]
    split
    · exact List.mem_append_right _ (by simp [rootScope])
    · exact List.mem_cons_self
  exact named_layout_of_taken (fun _ _ _ hm => name_of_mem_accessorsOf hm) htaken

theorem nodup_objectNames_of_mem_objects (h : (u.constants.map (·.name)).Nodup)
    {package comment : String} {o : Node}
    (ho : o ∈ (u.source reserved name package comment).objects) : (Decl.objectNames o.2).Nodup := by
  rcases mem_objects_source.1 ho with ⟨dir, -, rfl⟩ | ⟨r, hr, rfl⟩
  · exact nodup_objectNames_layout (fun _ _ _ hm => name_of_mem_accessorsOf hm)
      (fun _ _ _ hm => isObject_of_mem_accessorsOf hm) (nodup_names_firstAt h dir)
      (names_firstAt_taken dir)
  · have hnone : Decl.objectNames r.2 = [] := by
      rw [Decl.objectNames, List.filter_eq_nil_iff.2, List.map_nil]
      intro m hm
      simp [isObject_of_isShelf (isShelf_of_mem_resources hr) m hm]
    rw [hnone]
    exact List.nodup_nil

theorem nodup_paths_objects (h : (u.constants.map (·.name)).Nodup) {package comment : String} :
    ((u.source reserved name package comment).objects.map (·.1)).Nodup :=
  Decl.nodup_paths_nodes _ fun _ ho => nodup_objectNames_of_mem_objects h ho

theorem isPlain_of_mem_resourceNames {n : String} (h : n ∈ u.resourceNames reserved) :
    IsPlain n := by
  have hbases : ∀ n ∈ ["Scoreboards", "Storages"], IsPlain n := by decide
  refine isPlain_of_mem_nameAll (fun base hbase => ?_) h
  obtain ⟨o, ho, rfl⟩ := List.mem_map.1 hbase
  exact hbases _ (name_of_mem_resourceObjects ho)

theorem isPlain_of_mem_address (hname : IsPlain name) {dir : List String}
    (hdir : Holds (u.components.map placed) dir) : ∀ n ∈ u.address reserved name dir, IsPlain n := by
  intro n hn
  rcases List.mem_cons.1 hn with rfl | hn
  · exact hname
  · exact isPlain_of_mem_namesTo hdir hn

theorem isPlain_of_mem_path (hname : IsPlain name) {package comment : String} {o : Node}
    (ho : o ∈ (u.source reserved name package comment).objects) : ∀ n ∈ o.1, IsPlain n := by
  intro n hn
  rcases mem_objects_source.1 ho with ⟨dir, hdir, rfl⟩ | ⟨r, hr, rfl⟩
  · exact isPlain_of_mem_address hname hdir n hn
  · rw [List.mem_cons, List.mem_singleton] at hn
    rcases hn with rfl | rfl
    · exact hname
    · exact isPlain_of_mem_resourceNames (mem_resources hr).1

theorem nodup_dotted_objects (h : (u.constants.map (·.name)).Nodup) (hname : IsPlain name)
    {package comment : String} :
    ((u.source reserved name package comment).objects.map fun o => dotted o.1).Nodup := by
  have hne : ∀ o ∈ (u.source reserved name package comment).objects, o.1 ≠ [] := by
    intro o ho
    rcases Source.mem_objects.1 ho with rfl | ⟨i, -, rfl⟩
    · simp
    · simp [Node.under]
  rw [show (fun o : Node => dotted o.1) = dotted ∘ Prod.fst from rfl, ← List.map_map]
  refine (nodup_paths_objects h).map_on ?_
  intro p hp q hq he
  obtain ⟨o, ho, rfl⟩ := List.mem_map.1 hp
  obtain ⟨i, hi, rfl⟩ := List.mem_map.1 hq
  exact dotted_injective (hne o ho) (hne i hi) (isPlain_of_mem_path hname ho)
    (isPlain_of_mem_path hname hi) he

/-! ## Accessors -/

theorem mem_componentsIn_of_slot {dir : List String} {n : String} {c : Component}
    (h : .accessor n c ∈
      slots (u.scopeAt reserved name dir) [] (belowAll dir (u.components.map placed))) :
    c ∈ u.componentsIn dir := by
  rw [← own_componentsIn, ← components_slots (u.scopeAt reserved name dir) []]
  exact List.mem_filterMap.2 ⟨_, h, rfl⟩

variable (reserved name) in
/-- The object of its directory has the accessors of a component. -/
theorem exists_accessor {c : Component} (hc : c ∈ u.components) :
    ∃ n, ∀ m ∈ accessorsOf u.imports u.owner c n,
      m ∈ u.membersAt reserved name c.location.segments := by
  have hin : c ∈ u.componentsIn c.location.segments :=
    List.mem_filter.2 ⟨hc, decide_eq_true rfl⟩
  rw [← own_componentsIn,
    ← components_slots (u.scopeAt reserved name c.location.segments) []] at hin
  obtain ⟨slot, hslot, he⟩ := List.mem_filterMap.1 hin
  cases slot with
  | accessor n c' =>
    obtain rfl : c' = c := by simpa [Slot.component?] using he
    exact ⟨n, fun m hm => mem_layout.2 (Or.inr (Or.inl ⟨n, c', hslot, hm⟩))⟩
  | child segment n => simp [Slot.component?] at he

theorem holds_of_mem {c : Component} (hc : c ∈ u.components) :
    Holds (u.components.map placed) c.location.segments := by
  by_cases hnil : c.location.segments = []
  · exact Or.inl hnil
  · exact Or.inr ⟨hnil, _, List.mem_map_of_mem hc, List.prefix_rfl⟩

/-! ## All members -/

theorem firstAt_cases {dir : List String} {m : Decl} (hm : m ∈ u.firstAt reserved name dir) :
    (∃ p ∈ u.constants, m = .property p) ∨ (∃ r ∈ u.resources reserved name, m = .object r.1 r.2) ∨
      ∃ above segment, dir = above ++ [segment] ∧
        m = pathConstant (dotted (u.address reserved name above)) segment := by
  rcases List.eq_nil_or_concat' dir with rfl | ⟨above, segment, rfl⟩
  · rcases List.mem_append.1 hm with hm | hm
    · obtain ⟨p, hp, rfl⟩ := List.mem_map.1 hm
      exact Or.inl ⟨p, hp, rfl⟩
    · obtain ⟨r, hr, rfl⟩ := List.mem_map.1 hm
      exact Or.inr (Or.inl ⟨r, hr, rfl⟩)
  · rw [firstAt_concat, List.mem_singleton] at hm
    exact Or.inr (Or.inr ⟨above, segment, rfl, hm⟩)

variable (u reserved name) in
/-- A predicate holds of whatever stands in an object of the unit: of what is put first in it, of
accessors, of objects of directories, and of objectives and storages. -/
structure IsKept (P : Decl → Prop) : Prop where
  constants : ∀ p ∈ u.constants, P (.property p)
  resources : ∀ r ∈ u.resources reserved name, P (.object r.1 r.2)
  objectives : ∀ m ∈ objectiveMembers u.owner u.objectives, P m
  storages : ∀ m ∈ storageMembers u.imports u.owner u.storages, P m
  paths : ∀ dir segment, Holds (u.components.map placed) (dir ++ [segment]) →
    P (pathConstant (dotted (u.address reserved name dir)) segment)
  accessors : ∀ {scope ps n}, ∀ c ∈ u.components, Slot.accessor n c ∈ slots scope [] ps →
    ∀ m ∈ accessorsOf u.imports u.owner c n, P m
  children : ∀ {scope ps segment n}, Slot.child segment n ∈ slots scope [] ps →
    ∀ members, P (.object n members)

/-- So it holds of all members of all objects. -/
theorem IsKept.forall_mem {P : Decl → Prop} (h : u.IsKept reserved name P) {package comment : String}
    {o : Node} (ho : o ∈ (u.source reserved name package comment).objects) : ∀ m ∈ o.2, P m := by
  intro m hm
  rcases mem_objects_source.1 ho with ⟨dir, hdir, rfl⟩ | ⟨r, hr, rfl⟩
  · rcases mem_layout.1 hm with hm | ⟨n, c, hslot, hm⟩ | ⟨child, hchild, rfl⟩
    · rcases firstAt_cases hm with ⟨p, hp, rfl⟩ | ⟨r, hr, rfl⟩ | ⟨above, segment, rfl, rfl⟩
      · exact h.constants p hp
      · exact h.resources r hr
      · exact h.paths above segment hdir
    · exact h.accessors c (List.mem_of_mem_filter (mem_componentsIn_of_slot hslot)) hslot m hm
    · exact h.children (mem_children.1 hchild) _
  · rcases resource_cases hr with he | ⟨-, he⟩
    · exact h.objectives m (he ▸ hm)
    · exact h.storages m (he ▸ hm)

end

end Contents

end PackBindings.Bindings
