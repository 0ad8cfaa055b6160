/-
  PackBindings.Proofs.Bindings.Enclosing — what stands around an object of a unit.

  Around the object of a directory stand the objects of the directories above it, and
  nothing else: the resource objects hold properties alone. What a name means there is
  thus up to these directories, and the names in each of them are those of its first
  members and those of its slots.

  Proved, for every unit, whatever is reserved and whatever the root is called:
  - `mem_around_directory`: the objects around the object of a directory.
  - `mem_around_resource`: a resource object has the root around it.
  - `mem_names_membersAt`: the names in the object of a directory.
  - `name_not_mem_tail`: no object below the root has the name of the root.
-/

import Mathlib.Data.List.Infix
import PackBindings.Proofs.Bindings.Mirror
import PackBindings.Proofs.Bindings.Wishes
import PackBindings.Proofs.Kotlin.Lookup

namespace PackBindings.Bindings

open PackBindings.Kotlin

namespace Contents

section

variable {u : Contents} {reserved : List String} {name package comment : String}

/-! ## Directories above a directory -/

theorem holds_above {ps : List Placed} {above dir : List String} (h : Holds ps dir)
    (hpre : above <+: dir) : Holds ps above := by
  by_cases hnil : above = []
  · exact Or.inl hnil
  · have hne : dir ≠ [] := by
      rintro rfl
      exact hnil (List.prefix_nil.1 hpre)
    obtain ⟨-, p, hp, hdir⟩ := h.resolve_left hne
    exact Or.inr ⟨hnil, p, hp, hpre.trans hdir⟩

theorem length_address (dir : List String) : (u.address reserved name dir).length = dir.length + 1 := by
  have hnames : ∀ (scope : Scope) (ps : List Placed),
      (namesTo (name :: reserved) scope ps dir).length = dir.length := by
    induction dir with
    | nil => exact fun _ _ => rfl
    | cons segment dir ih =>
      intro scope ps
      exact congrArg (· + 1) (ih _ _)
  exact congrArg (· + 1) (hnames _ _)

theorem address_above {above dir : List String} (h : above <+: dir) :
    u.address reserved name above <+: u.address reserved name dir := by
  have hnames : ∀ (scope : Scope) (ps : List Placed),
      namesTo (name :: reserved) scope ps above <+: namesTo (name :: reserved) scope ps dir := by
    induction above generalizing dir with
    | nil => exact fun _ _ => List.nil_prefix
    | cons segment above ih =>
      intro scope ps
      obtain ⟨rest, rfl⟩ := h
      exact (List.prefix_cons_inj _).2 (ih (List.prefix_append above rest) _ _)
  exact (List.prefix_cons_inj _).2 (hnames _ _)

theorem address_prefix_iff {above dir : List String} (ha : Holds (u.components.map placed) above)
    (hd : Holds (u.components.map placed) dir) :
    u.address reserved name above <+: u.address reserved name dir ↔ above <+: dir := by
  refine ⟨fun h => ?_, address_above⟩
  -- the part of the directory that is as long as the other one leads to the same object
  have hlen := h.length_le
  rw [length_address, length_address] at hlen
  have htake : dir.take above.length <+: dir := List.take_prefix _ _
  have hsame : u.address reserved name above = u.address reserved name (dir.take above.length) := by
    refine (List.prefix_of_prefix_length_le h (address_above htake) ?_).eq_of_length ?_
    · rw [length_address, length_address, List.length_take]
      omega
    · rw [length_address, length_address, List.length_take]
      omega
  rw [address_injective ha (holds_above hd htake) hsame]
  exact htake

/-! ## Objects around an object -/

theorem mem_around_directory {dir : List String} (hdir : Holds (u.components.map placed) dir)
    {o : Node} : (o ∈ (u.source reserved name package comment).objects ∧
        o.1 <+: u.address reserved name dir) ↔
      ∃ above, above <+: dir ∧ o = (u.address reserved name above, u.membersAt reserved name above) := by
  rw [mem_objects_source]
  constructor
  · rintro ⟨⟨above, ha, rfl⟩ | ⟨r, hr, rfl⟩, hpre⟩
    · exact ⟨above, (address_prefix_iff ha hdir).1 hpre, rfl⟩
    · -- a directory at the top would have the name of a resource object
      cases dir with
      | nil =>
        have hlen := hpre.length_le
        rw [length_address] at hlen
        simp at hlen
      | cons segment dir =>
        have htop : [segment] <+: segment :: dir := (List.prefix_cons_inj _).2 List.nil_prefix
        have haddress : u.address reserved name [segment] <+: u.address reserved name (segment :: dir) :=
          address_above htop
        have hsame : u.address reserved name [segment] = [name, r.1] := by
          refine (List.prefix_of_prefix_length_le haddress hpre ?_).eq_of_length ?_
          · rw [length_address]
            simp
          · rw [length_address]
            simp
        exact absurd hsame (address_ne_resource (holds_above hdir htop) (mem_resources hr).1)
  · rintro ⟨above, hpre, rfl⟩
    exact ⟨Or.inl ⟨above, holds_above hdir hpre, rfl⟩, address_above hpre⟩

theorem object_above (reserved : List String) (name package comment : String) {above dir : List String}
    (hdir : Holds (u.components.map placed) dir) (hpre : above <+: dir) :
    (u.address reserved name above, u.membersAt reserved name above) ∈
        (u.source reserved name package comment).objects ∧
      u.address reserved name above <+: u.address reserved name dir :=
  (mem_around_directory hdir).2 ⟨above, hpre, rfl⟩

theorem mem_around_resource (h : (u.constants.map (·.name)).Nodup) {r : String × List Decl}
    (hr : r ∈ u.resources reserved name) {o : Node}
    (ho : o ∈ (u.source reserved name package comment).objects) (hpre : o.1 <+: [name, r.1]) :
    o = ([name], u.membersAt reserved name []) ∨ o = ([name, r.1], r.2) := by
  have hself : ([name, r.1], r.2) ∈ (u.source reserved name package comment).objects :=
    mem_objects_source.2 (Or.inr ⟨r, hr, rfl⟩)
  by_cases hlen : o.1.length = 2
  · right
    have hpath : o.1 = [name, r.1] := hpre.eq_of_length hlen
    exact List.inj_on_of_nodup_map (nodup_paths_objects h) ho hself hpath
  · left
    rcases mem_objects_source.1 ho with ⟨dir, -, rfl⟩ | ⟨t, -, rfl⟩
    · have hle := hpre.length_le
      rw [length_address, List.length_cons, List.length_singleton] at hle
      rw [length_address] at hlen
      have hnil : dir = [] := List.length_eq_zero_iff.1 (by omega)
      rw [hnil]
      rfl
    · simp at hlen

/-- No object on the way to a directory has a name that is taken everywhere. -/
theorem not_mem_namesTo {scope : Scope} {ps : List Placed} {dir : List String} {n : String}
    (hn : n ∈ reserved) (ht : n ∈ scope.taken) (hdir : Holds ps dir) :
    n ∉ namesTo reserved scope ps dir := by
  induction dir generalizing scope ps with
  | nil => exact List.not_mem_nil
  | cons segment dir ih =>
    obtain ⟨hs, hrest⟩ := holds_cons hdir
    rw [namesTo, List.mem_cons, not_or]
    refine ⟨?_, ih (List.mem_cons_of_mem _ hn) hrest⟩
    rintro rfl
    exact childName_not_mem hs ht

theorem name_not_mem_tail {o : Node} (ho : o ∈ (u.source reserved name package comment).objects) :
    name ∉ o.1.tail := by
  rcases mem_objects_source.1 ho with ⟨dir, hdir, rfl⟩ | ⟨r, hr, rfl⟩
  · exact not_mem_namesTo List.mem_cons_self (by simp [mainScope, rootScope]) hdir
  · intro hmem
    have hname : name = r.1 := by simpa using hmem
    have hfree := Scope.not_mem_of_mem_nameAll (mem_resources hr).1
    rw [← hname] at hfree
    exact hfree (by simp [rootScope])

/-! ## Names in the object of a directory -/

variable (u reserved name) in
def slotsAt (dir : List String) : List Slot :=
  slots (u.scopeAt reserved name dir) [] (belowAll dir (u.components.map placed))

theorem accessorsOf_ne_nil {imports : Imports} {owner : String} (c : Component) (n : String) :
    accessorsOf imports owner c n ≠ [] := by
  cases c with
  | resource k l => exact List.cons_ne_nil _ _
  | script l t => exact List.cons_ne_nil _ _
  | scriptTag l => exact List.cons_ne_nil _ _

theorem mem_names_membersAt {dir : List String} {n : String} :
    n ∈ (u.membersAt reserved name dir).map Decl.name ↔
      n ∈ (u.firstAt reserved name dir).map Decl.name ∨
        ∃ x ∈ u.slotsAt reserved name dir, x.name = n := by
  rw [List.mem_map, List.mem_map]
  constructor
  · rintro ⟨m, hm, rfl⟩
    rcases mem_layout.1 hm with hm | ⟨k, c, hx, hm⟩ | ⟨⟨segment, k⟩, hchild, rfl⟩
    · exact Or.inl ⟨m, hm, rfl⟩
    · exact Or.inr ⟨_, hx, (name_of_mem_accessorsOf hm).symm⟩
    · exact Or.inr ⟨_, mem_children.1 hchild, rfl⟩
  · rintro (⟨m, hm, rfl⟩ | ⟨x, hx, rfl⟩)
    · exact ⟨m, mem_layout.2 (Or.inl hm), rfl⟩
    · cases x with
      | accessor k c =>
        obtain ⟨m, hm⟩ := List.exists_mem_of_ne_nil _ (accessorsOf_ne_nil c k)
        exact ⟨m, mem_layout.2 (Or.inr (Or.inl ⟨k, c, hx, hm⟩)), name_of_mem_accessorsOf hm⟩
      | child segment k =>
        exact ⟨_, mem_layout.2 (Or.inr (Or.inr ⟨_, mem_children.2 hx, rfl⟩)), rfl⟩

/-- A name that is taken from the start is the name of a first member or of none. -/
theorem mem_names_of_taken {dir : List String} {n : String}
    (h : n ∈ (u.scopeAt reserved name dir).taken) :
    n ∈ (u.membersAt reserved name dir).map Decl.name ↔
      n ∈ (u.firstAt reserved name dir).map Decl.name := by
  rw [mem_names_membersAt]
  refine ⟨fun hn => hn.resolve_right ?_, Or.inl⟩
  rintro ⟨x, hx, rfl⟩
  exact not_mem_of_mem_slots hx h

theorem mem_belowAll {dir : List String} {ps : List Placed} {p : Placed} :
    p ∈ belowAll dir ps ↔ (dir ++ p.1, p.2) ∈ ps := by
  induction dir generalizing ps with
  | nil => rfl
  | cons segment dir ih => rw [belowAll, ih, mem_below, List.cons_append]

end

end Contents

end PackBindings.Bindings
