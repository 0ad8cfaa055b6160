/-
  PackBindings.Proofs.Bindings.Layout — the objects of directories, at every depth.

  `layout` is what a directory comes to when no directory below it is cut off. It is given
  by one equation (`layout_eq`) that says nothing of depths: first what the directory has
  of its own, then the accessors of its slots, then an object for each child, laid out in
  the same way.

  Proved, for every scope, all components and every way to declare accessors:
  - `members_eq_layout`: any bound that reaches the deepest component gives the layout.
  - `mem_within_layout`: the objects within a layout are those within its first members
    and one for each directory on the way to a component. The object of a directory has
    the path `namesTo` leads to and holds the layout of what lies below.
-/

import PackBindings.Proofs.Bindings.Slots
import PackBindings.Proofs.Kotlin.Objects

namespace PackBindings.Bindings

open PackBindings.Kotlin

/-! ## What lies below a segment -/

theorem mem_below {segment : String} {ps : List Placed} {p : Placed} :
    p ∈ below segment ps ↔ (segment :: p.1, p.2) ∈ ps := by
  rw [below, List.mem_filterMap]
  constructor
  · rintro ⟨⟨_ | ⟨s, rest⟩, c⟩, hq, h⟩
    · simp at h
    · simp only [Option.ite_none_right_eq_some, Option.some.injEq] at h
      obtain ⟨rfl, rfl⟩ := h
      exact hq
  · exact fun h => ⟨_, h, by simp⟩

theorem depthOf_le_iff {ps : List Placed} {n : Nat} :
    depthOf ps ≤ n ↔ ∀ p ∈ ps, p.1.length ≤ n := by
  induction ps with
  | nil => simp [depthOf]
  | cons p ps ih =>
    have hcons : depthOf (p :: ps) = max p.1.length (depthOf ps) := rfl
    rw [hcons, Nat.max_le, ih, List.forall_mem_cons]

theorem depthOf_below_le {segment : String} {ps : List Placed} {n : Nat}
    (h : depthOf ps ≤ n + 1) : depthOf (below segment ps) ≤ n := by
  rw [depthOf_le_iff] at h ⊢
  intro p hp
  have := h _ (mem_below.1 hp)
  simpa using this

theorem not_startsWith_of_depthOf {ps : List Placed} (h : depthOf ps = 0) (segment : String) :
    ¬StartsWith ps segment := by
  rintro ⟨p, hp, hs⟩
  have := depthOf_le_iff.1 (Nat.le_of_eq h) p hp
  have hnil : p.1 = [] := List.length_eq_zero_iff.1 (Nat.le_zero.1 this)
  rw [hnil] at hs
  simp at hs

theorem children_of_depthOf (scope : Scope) {ps : List Placed} (h : depthOf ps = 0) :
    children (slots scope [] ps) = [] := by
  rw [List.eq_nil_iff_forall_not_mem]
  rintro ⟨segment, name⟩ hmem
  exact not_startsWith_of_depthOf h segment (exists_mem_children_iff.1 ⟨name, hmem⟩)

/-! ## The layout of a directory -/

section

variable (reserved : List String) (declare : Component → String → List Decl)

def declared : Slot → List Decl
  | .accessor name c => declare c name
  | .child .. => []

def layout (path : String) (scope : Scope) (first : List Decl) (ps : List Placed) : List Decl :=
  members reserved declare (depthOf ps) path scope first ps

/-- The object of a child of the directory whose object has the given path. -/
def childObject (path : String) (ps : List Placed) (child : String × String) : Decl :=
  .object child.2 (layout reserved declare (path ++ "." ++ child.2) (nestedScope reserved)
    [pathConstant path child.1] (below child.1 ps))

theorem members_eq_layout {ps : List Placed} {depth : Nat} (h : depthOf ps ≤ depth) (path : String)
    (scope : Scope) (first : List Decl) :
    members reserved declare depth path scope first ps =
      layout reserved declare path scope first ps := by
  -- two bounds that both reach the deepest component make no difference
  suffices hind : ∀ (d e : Nat) (ps : List Placed) (path : String) (scope : Scope)
      (first : List Decl), depthOf ps ≤ d → depthOf ps ≤ e →
      members reserved declare d path scope first ps =
        members reserved declare e path scope first ps from
    hind _ _ ps path scope first h (Nat.le_refl _)
  intro d
  induction d with
  | zero =>
    intro e ps path scope first hd _
    have hnone := children_of_depthOf scope (Nat.le_zero.1 hd)
    cases e with
    | zero => rfl
    | succ e => simp only [members, hnone, List.map_nil]
  | succ d ih =>
    intro e ps path scope first hd he
    cases e with
    | zero =>
      have hnone := children_of_depthOf scope (Nat.le_zero.1 he)
      simp only [members, hnone, List.map_nil]
    | succ e =>
      have hsame : ∀ child : String × String,
          members reserved declare d (path ++ "." ++ child.2) (nestedScope reserved)
              [pathConstant path child.1] (below child.1 ps) =
            members reserved declare e (path ++ "." ++ child.2) (nestedScope reserved)
              [pathConstant path child.1] (below child.1 ps) :=
        fun child => ih e _ _ _ _ (depthOf_below_le hd) (depthOf_below_le he)
      simp only [members, hsame]

theorem layout_eq (path : String) (scope : Scope) (first : List Decl) (ps : List Placed) :
    layout reserved declare path scope first ps =
      Decl.byRank (first ++ (slots scope [] ps).flatMap (declared declare) ++
        (children (slots scope [] ps)).map (childObject reserved declare path ps)) := by
  rw [layout]
  cases hd : depthOf ps with
  | zero =>
    rw [children_of_depthOf scope hd]
    rfl
  | succ d =>
    have hbelow : ∀ child : String × String,
        members reserved declare d (path ++ "." ++ child.2) (nestedScope reserved)
            [pathConstant path child.1] (below child.1 ps) =
          layout reserved declare (path ++ "." ++ child.2) (nestedScope reserved)
            [pathConstant path child.1] (below child.1 ps) :=
      fun child => members_eq_layout _ _ (depthOf_below_le (Nat.le_of_eq hd)) _ _ _
    simp only [members, hbelow]
    rfl

theorem flatMap_declared (xs : List Slot) :
    xs.flatMap (declared declare) = (accessors xs).flatMap fun a => declare a.1 a.2 := by
  induction xs with
  | nil => rfl
  | cons x xs ih =>
    rw [List.flatMap_cons, ih]
    cases x with
    | accessor n c => rfl
    | child segment n => rfl

variable {reserved declare} in
theorem mem_layout {path : String} {scope : Scope} {first : List Decl} {ps : List Placed} {m : Decl} :
    m ∈ layout reserved declare path scope first ps ↔
      m ∈ first ∨ (∃ n c, Slot.accessor n c ∈ slots scope [] ps ∧ m ∈ declare c n) ∨
        ∃ child ∈ children (slots scope [] ps), m = childObject reserved declare path ps child := by
  have haccessors : m ∈ (slots scope [] ps).flatMap (declared declare) ↔
      ∃ n c, Slot.accessor n c ∈ slots scope [] ps ∧ m ∈ declare c n := by
    rw [flatMap_declared, List.mem_flatMap]
    constructor
    · intro ⟨⟨c, n⟩, ha, hm⟩
      exact ⟨n, c, mem_accessors.1 ha, hm⟩
    · intro ⟨n, c, hx, hm⟩
      exact ⟨_, mem_accessors.2 hx, hm⟩
  rw [layout_eq, (Decl.byRank_perm _).mem_iff, List.mem_append, List.mem_append, haccessors, or_assoc]
  refine or_congr_right (or_congr_right ?_)
  rw [List.mem_map]
  exact exists_congr fun child => and_congr_right fun _ => eq_comm

end

/-! ## Directories -/

/-- The directories on the way to components, without the one they are all in. -/
def IsDirectory (ps : List Placed) (dir : List String) : Prop := dir ≠ [] ∧ ∃ p ∈ ps, dir <+: p.1

/-- The components below a directory. -/
def belowAll : List String → List Placed → List Placed
  | [], ps => ps
  | segment :: dir, ps => belowAll dir (below segment ps)

theorem own_belowAll (dir : List String) (ps : List Placed) :
    own (belowAll dir ps) = (ps.filter (·.1 = dir)).map (·.2) := by
  induction dir generalizing ps with
  | nil =>
    induction ps with
    | nil => rfl
    | cons p ps ih =>
      obtain ⟨_ | ⟨s, rest⟩, c⟩ := p
      · simpa [own, belowAll] using ih
      · simpa [own, belowAll] using ih
  | cons segment dir ih =>
    rw [belowAll, ih]
    clear ih
    induction ps with
    | nil => rfl
    | cons p ps ih =>
      obtain ⟨_ | ⟨s, rest⟩, c⟩ := p
      · simpa [below] using ih
      · by_cases hs : s = segment
        · subst hs
          by_cases hr : rest = dir
          · simpa [below, hr] using ih
          · simpa [below, hr] using ih
        · simpa [below, hs] using ih

/-- The name of the object of a child. -/
def childName (scope : Scope) (ps : List Placed) (segment : String) : String :=
  ((children (slots scope [] ps)).lookup segment).getD ""

/-- The names of the objects on the way to a directory. -/
def namesTo (reserved : List String) : Scope → List Placed → List String → List String
  | _, _, [] => []
  | scope, ps, segment :: dir =>
    childName scope ps segment :: namesTo reserved (nestedScope reserved) (below segment ps) dir

theorem isDirectory_singleton {ps : List Placed} {segment : String} :
    IsDirectory ps [segment] ↔ StartsWith ps segment := by
  simp only [IsDirectory, StartsWith, ne_eq, List.cons_ne_nil, not_false_eq_true, true_and]
  refine exists_congr fun p => and_congr_right fun _ => ?_
  cases p.1 <;> simp [eq_comm]

theorem isDirectory_cons {ps : List Placed} {segment : String} {dir : List String} (h : dir ≠ []) :
    IsDirectory ps (segment :: dir) ↔ IsDirectory (below segment ps) dir := by
  simp only [IsDirectory, ne_eq, List.cons_ne_nil, not_false_eq_true, true_and, h]
  constructor
  · rintro ⟨⟨segments, c⟩, hp, rest, rfl⟩
    exact ⟨(dir ++ rest, c), mem_below.2 hp, List.prefix_append _ _⟩
  · rintro ⟨p, hp, hpre⟩
    exact ⟨_, mem_below.1 hp, (List.prefix_cons_inj segment).2 hpre⟩

theorem startsWith_of_isDirectory {ps : List Placed} {segment : String} {dir : List String}
    (h : IsDirectory ps (segment :: dir)) : StartsWith ps segment := by
  obtain ⟨-, p, hp, hpre⟩ := h
  refine ⟨p, hp, ?_⟩
  obtain ⟨rest, he⟩ := hpre
  rw [← he]
  rfl

theorem mem_children_iff {scope : Scope} {ps : List Placed} {segment name : String} :
    (segment, name) ∈ children (slots scope [] ps) ↔
      StartsWith ps segment ∧ name = childName scope ps segment := by
  have hone : ∀ {n : String}, (segment, n) ∈ children (slots scope [] ps) →
      childName scope ps segment = n := by
    intro n hn
    rw [childName, lookup_eq_of_mem (nodup_segments_children scope ps) hn]
    rfl
  constructor
  · exact fun h => ⟨exists_mem_children_iff.1 ⟨name, h⟩, (hone h).symm⟩
  · rintro ⟨hs, rfl⟩
    obtain ⟨n, hn⟩ := exists_mem_children_iff.2 hs
    rwa [hone hn]

/-! ## Objects within a layout -/

section

variable (reserved : List String) (declare : Component → String → List Decl)

/-- The object of the directory `segment` in the directory `dir`, as it lies within the layout
of the directory whose object has the given path. -/
def directoryNode (path : List String) (scope : Scope) (ps : List Placed) (dir : List String)
    (segment : String) : Node :=
  (namesTo reserved scope ps (dir ++ [segment]),
    layout reserved declare (dotted (path ++ namesTo reserved scope ps (dir ++ [segment])))
      (nestedScope reserved)
      [pathConstant (dotted (path ++ namesTo reserved scope ps dir)) segment]
      (belowAll (dir ++ [segment]) ps))

variable {reserved declare}

theorem directoryNode_nil (path : List String) (scope : Scope) (ps : List Placed)
    (segment : String) :
    directoryNode reserved declare path scope ps [] segment =
      ([childName scope ps segment],
        layout reserved declare (dotted (path ++ [childName scope ps segment]))
          (nestedScope reserved) [pathConstant (dotted path) segment] (below segment ps)) := by
  simp [directoryNode, namesTo, belowAll]

theorem directoryNode_cons (path : List String) (scope : Scope) (ps : List Placed)
    (first : String) (dir : List String) (segment : String) :
    directoryNode reserved declare path scope ps (first :: dir) segment =
      Node.under (childName scope ps first)
        (directoryNode reserved declare (path ++ [childName scope ps first]) (nestedScope reserved)
          (below first ps) dir segment) := by
  simp [directoryNode, Node.under, namesTo, belowAll]

theorem mem_within_byRank {ms : List Decl} {o : Node} :
    o ∈ Decl.within (Decl.byRank ms) ↔ o ∈ Decl.within ms :=
  Decl.mem_within_of_perm (Decl.byRank_perm ms)

theorem mem_within_layout_step (hdeclare : ∀ c name, ∀ m ∈ declare c name, m.isObject = false)
    {path : List String} (hpath : path ≠ []) {scope : Scope} {first : List Decl} {ps : List Placed}
    {o : Node} :
    o ∈ Decl.within (layout reserved declare (dotted path) scope first ps) ↔
      o ∈ Decl.within first ∨ ∃ segment, StartsWith ps segment ∧
        o ∈ Decl.nodes (.object (childName scope ps segment)
          (layout reserved declare (dotted (path ++ [childName scope ps segment]))
            (nestedScope reserved) [pathConstant (dotted path) segment] (below segment ps))) := by
  have hacc : Decl.within ((slots scope [] ps).flatMap (declared declare)) = [] := by
    refine Decl.within_eq_nil fun m hm => ?_
    obtain ⟨x, -, hx⟩ := List.mem_flatMap.1 hm
    cases x with
    | accessor name c => exact hdeclare c name m hx
    | child segment name => simp [declared] at hx
  rw [layout_eq, mem_within_byRank, Decl.within_append, Decl.within_append, hacc,
    List.append_nil, List.mem_append, Decl.within_eq_flatMap (List.map _ _), List.mem_flatMap]
  refine or_congr_right ⟨?_, ?_⟩
  · rintro ⟨d, hd, ho⟩
    obtain ⟨⟨segment, name⟩, hmem, rfl⟩ := List.mem_map.1 hd
    obtain ⟨hs, rfl⟩ := mem_children_iff.1 hmem
    refine ⟨segment, hs, ?_⟩
    rwa [dotted_concat hpath]
  · rintro ⟨segment, hs, ho⟩
    refine ⟨_, List.mem_map_of_mem (mem_children_iff.2 ⟨hs, rfl⟩), ?_⟩
    rwa [dotted_concat hpath] at ho

theorem mem_within_layout (hdeclare : ∀ c name, ∀ m ∈ declare c name, m.isObject = false)
    {path : List String} (hpath : path ≠ []) {scope : Scope} {first : List Decl} {ps : List Placed}
    {o : Node} :
    o ∈ Decl.within (layout reserved declare (dotted path) scope first ps) ↔
      o ∈ Decl.within first ∨ ∃ dir segment, IsDirectory ps (dir ++ [segment]) ∧
        o = directoryNode reserved declare path scope ps dir segment := by
  -- the induction is on how far down the deepest component lies
  suffices hind : ∀ (n : Nat) {path : List String} {scope : Scope} {first : List Decl}
      {ps : List Placed} {o : Node}, path ≠ [] → depthOf ps ≤ n →
      (o ∈ Decl.within (layout reserved declare (dotted path) scope first ps) ↔
        o ∈ Decl.within first ∨ ∃ dir segment, IsDirectory ps (dir ++ [segment]) ∧
          o = directoryNode reserved declare path scope ps dir segment) from
    hind _ hpath (Nat.le_refl _)
  intro n
  induction n with
  | zero =>
    intro path scope first ps o hpath hd
    rw [mem_within_layout_step hdeclare hpath]
    refine or_congr_right ⟨?_, ?_⟩
    · rintro ⟨segment, hs, -⟩
      exact absurd hs (not_startsWith_of_depthOf (Nat.le_zero.1 hd) segment)
    · rintro ⟨dir, segment, hdir, -⟩
      cases dir with
      | nil => exact absurd (startsWith_of_isDirectory hdir)
                (not_startsWith_of_depthOf (Nat.le_zero.1 hd) _)
      | cons s dir => exact absurd (startsWith_of_isDirectory hdir)
                        (not_startsWith_of_depthOf (Nat.le_zero.1 hd) _)
  | succ n ih =>
    intro path scope first ps o hpath hd
    rw [mem_within_layout_step hdeclare hpath]
    refine or_congr_right ⟨?_, ?_⟩
    · rintro ⟨segment, hs, ho⟩
      rcases Decl.mem_nodes_object.1 ho with rfl | ⟨i, hi, rfl⟩
      · exact ⟨[], segment, isDirectory_singleton.2 hs, (directoryNode_nil ..).symm⟩
      · rw [ih (by simp) (depthOf_below_le hd)] at hi
        rcases hi with hi | ⟨dir, last, hdir, rfl⟩
        · simp [Decl.within, Decl.nodes, pathConstant] at hi
        · exact ⟨segment :: dir, last, (isDirectory_cons (by simp)).2 hdir,
            (directoryNode_cons ..).symm⟩
    · rintro ⟨dir, last, hdir, rfl⟩
      cases dir with
      | nil =>
        refine ⟨last, isDirectory_singleton.1 hdir, Decl.mem_nodes_object.2 (Or.inl ?_)⟩
        exact directoryNode_nil ..
      | cons segment dir =>
        refine ⟨segment, startsWith_of_isDirectory hdir, Decl.mem_nodes_object.2 (Or.inr ?_)⟩
        refine ⟨_, ?_, directoryNode_cons ..⟩
        rw [ih (by simp) (depthOf_below_le hd)]
        exact Or.inr ⟨dir, last, (isDirectory_cons (by simp)).1 hdir, rfl⟩

end

end PackBindings.Bindings
