/-
  PackBindings.Proofs.Bindings.MemberNames — members of one object that share a name.

  The names of a directory's slots are new in its scope, and its first members have names
  that are taken there. So members share a name only if one slot declares them all.

  Proved, for every scope and all components:
  - `named_layout`: the members of one name in a layout are one at most, or they are all
    that is declared for one of the directory's own components.
  - `nodup_objectNames_layout`: no two objects side by side in a layout have one name.
-/

import PackBindings.Proofs.Bindings.Layout

namespace PackBindings.Kotlin.Decl

/-- The members of a name. -/
def named (ms : List Decl) (n : String) : List Decl := ms.filter (·.name = n)

theorem named_append (ms ns : List Decl) (n : String) :
    named (ms ++ ns) n = named ms n ++ named ns n := List.filter_append ..

theorem named_byRank (ms : List Decl) (n : String) : named (byRank ms) n = byRank (named ms n) :=
  filter_byRank ..

theorem named_eq_nil {ms : List Decl} {n : String} (h : n ∉ ms.map name) : named ms n = [] := by
  rw [named, List.filter_eq_nil_iff]
  intro m hm he
  exact h (List.mem_map.2 ⟨m, hm, by simpa using he⟩)

theorem length_named (ms : List Decl) (n : String) : (named ms n).length = (ms.map name).count n := by
  rw [named, ← List.countP_eq_length_filter, List.count, List.countP_map]
  exact List.countP_congr fun m _ => by simp

theorem length_named_le_one {ms : List Decl} (h : (ms.map name).Nodup) (n : String) :
    (named ms n).length ≤ 1 := by
  rw [length_named]
  exact List.nodup_iff_count_le_one.1 h n

theorem nodup_objectNames {ms : List Decl}
    (h : ∀ n, (named ms n).length ≤ 1 ∨ ∀ m ∈ named ms n, isObject m = false) :
    (objectNames ms).Nodup := by
  rw [List.nodup_iff_count_le_one]
  intro n
  have hcount : (objectNames ms).count n = ((named ms n).filter isObject).length := by
    rw [objectNames, ← length_named, named, named, List.filter_comm]
  rw [hcount]
  rcases h n with h | h
  · exact Nat.le_trans (List.length_filter_le _ _) h
  · rw [List.filter_eq_nil_iff.2 fun m hm => by simp [h m hm]]
    exact Nat.zero_le 1

end PackBindings.Kotlin.Decl

namespace PackBindings.Bindings

open PackBindings.Kotlin

/-! ## Slots of a name -/

theorem filter_name_eq_singleton {xs : List Slot} (hnd : (xs.map Slot.name).Nodup) {x : Slot}
    (hx : x ∈ xs) : xs.filter (·.name = x.name) = [x] := by
  obtain ⟨before, after, rfl⟩ := List.append_of_mem hx
  have hother : (before ++ after).filter (·.name = x.name) = [] := by
    rw [List.filter_eq_nil_iff]
    intro y hy he
    exact ((mem_append_iff_of_nodup_map hnd).1 hy).2 (by simpa using he)
  rw [List.filter_append, List.append_eq_nil_iff] at hother
  rw [List.filter_append, List.filter_cons_of_pos (by simp), hother.1, hother.2]
  rfl

theorem nodup_names_children (scope : Scope) (ps : List Placed) :
    ((children (slots scope [] ps)).map (·.2)).Nodup := by
  rw [children, ((List.mergeSort_perm _ _).map _).nodup_iff]
  refine List.Sublist.nodup ?_ (nodup_names_slots scope [] ps)
  generalize slots scope [] ps = xs
  induction xs with
  | nil => simp
  | cons x xs ih =>
    cases x with
    | accessor n c => exact ih.cons _
    | child segment n => exact ih.cons_cons _

/-! ## Names of directories -/

theorem mem_slots_of_startsWith {scope : Scope} {ps : List Placed} {segment : String}
    (h : StartsWith ps segment) :
    Slot.child segment (childName scope ps segment) ∈ slots scope [] ps :=
  mem_children.1 (mem_children_iff.2 ⟨h, rfl⟩)

theorem childName_not_mem {scope : Scope} {ps : List Placed} {segment : String}
    (h : StartsWith ps segment) : childName scope ps segment ∉ scope.taken :=
  not_mem_of_mem_slots (mem_slots_of_startsWith h)

theorem childName_injective {scope : Scope} {ps : List Placed} {s t : String}
    (hs : StartsWith ps s) (ht : StartsWith ps t)
    (h : childName scope ps s = childName scope ps t) : s = t := by
  have hpair := List.inj_on_of_nodup_map (nodup_names_children scope ps)
    (mem_children_iff.2 ⟨hs, rfl⟩) (mem_children_iff.2 ⟨ht, rfl⟩) h
  exact congrArg Prod.fst hpair

/-- The top, or a directory on the way to a component. -/
def Holds (ps : List Placed) (dir : List String) : Prop := dir = [] ∨ IsDirectory ps dir

theorem holds_cons {ps : List Placed} {segment : String} {dir : List String}
    (h : Holds ps (segment :: dir)) : StartsWith ps segment ∧ Holds (below segment ps) dir := by
  have hdir : IsDirectory ps (segment :: dir) := h.resolve_left (by simp)
  refine ⟨startsWith_of_isDirectory hdir, ?_⟩
  by_cases hnil : dir = []
  · exact Or.inl hnil
  · exact Or.inr ((isDirectory_cons hnil).1 hdir)

theorem isPlain_of_mem_namesTo {reserved : List String} {scope : Scope} {ps : List Placed}
    {dir : List String} (h : Holds ps dir) {n : String} (hn : n ∈ namesTo reserved scope ps dir) :
    IsPlain n := by
  induction dir generalizing scope ps with
  | nil => simp [namesTo] at hn
  | cons segment dir ih =>
    obtain ⟨hs, hrest⟩ := holds_cons h
    rcases List.mem_cons.1 hn with rfl | hn
    · exact isPlain_of_mem_slots (mem_slots_of_startsWith hs)
    · exact ih hrest hn

theorem namesTo_injective {reserved : List String} {scope : Scope} {ps : List Placed}
    {dir other : List String} (hd : Holds ps dir) (ho : Holds ps other)
    (h : namesTo reserved scope ps dir = namesTo reserved scope ps other) : dir = other := by
  induction dir generalizing scope ps other with
  | nil =>
    cases other with
    | nil => rfl
    | cons t other => simp [namesTo] at h
  | cons s dir ih =>
    cases other with
    | nil => simp [namesTo] at h
    | cons t other =>
      obtain ⟨hs, hdir⟩ := holds_cons hd
      obtain ⟨ht, hother⟩ := holds_cons ho
      obtain ⟨hname, hrest⟩ := List.cons.inj h
      obtain rfl := childName_injective hs ht hname
      rw [ih hdir hother hrest]

/-! ## Members of a layout -/

section

variable {reserved : List String} {declare : Component → String → List Decl}

theorem named_declared (hnames : ∀ c n, ∀ m ∈ declare c n, m.name = n) (xs : List Slot)
    (n : String) : Decl.named (xs.flatMap (declared declare)) n =
      (xs.filter (·.name = n)).flatMap (declared declare) := by
  have hname : ∀ x : Slot, ∀ m ∈ declared declare x, m.name = x.name := by
    intro x m hm
    cases x with
    | accessor n c => exact hnames c n m hm
    | child segment n => simp [declared] at hm
  induction xs with
  | nil => rfl
  | cons x xs ih =>
    rw [List.flatMap_cons, Decl.named_append, ih]
    by_cases hx : x.name = n
    · have hall : Decl.named (declared declare x) n = declared declare x :=
        List.filter_eq_self.2 fun m hm => by simp [hname x m hm, hx]
      rw [hall, List.filter_cons_of_pos (by simpa using hx), List.flatMap_cons]
    · have hnone : Decl.named (declared declare x) n = [] :=
        List.filter_eq_nil_iff.2 fun m hm => by simp [hname x m hm, hx]
      rw [hnone, List.filter_cons_of_neg (by simpa using hx), List.nil_append]

variable (reserved declare) in
theorem names_childObjects (path : String) (scope : Scope) (ps : List Placed) :
    ((children (slots scope [] ps)).map (childObject reserved declare path ps)).map Decl.name =
      (children (slots scope [] ps)).map (·.2) := by
  rw [List.map_map]
  rfl

theorem named_childObjects_eq_nil {path : String} {scope : Scope} {ps : List Placed} {n : String}
    (h : ∀ segment, Slot.child segment n ∉ slots scope [] ps) :
    Decl.named ((children (slots scope [] ps)).map (childObject reserved declare path ps)) n = [] := by
  refine Decl.named_eq_nil fun hmem => ?_
  rw [names_childObjects] at hmem
  obtain ⟨⟨segment, _⟩, hchild, rfl⟩ := List.mem_map.1 hmem
  exact h segment (mem_children.1 hchild)

theorem named_layout_accessor (hnames : ∀ c n, ∀ m ∈ declare c n, m.name = n) {path : String}
    {scope : Scope} {first : List Decl} {ps : List Placed}
    (htaken : ∀ n ∈ first.map Decl.name, n ∈ scope.taken) {n : String} {c : Component}
    (hx : Slot.accessor n c ∈ slots scope [] ps) :
    Decl.named (layout reserved declare path scope first ps) n = Decl.byRank (declare c n) := by
  have hnd := nodup_names_slots scope [] ps
  have hfirst : Decl.named first n = [] :=
    Decl.named_eq_nil fun h => not_mem_of_mem_slots hx (htaken _ h)
  have hchild : ∀ segment, Slot.child segment n ∉ slots scope [] ps := by
    intro segment hchild
    exact Slot.noConfusion (List.inj_on_of_nodup_map hnd hx hchild rfl)
  have hone : (slots scope [] ps).filter (·.name = n) = [Slot.accessor n c] :=
    filter_name_eq_singleton hnd hx
  rw [layout_eq, Decl.named_byRank, Decl.named_append, Decl.named_append, named_declared hnames,
    hfirst, hone, named_childObjects_eq_nil hchild]
  simp [declared]

theorem named_layout (hnames : ∀ c n, ∀ m ∈ declare c n, m.name = n) {path : String} {scope : Scope}
    {first : List Decl} {ps : List Placed} (hfirst : (first.map Decl.name).Nodup)
    (htaken : ∀ n ∈ first.map Decl.name, n ∈ scope.taken) (n : String) :
    (Decl.named (layout reserved declare path scope first ps) n).length ≤ 1 ∨
      ∃ c ∈ own ps,
        Decl.named (layout reserved declare path scope first ps) n = Decl.byRank (declare c n) := by
  by_cases hx : ∃ c, Slot.accessor n c ∈ slots scope [] ps
  · obtain ⟨c, hx⟩ := hx
    right
    refine ⟨c, ?_, named_layout_accessor hnames htaken hx⟩
    rw [← components_slots scope [] ps]
    exact List.mem_filterMap.2 ⟨_, hx, rfl⟩
  · -- without an accessor, the name is that of a first member or of a child, not of both
    left
    have hnone : ((slots scope [] ps).filter (·.name = n)).flatMap (declared declare) = [] := by
      rw [List.flatMap_eq_nil_iff]
      intro x hmem
      obtain ⟨hxs, hn⟩ := List.mem_filter.1 hmem
      cases x with
      | accessor m c => exact absurd ⟨c, of_decide_eq_true hn ▸ hxs⟩ hx
      | child segment m => rfl
    rw [layout_eq, Decl.named_byRank, (Decl.byRank_perm _).length_eq, Decl.named_append,
      Decl.named_append, named_declared hnames, hnone, List.append_nil, List.length_append]
    have hfirst_le := Decl.length_named_le_one hfirst n
    have hchild_le := Decl.length_named_le_one (names_childObjects reserved declare path scope ps ▸
      nodup_names_children scope ps) n
    by_cases hchild : ∃ segment, Slot.child segment n ∈ slots scope [] ps
    · obtain ⟨segment, hchild⟩ := hchild
      have hno : Decl.named first n = [] :=
        Decl.named_eq_nil fun h => not_mem_of_mem_slots hchild (htaken _ h)
      rw [hno, List.length_nil]
      omega
    · rw [named_childObjects_eq_nil fun segment h => hchild ⟨segment, h⟩, List.length_nil]
      omega

/-- A name that is taken from the start is left to the first members. -/
theorem named_layout_of_taken (hnames : ∀ c n, ∀ m ∈ declare c n, m.name = n) {path : String}
    {scope : Scope} {first : List Decl} {ps : List Placed} {n : String} (h : n ∈ scope.taken) :
    Decl.named (layout reserved declare path scope first ps) n =
      Decl.byRank (Decl.named first n) := by
  have hslots : (slots scope [] ps).filter (·.name = n) = [] := by
    rw [List.filter_eq_nil_iff]
    intro x hx he
    exact not_mem_of_mem_slots hx (by simpa [of_decide_eq_true he] using h)
  have hchild : ∀ segment, Slot.child segment n ∉ slots scope [] ps :=
    fun _ hx => not_mem_of_mem_slots hx h
  rw [layout_eq, Decl.named_byRank, Decl.named_append, Decl.named_append, named_declared hnames,
    hslots, named_childObjects_eq_nil hchild, List.flatMap_nil, List.append_nil, List.append_nil]

theorem nodup_objectNames_layout (hnames : ∀ c n, ∀ m ∈ declare c n, m.name = n)
    (hplain : ∀ c n, ∀ m ∈ declare c n, m.isObject = false) {path : String} {scope : Scope}
    {first : List Decl} {ps : List Placed} (hfirst : (first.map Decl.name).Nodup)
    (htaken : ∀ n ∈ first.map Decl.name, n ∈ scope.taken) :
    (Decl.objectNames (layout reserved declare path scope first ps)).Nodup := by
  refine Decl.nodup_objectNames fun n => ?_
  rcases named_layout hnames hfirst htaken n with h | ⟨c, -, h⟩
  · exact Or.inl h
  · right
    intro m hm
    rw [h] at hm
    exact hplain c n m ((Decl.byRank_perm _).mem_iff.1 hm)

end

end PackBindings.Bindings
