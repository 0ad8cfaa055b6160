/-
  PackBindings.Proofs.Kotlin.Objects — the objects of a source and the paths to them.

  An object is reached from the members it lies among by the names of the objects around
  it and its own (`within`); those names with dots between are its dotted path. A source
  has its root object and everything within that (`Source.objects`).

  Proved, for all members:
  - `mem_within_iff`: what lies within members is one of their objects or lies within it.
  - `nodup_paths_within`: where no two objects side by side have the same name, no two
    objects have the same path.
  - `dotted_injective`: the dotted path tells the path, for names without dots.
-/

import Mathlib.Data.List.Nodup
import PackBindings.Kotlin.Source
import PackBindings.Proofs.Kotlin.NameCharacters
import PackBindings.Proofs.Lists

namespace PackBindings.Kotlin

/-- The names that lead to an object, and its members. -/
abbrev Node := List String × List Decl

namespace Node

/-- An object as it is seen from outside the object `name` around it. -/
def under (name : String) (o : Node) : Node := (name :: o.1, o.2)

end Node

namespace Decl

mutual

def nodes : Decl → List Node
  | property _ => []
  | function _ => []
  | object n ms => ([n], ms) :: (within ms).map (Node.under n)

/-- The objects among members and at any depth below. -/
def within : List Decl → List Node
  | [] => []
  | m :: ms => nodes m ++ within ms

end

def isObject : Decl → Bool
  | object .. => true
  | _ => false

/-- The names of the objects that lie side by side. -/
def objectNames (ms : List Decl) : List String := (ms.filter isObject).map name

/-! ## Order by rank -/

theorem rank_lt (d : Decl) : d.rank < 4 := by
  cases d with
  | property p => simp only [rank]; split <;> omega
  | function f => simp [rank]
  | object n ms => simp [rank]

theorem byRank_perm (ms : List Decl) : (byRank ms).Perm ms := by
  refine perm_flatMap_filter rank (by decide) fun m _ => ?_
  have := m.rank_lt
  simp only [List.mem_cons, List.not_mem_nil, or_false]
  omega

theorem filter_byRank (p : Decl → Bool) (ms : List Decl) :
    (byRank ms).filter p = byRank (ms.filter p) := by
  simp [byRank, List.filter_filter, Bool.and_comm]

/-- Members of one rank keep their order. -/
theorem byRank_eq_self {ms : List Decl} {r : Nat} (h : ∀ m ∈ ms, m.rank = r) : byRank ms = ms := by
  cases ms with
  | nil => rfl
  | cons m ms =>
    have hr : r < 4 := h m List.mem_cons_self ▸ m.rank_lt
    have hfilter : ∀ q, (m :: ms).filter (·.rank = q) = if q = r then m :: ms else [] := by
      intro q
      by_cases hq : q = r
      · rw [if_pos hq, List.filter_eq_self]
        intro d hd
        simp [h d hd, hq]
      · rw [if_neg hq, List.filter_eq_nil_iff]
        intro d hd
        simp [h d hd, Ne.symm hq]
    have hflat : byRank (m :: ms) = [0, 1, 2, 3].flatMap fun q => if q = r then m :: ms else [] :=
      List.flatMap_congr fun q _ => hfilter q
    rw [hflat]
    match r, hr with
    | 0, _ => simp
    | 1, _ => simp
    | 2, _ => simp
    | 3, _ => simp

/-! ## Objects within members -/

theorem within_eq_flatMap (ms : List Decl) : within ms = ms.flatMap nodes := by
  induction ms with
  | nil => rfl
  | cons m ms ih => rw [within, ih, List.flatMap_cons]

theorem within_append (ms ns : List Decl) : within (ms ++ ns) = within ms ++ within ns := by
  simp [within_eq_flatMap]

theorem mem_nodes_object {n : String} {ms : List Decl} {o : Node} :
    o ∈ nodes (object n ms) ↔ o = ([n], ms) ∨ ∃ i ∈ within ms, o = Node.under n i := by
  simp [nodes, eq_comm]

theorem mem_within_iff {ms : List Decl} {o : Node} :
    o ∈ within ms ↔ ∃ n inner, object n inner ∈ ms ∧
      (o = ([n], inner) ∨ ∃ i ∈ within inner, o = Node.under n i) := by
  rw [within_eq_flatMap, List.mem_flatMap]
  constructor
  · rintro ⟨d, hd, ho⟩
    cases d with
    | property p => simp [nodes] at ho
    | function f => simp [nodes] at ho
    | object n inner => exact ⟨n, inner, hd, mem_nodes_object.1 ho⟩
  · rintro ⟨n, inner, hd, ho⟩
    exact ⟨_, hd, mem_nodes_object.2 ho⟩

theorem mem_within_of_perm {ms ns : List Decl} (h : ms.Perm ns) {o : Node} :
    o ∈ within ms ↔ o ∈ within ns := by
  rw [within_eq_flatMap, within_eq_flatMap]
  exact (h.flatMap_right nodes).mem_iff

theorem within_eq_nil {ms : List Decl} (h : ∀ m ∈ ms, isObject m = false) : within ms = [] := by
  rw [List.eq_nil_iff_forall_not_mem]
  intro o ho
  obtain ⟨n, inner, hd, -⟩ := mem_within_iff.1 ho
  exact absurd (h _ hd) (by simp [isObject])

theorem path_ne_nil {ms : List Decl} {o : Node} (h : o ∈ within ms) : o.1 ≠ [] := by
  obtain ⟨n, inner, -, rfl | ⟨i, -, rfl⟩⟩ := mem_within_iff.1 h
  · simp
  · simp [Node.under]

/-- What lies in one object is an object among the members. -/
theorem mem_within_singleton {ms inner : List Decl} {n : String} :
    ([n], inner) ∈ within ms ↔ object n inner ∈ ms := by
  rw [mem_within_iff]
  constructor
  · intro ⟨k, ns, hk, ho⟩
    rcases ho with ho | ⟨i, hi, ho⟩
    · obtain ⟨hn, rfl⟩ := Prod.mk.inj ho
      rwa [(List.cons.inj hn).1]
    · have hnil : i.1 = [] := (List.cons.inj (congrArg Prod.fst ho)).2.symm
      exact absurd hnil (path_ne_nil hi)
  · intro h
    exact ⟨n, inner, h, Or.inl rfl⟩

theorem mem_objects_iff {ms inner : List Decl} {n : String} :
    inner ∈ objects ms n ↔ object n inner ∈ ms := by
  rw [objects, List.mem_filterMap]
  constructor
  · intro ⟨m, hm, he⟩
    cases m with
    | property p => simp at he
    | function f => simp at he
    | object k i =>
      simp only [Option.ite_none_right_eq_some, Option.some.injEq] at he
      obtain ⟨rfl, rfl⟩ := he
      exact hm
  · intro h
    exact ⟨_, h, if_pos rfl⟩

theorem objects_eq_nil {ms : List Decl} {n : String} (h : ∀ inner, object n inner ∉ ms) :
    objects ms n = [] := by
  rw [List.eq_nil_iff_forall_not_mem]
  intro inner hinner
  exact h inner (mem_objects_iff.1 hinner)

theorem objects_eq_singleton {ms : List Decl} (hnd : (objectNames ms).Nodup) {n : String}
    {inner : List Decl} (h : object n inner ∈ ms) : objects ms n = [inner] := by
  obtain ⟨before, after, rfl⟩ := List.append_of_mem h
  have hnames : objectNames (before ++ object n inner :: after) =
      ((before.filter isObject) ++ object n inner :: after.filter isObject).map name := by
    rw [objectNames, List.filter_append, List.filter_cons_of_pos rfl]
  rw [hnames] at hnd
  have hnone : objects (before ++ after) n = [] := by
    refine objects_eq_nil fun other hother => ?_
    have hmem : object n other ∈ before.filter isObject ++ after.filter isObject := by
      rw [← List.filter_append]
      exact List.mem_filter.2 ⟨hother, rfl⟩
    exact ((mem_append_iff_of_nodup_map hnd).1 hmem).2 rfl
  have hself : objects (object n inner :: after) n = inner :: objects after n :=
    List.filterMap_cons_some (if_pos rfl)
  have happend : ∀ xs ys : List Decl, objects (xs ++ ys) n = objects xs n ++ objects ys n :=
    fun xs ys => List.filterMap_append
  rw [happend, List.append_eq_nil_iff] at hnone
  rw [happend, hself, hnone.1, hnone.2]
  rfl

/-! ## Paths tell objects apart -/

theorem head_of_mem_nodes {d : Decl} {o : Node} (h : o ∈ nodes d) :
    isObject d = true ∧ o.1.head? = some d.name := by
  cases d with
  | property p => simp [nodes] at h
  | function f => simp [nodes] at h
  | object n ms =>
    refine ⟨rfl, ?_⟩
    rcases mem_nodes_object.1 h with rfl | ⟨i, -, rfl⟩ <;> rfl

theorem head_of_mem_within {ms : List Decl} {o : Node} (h : o ∈ within ms) :
    ∃ n ∈ objectNames ms, o.1.head? = some n := by
  rw [within_eq_flatMap, List.mem_flatMap] at h
  obtain ⟨d, hd, ho⟩ := h
  obtain ⟨hobj, hhead⟩ := head_of_mem_nodes ho
  exact ⟨d.name, List.mem_map_of_mem (List.mem_filter.2 ⟨hd, hobj⟩), hhead⟩

/-- No object inside has two objects of one name side by side. -/
def NamedApart (ms : List Decl) : Prop :=
  (objectNames ms).Nodup ∧ ∀ o ∈ within ms, (objectNames o.2).Nodup

mutual

theorem nodup_paths_nodes : (d : Decl) → (∀ o ∈ nodes d, (objectNames o.2).Nodup) →
    ((nodes d).map (·.1)).Nodup
  | .property _, _ => by simp [nodes]
  | .function _, _ => by simp [nodes]
  | .object n ms, h => by
    have hms : NamedApart ms :=
      ⟨h _ (mem_nodes_object.2 (Or.inl rfl)),
        fun o ho => h (Node.under n o) (mem_nodes_object.2 (Or.inr ⟨o, ho, rfl⟩))⟩
    have hcomp : ((within ms).map (Node.under n)).map (·.1) =
        ((within ms).map (·.1)).map (n :: ·) := by
      simp [Node.under]
    rw [nodes, List.map_cons, hcomp, List.nodup_cons]
    refine ⟨fun hmem => ?_, ?_⟩
    · obtain ⟨p, hp, he⟩ := List.mem_map.1 hmem
      obtain ⟨o, ho, rfl⟩ := List.mem_map.1 hp
      exact path_ne_nil ho (List.cons.inj he).2
    · exact (nodup_paths_within ms hms).map (List.cons_injective)

theorem nodup_paths_within : (ms : List Decl) → NamedApart ms → ((within ms).map (·.1)).Nodup
  | [], _ => by simp [within]
  | m :: ms, ⟨hnames, hin⟩ => by
    have hsub : (objectNames ms).Sublist (objectNames (m :: ms)) :=
      ((List.sublist_cons_self m ms).filter _).map _
    have hrest : NamedApart ms :=
      ⟨hsub.nodup hnames, fun o ho => hin o (List.mem_append_right _ ho)⟩
    rw [within, List.map_append, List.nodup_append]
    refine ⟨nodup_paths_nodes m fun o ho => hin o (List.mem_append_left _ ho),
      nodup_paths_within ms hrest, ?_⟩
    -- the first name on a path is that of an object among the members
    intro p hp q hq hpq
    obtain ⟨o, ho, rfl⟩ := List.mem_map.1 hp
    obtain ⟨i, hi, rfl⟩ := List.mem_map.1 hq
    obtain ⟨hobj, hhead⟩ := head_of_mem_nodes ho
    obtain ⟨n, hn, hhead'⟩ := head_of_mem_within hi
    have heq : m.name = n := by
      rw [hpq, hhead'] at hhead
      exact (Option.some.inj hhead).symm
    rw [objectNames, List.filter_cons_of_pos hobj, List.map_cons, List.nodup_cons] at hnames
    exact hnames.1 (heq ▸ hn)

end

end Decl

/-! ## Dotted paths -/

def dotted (path : List String) : String := ".".intercalate path

theorem dotted_concat {path : List String} (h : path ≠ []) (name : String) :
    dotted (path ++ [name]) = dotted path ++ "." ++ name := by
  rw [dotted, String.intercalate_append_of_ne_nil h (by simp)]
  simp [dotted]

theorem dotted_injective {p q : List String} (hp : p ≠ []) (hq : q ≠ [])
    (hp' : ∀ n ∈ p, IsPlain n) (hq' : ∀ n ∈ q, IsPlain n) (h : dotted p = dotted q) : p = q := by
  have hsplit : ∀ r : List String, r ≠ [] → (∀ n ∈ r, IsPlain n) →
      (dotted r).toList.splitOn '.' = r.map String.toList := by
    intro r hr hplain
    exact splitOn_toList_intercalate rfl hr fun n hn => dot_not_mem_of_isNameChar (hplain n hn)
  have hmap : p.map String.toList = q.map String.toList := by
    rw [← hsplit p hp hp', ← hsplit q hq hq', h]
  exact List.map_injective_iff.2 (fun _ _ => String.toList_inj.1) hmap

/-! ## Sources -/

/-- The root object of a source and all objects within it, with their paths. -/
def Source.objects (s : Source) : List Node := s.object.nodes

theorem Source.mem_objects {s : Source} {o : Node} :
    o ∈ s.objects ↔ o = ([s.name], s.members) ∨
      ∃ i ∈ Decl.within s.members, o = Node.under s.name i :=
  Decl.mem_nodes_object

theorem Source.mem_objects_pair {s : Source} {n : String} {inner : List Decl} :
    ([s.name, n], inner) ∈ s.objects ↔ .object n inner ∈ s.members := by
  rw [mem_objects, ← Decl.mem_within_singleton]
  constructor
  · intro h
    rcases h with h | ⟨i, hi, h⟩
    · simp at h
    · have hi' : i = ([n], inner) := by
        obtain ⟨hp, hm⟩ := Prod.mk.inj h
        exact Prod.ext (List.cons.inj hp).2.symm hm.symm
      exact hi' ▸ hi
  · intro h
    exact Or.inr ⟨_, h, rfl⟩

end PackBindings.Kotlin
