/-
  PackBindings.Proofs.Orders — what comes in no order of its own.

  Directories list their entries in some order, and so do sets and maps that are built on
  hashes. An `Order` says in which, for every spot where something is listed: nothing is
  known about it but that each list stays what it is up to order.

  Proved, for all lists and orders:
  - `mergeSort_eq_of_perm`: a list that is sorted by a key of its own for every element is
    the same in whichever order it came.
  - `pairwise_lt_ext`: lists that go up by a name are the same if their elements are.
  - `toOption_mapM`: reading one thing after the other succeeds with the same values,
    whatever the failures are.
  - `mapM_perm`: where it succeeds in one order it succeeds in any, with the same values
    up to order.
  - `map_mergeSort_mapM`: sorting what was read in any order gives what is read in order.
-/

import Mathlib.Data.List.Nodup
import Mathlib.Data.List.Sort
import Mathlib.Data.String.Basic

namespace PackBindings

/-- Where things are listed in an order of their own. -/
inductive Spot where
  /-- The namespaces of a datapack. -/
  | namespaces
  /-- Everything below a directory. -/
  | below (directory : String)
  /-- What a script of a namespace uses. -/
  | script (source location : String)
  /-- What a member of a family uses. -/
  | member (family name : String)
  /-- What the members of a family share. -/
  | shared (family : String)
  | families
  /-- The resources of a source file. -/
  | file (owner : String)

structure Order where
  list : {α : Type} → Spot → List α → List α
  perm : ∀ {α : Type} (spot : Spot) (xs : List α), (list spot xs).Perm xs

/-! ## Sorting -/

section

variable {α β : Type} [LE β] [DecidableLE β] [Std.IsLinearOrder β] (f : α → β)

theorem pairwise_mergeSort_key (xs : List α) :
    (xs.mergeSort fun a b => f a ≤ f b).Pairwise fun a b => f a ≤ f b := by
  have hsorted : (xs.mergeSort fun a b => f a ≤ f b).Pairwise fun a b => decide (f a ≤ f b) = true :=
    List.pairwise_mergeSort
      (fun a b c hab hbc => by simpa using Std.le_trans (of_decide_eq_true hab) (of_decide_eq_true hbc))
      (fun a b => by simpa using Std.le_total) xs
  exact hsorted.imp of_decide_eq_true

/-- Sorting brings elements of different keys into the one order they have. -/
theorem mergeSort_eq_of_pairwise {xs ys : List α} (h : xs.Perm ys) (hnd : (ys.map f).Nodup)
    (hys : ys.Pairwise fun a b => f a ≤ f b) : (xs.mergeSort fun a b => f a ≤ f b) = ys := by
  have hperm : (xs.mergeSort fun a b => f a ≤ f b).Perm ys := (List.mergeSort_perm _ _).trans h
  refine List.Perm.eq_of_pairwise (fun a b ha hb hab hba => ?_) (pairwise_mergeSort_key f xs) hys hperm
  exact List.inj_on_of_nodup_map hnd (hperm.mem_iff.1 ha) hb (Std.le_antisymm hab hba)

theorem mergeSort_eq_of_perm {xs ys : List α} (h : xs.Perm ys) (hnd : (ys.map f).Nodup) :
    (xs.mergeSort fun a b => f a ≤ f b) = ys.mergeSort fun a b => f a ≤ f b :=
  mergeSort_eq_of_pairwise f (h.trans (List.mergeSort_perm ys _).symm)
    (((List.mergeSort_perm ys _).map f).nodup_iff.2 hnd) (pairwise_mergeSort_key f ys)

end

theorem pairwise_lt_of_nodup {α : Type} {name : α → String} {xs : List α}
    (hle : xs.Pairwise fun a b => name a ≤ name b) (hnd : (xs.map name).Nodup) :
    xs.Pairwise fun a b => name a < name b :=
  hle.imp₂ (fun _ _ hle hne => lt_of_le_of_ne hle hne) (List.pairwise_map.1 hnd)

theorem eq_of_pairwise_lt {α : Type} {name : α → String} {xs : List α}
    (h : xs.Pairwise fun a b => name a < name b) {a b : α} (ha : a ∈ xs) (hb : b ∈ xs)
    (he : name a = name b) : a = b :=
  List.inj_on_of_nodup_map (List.pairwise_map.2 (h.imp ne_of_lt)) ha hb he

/-- Lists that go up have the same elements in the same order. -/
theorem pairwise_lt_ext {α : Type} {name : α → String} {xs ys : List α}
    (hxs : xs.Pairwise fun a b => name a < name b) (hys : ys.Pairwise fun a b => name a < name b)
    (h : ∀ a, a ∈ xs ↔ a ∈ ys) : xs = ys := by
  have hirrefl : Std.Irrefl fun a b : α => name a < name b := ⟨fun a => lt_irrefl (name a)⟩
  have hantisymm : Std.Antisymm fun a b : α => name a < name b :=
    ⟨fun a b hlt hgt => absurd hgt (lt_asymm hlt)⟩
  exact hxs.eq_of_mem_iff hys h

/-! ## One thing after the other -/

section

variable {ε α β : Type}

theorem toOption_bind (x : Except ε α) (f : α → Except ε β) :
    (x >>= f).toOption = x.toOption >>= fun a => (f a).toOption := by
  cases x <;> rfl

theorem toOption_eq_some_iff {x : Except ε α} {a : α} : x.toOption = some a ↔ x = .ok a := by
  cases x with
  | error e => exact ⟨nofun, nofun⟩
  | ok b => exact ⟨fun h => congrArg _ (Option.some.inj h), fun h => congrArg _ (Except.ok.inj h)⟩

theorem toOption_mapError {δ : Type} (f : ε → δ) (x : Except ε α) :
    (x.mapError f).toOption = x.toOption := by
  cases x <;> rfl

theorem toOption_mapM (f : α → Except ε β) (xs : List α) :
    (xs.mapM f).toOption = xs.mapM fun a => (f a).toOption := by
  induction xs with
  | nil => rfl
  | cons x xs ih =>
    rw [List.mapM_cons, List.mapM_cons, toOption_bind]
    congr 1
    funext b
    rw [toOption_bind, ih]
    rfl

theorem mapM_cons_eq_some_iff {f : α → Option β} {x : α} {xs : List α} {bs : List β} :
    (x :: xs).mapM f = some bs ↔ ∃ b cs, f x = some b ∧ xs.mapM f = some cs ∧ bs = b :: cs := by
  simp only [List.mapM_cons, Option.bind_eq_bind, Option.bind_eq_some_iff, Option.pure_def,
    Option.some.injEq]
  constructor
  · rintro ⟨b, hb, cs, hcs, rfl⟩
    exact ⟨b, cs, hb, hcs, rfl⟩
  · rintro ⟨b, cs, hb, hcs, rfl⟩
    exact ⟨b, hb, cs, hcs, rfl⟩

theorem mapM_eq_some_iff {f : α → Option β} {xs : List α} {bs : List β} :
    xs.mapM f = some bs ↔ (∀ x ∈ xs, (f x).isSome = true) ∧ xs.filterMap f = bs := by
  induction xs generalizing bs with
  | nil => simp
  | cons x xs ih =>
    rw [mapM_cons_eq_some_iff, List.forall_mem_cons]
    cases hx : f x with
    | none => simp
    | some b =>
      rw [List.filterMap_cons_some hx]
      constructor
      · rintro ⟨b', cs, hb, hcs, rfl⟩
        obtain ⟨hall, rfl⟩ := ih.1 hcs
        exact ⟨⟨rfl, hall⟩, by rw [Option.some.inj hb]⟩
      · rintro ⟨⟨-, hall⟩, rfl⟩
        exact ⟨b, _, rfl, ih.2 ⟨hall, rfl⟩, rfl⟩

theorem mapM_eq_some_map {f : α → Option β} {g : α → β} {xs : List α} (h : ∀ x ∈ xs, f x = some (g x)) :
    xs.mapM f = some (xs.map g) := by
  refine mapM_eq_some_iff.2 ⟨fun x hx => by rw [h x hx, Option.isSome_some], ?_⟩
  rw [List.filterMap_congr h, List.filterMap_eq_map']

theorem mapM_perm {f : α → Option β} {xs ys : List α} (h : xs.Perm ys) {bs : List β}
    (hbs : ys.mapM f = some bs) : ∃ as, xs.mapM f = some as ∧ as.Perm bs := by
  obtain ⟨hall, rfl⟩ := mapM_eq_some_iff.1 hbs
  exact ⟨xs.filterMap f, mapM_eq_some_iff.2 ⟨fun x hx => hall x (h.mem_iff.1 hx), rfl⟩, h.filterMap f⟩

theorem exists_mapM_iff {f : α → Except ε β} {xs : List α} :
    (∃ bs, xs.mapM f = .ok bs) ↔ ∀ x ∈ xs, ∃ b, f x = .ok b := by
  simp only [← toOption_eq_some_iff, toOption_mapM, mapM_eq_some_iff, ← Option.isSome_iff_exists]
  exact ⟨fun ⟨_, hall, _⟩ => hall, fun hall => ⟨_, hall, rfl⟩⟩

theorem exists_mapError_iff {δ : Type} {f : ε → δ} {x : Except ε α} :
    (∃ a, x.mapError f = .ok a) ↔ ∃ a, x = .ok a := by
  simp only [← toOption_eq_some_iff, toOption_mapError]

/-- What cannot fail does not keep anything before it from succeeding. -/
theorem exists_bind_ok_iff {f : α → β} {x : Except ε α} :
    (∃ b, (x >>= fun a => .ok (f a)) = .ok b) ↔ ∃ a, x = .ok a := by
  cases x with
  | error e => exact ⟨nofun, nofun⟩
  | ok a => exact ⟨fun _ => ⟨a, rfl⟩, fun _ => ⟨f a, rfl⟩⟩

/-- Values that tell something of what they were read from. -/
theorem map_eq_map_of_mapM {γ : Type} {f : α → Option β} {g : β → γ} {h : α → γ}
    (hg : ∀ a b, f a = some b → g b = h a) {xs : List α} {bs : List β} (hbs : xs.mapM f = some bs) :
    bs.map g = xs.map h := by
  induction xs generalizing bs with
  | nil =>
    obtain ⟨-, rfl⟩ := mapM_eq_some_iff.1 hbs
    rfl
  | cons x xs ih =>
    obtain ⟨b, cs, hb, hcs, rfl⟩ := mapM_cons_eq_some_iff.1 hbs
    rw [List.map_cons, List.map_cons, hg x b hb, ih hcs]

theorem map_of_mapM {f : α → Option β} {g : β → α} (hg : ∀ a b, f a = some b → g b = a)
    {xs : List α} {bs : List β} (h : xs.mapM f = some bs) : bs.map g = xs :=
  (map_eq_map_of_mapM hg h).trans (List.map_id' xs)

/-- What is read in any order and then sorted is what is read in order. -/
theorem map_mergeSort_mapM {f : String → Option β} {name : β → String}
    (hname : ∀ n b, f n = some b → name b = n) {xs ys : List String} (h : xs.Perm ys)
    (hnd : ys.Nodup) : (xs.mapM f).map (fun bs => bs.mergeSort fun a b => name a ≤ name b) =
      (ys.mergeSort (· ≤ ·)).mapM f := by
  have hsorted : (ys.mergeSort (· ≤ ·)).Pairwise (· ≤ ·) := pairwise_mergeSort_key id ys
  have hperm : (ys.mergeSort (· ≤ ·)).Perm xs := (List.mergeSort_perm ys _).trans h.symm
  have hnodup : (ys.mergeSort (· ≤ ·)).Nodup := (List.mergeSort_perm ys _).nodup_iff.2 hnd
  cases hread : (ys.mergeSort (· ≤ ·)).mapM f with
  | some bs =>
    obtain ⟨as, has, hab⟩ := mapM_perm hperm.symm hread
    have hnames := map_of_mapM hname hread
    rw [has, Option.map_some, mergeSort_eq_of_pairwise name hab (hnames ▸ hnodup)]
    exact List.pairwise_map.1 (hnames ▸ hsorted)
  | none =>
    cases hxs : xs.mapM f with
    | none => rfl
    | some as =>
      obtain ⟨bs, hbs, -⟩ := mapM_perm hperm hxs
      rw [hread] at hbs
      exact absurd hbs nofun

end

end PackBindings
