/-
  PackBindings.Proofs.Lists — facts about lists that the library does not have.

  Proved:
  - `perm_flatMap_filter`: elements taken by their class, one class after the other, are
    all elements, where each class comes up once.
  - `flatMap_eq_of_eq_nil` / `filter_flatMap_eq`: what one of them alone makes is all that is
    made, and the elements of one class are those made for it.
  - `mem_append_iff_of_nodup_map`: what is left of a list without one element.
  - `append_cons_inj`: a list is cut in one way at the first of a mark.
  - `insertIdx_append`: one more element where two lists are put together.
  - `mem_of_mem_intercalate`: what stands between parts or in one of them.
  - `intercalate_concat`: one more part at the end.
  - `forall_mem_of_mem_splitOnP` / `not_mem_of_mem_splitOn` / `mem_iff_splitOn`: what the parts of
    a list that is cut are made of, and what is left of it.
  - `splitOn_toList_intercalate`: parts with separators between them are cut into the parts.
  - `isPrefixOf?_append` / `isPrefixOf?_eq_none`: one beginning after another, and none.
  - `findSome?_eq_of_mem`: what one of several finds, and none of the others.
  - `stops_cons` / `takeWhile_append_eq` / `isRun_takeWhile`: the longest beginning of one kind.
  - `zip_zipWith`: a list beside what is made of it and of another one.
  - `lookup_eq_some_iff_mem`: what a key leads to, where no key comes up twice.
  - `mem_foldl_takeUp` / `exists_mem_foldl_takeUp` / `nodup_foldl_takeUp`: taking up what has
    a new id keeps the first of each id.
  - `eraseDups_append_eraseDups` / `eraseDups_map`: first occurrences may be taken before
    lists are put together, and before values are renamed.
  - `pairwise_idxOf_eraseDups`: first occurrences stay in their order.
-/

import Mathlib.Data.List.Nodup
import Mathlib.Data.List.TakeWhile

namespace PackBindings

theorem perm_flatMap_filter {α β : Type} [DecidableEq β] (f : α → β) {classes : List β}
    (hnd : classes.Nodup) {xs : List α} (h : ∀ x ∈ xs, f x ∈ classes) :
    (classes.flatMap fun k => xs.filter (f · = k)).Perm xs := by
  induction classes generalizing xs with
  | nil =>
    cases xs with
    | nil => exact List.Perm.nil
    | cons x xs => exact absurd (h x List.mem_cons_self) List.not_mem_nil
  | cons k classes ih =>
    obtain ⟨hk, hnd⟩ := List.nodup_cons.1 hnd
    have hrest : ∀ x ∈ xs.filter (f · ≠ k), f x ∈ classes := by
      intro x hx
      obtain ⟨hx, hne⟩ := List.mem_filter.1 hx
      exact (List.mem_cons.1 (h x hx)).resolve_left (by simpa using hne)
    have hfilter : ∀ j ∈ classes, xs.filter (f · = j) = (xs.filter (f · ≠ k)).filter (f · = j) := by
      intro j hj
      rw [List.filter_filter]
      refine List.filter_congr fun x _ => ?_
      by_cases hx : f x = j
      · have hjk : f x ≠ k := by
          intro he
          exact hk (he ▸ hx ▸ hj)
        simp [hx, hx ▸ hjk]
      · simp [hx]
    rw [List.flatMap_cons, List.flatMap_congr hfilter]
    refine ((ih hnd hrest).append_left _).trans ?_
    simpa using List.filter_append_perm (fun x => decide (f x = k)) xs

theorem flatMap_eq_of_eq_nil {α β : Type} {f : α → List β} {xs : List α} (hnd : xs.Nodup) {x : α}
    (hx : x ∈ xs) (h : ∀ y ∈ xs, y ≠ x → f y = []) : xs.flatMap f = f x := by
  obtain ⟨before, after, rfl⟩ := List.append_of_mem hx
  obtain ⟨hnot, -⟩ := List.nodup_cons.1 (List.nodup_middle.1 hnd)
  have hnil : ∀ ys, ys ⊆ before ++ after → ys.flatMap f = [] := by
    intro ys hys
    refine List.flatMap_eq_nil_iff.2 fun y hy => ?_
    refine h y ?_ fun he => hnot (he ▸ hys hy)
    exact List.append_subset.2 ⟨List.subset_append_left _ _, fun z hz => by simp [hz]⟩ (hys hy)
  rw [List.flatMap_append, List.flatMap_cons, hnil before (List.subset_append_left _ _),
    hnil after (List.subset_append_right _ _), List.nil_append, List.append_nil]

/-- Elements of one class after the other, and those of one class. -/
theorem filter_flatMap_eq {α β : Type} [DecidableEq β] {f : α → β} {g : β → List α} {classes : List β}
    (hnd : classes.Nodup) (hg : ∀ k, ∀ x ∈ g k, f x = k) {k : β} (hk : k ∈ classes) :
    (classes.flatMap g).filter (f · = k) = g k := by
  rw [List.filter_flatMap, flatMap_eq_of_eq_nil hnd hk]
  · exact List.filter_eq_self.2 fun x hx => decide_eq_true (hg k x hx)
  · intro j _ hne
    refine List.filter_eq_nil_iff.2 fun x hx => ?_
    rw [decide_eq_true_eq, hg j x hx]
    exact hne

theorem mem_append_iff_of_nodup_map {α β : Type} {f : α → β} {x y : α} {before after : List α}
    (hnd : ((before ++ x :: after).map f).Nodup) :
    y ∈ before ++ after ↔ y ∈ before ++ x :: after ∧ f y ≠ f x := by
  rw [List.map_append, List.map_cons, List.nodup_middle, List.nodup_cons, ← List.map_append] at hnd
  rw [List.mem_append, List.mem_append, List.mem_cons]
  constructor
  · intro hy
    refine ⟨hy.imp_right Or.inr, fun he => hnd.1 ?_⟩
    exact he ▸ List.mem_map_of_mem (List.mem_append.2 hy)
  · intro ⟨hy, hne⟩
    rcases hy with hy | rfl | hy
    · exact Or.inl hy
    · exact absurd rfl hne
    · exact Or.inr hy

theorem append_cons_inj {α : Type} {a : α} {xs ys before after : List α} (hx : a ∉ xs) (hy : a ∉ ys)
    (h : xs ++ a :: before = ys ++ a :: after) : xs = ys ∧ before = after := by
  induction xs generalizing ys with
  | nil =>
    cases ys with
    | nil => exact ⟨rfl, (List.cons.inj h).2⟩
    | cons y ys => exact absurd ((List.cons.inj h).1 ▸ List.mem_cons_self) hy
  | cons x xs ih =>
    cases ys with
    | nil => exact absurd ((List.cons.inj h).1 ▸ List.mem_cons_self) hx
    | cons y ys =>
      obtain ⟨rfl, htail⟩ := List.cons.inj h
      obtain ⟨rfl, hrest⟩ := ih (List.not_mem_of_not_mem_cons hx) (List.not_mem_of_not_mem_cons hy) htail
      exact ⟨rfl, hrest⟩

theorem insertIdx_append {α : Type} (xs ys : List α) (a : α) :
    (xs ++ ys).insertIdx xs.length a = xs ++ a :: ys := by
  induction xs with
  | nil => rfl
  | cons x xs ih => simp [ih]

theorem mem_of_mem_intercalate {α : Type} {c : α} {sep : List α} {parts : List (List α)}
    (h : c ∈ sep.intercalate parts) : c ∈ sep ∨ ∃ part ∈ parts, c ∈ part := by
  induction parts with
  | nil => simp at h
  | cons part parts ih =>
    cases parts with
    | nil => exact Or.inr ⟨part, List.mem_cons_self, by simpa using h⟩
    | cons next parts =>
      rw [List.intercalate_cons_cons, List.mem_append, List.mem_append] at h
      rcases h with (h | h) | h
      · exact Or.inr ⟨part, List.mem_cons_self, h⟩
      · exact Or.inl h
      · rcases ih h with h | ⟨p, hp, hc⟩
        · exact Or.inl h
        · exact Or.inr ⟨p, List.mem_cons_of_mem _ hp, hc⟩

theorem mem_intercalate_of_mem {α : Type} {c : α} (sep : List α) {parts : List (List α)} {part : List α}
    (hpart : part ∈ parts) (hc : c ∈ part) : c ∈ sep.intercalate parts := by
  induction parts with
  | nil => exact absurd hpart List.not_mem_nil
  | cons first parts ih =>
    cases parts with
    | nil =>
      rw [List.mem_singleton.1 hpart] at hc
      simpa using hc
    | cons next parts =>
      rw [List.intercalate_cons_cons]
      rcases List.mem_cons.1 hpart with rfl | hpart
      · exact List.mem_append_left _ (List.mem_append_left _ hc)
      · exact List.mem_append_right _ (ih hpart)

theorem intercalate_concat {α : Type} (separator : List α) {parts : List (List α)} (hne : parts ≠ [])
    (last : List α) :
    separator.intercalate (parts ++ [last]) = separator.intercalate parts ++ separator ++ last := by
  induction parts with
  | nil => exact absurd rfl hne
  | cons part parts ih =>
    cases parts with
    | nil => simp
    | cons next parts =>
      rw [List.cons_append, List.cons_append, List.intercalate_cons_cons, List.intercalate_cons_cons,
        ← List.cons_append, ih (List.cons_ne_nil _ _)]
      simp

/-- The parts of a list that is cut have no marks in them. -/
theorem forall_mem_of_mem_splitOnP {α : Type} {p : α → Bool} {xs part : List α}
    (h : part ∈ xs.splitOnP p) : ∀ c ∈ part, p c = false := by
  induction xs generalizing part with
  | nil =>
    rw [List.splitOnP_nil, List.mem_singleton] at h
    subst h
    simp
  | cons c cs ih =>
    rw [List.splitOnP_cons_eq_if_modifyHead] at h
    split at h
    · rcases List.mem_cons.1 h with rfl | h
      · simp
      · exact ih h
    · rename_i hc
      cases hs : cs.splitOnP p with
      | nil => exact absurd hs (List.splitOnP_ne_nil p cs)
      | cons first rest =>
        rw [hs] at h ih
        simp only [List.modifyHead_cons, List.mem_cons] at h
        rcases h with rfl | h
        · intro d hd
          rcases List.mem_cons.1 hd with rfl | hd
          · simpa using hc
          · exact ih List.mem_cons_self d hd
        · exact ih (List.mem_cons_of_mem _ h)

theorem not_mem_of_mem_splitOn {α : Type} [BEq α] [LawfulBEq α] {a : α} {xs part : List α}
    (h : part ∈ xs.splitOn a) : a ∉ part := by
  intro hmem
  have hmark := forall_mem_of_mem_splitOnP h a hmem
  rw [BEq.rfl] at hmark
  cases hmark

/-- Cutting a list loses the marks only. -/
theorem mem_iff_splitOn {α : Type} [BEq α] [LawfulBEq α] {a c : α} (h : c ≠ a) {xs : List α} :
    c ∈ xs ↔ ∃ part ∈ xs.splitOn a, c ∈ part := by
  have hself : [a].intercalate (xs.splitOn a) = xs := List.intercalate_splitOn a
  constructor
  · intro hc
    rw [← hself] at hc
    rcases mem_of_mem_intercalate hc with hc | hc
    · exact absurd (List.mem_singleton.1 hc) h
    · exact hc
  · intro ⟨part, hpart, hc⟩
    rw [← hself]
    exact mem_intercalate_of_mem [a] hpart hc

/-- A text put before another one is in front of a third if it is, and the other one is behind it. -/
theorem isPrefixOf?_append {α : Type} [BEq α] (xs ys zs : List α) :
    (xs ++ ys).isPrefixOf? zs = (xs.isPrefixOf? zs).bind ys.isPrefixOf? := by
  induction xs generalizing zs with
  | nil => rfl
  | cons x xs ih =>
    cases zs with
    | nil => rfl
    | cons z zs =>
      rw [List.cons_append, List.isPrefixOf?, List.isPrefixOf?]
      split
      · exact ih zs
      · rfl

theorem isPrefixOf?_eq_none {α : Type} [BEq α] [LawfulBEq α] {xs ys : List α} (hne : xs ≠ [])
    (h : xs.head? ≠ ys.head?) : xs.isPrefixOf? ys = none := by
  cases xs with
  | nil => exact absurd rfl hne
  | cons x xs =>
    cases ys with
    | nil => rfl
    | cons y ys =>
      rw [List.isPrefixOf?, if_neg]
      rw [beq_iff_eq]
      exact fun he => h (congrArg some he)

theorem findSome?_eq_of_mem {α β : Type} {f : α → Option β} {xs : List α} {x : α} (hx : x ∈ xs)
    (h : ∀ y ∈ xs, y ≠ x → f y = none) : xs.findSome? f = f x := by
  induction xs with
  | nil => exact absurd hx List.not_mem_nil
  | cons y xs ih =>
    rw [List.findSome?_cons]
    cases hy : f y with
    | some b =>
      obtain rfl : y = x := by
        by_contra hne
        rw [h y List.mem_cons_self hne] at hy
        cases hy
      exact hy.symm
    | none =>
      rcases List.mem_cons.1 hx with rfl | hx
      · rw [hy]
        refine List.findSome?_eq_none_iff.2 fun z hz => ?_
        by_cases hzx : z = x
        · rw [hzx, hy]
        · exact h z (List.mem_cons_of_mem _ hz) hzx
      · exact ih hx fun z hz => h z (List.mem_cons_of_mem _ hz)

theorem stops_cons {α : Type} {kind : α → Bool} {a : α} (h : kind a = false) (rest : List α) :
    ∀ b, (a :: rest).head? = some b → kind b = false := by
  intro b hb
  rw [← Option.some.inj hb]
  exact h

theorem takeWhile_append_eq {α : Type} {kind : α → Bool} {xs rest : List α}
    (hxs : ∀ a ∈ xs, kind a = true) (hrest : ∀ a, rest.head? = some a → kind a = false) :
    (xs ++ rest).takeWhile kind = xs := by
  rw [List.takeWhile_append_of_pos hxs]
  cases rest with
  | nil => simp
  | cons a rest => rw [List.takeWhile_cons_of_neg (by simp [hrest a rfl]), List.append_nil]

/-- `run` is not empty, and the longest beginning of `run ++ rest` that is of one kind. -/
structure IsRun {α : Type} (kind : α → Bool) (run rest : List α) : Prop where
  ne_nil : run ≠ []
  of_kind : ∀ a ∈ run, kind a = true
  stops : ∀ a, rest.head? = some a → kind a = false

theorem IsRun.takeWhile_eq {α : Type} {kind : α → Bool} {run rest : List α} (h : IsRun kind run rest) :
    (run ++ rest).takeWhile kind = run := takeWhile_append_eq h.of_kind h.stops

theorem IsRun.dropWhile_eq {α : Type} {kind : α → Bool} {run rest : List α} (h : IsRun kind run rest) :
    (run ++ rest).dropWhile kind = rest := by
  have hboth : (run ++ rest).takeWhile kind ++ (run ++ rest).dropWhile kind = run ++ rest :=
    List.takeWhile_append_dropWhile
  rw [h.takeWhile_eq] at hboth
  exact List.append_cancel_left hboth

theorem isRun_takeWhile {α : Type} {kind : α → Bool} {xs : List α} (h : xs.takeWhile kind ≠ []) :
    IsRun kind (xs.takeWhile kind) (xs.dropWhile kind) := by
  refine ⟨h, fun a ha => ?_, fun a ha => ?_⟩
  · exact List.mem_takeWhile_imp ha
  · have := List.head?_dropWhile_not kind xs
    rw [ha] at this
    simpa using this

theorem zip_zipWith {α β γ : Type} (f : α → β → γ) (xs : List α) (ys : List β) :
    xs.zip (List.zipWith f xs ys) = List.zipWith (fun x y => (x, f x y)) xs ys := by
  induction xs generalizing ys with
  | nil => rfl
  | cons x xs ih =>
    cases ys with
    | nil => rfl
    | cons y ys => rw [List.zipWith_cons_cons, List.zipWith_cons_cons, List.zip_cons_cons, ih]

theorem exists_of_mem_zipWith {α β γ : Type} {f : α → β → γ} {xs : List α} {ys : List β} {z : γ}
    (h : z ∈ List.zipWith f xs ys) : ∃ x ∈ xs, ∃ y ∈ ys, z = f x y := by
  rw [← List.map_uncurry_zip_eq_zipWith] at h
  obtain ⟨⟨x, y⟩, hmem, rfl⟩ := List.mem_map.1 h
  exact ⟨x, (List.of_mem_zip hmem).1, y, (List.of_mem_zip hmem).2, rfl⟩

theorem splitOn_toList_intercalate {separator : String} {c : Char} (hsep : separator.toList = [c])
    {parts : List String} (hne : parts ≠ []) (h : ∀ part ∈ parts, c ∉ part.toList) :
    (separator.intercalate parts).toList.splitOn c = parts.map String.toList := by
  rw [String.toList_intercalate, hsep]
  refine List.splitOn_intercalate c (fun cs hcs => ?_) (by simpa using hne)
  obtain ⟨part, hmem, rfl⟩ := List.mem_map.1 hcs
  exact h part hmem

theorem lookup_eq_of_mem {α β : Type} [BEq α] [LawfulBEq α] {xs : List (α × β)} {a : α} {b : β}
    (hnd : (xs.map (·.1)).Nodup) (h : (a, b) ∈ xs) : xs.lookup a = some b := by
  induction xs with
  | nil => simp at h
  | cons x xs ih =>
    rw [List.map_cons, List.nodup_cons] at hnd
    rcases List.mem_cons.1 h with rfl | h
    · exact List.lookup_cons_self
    · have hne : (a == x.1) = false := by
        rw [beq_eq_false_iff_ne]
        intro he
        exact hnd.1 (he ▸ List.mem_map_of_mem h)
      rw [List.lookup_cons, hne]
      exact ih hnd.2 h

theorem lookup_eq_some_iff_mem {α β : Type} [BEq α] [LawfulBEq α] {xs : List (α × β)} {a : α} {b : β}
    (hnd : (xs.map (·.1)).Nodup) : xs.lookup a = some b ↔ (a, b) ∈ xs := by
  constructor
  · intro h
    obtain ⟨before, after, he, -⟩ := List.lookup_eq_some_iff.1 h
    rw [he]
    exact List.mem_append_right _ List.mem_cons_self
  · exact lookup_eq_of_mem hnd

/-! ## The first of each id -/

section

variable {α : Type} (id : α → String)

/-- Takes up a value whose id has not come up. -/
def takeUp (firsts : List α) (x : α) : List α :=
  if firsts.any (id · == id x) then firsts else firsts ++ [x]

theorem mem_takeUp {firsts : List α} {x y : α} (h : y ∈ takeUp id firsts x) : y ∈ firsts ∨ y = x := by
  rw [takeUp] at h
  split at h
  · exact Or.inl h
  · simpa using h

theorem subset_takeUp (firsts : List α) (x : α) : firsts ⊆ takeUp id firsts x := by
  intro y hy
  rw [takeUp]
  split
  · exact hy
  · exact List.mem_append_left _ hy

theorem exists_mem_takeUp (firsts : List α) (x : α) : ∃ y ∈ takeUp id firsts x, id y = id x := by
  rw [takeUp]
  split
  · rename_i h
    simpa using h
  · exact ⟨x, by simp, rfl⟩

theorem mem_foldl_takeUp {xs firsts : List α} {y : α} (h : y ∈ xs.foldl (takeUp id) firsts) :
    y ∈ firsts ∨ y ∈ xs := by
  induction xs generalizing firsts with
  | nil => exact Or.inl h
  | cons x xs ih =>
    rcases ih h with h | h
    · rcases mem_takeUp id h with h | rfl
      · exact Or.inl h
      · exact Or.inr List.mem_cons_self
    · exact Or.inr (List.mem_cons_of_mem _ h)

theorem nodup_takeUp {firsts : List α} (h : (firsts.map id).Nodup) (x : α) :
    ((takeUp id firsts x).map id).Nodup := by
  rw [takeUp]
  split
  · exact h
  · rename_i hnew
    rw [List.map_append, List.map_singleton, List.nodup_append]
    refine ⟨h, List.nodup_singleton _, fun a ha b hb hab => hnew ?_⟩
    obtain ⟨y, hy, rfl⟩ := List.mem_map.1 ha
    rw [List.mem_singleton.1 hb] at hab
    exact List.any_eq_true.2 ⟨y, hy, beq_iff_eq.2 hab⟩

theorem nodup_foldl_takeUp (xs : List α) {firsts : List α} (h : (firsts.map id).Nodup) :
    ((xs.foldl (takeUp id) firsts).map id).Nodup := by
  induction xs generalizing firsts with
  | nil => exact h
  | cons x xs ih => exact ih (nodup_takeUp id h x)

theorem subset_foldl_takeUp (xs firsts : List α) : firsts ⊆ xs.foldl (takeUp id) firsts := by
  induction xs generalizing firsts with
  | nil => exact List.Subset.refl _
  | cons x xs ih => exact List.Subset.trans (subset_takeUp id firsts x) (ih _)

theorem exists_mem_foldl_takeUp {xs : List α} (firsts : List α) {x : α} (h : x ∈ xs) :
    ∃ y ∈ xs.foldl (takeUp id) firsts, id y = id x := by
  induction xs generalizing firsts with
  | nil => simp at h
  | cons z xs ih =>
    rcases List.mem_cons.1 h with rfl | h
    · obtain ⟨y, hy, he⟩ := exists_mem_takeUp id firsts x
      exact ⟨y, subset_foldl_takeUp id xs _ hy, he⟩
    · exact ih _ h

end

/-! ## First occurrences -/

section

variable {α β : Type} [BEq α]

/-- The first value takes all its later copies with it. -/
theorem eraseDups_induct {motive : List α → Prop} (nil : motive [])
    (cons : ∀ x xs, motive (xs.filter fun y => !y == x) → motive (x :: xs)) (xs : List α) :
    motive xs := by
  induction hn : xs.length using Nat.strongRecOn generalizing xs with
  | ind n ih =>
    cases xs with
    | nil => exact nil
    | cons x xs =>
      have hle := List.length_filter_le (fun y => !y == x) xs
      rw [List.length_cons] at hn
      exact cons x xs (ih _ (by omega) _ rfl)

variable [LawfulBEq α]

theorem filter_eraseDups (p : α → Bool) (xs : List α) :
    xs.eraseDups.filter p = (xs.filter p).eraseDups := by
  induction xs using eraseDups_induct with
  | nil => simp
  | cons x xs ih =>
    rw [List.eraseDups_cons, List.filter_cons, List.filter_cons, ih, List.filter_filter]
    by_cases hp : p x = true
    · rw [if_pos hp, if_pos hp, List.eraseDups_cons, List.filter_filter]
      simp only [Bool.and_comm]
    · -- the copies of `x` go either way
      rw [if_neg hp, if_neg hp]
      congr 1
      refine List.filter_congr fun y _ => ?_
      by_cases hy : y = x
      · simp [hy, hp]
      · simp [hy]

theorem eraseDups_eraseDups (xs : List α) : xs.eraseDups.eraseDups = xs.eraseDups := by
  induction xs using eraseDups_induct with
  | nil => simp
  | cons x xs ih =>
    rw [List.eraseDups_cons, List.eraseDups_cons, filter_eraseDups, List.filter_filter]
    simp only [Bool.and_self]
    rw [ih]

theorem nodup_eraseDups (xs : List α) : xs.eraseDups.Nodup := by
  induction xs using eraseDups_induct with
  | nil => simp
  | cons x xs ih =>
    rw [List.eraseDups_cons, List.nodup_cons]
    refine ⟨fun hx => ?_, ih⟩
    have hne := (List.mem_filter.1 (List.mem_eraseDups.1 hx)).2
    simp at hne

theorem idxOf_lt_of_filter {p : α → Bool} {xs : List α} {x y : α} (hx : p x = true) (hy : p y = true)
    (h : (xs.filter p).idxOf x < (xs.filter p).idxOf y) : xs.idxOf x < xs.idxOf y := by
  induction xs with
  | nil => simp at h
  | cons z xs ih =>
    by_cases hz : p z = true
    · rw [List.filter_cons_of_pos hz] at h
      by_cases hyz : y = z
      · simp [hyz] at h
      · by_cases hxz : x = z
        · rw [hxz, List.idxOf_cons_self, List.idxOf_cons_ne _ (Ne.symm hyz)]
          exact Nat.succ_pos _
        · rw [List.idxOf_cons_ne _ (Ne.symm hxz), List.idxOf_cons_ne _ (Ne.symm hyz)] at h ⊢
          exact Nat.succ_lt_succ (ih (Nat.lt_of_succ_lt_succ h))
    · rw [List.filter_cons_of_neg hz] at h
      have hxz : z ≠ x := fun he => hz (he ▸ hx)
      have hyz : z ≠ y := fun he => hz (he ▸ hy)
      rw [List.idxOf_cons_ne _ hxz, List.idxOf_cons_ne _ hyz]
      exact Nat.succ_lt_succ (ih h)

/-- The values are left in the order of their first occurrences. -/
theorem pairwise_idxOf_eraseDups (xs : List α) :
    xs.eraseDups.Pairwise fun x y => xs.idxOf x < xs.idxOf y := by
  induction xs using eraseDups_induct with
  | nil => simp
  | cons x xs ih =>
    have hne : ∀ y ∈ (xs.filter fun y => !y == x).eraseDups, (!y == x) = true := fun y hy =>
      (List.mem_filter.1 (List.mem_eraseDups.1 hy)).2
    rw [List.eraseDups_cons, List.pairwise_cons]
    refine ⟨fun y hy => ?_, ih.imp_of_mem fun {y z} hy hz hlt => ?_⟩
    · have hyx : x ≠ y := by
        rintro rfl
        simpa using hne x hy
      rw [List.idxOf_cons_self, List.idxOf_cons_ne _ hyx]
      exact Nat.succ_pos _
    · have hself : (x :: xs).filter (fun y => !y == x) = xs.filter fun y => !y == x :=
        List.filter_cons_of_neg (by simp)
      exact idxOf_lt_of_filter (hne y hy) (hne z hz) (by rwa [hself])

theorem eraseDups_append_eraseDups (xs ys : List α) :
    (xs.eraseDups ++ ys.eraseDups).eraseDups = (xs ++ ys).eraseDups := by
  have hsame : ∀ y, xs.eraseDups.elem y = xs.elem y := by
    intro y
    rw [Bool.eq_iff_iff, List.elem_iff, List.elem_iff, List.mem_eraseDups]
  rw [List.eraseDups_append, List.eraseDups_append, eraseDups_eraseDups, List.removeAll,
    List.removeAll, filter_eraseDups, eraseDups_eraseDups]
  simp only [hsame]

theorem eraseDups_map [BEq β] [LawfulBEq β] {f : α → β} (hf : Function.Injective f) (xs : List α) :
    (xs.map f).eraseDups = xs.eraseDups.map f := by
  induction xs using eraseDups_induct with
  | nil => simp
  | cons x xs ih =>
    have hcopies : (xs.map f).filter (fun z => !z == f x) = (xs.filter fun y => !y == x).map f := by
      rw [List.filter_map]
      congr 1
      refine List.filter_congr fun y _ => ?_
      by_cases hy : y = x
      · simp [hy]
      · simp [hy, hf.ne hy]
    rw [List.map_cons, List.eraseDups_cons, List.eraseDups_cons, List.map_cons, hcopies, ih]

end

end PackBindings
