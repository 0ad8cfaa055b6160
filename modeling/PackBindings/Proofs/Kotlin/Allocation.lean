/-
  PackBindings.Proofs.Kotlin.Allocation — a scope over a whole row of requests.

  Names are reserved and handed out one after the other. Where a name is taken, numbers are
  tried from two on, and nothing bounds the count but the names that are taken (`Counts`): it
  comes to an end since no two numbers make the same name and only so many names are taken.

  Proved, over every row of requests:
  - `counts_iff_isLeast` / `counts_iff_eq_firstFree`: the count ends at the least number that
    makes a free name, and that is where the bounded search of a scope ends.
  - `isNumbered_iff`: which name is handed out for a wish.
  - `allocates`: what one claim gives, and what it leaves.
  - `names_allocated`: no name is handed out that was reserved or handed out before.
-/

import Mathlib.Order.Bounds.Basic
import PackBindings.Proofs.Kotlin.FreshNames

namespace PackBindings.Kotlin.Scope

/-! ## Counting -/

/-- Counting on from a number for as long as it makes a name that is taken. -/
inductive Counts (s : Scope) (base : String) : Nat → Nat → Prop
  | stop {n : Nat} : numbered base n ∉ s.taken → Counts s base n n
  | next {n m : Nat} : numbered base n ∈ s.taken → Counts s base (n + 1) m → Counts s base n m

theorem counts_iff_isLeast {s : Scope} {base : String} {n m : Nat} :
    s.Counts base n m ↔ IsLeast {i | n ≤ i ∧ numbered base i ∉ s.taken} m := by
  constructor
  · intro h
    induction h with
    | stop hfree => exact ⟨⟨Nat.le_refl _, hfree⟩, fun i hi => hi.1⟩
    | @next n m htaken _ ih =>
      obtain ⟨⟨hle, hfree⟩, hleast⟩ := ih
      refine ⟨⟨by omega, hfree⟩, fun i hi => hleast ⟨?_, hi.2⟩⟩
      have hne : i ≠ n := fun he => hi.2 (he ▸ htaken)
      have := hi.1
      omega
  · intro ⟨⟨hle, hfree⟩, hleast⟩
    -- the induction is on how far the count has to go
    induction hd : m - n generalizing n with
    | zero =>
      obtain rfl : n = m := by omega
      exact .stop hfree
    | succ d ih =>
      have htaken : numbered base n ∈ s.taken := by
        by_contra hn
        have : m ≤ n := hleast ⟨Nat.le_refl n, hn⟩
        omega
      refine .next htaken (ih (by omega) (fun i hi => hleast ⟨?_, hi.2⟩) (by omega))
      have := hi.1
      omega

theorem isLeast_firstFree (s : Scope) (base : String) :
    IsLeast {i | 2 ≤ i ∧ numbered base i ∉ s.taken} (s.firstFree base) := by
  refine ⟨s.firstFree_spec base, fun i ⟨hi, hfree⟩ => ?_⟩
  by_contra hlt
  exact hfree (numbered_mem_of_lt hi (by omega))

/-- The search that a bound keeps short ends where counting ends. -/
theorem counts_iff_eq_firstFree {s : Scope} {base : String} {n : Nat} :
    s.Counts base 2 n ↔ n = s.firstFree base := by
  rw [counts_iff_isLeast]
  constructor
  · exact fun h => h.unique (s.isLeast_firstFree base)
  · rintro rfl
    exact s.isLeast_firstFree base

/-! ## One claim -/

/-- The wish itself or, where that is taken, the wish and the least number that makes a free name. -/
structure IsNumbered (taken : List String) (base name : String) : Prop where
  free : base ∉ taken → name = base
  counted : base ∈ taken →
    ∃ n, IsLeast {i | 2 ≤ i ∧ base ++ toString i ∉ taken} n ∧ name = base ++ toString n

theorem isNumbered_iff {s : Scope} {base name : String} :
    IsNumbered s.taken base name ↔ name = s.freshName base := by
  by_cases h : base ∈ s.taken
  · rw [freshName_of_mem h]
    constructor
    · intro hname
      obtain ⟨n, hn, rfl⟩ := hname.counted h
      rw [hn.unique (s.isLeast_firstFree base)]
      rfl
    · rintro rfl
      exact ⟨fun hfree => absurd h hfree, fun _ => ⟨_, s.isLeast_firstFree base, rfl⟩⟩
  · rw [freshName_of_not_mem h]
    exact ⟨fun hname => hname.free h, fun hname => ⟨fun _ => hname, fun htaken => absurd htaken h⟩⟩

/-- A name that was free is handed out, and it alone is taken in addition. -/
structure IsClaim (s : Scope) (r : String × Scope) : Prop where
  new : r.1 ∉ s.taken
  adds : ∀ name, name ∈ r.2.taken ↔ name = r.1 ∨ name ∈ s.taken

theorem isClaim_claimNumbered (s : Scope) (base : String) : IsClaim s (s.claimNumbered base) :=
  ⟨s.freshName_not_mem base, fun _ => List.mem_cons⟩

theorem claim_eq (s : Scope) (base second : String) : s.claim base second =
    if base ∈ s.taken then s.claimNumbered second else s.claimNumbered base := by
  have htaken : s.isTaken base = decide (base ∈ s.taken) := by simp [isTaken]
  unfold claim
  rw [htaken]
  by_cases h : base ∈ s.taken <;> simp [h]

/-- What claims come to in a scope. -/
structure Allocates (s : Scope) : Prop where
  ends : ∀ base, ∃! n, s.Counts base 2 n
  least : ∀ base n, s.Counts base 2 n ↔ IsLeast {i | 2 ≤ i ∧ base ++ toString i ∉ s.taken} n
  claimNumbered : ∀ base, IsClaim s (s.claimNumbered base) ∧
    IsNumbered s.taken base (s.claimNumbered base).1
  claim : ∀ base second, IsClaim s (s.claim base second) ∧
    if base ∈ s.taken then s.claim base second = s.claimNumbered second
    else (s.claim base second).1 = base

theorem allocates (s : Scope) : s.Allocates where
  ends base := ⟨s.firstFree base, counts_iff_eq_firstFree.2 rfl, fun _ => counts_iff_eq_firstFree.1⟩
  least _ _ := counts_iff_isLeast
  claimNumbered base := ⟨s.isClaim_claimNumbered base, isNumbered_iff.2 rfl⟩
  claim base second := by
    rw [claim_eq]
    by_cases h : base ∈ s.taken
    · rw [if_pos h, if_pos h]
      exact ⟨s.isClaim_claimNumbered second, rfl⟩
    · rw [if_neg h, if_neg h]
      exact ⟨s.isClaim_claimNumbered base, freshName_of_not_mem h⟩

/-! ## Requests in turn -/

inductive Request where
  | reserve (name : String)
  | claim (base second : String)
  | claimNumbered (base : String)

/-- What came of a request. -/
inductive Entry where
  | reserved (name : String)
  | handed (name : String)
  deriving DecidableEq, Repr

namespace Entry

def name : Entry → String
  | reserved n => n
  | handed n => n

def handed? : Entry → Option String
  | reserved _ => none
  | handed n => some n

end Entry

def serve (s : Scope) : Request → Entry × Scope
  | .reserve name => (.reserved name, s.reserve name)
  | .claim base second => (.handed (s.claim base second).1, (s.claim base second).2)
  | .claimNumbered base => (.handed (s.claimNumbered base).1, (s.claimNumbered base).2)

/-- What came of requests, and the scope after them. -/
def serveAll (s : Scope) : List Request → List Entry × Scope
  | [] => ([], s)
  | r :: rs => ((s.serve r).1 :: ((s.serve r).2.serveAll rs).1, ((s.serve r).2.serveAll rs).2)

theorem mem_taken_serve {s : Scope} {r : Request} {name : String} :
    name ∈ (s.serve r).2.taken ↔ name = (s.serve r).1.name ∨ name ∈ s.taken := by
  cases r with
  | reserve n => exact List.mem_cons
  | claim base second => exact (s.allocates.claim base second).1.adds name
  | claimNumbered base => exact (s.isClaim_claimNumbered base).adds name

theorem not_mem_of_handed {s : Scope} {r : Request} {name : String}
    (h : (s.serve r).1.handed? = some name) : name ∉ s.taken := by
  cases r with
  | reserve n => simp [serve, Entry.handed?] at h
  | claim base second =>
    rw [← Option.some.inj h]
    exact (s.allocates.claim base second).1.new
  | claimNumbered base =>
    rw [← Option.some.inj h]
    exact (s.isClaim_claimNumbered base).new

/-- What is taken before a row of requests is handed out by none of them. -/
theorem not_mem_of_mem_serveAll {s : Scope} {rs : List Request} {e : Entry} {name : String}
    (h : e ∈ (s.serveAll rs).1) (hname : e.handed? = some name) : name ∉ s.taken := by
  induction rs generalizing s with
  | nil => exact absurd h List.not_mem_nil
  | cons r rs ih =>
    rcases List.mem_cons.1 h with rfl | h
    · exact not_mem_of_handed hname
    · exact fun ht => ih h (mem_taken_serve.2 (Or.inr ht))

/-- The later entry hands out no name of the earlier one. -/
def Entry.Spares (earlier later : Entry) : Prop := later.handed? ≠ some earlier.name

theorem pairwise_spares (s : Scope) (rs : List Request) :
    (s.serveAll rs).1.Pairwise Entry.Spares := by
  induction rs generalizing s with
  | nil => exact List.Pairwise.nil
  | cons r rs ih =>
    refine List.pairwise_cons.2 ⟨fun e he hname => ?_, ih _⟩
    exact not_mem_of_mem_serveAll he hname (mem_taken_serve.2 (Or.inl rfl))

theorem nodup_handed {es : List Entry} (h : es.Pairwise Entry.Spares) :
    (es.filterMap Entry.handed?).Nodup := by
  refine h.filterMap _ fun e d hspares name hname other hother => ?_
  cases e with
  | reserved n => cases hname
  | handed n =>
    rintro rfl
    obtain rfl : n = name := Option.some.inj hname
    exact hspares hother

/-- Whatever was asked before, a claim comes to an end with a name that is new, and only that name is
taken in addition. So over a whole row of requests no name is handed out twice, nor one that was
reserved before. -/
theorem names_allocated (rs : List Request) :
    let run := (Scope.mk []).serveAll rs
    run.2.Allocates ∧ run.1.Pairwise Entry.Spares ∧ (run.1.filterMap Entry.handed?).Nodup := by
  intro run
  have hspares : run.1.Pairwise Entry.Spares := pairwise_spares _ rs
  exact ⟨run.2.allocates, hspares, nodup_handed hspares⟩

/-- The numbered name of one wish is another wish. -/
example : (((Scope.mk []).serveAll [.claimNumbered "a", .claimNumbered "a2", .claimNumbered "a",
    .reserve "b", .claim "b" "a", .claimNumbered "a2"]).1.filterMap Entry.handed?) =
      ["a", "a2", "a3", "a4", "a22"] := by
  decide +kernel

end PackBindings.Kotlin.Scope
