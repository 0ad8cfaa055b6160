/-
  PackBindings.Proofs.Kotlin.FreshNames — what a scope hands out is new.

  A scope with `n` names taken can hold at most `n` of the `n + 1` numbered names that
  `firstFree` tries, so one of them is free and the default of the search is never
  reached.

  Proved, for every scope and every wish:
  - `freshName_not_mem`: the name that is handed out was not taken.
  - `freshName_eq`: it is the wish, or the wish and a number from two on.
  - `freshName_of_subset` / `claim_of_subset`: it stays the same where more names are taken,
    as long as it is none of them.
  - `nodup_nameAll` / `not_mem_of_mem_nameAll`: names handed out in turn differ from one
    another and from all names that were taken before.
-/

import Mathlib.Data.List.Nodup
import Mathlib.Data.List.Perm.Subperm
import PackBindings.Kotlin.Scope

namespace PackBindings.Kotlin.Scope

/-! ## Numbers -/

theorem numbered_injective (base : String) : Function.Injective (numbered base) := by
  intro m n h
  have hs : (toString m).toList = (toString n).toList := by
    simpa [numbered] using congrArg String.toList h
  have hd : Nat.toDigits 10 m = Nat.toDigits 10 n := by
    simpa only [Nat.toString_eq_ofList_toDigits, String.toList_ofList] using hs
  simpa using congrArg (Nat.ofDigitChars 10 · 0) hd

/-- Of one more number than there are names taken, one makes a free name. -/
theorem exists_free (s : Scope) (base : String) :
    ∃ n ∈ List.range' 2 (s.taken.length + 1), numbered base n ∉ s.taken := by
  apply Classical.byContradiction
  intro hno
  have hsub : (List.range' 2 (s.taken.length + 1)).map (numbered base) ⊆ s.taken := by
    intro x hx
    obtain ⟨n, hn, rfl⟩ := List.mem_map.1 hx
    exact Classical.byContradiction fun h => hno ⟨n, hn, h⟩
  have hnd : ((List.range' 2 (s.taken.length + 1)).map (numbered base)).Nodup :=
    List.Nodup.map (numbered_injective base) List.nodup_range'
  have hle := (List.subperm_of_subset hnd hsub).length_le
  simp only [List.length_map, List.length_range'] at hle
  omega

theorem find?_eq_firstFree (s : Scope) (base : String) :
    (List.range' 2 (s.taken.length + 1)).find? (fun n => !s.isTaken (numbered base n)) =
      some (s.firstFree base) := by
  obtain ⟨n, hn, hfree⟩ := s.exists_free base
  have hsome : ((List.range' 2 (s.taken.length + 1)).find?
      fun n => !s.isTaken (numbered base n)).isSome := by
    rw [List.find?_isSome]
    exact ⟨n, hn, by simpa [isTaken] using hfree⟩
  obtain ⟨m, hm⟩ := Option.isSome_iff_exists.1 hsome
  rw [firstFree, hm, Option.getD_some]

theorem firstFree_spec (s : Scope) (base : String) :
    2 ≤ s.firstFree base ∧ numbered base (s.firstFree base) ∉ s.taken := by
  have hfound := s.find?_eq_firstFree base
  have hrange := List.mem_range'_1.1 (List.mem_of_find?_eq_some hfound)
  have hfree := List.find?_some hfound
  exact ⟨hrange.1, by simpa [isTaken] using hfree⟩

/-- Every number before the first free one makes a name that is taken. -/
theorem numbered_mem_of_lt {s : Scope} {base : String} {n : Nat} (h : 2 ≤ n)
    (hn : n < s.firstFree base) : numbered base n ∈ s.taken := by
  have hbefore := (List.find?_range'_eq_some.1 (s.find?_eq_firstFree base)).2.2 n h hn
  simpa [isTaken] using hbefore

/-! ## One name -/

theorem freshName_of_not_mem {s : Scope} {base : String} (h : base ∉ s.taken) :
    s.freshName base = base := by
  simp [freshName, isTaken, h]

theorem freshName_of_mem {s : Scope} {base : String} (h : base ∈ s.taken) :
    s.freshName base = numbered base (s.firstFree base) := by
  simp [freshName, isTaken, h]

theorem freshName_not_mem (s : Scope) (base : String) : s.freshName base ∉ s.taken := by
  by_cases h : base ∈ s.taken
  · rw [freshName_of_mem h]
    exact (s.firstFree_spec base).2
  · rwa [freshName_of_not_mem h]

theorem freshName_eq (s : Scope) (base : String) :
    s.freshName base = base ∨ ∃ n, 2 ≤ n ∧ s.freshName base = base ++ toString n := by
  by_cases h : base ∈ s.taken
  · exact Or.inr ⟨s.firstFree base, (s.firstFree_spec base).1, freshName_of_mem h⟩
  · exact Or.inl (freshName_of_not_mem h)

theorem freshName_eq_two {s : Scope} {base : String} (h : base ∈ s.taken)
    (hfree : numbered base 2 ∉ s.taken) : s.freshName base = numbered base 2 := by
  have hrange : List.range' 2 (s.taken.length + 1) = 2 :: List.range' 3 s.taken.length := rfl
  rw [freshName_of_mem h, firstFree, hrange, List.find?_cons_of_pos]
  · rfl
  · simpa [isTaken] using hfree

/-! ## One name or another -/

theorem claim_of_not_mem {s : Scope} {base : String} (h : base ∉ s.taken) (second : String) :
    (s.claim base second).1 = base := by
  have hfree : s.isTaken base = false := by simpa [isTaken] using h
  unfold claim
  rw [if_neg (by simp [hfree])]
  exact freshName_of_not_mem h

theorem claim_of_mem {s : Scope} {base : String} (h : base ∈ s.taken) (second : String) :
    (s.claim base second).1 = s.freshName second := by
  have htaken : s.isTaken base = true := by simpa [isTaken] using h
  unfold claim
  rw [if_pos htaken]
  rfl

/-! ## More names taken -/

section

variable {s t : Scope} (hsub : s.taken ⊆ t.taken)

include hsub

theorem firstFree_of_subset {base : String} (hfree : numbered base (s.firstFree base) ∉ t.taken) :
    t.firstFree base = s.firstFree base := by
  obtain ⟨hs, -⟩ := s.firstFree_spec base
  obtain ⟨ht, hfreet⟩ := t.firstFree_spec base
  -- each of the two would be taken if it came before the other
  have hle : ¬s.firstFree base < t.firstFree base := fun hlt => hfree (numbered_mem_of_lt hs hlt)
  have hge : ¬t.firstFree base < s.firstFree base :=
    fun hlt => hfreet (hsub (numbered_mem_of_lt ht hlt))
  omega

/-- A name stays what it is as long as nobody else takes it. -/
theorem freshName_of_subset {base : String} (hfree : s.freshName base ∉ t.taken) :
    t.freshName base = s.freshName base := by
  by_cases h : base ∈ s.taken
  · rw [freshName_of_mem h] at hfree ⊢
    rw [freshName_of_mem (hsub h), firstFree_of_subset hsub hfree]
  · rw [freshName_of_not_mem h] at hfree ⊢
    exact freshName_of_not_mem hfree

theorem claim_of_subset {base second : String} (hfree : (s.claim base second).1 ∉ t.taken) :
    (t.claim base second).1 = (s.claim base second).1 := by
  by_cases h : base ∈ s.taken
  · rw [claim_of_mem h] at hfree ⊢
    rw [claim_of_mem (hsub h), freshName_of_subset hsub hfree]
  · rw [claim_of_not_mem h] at hfree ⊢
    exact claim_of_not_mem hfree second

end

/-! ## Names in turn -/

@[simp] theorem length_nameAll (s : Scope) (bases : List String) :
    (s.nameAll bases).length = bases.length := by
  induction bases generalizing s with
  | nil => rfl
  | cons base bases ih => simp [nameAll, ih]

theorem not_mem_of_mem_nameAll {s : Scope} {bases : List String} {name : String}
    (h : name ∈ s.nameAll bases) : name ∉ s.taken := by
  induction bases generalizing s with
  | nil => simp [nameAll] at h
  | cons base bases ih =>
    rcases List.mem_cons.1 h with rfl | h
    · exact s.freshName_not_mem base
    · exact fun ht => ih h (List.mem_cons_of_mem _ ht)

theorem nodup_nameAll (s : Scope) (bases : List String) : (s.nameAll bases).Nodup := by
  induction bases generalizing s with
  | nil => exact List.nodup_nil
  | cons base bases ih =>
    refine List.nodup_cons.2 ⟨fun h => ?_, ih _⟩
    exact not_mem_of_mem_nameAll h (by simp [reserve])

/-- Each of the names is what some scope hands out for one of the wishes. -/
theorem exists_of_mem_nameAll {s : Scope} {bases : List String} {name : String}
    (h : name ∈ s.nameAll bases) : ∃ (s' : Scope) (base : String), base ∈ bases ∧
      name = s'.freshName base := by
  induction bases generalizing s with
  | nil => simp [nameAll] at h
  | cons base bases ih =>
    rcases List.mem_cons.1 h with rfl | h
    · exact ⟨s, base, List.mem_cons_self, rfl⟩
    · obtain ⟨s', b, hb, he⟩ := ih h
      exact ⟨s', b, List.mem_cons_of_mem _ hb, he⟩

end PackBindings.Kotlin.Scope
