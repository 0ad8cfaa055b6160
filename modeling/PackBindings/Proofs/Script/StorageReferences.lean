/-
  PackBindings.Proofs.Script.StorageReferences — which references to storages are found.

  References are listed from left to right, each with its longest path, and no two of them
  overlap. One that is not listed begins inside of one that is, and there is little room for
  that: not in the word `storage`, as a word character stands before each place in it; not in
  the namespace, as the space after the word is no character of namespaces; so in the path,
  where that space has to be the end of it.

  Proved, for all texts:
  - `storageAt?_eq_some_iff`: what is found at a place, and with which path.
  - `hides_of_inside`: a reference inside of another one is the last word of its path.
  - `storage_references_found`: what is listed, and what is not.
-/

import PackBindings.Proofs.Lists
import PackBindings.Proofs.Script.Names

namespace PackBindings.Script

open PackBindings.Text

/-! ## References in a text -/

def storageWord : List Char := "storage".toList

theorem length_storageWord : storageWord.length = 7 := by decide

theorem storageWord_append_space : "storage ".toList = storageWord ++ [' '] := by decide

def written (owner path : List Char) : List Char := storageWord ++ ' ' :: (owner ++ ':' :: path)

theorem length_written (owner path : List Char) :
    (written owner path).length = owner.length + path.length + 9 := by
  simp only [written, List.length_append, List.length_cons, length_storageWord]
  omega

/-- At `i`, after no word character, a text refers to a path of a namespace. More of a path may follow. -/
structure RefersAt (text : List Char) (i : Nat) (owner path : List Char) : Prop where
  apart : (text.take i).getLast?.any isWord = false
  written : written owner path <+: text.drop i
  owner_ne_nil : owner ≠ []
  path_ne_nil : path ≠ []
  isReference : IsReference (owner, path)

def OccursAt (text : List Char) (i : Nat) : Prop := ∃ owner path, RefersAt text i owner path

theorem RefersAt.length_take {text owner path : List Char} {i : Nat} (h : RefersAt text i owner path) :
    (text.take i).length = i := by
  have hlen := h.written.length_le
  rw [List.length_drop, length_written] at hlen
  rw [List.length_take]
  omega

theorem RefersAt.word {text owner path : List Char} {i : Nat} (h : RefersAt text i owner path) :
    storageWord ++ [' '] <+: text.drop i := by
  refine List.IsPrefix.trans ⟨owner ++ ':' :: path, ?_⟩ h.written
  rw [List.append_assoc, List.singleton_append]
  rfl

theorem storageAt?_eq_some_iff {cs owner path : List Char} : storageAt? cs = some (owner, path) ↔
    ∃ rest, cs = written owner path ++ rest ∧ owner ≠ [] ∧ (∀ c ∈ owner, isStorageChar c = true) ∧
      IsRun isStoragePathChar path rest := by
  unfold storageAt? written
  rw [Option.bind_eq_some_iff, storageWord_append_space]
  constructor
  · rintro ⟨after, hafter, h⟩
    obtain ⟨tail, htail, h⟩ := Option.bind_eq_some_iff.1 h
    obtain ⟨hne, he⟩ := Option.ite_none_left_eq_some.1 h
    obtain ⟨rfl, rfl⟩ := Prod.mk.inj (Option.some.inj he)
    rw [not_or] at hne
    have hcolon := List.isPrefixOf?_eq_some_iff_append_eq.1 htail
    rw [List.singleton_append] at hcolon
    refine ⟨tail.dropWhile isStoragePathChar, ?_, hne.1, ?_, isRun_takeWhile hne.2⟩
    · rw [← List.isPrefixOf?_eq_some_iff_append_eq.1 hafter]
      simp only [List.append_assoc, List.cons_append, List.nil_append,
        List.takeWhile_append_dropWhile, hcolon]
    · exact fun c hc => List.mem_takeWhile_imp hc
  · rintro ⟨rest, rfl, hne, howner, hpath⟩
    have hrun : IsRun isStorageChar owner (':' :: (path ++ rest)) :=
      ⟨hne, howner, stops_cons (by decide) _⟩
    refine ⟨owner ++ ':' :: (path ++ rest), ?_, ?_⟩
    · rw [List.isPrefixOf?_eq_some_iff_append_eq]
      simp only [List.append_assoc, List.cons_append, List.nil_append]
    · rw [hrun.takeWhile_eq, hrun.dropWhile_eq]
      refine Option.bind_eq_some_iff.2 ⟨path ++ rest, ?_, ?_⟩
      · rw [List.isPrefixOf?_eq_some_iff_append_eq, List.singleton_append]
      · rw [hpath.takeWhile_eq, if_neg (not_or.2 ⟨hne, hpath.ne_nil⟩)]

/-- Where the search gets to a reference, one is found. -/
theorem exists_storageAt?_of_occursAt {before cs : List Char}
    (h : OccursAt (before ++ cs) before.length) :
    before.getLast?.any isWord = false ∧ ∃ r, storageAt? cs = some r := by
  obtain ⟨owner, path, hrefers⟩ := h
  have hapart := hrefers.apart
  obtain ⟨rest, hrest⟩ := hrefers.written
  rw [List.take_left] at hapart
  rw [List.drop_left] at hrest
  have hpath : (path ++ rest).takeWhile isStoragePathChar ≠ [] := by
    rw [List.takeWhile_append_of_pos hrefers.isReference.2]
    exact fun hnil => hrefers.path_ne_nil (List.append_eq_nil_iff.1 hnil).1
  refine ⟨hapart, (owner, (path ++ rest).takeWhile isStoragePathChar), storageAt?_eq_some_iff.2
    ⟨(path ++ rest).dropWhile isStoragePathChar, ?_, hrefers.owner_ne_nil, hrefers.isReference.1,
      isRun_takeWhile hpath⟩⟩
  rw [← hrest, written, written]
  simp only [List.append_assoc, List.cons_append, List.takeWhile_append_dropWhile]

/-! ## References inside of others -/

theorem isWord_of_mem_storageWord {c : Char} (h : c ∈ storageWord) : isWord c = true := by
  have hall : storageWord.all isWord = true := by decide +kernel
  exact List.all_eq_true.1 hall c h

theorem isStorageChar_of_mem_storageWord {c : Char} (h : c ∈ storageWord) :
    isStorageChar c = true := by
  have hall : storageWord.all isStorageChar = true := by decide
  exact List.all_eq_true.1 hall c h

/-- The word `storage`, with no word character before it, ends a path. -/
def EndsInWord (path : List Char) : Prop :=
  ∃ before, path = before ++ storageWord ∧ before.getLast?.any isWord = false

/-- A run before which the word and a space are to be read is the word. -/
theorem eq_storageWord_of_run {kind : Char → Bool} (hkind : ∀ c ∈ storageWord, kind c = true)
    (hspace : kind ' ' = false) {run rest : List Char} (hrun : ∀ c ∈ run, kind c = true)
    (hstops : ∀ c, rest.head? = some c → kind c = false)
    (hword : storageWord ++ [' '] <+: run ++ rest) : run = storageWord ∧ rest.head? = some ' ' := by
  obtain ⟨more, hmore⟩ := hword
  rw [List.append_assoc, List.singleton_append] at hmore
  obtain rfl : run = storageWord :=
    calc run = (run ++ rest).takeWhile kind := (takeWhile_append_eq hrun hstops).symm
      _ = (storageWord ++ ' ' :: more).takeWhile kind := by rw [hmore]
      _ = storageWord := takeWhile_append_eq hkind (stops_cons hspace more)
  rw [← List.append_cancel_left hmore]
  exact ⟨rfl, rfl⟩

/-- Not in the word: there is a word character before each place in it and behind it. -/
theorem starts_behind_word {tail before after : List Char} (hne : before ≠ [])
    (hapart : before.getLast?.any isWord = false)
    (hcut : storageWord ++ ' ' :: tail = before ++ after) :
    ∃ front, before = storageWord ++ ' ' :: front ∧ tail = front ++ after := by
  have hnot : ¬ before <+: storageWord := by
    intro hfront
    have hmem := hfront.subset (List.getLast_mem hne)
    rw [List.getLast?_eq_some_getLast hne, Option.any_some, isWord_of_mem_storageWord hmem] at hapart
    cases hapart
  rcases List.append_eq_append_iff.1 hcut with ⟨front, rfl, hfront⟩ | ⟨back, hback, -⟩
  · rcases List.cons_eq_append_iff.1 hfront with ⟨rfl, -⟩ | ⟨front, rfl, htail⟩
    · rw [List.append_nil] at hnot
      exact absurd List.prefix_rfl hnot
    · exact ⟨front, rfl, htail⟩
  · exact absurd ⟨back, hback.symm⟩ hnot

/-- Not in the namespace: it is one run, and no space follows. -/
theorem starts_behind_owner {owner tail before after : List Char}
    (howner : ∀ c ∈ owner, isStorageChar c = true) (hword : storageWord ++ [' '] <+: after)
    (hcut : owner ++ ':' :: tail = before ++ after) :
    ∃ front, before = owner ++ ':' :: front ∧ tail = front ++ after := by
  have hnot : ∀ back, (∀ c ∈ back, isStorageChar c = true) → ¬ after = back ++ ':' :: tail := by
    intro back hback he
    rw [he] at hword
    have hcolon := (eq_storageWord_of_run (fun _ => isStorageChar_of_mem_storageWord) (by decide)
      hback (stops_cons (by decide) tail) hword).2
    exact absurd (Option.some.inj hcolon) (by decide)
  rcases List.append_eq_append_iff.1 hcut with ⟨front, rfl, hfront⟩ | ⟨back, rfl, hafter⟩
  · rcases List.cons_eq_append_iff.1 hfront with ⟨-, hafter⟩ | ⟨front, rfl, htail⟩
    · exact absurd hafter (hnot [] (by simp))
    · exact ⟨front, rfl, htail⟩
  · exact absurd hafter (hnot back fun c hc => howner c (List.mem_append_right _ hc))

/-- A reference that begins inside of another one is the last word of its path. -/
theorem hides_of_inside {owner path rest before after : List Char}
    (howner : ∀ c ∈ owner, isStorageChar c = true) (hpath : IsRun isStoragePathChar path rest)
    (hcut : written owner path ++ rest = before ++ after) (hne : before ≠ [])
    (hinside : before.length < (written owner path).length)
    (hapart : before.getLast?.any isWord = false)
    (hword : storageWord ++ [' '] <+: after) :
    EndsInWord path ∧ before.length + storageWord.length = (written owner path).length := by
  rw [written, List.append_assoc, List.cons_append, List.append_assoc, List.cons_append] at hcut
  obtain ⟨tail, rfl, htail⟩ := starts_behind_word hne hapart hcut
  obtain ⟨front, rfl, hfront⟩ := starts_behind_owner howner hword htail
  change (written owner front).length < _ at hinside
  change EndsInWord path ∧ (written owner front).length + _ = _
  rw [length_written, length_written] at *
  rcases List.append_eq_append_iff.1 hfront with ⟨more, rfl, -⟩ | ⟨back, rfl, rfl⟩
  · rw [List.length_append] at hinside
    omega
  · have hkind : ∀ c ∈ storageWord, isStoragePathChar c = true := by
      intro c hc
      rw [isStoragePathChar, isStorageChar_of_mem_storageWord hc, Bool.true_or]
    obtain ⟨rfl, -⟩ := eq_storageWord_of_run hkind (by decide)
      (fun c hc => hpath.of_kind c (List.mem_append_right _ hc)) hpath.stops hword
    refine ⟨⟨front, rfl, ?_⟩, ?_⟩
    · cases hlast : front.getLast? with
      | none => rfl
      | some c =>
        rw [← hapart]
        simp [List.getLast?_append, List.getLast?_cons, hlast]
    · rw [List.length_append]
      omega

/-! ## Listings -/

/-- A reference that is listed, and where it starts. -/
structure Find where
  start : Nat
  owner : List Char
  path : List Char
  deriving DecidableEq, Repr

namespace Find

def reference (f : Find) : List Char × List Char := (f.owner, f.path)

def pathStart (f : Find) : Nat := f.start + (written f.owner []).length

def stop (f : Find) : Nat := f.start + (written f.owner f.path).length

/-- The last word of the path starts at `i`. -/
def Hides (f : Find) (i : Nat) : Prop :=
  f.pathStart ≤ i ∧ i + storageWord.length = f.stop ∧ EndsInWord f.path

theorem stop_eq_start_add (f : Find) : f.stop = f.start + storageLength f.reference := by
  rw [stop, length_written]
  rfl

theorem stop_eq_pathStart_add (f : Find) : f.stop = f.pathStart + f.path.length := by
  rw [stop, pathStart, length_written, length_written, List.length_nil]
  omega

theorem start_lt_stop (f : Find) : f.start < f.stop := by
  rw [stop, length_written]
  omega

end Find

/-- `f` is a reference in the text, and no more of a path follows. -/
structure IsFind (text : List Char) (f : Find) : Prop extends RefersAt text f.start f.owner f.path where
  longest : ∀ c, text[f.stop]? = some c → isStoragePathChar c = false

theorem IsFind.isRun {text rest : List Char} {f : Find} (h : IsFind text f)
    (hrest : written f.owner f.path ++ rest = text.drop f.start) :
    IsRun isStoragePathChar f.path rest := by
  refine ⟨h.path_ne_nil, h.isReference.2, fun c hc => h.longest c ?_⟩
  rw [Find.stop, ← List.getElem?_drop, ← hrest, List.getElem?_append_right (le_refl _), Nat.sub_self,
    ← List.head?_eq_getElem?]
  exact hc

/-- Any other reference that begins in one that is listed is hidden by its path. -/
theorem IsFind.hides {text : List Char} {f : Find} {i : Nat} (hf : IsFind text f) (hi : OccursAt text i)
    (hstart : f.start < i) (hstop : i < f.stop) : f.Hides i := by
  obtain ⟨rest, hrest⟩ := hf.written
  obtain ⟨owner, path, hrefers⟩ := hi
  have htext : text.take f.start ++ (written f.owner f.path ++ rest) = text.take i ++ text.drop i := by
    rw [hrest, List.take_append_drop, List.take_append_drop]
  have hfstart := hf.length_take
  have hilen := hrefers.length_take
  rcases List.append_eq_append_iff.1 htext with ⟨inside, hinside, hcut⟩ | ⟨back, hback, -⟩
  · rw [hinside, List.length_append] at hilen
    have hne : inside ≠ [] := by
      rintro rfl
      rw [List.length_nil] at hilen
      omega
    have hapart : inside.getLast?.any isWord = false := by
      rw [← hrefers.apart, hinside, List.getLast?_append_of_ne_nil _ hne]
    have howner : ∀ c ∈ f.owner, isStorageChar c = true := hf.isReference.1
    obtain ⟨hends, hlast⟩ := hides_of_inside howner (hf.isRun hrest) hcut hne
      (by rw [Find.stop] at hstop; omega) hapart hrefers.word
    have hword : storageWord.length ≤ f.path.length := by
      obtain ⟨front, hfront, -⟩ := hends
      rw [hfront, List.length_append]
      omega
    have hplace : i + storageWord.length = f.stop := by
      rw [Find.stop]
      omega
    refine ⟨?_, hplace, hends⟩
    have hboth := f.stop_eq_pathStart_add
    omega
  · rw [hback, List.length_append] at hfstart
    omega

/-- What a search lists that goes on at `start`: references one after the other, and all but those
that are hidden. -/
structure ListsFrom (text : List Char) (start : Nat) (found : List Find) : Prop where
  begins : ∀ f ∈ found, start ≤ f.start
  isFind : ∀ f ∈ found, IsFind text f
  apart : found.Pairwise fun f g => f.stop ≤ g.start
  covers : ∀ i, start ≤ i → OccursAt text i → (∃ f ∈ found, f.start = i) ∨ ∃ f ∈ found, f.Hides i

section

variable {text : List Char} {found : List Find}

theorem listsFrom_end {start : Nat} (h : text.length ≤ start) : ListsFrom text start [] := by
  refine ⟨by simp, by simp, List.Pairwise.nil, fun i hi hoccurs => ?_⟩
  obtain ⟨owner, path, hrefers⟩ := hoccurs
  have hlen := hrefers.written.length_le
  rw [List.length_drop, length_written] at hlen
  omega

theorem ListsFrom.pass {i : Nat} (h : ListsFrom text (i + 1) found) (hno : ¬ OccursAt text i) :
    ListsFrom text i found := by
  refine ⟨fun f hf => Nat.le_of_succ_le (h.begins f hf), h.isFind, h.apart, fun j hj hoccurs => ?_⟩
  refine h.covers j (Nat.lt_of_le_of_ne hj ?_) hoccurs
  rintro rfl
  exact hno hoccurs

theorem ListsFrom.take {f : Find} (h : ListsFrom text f.stop found) (hf : IsFind text f) :
    ListsFrom text f.start (f :: found) where
  begins := by
    intro g hg
    rcases List.mem_cons.1 hg with rfl | hg
    · exact le_refl _
    · exact f.start_lt_stop.le.trans (h.begins g hg)
  isFind := List.forall_mem_cons.2 ⟨hf, h.isFind⟩
  apart := List.pairwise_cons.2 ⟨h.begins, h.apart⟩
  covers := by
    intro i hi hoccurs
    rcases Nat.lt_or_ge i f.stop with hstop | hstop
    · rcases Nat.eq_or_lt_of_le hi with rfl | hstart
      · exact Or.inl ⟨f, List.mem_cons_self, rfl⟩
      · exact Or.inr ⟨f, List.mem_cons_self, hf.hides hoccurs hstart hstop⟩
    · rcases h.covers i hstop hoccurs with ⟨g, hg, he⟩ | ⟨g, hg, hhides⟩
      · exact Or.inl ⟨g, List.mem_cons_of_mem _ hg, he⟩
      · exact Or.inr ⟨g, List.mem_cons_of_mem _ hg, hhides⟩

end

theorem isFind_of_storageAt? {before cs : List Char} {r : List Char × List Char}
    (hbefore : before.getLast?.any isWord = false) (hr : storageAt? cs = some r) :
    IsFind (before ++ cs) ⟨before.length, r.1, r.2⟩ := by
  obtain ⟨rest, rfl, howner, hchars, hpath⟩ := storageAt?_eq_some_iff.1 hr
  refine ⟨⟨?_, ?_, howner, hpath.ne_nil, hchars, hpath.of_kind⟩, fun c hc => ?_⟩
  · rwa [List.take_left]
  · rw [List.drop_left]
    exact List.prefix_append _ rest
  · refine hpath.stops c ?_
    rw [← hc, List.head?_eq_getElem?, Find.stop, ← List.append_assoc, ← List.length_append,
      List.getElem?_append_right (le_refl _), Nat.sub_self]

/-- The step invariant of the search: what it finds in the rest `cs` of a text, after `skip`
characters that are taken, are the references from there on. -/
theorem exists_listsFrom (before cs : List Char) (skip : Nat) : ∃ found,
    storagesFrom (before.getLast?.any isWord) skip cs = found.map Find.reference ∧
      ListsFrom (before ++ cs) (before.length + skip) found := by
  induction cs generalizing before skip with
  | nil => exact ⟨[], rfl, listsFrom_end (by simp)⟩
  | cons c cs ih =>
    have hnext : before ++ c :: cs = (before ++ [c]) ++ cs := by simp
    have hplace : (before ++ [c]).length = before.length + 1 := by simp
    have hword : (before ++ [c]).getLast?.any isWord = isWord c := by simp
    cases skip with
    | succ n =>
      obtain ⟨found, hfound, hlists⟩ := ih (before ++ [c]) n
      rw [hword] at hfound
      rw [hplace, ← hnext, Nat.add_right_comm] at hlists
      exact ⟨found, hfound, hlists⟩
    | zero =>
      unfold storagesFrom
      cases hr : if before.getLast?.any isWord then none else storageAt? (c :: cs) with
      | none =>
        -- nothing is found here, so there is nothing to find here
        obtain ⟨found, hfound, hlists⟩ := ih (before ++ [c]) 0
        rw [hword] at hfound
        rw [hplace, ← hnext] at hlists
        refine ⟨found, hfound, hlists.pass fun hoccurs => ?_⟩
        obtain ⟨hbefore, r, hsome⟩ := exists_storageAt?_of_occursAt hoccurs
        rw [hbefore, hsome] at hr
        cases hr
      | some r =>
        -- one is found, and the search goes on behind it
        obtain ⟨hbefore, hsome⟩ := Option.ite_none_left_eq_some.1 hr
        have hf := isFind_of_storageAt? (Bool.eq_false_iff.2 hbefore) hsome
        obtain ⟨found, hfound, hlists⟩ := ih (before ++ [c]) (storageLength r - 1)
        rw [hword] at hfound
        have hstop : (before ++ [c]).length + (storageLength r - 1) =
            (Find.mk before.length r.1 r.2).stop := by
          have hpos : 0 < storageLength r := Nat.succ_pos _
          rw [hplace, Find.stop_eq_start_add]
          change _ = before.length + storageLength r
          omega
        rw [hstop, ← hnext] at hlists
        refine ⟨_ :: found, ?_, hlists.take hf⟩
        rw [List.map_cons, ← hfound]
        rfl

/-- The references of a text are listed, and what is not listed is hidden by the last word of a path.
So nothing is left out if no path that is listed ends in `storage`. -/
theorem storage_references_found (text : List Char) : ∃ found,
    storageReferences text = found.map Find.reference ∧ ListsFrom text 0 found ∧
      ((∀ f ∈ found, ¬ storageWord <:+ f.path) →
        ∀ i, OccursAt text i → (found.map Find.start).count i = 1) := by
  obtain ⟨found, hfound, hlists⟩ := exists_listsFrom [] text 0
  rw [List.nil_append, List.length_nil] at hlists
  refine ⟨found, hfound, hlists, fun hends i hoccurs => ?_⟩
  have hnodup : (found.map Find.start).Nodup := by
    refine List.pairwise_map.2 (hlists.apart.imp fun h => ?_)
    exact Nat.ne_of_lt (Nat.lt_of_lt_of_le (Find.start_lt_stop _) h)
  refine List.count_eq_one_of_mem hnodup (List.mem_map.2 ?_)
  rcases hlists.covers i (Nat.zero_le i) hoccurs with hlisted | ⟨f, hf, -, -, front, hpath, -⟩
  · exact hlisted
  · exact absurd ⟨front, hpath.symm⟩ (hends f hf)

end PackBindings.Script
