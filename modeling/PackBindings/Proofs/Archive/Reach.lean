/-
  PackBindings.Proofs.Archive.Reach — what is unpacked from an archive can be opened.

  The name of an entry is short enough for the file at the end of it to be written, and nothing
  stands further down in the tree than the longest name leads. So in the directory that an archive
  is unpacked to, nothing is out of reach.

  Proved, for every archive:
  - `isWithin_unpackEntry`: an entry adds nothing that is further down than its name may lead.
  - `isWithin_treeOf?`: nor do all entries.
  - `isInReach_of_unpack?`: what stands in the tree of an archive is in reach.
-/

import PackBindings.Archive.Unpack
import PackBindings.Pack.Source
import PackBindings.Proofs.Files.Reach

namespace PackBindings.Archive

open PackBindings.Files

/-- How far down entries are put. -/
def wayLimit : Nat := pathLimit - waySize + 1

theorem utf8ByteSize_lt_of_fits {name : String} (h : fits name = true) :
    name.utf8ByteSize < wayLimit := by
  have hle : waySize + name.utf8ByteSize ≤ pathLimit := of_decide_eq_true h
  unfold wayLimit
  omega

theorem parentNames_sublist (name : String) : (parentNames name).Sublist (spelledNames name) :=
  ((List.dropLast_sublist _).trans List.filter_sublist).map String.ofList

theorem isWithin_unpackEntry {t t' : Tree} {e : Entry} (h : unpackEntry t e = some t')
    (ht : t.IsWithin wayLimit) : t'.IsWithin wayLimit := by
  unfold unpackEntry at h
  split at h
  · cases h
  · rename_i hname
    have hlen : e.name.utf8ByteSize < wayLimit := by
      refine utf8ByteSize_lt_of_fits ?_
      simp only [Bool.or_eq_true, Bool.not_eq_true', not_or, Bool.not_eq_false] at hname
      exact hname.2
    split at h
    · split at h
      · rename_i hmake
        obtain rfl := Option.some.inj h
        exact Tree.isWithin_makeDirectories hmake ht hlen
      · cases h
    · split at h
      · rename_i hmake
        have hparents := wayLength_le_of_sublist (parentNames_sublist e.name)
        rw [wayLength_spelledNames] at hparents
        have hmade := Tree.isWithin_makeAlong hmake ht (by rw [wayLength_nil]; omega)
        exact Tree.isWithin_write? h hmade hlen
      · cases h

theorem isWithin_foldlM {es : List Entry} {t t' : Tree} (h : es.foldlM unpackEntry t = some t')
    (ht : t.IsWithin wayLimit) : t'.IsWithin wayLimit := by
  induction es generalizing t with
  | nil =>
    obtain rfl := Option.some.inj h
    exact ht
  | cons e es ih =>
    rw [List.foldlM_cons, Option.bind_eq_bind, Option.bind_eq_some_iff] at h
    obtain ⟨next, hnext, hrest⟩ := h
    exact ih hrest (isWithin_unpackEntry hnext ht)

theorem isWithin_treeOf? {es : List Entry} {t : Tree} (h : treeOf? es = some t) :
    t.IsWithin wayLimit := by
  refine isWithin_foldlM h fun p n hn => ?_
  by_cases hp : p = []
  · simp [hp]
  · exact absurd ((Tree.node?_eq_some hp).1 hn) List.not_mem_nil

/-- Whatever is unpacked can be opened where it is. -/
theorem isInReach_of_unpack? {b : ByteArray} {t : Tree} (h : unpack? b = some t) {p : Path} {n : Node}
    (hn : t.node? p = some n) : (Place.along ⟨t, [], Pack.unpackedName⟩ p).isInReach = true := by
  obtain ⟨hs, -, h⟩ := Option.bind_eq_some_iff.1 h
  obtain ⟨es, -, h⟩ := Option.bind_eq_some_iff.1 h
  have hway := isWithin_treeOf? h p n hn
  have hname : Pack.unpackedName.utf8ByteSize = 10 := by decide
  refine Place.isInReach_of_wayLength ?_
  show Pack.unpackedName.utf8ByteSize + wayLength p ≤ pathLimit
  unfold wayLimit waySize pathLimit at hway
  unfold pathLimit
  omega

end PackBindings.Archive
