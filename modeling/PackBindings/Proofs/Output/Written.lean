/-
  PackBindings.Proofs.Output.Written — what stands below a directory after the output.

  Files are written one after the other. Each one leaves everything else as it was, so of
  several files with one path the last one is there in the end (`contentsAt_cons`).

  Proved, for every tree and all files whose paths go down with every name:
  - `written_file`: what one file changes.
  - `written_files`: what all of them change.
  - `written_directory`: the same for a whole output, below the directory that the path of
    the output leads to.
  - `filesBelow_perm_iff`: in a directory without files, all files are there afterwards
    and nothing else, exactly when no two of them have one path.
-/

import PackBindings.Output.Action
import PackBindings.Proofs.Files.SpelledPaths

namespace PackBindings.Output

open PackBindings.Bindings PackBindings.Files PackBindings.Files.Tree

/-! ## Actions -/

theorem perform_makeDirectories {t t' : Tree} {path : String} {orElse : Cause} {rest : List Action}
    (h : perform t (.makeDirectories path orElse :: rest) = (t', none)) :
    ∃ u, t.makeDirectories path = (u, true) ∧ perform u rest = (t', none) := by
  rw [perform] at h
  split at h
  · rename_i u hu
    exact ⟨u, hu, h⟩
  · cases h

theorem perform_write {t t' : Tree} {path : String} {contents : ByteArray} {orElse : Cause}
    {rest : List Action} (h : perform t (.write path contents orElse :: rest) = (t', none)) :
    ∃ u, t.write? path contents = some u ∧ perform u rest = (t', none) := by
  rw [perform] at h
  split at h
  · rename_i u hu
    exact ⟨u, hu, h⟩
  · cases h

theorem perform_append {t t' : Tree} {first rest : List Action}
    (h : perform t (first ++ rest) = (t', none)) :
    ∃ u, perform t first = (u, none) ∧ perform u rest = (t', none) := by
  induction first generalizing t with
  | nil => exact ⟨t, rfl, h⟩
  | cons action first ih =>
    cases action with
    | makeDirectories path orElse =>
      obtain ⟨v, hv, hmore⟩ := perform_makeDirectories h
      obtain ⟨u, hu, hrest⟩ := ih hmore
      exact ⟨u, by rw [perform, hv]; exact hu, hrest⟩
    | write path contents orElse =>
      obtain ⟨v, hv, hmore⟩ := perform_write h
      obtain ⟨u, hu, hrest⟩ := ih hmore
      exact ⟨u, by rw [perform, hv]; exact hu, hrest⟩

theorem perform_of_isNone {t : Tree} {as : List Action} (h : (perform t as).2.isNone = true) :
    perform t as = ((perform t as).1, none) :=
  Prod.ext rfl (Option.isNone_iff_eq_none.1 h)

/-! ## Files -/

/-- The paths of files below the output, each with what is written there. -/
def laidOut (fs : List SourceFile) : List (Path × ByteArray) :=
  fs.map fun f => (f.path, f.contents.toUTF8)

theorem map_fst_laidOut (fs : List SourceFile) :
    (laidOut fs).map (·.1) = fs.map SourceFile.path := List.map_map

/-- The contents that a file has at a path after all files have been written in turn. -/
def contentsAt (fs : List SourceFile) (path : Path) : Option ByteArray :=
  (laidOut fs).reverse.lookup path

theorem contentsAt_cons (f : SourceFile) (fs : List SourceFile) (path : Path) :
    contentsAt (f :: fs) path =
      (contentsAt fs path).or (if path = f.path then some f.contents.toUTF8 else none) := by
  have hcons : laidOut (f :: fs) = (f.path, f.contents.toUTF8) :: laidOut fs := rfl
  rw [contentsAt, hcons, List.reverse_cons, List.lookup_append, contentsAt]
  by_cases h : path = f.path
  · rw [if_pos h, h]
    simp
  · rw [if_neg h, List.lookup_cons, beq_eq_false_iff_ne.2 h]
    simp

theorem contentsAt_eq_some {fs : List SourceFile} (h : (fs.map SourceFile.path).Nodup) {path : Path}
    {contents : ByteArray} :
    contentsAt fs path = some contents ↔ (path, contents) ∈ laidOut fs := by
  have hnodup : ((laidOut fs).reverse.map (·.1)).Nodup := by
    rw [List.map_reverse, List.nodup_reverse, map_fst_laidOut]
    exact h
  rw [contentsAt, lookup_eq_some_iff_mem hnodup, List.mem_reverse]

theorem written_file {t t' : Tree} {root : String} {p : Path} {f : SourceFile}
    (hp : t.follow? root = some p) (hf : ∀ name ∈ f.path, IsOrdinary name)
    (h : perform t (fileActions root f) = (t', none)) :
    t.Extends t' ∧
      ∀ q, t'.file? q = if q = p ++ f.path then some f.contents.toUTF8 else t.file? q := by
  obtain ⟨u, hmake, hrest⟩ := perform_makeDirectories h
  obtain ⟨v, hwrite, hdone⟩ := perform_write hrest
  cases hdone
  obtain ⟨hext, hfiles, -⟩ := makeDirectories_spec hmake
  have hdir : ∀ name ∈ f.directory, IsOrdinary name := by
    intro name hname
    exact hf name (List.mem_append_left _ hname)
  have hname : IsOrdinary (f.source.name ++ ".kt") :=
    hf _ (List.mem_append_right _ List.mem_cons_self)
  obtain ⟨q, hq, hext', hset⟩ := write?_join hname hwrite
  rw [follow?_foldl u root hdir, follow?_of_extends hext hp, Option.bind_some] at hq
  obtain rfl := walk?_ordinary hdir hq
  refine ⟨hext.trans hext', fun q => ?_⟩
  rw [hset q, hfiles q, SourceFile.path, List.append_assoc]

/-- Each file is in its place below the directory, and what is not below it stays. -/
theorem written_files {t t' : Tree} {root : String} {p : Path} {fs : List SourceFile}
    (hp : t.follow? root = some p) (hfs : ∀ f ∈ fs, ∀ name ∈ f.path, IsOrdinary name)
    (h : perform t (fs.flatMap (fileActions root)) = (t', none)) :
    t.Extends t' ∧ (∀ r, t'.file? (p ++ r) = (contentsAt fs r).or (t.file? (p ++ r))) ∧
      ∀ q, ¬p <+: q → t'.file? q = t.file? q := by
  induction fs generalizing t with
  | nil =>
    cases h
    exact ⟨Extends.refl t', fun _ => rfl, fun _ _ => rfl⟩
  | cons f fs ih =>
    rw [List.flatMap_cons] at h
    obtain ⟨u, hfirst, hrest⟩ := perform_append h
    obtain ⟨hext, hset⟩ := written_file hp (hfs f List.mem_cons_self) hfirst
    obtain ⟨hext', hbelow, hbeside⟩ := ih (follow?_of_extends hext hp)
      (fun g hg => hfs g (List.mem_cons_of_mem f hg)) hrest
    refine ⟨hext.trans hext', fun r => ?_, fun q hq => ?_⟩
    · have hsame : p ++ r = p ++ f.path ↔ r = f.path := List.append_right_inj p
      rw [hbelow r, hset, contentsAt_cons, Option.or_assoc]
      congr 1
      by_cases hr : r = f.path
      · rw [if_pos (hsame.2 hr), if_pos hr, Option.some_or]
      · rw [if_neg (fun he => hr (hsame.1 he)), if_neg hr, Option.none_or]
    · rw [hbeside q hq, hset, if_neg]
      intro he
      exact hq (he ▸ List.prefix_append p f.path)

/-! ## The whole output -/

theorem written_directory {t t' : Tree} {root : String} {fs : List SourceFile}
    (hfs : ∀ f ∈ fs, ∀ name ∈ f.path, IsOrdinary name)
    (h : perform t (actions (.directory root) fs) = (t', none)) :
    ∃ p, t'.follow? root = some p ∧
      (∀ r, t'.file? (p ++ r) = (contentsAt fs r).or (t.file? (p ++ r))) ∧
      ∀ q, ¬p <+: q → t'.file? q = t.file? q := by
  obtain ⟨u, hmake, hrest⟩ := perform_makeDirectories h
  obtain ⟨-, hfiles, p, hp, -⟩ := makeDirectories_spec hmake
  obtain ⟨hext, hbelow, hbeside⟩ := written_files hp hfs hrest
  refine ⟨p, follow?_of_extends hext hp, fun r => ?_, fun q hq => ?_⟩
  · rw [hbelow r, hfiles]
  · rw [hbeside q hq, hfiles]

theorem filesBelow_perm_iff {t t' : Tree} {p : Path} {fs : List SourceFile}
    (hempty : t.filesBelow p = [])
    (h : ∀ r, t'.file? (p ++ r) = (contentsAt fs r).or (t.file? (p ++ r))) :
    (t'.filesBelow p).Perm (laidOut fs) ↔ (fs.map SourceFile.path).Nodup := by
  rw [← map_fst_laidOut]
  constructor
  · intro hperm
    exact (hperm.map (·.1)).nodup_iff.1 (nodup_filesBelow t' p)
  · intro hnodup
    refine (List.perm_ext_iff_of_nodup (List.Nodup.of_map _ (nodup_filesBelow t' p))
      (List.Nodup.of_map _ hnodup)).2 ?_
    intro (r, contents)
    have hnone : t.file? (p ++ r) = none := by
      rw [Option.eq_none_iff_forall_ne_some]
      intro c hc
      rw [← mem_filesBelow, hempty] at hc
      cases hc
    rw [mem_filesBelow, h r, hnone, Option.or_none, contentsAt_eq_some (map_fst_laidOut fs ▸ hnodup)]

end PackBindings.Output
