/-
  PackBindings.Proofs.Files.Growth — what making directories and writing do to a tree.

  Both only add to a tree or replace the contents of one file (`Extends`), so paths lead
  where they led before (`walk?_of_extends`).

  Proved, for every tree and all names:
  - `mem_filesBelow`: the files below a directory, each once (`nodup_filesBelow`).
  - `node?_writeFile`: a file that is written has the given contents, and everything else
    is as it was.
  - `makeAlong_spec`: no file is added or changed where directories are made, and the
    names lead to a directory if all of them could be.
-/

import PackBindings.Files.Tree
import PackBindings.Proofs.Lists

namespace PackBindings.Files.Tree

/-! ## What stands at a path -/

theorem node?_eq_some {t : Tree} {p : Path} (hp : p ≠ []) {n : Node} :
    t.node? p = some n ↔ (p, n) ∈ t.entries := by
  rw [node?, if_neg hp]
  exact lookup_eq_some_iff_mem t.nodup

theorem node?_eq_file {t : Tree} {p : Path} {contents : ByteArray} :
    t.node? p = some (.file contents) ↔ (p, .file contents) ∈ t.entries := by
  by_cases hp : p = []
  · constructor
    · intro h
      rw [node?, if_pos hp] at h
      cases h
    · intro h
      exact absurd hp (t.closed _ h).1
  · exact node?_eq_some hp

/-- The contents of the file at a path. -/
def file? (t : Tree) (p : Path) : Option ByteArray :=
  match t.node? p with
  | some (.file contents) => some contents
  | _ => none

theorem file?_eq_some {t : Tree} {p : Path} {contents : ByteArray} :
    t.file? p = some contents ↔ (p, .file contents) ∈ t.entries := by
  rw [← node?_eq_file, file?]
  split
  · rename_i c hc
    rw [hc, Option.some.injEq, Option.some.injEq, Node.file.injEq]
  · rename_i hno
    constructor
    · intro h
      cases h
    · intro h
      exact absurd h (hno contents)

theorem isDirectory_iff {t : Tree} {p : Path} :
    t.isDirectory p = true ↔ t.node? p = some .directory := by
  rw [isDirectory, beq_iff_eq]

theorem node?_dropLast {t : Tree} {p : Path} (h : t.node? p = some .directory) :
    t.node? p.dropLast = some .directory := by
  by_cases hd : p.dropLast = []
  · rw [hd]
    rfl
  · have hp : p ≠ [] := by
      intro he
      exact hd (by rw [he]; rfl)
    exact (node?_eq_some hd).2 ((t.closed _ ((node?_eq_some hp).1 h)).2 hd)

/-! ## Files below a directory -/

theorem mem_filesBelow {t : Tree} {p r : Path} {contents : ByteArray} :
    (r, contents) ∈ t.filesBelow p ↔ t.file? (p ++ r) = some contents := by
  rw [filesBelow, List.mem_filterMap, file?_eq_some]
  constructor
  · intro ⟨(q, n), hmem, h⟩
    cases hq : p.isPrefixOf? q with
    | none => simp [hq] at h
    | some rest =>
      cases n with
      | directory => simp [hq] at h
      | file c =>
        simp only [hq, Option.some.injEq, Prod.mk.injEq] at h
        obtain ⟨rfl, rfl⟩ := h
        rwa [← isPrefixOf?_eq_some.1 hq]
  · intro hmem
    refine ⟨_, hmem, ?_⟩
    have hq : p.isPrefixOf? (p ++ r) = some r := isPrefixOf?_eq_some.2 rfl
    simp [hq]

theorem mem_directoriesBelow {t : Tree} {p r : Path} :
    r ∈ t.directoriesBelow p ↔ r ≠ [] ∧ t.node? (p ++ r) = some .directory := by
  rw [directoriesBelow, List.mem_filterMap]
  constructor
  · intro ⟨(q, n), hmem, h⟩
    dsimp only at h
    split at h
    · rename_i name rest hq
      obtain rfl := Option.some.inj h
      refine ⟨List.cons_ne_nil _ _, (node?_eq_some (by simp)).2 ?_⟩
      rwa [← isPrefixOf?_eq_some.1 hq]
    · cases h
  · intro ⟨hne, hnode⟩
    refine ⟨_, (node?_eq_some (by simp [hne])).1 hnode, ?_⟩
    have hq : p.isPrefixOf? (p ++ r) = some r := isPrefixOf?_eq_some.2 rfl
    obtain ⟨name, rest, rfl⟩ := List.exists_cons_of_ne_nil hne
    simp [hq]

theorem nodup_filesBelow (t : Tree) (p : Path) : ((t.filesBelow p).map (·.1)).Nodup := by
  have hnodup := t.nodup
  rw [List.Nodup, List.pairwise_map] at hnodup ⊢
  refine hnodup.filterMap _ ?_
  intro (q, n) (q', n') hne (r, c) hr (r', c') hr' he
  cases hq : p.isPrefixOf? q with
  | none => simp [hq] at hr
  | some rest =>
    cases hq' : p.isPrefixOf? q' with
    | none => simp [hq'] at hr'
    | some rest' =>
      refine hne ?_
      cases n with
      | directory => simp [hq] at hr
      | file _ =>
        cases n' with
        | directory => simp [hq'] at hr'
        | file _ =>
          simp only [hq, Option.some.injEq, Prod.mk.injEq] at hr
          simp only [hq', Option.some.injEq, Prod.mk.injEq] at hr'
          have hrest : rest = rest' := hr.1.trans (he.trans hr'.1.symm)
          change q = q'
          rw [isPrefixOf?_eq_some.1 hq, isPrefixOf?_eq_some.1 hq', hrest]

/-! ## One entry -/

theorem node?_put {t t' : Tree} {p : Path} {n : Node} (h : t.put? p n = some t') :
    p ≠ [] ∧ t.node? p = none ∧ ∀ q, t'.node? q = if q = p then some n else t.node? q := by
  by_cases hput : p ≠ [] ∧ p ∉ t.entries.map (·.1) ∧
      (p.dropLast ≠ [] → (p.dropLast, Node.directory) ∈ t.entries) ∧ p.getLast?.all isShort
  · rw [put?, dif_pos hput] at h
    have hp : p ≠ [] := hput.1
    have hnew : p ∉ t.entries.map (·.1) := hput.2.1
    cases h
    have hnone : t.entries.lookup p = none := by
      rw [List.lookup_eq_none_iff]
      intro e he
      rw [bne_iff_ne]
      intro hpe
      exact hnew (hpe ▸ List.mem_map_of_mem he)
    refine ⟨hp, by rw [node?, if_neg hp, hnone], fun q => ?_⟩
    by_cases hq : q = []
    · rw [node?, if_pos hq, node?, if_pos hq, if_neg]
      exact fun he => hp (he.symm.trans hq)
    · rw [node?, if_neg hq, node?, if_neg hq, List.lookup_append]
      by_cases he : q = p
      · rw [if_pos he, he, hnone, Option.none_or]
        exact List.lookup_cons_self
      · rw [if_neg he, List.lookup_cons, beq_eq_false_iff_ne.2 he]
        simp
  · rw [put?, dif_neg hput] at h
    cases h

theorem node?_overwrite {t : Tree} {p : Path} {old : ByteArray}
    (h : t.node? p = some (.file old)) (contents : ByteArray) (q : Path) :
    (t.overwrite p contents).node? q = if q = p then some (.file contents) else t.node? q := by
  have hmem := node?_eq_file.1 h
  have hp : p ≠ [] := (t.closed _ hmem).1
  by_cases hq : q = []
  · rw [node?, if_pos hq, node?, if_pos hq, if_neg]
    exact fun he => hp (he.symm.trans hq)
  · by_cases he : q = p
    · rw [if_pos he, he, node?_eq_some hp]
      refine List.mem_map.2 ⟨_, hmem, ?_⟩
      rw [replaced, if_pos rfl]
    · rw [if_neg he, node?, if_neg hq, node?, if_neg hq]
      have hlookup : ∀ es : List (Path × Node),
          (es.map (replaced p contents)).lookup q = es.lookup q := by
        intro es
        induction es with
        | nil => rfl
        | cons e es ih =>
          obtain ⟨r, n⟩ := e
          rw [List.map_cons]
          by_cases hr : q = r
          · have hsame : replaced p contents (r, n) = (r, n) := by
              cases n with
              | directory => rfl
              | file c => exact if_neg fun hrp => he (hr.trans hrp)
            rw [hsame, hr, List.lookup_cons_self, List.lookup_cons_self]
          · have hfst : (replaced p contents (r, n)).1 = r := replaced_fst ..
            rw [List.lookup_cons, List.lookup_cons, hfst, beq_eq_false_iff_ne.2 hr]
            exact ih
      exact hlookup _

theorem node?_writeFile {t t' : Tree} {p : Path} {contents : ByteArray}
    (h : t.writeFile? p contents = some t') :
    t.node? p ≠ some .directory ∧
      ∀ q, t'.node? q = if q = p then some (.file contents) else t.node? q := by
  rw [writeFile?] at h
  cases hn : t.node? p with
  | none =>
    rw [hn] at h
    exact ⟨by simp, (node?_put h).2.2⟩
  | some n =>
    cases n with
    | directory =>
      rw [hn] at h
      cases h
    | file old =>
      rw [hn] at h
      cases h
      exact ⟨by simp, node?_overwrite hn contents⟩

/-! ## Trees that grow -/

/-- Whatever stands in the first tree stands in the second one, though a file may have other
contents there. -/
structure Extends (t t' : Tree) : Prop where
  directories : ∀ p, t.node? p = some .directory → t'.node? p = some .directory
  present : ∀ p, (t.node? p).isSome → (t'.node? p).isSome

/-- Two trees have the same files with the same contents. -/
def SameFiles (t t' : Tree) : Prop := ∀ p, t'.file? p = t.file? p

theorem Extends.refl (t : Tree) : t.Extends t := ⟨fun _ h => h, fun _ h => h⟩

theorem Extends.trans {t u v : Tree} (h : t.Extends u) (h' : u.Extends v) : t.Extends v :=
  ⟨fun p hp => h'.directories p (h.directories p hp), fun p hp => h'.present p (h.present p hp)⟩

theorem SameFiles.refl (t : Tree) : t.SameFiles t := fun _ => rfl

theorem SameFiles.trans {t u v : Tree} (h : t.SameFiles u) (h' : u.SameFiles v) : t.SameFiles v :=
  fun p => (h' p).trans (h p)

theorem extends_put {t t' : Tree} {p : Path} {n : Node} (h : t.put? p n = some t') :
    t.Extends t' := by
  obtain ⟨-, hnone, hnode⟩ := node?_put h
  constructor
  · intro q hq
    rw [hnode, if_neg, hq]
    intro he
    rw [he, hnone] at hq
    cases hq
  · intro q hq
    rw [hnode]
    split
    · rfl
    · exact hq

theorem sameFiles_put {t t' : Tree} {p : Path} (h : t.put? p .directory = some t') :
    t.SameFiles t' := by
  obtain ⟨-, hnone, hnode⟩ := node?_put h
  intro q
  rw [file?, file?, hnode]
  by_cases hq : q = p
  · rw [if_pos hq, hq, hnone]
  · rw [if_neg hq]

theorem extends_writeFile {t t' : Tree} {p : Path} {contents : ByteArray}
    (h : t.writeFile? p contents = some t') : t.Extends t' := by
  obtain ⟨hne, hnode⟩ := node?_writeFile h
  constructor
  · intro q hq
    rw [hnode, if_neg, hq]
    intro he
    exact hne (he ▸ hq)
  · intro q hq
    rw [hnode]
    split
    · rfl
    · exact hq

/-! ## Walking -/

/-- What the first name of a path does: it stays, goes up or goes down. -/
theorem walk?_cons_eq_some {t : Tree} {p q : Path} {name : String} {rest : List String} :
    t.walk? p (name :: rest) = some q ↔ t.node? p = some .directory ∧
      ((name = "" ∨ name = ".") ∧ t.walk? p rest = some q ∨
        name = ".." ∧ p ≠ [] ∧ t.walk? p.dropLast rest = some q ∨
        ¬(name = "" ∨ name = ".") ∧ name ≠ ".." ∧ (t.node? (p ++ [name])).isSome ∧
          t.walk? (p ++ [name]) rest = some q) := by
  rw [walk?]
  by_cases hd : t.isDirectory p = true
  · simp only [hd, isDirectory_iff.1 hd, Bool.not_true, Bool.false_eq_true, if_false, true_and]
    by_cases hstay : name = "" ∨ name = "."
    · have hup : name ≠ ".." := by
        intro he
        rw [he] at hstay
        exact absurd hstay (by decide)
      simp [hstay, hup]
    · by_cases hup : name = ".."
      · by_cases hp : p = []
        · simp [hup, hp]
        · simp [hup, hp]
      · by_cases hsome : (t.node? (p ++ [name])).isSome
        · simp [hstay, hup, hsome]
        · simp [hstay, hup, hsome]
  · have hno : t.node? p ≠ some .directory := fun h => hd (isDirectory_iff.2 h)
    simp [hd, hno]

theorem walk?_of_extends {t t' : Tree} (h : t.Extends t') {p q : Path} {names : List String}
    (hw : t.walk? p names = some q) : t'.walk? p names = some q := by
  induction names generalizing p with
  | nil => exact hw
  | cons name rest ih =>
    rw [walk?_cons_eq_some] at hw ⊢
    obtain ⟨hd, hnext⟩ := hw
    refine ⟨h.directories p hd, ?_⟩
    rcases hnext with ⟨hstay, hrest⟩ | ⟨hup, hp, hrest⟩ | ⟨hstay, hup, hsome, hrest⟩
    · exact Or.inl ⟨hstay, ih hrest⟩
    · exact Or.inr (Or.inl ⟨hup, hp, ih hrest⟩)
    · exact Or.inr (Or.inr ⟨hstay, hup, h.present _ hsome, ih hrest⟩)

theorem walk?_append (t : Tree) (p : Path) (names more : List String) :
    t.walk? p (names ++ more) = (t.walk? p names).bind fun q => t.walk? q more := by
  induction names generalizing p with
  | nil => rfl
  | cons name rest ih =>
    rw [List.cons_append, walk?, walk?]
    split
    · rfl
    · split
      · exact ih p
      · split
        · split
          · rfl
          · exact ih _
        · split
          · exact ih _
          · rfl

/-- A name that a path goes down to. -/
def IsOrdinary (name : String) : Prop :=
  name ≠ "" ∧ name ≠ "." ∧ name ≠ ".." ∧ '/' ∉ name.toList

theorem walk?_ordinary {t : Tree} {p q : Path} {names : List String}
    (h : ∀ name ∈ names, IsOrdinary name) (hw : t.walk? p names = some q) : q = p ++ names := by
  induction names generalizing p with
  | nil =>
    cases hw
    rw [List.append_nil]
  | cons name rest ih =>
    obtain ⟨hempty, hdot, hup, -⟩ := h name List.mem_cons_self
    obtain ⟨-, hnext⟩ := walk?_cons_eq_some.1 hw
    rcases hnext with ⟨hstay, -⟩ | ⟨he, -⟩ | ⟨-, -, -, hrest⟩
    · rcases hstay with he | he
      · exact absurd he hempty
      · exact absurd he hdot
    · exact absurd he hup
    · rw [ih (fun n hn => h n (List.mem_cons_of_mem _ hn)) hrest, List.append_assoc]
      rfl

theorem walk?_stay (t : Tree) (p : Path) :
    t.walk? p [""] = if t.isDirectory p then some p else none := by
  rw [walk?]
  cases t.isDirectory p <;> simp [walk?]

/-! ## Making directories -/

/-- Directories have been made along the names, as far as it went. `r`: where the names lead, if
nothing was in the way. -/
structure MadeAlong (t t' : Tree) (p : Path) (names : List String) (r : Option Path) : Prop where
  grown : t.Extends t'
  sameFiles : t.SameFiles t'
  leads : t.node? p = some .directory → ∀ q, r = some q →
    t'.walk? p names = some q ∧ t'.node? q = some .directory

theorem madeAlong_nil (t : Tree) (p : Path) : MadeAlong t t p [] (some p) := by
  refine ⟨Extends.refl t, SameFiles.refl t, fun hd q hq => ?_⟩
  cases hq
  exact ⟨rfl, hd⟩

theorem madeAlong_stop (t : Tree) (p : Path) (names : List String) : MadeAlong t t p names none :=
  ⟨Extends.refl t, SameFiles.refl t, by simp⟩

section

variable {t u t' : Tree} {p : Path} {name : String} {rest : List String} {r : Option Path}

theorem madeAlong_stay (hstay : name = "" ∨ name = ".") (h : MadeAlong t t' p rest r) :
    MadeAlong t t' p (name :: rest) r := by
  refine ⟨h.grown, h.sameFiles, fun hd q hq => ?_⟩
  obtain ⟨hwalk, hq'⟩ := h.leads hd q hq
  exact ⟨walk?_cons_eq_some.2 ⟨h.grown.directories p hd, Or.inl ⟨hstay, hwalk⟩⟩, hq'⟩

theorem madeAlong_up (hp : p ≠ []) (h : MadeAlong t t' p.dropLast rest r) :
    MadeAlong t t' p (".." :: rest) r := by
  refine ⟨h.grown, h.sameFiles, fun hd q hq => ?_⟩
  obtain ⟨hwalk, hq'⟩ := h.leads (node?_dropLast hd) q hq
  exact ⟨walk?_cons_eq_some.2 ⟨h.grown.directories p hd, Or.inr (Or.inl ⟨rfl, hp, hwalk⟩)⟩, hq'⟩

/-- The directory below stands in the tree `u`: it was there or has just been made. -/
theorem madeAlong_down (hstay : ¬(name = "" ∨ name = ".")) (hup : name ≠ "..")
    (hu : t.Extends u) (hsame : t.SameFiles u) (hdir : u.node? (p ++ [name]) = some .directory)
    (h : MadeAlong u t' (p ++ [name]) rest r) : MadeAlong t t' p (name :: rest) r := by
  refine ⟨hu.trans h.grown, hsame.trans h.sameFiles, fun hd q hq => ?_⟩
  obtain ⟨hwalk, hq'⟩ := h.leads hdir q hq
  have hsome : (t'.node? (p ++ [name])).isSome := by
    rw [h.grown.directories _ hdir]
    rfl
  have hd' := h.grown.directories p (hu.directories p hd)
  exact ⟨walk?_cons_eq_some.2 ⟨hd', Or.inr (Or.inr ⟨hstay, hup, hsome, hwalk⟩)⟩, hq'⟩

end

theorem makeAlong_spec {t t' : Tree} {p : Path} {names : List String} {r : Option Path}
    (h : t.makeAlong p names = (t', r)) : MadeAlong t t' p names r := by
  induction names generalizing t p with
  | nil =>
    cases h
    exact madeAlong_nil t' p
  | cons name rest ih =>
    rw [makeAlong] at h
    by_cases hstay : name = "" ∨ name = "."
    · rw [if_pos hstay] at h
      exact madeAlong_stay hstay (ih h)
    · rw [if_neg hstay] at h
      by_cases hup : name = ".."
      · rw [if_pos hup] at h
        by_cases hp : p = []
        · rw [if_pos hp] at h
          cases h
          exact madeAlong_stop t' p _
        · rw [if_neg hp] at h
          rw [hup]
          exact madeAlong_up hp (ih h)
      · rw [if_neg hup] at h
        cases hn : t.node? (p ++ [name]) with
        | none =>
          rw [hn] at h
          cases hput : t.put? (p ++ [name]) .directory with
          | none =>
            simp only [hput] at h
            cases h
            exact madeAlong_stop t' p _
          | some u =>
            simp only [hput] at h
            have hdir : u.node? (p ++ [name]) = some .directory := by
              rw [(node?_put hput).2.2, if_pos rfl]
            exact madeAlong_down hstay hup (extends_put hput) (sameFiles_put hput) hdir (ih h)
        | some n =>
          rw [hn] at h
          cases n with
          | directory =>
            exact madeAlong_down hstay hup (Extends.refl t) (SameFiles.refl t) hn (ih h)
          | file contents =>
            cases h
            exact madeAlong_stop t' p _

end PackBindings.Files.Tree
