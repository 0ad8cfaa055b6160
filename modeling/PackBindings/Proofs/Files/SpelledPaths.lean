/-
  PackBindings.Proofs.Files.SpelledPaths — where spelled paths lead.

  A path that is spelled by putting names after another one leads where that one leads and
  then down the names (`follow?_foldl`). It makes no difference whether the first path ends
  in a slash.

  Proved, for every tree:
  - `makeDirectories_spec`: making a path a directory changes no file, and on success the
    path leads to a directory.
  - `write?_spec`: on success, there is one file with the given contents where the path
    leads, and everything else is as it was.
  - `write?_join`: the same for a name that is put after a path.
  - `isInReach_along` / `isInReach_along_eq_false`: names down a path keep it in reach or do not,
    by their lengths.
  - `locate?_roundabout`: single dots in front of a name do not matter, while the path is
    in reach.
-/

import PackBindings.Files.Name
import PackBindings.Files.Place
import PackBindings.Proofs.Files.Growth

namespace PackBindings.Files

/-- The names between the slashes of a path, empty ones included. -/
def spelledNames (path : String) : List String := (path.toList.splitOn '/').map String.ofList

theorem spelledNames_intercalate {names : List String} (hne : names ≠ [])
    (h : ∀ name ∈ names, Tree.IsOrdinary name) : spelledNames ("/".intercalate names) = names := by
  rw [spelledNames, splitOn_toList_intercalate rfl hne fun name hmem => (h name hmem).2.2.2,
    List.map_map]
  simp

/-- Up to where the names of a path lead before the last one is put after it. -/
theorem spelledNames_join (path : String) {name : String} (h : Tree.IsOrdinary name) :
    ∃ front, spelledNames (join path name) = front ++ [name] ∧
      (path = "" ∧ front = [] ∨
        path ≠ "" ∧ (spelledNames path = front ++ [""] ∨ spelledNames path = front)) := by
  obtain ⟨hempty, -, -, hslash⟩ := h
  have habsolute : name.toList.head? ≠ some '/' := by
    intro he
    exact hslash (List.mem_of_head? he)
  by_cases hpath : path = ""
  · refine ⟨[], ?_, Or.inl ⟨hpath, rfl⟩⟩
    rw [join, if_pos (by simp [hpath]), spelledNames, List.splitOn_eq_singleton hslash]
    simp
  · have hjoin : join path name =
        if path.toList.getLast? = some '/' then path ++ name else path ++ "/" ++ name := by
      rw [join, if_neg (by simp [hpath, habsolute])]
    rw [hjoin]
    by_cases hlast : path.toList.getLast? = some '/'
    · obtain ⟨cs, hcs⟩ := List.getLast?_eq_some_iff.1 hlast
      refine ⟨(cs.splitOn '/').map String.ofList, ?_, Or.inr ⟨hpath, Or.inl ?_⟩⟩
      · rw [if_pos hlast, spelledNames, String.toList_append, hcs, List.append_assoc,
          List.singleton_append, List.splitOn_append_cons_self, List.splitOn_eq_singleton hslash]
        simp
      · rw [spelledNames, hcs, List.splitOn_append_cons_self]
        simp
    · refine ⟨spelledNames path, ?_, Or.inr ⟨hpath, Or.inr rfl⟩⟩
      have hchars : (path ++ "/" ++ name).toList = path.toList ++ '/' :: name.toList := by simp
      rw [if_neg hlast, spelledNames, hchars, List.splitOn_append_cons_self,
        List.splitOn_eq_singleton hslash, spelledNames]
      simp

/-! ## The length of a path -/

section

variable {path name : String}

/-- A name adds a slash to a path, or none if there is one already. -/
theorem utf8ByteSize_join_le :
    (join path name).utf8ByteSize ≤ path.utf8ByteSize + 1 + name.utf8ByteSize := by
  have hslash : "/".utf8ByteSize = 1 := by decide
  unfold join
  split
  · omega
  · split
    · rw [String.utf8ByteSize_append]
      omega
    · simp [String.utf8ByteSize_append, hslash]

theorem le_utf8ByteSize_join (h : '/' ∉ name.toList) :
    path.utf8ByteSize + name.utf8ByteSize ≤ (join path name).utf8ByteSize := by
  unfold join
  split
  · rename_i hstart
    rcases Bool.or_eq_true _ _ ▸ hstart with hempty | habsolute
    · simp [of_decide_eq_true hempty]
    · exact absurd (List.mem_of_head? (of_decide_eq_true habsolute)) h
  · split
    · exact Nat.le_of_eq String.utf8ByteSize_append.symm
    · rw [String.utf8ByteSize_append, String.utf8ByteSize_append]
      omega

end

namespace Place

/-- At most a slash comes before each name. -/
theorem utf8ByteSize_along_le (here : Place) (p : Path) : (here.along p).spelled.utf8ByteSize ≤
    here.spelled.utf8ByteSize + (String.join (p.map ("/" ++ ·))).utf8ByteSize := by
  have hslash : "/".utf8ByteSize = 1 := by decide
  induction p generalizing here with
  | nil => exact Nat.le_refl _
  | cons name p ih =>
    have hname : (here.below name).spelled.utf8ByteSize ≤
        here.spelled.utf8ByteSize + 1 + name.utf8ByteSize := utf8ByteSize_join_le
    have hrest := ih (here.below name)
    rw [List.map_cons, String.join_cons, String.utf8ByteSize_append, String.utf8ByteSize_append]
    show ((here.below name).along p).spelled.utf8ByteSize ≤ _
    omega

theorem le_utf8ByteSize_along (here : Place) {p : Path} (h : ∀ name ∈ p, '/' ∉ name.toList) :
    here.spelled.utf8ByteSize + (String.join p).utf8ByteSize ≤
      (here.along p).spelled.utf8ByteSize := by
  induction p generalizing here with
  | nil => exact Nat.le_refl _
  | cons name p ih =>
    obtain ⟨hslash, hp⟩ := List.forall_mem_cons.1 h
    have hname : here.spelled.utf8ByteSize + name.utf8ByteSize ≤
        (here.below name).spelled.utf8ByteSize := le_utf8ByteSize_join hslash
    have hrest := ih (here.below name) hp
    rw [String.join_cons, String.utf8ByteSize_append]
    show _ ≤ ((here.below name).along p).spelled.utf8ByteSize
    omega

variable {here : Place} {p : Path}

theorem isInReach_along (h : here.spelled.utf8ByteSize +
    (String.join (p.map ("/" ++ ·))).utf8ByteSize ≤ pathLimit) : (here.along p).isInReach = true :=
  decide_eq_true (Nat.le_trans (utf8ByteSize_along_le here p) h)

theorem isInReach_along_eq_false (hslash : ∀ name ∈ p, '/' ∉ name.toList)
    (h : pathLimit < here.spelled.utf8ByteSize + (String.join p).utf8ByteSize) :
    (here.along p).isInReach = false :=
  decide_eq_false (Nat.not_le.2 (Nat.lt_of_lt_of_le h (le_utf8ByteSize_along here hslash)))

end Place

/-- A path that stays where it is `n` times before it goes to a name. -/
def roundabout (n : Nat) (name : String) : String := String.join (List.replicate n "./") ++ name

theorem utf8ByteSize_roundabout (n : Nat) (name : String) :
    (roundabout n name).utf8ByteSize = 2 * n + name.utf8ByteSize := by
  have hdot : "./".utf8ByteSize = 2 := by decide
  induction n with
  | zero => simp [roundabout]
  | succ n ih =>
    rw [roundabout, String.utf8ByteSize_append] at ih ⊢
    rw [List.replicate_succ, String.join_cons, String.utf8ByteSize_append, hdot]
    omega

theorem toList_roundabout_succ (n : Nat) (name : String) :
    (roundabout (n + 1) name).toList = ['.'] ++ '/' :: (roundabout n name).toList := by
  rw [roundabout, roundabout, List.replicate_succ, String.join_cons, String.append_assoc,
    String.toList_append]
  rfl

theorem spelledNames_roundabout (n : Nat) {name : String} (h : '/' ∉ name.toList) :
    spelledNames (roundabout n name) = List.replicate n "." ++ [name] := by
  induction n with
  | zero => simp [roundabout, spelledNames, List.splitOn_eq_singleton h]
  | succ n ih =>
    rw [spelledNames] at ih ⊢
    rw [toList_roundabout_succ, List.splitOn_append_cons_self,
      List.splitOn_eq_singleton (by decide), List.map_append, ih]
    rfl

theorem mem_toList_roundabout {n : Nat} {name : String} {c : Char}
    (h : c ∈ (roundabout n name).toList) : c = '.' ∨ c = '/' ∨ c ∈ name.toList := by
  induction n with
  | zero => exact Or.inr (Or.inr (by simpa [roundabout] using h))
  | succ n ih =>
    rw [toList_roundabout_succ, List.singleton_append, List.mem_cons, List.mem_cons] at h
    rcases h with h | h | h
    · exact Or.inl h
    · exact Or.inr (Or.inl h)
    · exact ih h

namespace Tree

theorem walk?_dots {t : Tree} {p : Path} (hp : t.isDirectory p = true) (n : Nat) (names : List String) :
    t.walk? p (List.replicate n "." ++ names) = t.walk? p names := by
  induction n with
  | zero => rfl
  | succ n ih =>
    rw [List.replicate_succ, List.cons_append, walk?, if_neg (by simp [hp]), if_pos (Or.inr rfl), ih]

/-- However often it stays where it is, a path leads to its name if it is in reach. -/
theorem locate?_roundabout (t : Tree) {n : Nat} {name : String} (hn : 0 < n)
    (h : '/' ∉ name.toList) (hzero : '\x00' ∉ name.toList)
    (hreach : 2 * n + name.utf8ByteSize ≤ pathLimit) :
    t.locate? (roundabout n name) = t.walk? [] [name] := by
  obtain ⟨m, rfl⟩ := Nat.exists_eq_add_one.2 hn
  have hsize := utf8ByteSize_roundabout (m + 1) name
  have hpieces : pieces? (roundabout (m + 1) name) = some (spelledNames (roundabout (m + 1) name)) := by
    rw [pieces?, if_neg, spelledNames]
    rintro (hempty | hlong | hroot | hnul)
    · rw [hempty] at hsize
      have hnone : "".utf8ByteSize = 0 := rfl
      omega
    · simp [isInReach, hsize, hreach] at hlong
    · simp [toList_roundabout_succ] at hroot
    · rcases mem_toList_roundabout (List.contains_iff_mem.1 hnul) with he | he | hmem
      · exact absurd he (by decide)
      · exact absurd he (by decide)
      · exact hzero hmem
  rw [locate?, hpieces, Option.bind_some, spelledNames_roundabout _ h, walk?_dots rfl]

/-! ## Following a path -/

/-- Where a path leads; a path of no length stays at the top. -/
def follow? (t : Tree) (path : String) : Option Path :=
  if path = "" then some [] else t.walk? [] (spelledNames path)

theorem pieces?_eq_some {path : String} {names : List String} (h : pieces? path = some names) :
    path ≠ "" ∧ names = spelledNames path := by
  rw [pieces?] at h
  split at h
  · cases h
  · rename_i hno
    cases h
    exact ⟨fun he => hno (Or.inl he), rfl⟩

/-- A path into a directory leads into the tree below it. -/
theorem base_of_locate? {t : Tree} {path : String} {p : Path} (h : t.locate? path = some p)
    (hdir : t.node? p = some .directory) : t.base path = t.subtree p := by
  obtain ⟨names, hnames, -⟩ := Option.bind_eq_some_iff.1 h
  rw [base, if_neg (pieces?_eq_some hnames).1, find, h]
  simp only [hdir]
  rfl

theorem follow?_of_locate? {t : Tree} {path : String} {q : Path} (h : t.locate? path = some q) :
    t.follow? path = some q := by
  obtain ⟨names, hnames, hwalk⟩ := Option.bind_eq_some_iff.1 h
  obtain ⟨hpath, rfl⟩ := pieces?_eq_some hnames
  rw [follow?, if_neg hpath]
  exact hwalk

theorem follow?_of_extends {t t' : Tree} (h : t.Extends t') {path : String} {q : Path}
    (hf : t.follow? path = some q) : t'.follow? path = some q := by
  rw [follow?] at hf ⊢
  split
  · rename_i hpath
    rwa [if_pos hpath] at hf
  · rename_i hpath
    rw [if_neg hpath] at hf
    exact walk?_of_extends h hf

/-- Before the last name of a path, the directory of the path is reached. -/
theorem follow?_eq_walk? (path : String) {name : String} (h : IsOrdinary name) :
    ∃ front, spelledNames (join path name) = front ++ [name] ∧ ∀ (t : Tree) (p : Path),
      t.isDirectory p = true → (t.follow? path = some p ↔ t.walk? [] front = some p) := by
  obtain ⟨front, hjoin, hfront⟩ := spelledNames_join path h
  refine ⟨front, hjoin, fun t p hp => ?_⟩
  rw [follow?]
  rcases hfront with ⟨hpath, rfl⟩ | ⟨hpath, hslash | hsame⟩
  · rw [if_pos hpath]
    rfl
  · rw [if_neg hpath, hslash, walk?_append, Option.bind_eq_some_iff]
    constructor
    · intro ⟨q, hq, hstay⟩
      rw [walk?_stay] at hstay
      split at hstay
      · cases hstay
        exact hq
      · cases hstay
    · intro hq
      exact ⟨p, hq, by rw [walk?_stay, if_pos hp]⟩
  · rw [if_neg hpath, hsame]

theorem follow?_join (t : Tree) (path : String) {name : String} (h : IsOrdinary name) :
    t.follow? (join path name) = (t.follow? path).bind fun p => t.walk? p [name] := by
  obtain ⟨front, hjoin, hsame⟩ := follow?_eq_walk? path h
  have hne : join path name ≠ "" := by
    intro he
    rw [he] at hjoin
    have hlast := congrArg List.getLast? hjoin
    have hnames : spelledNames "" = [""] := rfl
    rw [hnames, List.getLast?_concat] at hlast
    exact h.1 (Option.some.inj hlast).symm
  refine Option.ext fun q => ?_
  rw [follow?, if_neg hne, hjoin, walk?_append, Option.bind_eq_some_iff, Option.bind_eq_some_iff]
  refine exists_congr fun p => ?_
  constructor
  · intro ⟨hp, hq⟩
    exact ⟨(hsame t p (isDirectory_iff.2 (walk?_cons_eq_some.1 hq).1)).2 hp, hq⟩
  · intro ⟨hp, hq⟩
    exact ⟨(hsame t p (isDirectory_iff.2 (walk?_cons_eq_some.1 hq).1)).1 hp, hq⟩

theorem follow?_foldl (t : Tree) (path : String) {names : List String}
    (h : ∀ name ∈ names, IsOrdinary name) :
    t.follow? (names.foldl join path) = (t.follow? path).bind fun p => t.walk? p names := by
  induction names generalizing path with
  | nil => simp [walk?]
  | cons name names ih =>
    rw [List.foldl_cons, ih _ fun n hn => h n (List.mem_cons_of_mem _ hn),
      follow?_join t path (h name List.mem_cons_self), Option.bind_assoc]
    refine congrArg _ (funext fun p => ?_)
    exact (walk?_append t p [name] names).symm

/-! ## Changing the tree -/

theorem makeDirectories_spec {t t' : Tree} {path : String} (h : t.makeDirectories path = (t', true)) :
    t.Extends t' ∧ t.SameFiles t' ∧ ∃ q, t'.follow? path = some q ∧ t'.node? q = some .directory := by
  rw [makeDirectories] at h
  by_cases hpath : path = ""
  · rw [if_pos hpath] at h
    cases h
    exact ⟨Extends.refl t, SameFiles.refl t, [], by rw [follow?, if_pos hpath], rfl⟩
  · rw [if_neg hpath] at h
    cases hp : pieces? path with
    | none =>
      simp [hp] at h
    | some names =>
      simp only [hp] at h
      obtain ⟨-, rfl⟩ := pieces?_eq_some hp
      cases hb : beforeDot? (spelledNames path) with
      | none =>
        cases hm : t.makeAlong [] (spelledNames path) with
        | mk u r =>
          simp only [hb, hm] at h
          obtain ⟨rfl, hsome⟩ := Prod.mk.inj h
          obtain ⟨q, rfl⟩ := Option.isSome_iff_exists.1 hsome
          obtain ⟨hext, hfiles, hlead⟩ := makeAlong_spec hm
          obtain ⟨hwalk, hdir⟩ := hlead rfl q rfl
          exact ⟨hext, hfiles, q, by rw [follow?, if_neg hpath]; exact hwalk, hdir⟩
      | some parents =>
        cases hm : t.makeAlong [] parents with
        | mk u r =>
          simp only [hb, hm] at h
          obtain ⟨rfl, hany⟩ := Prod.mk.inj h
          obtain ⟨hext, hfiles, -⟩ := makeAlong_spec hm
          rw [Option.any_eq_true] at hany
          obtain ⟨q, hq, hdir⟩ := hany
          exact ⟨hext, hfiles, q, follow?_of_locate? hq, isDirectory_iff.1 hdir⟩

theorem write?_spec {t t' : Tree} {path : String} {contents : ByteArray}
    (h : t.write? path contents = some t') :
    ∃ front name p, pieces? path = some (front ++ [name]) ∧ (name ≠ "" ∧ name ≠ "." ∧ name ≠ "..") ∧
      t.walk? [] front = some p ∧ t.isDirectory p = true ∧
      t.writeFile? (p ++ [name]) contents = some t' := by
  obtain ⟨names, hpieces, hwrite⟩ := Option.bind_eq_some_iff.1 h
  cases hlast : names.getLast? with
  | none => simp [hlast] at hwrite
  | some name =>
    cases hwalk : t.walk? [] names.dropLast with
    | none => simp [hlast, hwalk] at hwrite
    | some p =>
      simp only [hlast, hwalk] at hwrite
      split at hwrite
      · cases hwrite
      · rename_i hname
        split at hwrite
        · rename_i hdir
          obtain ⟨front, rfl⟩ := List.getLast?_eq_some_iff.1 hlast
          rw [List.dropLast_concat] at hwalk
          exact ⟨front, name, p, hpieces, by simpa [not_or] using hname, hwalk, hdir, hwrite⟩
        · cases hwrite

/-- A file that has been written is found where it was written. -/
theorem find_of_write? {t t' : Tree} {path : String} {contents : ByteArray}
    (h : t.write? path contents = some t') : t'.find path = .file contents := by
  obtain ⟨front, name, p, hpieces, ⟨hempty, hdot, hup⟩, hwalk, hdir, hwrite⟩ := write?_spec h
  have hext := extends_writeFile hwrite
  have hnode : t'.node? (p ++ [name]) = some (.file contents) := by
    rw [(node?_writeFile hwrite).2, if_pos rfl]
  have hlocate : t'.locate? path = some (p ++ [name]) := by
    have hdir' : t'.isDirectory p = true :=
      isDirectory_iff.2 (hext.directories p (isDirectory_iff.1 hdir))
    rw [locate?, hpieces, Option.bind_some, walk?_append, walk?_of_extends hext hwalk,
      Option.bind_some, walk?, hdir']
    simp [hempty, hdot, hup, hnode, walk?]
  rw [find, hlocate]
  simp [hnode]

theorem write?_join {t t' : Tree} {path name : String} {contents : ByteArray} (h : IsOrdinary name)
    (hw : t.write? (join path name) contents = some t') :
    ∃ p, t.follow? path = some p ∧ t.Extends t' ∧
      ∀ q, t'.file? q = if q = p ++ [name] then some contents else t.file? q := by
  obtain ⟨front, hjoin, hsame⟩ := follow?_eq_walk? path h
  obtain ⟨front', name', p, hpieces, -, hwalk, hdir, hwrite⟩ := write?_spec hw
  obtain ⟨-, hnames⟩ := pieces?_eq_some hpieces
  rw [hjoin] at hnames
  obtain ⟨rfl, hlast⟩ := List.append_inj' hnames rfl
  obtain rfl : name' = name := by simpa using hlast
  refine ⟨p, (hsame t p hdir).2 hwalk, extends_writeFile hwrite, fun q => ?_⟩
  rw [file?, (node?_writeFile hwrite).2, file?]
  by_cases hq : q = p ++ [name']
  · rw [if_pos hq, if_pos hq]
  · rw [if_neg hq, if_neg hq]

end Tree

end PackBindings.Files
