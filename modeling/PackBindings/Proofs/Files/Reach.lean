/-
  PackBindings.Proofs.Files.Reach — how long the way to what stands in a tree is.

  A path goes no further than its names do: whatever is made or written at it has a way that is
  no longer than the path as it is spelled (`wayLength`). So a tree to which only short paths
  were given holds nothing that is out of reach.

  Proved, for every tree and all names:
  - `below_intercalate`: names between slashes lead where they lead one after the other.
  - `wayLength_walk?`: where names lead is no longer than they are.
  - `isWithin_makeDirectories` / `isWithin_makeAlong` / `isWithin_write?`: how long ways get in a
    tree that is changed.
-/

import PackBindings.Proofs.Component.Directories
import PackBindings.Proofs.Files.SpelledPaths

namespace PackBindings.Files

/-! ## Names between slashes -/

section

variable {name : String} (h : IsSegment name)

include h

theorem exists_chars_of_isSegment : ∃ c cs, name.toList = c :: cs ∧ c ≠ '/' := by
  obtain ⟨c, cs, hchars⟩ := List.exists_cons_of_ne_nil (by simpa using h.1 : name.toList ≠ [])
  refine ⟨c, cs, hchars, fun he => h.2 ?_⟩
  rw [hchars, he]
  exact List.mem_cons_self

theorem head?_ne_slash (rest : String) : (name ++ rest).toList.head? ≠ some '/' := by
  obtain ⟨c, cs, hchars, hc⟩ := exists_chars_of_isSegment h
  rw [String.toList_append, hchars, List.cons_append, List.head?_cons]
  exact fun he => hc (Option.some.inj he)

theorem getLast?_ne_slash (before : String) : (before ++ name).toList.getLast? ≠ some '/' := by
  have hne : name.toList ≠ [] := by simpa using h.1
  rw [String.toList_append, List.getLast?_append_of_ne_nil _ hne]
  exact fun he => h.2 (List.mem_of_getLast? he)

end

theorem join_eq {path name : String} (hpath : path ≠ "") (hname : name.toList.head? ≠ some '/') :
    join path name = if path.toList.getLast? = some '/' then path ++ name else path ++ "/" ++ name := by
  rw [join, if_neg (by simp [hpath, hname])]

/-- Two names in one go lead where they lead one after the other. -/
theorem join_append (path : String) {name rest : String} (h : IsSegment name)
    (hrest : rest.toList.head? ≠ some '/') :
    join path (name ++ "/" ++ rest) = join (join path name) rest := by
  have hname : name.toList.head? ≠ some '/' := by simpa using head?_ne_slash h ""
  have hboth : (name ++ "/" ++ rest).toList.head? ≠ some '/' := by
    rw [String.append_assoc]
    exact head?_ne_slash h _
  by_cases hpath : path = ""
  · have hlast : name.toList.getLast? ≠ some '/' := by simpa using getLast?_ne_slash h ""
    have hjoin : ∀ name, join path name = name := fun name => by simp [join, hpath]
    rw [hjoin, hjoin, join_eq h.1 hrest, if_neg hlast]
  · rw [join_eq hpath hboth, join_eq hpath hname]
    split
    · rw [join_eq (by simp [hpath]) hrest, if_neg (getLast?_ne_slash h path)]
      simp [String.append_assoc]
    · rw [join_eq (by simp [hpath]) hrest, if_neg (getLast?_ne_slash h (path ++ "/"))]
      simp [String.append_assoc]

namespace Place

theorem below_append (here : Place) {name rest : String} (h : IsSegment name)
    (hrest : rest.toList.head? ≠ some '/') :
    here.below (name ++ "/" ++ rest) = (here.below name).below rest := by
  have hchars : (name ++ "/" ++ rest).toList = name.toList ++ '/' :: rest.toList := by simp
  simp only [below]
  rw [join_append _ h hrest, hchars, List.splitOn_append_cons_self, List.map_append,
    List.append_assoc]

theorem below_intercalate (here : Place) {names : List String} (hne : names ≠ [])
    (h : ∀ name ∈ names, IsSegment name) :
    here.below ("/".intercalate names) = here.along names := by
  induction names generalizing here with
  | nil => exact absurd rfl hne
  | cons name names ih =>
    obtain ⟨hname, hnames⟩ := List.forall_mem_cons.1 h
    cases names with
    | nil =>
      rw [String.intercalate_singleton]
      rfl
    | cons next names =>
      have hnext : ("/".intercalate (next :: names)).toList.head? ≠ some '/' := by
        have hsegment := hnames next List.mem_cons_self
        cases names with
        | nil => simpa using head?_ne_slash hsegment ""
        | cons last names =>
          rw [String.intercalate_cons_cons, String.append_assoc]
          exact head?_ne_slash hsegment _
      rw [String.intercalate_cons_cons, below_append here hname hnext,
        ih (here.below name) (List.cons_ne_nil _ _) hnames]
      rfl

end Place

/-! ## The length of a way -/

/-- How many bytes names take up with a slash before each. -/
def wayLength : List String → Nat
  | [] => 0
  | name :: p => name.utf8ByteSize + 1 + wayLength p

@[simp] theorem wayLength_nil : wayLength [] = 0 := rfl

@[simp] theorem wayLength_cons (name : String) (p : List String) :
    wayLength (name :: p) = name.utf8ByteSize + 1 + wayLength p := rfl

@[simp] theorem wayLength_append (p q : List String) :
    wayLength (p ++ q) = wayLength p + wayLength q := by
  induction p with
  | nil => simp
  | cons name p ih =>
    rw [List.cons_append, wayLength_cons, wayLength_cons, ih]
    omega

theorem wayLength_le_of_sublist {p q : List String} (h : p.Sublist q) : wayLength p ≤ wayLength q := by
  induction h with
  | slnil => exact Nat.le_refl _
  | cons name _ ih =>
    rw [wayLength_cons]
    omega
  | cons_cons name _ ih =>
    rw [wayLength_cons, wayLength_cons]
    omega

theorem utf8ByteSize_join_slashed (p : Path) :
    (String.join (p.map ("/" ++ ·))).utf8ByteSize = wayLength p := by
  have hslash : "/".utf8ByteSize = 1 := by decide
  induction p with
  | nil => rfl
  | cons name p ih =>
    rw [List.map_cons, String.join_cons, String.utf8ByteSize_append, String.utf8ByteSize_append, ih,
      wayLength_cons]
    omega

theorem Place.isInReach_of_wayLength {here : Place} {p : Path}
    (h : here.spelled.utf8ByteSize + wayLength p ≤ pathLimit) : (here.along p).isInReach = true := by
  rw [← utf8ByteSize_join_slashed] at h
  exact isInReach_along h

theorem utf8ByteSize_intercalate {names : List String} (hne : names ≠ []) :
    ("/".intercalate names).utf8ByteSize + 1 = wayLength names := by
  have hslash : "/".utf8ByteSize = 1 := by decide
  induction names with
  | nil => exact absurd rfl hne
  | cons name names ih =>
    cases names with
    | nil => rw [String.intercalate_singleton, wayLength_cons, wayLength_nil]
    | cons next names =>
      rw [String.intercalate_cons_cons, wayLength_cons, ← ih (List.cons_ne_nil _ _),
        String.utf8ByteSize_append, String.utf8ByteSize_append]
      omega

/-- The names of a path are as long as the path, with one slash more. -/
theorem wayLength_spelledNames (path : String) :
    wayLength (spelledNames path) = path.utf8ByteSize + 1 := by
  have hpath : "/".intercalate (spelledNames path) = path := by
    rw [← String.toList_inj, String.toList_intercalate, spelledNames, List.map_map]
    simp [Function.comp_def]
  have hne : spelledNames path ≠ [] := by simp [spelledNames, List.splitOn_ne_nil]
  rw [← utf8ByteSize_intercalate hne, hpath]

namespace Tree

/-- No way to something in the tree is longer than that. -/
def IsWithin (t : Tree) (limit : Nat) : Prop := ∀ p n, t.node? p = some n → wayLength p ≤ limit

variable {t t' : Tree} {limit : Nat}

theorem isWithin_put {p : Path} {n : Node} (ht : t.IsWithin limit) (hp : wayLength p ≤ limit)
    (h : t.put? p n = some t') : t'.IsWithin limit := by
  intro q m hq
  rw [(node?_put h).2.2] at hq
  split at hq
  · rename_i he
    rwa [he]
  · exact ht q m hq

theorem isWithin_writeFile {p : Path} {contents : ByteArray} (ht : t.IsWithin limit)
    (hp : wayLength p ≤ limit) (h : t.writeFile? p contents = some t') : t'.IsWithin limit := by
  intro q m hq
  rw [(node?_writeFile h).2] at hq
  split at hq
  · rename_i he
    rwa [he]
  · exact ht q m hq

theorem wayLength_walk? {p q : Path} {names : List String} (h : t.walk? p names = some q) :
    wayLength q ≤ wayLength p + wayLength names := by
  induction names generalizing p with
  | nil =>
    obtain rfl := Option.some.inj h
    exact Nat.le_refl _
  | cons name rest ih =>
    have hdrop := wayLength_le_of_sublist p.dropLast_sublist
    rw [wayLength_cons]
    rcases (walk?_cons_eq_some.1 h).2 with ⟨-, hrest⟩ | ⟨-, -, hrest⟩ | ⟨-, -, -, hrest⟩
    · have hle := ih hrest
      omega
    · have hle := ih hrest
      omega
    · have hle := ih hrest
      rw [wayLength_append, wayLength_cons, wayLength_nil] at hle
      omega

theorem isWithin_makeAlong {p : Path} {names : List String} {r : Option Path}
    (h : t.makeAlong p names = (t', r)) (ht : t.IsWithin limit)
    (hlen : wayLength p + wayLength names ≤ limit) : t'.IsWithin limit := by
  induction names generalizing t p with
  | nil =>
    cases h
    exact ht
  | cons name rest ih =>
    have hdrop := wayLength_le_of_sublist p.dropLast_sublist
    have hnext : wayLength (p ++ [name]) + wayLength rest ≤ limit := by
      rw [wayLength_append, wayLength_cons, wayLength_nil]
      rw [wayLength_cons] at hlen
      omega
    rw [wayLength_cons] at hlen
    rw [makeAlong] at h
    split at h
    · exact ih h ht (by omega)
    · split at h
      · split at h
        · cases h
          exact ht
        · exact ih h ht (by omega)
      · split at h
        · exact ih h ht hnext
        · cases h
          exact ht
        · split at h
          · rename_i hput
            exact ih h (isWithin_put ht (by omega) hput) hnext
          · cases h
            exact ht

theorem sublist_beforeDot? {names parents : List String} (h : beforeDot? names = some parents) :
    parents.Sublist names := by
  unfold beforeDot? at h
  split at h
  · obtain rfl := Option.some.inj h
    rw [← List.reverse_reverse names, List.reverse_sublist, List.reverse_reverse]
    exact (List.drop_sublist _ _).trans (List.dropWhile_sublist _)
  · cases h

theorem isWithin_makeDirectories {path : String} {made : Bool}
    (h : t.makeDirectories path = (t', made)) (ht : t.IsWithin limit)
    (hlen : path.utf8ByteSize < limit) : t'.IsWithin limit := by
  unfold makeDirectories at h
  split at h
  · cases h
    exact ht
  · split at h
    · cases h
      exact ht
    · rename_i names hpieces
      have hnames : wayLength names ≤ limit := by
        rw [(pieces?_eq_some hpieces).2, wayLength_spelledNames]
        omega
      split at h
      · cases hm : t.makeAlong [] names with
        | mk u r =>
          rw [hm] at h
          cases h
          exact isWithin_makeAlong hm ht (by simpa using hnames)
      · rename_i parents hparents
        have hle := wayLength_le_of_sublist (sublist_beforeDot? hparents)
        cases hm : t.makeAlong [] parents with
        | mk u r =>
          rw [hm] at h
          cases h
          exact isWithin_makeAlong hm ht (by simp; omega)

theorem isWithin_write? {path : String} {contents : ByteArray}
    (h : t.write? path contents = some t') (ht : t.IsWithin limit)
    (hlen : path.utf8ByteSize < limit) : t'.IsWithin limit := by
  obtain ⟨front, name, p, hpieces, -, hwalk, -, hwrite⟩ := write?_spec h
  have hway := wayLength_walk? hwalk
  have hnames := wayLength_spelledNames path
  rw [← (pieces?_eq_some hpieces).2, wayLength_append] at hnames
  refine isWithin_writeFile ht ?_ hwrite
  rw [wayLength_append]
  simp only [wayLength_nil] at hway
  omega

end Tree

end PackBindings.Files
