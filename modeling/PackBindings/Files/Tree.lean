/-
  PackBindings.Files.Tree — a tree of files as a value.

  A tree is the list of everything in it, each with its path from the top: no path
  occurs twice, and what stands in a directory has that directory in the list as well
  (`Tree.nodup`, `Tree.closed`). The order of the list means nothing; it is the order in
  which a listing may come.

  Paths as they are spelled go from name to name, and every name but the last must be
  that of a directory: `..` goes up, an empty name or a single dot stays, so a path that
  ends in a slash leads to directories only (`walk?`). Directories are made where they are
  missing on the way (`makeDirectories`).

  How long names and paths may be is up to the system that has the files. The limits here
  are those of Linux: nothing has a name of more than 255 bytes (`NAME_MAX`), and a spelled
  path of more than 4095 leads nowhere (`PATH_MAX`, which counts the zero at the end).
-/

namespace PackBindings.Files

abbrev Path := List String

/-- How many bytes a name may have on Linux: its `NAME_MAX`. -/
def nameLimit : Nat := 255

/-- How many bytes a spelled path may have on Linux: its `PATH_MAX` of 4096, less one for the zero
that ends a path there. -/
def pathLimit : Nat := 4095

inductive Node where
  | directory
  | file (contents : ByteArray)

instance : DecidableEq Node := fun
  | .directory, .directory => isTrue rfl
  | .directory, .file _ => isFalse Node.noConfusion
  | .file _, .directory => isFalse Node.noConfusion
  | .file a, .file b => decidable_of_iff (a.data = b.data) (by rw [Node.file.injEq, ByteArray.ext_iff])

structure Tree where
  entries : List (Path × Node)
  nodup : (entries.map (·.1)).Nodup
  closed : ∀ e ∈ entries, e.1 ≠ [] ∧ (e.1.dropLast ≠ [] → (e.1.dropLast, Node.directory) ∈ entries)

namespace Tree

def empty : Tree := ⟨[], List.nodup_nil, by simp⟩

instance : Inhabited Tree := ⟨empty⟩

/-- What stands at a path; the top is a directory. -/
def node? (t : Tree) (p : Path) : Option Node :=
  if p = [] then some .directory else t.entries.lookup p

def isDirectory (t : Tree) (p : Path) : Bool := t.node? p == some .directory

def isFile (t : Tree) (p : Path) : Bool := (t.node? p).any (· != .directory)

/-! ## Looking into directories -/

/-- The names of the directories that stand directly in a directory. -/
def directoriesIn (t : Tree) (p : Path) : List String :=
  t.entries.filterMap fun (q, n) =>
    match p.isPrefixOf? q, n with
    | some [name], .directory => some name
    | _, _ => none

/-- The names of everything that stands directly in a directory. -/
def namesIn (t : Tree) (p : Path) : List String :=
  t.entries.filterMap fun (q, _) =>
    match p.isPrefixOf? q with
    | some [name] => some name
    | _ => none

/-- The files at any depth below a directory, with their paths from there. -/
def filesBelow (t : Tree) (p : Path) : List (Path × ByteArray) :=
  t.entries.filterMap fun (q, n) =>
    match p.isPrefixOf? q, n with
    | some rest, .file contents => some (rest, contents)
    | _, _ => none

/-- The directories at any depth below a directory, with their paths from there. -/
def directoriesBelow (t : Tree) (p : Path) : List Path :=
  t.entries.filterMap fun (q, n) =>
    match p.isPrefixOf? q, n with
    | some (name :: rest), .directory => some (name :: rest)
    | _, _ => none

/-- The directories below a directory in which nothing stands, with their paths from there. -/
def emptyBelow (t : Tree) (p : Path) : List Path :=
  (([], Node.directory) :: t.entries).filterMap fun (q, n) =>
    match p.isPrefixOf? q, n with
    | some rest, .directory => if t.namesIn q = [] then some rest else none
    | _, _ => none

/-! ## Changing a tree -/

theorem nodup_concat {es : List (Path × Node)} {p : Path} {n : Node}
    (h : (es.map (·.1)).Nodup) (hp : p ∉ es.map (·.1)) : ((es ++ [(p, n)]).map (·.1)).Nodup := by
  rw [List.map_append, List.nodup_append]
  refine ⟨h, by simp, ?_⟩
  intro q hq r hr hqr
  simp only [List.map_cons, List.map_nil, List.mem_singleton] at hr
  exact hp (hr ▸ hqr ▸ hq)

/-- A name that can be given to a file or directory. -/
def isShort (name : String) : Bool := name.utf8ByteSize ≤ nameLimit

/-- A new entry, where its directory is there and nothing stands in its place. -/
def put? (t : Tree) (p : Path) (n : Node) : Option Tree :=
  if h : p ≠ [] ∧ p ∉ t.entries.map (·.1) ∧
      (p.dropLast ≠ [] → (p.dropLast, Node.directory) ∈ t.entries) ∧ p.getLast?.all isShort then
    some ⟨t.entries ++ [(p, n)], nodup_concat t.nodup h.2.1, by
      intro e he
      rcases List.mem_append.1 he with he | he
      · exact ⟨(t.closed e he).1, fun hd => List.mem_append_left _ ((t.closed e he).2 hd)⟩
      · rw [List.mem_singleton] at he
        subst he
        exact ⟨h.1, fun hd => List.mem_append_left _ (h.2.2.1 hd)⟩⟩
  else none

/-- New contents for the file at a path; directories stay as they are. -/
def replaced (p : Path) (contents : ByteArray) (e : Path × Node) : Path × Node :=
  match e.2 with
  | .directory => e
  | .file _ => if e.1 = p then (p, .file contents) else e

theorem replaced_fst (p : Path) (contents : ByteArray) (e : Path × Node) :
    (replaced p contents e).1 = e.1 := by
  simp only [replaced]
  split
  · rfl
  · split <;> simp_all

theorem replaced_directory (p : Path) (contents : ByteArray) (q : Path) :
    replaced p contents (q, .directory) = (q, .directory) := rfl

def overwrite (t : Tree) (p : Path) (contents : ByteArray) : Tree where
  entries := t.entries.map (replaced p contents)
  nodup := by
    have h : ((t.entries.map (replaced p contents)).map (·.1)) = t.entries.map (·.1) := by
      rw [List.map_map]
      exact List.map_congr_left fun e _ => replaced_fst p contents e
    rw [h]
    exact t.nodup
  closed := by
    intro e he
    obtain ⟨d, hd, rfl⟩ := List.mem_map.1 he
    rw [replaced_fst]
    refine ⟨(t.closed d hd).1, fun hp => ?_⟩
    have := List.mem_map_of_mem (f := replaced p contents) ((t.closed d hd).2 hp)
    rwa [replaced_directory] at this

/-- The file at a path has these contents from now on. -/
def writeFile? (t : Tree) (p : Path) (contents : ByteArray) : Option Tree :=
  match t.node? p with
  | some .directory => none
  | some (.file _) => some (t.overwrite p contents)
  | none => t.put? p (.file contents)

/-- A tree without what stands at a path and below it. -/
def remove (t : Tree) (p : Path) : Tree where
  entries := t.entries.filter fun e => !p.isPrefixOf e.1
  nodup := (List.filter_sublist.map _).nodup t.nodup
  closed := by
    intro e he
    obtain ⟨he, hp⟩ := List.mem_filter.1 he
    refine ⟨(t.closed e he).1, fun hd => List.mem_filter.2 ⟨(t.closed e he).2 hd, ?_⟩⟩
    simp only [Bool.not_eq_true', Bool.eq_false_iff, ne_eq, List.isPrefixOf_iff_prefix] at hp ⊢
    exact fun h => hp (h.trans (List.dropLast_prefix _))

/-! ## Spelled paths -/

/-- Where the names of a path lead from a directory. -/
def walk? (t : Tree) (p : Path) : List String → Option Path
  | [] => some p
  | name :: rest =>
    if !t.isDirectory p then none
    else if name = "" ∨ name = "." then t.walk? p rest
    else if name = ".." then
      if p = [] then none else t.walk? p.dropLast rest
    else if (t.node? (p ++ [name])).isSome then t.walk? (p ++ [name]) rest
    else none

/-- A path that is not too long to lead somewhere. -/
def isInReach (path : String) : Bool := path.utf8ByteSize ≤ pathLimit

/-- The names of a spelled path, which go from the top of a tree. A path from the root of all files
leads out of any tree, so it has none; nor has one of no length or of too much, or with a zero
character. -/
def pieces? (path : String) : Option (List String) :=
  if path = "" ∨ !isInReach path ∨ path.toList.head? = some '/' ∨
      path.toList.contains '\x00' then none
  else some ((path.toList.splitOn '/').map String.ofList)

def locate? (t : Tree) (path : String) : Option Path := (pieces? path).bind (t.walk? [])

/-- Makes the directories that are missing on the way along the names. The path is where they
lead, unless a file is in the way; what was made before it stays. -/
def makeAlong (t : Tree) (p : Path) : List String → Tree × Option Path
  | [] => (t, some p)
  | name :: rest =>
    if name = "" ∨ name = "." then t.makeAlong p rest
    else if name = ".." then
      if p = [] then (t, none) else t.makeAlong p.dropLast rest
    else
      match t.node? (p ++ [name]) with
      | some .directory => t.makeAlong (p ++ [name]) rest
      | some (.file _) => (t, none)
      | none =>
        match t.put? (p ++ [name]) .directory with
        | some t' => t'.makeAlong (p ++ [name]) rest
        | none => (t, none)

/-- The names of a path that ends in a single dot, up to its last name and without it. -/
def beforeDot? (names : List String) : Option (List String) :=
  if (names.reverse.dropWhile (· = "")).head? = some "." then
    some ((names.reverse.dropWhile fun n => n = "" || n = ".").drop 1).reverse
  else none

/-- Makes a spelled path a directory; one that ends in a single dot has to be there already. -/
def makeDirectories (t : Tree) (path : String) : Tree × Bool :=
  if path = "" then (t, true)
  else
    match pieces? path with
    | none => (t, false)
    | some names =>
      match beforeDot? names with
      | none => let (t', p) := t.makeAlong [] names; (t', p.isSome)
      | some parents =>
        let (t', _) := t.makeAlong [] parents
        (t', (t'.locate? path).any t'.isDirectory)

/-- Writes the file at a spelled path, whose directory must be there. -/
def write? (t : Tree) (path : String) (contents : ByteArray) : Option Tree :=
  (pieces? path).bind fun names =>
    match names.getLast?, t.walk? [] names.dropLast with
    | some name, some p =>
      if name = "" ∨ name = "." ∨ name = ".." then none
      else if t.isDirectory p then t.writeFile? (p ++ [name]) contents
      else none
    | _, _ => none

/-! ## Part of a tree -/

/-- The entries below a directory, seen from there. -/
def entriesBelow (t : Tree) (p : Path) : List (Path × Node) :=
  t.entries.filterMap fun (q, n) =>
    match p.isPrefixOf? q with
    | some (name :: rest) => some (name :: rest, n)
    | _ => none

theorem isPrefixOf?_eq_some {p q r : Path} : p.isPrefixOf? q = some r ↔ q = p ++ r := by
  induction p generalizing q with
  | nil =>
    show some q = some r ↔ q = r
    simp
  | cons a p ih =>
    cases q with
    | nil =>
      show none = some r ↔ [] = a :: (p ++ r)
      simp
    | cons b q =>
      show (if (a == b) = true then p.isPrefixOf? q else none) = some r ↔ b :: q = a :: (p ++ r)
      rw [List.cons.injEq]
      split
      · rename_i h
        simp only [beq_iff_eq] at h
        simp [ih, h]
      · rename_i h
        simp only [beq_iff_eq] at h
        simp [Ne.symm h]

theorem mem_entriesBelow {t : Tree} {p q : Path} {n : Node} :
    (q, n) ∈ t.entriesBelow p ↔ q ≠ [] ∧ (p ++ q, n) ∈ t.entries := by
  simp only [entriesBelow, List.mem_filterMap, Prod.exists]
  constructor
  · rintro ⟨r, m, hm, h⟩
    split at h
    · rename_i name rest hr
      simp only [Option.some.injEq, Prod.mk.injEq] at h
      obtain ⟨rfl, rfl⟩ := h
      rw [isPrefixOf?_eq_some] at hr
      exact ⟨by simp, hr ▸ hm⟩
    · simp at h
  · rintro ⟨hq, hm⟩
    refine ⟨p ++ q, n, hm, ?_⟩
    have h : p.isPrefixOf? (p ++ q) = some q := isPrefixOf?_eq_some.2 rfl
    cases q with
    | nil => exact absurd rfl hq
    | cons name rest => simp [h]

theorem nodup_entriesBelow (t : Tree) (p : Path) : ((t.entriesBelow p).map (·.1)).Nodup := by
  have h := t.nodup
  simp only [entriesBelow]
  generalize t.entries = es at h
  induction es with
  | nil => simp
  | cons e es ih =>
    simp only [List.map_cons, List.nodup_cons] at h
    rw [List.filterMap_cons]
    split
    · exact ih h.2
    · rename_i x hx
      rw [List.map_cons, List.nodup_cons]
      refine ⟨fun hm => h.1 ?_, ih h.2⟩
      obtain ⟨y, hy, hyx⟩ := List.mem_map.1 hm
      obtain ⟨z, hz, hzy⟩ := List.mem_filterMap.1 hy
      split at hx
      · rename_i a as ha
        split at hzy
        · rename_i b bs hb
          rw [isPrefixOf?_eq_some] at ha hb
          simp only [Option.some.injEq] at hx hzy
          subst hx hzy
          simp only at hyx
          exact List.mem_map.2 ⟨z, hz, by rw [hb, ha, hyx]⟩
        · simp at hzy
      · simp at hx

def subtree (t : Tree) (p : Path) : Tree where
  entries := t.entriesBelow p
  nodup := t.nodup_entriesBelow p
  closed := by
    rintro ⟨q, n⟩ he
    rw [mem_entriesBelow] at he
    refine ⟨he.1, fun hd => mem_entriesBelow.2 ⟨hd, ?_⟩⟩
    have h := (t.closed _ he.2).2
    simp only [List.dropLast_append_of_ne_nil he.1] at h
    exact h (by simp [hd])

end Tree

/-- What stands at a path. -/
inductive Found where
  | nothing
  | file (contents : ByteArray)
  | directory (tree : Tree)

def Tree.find (t : Tree) (path : String) : Found :=
  match t.locate? path with
  | none => .nothing
  | some p =>
    match t.node? p with
    | none => .nothing
    | some (.file contents) => .file contents
    | some .directory => .directory (t.subtree p)

/-- The tree that is found; without a directory there is nothing in it. -/
def Found.tree : Found → Tree
  | directory t => t
  | _ => .empty

/-- The tree that paths lead into when they are put after this one; after a path of no length
they start at the top. -/
def Tree.base (t : Tree) (path : String) : Tree := if path = "" then t else (t.find path).tree

end PackBindings.Files
