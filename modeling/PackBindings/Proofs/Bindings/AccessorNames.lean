/-
  PackBindings.Proofs.Bindings.AccessorNames — how the accessor of a component is called.

  Components come up one after the other. When one does, the names that are taken in the
  object of its directory are those from the start and those handed out there for the
  components before (`namesBefore`).

  A component that finds its file name taken should get the suffix of its kind after it, and
  then a number (`TakesSuffix`). The second name is made anew from the file name and the
  suffix, as one text. That comes to the same where the file name has a word. Where it has
  none, nothing of the name `_0` is left, and the suffix stands alone.

  Proved, for every unit, whatever is reserved and whatever the root is called:
  - `secondName_eq`: the suffix after the file name, or alone.
  - `slots_split`: the slots of a directory up to one of its components.
  - `exists_isAccessorName`: each component gets one claim on the names taken before it, and
    its accessors are the members of that name.
  - `suffix_taken_iff`: which name that is, and when the rule holds.
-/

import PackBindings.Proofs.Bindings.RootNames
import PackBindings.Proofs.Bindings.Units
import PackBindings.Proofs.Bindings.Wishes
import PackBindings.Proofs.Kotlin.Allocation

namespace PackBindings.Kotlin

/-! ## Capitals -/

theorem toUpper_of_isUpper {c : Char} (h : c.isUpper = true) : c.toUpper = c := by
  have hval := val_toUpper c
  rw [isUpper_iff] at h
  apply Char.ext
  grind

theorem isLower_toLower_of_isUpper {c : Char} (h : c.isUpper = true) : c.toLower.isLower = true := by
  have hval := val_toLower c
  rw [isUpper_iff] at h
  rw [isLower_iff]
  grind

theorem not_isDigit_of_isLower {c : Char} (h : c.isLower = true) : ¬c.isDigit = true := by
  rw [isLower_iff] at h
  rw [isDigit_iff]
  grind

/-! ## One more word -/

theorem startedLegally_append {cs : List Char} (h : cs ≠ []) (more : List Char) :
    startedLegally (cs ++ more) = startedLegally cs ++ more := by
  obtain ⟨c, cs, rfl⟩ := List.exists_cons_of_ne_nil h
  simp only [List.cons_append, startedLegally]
  by_cases hc : c.isDigit = true
  · rw [if_pos hc, if_pos hc, List.cons_append, List.cons_append]
  · rw [if_neg hc, if_neg hc, List.cons_append]

/-- A word with a capital is put after a name as it is, if there is a name. -/
theorem camelChars_low_word (text : List Char) {word : List Char} (hne : word ≠ [])
    (hword : ∀ c ∈ word, c.isAlphanum = true) (hcapital : mapHead Char.toUpper word = word) :
    camelChars (text ++ '_' :: word) =
      if words text = [] then camelChars word else camelChars text ++ word := by
  unfold camelChars
  rw [words_append_cons text word (by decide), words_eq_singleton hne hword]
  cases hw : words text with
  | nil => rfl
  | cons first rest =>
    rw [if_neg (List.cons_ne_nil _ _)]
    have hfirst : mapHead Char.toLower first ++ (rest.map (mapHead Char.toUpper)).flatten ≠ [] := by
      have hmem : first ∈ words text := by
        rw [hw]
        exact List.mem_cons_self
      obtain ⟨c, cs, rfl⟩ := List.exists_cons_of_ne_nil (ne_nil_of_mem_words hmem)
      exact List.cons_ne_nil _ _
    rw [← startedLegally_append hfirst]
    simp [hcapital]

end PackBindings.Kotlin

namespace PackBindings.Bindings

open PackBindings.Kotlin

/-- A suffix begins with a capital. -/
theorem exists_capital (k : Kind) : ∃ c cs, k.shape.suffix.toList = c :: cs ∧ c.isUpper = true := by
  have hany : k.shape.suffix.toList.head?.any Char.isUpper = true := by cases k <;> rfl
  cases hsuffix : k.shape.suffix.toList with
  | nil =>
    rw [hsuffix] at hany
    cases hany
  | cons c cs =>
    rw [hsuffix] at hany
    exact ⟨c, cs, rfl, hany⟩

theorem mapHead_toUpper_suffix (k : Kind) :
    mapHead Char.toUpper k.shape.suffix.toList = k.shape.suffix.toList := by
  obtain ⟨c, cs, hsuffix, hupper⟩ := exists_capital k
  rw [hsuffix, mapHead, toUpper_of_isUpper hupper]

/-- A name without letters or digits is lost beside a suffix. -/
theorem secondName_eq (c : Component) : secondName c =
    if words c.location.stem.toList = [] then camel c.kind.shape.suffix
    else camel c.location.stem ++ c.kind.shape.suffix := by
  obtain ⟨hne, hword⟩ := suffix_words c.kind
  have hchars : (c.location.stem ++ "_" ++ c.kind.shape.suffix).toList =
      c.location.stem.toList ++ '_' :: c.kind.shape.suffix.toList := by simp
  rw [secondName, camel, hchars, camelChars_low_word _ hne hword (mapHead_toUpper_suffix c.kind)]
  split
  · rfl
  · rw [← String.toList_inj]
    simp [camel]

/-! ## One slot after others -/

/-- What a component gets is claimed where the names before it are taken. -/
theorem slots_split (scope : Scope) (known : List String) (before : List Placed) (c : Component)
    (after : List Placed) : ∃ rest, slots scope known (before ++ ([], c) :: after) =
      slots scope known before ++
        .accessor ((Scope.mk (((slots scope known before).map Slot.name).reverse ++ scope.taken)).claim
          (camel c.location.stem) (secondName c)).1 c :: rest := by
  induction before generalizing scope known with
  | nil => exact ⟨_, slots_own scope known c after⟩
  | cons p before ih =>
    obtain ⟨_ | ⟨segment, segments⟩, d⟩ := p
    · obtain ⟨rest, hrest⟩ := ih
        (scope.reserve (scope.claim (camel d.location.stem) (secondName d)).1) known
      refine ⟨rest, ?_⟩
      rw [List.cons_append, slots_own, slots_own, hrest]
      simp [Slot.name, Scope.reserve]
    · by_cases hk : segment ∈ known
      · rw [List.cons_append, slots_known hk, slots_known hk]
        exact ih scope known
      · obtain ⟨rest, hrest⟩ := ih (scope.reserve (scope.freshName (pascal segment))) (segment :: known)
        refine ⟨rest, ?_⟩
        rw [List.cons_append, slots_new hk, slots_new hk, hrest]
        simp [Slot.name, Scope.reserve]

theorem below_append (segment : String) (ps qs : List Placed) :
    below segment (ps ++ qs) = below segment ps ++ below segment qs := List.filterMap_append

theorem belowAll_append (dir : List String) (ps qs : List Placed) :
    belowAll dir (ps ++ qs) = belowAll dir ps ++ belowAll dir qs := by
  induction dir generalizing ps qs with
  | nil => rfl
  | cons segment dir ih => rw [belowAll, belowAll, belowAll, below_append, ih]

theorem belowAll_cons_self (dir : List String) (c : Component) (ps : List Placed) :
    belowAll dir ((dir, c) :: ps) = ([], c) :: belowAll dir ps := by
  induction dir generalizing ps with
  | nil => rfl
  | cons segment dir ih =>
    have hbelow : below segment ((segment :: dir, c) :: ps) = (dir, c) :: below segment ps := by
      simp [below]
    rw [belowAll, hbelow, ih, belowAll]

/-! ## Components of a unit -/

namespace Contents

section

variable (u : Contents) (reserved : List String) (name : String)

/-- What a directory has handed out for components, in order. -/
def slotsFor (components : List Component) (dir : List String) : List Slot :=
  slots (u.scopeAt reserved name dir) [] (belowAll dir (components.map placed))

/-- The names that are taken in a directory behind some components, the last one first. -/
def namesBefore (before : List Component) (dir : List String) : List String :=
  ((u.slotsFor reserved name before dir).map Slot.name).reverse ++ (u.scopeAt reserved name dir).taken

/-- What a component behind others is called: it is the next to get a name in its directory, and its
accessors are the members of that name. -/
structure IsAccessorName (before : List Component) (c : Component) (n : String) : Prop where
  next : ∃ rest, u.slotsFor reserved name u.components c.location.segments =
    u.slotsFor reserved name before c.location.segments ++ .accessor n c :: rest
  named : Decl.named (u.membersAt reserved name c.location.segments) n =
    accessorsOf u.imports u.owner c n
  object : ∀ package comment, (u.address reserved name c.location.segments,
    u.membersAt reserved name c.location.segments) ∈ (u.source reserved name package comment).objects

end

variable {u : Contents} {reserved : List String} {name : String}

theorem isAccessorName_of_slot {before : List Component} {c : Component} (hc : c ∈ u.components)
    {n : String} {rest : List Slot} (h : u.slotsFor reserved name u.components c.location.segments =
      u.slotsFor reserved name before c.location.segments ++ .accessor n c :: rest) :
    u.IsAccessorName reserved name before c n where
  next := ⟨rest, h⟩
  named := by
    have hslot : .accessor n c ∈ u.slotsFor reserved name u.components c.location.segments := by
      rw [h]
      exact List.mem_append_right _ List.mem_cons_self
    rw [membersAt, named_layout_accessor (fun _ _ _ hm => name_of_mem_accessorsOf hm)
      (names_firstAt_taken c.location.segments) hslot, byRank_accessorsOf]
  object _ _ := mem_objects_source.2 (Or.inl ⟨_, holds_of_mem hc, rfl⟩)

variable (u reserved name) in
theorem exists_isAccessorName {before after : List Component} {c : Component}
    (h : u.components = before ++ c :: after) : ∃ n, u.IsAccessorName reserved name before c n ∧
      n = ((Scope.mk (u.namesBefore reserved name before c.location.segments)).claim
        (camel c.location.stem) (secondName c)).1 := by
  have hmem : c ∈ u.components := by
    rw [h]
    exact List.mem_append_right _ List.mem_cons_self
  obtain ⟨rest, hrest⟩ := slots_split (u.scopeAt reserved name c.location.segments) []
    (belowAll c.location.segments (before.map placed)) c
    (belowAll c.location.segments (after.map placed))
  have hplaced : belowAll c.location.segments (u.components.map placed) =
      belowAll c.location.segments (before.map placed) ++
        ([], c) :: belowAll c.location.segments (after.map placed) := by
    rw [h, List.map_append, List.map_cons, belowAll_append]
    exact congrArg _ (belowAll_cons_self _ _ _)
  rw [← hplaced] at hrest
  exact ⟨_, isAccessorName_of_slot hmem hrest, rfl⟩

end Contents

/-! ## The rule -/

/-- The file name as it is or, where that is taken, with the suffix of the kind after it, and with a
number where that is taken as well. -/
structure TakesSuffix (taken : List String) (c : Component) (n : String) : Prop where
  free : camel c.location.stem ∉ taken → n = camel c.location.stem
  taken : camel c.location.stem ∈ taken →
    Scope.IsNumbered taken (camel c.location.stem ++ c.kind.shape.suffix) n

theorem camel_eq_of_words {text : String} (h : words text.toList = []) : camel text = "_0" := by
  rw [camel, camelChars, h]
  rfl

/-- What is made of a suffix alone begins with a letter, so it never begins as `_0` does. -/
theorem head_camel_suffix (k : Kind) : (camel k.shape.suffix).toList.head? ≠ some '_' := by
  obtain ⟨c, cs, hsuffix, hupper⟩ := exists_capital k
  obtain ⟨hne, hword⟩ := suffix_words k
  have hlower := isLower_toLower_of_isUpper hupper
  have hdigit : ¬c.toLower.isDigit = true := not_isDigit_of_isLower hlower
  rw [camel, String.toList_ofList, camelChars, words_eq_singleton hne hword, hsuffix]
  simp only [mapHead, List.map_nil, List.flatten_nil, List.append_nil, startedLegally]
  rw [if_neg hdigit, List.head?_cons]
  intro hlow
  rw [Option.some.inj hlow] at hlower
  exact absurd hlower (by decide)

theorem head_of_isNumbered {taken : List String} {base n : String} (h : Scope.IsNumbered taken base n)
    (hne : base.toList ≠ []) : n.toList.head? = base.toList.head? := by
  by_cases htaken : base ∈ taken
  · obtain ⟨i, -, rfl⟩ := h.counted htaken
    rw [String.toList_append, List.head?_append_of_ne_nil _ hne]
  · rw [h.free htaken]

theorem not_isNumbered_both {taken : List String} {k : Kind} {n : String}
    (h : Scope.IsNumbered taken (camel k.shape.suffix) n) :
    ¬Scope.IsNumbered taken ("_0" ++ k.shape.suffix) n := by
  intro hrule
  have hlow : ("_0" ++ k.shape.suffix).toList.head? = some '_' := by simp
  have hne : (camel k.shape.suffix).toList ≠ [] := by
    rw [camel, String.toList_ofList]
    exact startedLegally_ne_nil _
  apply head_camel_suffix k
  rw [← head_of_isNumbered h hne, head_of_isNumbered hrule (by simp), hlow]

/-- A name without letters or digits, and such a name is taken. -/
def LosesName (taken : List String) (c : Component) : Prop :=
  words c.location.stem.toList = [] ∧ "_0" ∈ taken

theorem isNumbered_claim {taken : List String} {base second n : String} (hbase : base ∈ taken)
    (h : n = ((Scope.mk taken).claim base second).1) : Scope.IsNumbered taken second n := by
  rw [Scope.claim_eq, if_pos hbase] at h
  exact Scope.isNumbered_iff.2 h

theorem takesSuffix_claim_iff {taken : List String} {c : Component} {n : String}
    (h : n = ((Scope.mk taken).claim (camel c.location.stem) (secondName c)).1) :
    TakesSuffix taken c n ↔ ¬LosesName taken c := by
  by_cases hbase : camel c.location.stem ∈ taken
  · have hsecond := isNumbered_claim hbase h
    rw [secondName_eq] at hsecond
    by_cases hwords : words c.location.stem.toList = []
    · rw [if_pos hwords] at hsecond
      have hlow := camel_eq_of_words hwords
      refine iff_of_false (fun hrule => not_isNumbered_both hsecond ?_)
        (not_not_intro ⟨hwords, hlow ▸ hbase⟩)
      rw [← hlow]
      exact hrule.taken hbase
    · rw [if_neg hwords] at hsecond
      exact iff_of_true ⟨fun hfree => absurd hbase hfree, fun _ => hsecond⟩
        fun hloses => hwords hloses.1
  · have hn : n = camel c.location.stem := h.trans (Scope.claim_of_not_mem hbase _)
    refine iff_of_true ⟨fun _ => hn, fun htaken => absurd htaken hbase⟩ fun ⟨hwords, hlow⟩ => hbase ?_
    rw [camel_eq_of_words hwords]
    exact hlow

/-- The suffix is left alone. -/
theorem isNumbered_suffix_of_losesName {taken : List String} {c : Component} {n : String}
    (h : n = ((Scope.mk taken).claim (camel c.location.stem) (secondName c)).1)
    (hloses : LosesName taken c) : Scope.IsNumbered taken (camel c.kind.shape.suffix) n := by
  obtain ⟨hwords, hlow⟩ := hloses
  have hbase : camel c.location.stem ∈ taken := by
    rw [camel_eq_of_words hwords]
    exact hlow
  have hsecond := isNumbered_claim hbase h
  rwa [secondName_eq, if_pos hwords] at hsecond

/-- A component whose file name is taken gets the suffix of its kind and a number after its name,
but not if the name has neither letters nor digits: then the suffix stands alone. -/
theorem suffix_taken_iff (ns : Namespace) (family : Option Family) (reserved : List String)
    (name : String) {before after : List Component} {c : Component}
    (h : (ofNamespace ns family).components = before ++ c :: after) :
    let u := ofNamespace ns family
    let taken := u.namesBefore reserved name before c.location.segments
    ∃ n, u.IsAccessorName reserved name before c n ∧
      (TakesSuffix taken c n ↔ ¬LosesName taken c) ∧
      (LosesName taken c → Scope.IsNumbered taken (camel c.kind.shape.suffix) n) := by
  intro u taken
  obtain ⟨n, hname, hclaim⟩ := u.exists_isAccessorName reserved name h
  exact ⟨n, hname, takesSuffix_claim_iff hclaim, isNumbered_suffix_of_losesName hclaim⟩

/-- The third table of one name gets the suffix and a number. -/
theorem a_third_table_gets_a_number :
    let c : Component := .resource .lootTable ⟨"", "my.table"⟩
    let before : List Component :=
      [.resource .lootTable ⟨"", "my-table"⟩, .resource .lootTable ⟨"", "my_table"⟩]
    let u := ofNamespace ⟨"p", before ++ [c], .empty, .empty⟩ none
    u.components = before ++ c :: [] ∧
      u.IsAccessorName reservedNames "P" before c "myTableLootTable2" ∧
      TakesSuffix (u.namesBefore reservedNames "P" before []) c "myTableLootTable2" := by
  intro c before u
  let s : Scope := ⟨u.namesBefore reservedNames "P" before []⟩
  have hsplit : u.components = before ++ c :: [] := rfl
  obtain ⟨n, hname, hrule, -⟩ := suffix_taken_iff _ none reservedNames "P" hsplit
  have htakes : TakesSuffix s.taken c n := hrule.2 fun hloses => absurd hloses.1 (by decide)
  have hnumbered := htakes.taken (by decide +kernel)
  have hn : s.freshName (camel c.location.stem ++ c.kind.shape.suffix) = "myTableLootTable2" := by
    decide +kernel
  rw [Scope.isNumbered_iff, hn] at hnumbered
  subst hnumbered
  exact ⟨hsplit, hname, htakes⟩

/-- The second of two recipes whose names have no letters is called `recipe`, and nothing of `_0` is
left. -/
theorem a_name_without_letters_is_lost :
    let c : Component := .resource .recipe ⟨"", "+++"⟩
    let before : List Component := [.resource .recipe ⟨"", "---"⟩]
    let ns : Namespace := ⟨"p", before ++ [c], .empty, .empty⟩
    let u := ofNamespace ns none
    let s : Settings := .forPackage "generated"
    let f := fileOf s (.member ns none) "P"
    (.member ns none, f) ∈ units ⟨[ns], []⟩ s ∧ u.components = before ++ c :: [] ∧
      u.IsAccessorName reservedNames "P" before c "recipe" ∧
      camel c.location.stem = "_0" ∧ c.kind.shape.suffix = "Recipe" ∧
      ¬TakesSuffix (u.namesBefore reservedNames "P" before []) c "recipe" := by
  intro c before ns u s f
  have hunit : (.member ns none, f) ∈ units ⟨[ns], []⟩ s := mem_units_singleton (by decide)
  have hsplit : u.components = before ++ c :: [] := rfl
  obtain ⟨n, hname, hclaim⟩ := u.exists_isAccessorName reservedNames "P" hsplit
  have hloses : LosesName (u.namesBefore reservedNames "P" before []) c := ⟨by decide, by decide +kernel⟩
  have hrule := mt (takesSuffix_claim_iff hclaim).1 (not_not_intro hloses)
  have hn : ((Scope.mk (u.namesBefore reservedNames "P" before [])).claim
      (camel c.location.stem) (secondName c)).1 = "recipe" := by decide +kernel
  obtain rfl : n = "recipe" := hclaim.trans hn
  exact ⟨hunit, hsplit, hname, by decide, by decide, hrule⟩

end PackBindings.Bindings
