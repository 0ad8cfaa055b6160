/-
  PackBindings.Proofs.Kotlin.NameCharacters — of which characters generated names are made.

  Proved, for every text and every scope:
  - `isPlain_pascal` / `isPlain_camel` / `isPlain_packageSegment`: identifiers and package
    segments hold letters, digits and low lines only, so neither the dot of a dotted path
    nor the slash of a file path.
  - `isPlain_freshName` / `startsLow_freshName`: a number after a name changes nothing
    about that.
  - `startsLow_camel`: an identifier in camel case starts with a letter in lower case or
    a low line, so it is none of the constants that are written in upper case.
-/

import PackBindings.Kotlin.Identifier
import PackBindings.Proofs.Kotlin.FreshNames
import PackBindings.Proofs.Lists

namespace PackBindings.Kotlin

/-- Letters, digits and the low line. -/
def isNameChar (c : Char) : Bool := c.isAlphanum || c == '_'

/-- A name of letters, digits and low lines. -/
def IsPlain (name : String) : Prop := ∀ c ∈ name.toList, isNameChar c = true

instance (name : String) : Decidable (IsPlain name) :=
  decidable_of_iff (name.toList.all isNameChar = true) List.all_eq_true

/-! ## Characters -/

theorem val_toUpper (c : Char) : c.toUpper.val =
    if 'a'.val ≤ c.val ∧ c.val ≤ 'z'.val then c.val + ('A'.val - 'a'.val) else c.val := by
  delta Char.toUpper
  split <;> rfl

theorem val_toLower (c : Char) : c.toLower.val =
    if 'A'.val ≤ c.val ∧ c.val ≤ 'Z'.val then c.val + ('a'.val - 'A'.val) else c.val := by
  delta Char.toLower
  split <;> rfl

theorem isUpper_iff {c : Char} : c.isUpper = true ↔ 'A'.val ≤ c.val ∧ c.val ≤ 'Z'.val :=
  decide_eq_true_iff

theorem isLower_iff {c : Char} : c.isLower = true ↔ 'a'.val ≤ c.val ∧ c.val ≤ 'z'.val := by
  show (decide ('a'.val ≤ c.val) && decide (c.val ≤ 'z'.val)) = true ↔ _
  rw [Bool.and_eq_true, decide_eq_true_iff, decide_eq_true_iff]

theorem isDigit_iff {c : Char} : c.isDigit = true ↔ '0'.val ≤ c.val ∧ c.val ≤ '9'.val := by
  show (decide ('0'.val ≤ c.val) && decide (c.val ≤ '9'.val)) = true ↔ _
  rw [Bool.and_eq_true, decide_eq_true_iff, decide_eq_true_iff]

theorem isAlphanum_iff {c : Char} :
    c.isAlphanum = true ↔ (c.isUpper = true ∨ c.isLower = true) ∨ c.isDigit = true := by
  show (c.isUpper || c.isLower || c.isDigit) = true ↔ _
  rw [Bool.or_eq_true, Bool.or_eq_true]

theorem isAlphanum_toUpper {c : Char} (h : c.isAlphanum = true) : c.toUpper.isAlphanum = true := by
  have hval := val_toUpper c
  rw [isAlphanum_iff, isUpper_iff, isLower_iff, isDigit_iff] at h ⊢
  grind

theorem isAlphanum_toLower {c : Char} (h : c.isAlphanum = true) : c.toLower.isAlphanum = true := by
  have hval := val_toLower c
  rw [isAlphanum_iff, isUpper_iff, isLower_iff, isDigit_iff] at h ⊢
  grind

theorem isLower_toLower {c : Char} (h : c.isAlphanum = true) (hd : c.toLower.isDigit = false) :
    c.toLower.isLower = true := by
  have hval := val_toLower c
  rw [Bool.eq_false_iff, ne_eq, isDigit_iff] at hd
  rw [isAlphanum_iff, isUpper_iff, isLower_iff, isDigit_iff] at h
  rw [isLower_iff]
  grind

theorem isNameChar_of_isAlphanum {c : Char} (h : c.isAlphanum = true) : isNameChar c = true := by
  simp [isNameChar, h]

theorem isNameChar_of_isDigit {c : Char} (h : c.isDigit = true) : isNameChar c = true := by
  simp [isNameChar, Char.isAlphanum, h]

theorem dot_not_mem_of_isNameChar {cs : List Char} (h : ∀ c ∈ cs, isNameChar c = true) : '.' ∉ cs :=
  fun hmem => absurd (h _ hmem) (by decide)

theorem slash_not_mem_of_isNameChar {cs : List Char} (h : ∀ c ∈ cs, isNameChar c = true) : '/' ∉ cs :=
  fun hmem => absurd (h _ hmem) (by decide)

/-! ## Words -/

theorem isAlphanum_of_mem_words {text word : List Char} (h : word ∈ words text) :
    ∀ c ∈ word, c.isAlphanum = true := by
  intro c hc
  simpa using forall_mem_of_mem_splitOnP (List.mem_of_mem_filter h) c hc

theorem ne_nil_of_mem_words {text word : List Char} (h : word ∈ words text) : word ≠ [] := by
  simpa using (List.mem_filter.1 h).2

theorem isAlphanum_of_mem_mapHead {f : Char → Char} {word : List Char}
    (hf : ∀ c, c.isAlphanum = true → (f c).isAlphanum = true)
    (h : ∀ c ∈ word, c.isAlphanum = true) : ∀ c ∈ mapHead f word, c.isAlphanum = true := by
  cases word with
  | nil => simp [mapHead]
  | cons c cs =>
    intro d hd
    rcases List.mem_cons.1 hd with rfl | hd
    · exact hf c (h c List.mem_cons_self)
    · exact h d (List.mem_cons_of_mem _ hd)

theorem isNameChar_of_mem_startedLegally {cs : List Char} (h : ∀ c ∈ cs, isNameChar c = true) :
    ∀ c ∈ startedLegally cs, isNameChar c = true := by
  intro c hc
  match cs, h with
  | [], _ =>
    have : c = '_' ∨ c = '0' := by simpa [startedLegally] using hc
    rcases this with rfl | rfl <;> decide
  | d :: ds, h =>
    have : c = '_' ∨ c ∈ d :: ds := by
      simp only [startedLegally] at hc
      split at hc
      · exact List.mem_cons.1 hc
      · exact Or.inr hc
    rcases this with rfl | hmem
    · decide
    · exact h c hmem

/-! ## Identifiers -/

theorem isAlphanum_of_mem_raised {text : List Char} {ws : List (List Char)} (h : ws ⊆ words text) :
    ∀ c ∈ (ws.map (mapHead Char.toUpper)).flatten, c.isAlphanum = true := by
  intro c hc
  obtain ⟨raised, hr, hc⟩ := List.mem_flatten.1 hc
  obtain ⟨word, hw, rfl⟩ := List.mem_map.1 hr
  exact isAlphanum_of_mem_mapHead (fun _ => isAlphanum_toUpper)
    (isAlphanum_of_mem_words (h hw)) c hc

theorem isPlain_pascal (text : String) : IsPlain (pascal text) := by
  intro c hc
  rw [pascal, String.toList_ofList] at hc
  refine isNameChar_of_mem_startedLegally (fun d hd => ?_) c hc
  exact isNameChar_of_isAlphanum (isAlphanum_of_mem_raised (List.Subset.refl _) d hd)

theorem isPlain_camel (text : String) : IsPlain (camel text) := by
  intro c hc
  rw [camel, String.toList_ofList] at hc
  refine isNameChar_of_mem_startedLegally (fun d hd => isNameChar_of_isAlphanum ?_) c hc
  split at hd
  · simp at hd
  · rename_i first rest hw
    have hfirst : first ∈ words text.toList := by
      rw [hw]
      exact List.mem_cons_self
    have hrest : rest ⊆ words text.toList := by
      rw [hw]
      exact List.subset_cons_self _ _
    rcases List.mem_append.1 hd with hd | hd
    · exact isAlphanum_of_mem_mapHead (fun _ => isAlphanum_toLower)
        (isAlphanum_of_mem_words hfirst) d hd
    · exact isAlphanum_of_mem_raised hrest d hd

/-- A name whose first character is a letter in lower case or a low line. -/
def StartsLow (name : String) : Prop :=
  ∃ c cs, name.toList = c :: cs ∧ (c.isLower = true ∨ c = '_')

theorem startsLow_camel (text : String) : StartsLow (camel text) := by
  rw [StartsLow, camel, String.toList_ofList, camelChars]
  cases hw : words text.toList with
  | nil => exact ⟨'_', ['0'], rfl, Or.inr rfl⟩
  | cons first rest =>
    have hmem : first ∈ words text.toList := by rw [hw]; exact List.mem_cons_self
    obtain ⟨c, cs, rfl⟩ := List.exists_cons_of_ne_nil (ne_nil_of_mem_words hmem)
    simp only [mapHead, List.cons_append, startedLegally]
    split
    · exact ⟨_, _, rfl, Or.inr rfl⟩
    · rename_i hd
      have hc := isAlphanum_of_mem_words hmem c List.mem_cons_self
      exact ⟨_, _, rfl, Or.inl (isLower_toLower hc (by simpa using hd))⟩

theorem startedLegally_ne_nil (cs : List Char) : startedLegally cs ≠ [] := by
  cases cs with
  | nil => exact List.cons_ne_nil _ _
  | cons c cs =>
    simp only [startedLegally]
    split
    · exact List.cons_ne_nil _ _
    · exact List.cons_ne_nil _ _

theorem isPlain_packageSegment (text : String) : IsPlain (packageSegment text) := by
  have hchars : ∀ c ∈ segmentChars text.toList, isNameChar c = true := by
    refine isNameChar_of_mem_startedLegally fun c hc => ?_
    rcases mem_of_mem_intercalate hc with hc | ⟨part, hpart, hc⟩
    · rw [List.mem_singleton.1 hc]
      decide
    · obtain ⟨word, hword, rfl⟩ := List.mem_map.1 hpart
      obtain ⟨d, hd, rfl⟩ := List.mem_map.1 hc
      exact isNameChar_of_isAlphanum (isAlphanum_toLower (isAlphanum_of_mem_words hword d hd))
  intro c hc
  rw [packageSegment] at hc
  split at hc
  · rw [String.toList_append, String.toList_ofList, List.mem_append] at hc
    rcases hc with hc | hc
    · exact hchars c hc
    · have hlow : c = '_' := by simpa using hc
      rw [hlow]
      decide
  · rw [String.toList_ofList] at hc
    exact hchars c hc

theorem packageSegment_ne_empty (text : String) : packageSegment text ≠ "" := by
  have hne := startedLegally_ne_nil
    (['_'].intercalate ((words text.toList).map (·.map Char.toLower)))
  intro he
  have hnil : (packageSegment text).toList = [] := by
    rw [he]
    rfl
  rw [packageSegment] at hnil
  split at hnil
  · simp at hnil
  · rw [String.toList_ofList] at hnil
    exact hne hnil

/-! ## Numbers after names -/

theorem isPlain_append {a b : String} (ha : IsPlain a) (hb : IsPlain b) : IsPlain (a ++ b) := by
  intro c hc
  rcases List.mem_append.1 (by simpa using hc) with hc | hc
  · exact ha c hc
  · exact hb c hc

theorem isPlain_toString (n : Nat) : IsPlain (toString n) := by
  intro c hc
  rw [Nat.toString_eq_ofList_toDigits, String.toList_ofList] at hc
  exact isNameChar_of_isDigit (Nat.isDigit_of_mem_toDigits (by decide) (by decide) hc)

theorem isPlain_freshName (s : Scope) {base : String} (h : IsPlain base) :
    IsPlain (s.freshName base) := by
  rcases s.freshName_eq base with he | ⟨n, -, he⟩
  · rwa [he]
  · rw [he]
    exact isPlain_append h (isPlain_toString n)

theorem isPlain_of_mem_nameAll {s : Scope} {bases : List String} {name : String}
    (hb : ∀ base ∈ bases, IsPlain base) (h : name ∈ s.nameAll bases) : IsPlain name := by
  obtain ⟨s', base, hbase, rfl⟩ := Scope.exists_of_mem_nameAll h
  exact isPlain_freshName s' (hb base hbase)

theorem startsLow_append {a : String} (h : StartsLow a) (b : String) : StartsLow (a ++ b) := by
  obtain ⟨c, cs, he, hc⟩ := h
  exact ⟨c, cs ++ b.toList, by rw [String.toList_append, he]; rfl, hc⟩

theorem startsLow_freshName (s : Scope) {base : String} (h : StartsLow base) :
    StartsLow (s.freshName base) := by
  rcases s.freshName_eq base with he | ⟨n, -, he⟩
  · rwa [he]
  · rw [he]
    exact startsLow_append h _

theorem startsLow_of_mem_nameAll {s : Scope} {bases : List String} {name : String}
    (hb : ∀ base ∈ bases, StartsLow base) (h : name ∈ s.nameAll bases) : StartsLow name := by
  obtain ⟨s', base, hbase, rfl⟩ := Scope.exists_of_mem_nameAll h
  exact startsLow_freshName s' (hb base hbase)

theorem ne_path_of_startsLow {name : String} (h : StartsLow name) : name ≠ "PATH" := by
  obtain ⟨c, cs, he, hc⟩ := h
  rintro rfl
  have hP : c = 'P' := (List.cons.inj he).1.symm
  rw [hP] at hc
  exact absurd hc (by decide)

end PackBindings.Kotlin
