/-
  PackBindings.Proofs.Kotlin.Identifiers — generated names are legal identifiers.

  An identifier is a letter, or a low line that does not stand alone, and then letters,
  digits and low lines. Names are made of words, which hold letters and digits only, so all
  that can go wrong is the first character: there may be none, or a digit. Both get a low
  line in front, and what is put after a name later on leaves its beginning as it is.

  Proved, for every text and every scope:
  - `isIdentifier_pascal` / `isIdentifier_camel` / `isIdentifier_packageSegment`: whatever the
    text holds, the name that is made from it is an identifier.
  - `isIdentifier_append` / `isIdentifier_freshName`: and so it is with a suffix or a number.
  - `not_keyword_of_startsHigh`: no keyword begins as identifiers in Pascal case do.
  - `packageSegment_not_keyword`: a package segment is no keyword.
-/

import PackBindings.Proofs.Kotlin.NameEnds

namespace PackBindings.Kotlin

/-- A letter comes first, or a low line that does not stand alone. -/
def BeginsLegally (cs : List Char) : Prop :=
  ∃ d ds, cs = d :: ds ∧ (d.isAlpha = true ∨ d = '_' ∧ ds ≠ [])

theorem beginsLegally_iff {cs : List Char} : BeginsLegally cs ↔
    cs.head?.any (fun c => c.isAlpha || c == '_' && !cs.tail.isEmpty) = true := by
  unfold BeginsLegally
  cases cs with
  | nil => simp
  | cons c cs => simp

instance (cs : List Char) : Decidable (BeginsLegally cs) := decidable_of_iff _ beginsLegally_iff.symm

/-- A legal identifier, keywords among them. -/
structure IsIdentifier (name : String) : Prop where
  plain : IsPlain name
  begins : BeginsLegally name.toList

instance (name : String) : Decidable (IsIdentifier name) :=
  decidable_of_iff (IsPlain name ∧ BeginsLegally name.toList) ⟨fun h => ⟨h.1, h.2⟩, fun h => ⟨h.1, h.2⟩⟩

/-! ## Beginnings -/

theorem isAlpha_of_isAlphanum {c : Char} (h : c.isAlphanum = true) (hd : ¬c.isDigit = true) :
    c.isAlpha = true := by
  have hcases : (c.isAlpha || c.isDigit) = true := h
  rw [Bool.or_eq_true] at hcases
  exact hcases.resolve_right hd

theorem beginsLegally_append {cs : List Char} (h : BeginsLegally cs) (more : List Char) :
    BeginsLegally (cs ++ more) := by
  obtain ⟨c, rest, rfl, hc⟩ := h
  exact ⟨c, rest ++ more, rfl,
    hc.imp_right fun ⟨hlow, hne⟩ => ⟨hlow, List.append_ne_nil_of_left_ne_nil hne more⟩⟩

/-- Where there would be nothing or a digit, a low line comes first. -/
theorem beginsLegally_startedLegally {cs : List Char} (h : ∀ c ∈ cs.head?, c.isAlphanum = true) :
    BeginsLegally (startedLegally cs) := by
  cases cs with
  | nil => exact ⟨'_', ['0'], rfl, Or.inr ⟨rfl, List.cons_ne_nil _ _⟩⟩
  | cons c cs =>
    by_cases hdigit : c.isDigit = true
    · refine ⟨'_', c :: cs, ?_, Or.inr ⟨rfl, List.cons_ne_nil _ _⟩⟩
      exact if_pos hdigit
    · refine ⟨c, cs, ?_, Or.inl (isAlpha_of_isAlphanum (h c rfl) hdigit)⟩
      exact if_neg hdigit

/-! ## Names made from words -/

theorem isIdentifier_pascal (text : String) : IsIdentifier (pascal text) := by
  refine ⟨isPlain_pascal text, ?_⟩
  rw [pascal, String.toList_ofList]
  apply beginsLegally_startedLegally
  intro c hc
  exact isAlphanum_of_mem_raised (List.Subset.refl _) c (List.mem_of_head? hc)

theorem isIdentifier_camel (text : String) : IsIdentifier (camel text) := by
  refine ⟨isPlain_camel text, ?_⟩
  rw [camel, String.toList_ofList]
  apply beginsLegally_startedLegally
  cases hw : words text.toList with
  | nil => exact fun c hc => absurd hc (Option.not_mem_none c)
  | cons first rest =>
    have hfirst : first ∈ words text.toList := by
      rw [hw]
      exact List.mem_cons_self
    obtain ⟨c, cs, rfl⟩ := List.exists_cons_of_ne_nil (ne_nil_of_mem_words hfirst)
    intro d hd
    rw [← Option.some.inj hd]
    exact isAlphanum_toLower (isAlphanum_of_mem_words hfirst c List.mem_cons_self)

theorem isIdentifier_append {a b : String} (ha : IsIdentifier a) (hb : IsPlain b) :
    IsIdentifier (a ++ b) := by
  refine ⟨isPlain_append ha.plain hb, ?_⟩
  rw [String.toList_append]
  exact beginsLegally_append ha.begins _

theorem isIdentifier_freshName (s : Scope) {base : String} (h : IsIdentifier base) :
    IsIdentifier (s.freshName base) := by
  rcases s.freshName_eq base with he | ⟨n, -, he⟩
  · rwa [he]
  · rw [he]
    exact isIdentifier_append h (isPlain_toString n)

theorem isIdentifier_claim {s : Scope} {base second : String} (hb : IsIdentifier base)
    (hs : IsIdentifier second) : IsIdentifier (s.claim base second).1 := by
  apply isIdentifier_freshName
  split
  · exact hs
  · exact hb

theorem isIdentifier_of_mem_nameAll {s : Scope} {bases : List String} {name : String}
    (hb : ∀ base ∈ bases, IsIdentifier base) (h : name ∈ s.nameAll bases) : IsIdentifier name := by
  obtain ⟨s', base, hbase, rfl⟩ := Scope.exists_of_mem_nameAll h
  exact isIdentifier_freshName s' (hb base hbase)

/-! ## Keywords -/

theorem isKeyword_iff {name : String} : isKeyword name = true ↔ name ∈ keywords :=
  List.contains_iff_mem

theorem not_keyword_of_startsHigh {name : String} (h : StartsHigh name) : name ∉ keywords := by
  have hlow : ∀ word ∈ keywords, ¬StartsHigh word := by decide
  exact fun hmem => hlow name hmem h

/-- Grave accents stand around keywords and around nothing else. -/
def escaped (name : String) : String :=
  if name ∈ keywords then "\x60" ++ name ++ "\x60" else name

theorem quoted_eq_escaped (name : String) : quoted name = escaped name := by
  unfold quoted escaped
  simp only [isKeyword_iff]

theorem escaped_of_not_keyword {name : String} (h : name ∉ keywords) : escaped name = name :=
  if_neg h

theorem map_escaped_eq_self {path : List String} (h : ∀ n ∈ path, n ∉ keywords) :
    path.map escaped = path := by
  rw [List.map_congr_left fun n hn => escaped_of_not_keyword (h n hn)]
  exact List.map_id' path

/-! ## Package segments -/

theorem beginsLegally_segmentChars (text : List Char) : BeginsLegally (segmentChars text) := by
  apply beginsLegally_startedLegally
  cases hw : words text with
  | nil => exact fun c hc => absurd hc (Option.not_mem_none c)
  | cons first rest =>
    have hfirst : first ∈ words text := by
      rw [hw]
      exact List.mem_cons_self
    obtain ⟨c, cs, rfl⟩ := List.exists_cons_of_ne_nil (ne_nil_of_mem_words hfirst)
    have hhead : (['_'].intercalate (((c :: cs) :: rest).map (·.map Char.toLower))).head? =
        some c.toLower := by
      cases rest with
      | nil => simp
      | cons next rest => simp
    rw [hhead]
    intro d hd
    rw [← Option.some.inj hd]
    exact isAlphanum_toLower (isAlphanum_of_mem_words hfirst c List.mem_cons_self)

/-- A keyword gets a low line at its end, everything else stays as it is. -/
theorem packageSegment_cases (text : String) :
    packageSegment text = String.ofList (segmentChars text.toList) ++ "_" ∨
      packageSegment text = String.ofList (segmentChars text.toList) ∧
        packageSegment text ∉ keywords := by
  by_cases h : isKeyword (String.ofList (segmentChars text.toList)) = true
  · left
    exact if_pos h
  · right
    have he : packageSegment text = String.ofList (segmentChars text.toList) := if_neg h
    rw [he]
    exact ⟨rfl, fun hmem => h (isKeyword_iff.2 hmem)⟩

theorem isIdentifier_packageSegment (text : String) : IsIdentifier (packageSegment text) := by
  refine ⟨isPlain_packageSegment text, ?_⟩
  rcases packageSegment_cases text with he | ⟨he, -⟩
  · rw [he, String.toList_append, String.toList_ofList]
    exact beginsLegally_append (beginsLegally_segmentChars _) _
  · rw [he, String.toList_ofList]
    exact beginsLegally_segmentChars _

/-- No keyword ends in a low line. -/
theorem packageSegment_not_keyword (text : String) : packageSegment text ∉ keywords := by
  have hlow : ∀ word ∈ keywords, '_' ∉ word.toList := by decide
  rcases packageSegment_cases text with he | ⟨-, hnot⟩
  · intro hmem
    apply hlow _ hmem
    rw [he, String.toList_append]
    exact List.mem_append_right _ (by decide)
  · exact hnot

end PackBindings.Kotlin
