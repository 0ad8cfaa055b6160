/-
  PackBindings.Proofs.Kotlin.NameEnds — how generated names begin and end.

  Proved, for every text and every scope:
  - `startsHigh_pascal` / `startsHigh_freshName`: an identifier in Pascal case does not begin
    with a letter in lower case, whatever number stands after it.
  - `eq_of_freshName`: a name that does not end in a digit is handed out only to who wishes
    for it.
  - `tail_suffix_camelChars`: an identifier in camel case ends as its last word does.
-/

import PackBindings.Proofs.Kotlin.NameCharacters

namespace PackBindings.Kotlin

/-! ## How names end -/

/-- A name that does not end in a digit, so no number stands at its end. -/
def EndsBare (name : String) : Prop := ∃ c, name.toList.getLast? = some c ∧ c.isDigit = false

theorem endsBare_ne_numbered {name : String} (h : EndsBare name) (base : String) (n : Nat) :
    base ++ toString n ≠ name := by
  rintro rfl
  obtain ⟨c, hlast, hc⟩ := h
  have hne : Nat.toDigits 10 n ≠ [] := Nat.toDigits_ne_nil
  rw [String.toList_append, Nat.toString_eq_ofList_toDigits, String.toList_ofList,
    List.getLast?_append_of_ne_nil _ hne] at hlast
  have hdigit := Nat.isDigit_of_mem_toDigits (by decide) (by decide) (List.mem_of_getLast? hlast)
  rw [hc] at hdigit
  exact Bool.false_ne_true hdigit

/-- A scope hands out such a name only to who wishes for it. -/
theorem eq_of_freshName {s : Scope} {base name : String} (h : EndsBare name)
    (he : s.freshName base = name) : base = name := by
  rcases s.freshName_eq base with hbase | ⟨n, -, hn⟩
  · exact hbase.symm.trans he
  · exact absurd (hn.symm.trans he) (endsBare_ne_numbered h base n)

theorem suffix_startedLegally (cs : List Char) : cs <:+ startedLegally cs := by
  cases cs with
  | nil => exact List.nil_suffix
  | cons c cs =>
    simp only [startedLegally]
    split
    · exact List.suffix_cons _ _
    · exact List.suffix_rfl

theorem words_append_cons (a b : List Char) {c : Char} (hc : c.isAlphanum = false) :
    words (a ++ c :: b) = words a ++ words b := by
  unfold words
  rw [List.splitOnP_append_cons _ _ (by simp [hc]), List.filter_append]

theorem words_eq_singleton {word : List Char} (hne : word ≠ [])
    (h : ∀ c ∈ word, c.isAlphanum = true) : words word = [word] := by
  unfold words
  rw [List.splitOnP_eq_singleton (fun c hc => by simp [h c hc])]
  simp [hne]

theorem tail_mapHead (f : Char → Char) (cs : List Char) : (mapHead f cs).tail = cs.tail := by
  cases cs <;> rfl

/-- An identifier ends as its last word does. -/
theorem tail_suffix_camelChars {a word : List Char} (hne : word ≠ [])
    (h : ∀ c ∈ word, c.isAlphanum = true) : word.tail <:+ camelChars (a ++ '_' :: word) := by
  have hraised : ∀ f : Char → Char, word.tail <:+ mapHead f word := by
    intro f
    rw [← tail_mapHead f]
    exact List.tail_suffix _
  unfold camelChars
  refine List.IsSuffix.trans ?_ (suffix_startedLegally _)
  rw [words_append_cons a word (by decide), words_eq_singleton hne h]
  cases words a with
  | nil =>
    show word.tail <:+ mapHead Char.toLower word ++ []
    rw [List.append_nil]
    exact hraised _
  | cons first rest =>
    simp only [List.cons_append, List.map_append, List.flatten_append, List.map_cons, List.map_nil,
      List.flatten_singleton]
    rw [← List.append_assoc]
    exact (hraised _).trans (List.suffix_append _ _)

/-! ## How names begin -/

theorem startsLow_iff {name : String} :
    StartsLow name ↔ name.toList.head?.any (fun c => c.isLower || c == '_') = true := by
  unfold StartsLow
  cases name.toList with
  | nil => simp
  | cons c cs => simp

instance (name : String) : Decidable (StartsLow name) := decidable_of_iff _ startsLow_iff.symm

/-- A name that does not begin with a letter in lower case. -/
def StartsHigh (name : String) : Prop := ∃ c cs, name.toList = c :: cs ∧ c.isLower = false

theorem startsHigh_iff {name : String} :
    StartsHigh name ↔ name.toList.head?.any (fun c => !c.isLower) = true := by
  unfold StartsHigh
  cases name.toList with
  | nil => simp
  | cons c cs => simp

instance (name : String) : Decidable (StartsHigh name) := decidable_of_iff _ startsHigh_iff.symm

theorem isLower_toUpper (c : Char) : c.toUpper.isLower = false := by
  have hval := val_toUpper c
  rw [Bool.eq_false_iff, ne_eq, isLower_iff]
  grind

theorem startsHigh_pascal (text : String) : StartsHigh (pascal text) := by
  rw [StartsHigh, pascal, String.toList_ofList, pascalChars]
  cases hw : words text.toList with
  | nil => exact ⟨'_', ['0'], rfl, rfl⟩
  | cons first rest =>
    have hmem : first ∈ words text.toList := by rw [hw]; exact List.mem_cons_self
    obtain ⟨c, cs, rfl⟩ := List.exists_cons_of_ne_nil (ne_nil_of_mem_words hmem)
    simp only [List.map_cons, List.flatten_cons, mapHead, List.cons_append, startedLegally]
    split
    · exact ⟨_, _, rfl, rfl⟩
    · exact ⟨_, _, rfl, isLower_toUpper c⟩

theorem startsHigh_append {a : String} (h : StartsHigh a) (b : String) : StartsHigh (a ++ b) := by
  obtain ⟨c, cs, he, hc⟩ := h
  exact ⟨c, cs ++ b.toList, by rw [String.toList_append, he]; rfl, hc⟩

theorem startsHigh_freshName (s : Scope) {base : String} (h : StartsHigh base) :
    StartsHigh (s.freshName base) := by
  rcases s.freshName_eq base with he | ⟨n, -, he⟩
  · rwa [he]
  · rw [he]
    exact startsHigh_append h _

end PackBindings.Kotlin
