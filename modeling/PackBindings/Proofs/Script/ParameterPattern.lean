/-
  PackBindings.Proofs.Script.ParameterPattern — parameters, searched for and line by line.

  Parameters are searched for twice: first the text for lines that substitute
  (`templateLine`), then each of these for parameters (`parameterPattern`). The blanks before
  the mark of a line may be line feeds as well, so what is taken for a line can begin on lines
  before it. Those are blank lines, and no parameter stands there. And the next line is still
  to be found, as what is taken ends where the line ends.

  A line is searched from left to right, and the search goes on behind what it takes. What it
  passes over there is a bracket and a name, where no other parameter begins.

  Proved, for all texts:
  - `first?_templateLine` / `first?_parameterPattern`: what the patterns take at a place.
  - `takes_lines`: the first search takes the lines that substitute, each with blanks before it.
  - `parameterPattern_found`: the second search finds a parameter at each place where one stands.
  - `lists_parametersIn`: from left to right, each once for each place.
  - `template_of_script`: what becomes of the parameters of a script.
  - `parameters_by_line`: both searches, one after the other.
-/

import PackBindings.Proofs.Script.Edits
import PackBindings.Proofs.Script.Seams
import PackBindings.Proofs.Text.LineSearch

namespace PackBindings.Script

open PackBindings.Text

/-! ## Lines that substitute -/

/-- From the beginning of a line, blanks, the mark and the rest of its line. That a line ends there
is asked for by the search (`foundClosed`). -/
def templateLine : Pattern :=
  .seq .lineStart <| .seq (.optional (.run isBlank)) <| .seq (.literal ['$'])
    (.optional (.run (· != '\n')))

theorem first?_templateLine {before : Option Char} (h : startsLine before = true) (cs : List Char) :
    templateLine.first? before cs = (['$'].isPrefixOf? (trimStart cs)).map fun after =>
      ⟨cs.takeWhile isBlank ++ '$' :: after.takeWhile (· != '\n'), []⟩ := by
  have hstops : ∀ before c rest, isBlank c = true →
      (Pattern.seq (.literal ['$']) (.optional (.run (· != '\n')))).ways before (c :: rest) = [] :=
    fun before c rest hc =>
      Pattern.ways_seq_eq_nil (Pattern.ways_literal_eq_nil hc (by decide) [] before rest)
  rw [templateLine, Pattern.first?_lineStart_seq, if_pos h, Pattern.first?_optional_run_seq hstops,
    Pattern.first?_literal_seq, trimStart]
  simp only [Pattern.first?_optional_run]
  cases ['$'].isPrefixOf? (cs.dropWhile isBlank) with
  | none => rfl
  | some after => rfl

theorem first?_templateLine_eq_none {before : Option Char} (h : startsLine before = false)
    (cs : List Char) : templateLine.first? before cs = none := by
  rw [templateLine, Pattern.first?_within h]

/-- How a text opens: it is blank, or the mark or another character is the first that is not. -/
inductive Opening : List Char → Prop
  | blank {cs : List Char} : AllBlank cs → Opening cs
  | mark {blanks : List Char} (rest : List Char) : AllBlank blanks → Opening (blanks ++ '$' :: rest)
  | other {blanks : List Char} {d : Char} (rest : List Char) : AllBlank blanks → isBlank d = false →
      d ≠ '$' → Opening (blanks ++ d :: rest)

theorem opening (cs : List Char) : Opening cs := by
  have hboth : cs.takeWhile isBlank ++ cs.dropWhile isBlank = cs := List.takeWhile_append_dropWhile
  have hblank : AllBlank (cs.takeWhile isBlank) := fun c hc => List.mem_takeWhile_imp hc
  cases hrest : cs.dropWhile isBlank with
  | nil =>
    rw [hrest, List.append_nil] at hboth
    exact .blank (hboth ▸ hblank)
  | cons d rest =>
    have hd : isBlank d = false := head_trimStart d (by rw [trimStart, hrest]; rfl)
    rw [← hboth, hrest]
    by_cases hmark : d = '$'
    · subst hmark
      exact .mark rest hblank
    · exact .other rest hblank hd hmark

/-- A text begins with the rest of a line. -/
theorem exists_endsLine (cs : List Char) : ∃ line rest, cs = line ++ rest ∧ '\n' ∉ line ∧
    endsLine rest = true := by
  refine ⟨cs.takeWhile (· != '\n'), cs.dropWhile (· != '\n'),
    List.takeWhile_append_dropWhile.symm, fun hmem => ?_, ?_⟩
  · simpa using List.mem_takeWhile_imp hmem
  · have hstop := List.head?_dropWhile_not (· != '\n') cs
    unfold endsLine
    cases hhead : (cs.dropWhile (· != '\n')).head? with
    | none => rfl
    | some c =>
      rw [hhead] at hstop
      simpa using hstop

theorem trimStart_cons {blanks : List Char} {d : Char} (hblanks : AllBlank blanks)
    (hd : isBlank d = false) (rest : List Char) : trimStart (blanks ++ d :: rest) = d :: rest := by
  rw [trimStart_blanks_append hblanks, trimStart, List.dropWhile_cons_of_neg (by simp [hd])]

theorem trimStart_of_allBlank {cs : List Char} (h : AllBlank cs) : trimStart cs = [] := by
  have hblank := trimStart_blanks_append h []
  rwa [List.append_nil] at hblank

theorem isSubstituted_of_allBlank {line : List Char} (h : AllBlank line) :
    isSubstituted line = false := by
  rw [isSubstituted, trimStart_of_allBlank h]
  rfl

theorem isSubstituted_cons {blanks : List Char} {d : Char} (hblanks : AllBlank blanks)
    (hd : isBlank d = false) (rest : List Char) : isSubstituted (blanks ++ d :: rest) = (d == '$') := by
  rw [isSubstituted, trimStart_cons hblanks hd]
  rfl

theorem isSubstituted_iff {line : List Char} : isSubstituted line = true ↔
    ∃ blanks rest, line = blanks ++ '$' :: rest ∧ AllBlank blanks := by
  constructor
  · intro h
    cases opening line with
    | blank hblank =>
      rw [isSubstituted_of_allBlank hblank] at h
      cases h
    | mark rest hblanks => exact ⟨_, rest, rfl, hblanks⟩
    | other rest hblanks hd hmark =>
      rw [isSubstituted_cons hblanks hd, beq_iff_eq] at h
      exact absurd h hmark
  · rintro ⟨blanks, rest, rfl, hblanks⟩
    exact isSubstituted_cons hblanks (by decide) rest

/-! ### At the beginning of a line -/

section

variable {before : Option Char} (hbefore : startsLine before = true) {blanks : List Char}

include hbefore

theorem first?_templateLine_allBlank (h : AllBlank blanks) :
    templateLine.first? before blanks = none := by
  rw [first?_templateLine hbefore, trimStart_of_allBlank h]
  rfl

variable (hblanks : AllBlank blanks)

include hblanks

theorem first?_templateLine_other {d : Char} (hd : isBlank d = false) (hmark : d ≠ '$')
    (rest : List Char) : templateLine.first? before (blanks ++ d :: rest) = none := by
  have hnot : ['$'].isPrefixOf? (d :: rest) = none :=
    isPrefixOf?_eq_none (List.cons_ne_nil _ _) (by simp [Ne.symm hmark])
  rw [first?_templateLine hbefore, trimStart_cons hblanks hd, hnot]
  rfl

theorem first?_templateLine_mark {line rest : List Char} (hline : '\n' ∉ line)
    (hrest : endsLine rest = true) :
    templateLine.first? before (blanks ++ '$' :: (line ++ rest)) =
      some ⟨blanks ++ '$' :: line, []⟩ := by
  have hmark : isBlank '$' = false := by decide
  have hafter : (line ++ rest).takeWhile (· != '\n') = line := by
    refine takeWhile_append_eq (fun c hc => ?_) fun c hc => ?_
    · rw [bne_iff_ne]
      rintro rfl
      exact hline hc
    · simpa [endsLine, hc] using hrest
  rw [first?_templateLine hbefore, trimStart_cons hblanks hmark,
    takeWhile_append_eq hblanks (stops_cons hmark _),
    List.isPrefixOf?_eq_some_iff_append_eq.2 (List.singleton_append), Option.map_some, hafter]

end

/-- What is taken ends where the line ends. -/
theorem endsLine_of_first? {before : Option Char} {cs : List Char} {w : Way}
    (h : templateLine.first? before cs = some w) : endsLine (cs.drop w.taken.length) = true := by
  by_cases hbefore : startsLine before = true
  · cases opening cs with
    | blank hblank =>
      rw [first?_templateLine_allBlank hbefore hblank] at h
      cases h
    | @mark blanks tail hblanks =>
      obtain ⟨line, rest, rfl, hline, hrest⟩ := exists_endsLine tail
      rw [first?_templateLine_mark hbefore hblanks hline hrest] at h
      obtain rfl := Option.some.inj h
      have hcut : blanks ++ '$' :: (line ++ rest) = (blanks ++ '$' :: line) ++ rest := by simp
      rw [hcut, List.drop_left]
      exact hrest
    | other rest hblanks hd hmark =>
      rw [first?_templateLine_other hbefore hblanks hd hmark] at h
      cases h
  · rw [first?_templateLine_eq_none (Bool.eq_false_iff.2 hbefore)] at h
    cases h

/-! ### From line to line -/

/-- What is taken is the line, and perhaps blanks before it. -/
def TakenFor (w : Way) (line : List Char) : Prop :=
  ∃ blanks, AllBlank blanks ∧ w.taken = blanks ++ line

theorem foundFrom_of_none (before : Option Char) {line : List Char} (hline : '\n' ∉ line) :
    (templateLine.first? before line = none → templateLine.foundFrom before 0 line = []) ∧
      ∀ text, templateLine.first? before (line ++ '\n' :: text) = none →
        templateLine.foundFrom before 0 (line ++ '\n' :: text) =
          templateLine.foundFrom (some '\n') 0 text :=
  Pattern.foundFrom_line_of_none before hline

section

variable {before : Option Char} (hbefore : startsLine before = true)

include hbefore

/-- On a line that does not substitute, the search finds nothing. -/
theorem foundFrom_other {blanks tail : List Char} {d : Char} (hline : '\n' ∉ blanks ++ d :: tail)
    (hblanks : AllBlank blanks) (hd : isBlank d = false) (hmark : d ≠ '$') :
    templateLine.foundFrom before 0 (blanks ++ d :: tail) = [] ∧
      ∀ text, templateLine.foundFrom before 0 ((blanks ++ d :: tail) ++ '\n' :: text) =
        templateLine.foundFrom (some '\n') 0 text := by
  have hnone := first?_templateLine_other hbefore hblanks hd hmark
  obtain ⟨halone, hmore⟩ := foundFrom_of_none before hline
  refine ⟨halone (hnone tail), fun text => hmore text ?_⟩
  rw [List.append_assoc, List.cons_append]
  exact hnone _

/-- A line that substitutes is taken whole. -/
theorem foundFrom_mark {blanks tail : List Char} (hline : '\n' ∉ blanks ++ '$' :: tail)
    (hblanks : AllBlank blanks) :
    templateLine.foundFrom before 0 (blanks ++ '$' :: tail) = [⟨blanks ++ '$' :: tail, []⟩] ∧
      ∀ text, templateLine.foundFrom before 0 ((blanks ++ '$' :: tail) ++ '\n' :: text) =
        ⟨blanks ++ '$' :: tail, []⟩ :: templateLine.foundFrom (some '\n') 0 text := by
  have htail : '\n' ∉ tail := fun hmem =>
    hline (List.mem_append_right _ (List.mem_cons_of_mem _ hmem))
  have hfirst : ∀ rest, endsLine rest = true →
      templateLine.first? before ((blanks ++ '$' :: tail) ++ rest) =
        some ⟨blanks ++ '$' :: tail, []⟩ := by
    intro rest hrest
    rw [List.append_assoc, List.cons_append]
    exact first?_templateLine_mark hbefore hblanks htail hrest
  have hne : blanks ++ '$' :: tail ≠ [] := by simp
  generalize blanks ++ '$' :: tail = line at hline hfirst hne ⊢
  -- behind the line, a line feed has no beginning of a line before it
  have hlast : startsLine line.getLast? = false := by
    rw [List.getLast?_eq_some_getLast hne]
    exact Pattern.startsLine_eq_false fun he => hline (he ▸ List.getLast_mem hne)
  constructor
  · have hfound := Pattern.foundFrom_of_taken (w := ⟨line, []⟩) _ (hfirst [] rfl) hne
    rwa [List.append_nil] at hfound
  · intro text
    have hfound := Pattern.foundFrom_of_taken (w := ⟨line, []⟩) _ (hfirst ('\n' :: text) rfl) hne
    rw [hfound, Pattern.foundFrom_of_none (first?_templateLine_eq_none hlast _)]

/-- A blank line is left alone, or it is taken together with what is found behind it. -/
theorem foundFrom_blank {line : List Char} (hline : '\n' ∉ line) (hblank : AllBlank line) :
    templateLine.foundFrom before 0 line = [] ∧
      ∀ text lines, List.Forall₂ TakenFor (templateLine.foundFrom (some '\n') 0 text) lines →
        List.Forall₂ TakenFor (templateLine.foundFrom before 0 (line ++ '\n' :: text)) lines := by
  obtain ⟨halone, hmore⟩ := foundFrom_of_none before hline
  refine ⟨halone (first?_templateLine_allBlank hbefore hblank), fun text lines hlines => ?_⟩
  have hfeed : ∀ {blanks}, AllBlank blanks → AllBlank (line ++ '\n' :: blanks) := fun hblanks =>
    List.forall_mem_append.2 ⟨hblank, List.forall_mem_cons.2 ⟨by decide, hblanks⟩⟩
  have hnext : startsLine (some '\n') = true := rfl
  cases opening text with
  | blank htext =>
    rw [hmore text (first?_templateLine_allBlank hbefore (hfeed htext))]
    exact hlines
  | @mark blanks tail hblanks =>
    obtain ⟨more, rest, rfl, hstops, hrest⟩ := exists_endsLine tail
    have hlast : ∀ front : List Char, (front ++ '$' :: more).getLast? = ('$' :: more).getLast? :=
      fun _ => List.getLast?_append_of_ne_nil _ (List.cons_ne_nil _ _)
    have hbehind := Pattern.foundFrom_of_taken (w := ⟨blanks ++ '$' :: more, []⟩) rest
      (by simpa using first?_templateLine_mark hnext hblanks hstops hrest) (by simp)
    have hwhole := Pattern.foundFrom_of_taken (w := ⟨line ++ '\n' :: blanks ++ '$' :: more, []⟩) rest
      (by simpa using first?_templateLine_mark hbefore (hfeed hblanks) hstops hrest) (by simp)
    -- both searches go on at one place, with one character before it
    rw [hlast] at hbehind hwhole
    simp only [List.append_assoc, List.cons_append] at hbehind hwhole
    rw [hbehind] at hlines
    rw [hwhole]
    cases hlines with
    | cons hfirst hothers =>
      obtain ⟨front, hfront, htaken⟩ := hfirst
      exact .cons ⟨line ++ '\n' :: front, hfeed hfront, by simpa using htaken⟩ hothers
  | other tail hblanks hd hmark =>
    have hnone := first?_templateLine_other hbefore (hfeed hblanks) hd hmark tail
    rw [List.append_assoc, List.cons_append] at hnone
    rw [hmore _ hnone]
    exact hlines

end

theorem takes_lines_from {before : Option Char} (hbefore : startsLine before = true)
    {lines : List (List Char)} (hlines : ∀ line ∈ lines, '\n' ∉ line) :
    List.Forall₂ TakenFor (templateLine.foundFrom before 0 (['\n'].intercalate lines))
      (lines.filter isSubstituted) := by
  induction lines generalizing before with
  | nil => exact .nil
  | cons line lines ih =>
    obtain ⟨hline, hlines⟩ := List.forall_mem_cons.1 hlines
    have hrest : List.Forall₂ TakenFor
        (templateLine.foundFrom (some '\n') 0 (['\n'].intercalate lines))
        (lines.filter isSubstituted) := ih rfl hlines
    cases opening line with
    | blank hblank =>
      obtain ⟨halone, hmore⟩ := foundFrom_blank hbefore hline hblank
      rw [List.filter_cons_of_neg (by simp [isSubstituted_of_allBlank hblank])]
      cases lines with
      | nil => rwa [List.intercalate_singleton, halone]
      | cons next lines =>
        rw [List.intercalate_cons_cons, List.append_assoc, List.singleton_append]
        exact hmore _ _ hrest
    | mark tail hblanks =>
      obtain ⟨halone, hmore⟩ := foundFrom_mark hbefore hline hblanks
      have hself : ∀ line, TakenFor ⟨line, []⟩ line := fun _ => ⟨[], List.forall_mem_nil _, rfl⟩
      rw [List.filter_cons_of_pos (isSubstituted_cons hblanks (by decide) tail)]
      cases lines with
      | nil =>
        rw [List.intercalate_singleton, halone]
        exact .cons (hself _) .nil
      | cons next lines =>
        rw [List.intercalate_cons_cons, List.append_assoc, List.singleton_append, hmore]
        exact .cons (hself _) hrest
    | other tail hblanks hd hmark =>
      obtain ⟨halone, hmore⟩ := foundFrom_other hbefore hline hblanks hd hmark
      rw [List.filter_cons_of_neg (by simp [isSubstituted_cons hblanks hd, hmark])]
      cases lines with
      | nil => rwa [List.intercalate_singleton, halone]
      | cons next lines =>
        rwa [List.intercalate_cons_cons, List.append_assoc, List.singleton_append, hmore]

/-- The search takes the lines that substitute, one after the other, and no others. -/
theorem takes_lines (text : List Char) : List.Forall₂ TakenFor (templateLine.foundClosed text)
    ((text.splitOn '\n').filter isSubstituted) := by
  have hlines : ∀ line ∈ text.splitOn '\n', '\n' ∉ line := fun _ => not_mem_of_mem_splitOn
  have hstart : startsLine none = true := rfl
  have hfound := takes_lines_from hstart hlines
  rw [List.intercalate_splitOn] at hfound
  rw [Pattern.foundClosed_eq_found fun _ _ _ => endsLine_of_first?]
  exact hfound

/-! ## Parameters on a line -/

def parameterPattern : Pattern :=
  .seq (.literal ['$', '(']) (.seq (.group 1 (.run isParameterChar)) (.literal [')']))

def takenName (w : Way) : Option (List Char) := w.group? 1

def writtenParameter (name : List Char) : List Char := '$' :: '(' :: (name ++ [')'])

/-- At `i`, a parameter of some name stands on a line. -/
structure StandsAt (line : List Char) (i : Nat) (name : List Char) : Prop where
  ne_nil : name ≠ []
  of_kind : ∀ c ∈ name, isParameterChar c = true
  written : writtenParameter name <+: line.drop i

theorem parameterAt?_drop {line name : List Char} {i : Nat} :
    parameterAt? (line.drop i) = some name ↔ StandsAt line i name := by
  unfold parameterAt?
  rw [Option.bind_eq_some_iff]
  constructor
  · rintro ⟨after, hafter, h⟩
    split at h
    · rename_i c more rest htake hdrop
      obtain rfl := Option.some.inj h
      have hboth : after.takeWhile isParameterChar ++ after.dropWhile isParameterChar = after :=
        List.takeWhile_append_dropWhile
      refine ⟨List.cons_ne_nil _ _, fun d hd => ?_, rest, ?_⟩
      · rw [← htake] at hd
        exact List.mem_takeWhile_imp hd
      · rw [htake, hdrop] at hboth
        rw [← List.isPrefixOf?_eq_some_iff_append_eq.1 hafter, ← hboth]
        simp [writtenParameter]
    · cases h
  · rintro ⟨hne, hkind, rest, hrest⟩
    have hrun : IsRun isParameterChar name (')' :: rest) :=
      ⟨hne, hkind, stops_cons (by decide) _⟩
    refine ⟨name ++ ')' :: rest, ?_, ?_⟩
    · rw [List.isPrefixOf?_eq_some_iff_append_eq]
      simpa [writtenParameter] using hrest
    · rw [hrun.takeWhile_eq, hrun.dropWhile_eq]
      obtain ⟨c, more, rfl⟩ := List.exists_cons_of_ne_nil hne
      rfl

/-! ### One place -/

/-- What is taken for a parameter. -/
def parameterWay (name : List Char) : Way := ⟨writtenParameter name, [(1, name)]⟩

theorem first?_parameterPattern (before : Option Char) (cs : List Char) :
    parameterPattern.first? before cs = (parameterAt? cs).map parameterWay := by
  have hstops : ∀ before c rest, isParameterChar c = true →
      (Pattern.literal [')']).ways before (c :: rest) = [] :=
    fun before c rest hc => Pattern.ways_literal_eq_nil hc (by decide) [] before rest
  rw [parameterPattern, Pattern.first?_literal_seq, parameterAt?, Option.map_bind]
  refine Option.bind_congr fun rest _ => ?_
  rw [Pattern.first?_group_run_seq hstops, Pattern.first?, Pattern.ways_literal, Function.comp_apply]
  cases rest.takeWhile isParameterChar with
  | nil => rfl
  | cons c name =>
    cases rest.dropWhile isParameterChar with
    | nil => rfl
    | cons d tail =>
      rw [if_neg (List.cons_ne_nil _ _)]
      by_cases hd : d = ')'
      · subst hd
        have hclose : [')'] <+: ')' :: tail := ⟨tail, rfl⟩
        rw [if_pos hclose]
        rfl
      · have hnot : ¬ [')'] <+: d :: tail := fun hclose => hd (List.cons_prefix_cons.1 hclose).1.symm
        rw [if_neg hnot]
        split
        · rename_i hcons
          exact absurd (List.cons.inj hcons).1 hd
        · rfl

/-! ### From place to place -/

theorem parametersIn_cons (c : Char) (cs : List Char) :
    parametersIn (c :: cs) = (parameterAt? (c :: cs)).toList ++ parametersIn cs := rfl

theorem parameterAt?_cons_of_ne {c : Char} (h : c ≠ '$') (cs : List Char) :
    parameterAt? (c :: cs) = none := by
  rw [parameterAt?, isPrefixOf?_eq_none (List.cons_ne_nil _ _) (by simp [Ne.symm h])]
  rfl

/-- No parameter begins where there is no mark. -/
theorem parametersIn_append {front : List Char} (h : '$' ∉ front) (cs : List Char) :
    parametersIn (front ++ cs) = parametersIn cs := by
  induction front with
  | nil => rfl
  | cons c front ih =>
    obtain ⟨hc, hfront⟩ := not_or.1 (fun hmem => h (List.mem_cons.2 hmem))
    rw [List.cons_append, parametersIn_cons, parameterAt?_cons_of_ne (Ne.symm hc), ih hfront]
    rfl

theorem mark_not_mem {cs : List Char} (h : AllBlank cs) : '$' ∉ cs :=
  fun hmem => absurd (h _ hmem) (by decide)

/-- The search finds the parameters of the rest of a line. -/
theorem parameterPattern_foundFrom (before : Option Char) (skip : Nat) (cs : List Char) :
    (parameterPattern.foundFrom before skip cs).filterMap takenName =
      parametersIn (cs.drop skip) := by
  induction cs generalizing before skip with
  | nil => rw [List.drop_nil]; rfl
  | cons c cs ih =>
    cases skip with
    | succ n => exact ih (some c) n
    | zero =>
      have hfirst := first?_parameterPattern before (c :: cs)
      rw [List.drop_zero, parametersIn_cons]
      cases hat : parameterAt? (c :: cs) with
      | none =>
        rw [hat] at hfirst
        rw [Pattern.foundFrom_of_none hfirst, ih]
        rfl
      | some name =>
        rw [hat] at hfirst
        obtain ⟨-, hkind, rest, hrest⟩ := (parameterAt?_drop (i := 0)).1 hat
        -- behind the mark, the search passes over a bracket, the name and a bracket
        have hname : '$' ∉ '(' :: (name ++ [')']) := by
          have hmark : '$' ∉ name := fun hmem => absurd (hkind _ hmem) (by decide)
          simp [hmark]
        have hcs : cs = '(' :: (name ++ [')']) ++ rest := (List.cons.inj hrest).2.symm
        have hgroup : takenName (parameterWay name) = some name := rfl
        have hlength : (parameterWay name).taken.length - 1 = ('(' :: (name ++ [')'])).length := rfl
        rw [Pattern.foundFrom_of_some hfirst, List.filterMap_cons_some hgroup, ih, hlength, hcs,
          List.drop_left, parametersIn_append hname]
        rfl

theorem parameterPattern_found (line : List Char) :
    (parameterPattern.found line).filterMap takenName = parametersIn line :=
  parameterPattern_foundFrom none 0 line

/-! ### All places -/

/-- From left to right, one name for each place where a parameter stands. -/
def Lists (line : List Char) (names : List (List Char)) : Prop :=
  ∃ places : List (Nat × List Char), places.map Prod.snd = names ∧
    places.Pairwise (fun p q => p.1 < q.1) ∧ ∀ i name, (i, name) ∈ places ↔ StandsAt line i name

theorem parametersIn_eq (line : List Char) : parametersIn line =
    (List.range line.length).filterMap fun i => parameterAt? (line.drop i) := by
  induction line with
  | nil => rfl
  | cons c cs ih =>
    rw [parametersIn_cons, List.length_cons, List.range_succ_eq_map, List.filterMap_cons,
      List.filterMap_map, ih, List.drop_zero]
    cases parameterAt? (c :: cs) with
    | none => rfl
    | some name => rfl

theorem lists_parametersIn (line : List Char) : Lists line (parametersIn line) := by
  refine ⟨(List.range line.length).filterMap fun i =>
    (parameterAt? (line.drop i)).map fun name => (i, name), ?_, ?_, fun i name => ?_⟩
  · rw [parametersIn_eq, List.map_filterMap]
    refine List.filterMap_congr fun i _ => ?_
    rw [Option.map_map]
    exact Option.map_id'
  · refine List.pairwise_lt_range.filterMap _ fun i j hlt p hp q hq => ?_
    obtain ⟨_, -, rfl⟩ := Option.map_eq_some_iff.1 hp
    obtain ⟨_, -, rfl⟩ := Option.map_eq_some_iff.1 hq
    exact hlt
  · rw [← parameterAt?_drop, List.mem_filterMap]
    constructor
    · rintro ⟨j, -, hj⟩
      obtain ⟨_, hat, he⟩ := Option.map_eq_some_iff.1 hj
      obtain ⟨rfl, rfl⟩ := Prod.mk.inj he
      exact hat
    · intro hat
      have hlt : i < line.length := by
        by_contra hge
        rw [List.drop_eq_nil_of_le (by omega)] at hat
        cases hat
      exact ⟨i, List.mem_range.2 hlt, by rw [hat]; rfl⟩

/-! ## Texts -/

/-- The lines are searched for, and then the parameters on each of them. -/
def searchedParameters (text : List Char) : List (List Char) :=
  (templateLine.foundClosed text).flatMap fun w => (parameterPattern.found w.taken).filterMap takenName

theorem parametersIn_of_takenFor {w : Way} {line : List Char} (h : TakenFor w line) :
    (parameterPattern.found w.taken).filterMap takenName = parametersIn line := by
  obtain ⟨blanks, hblanks, htaken⟩ := h
  rw [parameterPattern_found, htaken, parametersIn_append (mark_not_mem hblanks)]

theorem searchedParameters_eq (text : List Char) : searchedParameters text = parameterOccurrences text := by
  have hlines := takes_lines text
  unfold searchedParameters parameterOccurrences
  generalize templateLine.foundClosed text = ws at hlines ⊢
  generalize (text.splitOn '\n').filter isSubstituted = lines at hlines ⊢
  induction hlines with
  | nil => rfl
  | cons hfirst _ ih => rw [List.flatMap_cons, List.flatMap_cons, parametersIn_of_takenFor hfirst, ih]

/-- A parameter stands on a line that substitutes. -/
def OccursIn (text name : List Char) : Prop :=
  ∃ line ∈ text.splitOn '\n', isSubstituted line = true ∧ ∃ i, StandsAt line i name

theorem mem_parametersIn {line name : List Char} :
    name ∈ parametersIn line ↔ ∃ i, StandsAt line i name := by
  obtain ⟨places, hnames, -, hplaces⟩ := lists_parametersIn line
  rw [← hnames, List.mem_map]
  constructor
  · rintro ⟨⟨i, _⟩, hmem, rfl⟩
    exact ⟨i, (hplaces i _).1 hmem⟩
  · rintro ⟨i, hstands⟩
    exact ⟨(i, name), (hplaces i name).2 hstands, rfl⟩

theorem mem_parameterOccurrences {text name : List Char} :
    name ∈ parameterOccurrences text ↔ OccursIn text name := by
  unfold parameterOccurrences OccursIn
  simp only [List.mem_flatMap, List.mem_filter, mem_parametersIn, and_assoc]

/-- What the parameters of a text make: nothing if there are none, and else each one once, in the
order in which they occur for the first time. -/
inductive IsTemplateOf (text : List Char) (location : String) : Option Template → Prop
  | nothing : (∀ name, ¬OccursIn text name) → IsTemplateOf text location none
  | template {t : Template} : t.script = location → (∃ name, OccursIn text name) →
      t.parameters.Nodup → (∀ p, p ∈ t.parameters ↔ OccursIn text p.toList) →
      t.parameters.Pairwise (fun p q =>
        (searchedParameters text).idxOf p.toList < (searchedParameters text).idxOf q.toList) →
      IsTemplateOf text location (some t)

theorem template_of_script (text : List Char) (source location : String) :
    IsTemplateOf text location (Usage.ofPlain text source location).template := by
  rw [template_ofPlain]
  by_cases hnone : parameterOccurrences text = []
  · rw [if_pos hnone]
    refine .nothing fun name hname => ?_
    rw [← mem_parameterOccurrences, hnone] at hname
    exact List.not_mem_nil hname
  · rw [if_neg hnone, eraseDups_map fun _ _ => String.ofList_inj.1]
    obtain ⟨name, hname⟩ := List.exists_mem_of_ne_nil _ hnone
    refine .template rfl ⟨name, mem_parameterOccurrences.1 hname⟩ ?_ (fun p => ?_) ?_
    · exact (nodup_eraseDups _).map fun _ _ => String.ofList_inj.1
    · rw [← mem_parameterOccurrences, List.mem_map]
      constructor
      · rintro ⟨first, hfirst, rfl⟩
        rw [String.toList_ofList]
        exact List.mem_eraseDups.1 hfirst
      · exact fun hp => ⟨p.toList, List.mem_eraseDups.2 hp, String.ofList_toList⟩
    · rw [List.pairwise_map, searchedParameters_eq]
      simp only [String.toList_ofList]
      exact pairwise_idxOf_eraseDups _

/-- The two searches find the parameters on the lines that substitute, line by line and from left to
right, and a script is a template exactly if they find one. -/
theorem parameters_by_line :
    (∀ text, searchedParameters text = parameterOccurrences text ∧
      ∃ parts, List.Forall₂ Lists ((text.splitOn '\n').filter isSubstituted) parts ∧
        searchedParameters text = parts.flatten) ∧
    (∀ line, isSubstituted line = true ↔
      ∃ blanks rest, line = blanks ++ '$' :: rest ∧ AllBlank blanks) ∧
    ∀ text source location, IsTemplateOf (plain text.toList) location
      (Usage.ofText text source location).template := by
  refine ⟨fun text => ⟨searchedParameters_eq text, _, ?_, searchedParameters_eq text⟩,
    fun _ => isSubstituted_iff, fun text source location => template_of_script _ source location⟩
  rw [List.forall₂_map_right_iff]
  exact List.forall₂_same.2 fun line _ => lists_parametersIn line

/-- A blank line before the mark, marks that begin no parameter, and a line that does not
substitute. -/
example : searchedParameters "\n \r\n\t$say $($(a)$(b c)$(d)\n $(e)\nsay $(f)".toList =
    ["a".toList, "d".toList, "e".toList] := by
  decide +kernel

end PackBindings.Script
