/-
  PackBindings.Proofs.Text.LineSearch — what comes first in a pattern, and a search for one that
  begins at the beginning of a line.

  A run is taken whole where nothing has to follow it, and where what has to follow it does
  not begin like it.

  If no part of the pattern takes a line feed, a line is matched as if it stood alone
  (`ways_seam`), and what is taken stays on it. So a search through the whole text is one look
  at each line.

  A search may ask for the end of a line behind what is taken (`foundClosed`). Of the ways in
  which a place matches, those that end elsewhere do not count then.

  Proved, for all patterns and texts:
  - `isPrefix_of_mem_ways`: what is taken is the beginning of the text.
  - `head?_runs`: the longest run comes first.
  - `first?_literal_seq` / `first?_run_seq_optional` / `first?_run_seq` /
    `first?_optional_run_seq`: what comes first in a sequence.
  - `foundFrom_of_taken`: a search goes on behind what was taken.
  - `foundClosed_eq_found`: what goes up to the end of a line need not be asked to.
  - `found_lineStart_seq`: a search finds what the lines have, one after the other.
-/

import PackBindings.Proofs.Lists
import PackBindings.Text.Pattern

namespace PackBindings.Text

/-! ## Runs -/

theorem runs_cons (kind : Char → Bool) (c : Char) (cs : List Char) : runs kind (c :: cs) =
    if kind c then (runs kind cs).map (c :: ·) ++ [[c]] else [] := rfl

theorem head?_runs (kind : Char → Bool) (cs : List Char) : (runs kind cs).head? =
    if cs.takeWhile kind = [] then none else some (cs.takeWhile kind) := by
  induction cs with
  | nil => rfl
  | cons c cs ih =>
    rw [runs_cons, List.takeWhile_cons]
    by_cases hc : kind c = true
    · rw [if_pos hc, if_pos hc, if_neg (List.cons_ne_nil _ _), List.head?_append, List.head?_map, ih]
      by_cases hcs : cs.takeWhile kind = []
      · rw [if_pos hcs, hcs]
        rfl
      · rw [if_neg hcs]
        rfl
    · rw [if_neg hc, if_neg hc]
      rfl

theorem drop_length_takeWhile (kind : Char → Bool) (cs : List Char) :
    cs.drop (cs.takeWhile kind).length = cs.dropWhile kind := by
  have hboth : cs.takeWhile kind ++ cs.dropWhile kind = cs := List.takeWhile_append_dropWhile
  calc cs.drop (cs.takeWhile kind).length
      = (cs.takeWhile kind ++ cs.dropWhile kind).drop (cs.takeWhile kind).length := by rw [hboth]
    _ = cs.dropWhile kind := List.drop_left

theorem mem_runs {kind : Char → Bool} {cs taken : List Char} (h : taken ∈ runs kind cs) :
    (∀ c ∈ taken, kind c = true) ∧ taken <+: cs := by
  induction cs generalizing taken with
  | nil => cases h
  | cons c cs ih =>
    rw [runs_cons] at h
    split at h
    · rename_i hc
      rcases List.mem_append.1 h with h | h
      · obtain ⟨rest, hrest, rfl⟩ := List.mem_map.1 h
        obtain ⟨hkind, hfront⟩ := ih hrest
        exact ⟨List.forall_mem_cons.2 ⟨hc, hkind⟩, List.cons_prefix_cons.2 ⟨rfl, hfront⟩⟩
      · rw [List.mem_singleton.1 h]
        exact ⟨List.forall_mem_singleton.2 hc, List.cons_prefix_cons.2 ⟨rfl, List.nil_prefix⟩⟩
    · cases h

/-- Behind every run but the longest, a character of the kind follows. -/
theorem head?_drop_of_mem_tail_runs {kind : Char → Bool} {cs taken : List Char}
    (h : taken ∈ (runs kind cs).tail) : ∃ c rest, cs.drop taken.length = c :: rest ∧ kind c = true := by
  induction cs generalizing taken with
  | nil => cases h
  | cons c cs ih =>
    rw [runs_cons] at h
    split at h
    · cases hruns : runs kind cs with
      | nil => simp [hruns] at h
      | cons longest others =>
        rw [hruns, List.map_cons, List.cons_append, List.tail_cons] at h
        rcases List.mem_append.1 h with h | h
        · obtain ⟨shorter, hshorter, rfl⟩ := List.mem_map.1 h
          rw [hruns] at ih
          exact ih hshorter
        · obtain rfl := List.mem_singleton.1 h
          cases cs with
          | nil => cases hruns
          | cons d cs =>
            rw [runs_cons] at hruns
            split at hruns
            · rename_i hd
              exact ⟨d, cs, rfl, hd⟩
            · cases hruns
    · cases h

theorem runs_seam {kind : Char → Bool} {c : Char} (hc : kind c = false) (line rest : List Char) :
    runs kind (line ++ c :: rest) = runs kind line := by
  induction line with
  | nil => rw [List.nil_append, runs_cons, hc, if_neg Bool.false_ne_true, runs]
  | cons d line ih => rw [List.cons_append, runs_cons, runs_cons, ih]

/-- The end of the text, or the place before a line feed. -/
def endsLine (cs : List Char) : Bool := cs.head? == none || cs.head? == some '\n'

namespace Pattern

/-! ## Ways -/

section

variable (before : Option Char) (cs : List Char)

theorem ways_nothing : nothing.ways before cs = [⟨[], []⟩] := rfl

theorem ways_lineStart : lineStart.ways before cs =
    if startsLine before then [⟨[], []⟩] else [] := rfl

theorem ways_wordEdge : wordEdge.ways before cs =
    if before.any isWord != cs.head?.any isWord then [⟨[], []⟩] else [] := rfl

theorem ways_one (kind : Char → Bool) : (one kind).ways before cs =
    (cs.head?.filter kind).toList.map fun c => ⟨[c], []⟩ := rfl

theorem ways_run (kind : Char → Bool) : (run kind).ways before cs =
    (runs kind cs).map fun taken => ⟨taken, []⟩ := rfl

theorem ways_seq (p q : Pattern) : (seq p q).ways before cs = (p.ways before cs).flatMap fun w =>
    (q.ways (w.taken.getLast?.or before) (cs.drop w.taken.length)).map w.follow := rfl

theorem ways_either (p q : Pattern) : (either p q).ways before cs =
    p.ways before cs ++ q.ways before cs := rfl

theorem ways_group (number : Nat) (p : Pattern) : (group number p).ways before cs =
    (p.ways before cs).map fun w => ⟨w.taken, (number, w.taken) :: w.groups⟩ := rfl

end

theorem isPrefix_of_mem_ways {p : Pattern} {before : Option Char} {cs : List Char} {w : Way}
    (h : w ∈ p.ways before cs) : w.taken <+: cs := by
  induction p generalizing before cs w with
  | nothing => exact List.mem_singleton.1 h ▸ List.nil_prefix
  | lineStart =>
    rw [ways_lineStart] at h
    split at h
    · exact List.mem_singleton.1 h ▸ List.nil_prefix
    · cases h
  | wordEdge =>
    rw [ways_wordEdge] at h
    split at h
    · exact List.mem_singleton.1 h ▸ List.nil_prefix
    · cases h
  | one kind =>
    obtain ⟨c, hc, rfl⟩ := List.mem_map.1 h
    obtain ⟨hhead, -⟩ := Option.filter_eq_some_iff.1 (Option.mem_toList.1 hc)
    obtain ⟨rest, rfl⟩ := List.head?_eq_some_iff.1 hhead
    exact ⟨rest, rfl⟩
  | run kind =>
    obtain ⟨taken, htaken, rfl⟩ := List.mem_map.1 h
    exact (mem_runs htaken).2
  | seq p q ihp ihq =>
    obtain ⟨u, hu, hw⟩ := List.mem_flatMap.1 h
    obtain ⟨v, hv, rfl⟩ := List.mem_map.1 hw
    obtain ⟨rest, hrest⟩ := ihp hu
    have hafter := ihq hv
    rw [← hrest, List.drop_left] at hafter
    rw [← hrest]
    exact (List.prefix_append_right_inj u.taken).2 hafter
  | either p q ihp ihq =>
    rcases List.mem_append.1 h with h | h
    · exact ihp h
    · exact ihq h
  | group number p ih =>
    obtain ⟨u, hu, rfl⟩ := List.mem_map.1 h
    exact ih (w := u) hu

/-- No part of the pattern takes the character. -/
def avoids (c : Char) : Pattern → Bool
  | .nothing | .lineStart | .wordEdge => true
  | .one kind | .run kind => !kind c
  | .seq p q | .either p q => avoids c p && avoids c q
  | .group _ p => avoids c p

/-- A line is matched as if it stood alone. -/
theorem ways_seam {p : Pattern} (h : p.avoids '\n' = true) (before : Option Char) (line rest : List Char) :
    p.ways before (line ++ '\n' :: rest) = p.ways before line := by
  induction p generalizing before line with
  | nothing => rfl
  | lineStart => rfl
  | wordEdge =>
    cases line with
    | nil =>
      simp [ways_wordEdge, isWord_feed]
    | cons c line => rfl
  | one kind =>
    have hfeed : kind '\n' = false := by simpa [avoids] using h
    cases line with
    | nil => simp [ways_one, hfeed]
    | cons c line => rfl
  | run kind =>
    have hfeed : kind '\n' = false := by simpa [avoids] using h
    rw [ways_run, ways_run, runs_seam hfeed]
  | seq p q ihp ihq =>
    obtain ⟨hp, hq⟩ := Bool.and_eq_true_iff.1 h
    rw [ways_seq, ways_seq, ihp hp]
    refine List.flatMap_congr fun u hu => ?_
    rw [List.drop_append_of_le_length (isPrefix_of_mem_ways hu).length_le, ihq hq]
  | either p q ihp ihq =>
    obtain ⟨hp, hq⟩ := Bool.and_eq_true_iff.1 h
    rw [ways_either, ways_either, ihp hp, ihq hq]
  | group number p ih => rw [ways_group, ways_group, ih h]

/-- No character before the text is like a line feed before it. -/
theorem ways_feed (p : Pattern) (cs : List Char) : p.ways (some '\n') cs = p.ways none cs := by
  induction p generalizing cs with
  | nothing => rfl
  | lineStart => rfl
  | wordEdge => simp [ways_wordEdge, isWord_feed]
  | one kind => rfl
  | run kind => rfl
  | seq p q ihp ihq =>
    rw [ways_seq, ways_seq, ihp]
    refine List.flatMap_congr fun u _ => ?_
    cases u.taken.getLast? with
    | none => rw [Option.none_or, Option.none_or, ihq]
    | some c => rfl
  | either p q ihp ihq => rw [ways_either, ways_either, ihp, ihq]
  | group number p ih => rw [ways_group, ways_group, ih]

/-! ## The way that counts -/

section

variable {p q : Pattern} {before : Option Char} {cs : List Char}

theorem first?_either : (either p q).first? before cs = (p.first? before cs).or (q.first? before cs) := by
  rw [first?, ways_either, List.head?_append]
  rfl

theorem first?_either_seq {r : Pattern} : (seq (either p q) r).first? before cs =
    ((seq p r).first? before cs).or ((seq q r).first? before cs) := by
  rw [first?, ways_seq, ways_either, List.flatMap_append, List.head?_append]
  rfl

theorem first?_group (number : Nat) : (group number p).first? before cs =
    (p.first? before cs).map fun w => ⟨w.taken, (number, w.taken) :: w.groups⟩ := by
  rw [first?, ways_group, List.head?_map]
  rfl

theorem first?_run (kind : Char → Bool) : (run kind).first? before cs =
    if cs.takeWhile kind = [] then none else some ⟨cs.takeWhile kind, []⟩ := by
  rw [first?, ways_run, List.head?_map, head?_runs]
  split <;> rfl

theorem ways_literal_cons (c : Char) (text : List Char) (before : Option Char) (cs : List Char) :
    (literal (c :: text)).ways before cs = (cs.head?.filter (· == c)).toList.flatMap fun d =>
      ((literal text).ways (some d) (cs.drop 1)).map (Way.mk [d] []).follow := by
  show (seq (one (· == c)) (literal text)).ways before cs = _
  rw [ways_seq, ways_one, List.flatMap_map]
  rfl

theorem ways_literal (text : List Char) (before : Option Char) (cs : List Char) :
    (literal text).ways before cs = if text <+: cs then [⟨text, []⟩] else [] := by
  induction text generalizing before cs with
  | nil => rw [if_pos List.nil_prefix, literal, ways_nothing]
  | cons c text ih =>
    rw [ways_literal_cons]
    cases cs with
    | nil => simp
    | cons d cs =>
      by_cases hd : d = c
      · subst hd
        by_cases htext : text <+: cs
        · simp [ih, htext, Way.follow, Option.filter_some]
        · simp [ih, htext, Option.filter_some]
      · have hnot : ¬ c :: text <+: d :: cs := fun h => hd (List.cons_prefix_cons.1 h).1.symm
        simp [hd, hnot]

/-- What follows a run of one kind does not begin with a literal of another kind. -/
theorem ways_literal_eq_nil {kind : Char → Bool} {c d : Char} (hc : kind c = true) (hd : kind d = false)
    (text : List Char) (before : Option Char) (rest : List Char) :
    (literal (d :: text)).ways before (c :: rest) = [] := by
  have hnot : ¬ d :: text <+: c :: rest := by
    intro hfront
    rw [(List.cons_prefix_cons.1 hfront).1, hc] at hd
    cases hd
  rw [ways_literal, if_neg hnot]

theorem ways_seq_eq_nil (h : p.ways before cs = []) : (seq p q).ways before cs = [] := by
  rw [ways_seq, h]
  rfl

theorem first?_literal_seq (text : List Char) : (seq (literal text) q).first? before cs =
    (text.isPrefixOf? cs).bind fun rest =>
      (q.first? (text.getLast?.or before) rest).map (Way.mk text []).follow := by
  rw [first?, ways_seq, ways_literal]
  cases htext : text.isPrefixOf? cs with
  | none =>
    have hnot : ¬ text <+: cs := by
      intro ⟨rest, hrest⟩
      rw [List.isPrefixOf?_eq_some_iff_append_eq.2 hrest] at htext
      cases htext
    rw [if_neg hnot]
    rfl
  | some rest =>
    obtain rfl := List.append_eq_of_isPrefixOf?_eq_some htext
    rw [if_pos (List.prefix_append text rest), List.flatMap_singleton, List.drop_left, List.head?_map]
    rfl

theorem first?_seq {u v : Way} (hp : p.first? before cs = some u)
    (hq : q.first? (u.taken.getLast?.or before) (cs.drop u.taken.length) = some v) :
    (seq p q).first? before cs = some (u.follow v) := by
  obtain ⟨others, hothers⟩ := List.head?_eq_some_iff.1 hp
  obtain ⟨more, hmore⟩ := List.head?_eq_some_iff.1 hq
  rw [first?, ways_seq, hothers, List.flatMap_cons, hmore]
  rfl

theorem first?_seq_eq_none (hp : p.first? before cs = none) : (seq p q).first? before cs = none := by
  rw [first?, ways_seq, List.head?_eq_none_iff.1 hp]
  rfl

/-- A run is taken whole if nothing has to follow it. -/
theorem first?_run_seq_optional (kind : Char → Bool) : (seq (run kind) (optional p)).first? before cs =
    if cs.takeWhile kind = [] then none
    else some ((Way.mk (cs.takeWhile kind) []).follow
      ((p.first? ((cs.takeWhile kind).getLast?.or before) (cs.dropWhile kind)).getD ⟨[], []⟩)) := by
  have hrun := @first?_run before cs kind
  by_cases hnil : cs.takeWhile kind = []
  · rw [if_pos hnil] at hrun
    rw [if_pos hnil, first?_seq_eq_none hrun]
  · rw [if_neg hnil] at hrun
    rw [if_neg hnil]
    refine first?_seq hrun ?_
    rw [drop_length_takeWhile, optional, first?_either]
    cases p.first? ((cs.takeWhile kind).getLast?.or before) (cs.dropWhile kind) with
    | none => rfl
    | some w => rfl

/-- Of all runs, the longest one counts if what has to follow does not begin with a character of
their kind. -/
theorem head?_flatMap_runs {kind : Char → Bool} (groups : List Char → List (Nat × List Char))
    (hstops : ∀ before c rest, kind c = true → p.ways before (c :: rest) = []) :
    ((runs kind cs).flatMap fun taken =>
      (p.ways (taken.getLast?.or before) (cs.drop taken.length)).map
        (Way.mk taken (groups taken)).follow).head? =
      if cs.takeWhile kind = [] then none
      else (p.first? ((cs.takeWhile kind).getLast?.or before) (cs.dropWhile kind)).map
        (Way.mk (cs.takeWhile kind) (groups (cs.takeWhile kind))).follow := by
  have hhead := head?_runs kind cs
  have htail := @head?_drop_of_mem_tail_runs kind cs
  generalize runs kind cs = found at hhead htail
  cases found with
  | nil =>
    split at hhead
    · rw [if_pos ‹_›]
      rfl
    · cases hhead
  | cons longest others =>
    split at hhead
    · cases hhead
    · obtain rfl := Option.some.inj hhead
      rw [if_neg ‹_›, List.flatMap_cons, List.flatMap_eq_nil_iff.2, List.append_nil, List.head?_map,
        drop_length_takeWhile, first?]
      intro taken htaken
      obtain ⟨c, rest, hdrop, hc⟩ := htail htaken
      rw [hdrop, hstops _ c rest hc, List.map_nil]

theorem first?_run_seq {kind : Char → Bool}
    (hstops : ∀ before c rest, kind c = true → p.ways before (c :: rest) = []) :
    (seq (run kind) p).first? before cs =
      if cs.takeWhile kind = [] then none
      else (p.first? ((cs.takeWhile kind).getLast?.or before) (cs.dropWhile kind)).map
        (Way.mk (cs.takeWhile kind) []).follow := by
  rw [first?, ways_seq, ways_run, List.flatMap_map]
  exact head?_flatMap_runs (fun _ => []) hstops

/-- A run is taken whole if what has to follow it does not begin with a character of its kind. -/
theorem first?_group_run_seq {number : Nat} {kind : Char → Bool}
    (hstops : ∀ before c rest, kind c = true → p.ways before (c :: rest) = []) :
    (seq (group number (run kind)) p).first? before cs =
      if cs.takeWhile kind = [] then none
      else (p.first? ((cs.takeWhile kind).getLast?.or before) (cs.dropWhile kind)).map
        (Way.mk (cs.takeWhile kind) [(number, cs.takeWhile kind)]).follow := by
  rw [first?, ways_seq, ways_group, ways_run, List.map_map, List.flatMap_map]
  exact head?_flatMap_runs (fun taken => [(number, taken)]) hstops

theorem first?_nothing_seq : (seq nothing p).first? before cs = p.first? before cs := by
  rw [first?, ways_seq, ways_nothing, List.flatMap_singleton, List.head?_map, List.length_nil,
    List.drop_zero]
  exact Option.map_id'

/-- Also a run that may be empty is taken whole then. -/
theorem first?_optional_run_seq {kind : Char → Bool}
    (hstops : ∀ before c rest, kind c = true → p.ways before (c :: rest) = []) :
    (seq (optional (run kind)) p).first? before cs =
      (p.first? ((cs.takeWhile kind).getLast?.or before) (cs.dropWhile kind)).map
        (Way.mk (cs.takeWhile kind) []).follow := by
  rw [optional, first?_either_seq, first?_run_seq hstops, first?_nothing_seq]
  cases cs with
  | nil => exact Option.map_id'.symm
  | cons c cs =>
    by_cases hc : kind c = true
    · have hnone : p.first? before (c :: cs) = none := by
        rw [first?, hstops before c cs hc]
        rfl
      rw [hnone, Option.or_none, List.takeWhile_cons_of_pos hc, if_neg (List.cons_ne_nil _ _)]
    · rw [List.takeWhile_cons_of_neg hc, List.dropWhile_cons_of_neg hc, if_pos rfl]
      exact Option.map_id'.symm

theorem first?_optional_run (kind : Char → Bool) :
    (optional (run kind)).first? before cs = some ⟨cs.takeWhile kind, []⟩ := by
  rw [optional, first?_either, first?_run]
  split
  · rename_i hnil
    rw [hnil]
    rfl
  · rfl

theorem first?_wordEdge_seq : (seq wordEdge p).first? before cs =
    if before.any isWord != cs.head?.any isWord then p.first? before cs else none := by
  rw [first?, ways_seq, ways_wordEdge]
  split
  · rw [List.flatMap_singleton, List.head?_map, List.length_nil, List.drop_zero]
    exact Option.map_id'
  · rfl

theorem first?_lineStart_seq : (seq lineStart q).first? before cs =
    if startsLine before then q.first? before cs else none := by
  rw [first?, ways_seq, ways_lineStart]
  split
  · rw [List.flatMap_singleton, List.head?_map, List.length_nil, List.drop_zero]
    exact Option.map_id'
  · rfl

end

/-! ## Searches -/

theorem foundFrom_of_none {p : Pattern} {before : Option Char} {c : Char} {cs : List Char}
    (h : p.first? before (c :: cs) = none) :
    p.foundFrom before 0 (c :: cs) = p.foundFrom (some c) 0 cs := by
  rw [foundFrom, h]

theorem foundFrom_of_some {p : Pattern} {before : Option Char} {c : Char} {cs : List Char} {w : Way}
    (h : p.first? before (c :: cs) = some w) : p.foundFrom before 0 (c :: cs) =
      w :: p.foundFrom (some c) (w.taken.length - 1) cs := by
  rw [foundFrom, h]

theorem getLast?_cons_eq_or (c : Char) (cs : List Char) :
    (c :: cs).getLast? = cs.getLast?.or (some c) := by
  rw [List.getLast?_cons]
  cases cs.getLast? with
  | none => rfl
  | some d => rfl

theorem foundFrom_append (p : Pattern) (before : Option Char) (xs ys : List Char) :
    p.foundFrom before xs.length (xs ++ ys) = p.foundFrom (xs.getLast?.or before) 0 ys := by
  induction xs generalizing before with
  | nil => rfl
  | cons c xs ih =>
    rw [getLast?_cons_eq_or, Option.or_assoc, Option.some_or, ← ih]
    rfl

/-- The search goes on behind what is taken. -/
theorem foundFrom_of_taken {p : Pattern} {before : Option Char} {w : Way} (rest : List Char)
    (h : p.first? before (w.taken ++ rest) = some w) (hne : w.taken ≠ []) :
    p.foundFrom before 0 (w.taken ++ rest) = w :: p.foundFrom w.taken.getLast? 0 rest := by
  obtain ⟨c, cs, htaken⟩ := List.exists_cons_of_ne_nil hne
  rw [htaken, List.cons_append] at h ⊢
  rw [foundFrom_of_some h, htaken, getLast?_cons_eq_or, ← foundFrom_append]
  rfl

/-! ## Ends of lines -/

/-- The way that counts if a line has to end behind what is taken. -/
def closed? (p : Pattern) (before : Option Char) (cs : List Char) : Option Way :=
  (p.ways before cs).find? fun w => endsLine (cs.drop w.taken.length)

/-- A search for what has to go up to the end of a line. -/
def closedFrom (p : Pattern) (before : Option Char) (skip : Nat) : List Char → List Way
  | [] => []
  | c :: cs =>
    match skip with
    | n + 1 => closedFrom p (some c) n cs
    | 0 =>
      match p.closed? before (c :: cs) with
      | some w => w :: closedFrom p (some c) (w.taken.length - 1) cs
      | none => closedFrom p (some c) 0 cs

def foundClosed (p : Pattern) (text : List Char) : List Way := p.closedFrom none 0 text

/-- A pattern that goes up to the end of a line anyhow need not be told so. -/
theorem foundClosed_eq_found {p : Pattern} (h : ∀ before cs w, p.first? before cs = some w →
    endsLine (cs.drop w.taken.length) = true) (text : List Char) : p.foundClosed text = p.found text := by
  have hclosed : ∀ before cs, p.closed? before cs = p.first? before cs := by
    intro before cs
    have hends := h before cs
    unfold closed?
    unfold first? at hends ⊢
    generalize p.ways before cs = ws at hends ⊢
    cases ws with
    | nil => rfl
    | cons w ws => exact List.find?_cons_of_pos (hends w rfl)
  have hsearch : ∀ before skip cs, p.closedFrom before skip cs = p.foundFrom before skip cs := by
    intro before skip cs
    induction cs generalizing before skip with
    | nil => rfl
    | cons c cs ih =>
      cases skip with
      | succ n => exact ih (some c) n
      | zero =>
        rw [closedFrom, foundFrom, hclosed]
        cases p.first? before (c :: cs) with
        | none => exact ih (some c) 0
        | some w => exact congrArg _ (ih (some c) _)
  exact hsearch none 0 text

/-! ## Lines -/

section

variable {q : Pattern} (hq : q.avoids '\n' = true)

include hq

theorem first?_seam (before : Option Char) (line rest : List Char) :
    (seq lineStart q).first? before (line ++ '\n' :: rest) = (seq lineStart q).first? before line := by
  have hwhole : (seq lineStart q).avoids '\n' = true := hq
  rw [first?, ways_seam hwhole, first?]

omit hq in
theorem first?_within {before : Option Char} (h : startsLine before = false) (cs : List Char) :
    (seq lineStart q).first? before cs = none := by
  rw [first?_lineStart_seq, if_neg (by simp [h])]

omit hq in
theorem startsLine_eq_false {c : Char} (h : c ≠ '\n') : startsLine (some c) = false := by
  simp [startsLine, h]

omit hq in
/-- Behind the beginning of a line, nothing is found on it. -/
theorem foundFrom_within {before : Option Char} (hbefore : startsLine before = false) {skip : Nat}
    {xs : List Char} (hskip : skip ≤ xs.length) (hxs : '\n' ∉ xs) :
    (seq lineStart q).foundFrom before skip xs = [] ∧
      ∀ rest, (seq lineStart q).foundFrom before skip (xs ++ '\n' :: rest) =
        (seq lineStart q).foundFrom (some '\n') 0 rest := by
  induction xs generalizing before skip with
  | nil =>
    obtain rfl : skip = 0 := Nat.le_zero.1 hskip
    refine ⟨rfl, fun rest => ?_⟩
    rw [List.nil_append, foundFrom_of_none (first?_within hbefore _)]
  | cons c xs ih =>
    obtain ⟨hc, hxs⟩ := not_or.1 (fun h => hxs (List.mem_cons.2 h))
    have hnext := startsLine_eq_false (Ne.symm hc)
    cases skip with
    | succ n => exact ih hnext (Nat.le_of_succ_le_succ hskip) hxs
    | zero =>
      have hrest := ih hnext (Nat.zero_le _) hxs
      refine ⟨?_, fun rest => ?_⟩
      · rw [foundFrom_of_none (first?_within hbefore _)]
        exact hrest.1
      · rw [List.cons_append, foundFrom_of_none (first?_within hbefore _)]
        exact hrest.2 rest

omit hq in
/-- On a line where nothing is found at the beginning, nothing is found. -/
theorem foundFrom_line_of_none (before : Option Char) {line : List Char} (hline : '\n' ∉ line) :
    ((seq lineStart q).first? before line = none → (seq lineStart q).foundFrom before 0 line = []) ∧
      ∀ rest, (seq lineStart q).first? before (line ++ '\n' :: rest) = none →
        (seq lineStart q).foundFrom before 0 (line ++ '\n' :: rest) =
          (seq lineStart q).foundFrom (some '\n') 0 rest := by
  cases line with
  | nil => exact ⟨fun _ => rfl, fun rest h => foundFrom_of_none h⟩
  | cons c cs =>
    obtain ⟨hc, hcs⟩ := not_or.1 (fun h => hline (List.mem_cons.2 h))
    have hrest := foundFrom_within (q := q) (startsLine_eq_false (Ne.symm hc)) (Nat.zero_le _) hcs
    exact ⟨fun h => (foundFrom_of_none h).trans hrest.1,
      fun rest h => (foundFrom_of_none h).trans (hrest.2 rest)⟩

/-- What is found on a line is found at its beginning. -/
theorem foundFrom_line (hnil : (seq lineStart q).first? none [] = none) {before : Option Char}
    (hbefore : startsLine before = true) {line : List Char} (hline : '\n' ∉ line) :
    (seq lineStart q).foundFrom before 0 line = ((seq lineStart q).first? none line).toList ∧
      ∀ rest, (seq lineStart q).foundFrom before 0 (line ++ '\n' :: rest) =
        ((seq lineStart q).first? none line).toList ++
          (seq lineStart q).foundFrom (some '\n') 0 rest := by
  have hfirst : ∀ cs, (seq lineStart q).first? before cs = (seq lineStart q).first? none cs := by
    intro cs
    cases before with
    | none => rfl
    | some c =>
      obtain rfl : c = '\n' := by simpa [startsLine] using hbefore
      rw [first?, ways_feed, first?]
  have hseam : ∀ rest, (seq lineStart q).first? before (line ++ '\n' :: rest) =
      (seq lineStart q).first? none line := fun rest => by rw [hfirst, first?_seam hq]
  cases hw : (seq lineStart q).first? none line with
  | none =>
    obtain ⟨halone, hmore⟩ := foundFrom_line_of_none (q := q) before hline
    exact ⟨halone ((hfirst line).trans hw), fun rest => hmore rest ((hseam rest).trans hw)⟩
  | some w =>
    cases line with
    | nil =>
      rw [hnil] at hw
      cases hw
    | cons c cs =>
      obtain ⟨hc, hcs⟩ := not_or.1 (fun h => hline (List.mem_cons.2 h))
      have hlength : w.taken.length - 1 ≤ cs.length := by
        have := (isPrefix_of_mem_ways (List.mem_of_mem_head? hw)).length_le
        rw [List.length_cons] at this
        omega
      have hrest := foundFrom_within (q := q) (startsLine_eq_false (Ne.symm hc)) hlength hcs
      refine ⟨?_, fun rest => ?_⟩
      · rw [foundFrom_of_some ((hfirst _).trans hw), hrest.1]
        rfl
      · have hwhole := (hseam rest).trans hw
        rw [List.cons_append] at hwhole ⊢
        rw [foundFrom_of_some hwhole, hrest.2]
        rfl

theorem foundFrom_lines (hnil : (seq lineStart q).first? none [] = none) {before : Option Char}
    (hbefore : startsLine before = true) {lines : List (List Char)}
    (hlines : ∀ line ∈ lines, '\n' ∉ line) :
    (seq lineStart q).foundFrom before 0 (['\n'].intercalate lines) =
      lines.filterMap ((seq lineStart q).first? none) := by
  induction lines generalizing before with
  | nil => rfl
  | cons line lines ih =>
    obtain ⟨hline, hlines⟩ := List.forall_mem_cons.1 hlines
    obtain ⟨hlast, hmore⟩ := foundFrom_line hq hnil hbefore hline
    have hcons : (line :: lines).filterMap ((seq lineStart q).first? none) =
        ((seq lineStart q).first? none line).toList ++
          lines.filterMap ((seq lineStart q).first? none) := by
      rw [List.filterMap_cons]
      cases (seq lineStart q).first? none line with
      | none => rfl
      | some w => rfl
    rw [hcons]
    cases lines with
    | nil => rw [List.intercalate_singleton, hlast, List.filterMap_nil, List.append_nil]
    | cons next lines =>
      rw [List.intercalate_cons_cons, List.append_assoc, List.singleton_append, hmore, ih rfl hlines]

/-- A search for a pattern at the beginning of a line takes one look at each line. -/
theorem found_lineStart_seq (hnil : (seq lineStart q).first? none [] = none) (text : List Char) :
    (seq lineStart q).found text =
      (text.splitOn '\n').filterMap ((seq lineStart q).first? none) := by
  have hlines : ∀ line ∈ text.splitOn '\n', '\n' ∉ line := fun _ => not_mem_of_mem_splitOn
  have hstart : startsLine none = true := rfl
  have hfound := foundFrom_lines hq hnil hstart hlines
  rwa [List.intercalate_splitOn] at hfound

end

end Pattern

end PackBindings.Text
