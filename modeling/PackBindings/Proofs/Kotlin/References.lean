/-
  PackBindings.Proofs.Kotlin.References — the classes and functions that a declaration refers to.

  A type refers to every name in it (`typeNames`), an expression to every name that it
  calls: a name, with dots or without, before a parenthesis or a brace (`callsOf`). What
  stands in a string literal is no reference, so an expression is read character by
  character, with one state for code and one for literals (`Reader`). The imports or the
  objects around decide what the part of a name before its first dot means (`headOf`).

  Proved, for all texts:
  - `Calls.append` / `Calls.intercalate`: what is read part by part calls what its parts do.
  - `Calls.literal`: a literal is left where it ends, and nothing in it is a call, whatever
    text it stands for.
  - `Calls.silent`: without parentheses, braces and literals nothing is called.
  - `callsOf_call` / `Calls.block`: a name is called where its arguments or its block begin.
-/

import Mathlib.Data.List.TakeWhile
import PackBindings.Bindings.Accessor
import PackBindings.Proofs.Kotlin.Literals
import PackBindings.Proofs.Kotlin.NameCharacters

namespace PackBindings.Kotlin

/-! ## Reading expressions -/

/-- The characters of a name with dots. -/
def isReferenceChar (c : Char) : Bool := isNameChar c || c == '.'

/-- A name that may have dots. -/
def IsReference (text : String) : Prop :=
  text ≠ "" ∧ ∀ c ∈ text.toList, isReferenceChar c = true

instance (text : String) : Decidable (IsReference text) :=
  decidable_of_iff (text ≠ "" ∧ text.toList.all isReferenceChar = true)
    (and_congr_right' List.all_eq_true)

/-- Without parentheses, braces and literals. -/
def IsSilent (text : List Char) : Prop := ∀ c ∈ text, (c != '(' && c != '{' && c != '"') = true

instance (text : List Char) : Decidable (IsSilent text) :=
  decidable_of_iff (text.all (fun c => c != '(' && c != '{' && c != '"') = true) List.all_eq_true

theorem isSilent_iff {text : List Char} :
    IsSilent text ↔ ∀ c ∈ text, c ≠ '(' ∧ c ≠ '{' ∧ c ≠ '"' := by
  simp [IsSilent, and_assoc]

/-- What has just been read. -/
inductive Reader where
  /-- Code that ends in the name `word`, with blanks after it or without. -/
  | code (word : List Char) (blank : Bool)
  /-- The inside of a literal, with a backslash at the end or without. -/
  | literal (escaped : Bool)

namespace Reader

def step : Reader → Char → Reader
  | code word blank, c =>
    if isReferenceChar c then code (if blank then [c] else word ++ [c]) false
    else if c = ' ' then code word true
    else if c = '"' then literal false
    else code [] false
  | literal true, _ => literal false
  | literal false, c => if c = '"' then code [] false else literal (c = '\\')

/-- The name that a character calls. -/
def call? : Reader → Char → Option (List Char)
  | code word _, c => if (c = '(' ∨ c = '{') ∧ word ≠ [] then some word else none
  | literal _, _ => none

def run (r : Reader) (text : List Char) : Reader := text.foldl step r

def calledFrom (r : Reader) : List Char → List (List Char)
  | [] => []
  | c :: cs => (r.call? c).toList ++ (r.step c).calledFrom cs

@[simp] theorem run_nil (r : Reader) : r.run [] = r := rfl

@[simp] theorem run_cons (r : Reader) (c : Char) (cs : List Char) :
    r.run (c :: cs) = (r.step c).run cs := rfl

theorem run_append (r : Reader) (xs ys : List Char) : r.run (xs ++ ys) = (r.run xs).run ys :=
  List.foldl_append

theorem calledFrom_append (r : Reader) (xs ys : List Char) :
    r.calledFrom (xs ++ ys) = r.calledFrom xs ++ (r.run xs).calledFrom ys := by
  induction xs generalizing r with
  | nil => rfl
  | cons c cs ih =>
    rw [List.cons_append, calledFrom, calledFrom, ih, List.append_assoc]
    rfl

/-- Only a parenthesis or a brace calls what stands before it. -/
theorem call?_eq_none {c : Char} (h : c ≠ '(' ∧ c ≠ '{') (r : Reader) : r.call? c = none := by
  cases r with
  | code word blank =>
    show (if (c = '(' ∨ c = '{') ∧ word ≠ [] then some word else none) = none
    rw [if_neg]
    intro hcall
    rcases hcall.1 with hc | hc
    · exact h.1 hc
    · exact h.2 hc
  | literal escaped => rfl

theorem calledFrom_eq_nil {text : List Char} (h : ∀ c ∈ text, c ≠ '(' ∧ c ≠ '{') (r : Reader) :
    r.calledFrom text = [] := by
  induction text generalizing r with
  | nil => rfl
  | cons c cs ih =>
    obtain ⟨hc, hcs⟩ := List.forall_mem_cons.1 h
    rw [calledFrom, call?_eq_none hc, ih hcs]
    rfl

/-- Only a quotation mark leads out of code. -/
theorem exists_run_code {text : List Char} (h : '"' ∉ text) (word : List Char) (blank : Bool) :
    ∃ word' blank', (code word blank).run text = code word' blank' := by
  induction text generalizing word blank with
  | nil => exact ⟨word, blank, rfl⟩
  | cons c cs ih =>
    rw [List.mem_cons, not_or] at h
    have hstep : ∃ word' blank', (code word blank).step c = code word' blank' := by
      simp only [step, if_neg (Ne.symm h.1)]
      split
      · exact ⟨_, _, rfl⟩
      · split
        · exact ⟨_, _, rfl⟩
        · exact ⟨_, _, rfl⟩
    obtain ⟨word', blank', hstep⟩ := hstep
    rw [run_cons, hstep]
    exact ih h.2 word' blank'

/-! ### Literals -/

theorem run_escapedChar (c : Char) : (literal false).run (escapedChar c) = literal false := by
  rcases escapedChar_cases c with ⟨hself, he⟩ | ⟨-, d, he, -⟩
  · obtain ⟨hquote, hslash⟩ := ne_of_standsForItself hself
    rw [he]
    simp [step, hquote, hslash]
  · rw [he]
    rfl

theorem calledFrom_escapedChar (c : Char) : (literal false).calledFrom (escapedChar c) = [] := by
  rcases escapedChar_cases c with ⟨-, he⟩ | ⟨-, d, he, -⟩
  · rw [he]
    rfl
  · rw [he]
    rfl

theorem run_escaped (text : List Char) :
    (literal false).run (text.flatMap escapedChar) = literal false := by
  induction text with
  | nil => rfl
  | cons c cs ih => rw [List.flatMap_cons, run_append, run_escapedChar, ih]

theorem calledFrom_escaped (text : List Char) :
    (literal false).calledFrom (text.flatMap escapedChar) = [] := by
  induction text with
  | nil => rfl
  | cons c cs ih =>
    rw [List.flatMap_cons, calledFrom_append, run_escapedChar, calledFrom_escapedChar, ih]
    rfl

/-! ### Names -/

theorem run_name {name : List Char} (h : ∀ c ∈ name, isReferenceChar c = true) (word : List Char) :
    (code word false).run name = code (word ++ name) false := by
  induction name generalizing word with
  | nil => simp
  | cons c cs ih =>
    obtain ⟨hc, hcs⟩ := List.forall_mem_cons.1 h
    have hstep : (code word false).step c = code (word ++ [c]) false := by simp [step, hc]
    rw [run_cons, hstep, ih hcs, List.append_assoc]
    rfl

theorem calledFrom_name {name : List Char} (h : ∀ c ∈ name, isReferenceChar c = true) (r : Reader) :
    r.calledFrom name = [] := by
  refine calledFrom_eq_nil (fun c hc => ⟨?_, ?_⟩) r
  · rintro rfl
    exact absurd (h _ hc) (by decide)
  · rintro rfl
    exact absurd (h _ hc) (by decide)

end Reader

open Reader

/-! ## Parts of expressions -/

/-- A part of an expression calls these names wherever it stands in code, and it ends in code. -/
structure Calls (text : List Char) (found : List (List Char)) : Prop where
  found : ∀ word blank, (code word blank).calledFrom text = found
  ends : ∀ word blank, ∃ word' blank', (code word blank).run text = code word' blank'

namespace Calls

theorem append {x y : List Char} {xs ys : List (List Char)} (hx : Calls x xs) (hy : Calls y ys) :
    Calls (x ++ y) (xs ++ ys) := by
  constructor
  case found =>
    intro word blank
    obtain ⟨word', blank', hends⟩ := hx.ends word blank
    rw [calledFrom_append, hx.found, hends, hy.found]
  case ends =>
    intro word blank
    obtain ⟨word', blank', hends⟩ := hx.ends word blank
    rw [run_append, hends]
    exact hy.ends word' blank'

theorem silent {text : List Char} (hsilent : IsSilent text) : Calls text [] := by
  have h := isSilent_iff.1 hsilent
  constructor
  case found =>
    intro word blank
    exact calledFrom_eq_nil (fun c hc => ⟨(h c hc).1, (h c hc).2.1⟩) _
  case ends => exact exists_run_code fun hquote => (h _ hquote).2.2 rfl

theorem literal (text : List Char) : Calls (literalChars text) [] := by
  have hopen : ∀ word blank, (code word blank).step '"' = Reader.literal false := fun _ _ => rfl
  unfold literalChars
  constructor
  case found =>
    intro word blank
    rw [List.cons_append, calledFrom, call?_eq_none (by decide), hopen, calledFrom_append, run_escaped,
      calledFrom_escaped]
    rfl
  case ends =>
    intro word blank
    rw [List.cons_append, run_cons, hopen, run_append, run_escaped]
    exact ⟨[], false, rfl⟩

/-- Parts, each with what it calls, and a silent text between them. -/
theorem intercalate {sep : List Char} (hsep : Calls sep [])
    (parts : List (List Char × List (List Char))) (h : ∀ part ∈ parts, Calls part.1 part.2) :
    Calls (sep.intercalate (parts.map (·.1))) (parts.flatMap (·.2)) := by
  induction parts with
  | nil => exact silent (isSilent_iff.2 (by simp))
  | cons part parts ih =>
    obtain ⟨hpart, hparts⟩ := List.forall_mem_cons.1 h
    cases parts with
    | nil => simpa using hpart
    | cons next parts =>
      rw [List.map_cons, List.map_cons, List.intercalate_cons_cons, List.flatMap_cons]
      simpa using (hpart.append hsep).append (ih hparts)

end Calls

/-! ## Calls -/

section

variable {callee : List Char} (hne : callee ≠ []) (h : ∀ c ∈ callee, isReferenceChar c = true)

include hne h

theorem run_fresh_name (blank : Bool) : (code [] blank).run callee = code callee false := by
  obtain ⟨c, cs, rfl⟩ := List.exists_cons_of_ne_nil hne
  obtain ⟨hc, hcs⟩ := List.forall_mem_cons.1 h
  have hstep : (code [] blank).step c = code [c] false := by simp [step, hc]
  rw [run_cons, hstep, run_name hcs]
  rfl

/-- A value that is a block: what stands before the equals sign is no part of the name. -/
theorem Calls.block : Calls (" = ".toList ++ callee ++ " \x7b".toList) [callee] := by
  have hequals : ∀ word blank, (code word blank).run " = ".toList = code [] true := fun _ _ => rfl
  have hsilent : IsSilent " = ".toList := by decide
  have hnone : ∀ r : Reader, r.calledFrom " = ".toList = [] :=
    calledFrom_eq_nil fun c hc => ⟨(isSilent_iff.1 hsilent c hc).1, (isSilent_iff.1 hsilent c hc).2.1⟩
  have hbrace : (code callee true).call? '\x7b' = some callee := by simp [call?, hne]
  constructor
  case found =>
    intro word blank
    rw [calledFrom_append, calledFrom_append, run_append, hnone, hequals, calledFrom_name h,
      run_fresh_name hne h]
    show [] ++ (((code callee true).call? '\x7b').toList ++ []) = _
    rw [hbrace]
    rfl
  case ends =>
    intro word blank
    rw [run_append, run_append, hequals, run_fresh_name hne h]
    exact ⟨[], false, rfl⟩

end

/-- The names that an expression calls. -/
def callsOf (expression : String) : List String :=
  ((code [] false).calledFrom expression.toList).map String.ofList

theorem callsOf_of_calls {expression : String} {found : List (List Char)}
    (h : Calls expression.toList found) : callsOf expression = found.map String.ofList := by
  rw [callsOf, h.found]

theorem callsOf_call {callee : String} (h : IsReference callee) {arguments : String}
    {found : List (List Char)} (harguments : Calls arguments.toList found) :
    callsOf (callee ++ "(" ++ arguments) = callee :: found.map String.ofList := by
  have hchars : callee.toList ≠ [] := by simpa using h.1
  have hopen : (code callee.toList false).call? '(' = some callee.toList := by simp [call?, hchars]
  have htext : (callee ++ "(" ++ arguments).toList = callee.toList ++ '(' :: arguments.toList := by
    simp
  have hstep : (code callee.toList false).step '(' = code [] false := rfl
  rw [callsOf, htext, calledFrom_append, calledFrom_name h.2, run_fresh_name hchars h.2, calledFrom,
    hopen, hstep, harguments.found]
  simp

/-! ## Declarations -/

/-- The names in a type. -/
def typeNames (type : String) : List String :=
  ((type.toList.splitOnP (!isReferenceChar ·)).filter (· ≠ [])).map String.ofList

/-- The part of a name that the imports or the objects around give a meaning. -/
def headOf (reference : String) : String := String.ofList (reference.toList.takeWhile (· ≠ '.'))

namespace Decl

/-- What is written in a declaration itself, without its members. -/
def references : Decl → List String
  | property p => typeNames p.type ++ callsOf p.value
  | function f => f.context.toList.flatMap typeNames ++ f.parameters.flatMap (fun p =>
      typeNames p.type ++ p.default.toList.flatMap callsOf) ++ typeNames f.result ++ callsOf f.body
  | object .. => []

end Decl

theorem typeNames_name {type : String} (h : IsReference type) : typeNames type = [type] := by
  have hchars : type.toList ≠ [] := by simpa using h.1
  unfold typeNames
  rw [List.splitOnP_eq_singleton (fun c hc => by simp [h.2 c hc])]
  simp [hchars]

theorem headOf_of_isPlain {name : String} (h : IsPlain name) : headOf name = name := by
  unfold headOf
  rw [List.takeWhile_eq_self_iff.2, String.ofList_toList]
  intro c hc
  have hdot : c ≠ '.' := by
    rintro rfl
    exact absurd (h _ hc) (by decide)
  simpa using hdot

end PackBindings.Kotlin
