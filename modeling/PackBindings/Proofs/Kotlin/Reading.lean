/-
  PackBindings.Proofs.Kotlin.Reading — declarations are read back from their lines.

  A line says what it is by how it begins, once the tabs in front are gone, and the marks in it
  say where its parts end. An object is open from its first line to a brace of its own, so a
  reader of lines needs to remember the objects that are open, what it has read of each, and
  the context that is waiting for its function. Depth and blank lines tell it nothing.

  The marks have to be what they seem: types, contexts and defaults hold none of them, values
  and bodies no line feed (`IsReadable`).

  Proved, for every declaration and all depths:
  - `lineIn?_property` / `lineIn?_function` / `lineIn?_object` / `lineIn?_opening`: each line
    says what was written in it.
  - `run_lines` / `run_memberLines`: its lines add a declaration to what has been read.
  - `read?_textOf_lines`: a declaration is read back from its text.
-/

import PackBindings.Proofs.Kotlin.Lines

namespace PackBindings.Kotlin

/-! ## Parts of a line -/

/-- What stands before the first mark of a kind, and what stands after it. -/
def cut (mark : Char) (cs : List Char) : List Char × List Char :=
  (cs.takeWhile (· != mark), (cs.dropWhile (· != mark)).drop 1)

/-- A name without grave accents. -/
def nameIn (cs : List Char) : String := String.ofList (cs.filter (· != '\x60'))

/-- A type and what is put equal to it. -/
def typedIn (cs : List Char) : String × String :=
  (String.ofList (cut '=' cs).1.dropLast, String.ofList ((cut '=' cs).2.drop 1))

def propertyIn (isConst : Bool) (cs : List Char) : Property :=
  let (name, rest) := cut ':' cs
  let (type, value) := typedIn (rest.drop 1)
  ⟨nameIn name, type, value, isConst⟩

def parameterIn (cs : List Char) : Parameter :=
  let (name, rest) := cut ':' (cs.dropWhile (· = ' '))
  if '=' ∈ rest then
    let (type, value) := typedIn (rest.drop 1)
    ⟨nameIn name, type, some value⟩
  else ⟨nameIn name, String.ofList (rest.drop 1), none⟩

def parametersIn (cs : List Char) : List Parameter :=
  if cs = [] then [] else (cs.splitOn ',').map parameterIn

def functionIn (cs : List Char) : Function :=
  let (name, rest) := cut '(' cs
  let (parameters, rest) := cut ')' rest
  let (result, body) := typedIn (rest.drop 2)
  ⟨nameIn name, none, parametersIn parameters, result, body⟩

/-! ## Lines -/

/-- What a line of a declaration says. -/
inductive Line where
  | blank
  | context (receiver : String)
  | property (p : Property)
  /-- The context of the function stands in the line before. -/
  | function (f : Function)
  /-- An object without members. -/
  | empty (name : String)
  | opening (name : String)
  | closing

def objectIn (cs : List Char) : Line :=
  let (name, rest) := cut ' ' cs
  if rest = [] then .empty (nameIn name) else .opening (nameIn name)

def after? (start : String) (cs : List Char) : Option (List Char) := start.toList.isPrefixOf? cs

/-- What a line says that has no tabs in front. -/
def lineIn? (cs : List Char) : Option Line :=
  if cs = [] then some .blank
  else if cs = ['\x7d'] then some .closing
  else (after? "const val " cs).map (fun rest => .property (propertyIn true rest)) <|>
    (after? "val " cs).map (fun rest => .property (propertyIn false rest)) <|>
    (after? "fun " cs).map (fun rest => .function (functionIn rest)) <|>
    (after? "object " cs).map objectIn <|>
    (after? "context(" cs).map fun rest => .context (String.ofList (cut ')' rest).1)

/-! ## Reading -/

/-- How far a reading has come. -/
structure Progress where
  /-- What has been read of the innermost object that is open. -/
  members : List Decl
  context : Option String
  /-- The objects that are open, innermost first, with what stands before each in the one around. -/
  outer : List (String × List Decl)

namespace Progress

def start : Progress := ⟨[], none, []⟩

def add (s : Progress) (d : Decl) : Progress := ⟨s.members ++ [d], none, s.outer⟩

def step (s : Progress) : Line → Option Progress
  | .blank => some s
  | .context receiver => some { s with context := some receiver }
  | .property p => some (s.add (.property p))
  | .function f => some (s.add (.function { f with context := s.context }))
  | .empty name => some (s.add (.object name []))
  | .opening name => some ⟨[], none, (name, s.members) :: s.outer⟩
  | .closing =>
    match s.outer with
    | [] => none
    | (name, before) :: outer => some ⟨before ++ [.object name s.members], none, outer⟩

def readLine (s : Progress) (line : List Char) : Option Progress :=
  (lineIn? (line.dropWhile (· = '\t'))).bind s.step

def run (s : Progress) (lines : List (List Char)) : Option Progress := lines.foldlM readLine s

/-- The declaration, if there is one and nothing is open. -/
def result? (s : Progress) : Option Decl :=
  match s.members, s.outer with
  | [d], [] => some d
  | _, _ => none

end Progress

/-- The declaration that a text is the text of. -/
def read? (text : String) : Option Decl :=
  (Progress.start.run (text.toList.splitOn '\n')).bind Progress.result?

/-! ## What can be read -/

/-- A name of letters, digits and low lines. -/
structure IsName (name : String) : Prop where
  plain : IsPlain name
  ne_empty : name ≠ ""

def marks : List Char := ['\n', ',', '(', ')', '=', '\x60']

/-- No mark stands in the text. -/
def IsUnmarked (text : String) : Prop := ∀ c ∈ text.toList, c ∉ marks

def IsOneLine (text : String) : Prop := '\n' ∉ text.toList

instance (text : String) : Decidable (IsUnmarked text) :=
  List.decidableBAll (fun c => c ∉ marks) text.toList

instance (text : String) : Decidable (IsOneLine text) :=
  inferInstanceAs (Decidable ('\n' ∉ text.toList))

/-- Declarations that can be read: types, contexts and defaults hold no mark, values and bodies are
on one line, and literals may stand for anything. -/
def legible : Style := ⟨IsName, IsUnmarked, IsOneLine, fun _ => True⟩

/-- What is written in a declaration and everything within it can be read. -/
structure Decl.IsReadable (d : Decl) : Prop where
  own : d.Obeys legible
  inner : ∀ o ∈ nodes d, ∀ m ∈ o.2, m.Obeys legible

instance (name : String) : Decidable (IsName name) :=
  decidable_of_iff (IsPlain name ∧ name ≠ "") ⟨fun h => ⟨h.1, h.2⟩, fun h => ⟨h.1, h.2⟩⟩

instance (p : Parameter) : Decidable (p.Obeys legible) :=
  decidable_of_iff (IsName p.name ∧ IsUnmarked p.type ∧ ∀ value ∈ p.default, IsUnmarked value)
    ⟨fun h => ⟨h.1, h.2.1, h.2.2⟩, fun h => ⟨h.1, h.2, h.3⟩⟩

instance (p : Property) : Decidable (p.Obeys legible) :=
  decidable_of_iff (IsName p.name ∧ IsUnmarked p.type ∧ IsOneLine p.value)
    ⟨fun h => ⟨h.1, h.2.1, h.2.2⟩, fun h => ⟨h.1, h.2, h.3⟩⟩

instance (f : Function) : Decidable (f.Obeys legible) :=
  decidable_of_iff (IsName f.name ∧ (∀ receiver ∈ f.context, IsUnmarked receiver) ∧
      (∀ p ∈ f.parameters, p.Obeys legible) ∧ IsUnmarked f.result ∧ IsOneLine f.body)
    ⟨fun h => ⟨h.1, h.2.1, h.2.2.1, h.2.2.2.1, h.2.2.2.2⟩, fun h => ⟨h.1, h.2, h.3, h.4, h.5⟩⟩

instance : (d : Decl) → Decidable (d.Obeys legible)
  | .property p => inferInstanceAs (Decidable (p.Obeys legible))
  | .function f => inferInstanceAs (Decidable (f.Obeys legible))
  | .object n _ => inferInstanceAs (Decidable (IsName n))

instance (d : Decl) : Decidable d.IsReadable :=
  decidable_of_iff (d.Obeys legible ∧ ∀ o ∈ d.nodes, ∀ m ∈ o.2, m.Obeys legible)
    ⟨fun h => ⟨h.1, h.2⟩, fun h => ⟨h.1, h.2⟩⟩

/-! ## Marks -/

theorem cut_append {mark : Char} {before : List Char} (h : mark ∉ before) (after : List Char) :
    cut mark (before ++ mark :: after) = (before, after) := by
  have hpass : ∀ c ∈ before, (c != mark) = true := by
    intro c hc
    rw [bne_iff_ne]
    rintro rfl
    exact h hc
  rw [cut, List.takeWhile_append_of_pos hpass, List.dropWhile_append_of_pos hpass]
  simp

theorem cut_of_not_mem {mark : Char} {cs : List Char} (h : mark ∉ cs) : cut mark cs = (cs, []) := by
  have hpass : ∀ c ∈ cs, (c != mark) = true := by
    intro c hc
    rw [bne_iff_ne]
    rintro rfl
    exact h hc
  rw [cut, List.takeWhile_eq_self_iff.2 hpass, List.dropWhile_eq_nil_iff.2 hpass]
  rfl

theorem typedIn_append {type : String} (h : '=' ∉ type.toList) (value : String) :
    typedIn (type ++ " = " ++ value).toList = (type, value) := by
  have htext : (type ++ " = " ++ value).toList =
      (type.toList ++ [' ']) ++ '=' :: ' ' :: value.toList := by simp
  have hmark : '=' ∉ type.toList ++ [' '] := by simp [h]
  rw [typedIn, htext, cut_append hmark]
  simp

section

variable {name : String} (h : IsPlain name)

include h

theorem mem_quoted {c : Char} (hc : c ∈ (quoted name).toList) : isNameChar c = true ∨ c = '\x60' := by
  have hgrave : "`".toList = ['\x60'] := rfl
  unfold quoted at hc
  split at hc
  · simp only [String.toList_append, hgrave, List.mem_append, List.mem_singleton] at hc
    rcases hc with (hc | hc) | hc
    · exact Or.inr hc
    · exact Or.inl (h c hc)
    · exact Or.inr hc
  · exact Or.inl (h c hc)

theorem mark_not_mem_quoted {mark : Char} (hmark : isNameChar mark = false ∧ mark ≠ '\x60') :
    mark ∉ (quoted name).toList := by
  intro hmem
  rcases mem_quoted h hmem with hname | hgrave
  · exact absurd (hmark.1.symm.trans hname) Bool.false_ne_true
  · exact hmark.2 hgrave

/-- A name is told without its grave accents. -/
theorem nameIn_quoted : nameIn (quoted name).toList = name := by
  have hgrave : "`".toList = ['\x60'] := rfl
  have hplain : name.toList.filter (· != '\x60') = name.toList := by
    refine List.filter_eq_self.2 fun c hc => ?_
    rw [bne_iff_ne]
    rintro rfl
    exact absurd (h _ hc) (by decide)
  unfold nameIn quoted
  split
  · simp [hgrave, hplain]
  · rw [hplain, String.ofList_toList]

end

/-! ## Parts that are read -/

theorem propertyIn_text {p : Property} (h : p.Obeys legible) :
    propertyIn p.isConst (quoted p.name ++ ": " ++ p.type ++ " = " ++ p.value).toList = p := by
  have htext : (quoted p.name ++ ": " ++ p.type ++ " = " ++ p.value).toList =
      (quoted p.name).toList ++ ':' :: ' ' :: (p.type ++ " = " ++ p.value).toList := by simp
  have hmark : '=' ∉ p.type.toList := fun hmem => h.type _ hmem (by decide)
  rw [propertyIn, htext, cut_append (mark_not_mem_quoted h.name.plain (by decide))]
  simp only [List.drop_one, List.tail_cons, typedIn_append hmark, nameIn_quoted h.name.plain]

/-- What stands in front of a name are blanks. -/
theorem dropWhile_blanks {blanks name : List Char} (hblanks : ∀ c ∈ blanks, c = ' ')
    (hname : ' ' ∉ name) (rest : List Char) :
    (blanks ++ (name ++ ':' :: rest)).dropWhile (· = ' ') = name ++ ':' :: rest := by
  rw [List.dropWhile_append_of_pos fun c hc => decide_eq_true (hblanks c hc)]
  cases name with
  | nil => rfl
  | cons c cs =>
    have hc : c ≠ ' ' := fun he => hname (he ▸ List.mem_cons_self)
    rw [List.cons_append, List.dropWhile_cons_of_neg (by simpa using hc)]

theorem parameterIn_text {p : Parameter} (h : p.Obeys legible) {blanks : List Char}
    (hblanks : ∀ c ∈ blanks, c = ' ') : parameterIn (blanks ++ p.text.toList) = p := by
  obtain ⟨name, type, default⟩ := p
  have hplain := h.name.plain
  have hmark : '=' ∉ type.toList := fun hmem => h.type _ hmem (by decide)
  have hcolon : ':' ∉ (quoted name).toList := mark_not_mem_quoted hplain (by decide)
  have hblank : ' ' ∉ (quoted name).toList := mark_not_mem_quoted hplain (by decide)
  cases default with
  | none =>
    have htext : (Parameter.text ⟨name, type, none⟩).toList =
        (quoted name).toList ++ ':' :: ' ' :: type.toList := by simp [Parameter.text]
    have hrest : '=' ∉ ' ' :: type.toList := by simp [hmark]
    rw [htext, parameterIn, dropWhile_blanks hblanks hblank, cut_append hcolon]
    simp only [if_neg hrest, nameIn_quoted hplain, List.drop_one, List.tail_cons, String.ofList_toList]
  | some value =>
    have htext : (Parameter.text ⟨name, type, some value⟩).toList =
        (quoted name).toList ++ ':' :: ' ' :: (type ++ " = " ++ value).toList := by
      simp [Parameter.text]
    have hrest : '=' ∈ ' ' :: (type ++ " = " ++ value).toList := by simp
    rw [htext, parameterIn, dropWhile_blanks hblanks hblank, cut_append hcolon]
    simp only [if_pos hrest, nameIn_quoted hplain, List.drop_one, List.tail_cons,
      typedIn_append hmark]

/-- The text of a parameter holds none of the marks around parameters. -/
theorem mark_not_mem_text {p : Parameter} (h : p.Obeys legible) {mark : Char}
    (hmark : mark ∈ ['\n', ',', ')']) : mark ∉ p.text.toList := by
  have hall : ∀ mark ∈ ['\n', ',', ')'], (isNameChar mark = false ∧ mark ≠ '\x60') ∧
      mark ∈ marks ∧ mark ∉ ": ".toList ∧ mark ∉ " = ".toList :=
    List.forall_mem_cons.2 ⟨by decide, List.forall_mem_cons.2 ⟨by decide,
      List.forall_mem_singleton.2 (by decide)⟩⟩
  obtain ⟨hname, hmarks, hcolon, hequals⟩ := hall mark hmark
  have hfront : mark ∉ (quoted p.name ++ ": " ++ p.type).toList := by
    simp only [String.toList_append, List.mem_append, not_or]
    exact ⟨⟨mark_not_mem_quoted h.name.plain hname, hcolon⟩, fun hmem => h.type _ hmem hmarks⟩
  rw [Parameter.text, String.toList_append, List.mem_append, not_or]
  refine ⟨hfront, ?_⟩
  split
  · rename_i value hvalue
    rw [String.toList_append, List.mem_append, not_or]
    exact ⟨hequals, fun hmem => h.default value hvalue _ hmem hmarks⟩
  · exact List.not_mem_nil

theorem mark_not_mem_parameters {ps : List Parameter} (h : ∀ p ∈ ps, p.Obeys legible) {mark : Char}
    (hmark : mark ∈ ['\n', ')']) : mark ∉ (", ".intercalate (ps.map Parameter.text)).toList := by
  have hall : ∀ mark ∈ ['\n', ')'], mark ∉ ", ".toList ∧ mark ∈ ['\n', ',', ')'] :=
    List.forall_mem_cons.2 ⟨by decide, List.forall_mem_singleton.2 (by decide)⟩
  obtain ⟨hseparator, hparameter⟩ := hall mark hmark
  rw [String.toList_intercalate]
  intro hmem
  rcases mem_of_mem_intercalate hmem with hmem | ⟨text, htext, hmem⟩
  · exact hseparator hmem
  · rw [List.map_map] at htext
    obtain ⟨p, hp, rfl⟩ := List.mem_map.1 htext
    exact mark_not_mem_text (h p hp) hparameter hmem

theorem map_parameterIn_splitOn {ps : List Parameter} (h : ∀ p ∈ ps, p.Obeys legible) (hne : ps ≠ [])
    {blanks : List Char} (hblanks : ∀ c ∈ blanks, c = ' ') :
    ((blanks ++ (", ".intercalate (ps.map Parameter.text)).toList).splitOn ',').map parameterIn =
      ps := by
  induction ps generalizing blanks with
  | nil => exact absurd rfl hne
  | cons p ps ih =>
    obtain ⟨hp, hps⟩ := List.forall_mem_cons.1 h
    have hcomma : ',' ∉ blanks ++ p.text.toList := by
      rw [List.mem_append, not_or]
      exact ⟨fun hmem => absurd (hblanks _ hmem) (by decide),
        mark_not_mem_text hp (by decide)⟩
    cases ps with
    | nil =>
      rw [List.map_singleton, String.intercalate_singleton, List.splitOn_eq_singleton hcomma,
        List.map_singleton, parameterIn_text hp hblanks]
    | cons next ps =>
      have htext : blanks ++ (", ".intercalate ((p :: next :: ps).map Parameter.text)).toList =
          (blanks ++ p.text.toList) ++
            ',' :: ([' '] ++ (", ".intercalate ((next :: ps).map Parameter.text)).toList) := by
        rw [List.map_cons, List.map_cons, String.intercalate_cons_cons]
        simp
      rw [htext, List.splitOn_append_cons_self, List.splitOn_eq_singleton hcomma, List.singleton_append,
        List.map_cons, parameterIn_text hp hblanks,
        ih hps (List.cons_ne_nil _ _) (List.forall_mem_singleton.2 rfl)]

theorem parametersIn_text {ps : List Parameter} (h : ∀ p ∈ ps, p.Obeys legible) :
    parametersIn (", ".intercalate (ps.map Parameter.text)).toList = ps := by
  by_cases hps : ps = []
  · rw [hps]
    rfl
  · have hread := map_parameterIn_splitOn h hps (List.forall_mem_nil (· = ' '))
    rw [List.nil_append] at hread
    rw [parametersIn, if_neg, hread]
    intro hnil
    have hempty : parameterIn [] ∈ ps := by
      rw [hnil] at hread
      rw [← hread]
      exact List.mem_singleton_self _
    exact (h _ hempty).name.ne_empty rfl

theorem functionIn_text {f : Function} (h : f.Obeys legible) :
    functionIn (quoted f.name ++ "(" ++ ", ".intercalate (f.parameters.map Parameter.text) ++ "): " ++
      f.result ++ " = " ++ f.body).toList = { f with context := none } := by
  have hmark : '=' ∉ f.result.toList := fun hmem => h.result _ hmem (by decide)
  have hclose : ')' ∉ (", ".intercalate (f.parameters.map Parameter.text)).toList :=
    mark_not_mem_parameters h.parameters (by decide)
  have htext : (quoted f.name ++ "(" ++ ", ".intercalate (f.parameters.map Parameter.text) ++ "): " ++
      f.result ++ " = " ++ f.body).toList = (quoted f.name).toList ++ '(' ::
        ((", ".intercalate (f.parameters.map Parameter.text)).toList ++
          ')' :: ':' :: ' ' :: (f.result ++ " = " ++ f.body).toList) := by simp
  rw [functionIn, htext, cut_append (mark_not_mem_quoted h.name.plain (by decide))]
  simp only [cut_append hclose, List.drop_succ_cons, List.drop_zero, typedIn_append hmark,
    nameIn_quoted h.name.plain, parametersIn_text h.parameters]

theorem objectIn_quoted {name : String} (h : IsPlain name) :
    objectIn (quoted name).toList = .empty name := by
  rw [objectIn, cut_of_not_mem (mark_not_mem_quoted h (by decide))]
  simp only [if_true, nameIn_quoted h]

theorem objectIn_opening {name : String} (h : IsPlain name) :
    objectIn (quoted name ++ " \x7b").toList = .opening name := by
  have htext : (quoted name ++ " \x7b").toList = (quoted name).toList ++ ' ' :: ['\x7b'] := by simp
  rw [objectIn, htext, cut_append (mark_not_mem_quoted h (by decide))]
  simp only [nameIn_quoted h]
  rfl

/-! ## Lines that are read -/

theorem lineIn?_property {p : Property} (h : p.Obeys legible) :
    lineIn? p.text.toList = some (.property p) := by
  have hread := propertyIn_text h
  cases hconst : p.isConst with
  | true =>
    have htext : p.text.toList = "const val ".toList ++
        (quoted p.name ++ ": " ++ p.type ++ " = " ++ p.value).toList := by
      simp [Property.text, hconst]
    rw [hconst] at hread
    rw [htext]
    exact congrArg (fun p => some (Line.property p)) hread
  | false =>
    have htext : p.text.toList = "val ".toList ++
        (quoted p.name ++ ": " ++ p.type ++ " = " ++ p.value).toList := by
      simp [Property.text, hconst]
    rw [hconst] at hread
    rw [htext]
    exact congrArg (fun p => some (Line.property p)) hread

theorem lineIn?_function {f : Function} (h : f.Obeys legible) :
    lineIn? f.text.toList = some (.function { f with context := none }) := by
  have htext : f.text.toList = "fun ".toList ++ (quoted f.name ++ "(" ++
      ", ".intercalate (f.parameters.map Parameter.text) ++ "): " ++ f.result ++ " = " ++
        f.body).toList := by
    simp [Function.text]
  rw [htext]
  exact congrArg (fun f => some (Line.function f)) (functionIn_text h)

theorem lineIn?_context {receiver : String} (h : IsUnmarked receiver) :
    lineIn? ("context(" ++ receiver ++ ")").toList = some (.context receiver) := by
  have hclose : ')' ∉ receiver.toList := fun hmem => h _ hmem (by decide)
  have htext : ("context(" ++ receiver ++ ")").toList =
      "context(".toList ++ (receiver.toList ++ ')' :: []) := by simp
  have hcut : String.ofList (cut ')' (receiver.toList ++ ')' :: [])).1 = receiver := by
    rw [cut_append hclose, String.ofList_toList]
  rw [htext]
  exact congrArg (fun receiver => some (Line.context receiver)) hcut

theorem lineIn?_object {name : String} (h : IsPlain name) :
    lineIn? ("object " ++ quoted name).toList = some (.empty name) := by
  rw [String.toList_append]
  exact congrArg some (objectIn_quoted h)

theorem lineIn?_opening {name : String} (h : IsPlain name) :
    lineIn? ("object " ++ quoted name ++ " \x7b").toList = some (.opening name) := by
  rw [String.append_assoc, String.toList_append]
  exact congrArg some (objectIn_opening h)

namespace Progress

variable {s : Progress}

/-- Tabs in front of a line tell nothing. -/
theorem readLine_indent {line : String} (h : line.toList.head? ≠ some '\t') (depth : Nat) :
    s.readLine (indent depth line).toList = (lineIn? line.toList).bind s.step := by
  have htabs : ∀ c ∈ List.replicate depth '\t', decide (c = '\t') = true :=
    fun c hc => decide_eq_true (List.eq_of_mem_replicate hc)
  have hline : line.toList.dropWhile (· = '\t') = line.toList := by
    cases hchars : line.toList with
    | nil => rfl
    | cons c cs =>
      rw [hchars] at h
      exact List.dropWhile_cons_of_neg (by simpa using h)
  rw [readLine, indent, String.toList_append, String.toList_ofList,
    List.dropWhile_append_of_pos htabs, hline]

theorem run_cons (s : Progress) (line : List Char) (lines : List (List Char)) :
    s.run (line :: lines) = (s.readLine line).bind fun s => s.run lines := rfl

theorem run_append (s : Progress) (xs ys : List (List Char)) :
    s.run (xs ++ ys) = (s.run xs).bind fun s => s.run ys := List.foldlM_append

end Progress

/-! ## Declarations that are read -/

namespace Decl

open Progress (readLine_indent run_cons run_append)

theorem run_property {p : Property} (h : p.Obeys legible) (depth : Nat) (s : Progress) :
    s.run ((lines depth (property p)).map String.toList) = some (s.add (.property p)) := by
  have hhead : p.text.toList.head? ≠ some '\t' := by
    cases hconst : p.isConst <;> simp [Property.text, hconst]
  show s.run [(indent depth p.text).toList] = _
  rw [run_cons, readLine_indent hhead, lineIn?_property h]
  rfl

theorem run_function {f : Function} (h : f.Obeys legible) (depth : Nat) {s : Progress}
    (hs : s.context = none) :
    s.run ((lines depth (function f)).map String.toList) = some (s.add (.function f)) := by
  obtain ⟨name, context, parameters, result, body⟩ := f
  have hhead : ∀ context,
      (Function.text ⟨name, context, parameters, result, body⟩).toList.head? ≠ some '\t' := by
    intro context
    simp [Function.text]
  cases context with
  | none =>
    show s.run [(indent depth (Function.text ⟨name, none, parameters, result, body⟩)).toList] = _
    rw [run_cons, readLine_indent (hhead none), lineIn?_function h]
    show some (s.add (.function ⟨name, s.context, parameters, result, body⟩)) = _
    rw [hs]
  | some receiver =>
    have hhead' : ("context(" ++ receiver ++ ")").toList.head? ≠ some '\t' := by simp
    show s.run [(indent depth ("context(" ++ receiver ++ ")")).toList,
      (indent depth (Function.text ⟨name, some receiver, parameters, result, body⟩)).toList] = _
    rw [run_cons, readLine_indent hhead', lineIn?_context (h.context receiver rfl), Option.bind_some]
    show Progress.run { s with context := some receiver } _ = _
    rw [run_cons, readLine_indent (hhead _), lineIn?_function h]
    rfl

mutual

/-- The lines of a declaration add it to what has been read. -/
theorem run_lines : (d : Decl) → (depth : Nat) → d.Obeys legible →
    (∀ o ∈ nodes d, ∀ m ∈ o.2, m.Obeys legible) → ∀ s : Progress, s.context = none →
      s.run ((lines depth d).map String.toList) = some (s.add d)
  | .property p, depth, h, _, s, _ => run_property h depth s
  | .function f, depth, h, _, s, hs => run_function h depth hs
  | .object n [], depth, h, _, s, _ => by
    have hhead : ("object " ++ quoted n).toList.head? ≠ some '\t' := by simp
    show s.run [(indent depth ("object " ++ quoted n)).toList] = _
    rw [run_cons, readLine_indent hhead, lineIn?_object h.plain]
    rfl
  | .object n (m :: ms), depth, h, hin, s, hs => by
    have hhead : ("object " ++ quoted n ++ " \x7b").toList.head? ≠ some '\t' := by simp
    have hmembers := run_memberLines (m :: ms) (depth + 1) none
      (hin _ (mem_nodes_object.2 (Or.inl rfl)))
      (fun o ho => hin (Node.under n o) (mem_nodes_object.2 (Or.inr ⟨o, ho, rfl⟩)))
      ⟨[], none, (n, s.members) :: s.outer⟩ rfl
    rw [lines, List.map_append, List.map_append, run_append, run_append, List.map_singleton, run_cons,
      readLine_indent hhead, lineIn?_opening h.plain]
    show (Progress.run ⟨[], none, (n, s.members) :: s.outer⟩ _).bind _ = _
    rw [hmembers, Option.bind_some, List.map_singleton, run_cons, readLine_indent (by decide)]
    rfl

theorem run_memberLines : (ms : List Decl) → (depth : Nat) → (above : Option Decl) →
    (∀ m ∈ ms, m.Obeys legible) → (∀ o ∈ within ms, ∀ m ∈ o.2, m.Obeys legible) →
    ∀ s : Progress, s.context = none → s.run ((memberLines depth above ms).map String.toList) =
      some ⟨s.members ++ ms, none, s.outer⟩
  | [], _, _, _, _, s, hs => by
    obtain ⟨members, context, outer⟩ := s
    obtain rfl : context = none := hs
    rw [List.append_nil]
    rfl
  | m :: ms, depth, above, h, hin, s, hs => by
    obtain ⟨hm, hms⟩ := List.forall_mem_cons.1 h
    have hblank : s.run ((if above.any (apart · m) then [""] else []).map String.toList) = some s := by
      split
      · rfl
      · rfl
    have hmember := run_lines m depth hm (fun o ho => hin o (List.mem_append_left _ ho)) s hs
    have hrest := run_memberLines ms depth (some m) hms
      (fun o ho => hin o (List.mem_append_right _ ho)) (s.add m) rfl
    rw [memberLines, List.map_append, List.map_append, run_append, run_append, hblank,
      Option.bind_some, hmember, Option.bind_some, hrest]
    simp [Progress.add]

end

end Decl

/-! ## Texts that stay on a line -/

theorem isOneLine_append {x y : String} (hx : IsOneLine x) (hy : IsOneLine y) : IsOneLine (x ++ y) := by
  unfold IsOneLine
  rw [String.toList_append, List.mem_append, not_or]
  exact ⟨hx, hy⟩

theorem isUnmarked_of_isTypeChar {text : String} (h : text.toList.all isTypeChar = true) :
    IsUnmarked text := by
  have hmarks : marks.all (fun mark => !isTypeChar mark) = true := by decide
  intro c hc hmark
  have hnot := List.all_eq_true.1 hmarks c hmark
  rw [List.all_eq_true.1 h c hc] at hnot
  cases hnot

theorem IsIdentifier.isName {name : String} (h : IsIdentifier name) : IsName name := by
  refine ⟨h.plain, ?_⟩
  rintro rfl
  exact absurd h.begins (by decide)

theorem isClosed_legible : legible.IsClosed where
  identifier h := h.isName
  type := isUnmarked_of_isTypeChar
  code h hfeed := absurd (List.all_eq_true.1 h _ hfeed) (by decide)
  literal _ := feed_not_mem_literal _
  append := isOneLine_append
  plain_of_name h := h.plain
  value_of_type h hfeed := h _ hfeed (by decide)

/-- Whatever its depth, a declaration is read back from its text. -/
theorem read?_textOf_lines {d : Decl} (h : d.IsReadable) (depth : Nat) :
    read? (textOf (d.lines depth)) = some d := by
  have hlines : (textOf (d.lines depth)).toList.splitOn '\n' =
      (d.lines depth).map String.toList ++ [[]] :=
    splitOn_textOf (Decl.value_lines isClosed_legible d depth h.own h.inner)
  have hrun := Decl.run_lines d depth h.own h.inner .start rfl
  rw [read?, hlines, Progress.run_append, hrun]
  rfl

end PackBindings.Kotlin
