/-
  PackBindings.Proofs.Kotlin.Styles — what may be written where in a declaration.

  A declaration is put together from names, types, values and a few fixed texts, and its lines
  from these. A style says which names, types and values there may be (`Style`), and a style
  is closed if what is put together of its texts is one of its values again. So what holds of
  the parts of a declaration holds of its lines, whatever it is: that they are code
  (`PackBindings.Proofs.Kotlin.Lines`), or that they can be read back
  (`PackBindings.Proofs.Kotlin.Reading`).

  Proved, for every predicate on texts and every style that is closed:
  - `Closed.name` / `Closed.quoted` / `Closed.intercalate` / `Closed.named`: the texts that
    larger ones are put together from.
  - `Parameter.Obeys.text` / `Property.Obeys.text` / `Function.Obeys.text`: a declaration in
    the style is written in its values.
  - `Decl.value_lines` / `Decl.value_memberLines`: so are all lines of a declaration with all
    that is within it.
-/

import PackBindings.Proofs.Kotlin.Identifiers
import PackBindings.Proofs.Kotlin.Objects
import PackBindings.Proofs.Kotlin.References

namespace PackBindings.Kotlin

/-! ## Texts that are put together -/

/-- No quotation mark and no line break. -/
def isCodeChar (c : Char) : Bool := c != '"' && c != '\n' && c != '\r'

/-- No start of arguments or of a block either. -/
def isQuietChar (c : Char) : Bool := isCodeChar c && c != '(' && c != '\x7b'

/-- A predicate on texts holds of quiet ones, of the literals of those that can be quoted, and of
two of its texts side by side. -/
structure Closed (quotable P : String → Prop) : Prop where
  quiet : ∀ {text : String}, text.toList.all isQuietChar = true → P text
  literal : ∀ {text : String}, quotable text → P (literal text)
  append : ∀ {x y : String}, P x → P y → P (x ++ y)

namespace Closed

variable {quotable P : String → Prop} (h : Closed quotable P)

include h

theorem reference {text : String} (ht : ∀ c ∈ text.toList, isReferenceChar c = true) : P text := by
  refine h.quiet (List.all_eq_true.2 fun c hc => ?_)
  have hchar := ht c hc
  simp only [isQuietChar, isCodeChar, Bool.and_eq_true, bne_iff_ne]
  refine ⟨⟨⟨⟨?_, ?_⟩, ?_⟩, ?_⟩, ?_⟩
  all_goals
    rintro rfl
    exact absurd hchar (by decide)

theorem name {name : String} (hn : IsPlain name) : P name :=
  h.reference fun c hc => by simp [isReferenceChar, hn c hc]

theorem quoted {name : String} (hn : IsPlain name) : P (quoted name) := by
  have hgrave : P "\x60" := h.quiet (by decide)
  unfold Kotlin.quoted
  split
  · exact h.append (h.append hgrave (h.name hn)) hgrave
  · exact h.name hn

theorem intercalate {separator : String} (hsep : P separator) {parts : List String}
    (hparts : ∀ part ∈ parts, P part) : P (separator.intercalate parts) := by
  induction parts with
  | nil => exact h.quiet rfl
  | cons part parts ih =>
    obtain ⟨hpart, hparts⟩ := List.forall_mem_cons.1 hparts
    cases parts with
    | nil => simpa using hpart
    | cons next parts =>
      rw [String.intercalate_cons_cons]
      exact h.append (h.append hpart hsep) (ih hparts)

theorem named {name value : String} (hn : IsPlain name) (hv : P value) : P (name ++ " = " ++ value) :=
  h.append (h.append (h.name hn) (h.quiet (by decide))) hv

theorem indent {line : String} (hl : P line) (depth : Nat) : P (indent depth line) := by
  refine h.append (h.quiet ?_) hl
  rw [String.toList_ofList]
  exact List.all_eq_true.2 fun c hc => (List.eq_of_mem_replicate hc) ▸ (by decide)

end Closed

/-! ## Styles -/

/-- What types are written with: names with dots, and the marks of lists and of what may be missing. -/
def isTypeChar (c : Char) : Bool := isReferenceChar c || c == '<' || c == '>' || c == '?'

/-- What may be written where in a declaration. -/
structure Style where
  name : String → Prop
  /-- Contexts and defaults as well. -/
  type : String → Prop
  /-- Bodies as well, and whole lines. -/
  value : String → Prop
  /-- What literals may stand for. -/
  quotable : String → Prop

/-- Identifiers and fixed texts may be written in the style, and whatever is put together of what
may be written is a value. -/
structure Style.IsClosed (style : Style) : Prop where
  identifier : ∀ {name : String}, IsIdentifier name → style.name name
  type : ∀ {text : String}, text.toList.all isTypeChar = true → style.type text
  code : ∀ {text : String}, text.toList.all isCodeChar = true → style.value text
  literal : ∀ {text : String}, style.quotable text → style.value (literal text)
  append : ∀ {x y : String}, style.value x → style.value y → style.value (x ++ y)
  plain_of_name : ∀ {name : String}, style.name name → IsPlain name
  value_of_type : ∀ {text : String}, style.type text → style.value text

structure Parameter.Obeys (style : Style) (p : Parameter) : Prop where
  name : style.name p.name
  type : style.type p.type
  default : ∀ value ∈ p.default, style.type value

structure Property.Obeys (style : Style) (p : Property) : Prop where
  name : style.name p.name
  type : style.type p.type
  value : style.value p.value

structure Function.Obeys (style : Style) (f : Function) : Prop where
  name : style.name f.name
  context : ∀ receiver ∈ f.context, style.type receiver
  parameters : ∀ p ∈ f.parameters, p.Obeys style
  result : style.type f.result
  body : style.value f.body

/-- What is written in a declaration itself is in the style; its members are left aside. -/
def Decl.Obeys (style : Style) : Decl → Prop
  | property p => p.Obeys style
  | function f => f.Obeys style
  | object n _ => style.name n

variable {style : Style}

namespace Style.IsClosed

variable (hs : style.IsClosed)

include hs

theorem closed : Closed style.quotable style.value where
  quiet h := by
    refine hs.code (List.all_eq_true.2 fun c hc => ?_)
    have hchar := List.all_eq_true.1 h c hc
    simp only [isQuietChar, Bool.and_eq_true] at hchar
    exact hchar.1.1
  literal := hs.literal
  append := hs.append

theorem reference {text : String} (h : ∀ c ∈ text.toList, isReferenceChar c = true) : style.type text :=
  hs.type (List.all_eq_true.2 fun c hc => by simp [isTypeChar, h c hc])

theorem quoted {name : String} (h : style.name name) : style.value (quoted name) :=
  hs.closed.quoted (hs.plain_of_name h)

end Style.IsClosed

/-! ## Declarations -/

section

variable (hs : style.IsClosed)

include hs

theorem Parameter.Obeys.text {p : Parameter} (h : p.Obeys style) : style.value p.text := by
  have hcolon : style.value ": " := hs.code (by decide)
  have hequals : style.value " = " := hs.code (by decide)
  refine hs.append (hs.append (hs.append (hs.quoted h.name) hcolon) (hs.value_of_type h.type)) ?_
  split
  · rename_i value hvalue
    exact hs.append hequals (hs.value_of_type (h.default value hvalue))
  · exact hs.code rfl

theorem Property.Obeys.text {p : Property} (h : p.Obeys style) : style.value p.text := by
  have hconst : style.value (if p.isConst then "const " else "") := by
    split
    · exact hs.code (by decide)
    · exact hs.code rfl
  have hval : style.value "val " := hs.code (by decide)
  have hcolon : style.value ": " := hs.code (by decide)
  have hequals : style.value " = " := hs.code (by decide)
  have hhead := hs.append (hs.append hconst hval) (hs.quoted h.name)
  exact hs.append (hs.append (hs.append (hs.append hhead hcolon) (hs.value_of_type h.type)) hequals)
    h.value

theorem Function.Obeys.text {f : Function} (h : f.Obeys style) : style.value f.text := by
  have hfun : style.value "fun " := hs.code (by decide)
  have hopen : style.value "(" := hs.code (by decide)
  have hcomma : style.value ", " := hs.code (by decide)
  have hclose : style.value "): " := hs.code (by decide)
  have hequals : style.value " = " := hs.code (by decide)
  have hparameters : style.value (", ".intercalate (f.parameters.map Parameter.text)) := by
    refine hs.closed.intercalate hcomma fun text htext => ?_
    obtain ⟨p, hp, rfl⟩ := List.mem_map.1 htext
    exact (h.parameters p hp).text hs
  have hhead := hs.append (hs.append (hs.append hfun (hs.quoted h.name)) hopen) hparameters
  exact hs.append (hs.append (hs.append (hs.append hhead hclose) (hs.value_of_type h.result)) hequals)
    h.body

namespace Decl

omit hs in
/-- What stands in an object is its members between its first and its last line. -/
theorem mem_lines_object {depth : Nat} {n : String} {ms : List Decl} {line : String}
    (h : line ∈ lines depth (object n ms)) :
    line = indent depth ("object " ++ quoted n) ∨
      line = indent depth ("object " ++ quoted n ++ " \x7b") ∨
      line = indent depth "\x7d" ∨ line ∈ memberLines (depth + 1) none ms := by
  cases ms with
  | nil => exact Or.inl (List.mem_singleton.1 h)
  | cons m ms =>
    rw [lines, List.mem_append, List.mem_append, List.mem_singleton, List.mem_singleton] at h
    rcases h with (h | h) | h
    · exact Or.inr (Or.inl h)
    · exact Or.inr (Or.inr (Or.inr h))
    · exact Or.inr (Or.inr (Or.inl h))

theorem value_lines_function {f : Function} (h : f.Obeys style) (depth : Nat) :
    ∀ line ∈ lines depth (function f), style.value line := by
  intro line hline
  rw [lines, List.mem_append] at hline
  rcases hline with hline | hline
  · split at hline
    · rename_i receiver hreceiver
      have hopen : style.value "context(" := hs.code (by decide)
      have hclose : style.value ")" := hs.code (by decide)
      have hcontext := hs.value_of_type (h.context receiver hreceiver)
      rw [List.mem_singleton.1 hline]
      exact hs.closed.indent (hs.append (hs.append hopen hcontext) hclose) depth
    · exact absurd hline List.not_mem_nil
  · rw [List.mem_singleton.1 hline]
    exact hs.closed.indent (Function.Obeys.text hs h) depth

mutual

/-- The lines of a declaration are in its style. -/
theorem value_lines : (d : Decl) → (depth : Nat) → d.Obeys style →
    (∀ o ∈ nodes d, ∀ m ∈ o.2, m.Obeys style) → ∀ line ∈ lines depth d, style.value line
  | .property p, depth, h, _ => by
    intro line hline
    rw [List.mem_singleton.1 hline]
    exact hs.closed.indent (Property.Obeys.text hs h) depth
  | .function f, depth, h, _ => value_lines_function hs h depth
  | .object n ms, depth, h, hin => by
    intro line hline
    have hhead : style.value ("object " ++ quoted n) :=
      hs.append (hs.code (by decide)) (hs.quoted h)
    rcases mem_lines_object hline with rfl | rfl | rfl | hline
    · exact hs.closed.indent hhead depth
    · exact hs.closed.indent (hs.append hhead (hs.code (by decide))) depth
    · exact hs.closed.indent (hs.code (by decide)) depth
    · exact value_memberLines ms (depth + 1) none (hin _ (mem_nodes_object.2 (Or.inl rfl)))
        (fun o ho => hin (Node.under n o) (mem_nodes_object.2 (Or.inr ⟨o, ho, rfl⟩))) line hline

theorem value_memberLines : (ms : List Decl) → (depth : Nat) → (above : Option Decl) →
    (∀ m ∈ ms, m.Obeys style) → (∀ o ∈ within ms, ∀ m ∈ o.2, m.Obeys style) →
    ∀ line ∈ memberLines depth above ms, style.value line
  | [], _, _, _, _ => by simp [memberLines]
  | m :: ms, depth, above, h, hin => by
    intro line hline
    obtain ⟨hm, hms⟩ := List.forall_mem_cons.1 h
    rw [memberLines, List.mem_append, List.mem_append] at hline
    rcases hline with (hline | hline) | hline
    · rw [List.mem_singleton.1 (List.mem_ite_nil_right.1 hline).2]
      exact hs.code rfl
    · exact value_lines m depth hm (fun o ho => hin o (List.mem_append_left _ ho)) line hline
    · exact value_memberLines ms depth (some m) hms
        (fun o ho => hin o (List.mem_append_right _ ho)) line hline

end

end Decl

end

end PackBindings.Kotlin
