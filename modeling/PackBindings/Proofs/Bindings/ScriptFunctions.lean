/-
  PackBindings.Proofs.Bindings.ScriptFunctions — the functions by which a script is run.

  A script without parameters has one function. A template has four: it can be run without
  arguments, with a text for each parameter, with a compound, or with any data and an
  optional path. The second one makes a compound of its texts. It reads each by an
  identifier, made from the name of the parameter by a conversion that loses much: `a`, `A`
  and `a2` all have to be told apart after it.

  Proved, for every script of every unit:
  - `quoted_injective`: identifiers are apart as they are written as well.
  - `feed_eq`: whatever texts the function gets, the compound has each one under the name of
    its own parameter.
  - `binds_identifiersOf`: so no identifier feeds two parameters.
  - `functions_of_script`: which functions the script has, with all they are made of.
-/

import PackBindings.Proofs.Bindings.AccessorNames
import PackBindings.Proofs.Bindings.Imported
import PackBindings.Proofs.Kotlin.Identifiers
import PackBindings.Proofs.Kotlin.Literals
import PackBindings.Proofs.Kotlin.Reading

namespace PackBindings.Bindings

open PackBindings.Kotlin

/-! ## Parameters and their identifiers -/

theorem quoted_injective {x y : String} (hx : IsPlain x) (hy : IsPlain y)
    (h : quoted x = quoted y) : x = y := by
  rw [← nameIn_quoted hx, h, nameIn_quoted hy]

/-- What the compound gets under each key when the identifiers stand for values. An identifier
stands for the value of the parameter that is declared as it is written. -/
def feed (keys identifiers values : List String) : List (String × Option String) :=
  List.zipWith (fun key x => (key, ((identifiers.map quoted).zip values).lookup (quoted x)))
    keys identifiers

theorem feed_eq {keys identifiers values : List String} (hnd : (identifiers.map quoted).Nodup)
    (hkeys : identifiers.length = keys.length) (hvalues : values.length = keys.length) :
    feed keys identifiers values = keys.zip (values.map some) := by
  have hfirsts : ((identifiers.map quoted).zip values).map Prod.fst = identifiers.map quoted :=
    List.map_fst_zip (by simp [hkeys, hvalues])
  apply List.ext_getElem
  · simp [feed, hkeys, hvalues]
  · intro i hleft hright
    have hi : i < identifiers.length ∧ i < values.length := by
      simp [feed] at hleft hright
      omega
    -- the identifier and the value at one place stand together in the call
    have hmem : (quoted identifiers[i], values[i]) ∈ (identifiers.map quoted).zip values :=
      List.mem_iff_getElem.2 ⟨i, by simp [hi], by simp⟩
    have hlookup := lookup_eq_of_mem (hfirsts.symm ▸ hnd) hmem
    simp [feed, hlookup]

/-- One identifier for each key, of its own also as it is written, so that every key is given the
value that was meant for it. -/
structure Binds (keys identifiers : List String) : Prop where
  length : identifiers.length = keys.length
  legal : ∀ x ∈ identifiers, IsIdentifier x
  apart : identifiers.Nodup
  written : (identifiers.map quoted).Nodup
  own : ∀ key other x, (key, x) ∈ keys.zip (identifiers.map quoted) →
    (other, x) ∈ keys.zip (identifiers.map quoted) → key = other
  fed : ∀ values : List String, values.length = keys.length →
    feed keys identifiers values = keys.zip (values.map some)

theorem binds_identifiersOf (keys : List String) : Binds keys (identifiersOf keys) := by
  have hlength := length_identifiersOf keys
  have hapart : (identifiersOf keys).Nodup := Scope.nodup_nameAll _ _
  have hwritten : ((identifiersOf keys).map quoted).Nodup :=
    hapart.map_on fun x hx y hy h =>
      quoted_injective (isPlain_of_mem_identifiersOf hx) (isPlain_of_mem_identifiersOf hy) h
  refine ⟨hlength, fun x hx => ?_, hapart, hwritten, fun key other x hkey hother => ?_,
    fun values hvalues => feed_eq hwritten hlength hvalues⟩
  · refine isIdentifier_of_mem_nameAll (fun base hbase => ?_) hx
    obtain ⟨key, -, rfl⟩ := List.mem_map.1 hbase
    exact isIdentifier_camel key
  · have hseconds : ((keys.zip ((identifiersOf keys).map quoted)).map Prod.snd).Nodup := by
      rwa [List.map_snd_zip (by simp [hlength])]
    exact congrArg Prod.fst (List.inj_on_of_nodup_map hseconds hkey hother rfl)

/-! ## Functions -/

/-- A function that calls a script, with parameters and arguments beyond those of every call. -/
def scriptCall (n : String) (l : Location) (parameters : List Parameter) (more : List String) :
    Function where
  name := n
  context := some "Function"
  parameters := parameters
  result := "Command"
  body := "function(" ++ ", ".intercalate
    (["name = PATH + " ++ literal l.stem, "namespace = NAMESPACE"] ++ more) ++ ")"

/-- The compound in which each key has the value of an identifier. -/
def compoundText (keys identifiers : List String) : String :=
  "arguments = nbt \x7b " ++ "; ".intercalate
    (List.zipWith (fun key x => "this[" ++ literal key ++ "] = " ++ quoted x) keys identifiers) ++
      " \x7d"

/-- The functions of a script with some parameters. -/
inductive ScriptFunctions (n : String) (l : Location) : List String → List Function → Prop
  | plain : ScriptFunctions n l [] [scriptCall n l [] []]
  | template {keys identifiers : List String} : keys ≠ [] → Binds keys identifiers →
      ScriptFunctions n l keys
        [scriptCall n l [] [],
          scriptCall n l (identifiers.map fun x => ⟨x, "String", none⟩)
            [compoundText keys identifiers],
          scriptCall n l [⟨"arguments", "NbtCompound", none⟩] ["arguments = arguments"],
          scriptCall n l [⟨"arguments", "DataArgument", none⟩, ⟨"path", "String?", some "null"⟩]
            ["arguments = arguments", "path = path"]]

namespace Contents

variable {u : Contents} {l : Location} {t : Option Template}

theorem spelled_of_script (hu : TemplatesFirst u.components) (hc : .script l t ∈ u.components)
    {e : ClassName} (he : e ∈ usesOf (.script l t)) (hne : e ≠ structureArgument) :
    u.imports.spelled e = e.name :=
  spelled_of_mem_uses hu (mem_uses.2 (Or.inr ⟨_, hc, he⟩)) hne

theorem callable_script (hu : TemplatesFirst u.components) (hc : .script l t ∈ u.components)
    (n : String) (parameters : List Parameter) (more : List String) :
    callable u.imports u.owner n (.script l t) parameters more =
      scriptCall n l parameters more := by
  have huses : ∀ e ∈ classesOf .function, e ∈ usesOf (.script l t) :=
    fun e he => mem_usesOf.2 (Or.inl he)
  have hcallee := spelled_of_script hu hc (huses ⟨Kind.commands, "function"⟩ (by decide)) (by decide)
  have hresult := spelled_of_script hu hc (huses ⟨Kind.commands, "Command"⟩ (by decide)) (by decide)
  have hcontext := spelled_of_script hu hc (huses ⟨Kind.functions, "Function"⟩ (by decide)) (by decide)
  have harguments : argumentsOf u.owner (.script l t) =
      ["name = PATH + " ++ literal l.stem, "namespace = NAMESPACE"] := by
    have hname : "name = PATH + " ++ literal l.stem = "name" ++ " = " ++ ("PATH + " ++ literal l.stem) := by
      rw [← String.append_assoc]
      rfl
    rw [hname]
    rfl
  rw [callable, harguments]
  show Function.mk n (some (u.imports.spelled ⟨Kind.functions, "Function"⟩)) parameters
    (u.imports.spelled ⟨Kind.commands, "Command"⟩)
    (callText (u.imports.spelled ⟨Kind.commands, "function"⟩) _) = _
  rw [hcallee, hresult, hcontext]
  rfl

theorem scriptFunctions_functionsOf (hu : TemplatesFirst u.components)
    (hc : .script l t ∈ u.components) (n : String) :
    ScriptFunctions n l (parametersOf (.script l t))
      (functionsOf u.imports u.owner (.script l t) n) := by
  unfold functionsOf
  by_cases hkeys : parametersOf (.script l t) = []
  · rw [if_pos hkeys, callable_script hu hc, hkeys]
    exact .plain
  · have huses : ∀ e ∈ [nbtBuilder, nbtCompound, dataArgument], e ∈ usesOf (.script l t) :=
      fun e he => mem_usesOf.2 (Or.inr ⟨hkeys, he⟩)
    have hbuilder := spelled_of_script hu hc (huses nbtBuilder (by decide)) (by decide)
    have hcompound := spelled_of_script hu hc (huses nbtCompound (by decide)) (by decide)
    have hdata := spelled_of_script hu hc (huses dataArgument (by decide)) (by decide)
    rw [if_neg hkeys, overloads, callable_script hu hc, callable_script hu hc,
      callable_script hu hc, callable_script hu hc, hbuilder, hcompound, hdata]
    exact .template hkeys (binds_identifiersOf _)

end Contents

/-- A script has one function, or four of one name if it has parameters, and then each parameter
is given to the script under its own key. -/
theorem functions_of_script (x : Subject) (reserved : List String) (name : String)
    {before after : List Component} {l : Location} {t : Option Template}
    (h : x.unit.components = before ++ .script l t :: after) :
    ∃ n fs, x.unit.IsAccessorName reserved name before (.script l t) n ∧
      Decl.named (x.unit.membersAt reserved name l.segments) n = fs.map .function ∧
      ScriptFunctions n l (t.elim [] Template.parameters) fs := by
  obtain ⟨n, hname, -⟩ := x.unit.exists_isAccessorName reserved name h
  have hc : .script l t ∈ x.unit.components := by
    rw [h]
    exact List.mem_append_right _ List.mem_cons_self
  have hkeys : t.elim [] Template.parameters = parametersOf (.script l t) := by cases t <;> rfl
  refine ⟨n, _, hname, hname.named.trans (accessorsOf_script _ _ _ _ _), ?_⟩
  rw [hkeys]
  exact Contents.scriptFunctions_functionsOf x.templatesFirst_unit hc n

/-- Parameters that make the same identifier, with and without a number, and a keyword. -/
theorem functions_of_a_template :
    let keys := ["a", "A", "a2", "in"]
    let c : Component := .script ⟨"", "tell"⟩ (some ⟨"tell", keys⟩)
    let x : Subject := .member ⟨"p", [c], .empty, .empty⟩ none
    x.unit.components = [] ++ c :: [] ∧
      (∃ n fs, x.unit.IsAccessorName reservedNames "P" [] c n ∧
        Decl.named (x.unit.membersAt reservedNames "P" []) n = fs.map .function ∧
        ScriptFunctions n ⟨"", "tell"⟩ keys fs) ∧
      (identifiersOf keys).map quoted = ["a", "a2", "a22", "\x60in\x60"] := by
  intro keys c x
  have hsplit : x.unit.components = [] ++ c :: [] := by decide
  exact ⟨hsplit, functions_of_script x reservedNames "P" hsplit, by decide +kernel⟩

end PackBindings.Bindings
