/-
  PackBindings.Proofs.Bindings.ReadableMembers — the text of a file tells its declarations.

  Names are identifiers, and types are names of classes. All else that a file declares is a value
  or a body, and what a pack may choose of these stands in literals, where a line feed is
  escaped. So a file is legible whatever is in its pack: nothing in it looks like the end of
  something that goes on, and its object is read back from its lines; no two different ones
  have the same text.

  Proved, for every datapack and all settings:
  - `isReadable_object`: the object of a file can be read back.
  - `text_tells_declaration`: a declaration is read back from its text at any depth, so it is
    told by it; and this holds of all that files declare.
-/

import PackBindings.Proofs.Bindings.WrittenMembers
import PackBindings.Proofs.Kotlin.Reading

namespace PackBindings.Bindings

open PackBindings.Kotlin

/-- Whatever a pack chooses may stand in a literal. -/
theorem Contents.isQuotable_legible (u : Contents) : u.IsQuotable legible :=
  ⟨fun _ _ => trivial, fun _ _ => ⟨trivial, trivial⟩, fun _ _ _ _ => trivial, fun _ _ => trivial,
    fun _ _ => trivial, fun _ _ _ _ => trivial⟩

theorem isReadable_object {d : Datapack} {s : Settings} {f : SourceFile} (hf : f ∈ files d s) :
    f.source.object.IsReadable := by
  obtain ⟨x, hx⟩ := exists_mem_units hf
  obtain ⟨taken, rfl⟩ := exists_rootName hx
  have hname := x.isIdentifier_rootName taken
  have hconstants : ∀ p ∈ x.unit.constants, p.Obeys legible :=
    obeys_constants isClosed_legible trivial trivial fun _ _ _ _ => trivial
  show (x.source (x.rootName taken) (x.package s)).object.IsReadable
  rw [x.source_eq]
  exact ⟨hname.isName, fun o ho => Contents.obeys_of_mem_objects isClosed_legible hconstants
    x.unit.isQuotable_legible hname ho⟩

/-- The text of a declaration tells all of it, whatever stands in it and wherever it stands: it is
read back line by line. So do the texts of all files tell what is declared in them. -/
theorem text_tells_declaration :
    (∀ x : Decl, x.IsReadable → ∀ depth, read? (textOf (x.lines depth)) = some x) ∧
      (∀ x y : Decl, x.IsReadable → y.IsReadable → ∀ depth depth',
        textOf (x.lines depth) = textOf (y.lines depth') → x = y) ∧
      ∀ d s, ∀ f ∈ files d s, f.source.object.IsReadable := by
  refine ⟨fun x hx => read?_textOf_lines hx, ?_, fun d s f hf => isReadable_object hf⟩
  intro x y hx hy depth depth' htext
  have hread := read?_textOf_lines hx depth
  rw [htext, read?_textOf_lines hy depth'] at hread
  exact (Option.some.inj hread).symm

/-- An object without members tells where it stands, and the object of a file is read back. -/
theorem an_object_is_read_back :
    let run : Function := ⟨"run", some "Function",
      [⟨"id", "Int", none⟩, ⟨"path", "String?", some "null"⟩], "Command", "function(name = \"a, b\")"⟩
    let x : Decl := .object "P" [.property ⟨"NAMESPACE", "String", "\"p\"", true⟩, .function run,
      .object "in" [.object "Empty" []], .object "Last" []]
    let y : Decl := .object "P" [.property ⟨"NAMESPACE", "String", "\"p\"", true⟩, .function run,
      .object "in" [.object "Empty" [], .object "Last" []]]
    let ns : Namespace := ⟨"p", [.script ⟨"", "tick"⟩ none], .empty, .empty⟩
    let s : Settings := .forPackage "generated"
    let f := fileOf s (.member ns none) "P"
    (x.IsReadable ∧ y.IsReadable ∧ f ∈ files ⟨[ns], []⟩ s) ∧ read? (textOf (x.lines 2)) = some x ∧
      textOf (x.lines 0) ≠ textOf (y.lines 0) ∧
        read? (textOf (f.source.object.lines 0)) = some f.source.object := by
  intro run x y ns s f
  have hx : x.IsReadable := by decide
  have hy : y.IsReadable := by decide
  have hfile : f ∈ files ⟨[ns], []⟩ s := by
    rw [← files_units]
    exact List.mem_map_of_mem (f := Prod.snd) (mem_units_singleton (by decide))
  obtain ⟨hread, htold, hfiles⟩ := text_tells_declaration
  have hxy : textOf (x.lines 0) ≠ textOf (y.lines 0) := by
    intro htext
    have heq := htold x y hx hy 0 0 htext
    simp [x, y] at heq
  exact ⟨⟨hx, hy, hfile⟩, hread x hx 2, hxy, hread _ (hfiles ⟨[ns], []⟩ s f hfile) 0⟩

end PackBindings.Bindings
