/-
  PackBindings.Proofs.Bindings.LineBreaks — which names break the lines of a source file.

  Names reach a file along four ways. Identifiers and package segments keep letters, digits
  and low lines only. Literals escape a line feed, but leave a carriage return as it is. What
  scripts name has neither. The comment at the top escapes nothing.

  So a namespace may have a line feed in the name of a directory or a file, but not in its own
  name, and a carriage return nowhere: what follows is a line of its own, and whoever packs
  the datapack chooses what it says (`a_name_breaks_out`).

  Proved, for every datapack that is read and all settings that are valid:
  - `ReturnFree.isQuotable`: everything below the comment is code, if no name that is
    written has a carriage return.
  - `Subject.return_mem_text`: a carriage return in a name is written.
  - `keepsLines_iff`: a file keeps its lines exactly if the name of its namespace or family
    has no line feed, and no name that it writes has a carriage return.
-/

import PackBindings.Proofs.Bindings.Imported
import PackBindings.Proofs.Bindings.Mirror
import PackBindings.Proofs.Bindings.Sharing
import PackBindings.Proofs.Bindings.WrittenMembers
import PackBindings.Proofs.Kotlin.Lines
import PackBindings.Proofs.Pack.ScriptNames
import PackBindings.Proofs.Settings.Packages

namespace PackBindings.Bindings

open PackBindings.Files (Place)
open PackBindings.Kotlin PackBindings.Script

/-! ## Units -/

/-- No name that a unit writes has a carriage return. -/
structure Contents.ReturnFree (u : Contents) : Prop where
  owner : '\r' ∉ u.owner.toList
  constants : ∀ p ∈ u.constants, p.Obeys code
  objectives : ∀ o ∈ u.objectives, '\r' ∉ o.name.toList
  storages : ∀ st ∈ u.storages, '\r' ∉ st.owner.toList ∧ '\r' ∉ st.name.toList
  locations : ∀ c ∈ u.components, '\r' ∉ c.location.full.toList
  parameters : ∀ c ∈ u.components, ∀ p ∈ parametersOf c, '\r' ∉ p.toList

theorem return_not_mem_append {x y : String} (hx : '\r' ∉ x.toList) (hy : '\r' ∉ y.toList) :
    '\r' ∉ (x ++ y).toList := by
  rw [String.toList_append, List.mem_append, not_or]
  exact ⟨hx, hy⟩

/-- So its literals are code. -/
theorem Contents.ReturnFree.isQuotable {u : Contents} (h : u.ReturnFree) : u.IsQuotable code where
  objectives := h.objectives
  storages := h.storages
  directories := by
    intro c hc segment hsegment
    refine return_not_mem_append (fun hreturn => ?_) (by decide)
    exact h.locations c hc ((Location.mem_full_iff (by decide)).2 (Or.inr ⟨segment, hsegment, hreturn⟩))
  stems := fun c hc hreturn => h.locations c hc ((Location.mem_full_iff (by decide)).2 (Or.inl hreturn))
  locations := fun c hc =>
    return_not_mem_append (return_not_mem_append h.owner (by decide)) (h.locations c hc)
  parameters := h.parameters

/-! ## Names that are written -/

theorem return_mem_callText (callee : String) {a : String} {arguments : List String}
    (ha : a ∈ arguments) (h : '\r' ∈ a.toList) : '\r' ∈ (callText callee arguments).toList := by
  rw [callText, String.toList_append, String.toList_append, String.toList_intercalate]
  refine List.mem_append_left _ (List.mem_append_right _ ?_)
  exact mem_intercalate_of_mem _ (List.mem_map_of_mem ha) h

/-- The argument that names the file has its stem, on its own or with all of the location. -/
theorem return_mem_argumentsOf {c : Component} (h : '\r' ∈ c.location.stem.toList) (owner : String) :
    ∃ a ∈ argumentsOf owner c, '\r' ∈ a.toList := by
  refine ⟨_, List.mem_of_head? (namesFile_argumentsOf owner c).file, ?_⟩
  rw [String.toList_append]
  refine List.mem_append_right _ ?_
  split
  · have hfull : '\r' ∈ c.location.full.toList := (Location.mem_full_iff (by decide)).2 (Or.inl h)
    refine return_mem_literal ?_
    rw [String.toList_append]
    exact List.mem_append_right _ hfull
  · rw [String.toList_append]
    exact List.mem_append_right _ (return_mem_literal h)

namespace Contents

variable {u : Contents} (name package comment : String) {c : Component}

theorem return_mem_text_of_stem (hc : c ∈ u.components) (h : '\r' ∈ c.location.stem.toList) :
    '\r' ∈ (u.source reservedNames name package comment).text.toList := by
  obtain ⟨n, hn⟩ := exists_accessor reservedNames name hc
  have hobject : (_, u.membersAt reservedNames name c.location.segments) ∈
      (u.source reservedNames name package comment).objects :=
    mem_objects_source.2 (Or.inl ⟨_, holds_of_mem hc, rfl⟩)
  obtain ⟨a, ha, hreturn⟩ := return_mem_argumentsOf h u.owner
  have hvalue := return_mem_callText (u.imports.spelled c.kind.shape.callee) ha hreturn
  have hbody := return_mem_callText (u.imports.spelled c.kind.shape.callee)
    (List.mem_append_left [] ha) hreturn
  cases c with
  | resource k l => exact Source.mem_text_of_value hobject (hn _ (List.mem_singleton_self _)) hvalue
  | script l t => exact Source.mem_text_of_body hobject (hn _ List.mem_cons_self) hbody
  | scriptTag l => exact Source.mem_text_of_body hobject (hn _ List.mem_cons_self) hbody

theorem return_mem_text_of_directory (hc : c ∈ u.components) {segment : String}
    (hsegment : segment ∈ c.location.segments) (h : '\r' ∈ segment.toList) :
    '\r' ∈ (u.source reservedNames name package comment).text.toList := by
  obtain ⟨above, rest, he⟩ := List.append_of_mem hsegment
  have hdir : Holds (u.components.map placed) (above ++ [segment]) := by
    refine Or.inr ⟨by simp, _, List.mem_map_of_mem hc, rest, ?_⟩
    rw [placed, he, List.append_assoc]
    rfl
  have hconstant : pathConstant (dotted (u.address reservedNames name above)) segment ∈
      u.membersAt reservedNames name (above ++ [segment]) := by
    refine mem_layout.2 (Or.inl ?_)
    rw [firstAt_concat]
    exact List.mem_singleton_self _
  refine Source.mem_text_of_value (mem_objects_source.2 (Or.inl ⟨_, hdir, rfl⟩)) hconstant ?_
  rw [String.toList_append]
  refine List.mem_append_right _ (return_mem_literal ?_)
  rw [String.toList_append]
  exact List.mem_append_left _ h

theorem return_mem_text_of_location (hc : c ∈ u.components) (h : '\r' ∈ c.location.full.toList) :
    '\r' ∈ (u.source reservedNames name package comment).text.toList := by
  rcases (Location.mem_full_iff (by decide)).1 h with hstem | ⟨segment, hsegment, hreturn⟩
  · exact return_mem_text_of_stem name package comment hc hstem
  · exact return_mem_text_of_directory name package comment hc hsegment hreturn

theorem return_mem_text_of_constant {p : Property} (hp : p ∈ u.constants)
    (h : '\r' ∈ p.value.toList) : '\r' ∈ (u.source reservedNames name package comment).text.toList := by
  have hmem : .property p ∈ u.membersAt reservedNames name [] :=
    mem_layout.2 (Or.inl (List.mem_append_left _ (List.mem_map_of_mem hp)))
  exact Source.mem_text_of_value (mem_objects_source.2 (Or.inl ⟨[], Or.inl rfl, rfl⟩)) hmem h

end Contents

/-! ## Subjects -/

namespace Subject

/-- The names that a file writes out of those that a pack is free to choose. -/
def packNames : Subject → List String
  | member ns _ => ns.name :: ns.components.map (·.location.full)
  | shared f => f.name :: f.members

/-- The owner stands in the comment as it is, between fixed texts. -/
theorem exists_comment_eq (x : Subject) : ∃ before after, IsCode before ∧ IsCode after ∧
    x.comment = before ++ x.unit.owner ++ after := by
  cases x with
  | member ns family =>
    have hbefore : IsCode "Bindings for namespace " := .plain (by decide)
    exact ⟨_, "", hbefore, .plain rfl, (String.append_empty).symm⟩
  | shared f =>
    have hbefore : IsCode "Resources shared by the " := .plain (by decide)
    have hafter : IsCode " namespaces" := .plain (by decide)
    exact ⟨_, _, hbefore, hafter, rfl⟩

theorem mem_comment_of_mem_owner (x : Subject) {c : Char} (h : c ∈ x.unit.owner.toList) :
    c ∈ x.comment.toList := by
  obtain ⟨before, after, -, -, he⟩ := x.exists_comment_eq
  rw [he, String.toList_append, String.toList_append]
  exact List.mem_append_left _ (List.mem_append_right _ h)

theorem noBreak_comment (x : Subject) (h : ∀ c ∈ x.unit.owner.toList, c ≠ '\n' ∧ c ≠ '\r') :
    ∀ c ∈ x.comment.toList, c ≠ '\n' ∧ c ≠ '\r' := by
  obtain ⟨before, after, hbefore, hafter, he⟩ := x.exists_comment_eq
  rw [he, String.toList_append, String.toList_append]
  intro c hc
  rcases List.mem_append.1 hc with hc | hc
  · rcases List.mem_append.1 hc with hc | hc
    · exact hbefore.noBreak c hc
    · exact h c hc
  · exact hafter.noBreak c hc

theorem owner_mem_packNames (x : Subject) : x.unit.owner ∈ x.packNames := by
  cases x with
  | member ns family => exact List.mem_cons_self
  | shared f => exact List.mem_cons_self

theorem return_not_mem_objective {o : Objective} (h : ∀ c ∈ o.name.toList, isObjectiveChar c = true) :
    '\r' ∉ o.name.toList := fun hreturn => absurd (h _ hreturn) (by decide)

theorem return_not_mem_storage {st : Storage} (h : IsReference (st.owner.toList, st.name.toList)) :
    '\r' ∉ st.owner.toList ∧ '\r' ∉ st.name.toList :=
  ⟨fun hreturn => absurd (h.1 _ hreturn) (by decide), fun hreturn => absurd (h.2 _ hreturn) (by decide)⟩

theorem returnFree_member {ns : Namespace} (htokens : ns.IsTokens) (family : Option Family)
    (h : ∀ name ∈ (member ns family).packNames, '\r' ∉ name.toList) :
    (member ns family).unit.ReturnFree := by
  obtain ⟨hname, hlocations⟩ := List.forall_mem_cons.1 h
  have hcomponents : ∀ c ∈ ns.inOrder, c ∈ ns.components := fun c hc => ns.inOrder_perm.mem_iff.1 hc
  exact {
    owner := hname
    constants := obeys_constants isClosed_code List.not_mem_nil hname (fun _ he => nomatch he)
    objectives := fun o ho =>
      return_not_mem_objective (htokens.objectives o (List.mem_of_mem_filter ho))
    storages := fun st hst =>
      return_not_mem_storage (htokens.storages st (List.mem_of_mem_filter hst))
    locations := fun c hc => hlocations _ (List.mem_map_of_mem (hcomponents c hc))
    parameters := by
      intro c hc p hp hreturn
      unfold parametersOf at hp
      split at hp
      · rename_i t ht
        exact absurd (htokens.parameters c (hcomponents c hc) t ht p hp _ hreturn) (by decide)
      · exact List.not_mem_nil hp }

theorem returnFree_shared {namespaces : List Namespace} (htokens : ∀ ns ∈ namespaces, ns.IsTokens)
    {f : Family} (hf : f ∈ Family.ofNamespaces namespaces)
    (h : ∀ name ∈ (shared f).packNames, '\r' ∉ name.toList) : (shared f).unit.ReturnFree := by
  obtain ⟨hname, hmembers⟩ := List.forall_mem_cons.1 h
  exact {
    owner := hname
    constants := by
      refine obeys_constants isClosed_code List.not_mem_nil hname fun g he => ?_
      rwa [← Subject.shared.inj he]
    objectives := by
      intro o ho
      obtain ⟨ns, hns, ho⟩ := Family.mem_objectives_of_family hf ho
      exact return_not_mem_objective ((htokens ns hns).objectives o ho)
    storages := by
      intro st hst
      obtain ⟨ns, hns, hst⟩ := Family.mem_storages_of_family hf hst
      exact return_not_mem_storage ((htokens ns hns).storages st hst)
    locations := fun _ hc => absurd hc List.not_mem_nil
    parameters := fun _ hc => absurd hc List.not_mem_nil }

/-- All that scripts name is fine, so only the names of files and directories are left. -/
theorem returnFree {namespaces : List Namespace} (htokens : ∀ ns ∈ namespaces, ns.IsTokens)
    {x : Subject} (hx : x ∈ subjects (.ofNamespaces namespaces))
    (h : ∀ name ∈ x.packNames, '\r' ∉ name.toList) : x.unit.ReturnFree := by
  rcases mem_subjects hx with ⟨ns, hns, rfl⟩ | ⟨f, hf, rfl⟩
  · exact returnFree_member (htokens ns hns) _ h
  · exact returnFree_shared htokens hf h

variable {s : Settings}

theorem isCode_package (hs : s.invalidPackage? = none) (x : Subject) : IsCode (x.package s) := by
  have hsettings : IsCode s.package := by
    refine isClosed_code.closed.reference fun c hc => ?_
    by_cases hdot : c = '.'
    · rw [hdot]
      decide
    · obtain ⟨part, hpart, hc⟩ := (mem_iff_splitOn hdot).1 hc
      have hsegment := List.all_eq_true.1 (Settings.isPackage_of_valid hs) part hpart
      simp [isReferenceChar, (Settings.isPart_of_isPackageSegment hsegment).2 c hc]
  have hdot : IsCode "." := .plain (by decide)
  cases x with
  | member ns family =>
    cases family with
    | none => exact hsettings
    | some f => exact (hsettings.append hdot).append (isClosed_code.closed.name (isPlain_packageSegment _))
  | shared f => exact hsettings

end Subject

namespace Contents

variable {u : Contents} {name package comment : String}

theorem isCode_of_mem_imports {text : String} (h : text ∈ u.imports.names) : IsCode text := by
  have hmem : text ∈ (u.imports.map ClassName.qualified).eraseDups := List.mem_mergeSort.1 h
  obtain ⟨e, he, rfl⟩ := List.mem_map.1 (List.mem_eraseDups.1 hmem)
  exact type_spelled isClosed_code (isNamed_of_mem_uses (mem_uses_of_mem_imports he)) []

theorem keepsLines (h : u.ReturnFree) (hname : IsIdentifier name) (hpackage : IsCode package)
    (hcomment : ∀ c ∈ comment.toList, c ≠ '\n' ∧ c ≠ '\r') :
    (u.source reservedNames name package comment).KeepsLines :=
  Source.keepsLines hcomment (Source.isCode_tail hpackage (fun _ => isCode_of_mem_imports) hname.plain
    fun _ ho => obeys_of_mem_objects isClosed_code h.constants h.isQuotable hname ho)

end Contents

namespace Subject

theorem mem_text_of_mem_owner (x : Subject) (name package : String) {c : Char}
    (h : c ∈ x.unit.owner.toList) : c ∈ (x.source name package).text.toList := by
  rw [x.source_eq]
  exact Source.mem_text_of_comment (x.mem_comment_of_mem_owner h)

/-- A carriage return in a name of the pack gets into the file. -/
theorem return_mem_text (x : Subject) (name package : String) {text : String}
    (htext : text ∈ x.packNames) (h : '\r' ∈ text.toList) :
    '\r' ∈ (x.source name package).text.toList := by
  cases x with
  | member ns family =>
    rcases List.mem_cons.1 htext with rfl | htext
    · exact mem_text_of_mem_owner _ name package h
    · obtain ⟨c, hc, rfl⟩ := List.mem_map.1 htext
      exact Contents.return_mem_text_of_location name package _ (ns.inOrder_perm.mem_iff.2 hc) h
  | shared f =>
    rcases List.mem_cons.1 htext with rfl | htext
    · exact mem_text_of_mem_owner _ name package h
    · refine Contents.return_mem_text_of_constant name package _
        (List.mem_cons_of_mem _ List.mem_cons_self) ?_
      exact return_mem_callText _ (List.mem_map_of_mem htext) (return_mem_literal h)

end Subject

/-! ## Files -/

/-- A file keeps its lines exactly if no name that is written in it has a carriage return, and its
namespace or family no line feed. -/
theorem keepsLines_iff {root : Place} {d : Datapack} (hread : Pack.readDatapack root = .ok d)
    {s : Settings} (hs : s.invalidPackage? = none) {x : Subject} {f : SourceFile}
    (h : (x, f) ∈ units d s) : f.source.KeepsLines ↔
      '\n' ∉ x.unit.owner.toList ∧ ∀ name ∈ x.packNames, '\r' ∉ name.toList := by
  have hx : x ∈ subjects d := (List.of_mem_zip h).1
  obtain ⟨taken, rfl⟩ := exists_rootName h
  show (x.source (x.rootName taken) (x.package s)).KeepsLines ↔ _
  constructor
  · intro hkeeps
    constructor
    · intro hfeed
      rw [x.source_eq] at hkeeps
      exact hkeeps.feed_not_mem_comment (x.mem_comment_of_mem_owner hfeed)
    · intro name hname hreturn
      exact hkeeps.noReturn (x.return_mem_text _ _ hname hreturn)
  · intro ⟨hfeed, hreturn⟩
    obtain ⟨namespaces, rfl, hnamespaces⟩ := Pack.exists_of_readDatapack hread
    have htokens : ∀ ns ∈ namespaces, ns.IsTokens := by
      intro ns hns
      obtain ⟨name, hname⟩ := hnamespaces ns hns
      exact Pack.isTokens_of_readNamespace hname
    have howner : ∀ c ∈ x.unit.owner.toList, c ≠ '\n' ∧ c ≠ '\r' := by
      intro c hc
      constructor
      · rintro rfl
        exact hfeed hc
      · rintro rfl
        exact hreturn _ x.owner_mem_packNames hc
    rw [x.source_eq]
    exact Contents.keepsLines (x.returnFree htokens hx hreturn) (x.isIdentifier_rootName taken)
      (x.isCode_package hs) (x.noBreak_comment howner)

/-- A file of a namespace that is read. -/
theorem exists_unit_of_readDatapack {root : Place} {shape : List (String × List Component)}
    (h : (Pack.readDatapack root).toOption.map
      (fun d => d.namespaces.map fun ns => (ns.name, ns.components)) = some shape)
    {name : String} {components : List Component} (hmem : (name, components) ∈ shape) (s : Settings) :
    ∃ d, Pack.readDatapack root = .ok d ∧ ∃ ns family f, (.member ns family, f) ∈ units d s ∧
      ns.name = name ∧ ns.components = components := by
  obtain ⟨d, hd, rfl⟩ := Option.map_eq_some_iff.1 h
  obtain ⟨ns, hns, he⟩ := List.mem_map.1 hmem
  obtain ⟨rfl, rfl⟩ := Prod.mk.inj he
  have hsubject : .member ns (d.familyOf? ns.name) ∈ subjects d :=
    List.mem_append_left _ (List.mem_map_of_mem (f := fun ns => Subject.member ns _) hns)
  obtain ⟨f, hf⟩ := exists_file_of_mem_subjects hsubject
  exact ⟨d, toOption_eq_some_iff.1 hd, ns, _, f, hf, rfl, rfl⟩

/-- A line feed in the name of a directory is escaped. -/
theorem lines_kept_below_a_broken_name :
    let root : Place := ⟨⟨[(["data"], .directory), (["data", "p"], .directory),
      (["data", "p", "function"], .directory), (["data", "p", "function", "a\nb"], .directory),
      (["data", "p", "function", "a\nb", "x.mcfunction"], .file ⟨#[]⟩)],
      by decide, by decide⟩, [], "pack"⟩
    let s : Settings := .forPackage "generated"
    ∃ d, Pack.readDatapack root = .ok d ∧ s.invalidPackage? = none ∧ ∃ ns family f,
      (.member ns family, f) ∈ units d s ∧ ns.components.map (·.location.full) = ["a\nb/x"] ∧
        f.source.KeepsLines := by
  intro root s
  have hshape : (Pack.readDatapack root).toOption.map
      (fun d => d.namespaces.map fun ns => (ns.name, ns.components)) =
        some [("p", [.script ⟨"a\nb", "x"⟩ none])] := by decide +kernel
  obtain ⟨d, hread, ns, family, f, hunit, hname, hcomponents⟩ :=
    exists_unit_of_readDatapack hshape List.mem_cons_self s
  have hs : s.invalidPackage? = none := by decide
  have hnames : (Subject.member ns family).packNames = ["p", "a\nb/x"] := by
    rw [Subject.packNames, hname, hcomponents]
    decide
  have hfeed : '\n' ∉ (Subject.member ns family).unit.owner.toList := by
    show '\n' ∉ ns.name.toList
    rw [hname]
    decide
  have hreturn : ∀ name ∈ (Subject.member ns family).packNames, '\r' ∉ name.toList := by
    rw [hnames]
    decide
  refine ⟨d, hread, hs, ns, family, f, hunit, ?_, (keepsLines_iff hread hs hunit).2 ⟨hfeed, hreturn⟩⟩
  rw [hcomponents]
  decide

/-- The namespace `a\nb` has a line `b` in its file, and the script `x\ry` a carriage return. -/
theorem a_name_breaks_out :
    let root : Place := ⟨⟨[(["data"], .directory), (["data", "a\nb"], .directory),
      (["data", "a\nb", "function"], .directory),
      (["data", "a\nb", "function", "x\ry.mcfunction"], .file ⟨#[]⟩)],
      by decide, by decide⟩, [], "pack"⟩
    let s : Settings := .forPackage "generated"
    ∃ d, Pack.readDatapack root = .ok d ∧ ∃ x f, (x, f) ∈ units d s ∧
      f.source.comment = "Bindings for namespace a\nb" ∧
        (f.contents.toList.splitOn '\n')[1]? = some "b".toList ∧ '\r' ∈ f.contents.toList ∧
          ¬f.source.KeepsLines := by
  intro root s
  have hshape : (Pack.readDatapack root).toOption.map
      (fun d => d.namespaces.map fun ns => (ns.name, ns.components)) =
        some [("a\nb", [.script ⟨"", "x\ry"⟩ none])] := by decide +kernel
  obtain ⟨d, hread, ns, family, f, hunit, hname, hcomponents⟩ :=
    exists_unit_of_readDatapack hshape List.mem_cons_self s
  obtain ⟨taken, rfl⟩ := exists_rootName hunit
  have hcomment : namespaceComment ns = "Bindings for namespace a\nb" := by
    show "Bindings for namespace " ++ ns.name = _
    rw [hname]
    decide
  have hwritten : "x\ry" ∈ (Subject.member ns family).packNames := by
    rw [Subject.packNames, hcomponents]
    exact List.mem_cons_of_mem _ (by decide)
  have hreturn := Subject.return_mem_text _ ((Subject.member ns family).rootName taken)
    ((Subject.member ns family).package s) hwritten (by decide)
  refine ⟨d, hread, _, _, hunit, hcomment, ?_, hreturn, fun hkeeps => hkeeps.noReturn hreturn⟩
  have hfirst : ("// " ++ namespaceComment ns).toList.splitOn '\n' =
      ["// Bindings for namespace a".toList, "b".toList] := by
    rw [hcomment]
    decide
  show ((textOf (("// " ++ namespaceComment ns) :: _)).toList.splitOn '\n')[1]? = _
  rw [splitOn_textOf_cons, hfirst]
  rfl

end PackBindings.Bindings
