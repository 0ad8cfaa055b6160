/-
  PackBindings.Proofs.Bindings.Resolution — references mean the classes they are made from.

  A unit writes a class by its simple name if it imports the class, and in full if another one
  of the name came first. Imports have one class for each name, so what a simple name means is
  settled, and whatever is imported has been written by its name where it was used first.

  Proved, for every file of every datapack:
  - `perm_classes`: the imports of a source are the classes that came in, of one name each.
  - `meaning?_spelled` / `meaning?_builtin`: the text of a class means the class, and names of
    the language mean none.
  - `spelled_importsAt`: the text of a class that a component uses does not depend on what
    comes after it.
  - `exists_reference_of_mem_uses`: whatever is used is referred to.
  - `classes_resolved`: all of this, for accessors, storages and all other members.
-/

import PackBindings.Proofs.Bindings.Shadowing
import PackBindings.Proofs.Bindings.Sharing
import PackBindings.Proofs.Kotlin.Meanings

namespace PackBindings.Bindings

open PackBindings.Kotlin

/-- The names of the language that are written as types or called. -/
def builtins : List String := ["String", "List", "listOf"]

namespace Contents

variable {u : Contents} {reserved : List String} {name package comment : String} {e : ClassName}

/-! ## Imports -/

theorem dot_not_mem_name (h : e ∈ u.uses) : '.' ∉ e.name.toList :=
  dot_not_mem_of_isNameChar (isNamed_of_mem_uses h).plain

theorem name_not_builtin (h : e ∈ u.uses) : e.name ∉ builtins := by
  have hall : ∀ e ∈ structureArgument :: ordinaryClasses, e.name ∉ builtins := by decide
  rcases ordinary_of_mem_uses h with hord | rfl
  · exact hall e (List.mem_cons_of_mem _ hord)
  · exact hall _ List.mem_cons_self

theorem perm_classes : (u.source reserved name package comment).classes.Perm u.imports := by
  have hback : (u.imports.map ClassName.qualified).map ClassName.ofPath = u.imports := by
    rw [List.map_map]
    refine (List.map_congr_left fun e he => ?_).trans (List.map_id _)
    exact ClassName.ofPath_qualified (dot_not_mem_name (mem_uses_of_mem_imports he))
  have hapart : u.imports.Nodup := (Imports.namedApart_ofUses u.uses).of_map
  have hnd : (u.imports.map ClassName.qualified).Nodup := by
    rw [← hback] at hapart
    exact hapart.of_map
  have honce : (u.imports.map ClassName.qualified).eraseDups.Perm
      (u.imports.map ClassName.qualified) :=
    (List.perm_ext_iff_of_nodup (nodup_eraseDups _) hnd).2 fun _ => List.mem_eraseDups
  have hsorted := ((List.mergeSort_perm _ (· ≤ ·)).trans honce).map ClassName.ofPath
  rw [hback] at hsorted
  exact hsorted

theorem namedApart_classes :
    ((u.source reserved name package comment).classes.map (·.name)).Nodup :=
  (perm_classes.map _).nodup_iff.2 (Imports.namedApart_ofUses u.uses)

/-! ## References -/

theorem meaning?_spelled (h : e ∈ u.uses) :
    (u.source reserved name package comment).meaning? (u.imports.spelled e) = some e := by
  have hdot := dot_not_mem_name h
  by_cases himport : e ∈ u.imports
  · rw [Imports.spelled_of_mem himport]
    exact Source.meaning?_name namedApart_classes (perm_classes.mem_iff.2 himport) hdot
  · rw [Imports.spelled_of_not_mem himport]
    exact Source.meaning?_qualified hdot

theorem meaning?_builtin {r : String} (h : r ∈ builtins) :
    (u.source reserved name package comment).meaning? r = none := by
  have hdot : ∀ r ∈ builtins, '.' ∉ r.toList := by decide
  refine Source.meaning?_eq_none (hdot r h) fun hmem => ?_
  obtain ⟨e, he, rfl⟩ := List.mem_map.1 hmem
  exact name_not_builtin (mem_uses_of_mem_imports (perm_classes.mem_iff.1 he)) h

theorem map_meaning?_text {classes : List (Option ClassName)}
    (h : ∀ e, some e ∈ classes → e ∈ u.uses) :
    (classes.map u.imports.text).map (u.source reserved name package comment).meaning? =
      classes := by
  rw [List.map_map]
  refine (List.map_congr_left fun class? hmem => ?_).trans (List.map_id _)
  cases class? with
  | none =>
    have hstring : "String" ∈ builtins := by decide
    exact meaning?_builtin hstring
  | some e => exact meaning?_spelled (h e hmem)

/-! ## Texts that are fixed -/

/-- What the unit imports when it has come to some of its components. -/
def importsAt (u : Contents) (cs : List Component) : Imports :=
  Contents.imports { u with components := cs }

theorem spelled_importsAt {before after : List Component} (hcs : u.components = before ++ after)
    (he : e ∈ Contents.uses { u with components := before }) :
    (u.importsAt before).spelled e = u.imports.spelled e := by
  have huses : u.uses = Contents.uses { u with components := before } ++ after.flatMap usesOf := by
    rw [uses, uses, hcs, List.flatMap_append, List.append_assoc]
  have hlater : u.imports = (u.importsAt before).after (after.flatMap usesOf) := by
    rw [imports, huses, Imports.ofUses, List.foldl_append]
    rfl
  rw [hlater]
  exact (Imports.spelled_after Imports.namedApart_nil he _).symm

theorem accessorsOf_importsAt {before after : List Component} {c : Component}
    (hcs : u.components = before ++ c :: after) (owner n : String) :
    accessorsOf (u.importsAt (before ++ [c])) owner c n = accessorsOf u.imports owner c n := by
  refine accessorsOf_congr fun e he => ?_
  have hsplit : u.components = (before ++ [c]) ++ after := by rw [hcs, List.append_assoc]; rfl
  exact spelled_importsAt hsplit (mem_uses.2 (Or.inr ⟨c, by simp, he⟩))

theorem storageMembers_importsAt (owner : String) :
    storageMembers (u.importsAt []) owner u.storages = storageMembers u.imports owner u.storages := by
  by_cases hnone : u.storages = []
  · rw [hnone]
    rfl
  · have huse : storageArgument ∈ Contents.uses { u with components := [] } :=
      mem_uses.2 (Or.inl ⟨hnone, rfl⟩)
    rw [storageMembers, storageMembers, spelled_importsAt (List.nil_append _).symm huse]

/-! ## Members that are made with texts of classes -/

/-- An accessor or a storage. -/
def IsBinding (u : Contents) (m : Decl) : Prop :=
  (∃ c ∈ u.components, ∃ n, m ∈ accessorsOf u.imports u.owner c n) ∨
    m ∈ storageMembers u.imports u.owner u.storages

theorem map_meaning?_accessorsOf {c : Component} (hc : c ∈ u.components) (owner n : String) :
    (accessorsOf u.imports owner c n).map
        (fun m => m.references.map (u.source reserved name package comment).meaning?) =
      accessorClasses c := by
  have huses : ∀ e ∈ usesOf c, e ∈ u.uses := fun e he => mem_uses.2 (Or.inr ⟨c, hc, he⟩)
  calc (accessorsOf u.imports owner c n).map
        (fun m => m.references.map (u.source reserved name package comment).meaning?)
      = ((accessorsOf u.imports owner c n).map Decl.references).map
          (·.map (u.source reserved name package comment).meaning?) := List.map_map.symm
    _ = (accessorClasses c).map fun es =>
          (es.map u.imports.text).map (u.source reserved name package comment).meaning? := by
        rw [references_accessorsOf, List.map_map]
        rfl
    _ = accessorClasses c := by
        refine (List.map_congr_left fun es hes => ?_).trans (List.map_id _)
        exact map_meaning?_text fun e he => huses e (mem_usesOf_of_mem_accessorClasses hes he)

theorem references_storage {imports : Imports} {owner : String} {ss : List Storage} {m : Decl}
    (hm : m ∈ storageMembers imports owner ss) :
    m.references = [some storageArgument, some storageArgument].map imports.text := by
  obtain ⟨s, -, n, -, rfl⟩ := exists_of_mem_zipWith hm
  show typeNames (imports.spelled storageArgument) ++
    callsOf (callText (imports.spelled storageArgument) _) = _
  rw [typeNames_spelled isNamed_storage, callsOf_storage (isReference_spelled isNamed_storage imports)]
  rfl

theorem map_meaning?_storage {owner : String} {m : Decl}
    (hm : m ∈ storageMembers u.imports owner u.storages) :
    m.references.map (u.source reserved name package comment).meaning? =
      [some storageArgument, some storageArgument] := by
  have hne : u.storages ≠ [] := by
    intro he
    simp [storageMembers, he] at hm
  rw [references_storage hm]
  refine map_meaning?_text fun e he => mem_uses.2 (Or.inl ⟨hne, ?_⟩)
  simpa using he

end Contents

/-! ## Sources -/

/-- What the texts of classes in the source of a unit mean. -/
structure ResolvesClasses (u : Contents) (src : Source) : Prop where
  apart : (src.classes.map (·.name)).Nodup
  /-- One use after the other makes the texts and the imports. -/
  texts : Imports.useAll [] u.uses = (u.uses.map u.imports.spelled, u.imports)
  listed : src.classes.Perm (Imports.useAll [] u.uses).2
  meant : (Imports.useAll [] u.uses).1.map src.meaning? = u.uses.map some
  /-- A component is written as it was when the unit had come to it. -/
  fixed : ∀ before c after, u.components = before ++ c :: after → ∀ n,
    accessorsOf u.imports u.owner c n = accessorsOf (u.importsAt (before ++ [c])) u.owner c n
  fixedStorages : storageMembers u.imports u.owner u.storages =
    storageMembers (u.importsAt []) u.owner u.storages
  accessors : ∀ c ∈ u.components, ∀ n,
    (accessorsOf u.imports u.owner c n).map (fun m => m.references.map src.meaning?) =
      accessorClasses c
  storages : ∀ m ∈ storageMembers u.imports u.owner u.storages,
    m.references.map src.meaning? = [some storageArgument, some storageArgument]
  /-- All other members refer to no class. -/
  others : ∀ o ∈ src.objects, ∀ m ∈ o.2,
    u.IsBinding m ∨ ∀ r ∈ m.references, src.meaning? r = none
  /-- Nothing is imported for no use. -/
  used : ∀ e ∈ src.classes, ∃ o ∈ src.objects, ∃ m ∈ o.2, e.name ∈ m.references

section

variable {x : Subject} {name package comment : String}

theorem isBinding_or_silent (hname : IsPlain name) {o : Node}
    (ho : o ∈ (x.unit.source reservedNames name package comment).objects) :
    ∀ m ∈ o.2, x.unit.IsBinding m ∨ ∀ r ∈ m.references,
      (x.unit.source reservedNames name package comment).meaning? r = none := by
  have hsilent : ∀ {m : Decl}, (∀ r ∈ m.references, r ∈ builtins) → ∀ r ∈ m.references,
      (x.unit.source reservedNames name package comment).meaning? r = none :=
    fun h r hr => Contents.meaning?_builtin (h r hr)
  have hstring : ∀ {m : Decl}, m.references = ["String"] → ∀ r ∈ m.references, r ∈ builtins := by
    intro m he r hr
    rw [he, List.mem_singleton] at hr
    simp [hr, builtins]
  refine Contents.IsKept.forall_mem ?_ ho
  constructor
  case constants =>
    intro p hp
    refine Or.inr (hsilent fun r hr => ?_)
    rcases references_constants x hp hr with hr | ⟨rfl, -⟩
    · exact List.mem_append_left ["listOf"] hr
    · decide
  case resources => exact fun r _ => Or.inr fun t ht => absurd ht List.not_mem_nil
  case objectives =>
    intro m hm
    obtain ⟨a, n, -, rfl⟩ := Contents.startsLow_of_mem_shelf (fun _ => startsLow_camel _) hm
    exact Or.inr (hsilent (hstring (references_string (calls_literal _))))
  case storages => exact fun m hm => Or.inl (Or.inr hm)
  case paths =>
    intro dir segment hdir
    have hplain : ∀ n ∈ x.unit.address reservedNames name dir, IsPlain n :=
      Contents.isPlain_of_mem_address hname (Contents.holds_of_concat hdir)
    exact Or.inr (hsilent (hstring (references_pathConstant hplain segment)))
  case accessors => exact fun {_ _ n} c hc _ m hm => Or.inl (Or.inl ⟨c, hc, n, hm⟩)
  case children => exact fun _ _ => Or.inr fun t ht => absurd ht List.not_mem_nil

/-- What is used by components as they are read is referred to. -/
theorem exists_reference_of_mem_uses
    (hbuilt : ∀ c ∈ x.unit.components, c = .ofKind c.kind c.location c.template?) {e : ClassName}
    (he : e ∈ x.unit.uses) : ∃ o ∈ (x.unit.source reservedNames name package comment).objects,
      ∃ m ∈ o.2, x.unit.imports.spelled e ∈ m.references := by
  rcases Contents.mem_uses.1 he with ⟨hne, rfl⟩ | ⟨c, hc, he⟩
  · have hshelf : ("Storages", storageMembers x.unit.imports x.unit.owner x.unit.storages) ∈
        x.unit.resourceObjects := by
      rw [Contents.resourceObjects, if_neg hne]
      exact List.mem_append_right _ (List.mem_singleton_self _)
    have hresource : (resourceName name "Storages",
        storageMembers x.unit.imports x.unit.owner x.unit.storages) ∈
          x.unit.resources reservedNames name :=
      (Contents.mem_resources_iff (leavesShelves_unit x)).2 ⟨_, hshelf, rfl⟩
    have hsome : storageMembers x.unit.imports x.unit.owner x.unit.storages ≠ [] := by
      intro he
      have hlen := congrArg List.length he
      simp [storageMembers, hne] at hlen
    obtain ⟨m, hm⟩ := List.exists_mem_of_ne_nil _ hsome
    refine ⟨_, Contents.mem_objects_source.2 (Or.inr ⟨_, hresource, rfl⟩), m, hm, ?_⟩
    rw [Contents.references_storage hm]
    exact List.mem_cons_self
  · obtain ⟨es, hes, hmem⟩ := exists_mem_accessorClasses (hbuilt c hc) he
    obtain ⟨n, hn⟩ := Contents.exists_accessor reservedNames name hc
    obtain ⟨m, hm, href⟩ := exists_reference x.unit.imports x.unit.owner n hes hmem
    have hobject := Contents.object_above reservedNames name package comment
      (Contents.holds_of_mem hc) List.prefix_rfl
    exact ⟨_, hobject.1, m, hn m hm, href⟩

end

/-- In the file of a namespace or a family, the text of a class means the class it is made from,
whatever is imported after it; and all that is imported is referred to. -/
theorem classes_resolved {d : Datapack} {s : Settings} {x : Subject} {f : SourceFile}
    (h : (x, f) ∈ units d s)
    (hbuilt : ∀ c ∈ x.unit.components, c = .ofKind c.kind c.location c.template?) :
    ResolvesClasses x.unit f.source := by
  obtain ⟨taken, rfl⟩ := exists_rootName h
  have hsource : (fileOf s x (x.rootName taken)).source =
      x.unit.source reservedNames (x.rootName taken) (x.package s) x.comment := x.source_eq _ _
  rw [hsource]
  have htable : Imports.useAll [] x.unit.uses =
      (x.unit.uses.map x.unit.imports.spelled, x.unit.imports) := Imports.useAll_nil _
  constructor
  case apart => exact Contents.namedApart_classes
  case texts => exact htable
  case listed =>
    rw [htable]
    exact Contents.perm_classes
  case meant =>
    rw [htable, List.map_map]
    exact List.map_congr_left fun e he => Contents.meaning?_spelled he
  case fixed => exact fun before c after hcs n => (Contents.accessorsOf_importsAt hcs _ n).symm
  case fixedStorages => exact (Contents.storageMembers_importsAt _).symm
  case accessors => exact fun c hc n => Contents.map_meaning?_accessorsOf hc _ n
  case storages => exact fun m hm => Contents.map_meaning?_storage hm
  case others => exact fun o ho => isBinding_or_silent (x.isPlain_rootName taken) ho
  case used =>
    intro e he
    have himport : e ∈ x.unit.imports := Contents.perm_classes.mem_iff.1 he
    obtain ⟨o, ho, m, hm, href⟩ :=
      exists_reference_of_mem_uses hbuilt (Contents.mem_uses_of_mem_imports himport)
    rw [Imports.spelled_of_mem himport] at href
    exact ⟨o, ho, m, hm, href⟩

/-- A template and a structure of world generation have classes of one name, and a script and a
storage have more. -/
theorem classes_of_one_name_resolved :
    let ns : Namespace := ⟨"p", [.resource .structureTemplate ⟨"", "hut"⟩,
      .resource .worldStructure ⟨"far", "hut"⟩,
      .script ⟨"far", "tell"⟩ (some ⟨"far/tell", ["who"]⟩)], .empty, .ofList [⟨"q", "data", "p"⟩]⟩
    let x : Subject := .member ns none
    let s : Settings := .forPackage "generated"
    let f := fileOf s x "P"
    ((x, f) ∈ units ⟨[ns], []⟩ s ∧
        ∀ c ∈ x.unit.components, c = .ofKind c.kind c.location c.template?) ∧
      ResolvesClasses x.unit f.source ∧ templateArgument.name = structureArgument.name ∧
      x.unit.imports.spelled templateArgument = templateArgument.name ∧
      x.unit.imports.spelled structureArgument = structureArgument.qualified := by
  intro ns x s f
  have hunit : (x, f) ∈ units ⟨[ns], []⟩ s := mem_units_singleton (by decide)
  have hbuilt : ∀ c ∈ x.unit.components, c = .ofKind c.kind c.location c.template? := by decide
  exact ⟨⟨hunit, hbuilt⟩, classes_resolved hunit hbuilt, by decide, by decide, by decide⟩

end PackBindings.Bindings
