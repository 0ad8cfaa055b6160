/-
  PackBindings.Proofs.Pack.NamespaceFiles — a namespace holds the files that stand in it.

  A reading fails at a directory that is too far down to be opened, and at a script that is too
  far down to be read or no text. Where a script is text, that is all: a reading succeeds exactly
  if everything it opens is in reach (`InReach`), and then the namespace holds one component for
  each file (`HoldsFiles`).

  Proved, for every tree whose names are names of files and every place in it:
  - `mem_resources_read_iff`: its resources are those that its scripts use.
  - `holdsFiles_of_readNamespace`: it holds its files.
  - `namespace_holds_its_files`: it can be read if everything is in reach, and not otherwise.
-/

import PackBindings.Proofs.Files.SpelledPaths
import PackBindings.Proofs.Pack.KindByKind

namespace PackBindings.Pack

open PackBindings.Files

/-! ## Files and components -/

/-- A script of the namespace at this location says this. -/
def HasScript (here : Place) (l : Location) (text : String) : Prop :=
  ∃ p contents, HasFile here p contents .function l ∧ String.fromUTF8? contents = some text

/-- What a namespace holds when its files are those that stand in a directory. -/
structure HoldsFiles (here : Place) (name : String) (ns : Namespace) : Prop where
  name_eq : ns.name = name
  increasing : ∀ k, (ns.ofKind k).Pairwise fun c d => c.location.full < d.location.full
  variant : ∀ c ∈ ns.components, c = .ofKind c.kind c.location c.template?
  /-- Every file is a component. -/
  exists_component : ∀ p contents k l, HasFile here p contents k l → ∃ c ∈ ns.ofKind k, c.location = l
  /-- Every component is a file, and one only. -/
  exists_file : ∀ k, ∀ c ∈ ns.ofKind k, ∃! p, ∃ contents, HasFile here p contents k c.location
  /-- No file is two components. -/
  one_component : ∀ p, ∀ c ∈ ns.components, ∀ d ∈ ns.components,
    Locates c.kind p c.location → Locates d.kind p d.location → c = d
  no_entry : ∀ k, (∀ p contents l, ¬HasFile here p contents k l) → ns.ofKind k = []
  /-- A reader that goes through the kinds has kept in the end what is told from the namespace. -/
  collected : ∃ read, (∀ k, (readKind here name k).toOption = some (read k)) ∧
    Collected.collect name read = .ofNamespace ns
  /-- A kind has an entry if it has a file. -/
  entry_iff : ∀ k, (∃ cs, (k, cs) ∈ (Collected.ofNamespace ns).entries) ↔
    ∃ p contents l, HasFile here p contents k l
  objectives : ∀ a, a ∈ ns.objectives.items ↔ ∃ c ∈ ns.ofKind .function, ∃ text,
    HasScript here c.location text ∧
      a ∈ (Script.Usage.ofText text name c.location.full).objectives.items
  storages : ∀ a, a ∈ ns.storages.items ↔ ∃ c ∈ ns.ofKind .function, ∃ text,
    HasScript here c.location text ∧
      a ∈ (Script.Usage.ofText text name c.location.full).storages.items
  /-- Scripts are templates as their texts say. -/
  template : ∀ c ∈ ns.ofKind .function, ∃ text, HasScript here c.location text ∧
    c.template? = (Script.Usage.ofText text name c.location.full).template
  templates : ns.templates = (ns.ofKind .function).filterMap Component.template?
  template_script : ∀ c ∈ ns.components, ∀ t ∈ c.template?, t.script = c.location.full

theorem textOf?_eq_some_iff {file : Place} {contents : ByteArray} {text : String} :
    textOf? file contents = some text ↔
      file.isInReach = true ∧ String.fromUTF8? contents = some text := by
  rw [textOf?, Option.ite_none_right_eq_some]

theorem hasScript_of_mem {here : Place} {dir : Place} {f : ComponentFile} {text : String}
    (hf : f ∈ foundFiles here .function) (htext : textOf? (dir.along f.path) f.contents = some text) :
    HasScript here f.location text :=
  ⟨_, f.contents, hasFile_iff.2 ⟨f, hf, rfl, rfl, rfl⟩, (textOf?_eq_some_iff.1 htext).2⟩

theorem script_of_template {text name location : String} {t : Template}
    (h : (Script.Usage.ofText text name location).template = some t) : t.script = location := by
  rw [Script.Usage.ofText, Script.Usage.ofPlain] at h
  dsimp only at h
  split at h
  · cases h
  · rw [← Option.some.inj h]

theorem IsRead.template_script {name : String} {dir : Place} {k : Kind} {f : ComponentFile}
    {c : ReadComponent} (h : IsRead name dir k f c) :
    ∀ t ∈ c.component.template?, t.script = c.component.location.full := by
  intro t ht
  cases h with
  | script text hk _ =>
    subst hk
    exact script_of_template ht
  | other hk => simp [hk] at ht

section

variable {here : Place} {name : String} {read : Kind → List ReadComponent}
  (hread : ∀ k, (readKind here name k).toOption = some (read k))

include hread

theorem mem_ofKind_iff {k : Kind} {c : Component} :
    c ∈ (namespaceOf name (Kind.all.flatMap read)).ofKind k ↔ ∃ f ∈ foundFiles here k, ∃ r,
      IsRead name (here.below k.directory) k f r ∧ r.component = c := by
  rw [ofKind_namespaceOf hread, List.mem_map]
  simp only [mem_iff_of_readKind (hread k)]
  constructor
  · rintro ⟨r, ⟨f, hf, hr⟩, rfl⟩
    exact ⟨f, hf, r, hr, rfl⟩
  · rintro ⟨f, hf, r, hr, rfl⟩
    exact ⟨r, ⟨f, hf, hr⟩, rfl⟩

theorem exists_isRead {k : Kind} {f : ComponentFile} (hf : f ∈ foundFiles here k) :
    ∃ r, IsRead name (here.below k.directory) k f r := by
  obtain ⟨-, hmap⟩ := toOption_readKind_eq_some_iff.1 (hread k)
  obtain ⟨r, hr⟩ := Option.isSome_iff_exists.1 ((mapM_eq_some_iff.1 hmap).1 f hf)
  exact ⟨r, toOption_readComponent_eq_some_iff.1 hr⟩

/-- The scripts are the components that use resources. -/
theorem mem_resources_read_iff {α : Type} {items : Script.Usage → List α} {a : α} :
    a ∈ ((Kind.all.flatMap read).flatMap fun c => (c.usage.map items).getD []) ↔
      ∃ c ∈ (namespaceOf name (Kind.all.flatMap read)).ofKind .function, ∃ text,
        HasScript here c.location text ∧ a ∈ items (.ofText text name c.location.full) := by
  rw [mem_resources_iff]
  simp only [mem_flatMap_read_iff hread]
  constructor
  · rintro ⟨c, ⟨k, f, hf, hc⟩, u, hu, ha⟩
    have hmem := (mem_ofKind_iff hread).2 ⟨f, hf, c, hc, rfl⟩
    cases hc with
    | script text hk htext =>
      subst hk
      obtain rfl := Option.some.inj hu
      exact ⟨_, hmem, text, hasScript_of_mem hf htext, ha⟩
    | other hk => cases hu
  · rintro ⟨c, hc, text, ⟨p, contents, hfile, hutf8⟩, ha⟩
    -- the file that says so has been read, and says nothing else
    obtain ⟨f, hf, rfl, rfl, hlocation⟩ := hasFile_iff.1 hfile
    obtain ⟨r, hr⟩ := exists_isRead hread hf
    refine ⟨r, ⟨.function, f, hf, hr⟩, ?_⟩
    cases hr with
    | script other _ hother =>
      obtain rfl := Option.some.inj (hutf8.symm.trans (textOf?_eq_some_iff.1 hother).2)
      exact ⟨_, rfl, hlocation ▸ ha⟩
    | other hk => exact absurd rfl hk

theorem pairwise_ofKind (hnames : here.tree.IsNamed) (k : Kind) :
    ((namespaceOf name (Kind.all.flatMap read)).ofKind k).Pairwise
      fun c d => c.location.full < d.location.full := by
  have hsame : ((namespaceOf name (Kind.all.flatMap read)).ofKind k).map (·.location) =
      (foundFiles here k).map (·.location) := by
    rw [ofKind_namespaceOf hread, List.map_map]
    exact map_location_of_readKind (hread k)
  have hfiles : ((foundFiles here k).map (·.location)).Pairwise fun l m => l.full < m.full :=
    List.pairwise_map.2 (pairwise_foundFiles hnames k)
  rwa [← hsame, List.pairwise_map] at hfiles

end

theorem path_eq_of_hasFile {here : Place} (hnames : here.tree.IsNamed) {p q : Path}
    {c e : ByteArray} {k : Kind} {l : Location} (hp : HasFile here p c k l)
    (hq : HasFile here q e k l) : p = q := by
  obtain ⟨f, hf, rfl, -, rfl⟩ := hasFile_iff.1 hp
  obtain ⟨g, hg, rfl, -, hlocation⟩ := hasFile_iff.1 hq
  rw [eq_of_pairwise_lt (pairwise_foundFiles hnames k) hf hg (congrArg Location.full hlocation.symm)]

theorem holdsFiles_of_readNamespace {here : Place} (hnames : here.tree.IsNamed) {name : String}
    {ns : Namespace} (h : readNamespace here name = .ok ns) : HoldsFiles here name ns := by
  obtain ⟨read, hread, rfl⟩ := readNamespace_eq_ok_iff.1 h
  have hincreasing := pairwise_ofKind hread hnames
  have hfiles : ∀ k, ∀ c ∈ (namespaceOf name (Kind.all.flatMap read)).ofKind k,
      ∃ p contents, HasFile here p contents k c.location := by
    intro k c hc
    obtain ⟨f, hf, r, hr, rfl⟩ := (mem_ofKind_iff hread).1 hc
    exact ⟨_, f.contents, hasFile_iff.2 ⟨f, hf, rfl, rfl, hr.location_eq.symm⟩⟩
  have hfound : ∀ p contents k l, HasFile here p contents k l →
      ∃ c ∈ (namespaceOf name (Kind.all.flatMap read)).ofKind k, c.location = l := by
    intro p contents k l hfile
    obtain ⟨f, hf, -, -, rfl⟩ := hasFile_iff.1 hfile
    obtain ⟨r, hr⟩ := exists_isRead hread hf
    exact ⟨_, (mem_ofKind_iff hread).2 ⟨f, hf, r, hr, rfl⟩, hr.location_eq⟩
  exact {
    name_eq := rfl
    increasing := hincreasing
    variant := by
      intro c hc
      obtain ⟨k, f, -, r, hr, rfl⟩ := (mem_components_iff hread).1 hc
      exact hr.variant
    exists_component := hfound
    exists_file := by
      intro k c hc
      obtain ⟨p, hp⟩ := hfiles k c hc
      refine ⟨p, hp, ?_⟩
      rintro q ⟨e, hq⟩
      obtain ⟨contents, hp⟩ := hp
      exact path_eq_of_hasFile hnames hq hp
    one_component := by
      intro p c hc d hd hlocates hlocates'
      obtain ⟨hkind, hlocation⟩ := eq_of_locates hlocates hlocates'
      exact eq_of_pairwise_lt (hincreasing d.kind)
        (List.mem_filter.2 ⟨hc, decide_eq_true hkind⟩) (List.mem_filter.2 ⟨hd, decide_eq_true rfl⟩)
        (congrArg Location.full hlocation)
    no_entry := by
      intro k hnone
      refine List.eq_nil_iff_forall_not_mem.2 fun c hc => ?_
      obtain ⟨p, contents, hfile⟩ := hfiles k c hc
      exact hnone p contents c.location hfile
    collected := ⟨read, hread, collect_eq hread⟩
    entry_iff := by
      intro k
      simp only [Collected.mem_entries_ofNamespace]
      constructor
      · rintro ⟨cs, rfl, hne⟩
        obtain ⟨c, hc⟩ := List.exists_mem_of_ne_nil _ hne
        obtain ⟨p, contents, hfile⟩ := hfiles k c hc
        exact ⟨p, contents, c.location, hfile⟩
      · rintro ⟨p, contents, l, hfile⟩
        obtain ⟨c, hc, -⟩ := hfound p contents k l hfile
        exact ⟨_, rfl, List.ne_nil_of_mem hc⟩
    objectives := by
      intro a
      have hused := keyTells_objectives (isUsedFrom_of_mem_read hread)
      exact (Inventory.mem_ofList hused).trans (mem_resources_read_iff hread)
    storages := by
      intro a
      have hused := keyTells_storages (isUsedFrom_of_mem_read hread)
      exact (Inventory.mem_ofList hused).trans (mem_resources_read_iff hread)
    template := by
      intro c hc
      obtain ⟨f, hf, r, hr, rfl⟩ := (mem_ofKind_iff hread).1 hc
      cases hr with
      | script text _ htext => exact ⟨text, hasScript_of_mem hf htext, rfl⟩
      | other hk => exact absurd rfl hk
    templates := Namespace.templates_eq _
    template_script := by
      intro c hc
      obtain ⟨k, f, -, r, hr, rfl⟩ := (mem_components_iff hread).1 hc
      exact hr.template_script }

/-! ## When a namespace can be read -/

/-- Everything that is opened to read the namespace is in reach. -/
structure InReach (here : Place) : Prop where
  directories : ∀ k, DirectoriesInReach here k
  scripts : ∀ p contents l, HasFile here p contents .function l → (here.along p).isInReach = true

theorem exists_readNamespace_iff {here : Place} {name : String} :
    (∃ ns, readNamespace here name = .ok ns) ↔
      ∀ k, (readKind here name k).toOption.isSome = true := by
  simp only [readNamespace_eq_ok_iff]
  constructor
  · rintro ⟨ns, read, hread, -⟩ k
    rw [hread k, Option.isSome_some]
  · intro h
    choose read hread using fun k => Option.isSome_iff_exists.1 (h k)
    exact ⟨_, read, hread, rfl⟩

theorem along_function (here : Place) (p : Path) :
    here.along (Kind.function.path ++ p) = (here.below Kind.function.directory).along p := rfl

/-- A script that was read has been opened. -/
theorem isInReach_of_script {here : Place} {name : String}
    (h : (readKind here name .function).toOption.isSome = true) {p : Path} {contents : ByteArray}
    {l : Location} (hfile : HasFile here p contents .function l) :
    (here.along p).isInReach = true := by
  obtain ⟨f, hf, rfl, -, -⟩ := hasFile_iff.1 hfile
  obtain ⟨text, hread⟩ := Option.isSome_iff_exists.1 ((isSome_readKind_iff.1 h).2 f hf rfl)
  rw [along_function]
  exact (textOf?_eq_some_iff.1 hread).1

/-- The namespace in a directory can be read if its directories and scripts are in reach, and only
then; and it holds its files. -/
theorem namespace_holds_its_files {here : Place} (name : String) (hnames : here.tree.IsNamed)
    (htext : ∀ p contents l, HasFile here p contents .function l →
      (String.fromUTF8? contents).isSome = true) :
    ((∃ ns, readNamespace here name = .ok ns) ↔ InReach here) ∧
      ∀ ns, readNamespace here name = .ok ns → HoldsFiles here name ns := by
  refine ⟨?_, fun ns => holdsFiles_of_readNamespace hnames⟩
  rw [exists_readNamespace_iff]
  constructor
  · intro h
    exact ⟨fun k => (isSome_readKind_iff.1 (h k)).1,
      fun p contents l => isInReach_of_script (h .function)⟩
  · intro h k
    refine isSome_readKind_iff.2 ⟨h.directories k, ?_⟩
    rintro f hf rfl
    have hfile := hasFile_iff.2 ⟨f, hf, rfl, rfl, rfl⟩
    obtain ⟨text, hutf8⟩ := Option.isSome_iff_exists.1 (htext _ _ _ hfile)
    have hreach := h.scripts _ _ _ hfile
    rw [along_function] at hreach
    exact Option.isSome_iff_exists.2 ⟨text, textOf?_eq_some_iff.2 ⟨hreach, hutf8⟩⟩

theorem isSome_fromUTF8?_toUTF8 (text : String) : (String.fromUTF8? text.toUTF8).isSome = true := by
  have hvalid : text.toUTF8.IsValidUTF8 := text.isValidUTF8
  rw [String.fromUTF8?, dif_pos hvalid, Option.isSome_some]

theorem a_namespace_with_a_template :
    let greet : ByteArray := "$say $(who)".toUTF8
    let here : Place := ⟨⟨[(["function"], .directory),
      (["function", "a.b.mcfunction"], .file greet),
      (["function", ".mcfunction"], .file greet)], by decide, by decide⟩, [], "p"⟩
    (here.tree.IsNamed ∧ ∀ p contents l, HasFile here p contents .function l →
        (String.fromUTF8? contents).isSome = true) ∧
      InReach here ∧ ∃ ns, readNamespace here "p" = .ok ns ∧ HoldsFiles here "p" ns := by
  intro greet here
  have hnames : here.tree.IsNamed := by
    unfold Tree.IsNamed IsSegment
    decide
  have hfiles : ∀ p contents l, HasFile here p contents .function l →
      (p = ["function", "a.b.mcfunction"] ∨ p = ["function", ".mcfunction"]) ∧ contents = greet := by
    intro p contents l hfile
    have hmem := Tree.file?_eq_some.1 hfile.stands
    simp only [here, List.nil_append, List.mem_cons, Prod.mk.injEq, reduceCtorEq, and_false,
      Node.file.injEq, List.not_mem_nil, or_false, false_or, ← or_and_right] at hmem
    exact hmem
  have htext : ∀ p contents l, HasFile here p contents .function l →
      (String.fromUTF8? contents).isSome = true := by
    intro p contents l hfile
    rw [(hfiles p contents l hfile).2]
    exact isSome_fromUTF8?_toUTF8 _
  have hreach : InReach here := by
    refine ⟨fun k _ p hp => ?_, fun p contents l hfile => ?_⟩
    · -- the only directory is that of a kind
      obtain ⟨hne, hnode⟩ := Tree.mem_directoriesBelow.1 hp
      have hmem := (Tree.node?_eq_some (by simp [hne])).1 hnode
      have hkind : k.path ++ p = ["function"] := by simpa [here, path_below_kind] using hmem
      have hlen := congrArg List.length hkind
      have hpath : 0 < k.path.length :=
        List.length_pos_of_ne_nil (by simp [Kind.path, List.splitOn_ne_nil])
      have hrest := List.length_pos_of_ne_nil hne
      simp only [List.length_append, List.length_singleton] at hlen
      omega
    · rcases (hfiles p contents l hfile).1 with rfl | rfl <;> decide
  obtain ⟨hiff, hholds⟩ := namespace_holds_its_files "p" hnames htext
  obtain ⟨ns, hns⟩ := hiff.2 hreach
  exact ⟨⟨hnames, htext⟩, hreach, ns, hns, hholds ns hns⟩

/-- A script stays unread where the way to it was spelled too long. -/
theorem a_roundabout_hides_a_script :
    let say : ByteArray := "say hi".toUTF8
    let t : Tree := ⟨[(["p"], .directory), (["p", "function"], .directory),
      (["p", "function", "tick.mcfunction"], .file say)], by decide, by decide⟩
    let here := t.placeAt (roundabout 2040 "p")
    here.tree.IsNamed ∧
      (∀ p contents l, HasFile here p contents .function l →
        (String.fromUTF8? contents).isSome = true) ∧
      HasFile here ["function", "tick.mcfunction"] say .function ⟨"", "tick"⟩ ∧
      ¬∃ ns, readNamespace here "p" = .ok ns := by
  intro say t
  have hone : "p".utf8ByteSize = 1 := by decide
  have hlocate : t.locate? (roundabout 2040 "p") = some ["p"] :=
    Tree.locate?_roundabout t (by omega) (by decide) (by decide) (by unfold pathLimit; omega)
  have hsize := utf8ByteSize_roundabout 2040 "p"
  generalize roundabout 2040 "p" = path at hlocate hsize ⊢
  intro here
  have hspelled : here.spelled.utf8ByteSize = 4081 := by
    show path.utf8ByteSize = 4081
    omega
  have htree : here.tree = t.subtree ["p"] := Tree.base_of_locate? hlocate rfl
  have hfunction : (here.below Kind.function.directory).isInReach = true := by
    have hle : (join here.spelled "function").utf8ByteSize ≤ here.spelled.utf8ByteSize + 1 + 8 :=
      utf8ByteSize_join_le
    have hlimit : (join here.spelled "function").utf8ByteSize ≤ 4095 := by omega
    exact decide_eq_true hlimit
  have hfile : HasFile here ["function", "tick.mcfunction"] say .function ⟨"", "tick"⟩ := by
    refine ⟨?_, hfunction, [], "tick", by decide, by decide, rfl⟩
    rw [htree]
    rfl
  have hentries : here.tree.entries = [(["function"], .directory),
      (["function", "tick.mcfunction"], .file say)] := by
    rw [htree]
    rfl
  have hscript : (here.along ["function", "tick.mcfunction"]).isInReach = false := by
    have hdirectory : here.spelled.utf8ByteSize + 8 ≤ (join here.spelled "function").utf8ByteSize :=
      le_utf8ByteSize_join (by decide +kernel : '/' ∉ "function".toList)
    have hname : (join here.spelled "function").utf8ByteSize + 15 ≤
        (join (join here.spelled "function") "tick.mcfunction").utf8ByteSize :=
      le_utf8ByteSize_join (by decide +kernel : '/' ∉ "tick.mcfunction".toList)
    have hlimit : ¬(join (join here.spelled "function") "tick.mcfunction").utf8ByteSize ≤ 4095 := by
      omega
    exact decide_eq_false hlimit
  have hnames : here.tree.IsNamed := by
    unfold Tree.IsNamed IsSegment
    rw [hentries]
    decide
  refine ⟨hnames, fun p contents l h => ?_, hfile, ?_⟩
  · have hmem := Tree.file?_eq_some.1 h.stands
    obtain ⟨-, rfl⟩ : p = ["function", "tick.mcfunction"] ∧ contents = say := by
      rw [hentries] at hmem
      simpa [here, Tree.placeAt] using hmem
    exact isSome_fromUTF8?_toUTF8 _
  · rw [exists_readNamespace_iff]
    intro h
    rw [isInReach_of_script (h .function) hfile] at hscript
    cases hscript

end PackBindings.Pack
