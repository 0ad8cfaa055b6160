/-
  PackBindings.Proofs.Bindings.DeclaredNames — every name that a file declares.

  Names of namespaces, directories, files, objectives, storages and parameters are anything
  at all. What a file declares for them is an identifier all the same: each is made in
  Pascal or in camel case, and may then get a suffix or a number. Where it is declared, a
  keyword stands between grave accents. The constants `PATH` name the objects around them
  without any, which is right since names of objects begin as no keyword does.

  Proved, for every datapack and all settings:
  - `isLegal_of_mem_slots`: what a directory hands out, to accessors and to subdirectories.
  - `isLegal_of_mem_objects`: the members of every object of a unit, with their parameters.
  - `exists_line_of_declaration`: every declaration has a line with its names as they are to
    be written.
  - `names_declared_legally`: all of this for every file, that each constant `PATH` spells
    the object around it as it is declared, and that a package segment is an identifier
    and no keyword.
-/

import PackBindings.Proofs.Bindings.Shadowing
import PackBindings.Proofs.Kotlin.Identifiers
import PackBindings.Proofs.Kotlin.Lines

namespace PackBindings.Kotlin

namespace Decl

def parameters : Decl → List Parameter
  | function f => f.parameters
  | property _ | object .. => []

/-- The names that a declaration introduces; its members are left aside. -/
def names (d : Decl) : List String := d.name :: d.parameters.map (·.name)

/-- How the line of a declaration begins, with all of its names. -/
def heading : Decl → String
  | property p => (if p.isConst then "const " else "") ++ "val " ++ escaped p.name ++ ": "
  | function f => "fun " ++ escaped f.name ++ "(" ++ ", ".intercalate (f.parameters.map fun p =>
      escaped p.name ++ ": " ++ p.type ++ (p.default.map (" = " ++ ·)).getD "") ++ "): "
  | object n _ => "object " ++ escaped n

structure IsLegal (d : Decl) : Prop where
  names : ∀ n ∈ d.names, IsIdentifier n
  object : d.isObject = true → d.name ∉ keywords

theorem exists_line_of_heading (d : Decl) (depth : Nat) :
    ∃ after, indent depth (d.heading ++ after) ∈ lines depth d := by
  cases d with
  | property p =>
    refine ⟨p.type ++ " = " ++ p.value, List.mem_singleton.2 ?_⟩
    rw [Property.text, quoted_eq_escaped]
    simp only [heading, String.append_assoc]
  | function f =>
    refine ⟨f.result ++ " = " ++ f.body, List.mem_append_right _ (List.mem_singleton.2 ?_)⟩
    have htexts : f.parameters.map Parameter.text = f.parameters.map fun p =>
        escaped p.name ++ ": " ++ p.type ++ (p.default.map (" = " ++ ·)).getD "" := by
      apply List.map_congr_left
      intro p _
      rw [Parameter.text, quoted_eq_escaped]
      cases p.default with
      | none => rfl
      | some d => rfl
    rw [Function.text, quoted_eq_escaped, htexts]
    simp only [heading, String.append_assoc]
  | object n ms =>
    cases ms with
    | nil =>
      refine ⟨"", List.mem_singleton.2 ?_⟩
      rw [quoted_eq_escaped, String.append_empty]
      rfl
    | cons m ms =>
      refine ⟨" \x7b", ?_⟩
      rw [lines, quoted_eq_escaped]
      exact List.mem_cons_self

end Decl

namespace Source

/-- The root object and all that is declared in it, at any depth. -/
def declarations (s : Source) : List Decl := s.object :: s.objects.flatMap (·.2)

theorem mem_declarations {s : Source} {d : Decl} :
    d ∈ s.declarations ↔ d = s.object ∨ ∃ o ∈ s.objects, d ∈ o.2 := by
  rw [declarations, List.mem_cons, List.mem_flatMap]

/-- A constant `PATH` is the start of all paths, or it names the object around its own one as that
is written where it is declared. -/
def SpellsPaths (s : Source) : Prop :=
  ∀ o ∈ s.objects, ∀ p, .property p ∈ o.2 → p.name = "PATH" →
    (o.1 = [s.name] ∧ p.value = literal "") ∨
      ∃ i ∈ s.objects, ∃ n segment, o.1 = i.1 ++ [n] ∧ "PATH" ∈ i.2.map Decl.name ∧
        p.value = dotted (i.1.map escaped) ++ ".PATH + " ++ literal (segment ++ "/")

/-- Names are identifiers, and are written as identifiers have to be. -/
structure DeclaresLegally (s : Source) : Prop where
  legal : ∀ d ∈ s.declarations, d.IsLegal
  written : ∀ d ∈ s.declarations, ∃ depth, d.lines depth ⊆ s.lines 0 ∧
    ∃ after, indent depth (d.heading ++ after) ∈ d.lines depth
  paths : s.SpellsPaths

theorem exists_line_of_declaration {s : Source} {d : Decl} (h : d ∈ s.declarations) :
    ∃ depth, d.lines depth ⊆ s.lines 0 ∧
      ∃ after, indent depth (d.heading ++ after) ∈ d.lines depth := by
  have hobject : s.object.lines 0 ⊆ s.lines 0 := List.subset_append_right _ _
  rcases mem_declarations.1 h with rfl | ⟨o, ho, hd⟩
  · exact ⟨0, hobject, Decl.exists_line_of_heading _ 0⟩
  · obtain ⟨deeper, hsub⟩ := Decl.exists_lines_subset s.object 0 o ho d hd
    exact ⟨deeper, List.Subset.trans hsub hobject, Decl.exists_line_of_heading d deeper⟩

end Source

end PackBindings.Kotlin

namespace PackBindings.Bindings

open PackBindings.Kotlin

/-! ## Names of one directory -/

namespace Slot

def IsLegal : Slot → Prop
  | accessor n _ => IsIdentifier n
  | child _ n => IsIdentifier n ∧ n ∉ keywords

theorem IsLegal.identifier {x : Slot} (h : x.IsLegal) : IsIdentifier x.name := by
  cases x with
  | accessor n c => exact h
  | child segment n => exact h.1

end Slot

theorem isLegal_of_mem_slots {scope : Scope} {known : List String} {ps : List Placed} {x : Slot}
    (h : x ∈ slots scope known ps) : x.IsLegal := by
  induction ps generalizing scope known with
  | nil => exact absurd h List.not_mem_nil
  | cons p ps ih =>
    obtain ⟨_ | ⟨segment, segments⟩, c⟩ := p
    · rw [slots_own] at h
      rcases List.mem_cons.1 h with rfl | h
      · exact isIdentifier_claim (isIdentifier_camel _) (isIdentifier_camel _)
      · exact ih h
    · by_cases hk : segment ∈ known
      · rw [slots_known hk] at h
        exact ih h
      · rw [slots_new hk] at h
        rcases List.mem_cons.1 h with rfl | h
        · exact ⟨isIdentifier_freshName scope (isIdentifier_pascal segment),
            not_keyword_of_startsHigh (startsHigh_freshName scope (startsHigh_pascal segment))⟩
        · exact ih h

theorem isLegal_of_mem_namesTo {reserved : List String} {scope : Scope} {ps : List Placed}
    {dir : List String} (h : Holds ps dir) {n : String} (hn : n ∈ namesTo reserved scope ps dir) :
    IsIdentifier n ∧ n ∉ keywords := by
  induction dir generalizing scope ps with
  | nil => exact absurd hn List.not_mem_nil
  | cons segment dir ih =>
    obtain ⟨hs, hrest⟩ := holds_cons h
    rcases List.mem_cons.1 hn with rfl | hn
    · exact isLegal_of_mem_slots (mem_slots_of_startsWith hs)
    · exact ih hrest hn

/-! ## Accessors -/

theorem isIdentifier_of_mem_identifiersOf {parameters : List String} {identifier : String}
    (h : identifier ∈ identifiersOf parameters) : IsIdentifier identifier := by
  apply isIdentifier_of_mem_nameAll _ h
  intro base hbase
  obtain ⟨parameter, -, rfl⟩ := List.mem_map.1 hbase
  exact isIdentifier_camel parameter

section

variable {imports : Imports} {owner name : String} {c : Component}

theorem isIdentifier_of_mem_parameters {f : Function} (hf : f ∈ functionsOf imports owner c name) :
    ∀ p ∈ f.parameters, IsIdentifier p.name := by
  have hfixed : ∀ n ∈ ["arguments", "path"], IsIdentifier n := by decide
  intro p hp
  rcases List.mem_cons.1 hf with rfl | hf
  · exact absurd hp List.not_mem_nil
  · split at hf
    · exact absurd hf List.not_mem_nil
    · simp only [overloads, List.mem_cons, List.not_mem_nil, or_false] at hf
      rcases hf with rfl | rfl | rfl
      · obtain ⟨x, hx, rfl⟩ := List.mem_map.1 hp
        exact isIdentifier_of_mem_identifiersOf hx
      · rw [List.mem_singleton.1 hp]
        exact hfixed _ List.mem_cons_self
      · rcases List.mem_cons.1 hp with rfl | hp
        · exact hfixed _ List.mem_cons_self
        · rw [List.mem_singleton.1 hp]
          exact hfixed _ (List.mem_cons_of_mem _ List.mem_cons_self)

theorem isLegal_of_mem_accessorsOf (hname : IsIdentifier name) {m : Decl}
    (hm : m ∈ accessorsOf imports owner c name) : m.IsLegal := by
  have hobject : m.isObject = true → m.name ∉ keywords := by
    rw [isObject_of_mem_accessorsOf hm]
    exact fun h => absurd h Bool.false_ne_true
  refine ⟨List.forall_mem_cons.2 ⟨?_, ?_⟩, hobject⟩
  · rwa [name_of_mem_accessorsOf hm]
  · intro n hn
    obtain ⟨p, hp, rfl⟩ := List.mem_map.1 hn
    rcases accessorsOf_cases imports owner c name with ⟨q, -, he⟩ | he
    · rw [he, List.mem_singleton] at hm
      rw [hm] at hp
      exact absurd hp List.not_mem_nil
    · rw [he] at hm
      obtain ⟨f, hf, rfl⟩ := List.mem_map.1 hm
      exact isIdentifier_of_mem_parameters hf p hp

end

/-! ## Units -/

theorem isLegal_property {p : Property} (h : IsIdentifier p.name) : (Decl.property p).IsLegal :=
  ⟨List.forall_mem_singleton.2 h, fun hobject => absurd hobject Bool.false_ne_true⟩

theorem isLegal_object {n : String} (h : IsIdentifier n) (hn : n ∉ keywords) (ms : List Decl) :
    (Decl.object n ms).IsLegal :=
  ⟨List.forall_mem_singleton.2 h, fun _ => hn⟩

/-- The wishes for objectives and storages are in camel case. -/
theorem isLegal_of_mem_shelf {α : Type} {f : α → String → Property} (hf : ∀ a n, (f a n).name = n)
    {xs : List α} {wish : α → String} (hwish : ∀ a, IsIdentifier (wish a)) {m : Decl}
    (hm : m ∈ List.zipWith (fun a n => Decl.property (f a n)) xs
      ((Scope.mk []).nameAll (xs.map wish))) : m.IsLegal := by
  obtain ⟨a, -, n, hn, rfl⟩ := exists_of_mem_zipWith hm
  apply isLegal_property
  rw [hf]
  apply isIdentifier_of_mem_nameAll _ hn
  intro base hbase
  obtain ⟨b, -, rfl⟩ := List.mem_map.1 hbase
  exact hwish b

theorem isIdentifier_storageName (owner : String) (st : Storage) :
    IsIdentifier (storageName owner st) := by
  unfold storageName
  split
  · exact isIdentifier_camel _
  · exact isIdentifier_camel _

theorem isIdentifier_constants (x : Subject) : ∀ p ∈ x.unit.constants, IsIdentifier p.name := by
  have hall : ∀ n ∈ ["NAMESPACE", "PATH", "PREFIX", "NAMESPACES"], IsIdentifier n := by decide
  exact fun p hp => hall _ (name_of_mem_constants x p hp)

theorem Subject.isIdentifier_rootName (x : Subject) (taken : List String) :
    IsIdentifier (x.rootName taken) := by
  have hwish : IsIdentifier x.wish := by
    cases x with
    | member ns family => cases family <;> exact isIdentifier_pascal _
    | shared f => exact isIdentifier_pascal _
  exact isIdentifier_claim hwish (isIdentifier_append hwish x.isPlain_suffix)

namespace Contents

variable {u : Contents} {name package comment : String}

theorem resourceName_legal {n : String} (h : n ∈ u.resourceNames (name :: reservedNames)) :
    IsIdentifier n ∧ n ∉ keywords := by
  refine ⟨?_, not_keyword_of_startsHigh (resourceName_high h).1⟩
  have hbases : ∀ n ∈ ["Scoreboards", "Storages"], IsIdentifier n := by decide
  apply isIdentifier_of_mem_nameAll _ h
  intro base hbase
  obtain ⟨o, ho, rfl⟩ := List.mem_map.1 hbase
  exact hbases _ (name_of_mem_resourceObjects ho)

theorem isLegal_of_mem_objects (hconstants : ∀ p ∈ u.constants, IsIdentifier p.name) {o : Node}
    (ho : o ∈ (u.source reservedNames name package comment).objects) : ∀ m ∈ o.2, m.IsLegal := by
  have hpath : IsIdentifier "PATH" := by decide
  refine IsKept.forall_mem ?_ ho
  constructor
  case constants => exact fun p hp => isLegal_property (hconstants p hp)
  case resources =>
    intro r hr
    obtain ⟨hid, hword⟩ := resourceName_legal (mem_resources hr).1
    exact isLegal_object hid hword r.2
  case objectives =>
    exact fun m hm => isLegal_of_mem_shelf (fun _ _ => rfl) (fun _ => isIdentifier_camel _) hm
  case storages =>
    exact fun m hm => isLegal_of_mem_shelf (fun _ _ => rfl) (isIdentifier_storageName u.owner) hm
  case paths => exact fun _ _ _ => isLegal_property hpath
  case accessors => exact fun c _ hslot m hm => isLegal_of_mem_accessorsOf (isLegal_of_mem_slots hslot) hm
  case children =>
    intro scope ps segment n hslot members
    obtain ⟨hid, hword⟩ := isLegal_of_mem_slots hslot
    exact isLegal_object hid hword members

/-! ## Paths -/

theorem not_keyword_of_mem_address (hname : name ∉ keywords) {dir : List String}
    (hdir : Holds (u.components.map placed) dir) :
    ∀ n ∈ u.address reservedNames name dir, n ∉ keywords := by
  intro n hn
  rcases List.mem_cons.1 hn with rfl | hn
  · exact hname
  · exact (isLegal_of_mem_namesTo hdir hn).2

/-- The constants `PATH` in the object of a directory are among its first members. -/
theorem mem_firstAt_of_path {dir : List String} {p : Property}
    (hp : .property p ∈ u.membersAt reservedNames name dir) (he : p.name = "PATH") :
    .property p ∈ u.firstAt reservedNames name dir := by
  have hnamed : Decl.property p ∈ Decl.named (u.membersAt reservedNames name dir) "PATH" :=
    List.mem_filter.2 ⟨hp, decide_eq_true he⟩
  rw [named_path_membersAt_eq, (Decl.byRank_perm _).mem_iff] at hnamed
  exact List.mem_of_mem_filter hnamed

/-- Only a unit with components has directories, and it has a constant at the root. -/
def HasRootPath (u : Contents) : Prop :=
  (∀ p ∈ u.constants, p.name = "PATH" → p.value = literal "") ∧
    (u.components = [] ∨ "PATH" ∈ u.constants.map (·.name))

theorem path_mem_names (h : u.HasRootPath) {dir : List String} {segment : String}
    (hdir : Holds (u.components.map placed) (dir ++ [segment])) :
    "PATH" ∈ (u.membersAt reservedNames name dir).map Decl.name := by
  have hfirst : "PATH" ∈ (u.firstAt reservedNames name dir).map Decl.name := by
    rcases List.eq_nil_or_concat' dir with rfl | ⟨above, last, rfl⟩
    · have hconstants : "PATH" ∈ u.constants.map (·.name) := by
        apply h.2.resolve_left
        intro hnil
        obtain ⟨-, p, hp, -⟩ := hdir.resolve_left (by simp)
        rw [hnil] at hp
        exact absurd hp List.not_mem_nil
      show "PATH" ∈ (u.firstMembers reservedNames name).map Decl.name
      rw [names_firstMembers]
      exact List.mem_append_left _ hconstants
    · rw [firstAt_concat]
      exact List.mem_singleton_self _
  obtain ⟨m, hm, he⟩ := List.mem_map.1 hfirst
  exact List.mem_map.2 ⟨m, mem_layout.2 (Or.inl hm), he⟩

theorem spellsPaths (h : u.HasRootPath) (hname : name ∉ keywords) :
    (u.source reservedNames name package comment).SpellsPaths := by
  intro o ho p hp he
  rcases mem_objects_source.1 ho with ⟨dir, hdir, rfl⟩ | ⟨r, hr, rfl⟩
  · have hfirst := mem_firstAt_of_path hp he
    rcases List.eq_nil_or_concat' dir with rfl | ⟨above, segment, rfl⟩
    · left
      refine ⟨rfl, h.1 p ?_ he⟩
      rcases List.mem_append.1 hfirst with hmem | hmem
      · obtain ⟨q, hq, heq⟩ := List.mem_map.1 hmem
        rwa [← Decl.property.inj heq]
      · obtain ⟨r, -, heq⟩ := List.mem_map.1 hmem
        exact Decl.noConfusion heq
    · right
      have habove := holds_of_concat hdir
      obtain ⟨n, hn⟩ : ∃ n, u.address reservedNames name (above ++ [segment]) =
          u.address reservedNames name above ++ [n] := u.exists_address_concat above segment
      refine ⟨_, mem_objects_source.2 (Or.inl ⟨above, habove, rfl⟩), n, segment, hn,
        path_mem_names h hdir, ?_⟩
      rw [firstAt_concat, List.mem_singleton] at hfirst
      rw [Decl.property.inj hfirst, map_escaped_eq_self (not_keyword_of_mem_address hname habove)]
  · -- a shelf has no path
    exact absurd (List.mem_map.2 ⟨_, hp, he⟩) (isShelf_of_mem_resources hr).noPath

end Contents

theorem Subject.hasRootPath (x : Subject) : x.unit.HasRootPath := by
  cases x with
  | member ns family => exact ⟨by simp [unit, ofNamespace], Or.inr (by simp [unit, ofNamespace])⟩
  | shared f => exact ⟨by simp [unit, ofFamily], Or.inl rfl⟩

/-! ## Files -/

/-- Whatever names a pack has, those that its files declare are identifiers, written as such. -/
theorem names_declared_legally (d : Datapack) (s : Settings) :
    (∀ f ∈ files d s, f.source.DeclaresLegally) ∧
      ∀ text, IsIdentifier (packageSegment text) ∧ packageSegment text ∉ keywords := by
  refine ⟨fun f hf => ?_, fun text => ⟨isIdentifier_packageSegment text, packageSegment_not_keyword text⟩⟩
  obtain ⟨x, hx⟩ := exists_mem_units hf
  obtain ⟨taken, rfl⟩ := exists_rootName hx
  have hroot := not_keyword_of_startsHigh (x.startsHigh_rootName taken)
  show (x.source (x.rootName taken) (x.package s)).DeclaresLegally
  rw [x.source_eq]
  constructor
  case legal =>
    intro m hm
    rcases Source.mem_declarations.1 hm with rfl | ⟨o, ho, hm⟩
    · exact isLegal_object (x.isIdentifier_rootName taken) hroot _
    · exact Contents.isLegal_of_mem_objects (isIdentifier_constants x) ho m hm
  case written => exact fun m hm => Source.exists_line_of_declaration hm
  case paths => exact Contents.spellsPaths x.hasRootPath hroot

/-- Neither the namespace nor the directory has a letter, a parameter begins with a digit and one
has no character at all, and the script is called as a keyword is. -/
theorem names_of_a_pack_without_letters :
    let ns : Namespace :=
      ⟨"!", [.script ⟨"?", "Fun"⟩ (some ⟨"?/Fun", ["", "9"]⟩)], .empty, .empty⟩
    let s : Settings := .forPackage "generated"
    let f := fileOf s (.member ns none) "_0"
    f ∈ files ⟨[ns], []⟩ s ∧ f.source.DeclaresLegally ∧
      f.source.declarations.flatMap Decl.names = ["_0", "NAMESPACE", "PATH", "_02", "PATH", "fun",
        "fun", "_0", "_9", "fun", "arguments", "fun", "arguments", "path"] := by
  intro ns s f
  have hfile : f ∈ files ⟨[ns], []⟩ s := by
    rw [← files_units]
    exact List.mem_map_of_mem (f := Prod.snd) (mem_units_singleton (by decide))
  exact ⟨hfile, (names_declared_legally ⟨[ns], []⟩ s).1 f hfile, by decide +kernel⟩

end PackBindings.Bindings
