/-
  PackBindings.Proofs.Bindings.NewNamespace — one more namespace, and all other files as before.

  Root objects get their names one after the other, and whoever comes later has to do with
  what is left. A namespace that comes in between therefore could move every name after it.
  It does not if nobody else wishes to be called as it is: a name that is given in a grown
  scope is what it was, as long as the new name is another one. Families do not change
  either where no other namespace has the same name before the first dot, since a namespace
  alone makes no family.

  Proved, for all namespaces and settings:
  - `Family.ofNamespaces_insert`: the families with one more namespace.
  - `rootNames_of_subset`: names of root objects where more names are given.
  - `files_insert`: the files with one more namespace, wherever it stands.
  - `files_of_new_namespace`: where namespaces are in order of name, the file of the new one
    stands where the namespace does, and has its name.

  A namespace that wishes for a name that is given does move others: where it stands before
  whoever had the name, that one gets another.
-/

import PackBindings.Proofs.Bindings.RootNames
import PackBindings.Proofs.Orders
import PackBindings.Proofs.Resources.Families

namespace PackBindings

/-! ## Families -/

namespace Family

/-- The families are told by what comes of each name. -/
theorem ofNamespaces_congr {xs ys : List Namespace} (h : ∀ name, ofName? xs name = ofName? ys name) :
    ofNamespaces xs = ofNamespaces ys := by
  have hsorted : ∀ zs : List Namespace, (familyNames zs).Pairwise (· ≤ ·) :=
    fun zs => pairwise_mergeSort_key (fun name => name) _
  have hnodup : ∀ zs : List Namespace, (familyNames zs).Nodup :=
    fun zs => ((List.mergeSort_perm _ _).nodup_iff).2 (nodup_eraseDups _)
  have hmem : ∀ (zs : List Namespace) (name : String),
      name ∈ (familyNames zs).filter (fun name => (ofName? zs name).isSome) ↔
        (ofName? zs name).isSome = true := by
    intro zs name
    rw [List.mem_filter]
    refine ⟨fun hname => hname.2, fun hname => ⟨?_, hname⟩⟩
    obtain ⟨f, hf⟩ := Option.isSome_iff_exists.1 hname
    exact mem_familyNames_of_ofName? hf
  have hsame : (familyNames xs).filter (fun name => (ofName? xs name).isSome) =
      (familyNames ys).filter (fun name => (ofName? ys name).isSome) := by
    refine List.Perm.eq_of_pairwise (fun a b _ _ hab hba => le_antisymm hab hba)
      ((hsorted xs).filter _) ((hsorted ys).filter _) ?_
    refine (List.perm_ext_iff_of_nodup ((hnodup xs).filter _) ((hnodup ys).filter _)).2 fun name => ?_
    rw [hmem, hmem, h]
  have hfound : ∀ zs : List Namespace, ofNamespaces zs =
      ((familyNames zs).filter fun name => (ofName? zs name).isSome).filterMap (ofName? zs) := by
    intro zs
    rw [ofNamespaces_eq, List.filterMap_filter]
    apply List.filterMap_congr
    intro name _
    cases ofName? zs name <;> rfl
  rw [hfound xs, hsame, hfound ys, funext h]

theorem ofName?_eq_none {namespaces : List Namespace} {name : String}
    (h : namespaces.countP (fun ns => ns.family? = some name) ≤ 1) : ofName? namespaces name = none := by
  unfold ofName?
  rw [if_neg]
  rw [membersOf, List.length_mergeSort, ← List.countP_eq_length_filter]
  omega

section

variable {before after : List Namespace} {n : Namespace}
  (halone : ∀ family, n.family? = some family → ∀ ns ∈ before ++ after, ns.family? ≠ some family)

include halone

theorem countP_family_eq_zero {name : String} (h : n.family? = some name) :
    (before ++ after).countP (fun ns => ns.family? = some name) = 0 := by
  rw [List.countP_eq_zero]
  intro ns hns
  simpa using halone name h ns hns

/-- Nobody else is of the family of the new namespace, and on its own it makes none. -/
theorem ofName?_insert (name : String) :
    ofName? (before ++ n :: after) name = ofName? (before ++ after) name := by
  by_cases h : n.family? = some name
  · have hnone := countP_family_eq_zero halone h
    have hone : (before ++ n :: after).countP (fun ns => ns.family? = some name) = 1 := by
      rw [List.countP_append] at hnone
      rw [List.countP_append, List.countP_cons, if_pos (decide_eq_true h)]
      omega
    rw [ofName?_eq_none (Nat.le_of_eq hone), ofName?_eq_none (by omega)]
  · have hmembers : membersOf name (before ++ n :: after) = membersOf name (before ++ after) := by
      rw [membersOf, List.filter_append, List.filter_cons_of_neg (by simpa using h),
        ← List.filter_append, membersOf]
    rw [ofName?, hmembers, ofName?]

theorem ofNamespaces_insert :
    ofNamespaces (before ++ n :: after) = ofNamespaces (before ++ after) :=
  ofNamespaces_congr (ofName?_insert halone)

theorem familyOf?_eq_none :
    (Datapack.ofNamespaces (before ++ after)).familyOf? n.name = none := by
  show (n.family?.bind fun family =>
    ((ofNamespaces (before ++ after)).find? (·.name = family)).filter (·.members.contains n.name)) = _
  cases h : n.family? with
  | none => rfl
  | some family =>
    have hnone := countP_family_eq_zero halone h
    rw [Option.bind_some, find_ofNamespaces, ofName?_eq_none (by omega)]
    rfl

end

end Family

end PackBindings

namespace PackBindings.Bindings

open PackBindings.Kotlin

/-! ## Subjects -/

/-- What the file of a namespace is about. -/
def subjectOf (d : Datapack) (ns : Namespace) : Subject := .member ns (d.familyOf? ns.name)

theorem subjects_insert {before after : List Namespace} {n : Namespace}
    (halone : ∀ family, n.family? = some family → ∀ ns ∈ before ++ after, ns.family? ≠ some family) :
    let d := Datapack.ofNamespaces (before ++ after)
    subjects d = before.map (subjectOf d) ++ (after.map (subjectOf d) ++ d.families.map .shared) ∧
      subjects (.ofNamespaces (before ++ n :: after)) = before.map (subjectOf d) ++
        .member n none :: (after.map (subjectOf d) ++ d.families.map .shared) := by
  intro d
  have hfamilies : (Datapack.ofNamespaces (before ++ n :: after)).families = d.families :=
    Family.ofNamespaces_insert halone
  have hsubject : subjectOf (.ofNamespaces (before ++ n :: after)) = subjectOf d := by
    funext ns
    unfold subjectOf Datapack.familyOf?
    rw [hfamilies]
  have hnew : subjectOf d n = .member n none := by
    unfold subjectOf
    rw [Family.familyOf?_eq_none halone]
  have hlist : ∀ e : Datapack, subjects e = e.namespaces.map (subjectOf e) ++ e.families.map .shared :=
    fun _ => rfl
  constructor
  · rw [hlist, ← List.append_assoc, ← List.map_append]
    rfl
  · rw [hlist, hfamilies, hsubject]
    show (before ++ n :: after).map (subjectOf d) ++ _ = _
    rw [List.map_append, List.map_cons, hnew, List.append_assoc, List.cons_append]

/-! ## Names of root objects -/

section

variable {s : Settings}

/-- A name stays the same where more names are given, as long as it is none of them. -/
theorem Subject.rootName_of_subset {x : Subject} {taken more : List String} (hsub : taken ⊆ more)
    (hfree : x.rootName taken ∉ more) : x.rootName more = x.rootName taken := by
  apply Scope.claim_of_subset
  · exact List.append_subset.2 ⟨List.subset_append_of_subset_left _ hsub, List.subset_append_right _ _⟩
  · rw [List.mem_append, not_or]
    exact ⟨hfree, (x.rootName_not_mem taken).2⟩

theorem givenIn_subset {given more : List (String × String)} (h : given ⊆ more) (package : String) :
    givenIn given package ⊆ givenIn more package :=
  fun _ hname => mem_givenIn.2 (h (mem_givenIn.1 hname))

theorem rootsOf_cons_eq (given : List (String × String)) (x : Subject) (xs : List Subject) :
    rootsOf s given (x :: xs) = (x.package s, x.rootName (givenIn given (x.package s))) ::
      rootsOf s ((x.package s, x.rootName (givenIn given (x.package s))) :: given) xs := rfl

theorem rootNames_of_subset {xs : List Subject} {given more : List (String × String)}
    (hsub : given ⊆ more) (hfree : ∀ root ∈ rootsOf s given xs, root ∉ more) :
    rootNames s more xs = rootNames s given xs := by
  induction xs generalizing given more with
  | nil => rfl
  | cons x xs ih =>
    rw [rootsOf_cons_eq, List.forall_mem_cons] at hfree
    have hname : x.rootName (givenIn more (x.package s)) = x.rootName (givenIn given (x.package s)) := by
      apply Subject.rootName_of_subset (givenIn_subset hsub _)
      exact fun hmem => hfree.1 (mem_givenIn.1 hmem)
    rw [rootNames_cons, rootNames_cons, hname, ih (List.cons_subset_cons _ hsub)]
    -- a name that is given later on is not the one that has just been given
    intro root hroot hmem
    rcases List.mem_cons.1 hmem with rfl | hmem
    · exact not_mem_of_mem_rootsOf s hroot List.mem_cons_self
    · exact hfree.2 root hroot hmem

theorem rootNames_append (given : List (String × String)) (xs ys : List Subject) :
    rootNames s given (xs ++ ys) =
      rootNames s given xs ++ rootNames s ((rootsOf s given xs).reverse ++ given) ys := by
  induction xs generalizing given with
  | nil => rfl
  | cons x xs ih =>
    rw [List.cons_append, rootNames_cons, rootNames_cons, ih, rootsOf_cons_eq, List.reverse_cons,
      List.append_assoc, List.cons_append, List.cons_append, List.nil_append]

theorem rootsOf_append (given : List (String × String)) (xs ys : List Subject) :
    rootsOf s given (xs ++ ys) =
      rootsOf s given xs ++ rootsOf s ((rootsOf s given xs).reverse ++ given) ys := by
  unfold rootsOf
  rw [rootNames_append, List.zip_append (length_rootNames s given xs).symm, List.map_append]
  rfl

/-- With one more file in between, all others have the names that they have without it, if it wishes
for none of these. -/
theorem rootNames_insert {xs ys : List Subject} {x : Subject} (hreserved : x.wish ∉ reservedNames)
    (hfree : (x.package s, x.wish) ∉ rootsOf s [] (xs ++ ys)) :
    ∃ before after, rootNames s [] (xs ++ ys) = before ++ after ∧ before.length = xs.length ∧
      rootNames s [] (xs ++ x :: ys) = before ++ x.wish :: after := by
  rw [rootsOf_append, List.append_nil, List.mem_append, not_or] at hfree
  refine ⟨rootNames s [] xs, rootNames s (rootsOf s [] xs).reverse ys, ?_, length_rootNames s [] xs, ?_⟩
  · rw [rootNames_append, List.append_nil]
  · have hname : x.rootName (givenIn (rootsOf s [] xs).reverse (x.package s)) = x.wish := by
      apply Scope.claim_of_not_mem
      rw [List.mem_append, not_or, mem_givenIn, List.mem_reverse]
      exact ⟨hfree.1, hreserved⟩
    rw [rootNames_append, List.append_nil, rootNames_cons, hname,
      rootNames_of_subset (List.subset_cons_self _ _)]
    intro root hroot hmem
    rcases List.mem_cons.1 hmem with rfl | hmem
    · exact hfree.2 hroot
    · exact not_mem_of_mem_rootsOf s hroot hmem

end

/-! ## Files -/

theorem files_eq (d : Datapack) (s : Settings) :
    files d s = List.zipWith (fileOf s) (subjects d) (rootNames s [] (subjects d)) := rfl

theorem files_insert {before after : List Namespace} {n : Namespace} {s : Settings}
    (halone : ∀ family, n.family? = some family → ∀ ns ∈ before ++ after, ns.family? ≠ some family)
    (hreserved : pascal n.name ∉ reservedNames)
    (hfree : ∀ f ∈ files (.ofNamespaces (before ++ after)) s,
      f.source.package = s.package → f.source.name ≠ pascal n.name) :
    ∃ fs gs, files (.ofNamespaces (before ++ after)) s = fs ++ gs ∧ fs.length = before.length ∧
      files (.ofNamespaces (before ++ n :: after)) s =
        fs ++ fileOf s (.member n none) (pascal n.name) :: gs := by
  obtain ⟨hold, hnew⟩ := subjects_insert halone
  have hroot : (s.package, pascal n.name) ∉ rootsOf s [] (subjects (.ofNamespaces (before ++ after))) := by
    rw [← roots_files, List.mem_map]
    rintro ⟨f, hf, he⟩
    obtain ⟨hpackage, hname⟩ := Prod.mk.inj he
    exact hfree f hf hpackage hname
  rw [hold] at hroot
  obtain ⟨ms, ns, hnames, hlen, hmore⟩ := rootNames_insert (x := .member n none) hreserved hroot
  rw [List.length_map] at hlen
  rw [files_eq, files_eq, hold, hnew, hnames, hmore, List.zipWith_append (by simp [hlen]),
    List.zipWith_append (by simp [hlen]), List.zipWith_cons_cons]
  exact ⟨_, _, rfl, by simp [hlen], rfl⟩

end PackBindings.Bindings

namespace PackBindings

/-! ## In order of name -/

namespace Namespace

/-- How many of the namespaces stand before another one, in order of name. -/
def position (n : Namespace) (namespaces : List Namespace) : Nat :=
  (namespaces.takeWhile (·.name < n.name)).length

def inserted (n : Namespace) (namespaces : List Namespace) : List Namespace :=
  namespaces.insertIdx (n.position namespaces) n

variable {n : Namespace} {namespaces : List Namespace}

theorem inserted_eq : n.inserted namespaces =
    namespaces.takeWhile (·.name < n.name) ++ n :: namespaces.dropWhile (·.name < n.name) := by
  have hinsert := insertIdx_append (namespaces.takeWhile (·.name < n.name))
    (namespaces.dropWhile (·.name < n.name)) n
  rwa [List.takeWhile_append_dropWhile] at hinsert

theorem lt_of_mem_dropWhile (hsorted : namespaces.Pairwise fun a b => a.name < b.name)
    (hnew : n.name ∉ namespaces.map (·.name)) :
    ∀ ns ∈ namespaces.dropWhile (·.name < n.name), n.name < ns.name := by
  induction namespaces with
  | nil => exact fun _ hns => absurd hns List.not_mem_nil
  | cons first rest ih =>
    obtain ⟨hfirst, hrest⟩ := List.pairwise_cons.1 hsorted
    rw [List.map_cons, List.mem_cons, not_or] at hnew
    rw [List.dropWhile_cons]
    split
    · exact ih hrest hnew.2
    · rename_i hlt
      have hself : n.name < first.name := lt_of_le_of_ne (not_lt.1 (by simpa using hlt)) hnew.1
      intro ns hns
      rcases List.mem_cons.1 hns with rfl | hns
      · exact hself
      · exact hself.trans (hfirst ns hns)

/-- Namespaces in order of name stay so. -/
theorem pairwise_inserted (hsorted : namespaces.Pairwise fun a b => a.name < b.name)
    (hnew : n.name ∉ namespaces.map (·.name)) :
    (n.inserted namespaces).Pairwise fun a b => a.name < b.name := by
  have hlater := lt_of_mem_dropWhile hsorted hnew
  have hearlier : ∀ ns ∈ namespaces.takeWhile (·.name < n.name), ns.name < n.name :=
    fun ns hns => of_decide_eq_true (List.all_eq_true.1 List.all_takeWhile ns hns)
  rw [inserted_eq, List.pairwise_append, List.pairwise_cons]
  refine ⟨hsorted.sublist (List.takeWhile_sublist _),
    ⟨hlater, hsorted.sublist (List.dropWhile_sublist _)⟩, ?_⟩
  intro a ha b hb
  rcases List.mem_cons.1 hb with rfl | hb
  · exact hearlier a ha
  · exact (hearlier a ha).trans (hlater b hb)

end Namespace

namespace Bindings

open PackBindings.Kotlin

/-- A namespace that has nothing to do with those that are there gets a file where it stands among
them, called as it wishes, and all other files stay as they are. -/
theorem files_of_new_namespace {namespaces : List Namespace} {n : Namespace} {s : Settings}
    (hsorted : namespaces.Pairwise fun a b => a.name < b.name)
    (hnew : n.name ∉ namespaces.map (·.name))
    (halone : ∀ family, n.family? = some family → ∀ ns ∈ namespaces, ns.family? ≠ some family)
    (hreserved : pascal n.name ∉ reservedNames)
    (hfree : ∀ f ∈ files (.ofNamespaces namespaces) s,
      f.source.package = s.package → f.source.name ≠ pascal n.name) :
    (n.inserted namespaces).Pairwise (fun a b => a.name < b.name) ∧
      ∃ f : SourceFile, files (.ofNamespaces (n.inserted namespaces)) s =
          (files (.ofNamespaces namespaces) s).insertIdx (n.position namespaces) f ∧
        f = fileOf s (.member n none) (pascal n.name) ∧ f.source.name = pascal n.name ∧
        f.source.package = s.package := by
  refine ⟨Namespace.pairwise_inserted hsorted hnew, _, ?_, rfl, rfl, rfl⟩
  have hsplit := List.takeWhile_append_dropWhile (p := fun ns : Namespace => decide (ns.name < n.name))
    (l := namespaces)
  rw [← hsplit] at halone hfree
  obtain ⟨fs, gs, hold, hlen, hmore⟩ := files_insert halone hreserved hfree
  rw [hsplit] at hold
  rw [Namespace.inserted_eq, hmore, hold, Namespace.position, ← hlen, insertIdx_append]

/-- Two namespaces that wish for one name: the first to come gets it. -/
example :
    let s : Settings := .forPackage "generated"
    let old : Subject := .member ⟨"foo_bar", [], .empty, .empty⟩ none
    let new : Subject := .member ⟨"foo-bar", [], .empty, .empty⟩ none
    rootNames s [] [old] = ["FooBar"] ∧ rootNames s [] [new, old] = ["FooBar", "FooBarNamespace"] := by
  decide +kernel

/-- Another namespace between the two of a family and one on its own. -/
theorem files_beside_a_new_namespace :
    let namespaces : List Namespace := [⟨"bs.a", [], .empty, .empty⟩, ⟨"bs.b", [], .empty, .empty⟩,
      ⟨"solo", [.script ⟨"", "tick"⟩ none], .empty, .empty⟩]
    let n : Namespace := ⟨"more.things", [.script ⟨"", "load"⟩ none], .empty, .empty⟩
    let s : Settings := .forPackage "generated"
    (n.inserted namespaces).map (·.name) = ["bs.a", "bs.b", "more.things", "solo"] ∧
      ∃ f : SourceFile, files (.ofNamespaces (n.inserted namespaces)) s =
        (files (.ofNamespaces namespaces) s).insertIdx 2 f ∧ f.source.name = "MoreThings" := by
  intro namespaces n s
  have hposition : n.position namespaces = 2 := by decide +kernel
  have hname : pascal n.name = "MoreThings" := by decide +kernel
  have hmembers : Family.membersOf "bs" namespaces = namespaces.take 2 := by
    unfold Family.membersOf
    exact List.mergeSort_of_pairwise (by decide +kernel)
  have hfamilies : Family.ofNamespaces namespaces = [⟨"bs", ["bs.a", "bs.b"], .empty, .empty⟩] := by
    have hnames : Family.familyNames namespaces = ["bs"] := by decide +kernel
    have hshared : Family.ofName? namespaces "bs" = some ⟨"bs", ["bs.a", "bs.b"], .empty, .empty⟩ := by
      unfold Family.ofName?
      rw [hmembers]
      rfl
    rw [Family.ofNamespaces_eq, hnames, List.filterMap_cons_some hshared, List.filterMap_nil]
  have hroots : (files (.ofNamespaces namespaces) s).map (·.source.name) = ["A", "B", "Solo", "Bs"] := by
    rw [Datapack.ofNamespaces, hfamilies]
    decide +kernel
  have hfree : ∀ g ∈ files (.ofNamespaces namespaces) s,
      g.source.package = s.package → g.source.name ≠ pascal n.name := by
    intro g hg _ he
    have hmem : g.source.name ∈ ["A", "B", "Solo", "Bs"] := hroots ▸ List.mem_map_of_mem hg
    rw [he, hname] at hmem
    exact absurd hmem (by decide)
  have hsorted : namespaces.Pairwise fun a b => a.name < b.name := by decide +kernel
  have hnew : n.name ∉ namespaces.map (·.name) := by decide +kernel
  have halone : ∀ family, n.family? = some family → ∀ ns ∈ namespaces, ns.family? ≠ some family := by
    decide +kernel
  have hreserved : pascal n.name ∉ reservedNames := by decide +kernel
  obtain ⟨-, f, hfiles, -, hf, -⟩ := files_of_new_namespace hsorted hnew halone hreserved hfree
  rw [hposition] at hfiles
  exact ⟨by decide +kernel, f, hfiles, hf.trans hname⟩

end Bindings

end PackBindings
