/-
  PackBindings.Proofs.Pack.ListingOrder — source files do not depend on how things are listed.

  Everything that is listed in an order of its own is sorted by a key before its order can
  matter: component files by their locations, namespaces and families by their names,
  resources by their keys. Sets that keep one resource of each key would show which one
  came first only if two of one key could differ, and they never do where sets are built.

  Proved, for every order:
  - `filesIn_eq`: the source files of a datapack, in their order and with their contents.
  - `listing_order_is_irrelevant`: the datapack of a tree, its source files, and the
    families of namespaces in any order.
  - `toOption_readDatapack_of_perm`: trees with the same entries are read alike.
-/

import PackBindings.Proofs.Bindings.RootNames
import PackBindings.Proofs.Pack.Listings

namespace PackBindings.Bindings

/-- What a source file is made of, with its resources sorted as their sets list them. -/
def Subject.unitIn (o : Order) : Subject → Contents
  | .member ns family => { ofNamespace ns family with
      objectives := (ns.objectives.sortedIn o (.file ns.name)).filter (!sharesObjective family ·)
      storages := (ns.storages.sortedIn o (.file ns.name)).filter (!sharesStorage family ·) }
  | .shared f => { ofFamily f with
      objectives := f.objectives.sortedIn o (.file f.name)
      storages := f.storages.sortedIn o (.file f.name) }

def filesIn (o : Order) (d : Datapack) (s : Settings) : List SourceFile :=
  List.zipWith (fun x name => ⟨s.segmentsOf (x.package s),
      (x.unitIn o).source reservedNames name (x.package s) x.comment⟩)
    (subjects d) (rootNames s [] (subjects d))

theorem Subject.unitIn_eq (o : Order) (x : Subject) : x.unitIn o = x.unit := by
  cases x with
  | member ns family =>
    simp only [unitIn, Inventory.sortedIn_eq]
    rfl
  | shared f =>
    simp only [unitIn, Inventory.sortedIn_eq]
    rfl

theorem filesIn_eq (o : Order) (d : Datapack) (s : Settings) : filesIn o d s = files d s := by
  unfold filesIn files
  simp only [Subject.unitIn_eq, Subject.source_eq]

end PackBindings.Bindings

namespace PackBindings.Pack

open PackBindings.Files PackBindings.Bindings

/-- Everything comes the other way round. -/
def backwards : Order := ⟨fun _ xs => xs.reverse, fun _ xs => xs.reverse_perm⟩

/-- The entries of a tree may stand in any order. -/
theorem toOption_readDatapack_of_perm {root : Place} {t : Tree}
    (h : t.entries.Perm root.tree.entries) (hnames : root.tree.IsNamed) :
    (readDatapack (root.inTree t)).toOption = (readDatapack root).toOption := by
  have hnamed : t.IsNamed := fun e he => hnames e (h.mem_iff.1 he)
  rw [← toOption_readDatapackIn backwards root h hnames]
  exact (toOption_readDatapackIn backwards (root.inTree t) (List.Perm.refl _) hnamed).symm

/-- Whatever is listed in whichever order, a datapack is read or not, and is the same if it is; its
source files are the same, and so are the families of namespaces with names of their own. -/
theorem listing_order_is_irrelevant (o : Order) {root : Place} {t : Tree}
    (h : t.entries.Perm root.tree.entries) (hnames : root.tree.IsNamed) :
    (readDatapackIn o (root.inTree t)).toOption = (readDatapack root).toOption ∧
      (∀ d s, filesIn o d s = files d s) ∧
      ∀ namespaces others : List Namespace, others.Perm namespaces →
        (namespaces.map (·.name)).Nodup →
        Family.ofNamespacesIn o others = Family.ofNamespaces namespaces := by
  refine ⟨toOption_readDatapackIn o root h hnames, filesIn_eq o, ?_⟩
  intro namespaces others hperm hnd
  exact Family.ofNamespacesIn_eq o hperm hnd

theorem two_namespaces_listed_backwards :
    let root : Place := ⟨⟨[(["data"], .directory), (["data", "p"], .directory),
      (["data", "p", "function"], .directory),
      (["data", "p", "function", "tick.mcfunction"], .file .empty),
      (["data", "q"], .directory)], by decide, by decide⟩, [], "pack"⟩
    let a : Namespace := ⟨"f.a", [], .empty, .empty⟩
    let b : Namespace := ⟨"f.b", [], .empty, .empty⟩
    (root.tree.IsNamed ∧ backwards.list .namespaces (root.tree.directoriesIn ["data"]) = ["q", "p"]) ∧
      (readDatapackIn backwards (root.inTree root.tree)).toOption = (readDatapack root).toOption ∧
      Family.ofNamespacesIn backwards [b, a] = Family.ofNamespaces [a, b] := by
  intro root a b
  have hnames : root.tree.IsNamed := by
    unfold Tree.IsNamed IsSegment
    decide
  have hall := listing_order_is_irrelevant backwards (List.Perm.refl root.tree.entries) hnames
  exact ⟨⟨hnames, by decide⟩, hall.1, hall.2.2 [a, b] [b, a] (List.Perm.swap a b []) (by decide)⟩

end PackBindings.Pack
