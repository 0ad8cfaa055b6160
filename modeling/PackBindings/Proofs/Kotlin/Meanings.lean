/-
  PackBindings.Proofs.Kotlin.Meanings — what a reference means in a source with imports.

  An import is a dotted path, and what stands after its last dot is the name that it lends to
  the class (`ClassName.ofPath`). A reference with dots is a class in full. One without dots
  means the import of that name, and no class where there is none: it is a name of the
  language or of something around it.

  Proved, for every source:
  - `ofPath_qualified`: a class is read from its path if its name has no dots.
  - `meaning?_qualified` / `meaning?_name`: a class in full means itself, and a simple name
    means the import of that name where no two imports have one name.
  - `meaning?_eq_none`: a name that is not imported means no class.
-/

import PackBindings.Kotlin.ClassName
import PackBindings.Kotlin.Source
import PackBindings.Proofs.Lists

namespace PackBindings.Kotlin

/-- The class at a dotted path. -/
def ClassName.ofPath (path : String) : ClassName :=
  let parts := path.toList.splitOn '.'
  ⟨String.ofList (['.'].intercalate parts.dropLast), String.ofList (parts.getLastD [])⟩

theorem ClassName.ofPath_qualified {e : ClassName} (h : '.' ∉ e.name.toList) :
    ofPath e.qualified = e := by
  have hparts : e.qualified.toList.splitOn '.' = e.package.toList.splitOn '.' ++ [e.name.toList] := by
    have htext : e.qualified.toList = e.package.toList ++ '.' :: e.name.toList := by
      simp [qualified]
    rw [htext, List.splitOn_append_cons_self, List.splitOn_eq_singleton h]
  have hpackage : ['.'].intercalate (e.package.toList.splitOn '.') = e.package.toList :=
    List.intercalate_splitOn '.'
  rw [ofPath, hparts, List.dropLast_concat, hpackage]
  simp

theorem ClassName.dot_mem_qualified (e : ClassName) : '.' ∈ e.qualified.toList := by
  simp [qualified]

namespace Source

/-- The classes that a source imports. -/
def classes (s : Source) : List ClassName := s.imports.map .ofPath

/-- The class that a reference means, if it means one. -/
def meaning? (s : Source) (reference : String) : Option ClassName :=
  if '.' ∈ reference.toList then some (.ofPath reference)
  else s.classes.find? (·.name = reference)

variable {s : Source}

theorem meaning?_qualified {e : ClassName} (h : '.' ∉ e.name.toList) :
    s.meaning? e.qualified = some e := by
  rw [meaning?, if_pos e.dot_mem_qualified, ClassName.ofPath_qualified h]

theorem meaning?_name (hnd : (s.classes.map (·.name)).Nodup) {e : ClassName} (he : e ∈ s.classes)
    (h : '.' ∉ e.name.toList) : s.meaning? e.name = some e := by
  rw [meaning?, if_neg h]
  cases hfound : s.classes.find? (·.name = e.name) with
  | none => exact absurd (decide_eq_true rfl) (List.find?_eq_none.1 hfound e he)
  | some y =>
    have hname : y.name = e.name := by simpa using List.find?_some hfound
    rw [List.inj_on_of_nodup_map hnd (List.mem_of_find?_eq_some hfound) he hname]

theorem meaning?_eq_none {r : String} (hdot : '.' ∉ r.toList) (h : r ∉ s.classes.map (·.name)) :
    s.meaning? r = none := by
  rw [meaning?, if_neg hdot, List.find?_eq_none]
  intro y hy hname
  exact h (List.mem_map.2 ⟨y, hy, of_decide_eq_true hname⟩)

end Source

end PackBindings.Kotlin
