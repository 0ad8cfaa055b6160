/-
  PackBindings.Text.Pattern — patterns, and how a text is searched for one.

  The beginning of a text may match a pattern in several ways, and these come in an order
  (`ways`): those of a first alternative before those of the second, a longer run before a
  shorter one, and in a sequence what the first part likes better comes first. The first
  way is the one that counts, so a part is only then less than it could be when the parts
  after it find nothing otherwise.

  A search goes through a text from left to right. It takes the first place that matches,
  and goes on behind what was taken there (`found`). The patterns searched for here take at
  least one character.
-/

import PackBindings.Text.Word

namespace PackBindings.Text

inductive Pattern where
  | nothing
  /-- The beginning of the text, or the place after a line feed. -/
  | lineStart
  /-- A word character stands on one side and none on the other. -/
  | wordEdge
  | one (kind : Char → Bool)
  /-- One character of a kind or several. -/
  | run (kind : Char → Bool)
  | seq (first second : Pattern)
  | either (first second : Pattern)
  /-- What the part takes is kept under a number. -/
  | group (number : Nat) (part : Pattern)

/-- What is taken of a text, and what the groups take of it. -/
structure Way where
  taken : List Char
  groups : List (Nat × List Char)
  deriving DecidableEq, Repr

namespace Way

def follow (w v : Way) : Way := ⟨w.taken ++ v.taken, w.groups ++ v.groups⟩

def group? (w : Way) (number : Nat) : Option (List Char) := w.groups.lookup number

end Way

/-- The beginnings of a text that are made of one kind of characters, the longest first. -/
def runs (kind : Char → Bool) : List Char → List (List Char)
  | [] => []
  | c :: cs => if kind c then (runs kind cs).map (c :: ·) ++ [[c]] else []

def startsLine (before : Option Char) : Bool := before == none || before == some '\n'

namespace Pattern

def literal : List Char → Pattern
  | [] => .nothing
  | c :: cs => .seq (.one (· == c)) (literal cs)

/-- A part, or nothing if there is no other way. -/
def optional (p : Pattern) : Pattern := .either p .nothing

/-- The ways in which a text begins with the pattern. `before`: the character that stands before
the text. -/
def ways : Pattern → Option Char → List Char → List Way
  | .nothing, _, _ => [⟨[], []⟩]
  | .lineStart, before, _ => if startsLine before then [⟨[], []⟩] else []
  | .wordEdge, before, cs => if before.any isWord != cs.head?.any isWord then [⟨[], []⟩] else []
  | .one kind, _, cs => (cs.head?.filter kind).toList.map fun c => ⟨[c], []⟩
  | .run kind, _, cs => (runs kind cs).map fun taken => ⟨taken, []⟩
  | .seq p q, before, cs =>
    (ways p before cs).flatMap fun w =>
      (ways q (w.taken.getLast?.or before) (cs.drop w.taken.length)).map w.follow
  | .either p q, before, cs => ways p before cs ++ ways q before cs
  | .group number p, before, cs =>
    (ways p before cs).map fun w => ⟨w.taken, (number, w.taken) :: w.groups⟩

/-- The way that counts. -/
def first? (p : Pattern) (before : Option Char) (cs : List Char) : Option Way :=
  (p.ways before cs).head?

/-- What a search finds, after `skip` characters that are taken already. -/
def foundFrom (p : Pattern) (before : Option Char) (skip : Nat) : List Char → List Way
  | [] => []
  | c :: cs =>
    match skip with
    | n + 1 => foundFrom p (some c) n cs
    | 0 =>
      match p.first? before (c :: cs) with
      | some w => w :: foundFrom p (some c) (w.taken.length - 1) cs
      | none => foundFrom p (some c) 0 cs

def found (p : Pattern) (text : List Char) : List Way := p.foundFrom none 0 text

end Pattern

/-- Of the ways to take a run and something after it, a longer run is taken even where a shorter one
would leave more for what follows. -/
example : ((Pattern.seq (.run (· == 'a')) (.optional (.literal ['a', 'b']))).first? none
    ['a', 'a', 'b']).map (·.taken) = some ['a', 'a'] := by
  decide

end PackBindings.Text
