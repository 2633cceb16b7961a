/-!
# Paths

A path says where a value is found: the object it starts from and the segments below that object. A segment is a name
or an index. A path remembers the text it was read from; two paths lead to the same place when their roots and
segments agree, whatever their texts.
-/

namespace ListScript

/-- The object a path starts from. -/
inductive Root where
  /-- the context object -/
  | this
  /-- the value of the previous expression -/
  | lastValue
  /-- the variables in scope -/
  | scope
  deriving DecidableEq

/-- One step below an object. -/
inductive Segment where
  | name (text : String)
  | index (n : Nat)
  deriving DecidableEq

/-- A root, the segments below it and the text that names them. -/
structure Path where
  root : Root
  segments : List Segment
  text : String
  deriving DecidableEq

namespace Segment

/-- Whether a segment selects by position. -/
def isIndex : Segment → Bool
  | index _ => true
  | name _ => false

end Segment

namespace Path

/-- The path without its last segment; a bare variable and a bare root have none. -/
def parent (p : Path) : Option Path :=
  if p.segments.isEmpty || (p.root == .scope && p.segments.length == 1) then none
  else some { p with segments := p.segments.dropLast }

/-- Whether two paths lead to the same place. -/
def sameTarget (p q : Path) : Bool := p.root == q.root && p.segments == q.segments

/-- The parents of a path, from the nearest on; a path with `n` segments has at most `n`. -/
def ancestors (p : Path) : List Path := go p.segments.length p
where
  go : Nat → Path → List Path
    | 0, _ => []
    | n + 1, p =>
      match p.parent with
      | none => []
      | some q => q :: go n q

end Path

end ListScript
