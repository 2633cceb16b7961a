import ListScript.Store.Basic

/-!
# Nesting

Values are compared, hashed and printed by going down into the values that objects are made of (`Cell.inner`). An object
that is met again on the way down is inside itself, so that the number of objects inside a value bounds the depth of
every descent that ends. `Store.inside` lists them; what else there is in the store does not matter.
-/

namespace ListScript

/-- The values that an object is made of when it is compared, hashed, printed or gone through. -/
def Cell.inner : Cell → List Value
  | .list items _ | .tuple items => items
  | .dict entries | .frozen entries => entries.parts
  | .raw payload => [payload]
  | .scope bindings parent => [bindings, parent]
  | .closure f _ => [f.params, f.body]
  | .context ctx _ => [ctx.this, ctx.scope, ctx.last]
  | .method self _ => [self]
  | .engine .. | .function .. | .object .. | .path _ | .nameSegment _ | .indexSegment _ => []

namespace Store

/-- Whether a reference leads to an object. -/
def has (s : Store) (r : Ref) : Bool := r.index < s.size

/-- The objects that an object is made of. -/
def innerRefs (s : Store) (r : Ref) : List Ref :=
  match s.get? r with
  | some c => (c.inner.filterMap Value.ref?).filter s.has
  | none => []

/-- Adds the references that are not there yet. -/
def addNew (seen more : List Ref) : List Ref :=
  more.foldl (fun seen r => if seen.contains r then seen else seen ++ [r]) seen

/-- Adds the objects that the given ones are made of, again and again until there are no more of them; `fuel` bounds how
often. -/
def spread (s : Store) : Nat → List Ref → List Ref
  | 0, seen => seen
  | fuel + 1, seen =>
    let more := addNew seen (seen.flatMap s.innerRefs)
    if more.length = seen.length then seen else s.spread fuel more

/-- The objects inside a value, the one that it refers to included. -/
def inside (s : Store) (v : Value) : List Ref := s.spread s.size (v.ref?.toList.filter s.has)

/-- How many objects there are inside a value. -/
def extent (s : Store) (v : Value) : Nat := (s.inside v).length

/-- How many entries an object has. -/
def entryCount (s : Store) (r : Ref) : Nat :=
  match s.get? r with
  | some (.dict entries) | some (.frozen entries) => entries.length
  | _ => 0

/-- How many entries the dictionaries inside a value have. -/
def entriesInside (s : Store) (v : Value) : Nat := (s.inside v).foldr (fun r n => s.entryCount r + n) 0

end Store

end ListScript
