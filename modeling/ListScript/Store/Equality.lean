import ListScript.Store.Types

/-!
# Equality of values

`Store.equal` compares by content: numbers across their types, lists, tuples and dictionaries element by element (the
order of keys does not matter), literal data by its payload, script functions by parameters and body. Host objects,
host functions and scopes are equal only to themselves. Inside a container, and as a key, an object also counts as
equal to itself when comparison by content would say otherwise (`Store.alike`).
-/

namespace ListScript.Store

/-- Comparison of two lists of values element by element. -/
def equalLists (eq : Value → Value → Bool) : List Value → List Value → Bool
  | [], [] => true
  | a :: as, b :: bs => eq a b && equalLists eq as bs
  | _, _ => false

/-- Comparison of two dictionaries: as many keys, and each key of the first has an equal value in the second. -/
def equalEntries (eq : Value → Value → Bool) (xs ys : Entries) : Bool :=
  xs.length == ys.length && xs.all fun (k, v) =>
    match Entries.find? (eq k) ys with
    | some w => eq v w
    | none => false

/-- Comparison of two objects, given a comparison for the values in them. -/
def equalCells (eq inside : Value → Value → Bool) (a b : Cell) : Bool :=
  match a, b with
  | .list xs _, .list ys _ => equalLists inside xs ys
  | .tuple xs, .tuple ys => equalLists inside xs ys
  | .dict xs, .dict ys | .dict xs, .frozen ys | .frozen xs, .dict ys | .frozen xs, .frozen ys =>
    equalEntries inside xs ys
  | .raw x, .raw y => eq x y
  | .closure f _, .closure g _ => eq f.params g.params && eq f.body g.body
  | .context c _, .context d _ => inside c.this d.this && inside c.scope d.scope && inside c.last d.last
  | .method x m, .method y n => x == y && m == n
  | .path p, .path q => p.sameTarget q
  | .nameSegment t, .nameSegment u => t == u
  | .indexSegment m, .indexSegment n => m == n
  | _, _ => false

/-- Comparison by content down to a nesting of `fuel`. -/
def equalWithin (s : Store) : Nat → Value → Value → Bool
  | 0, _, _ => false
  | fuel + 1, a, b =>
    match a, b with
    | .ref r, .ref r' =>
      match s.get? r, s.get? r' with
      | some c, some c' =>
        let eq := equalWithin s fuel
        equalCells eq (fun x y => x == y || eq x y) c c' || (r == r' && comparedByIdentity c)
      | _, _ => r == r'
    | _, _ => a.immediateEq b
where
  /-- Whether an object is equal to itself and to nothing else. -/
  comparedByIdentity : Cell → Bool
    | .scope .. | .engine .. | .function .. | .object .. => true
    | _ => false

/-- Comparison by content. -/
def equal (s : Store) (a b : Value) : Bool := s.equalWithin (s.extent a + s.extent b + 1) a b

/-- Whether two values count as one inside a container: they are the same object or equal by content. -/
def alike (s : Store) (a b : Value) : Bool := a == b || s.equal a b

/-- Whether two values count as one key of a dictionary: script functions do so only if they are the same object. -/
def sameKey (s : Store) (a b : Value) : Bool := a == b || (!s.isClosure a && s.equal a b)

end ListScript.Store
