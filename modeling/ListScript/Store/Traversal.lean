import ListScript.Store.Scope

/-!
# Going through values

A value with a length is gone through element by element. A scope and a box are gone through by asking for the items 0,
1, 2 and so on; neither says that it has no more, so this always ends in the error for the first item that cannot be
had. A `Traversal` keeps what came before that error, since whoever goes through the value has made use of it by then.
-/

namespace ListScript

/-- The elements of a value in order, and the error that came after them if there was one. -/
structure Traversal where
  items : List Value
  fault : Option Raised

namespace Traversal

/-- The traversal that meets an error at once. -/
def failing (e : Raised) : Traversal := ⟨[], some e⟩

/-- The traversal with one more element in front. -/
def cons (v : Value) (t : Traversal) : Traversal := ⟨v :: t.items, t.fault⟩

/-- The elements, or the error. -/
def result (t : Traversal) : Except Raised (List Value) :=
  match t.fault with
  | none => .ok t.items
  | some e => .error e

end Traversal

namespace Store

/-- The items of a box from position `i` on; the item `left` positions further cannot be read. -/
def boxFrom (items : List (Int × Value)) : Nat → Nat → Traversal
  | 0, _ => .failing (.of (.host .badValue "unlucky"))
  | left + 1, i =>
    match items.lookup (i : Int) with
    | some v => (boxFrom items left (i + 1)).cons v
    | none => .failing (.of (.missingEntry (integerText i)))

/-- The values that a scope has for the numbers from `i` on; `fuel` bounds how many there are. -/
def scopeFrom (s : Store) (scope : Value) : Nat → Nat → Traversal
  | 0, i => .failing (.of (.missingBinding (integerText i)))
  | fuel + 1, i =>
    match s.lookup? scope (.int i) with
    | .ok (some v) => (scopeFrom s scope fuel (i + 1)).cons v
    | .ok none => .failing (.of (.missingBinding (integerText i)))
    | .error e => .failing e

/-- Goes through a value, if that can be done. -/
def traverse? (s : Store) (v : Value) : Option Traversal :=
  match s.elements? v with
  | some items => some ⟨items, none⟩
  | none =>
    match s.cell? v with
    | some (.scope ..) => some (s.scopeFrom v (s.entriesInside v + 1) 0)
    | some (.object (.box items) _) => some (boxFrom items 13 0)
    | _ => none

/-- Goes through a value, refusing what cannot be gone through. -/
def traverse (s : Store) (v : Value) : Except Raised Traversal :=
  match s.traverse? v with
  | some t => .ok t
  | none => .error (.of (.notIterable (s.typeName v)))

/-- The elements of a value. -/
def elements (s : Store) (v : Value) : Except Raised (List Value) := do
  let t ← s.traverse v
  t.result

/-! ## Dictionaries from sequences of pairs -/

/-- The entry that an element of a sequence of pairs stands for; `position` counts those before. -/
def entryOf (s : Store) (position : Nat) (v : Value) : Except Raised (Value × Value) :=
  match s.traverse? v with
  | none =>
    .error (.of (.host .badType s!"cannot convert dictionary update sequence element #{position} to a sequence"))
  | some t => do
    match ← t.result with
    | [k, w] => return (k, w)
    | other =>
      let length := other.length
      .error (.of (.host .badValue
        s!"dictionary update sequence element #{position} has length {length}; 2 is required"))

/-- The entries of a copy of a dictionary, of a scope's own bindings, or of the dictionary that a sequence of pairs
stands for. -/
def copiedEntries (s : Store) (v : Value) : Except Raised Entries :=
  let dictionary := ((s.scope? v).map Prod.fst).getD v
  match s.mapping? dictionary with
  | some entries => .ok entries
  | none => do
    let items ← s.elements v
    let pairs ← (items.zipIdx).mapM fun (item, i) => s.entryOf i item
    s.entriesOf [] pairs

end Store

end ListScript
