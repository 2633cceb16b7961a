import ListScript.Access.Attribute
import ListScript.Store.Print

/-!
# Reading by path

A path is followed from its root one segment at a time. What a segment finds depends on the container: the binding of a
scope, the entry of a dictionary (an index also finds the key with its decimal form), the element of a list, tuple,
text or bytes, an item or attribute of any other value. A miss is null, and nothing is found below null. Attributes
whose name starts with an underscore are never found.
-/

namespace ListScript

/-- The text of a segment as a key. -/
def Segment.keyText : Segment → String
  | name text => text
  | index n => integerText n

/-- A segment's key as messages quote it. -/
def Segment.keyLiteral : Segment → String
  | name text => Text.literal text
  | index n => integerText n

/-- The object that a root selects in a context. -/
def Context.rootValue (ctx : Context) : Root → Value
  | .this => ctx.this
  | .lastValue => ctx.last
  | .scope => ctx.scope

/-- Whether a name is hidden from scripts. -/
def isPrivate (name : String) : Bool := name.toList.head? == some '_'

namespace Entries

/-- The entry that a segment finds: by its key, or by the decimal form of an index. -/
def atSegment (entries : Entries) : Segment → Option Value
  | .name text => find? (Value.immediateEq (.text text)) entries
  | .index n =>
    match find? (Value.immediateEq (.int n)) entries with
    | some v => some v
    | none => find? (Value.immediateEq (.text (integerText n))) entries

end Entries

namespace Store

/-- The path that a value spells. -/
def pathOf (s : Store) (v : Value) : Except Raised Path := do
  s.checkHashable v
  let text := v.text?.getD ""
  match Path.parse text with
  | .ok p => return p
  | .error fault =>
    let cause := Cause.path (← s.inspect v) fault
    .error (if cause.kind.isScript then .about v cause else .of cause)

/-- The element or item of a value at a position. -/
def readItem (s : Store) (container : Value) (n : Nat) : Except Raised Value :=
  match container with
  | .str t _ => .ok (((t.toList[n]?).map fun c => .text (String.singleton c)).getD .null)
  | .bytes bs => .ok (((bs[n]?).map fun b => .int b.toNat).getD .null)
  | _ =>
    match s.cell? container with
    | some (.list items _) | some (.tuple items) => .ok ((items[n]?).getD .null)
    | some (.object (.box items) _) =>
      if n = 13 then .error (.of (.host .badValue "unlucky")) else .ok ((items.lookup (n : Int)).getD .null)
    | _ => .ok .null

/-- Reads one segment below a container. -/
def readField (s : Store) (container : Value) (segment : Segment) : Except Raised (Value × Store) :=
  if (s.scope? container).isSome then do
    let found ← s.lookup? container (.text segment.keyText)
    return (found.getD .null, s)
  else
    match s.mapping? container with
    | some entries => .ok ((Entries.atSegment entries segment).getD .null, s)
    | none =>
      match segment with
      | .index n => (s.readItem container n).map (·, s)
      | .name text =>
        if isPrivate text then .ok (.null, s)
        else do
          match ← s.attribute? container text with
          | some reading => return s.materialize container reading
          | none => return (.null, s)

/-- Follows segments below a value. -/
def readBelow (s : Store) (v : Value) : List Segment → Except Raised (Value × Store)
  | [] => .ok (v, s)
  | segment :: rest =>
    if v = .null then .ok (.null, s)
    else do
      let (w, s) ← s.readField v segment
      s.readBelow w rest

/-- The value at a path. -/
def read (s : Store) (p : Path) (ctx : Context) : Except Raised (Value × Store) :=
  s.readBelow (ctx.rootValue p.root) p.segments

end Store

end ListScript
