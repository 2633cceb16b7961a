import ListScript.Access.Read
import ListScript.Effect

/-!
# Writing by path

A write follows the path to the container of its last segment. Where it meets null or a scalar on the way it puts a new
container there: a list if the next segment is an index, a dictionary if it is a name. A list grows to hold an index
past its end. `Store.assign` gives the store afterwards and the error, if the write was refused.
-/

namespace ListScript

namespace Entries

/-- Sets the entry that a segment finds; if there is none, a new key with the text of the segment is added. -/
def setSegment (entries : Entries) (segment : Segment) (v : Value) : Entries :=
  match segment with
  | .name text => put (Value.immediateEq (.text text)) (.text text) v entries
  | .index n =>
    if (find? (Value.immediateEq (.int n)) entries).isSome then put (Value.immediateEq (.int n)) (.int n) v entries
    else put (Value.immediateEq (.text (integerText n))) (.text (integerText n)) v entries

end Entries

namespace Store

/-- The greatest number that counts elements. -/
def maxCount : Nat := 0x7fffffffffffffff

/-- The most elements that a list can be given memory for, at eight bytes each. -/
def maxLength : Nat := maxCount / 8

/-- A list with an element set, padded with null if it is too short. -/
def setElement (items : List Value) (n : Nat) (v : Value) : Except Raised (List Value) :=
  if n < items.length then .ok (items.set n v)
  else if maxCount < n + 1 - items.length then .error (.of .paddingTooLong)
  else if maxLength < n + 1 - items.length then .error (.of .noMemory)
  else .ok (items ++ List.replicate (n - items.length) .null ++ [v])

/-- Sets an item of a host object; no other object has items that can be set. -/
def writeItem (s : Store) (owner : Value) (n : Nat) (v : Value) : Except Raised Store :=
  match owner, s.cell? owner with
  | .ref r, some (.object (.box items) attrs) =>
    if n = 13 then .error (.of (.host .badValue "unlucky"))
    else if n = 14 then .error (.about owner (.indexRefused n "Box" "read-only item"))
    else .ok (s.set r (.object (.box (putItem items n)) attrs))
  | _, _ =>
    let type := s.typeName owner
    .error (.about owner (.indexRefused n type (Cause.noItemAssignment type).message))
where
  /-- The items with item `n` set. -/
  putItem (items : List (Int × Value)) (n : Int) : List (Int × Value) :=
    match items with
    | [] => [(n, v)]
    | (k, w) :: rest => if k == n then (k, v) :: rest else (k, w) :: putItem rest n

/-- Writes one segment below a container. -/
def writeField (s : Store) (owner : Value) (segment : Segment) (v : Value) : Except Raised Store :=
  if (s.scope? owner).isSome then s.bind owner (.text segment.keyText) v
  else
    match owner, s.cell? owner with
    | .ref r, some (.dict entries) => .ok (s.set r (.dict (Entries.setSegment entries segment v)))
    | .ref r, some (.list items flavor) =>
      match segment with
      | .name text => .error ⟨.nameOnList (Text.literal text), .segment segment, none⟩
      | .index n => (setElement items n v).map fun items => s.set r (.list items flavor)
    | _, _ =>
      if owner = .null || owner.isScalar then do
        let shown ← s.print owner
        .error (.about owner (.fieldOfScalar segment.keyLiteral shown))
      else
        match segment with
        | .index n => s.writeItem owner n v
        | .name text =>
          if isPrivate text then .error (.about owner (.privateAttribute (Text.literal text)))
          else s.setAttribute owner text v

/-- A new container for what lies below a segment. -/
def allocFor (s : Store) (segment : Segment) : Value × Store :=
  if segment.isIndex then s.allocList [] else s.allocDict []

/-- Writes a value below a container, making containers on the way. -/
def assignBelow (s : Store) (container : Value) (v : Value) : Segment → List Segment → Store × Option Raised
  | segment, [] =>
    match s.writeField container segment v with
    | .ok s => (s, none)
    | .error e => (s, some e)
  | segment, below :: rest =>
    match s.readField container segment with
    | .error e => (s, some e)
    | .ok (child, s) =>
      if child = .null || child.isScalar then
        let (fresh, s) := s.allocFor below
        match s.writeField container segment fresh with
        | .ok s => s.assignBelow fresh v below rest
        | .error e => (s, some e)
      else s.assignBelow child v below rest

/-- Writes a value at a path: the store afterwards, and the error if the write was refused. -/
def assign (s : Store) (p : Path) (v : Value) (ctx : Context) : Store × Option Raised :=
  let refuse (cause : String → Cause) : Store × Option Raised :=
    (s, some ⟨cause (Text.literal p.text), .path p, none⟩)
  if p.root = .lastValue then refuse .assignLastValue
  else
    match p.segments with
    | [] => refuse .assignContext
    | segment :: rest =>
      let container := ctx.rootValue p.root
      if container = .null then refuse .nullContext else s.assignBelow container v segment rest

end Store

/-! ## As effects -/

/-- The value at a path. -/
def readAt (path : Path) (ctx : Context) : Effect Value := Effect.askGrowing (·.read path ctx)

/-- Writes a value at a path and gives it back. -/
def writeAt (path : Path) (v : Value) (ctx : Context) : Effect Value := fun st =>
  match st.store.assign path v ctx with
  | (store, none) => .value v { st with store }
  | (store, some e) => .raised e { st with store }

end ListScript
