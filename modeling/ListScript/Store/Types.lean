import ListScript.Error
import ListScript.Store.Nesting

/-!
# Types and truth of values

The names of types as messages show them, which values count as true, which can be keys of a dictionary, and which have
a length.
-/

namespace ListScript

/-- The name of the type of an object. -/
def Cell.typeName : Cell → String
  | .list _ .plain => "list"
  | .list _ .derived => "ListSub"
  | .tuple _ => "tuple"
  | .dict _ => "dict"
  | .frozen _ => "mappingproxy"
  | .raw _ => "RawValue"
  | .scope .. => "Scope"
  | .closure .. => "ScriptFunction"
  | .context .. => "ExecutionContext"
  | .engine .. => "Evaluator"
  | .function .. => "function"
  | .object cls _ => cls.label
  | .method _ m => if m.isBuiltIn then "builtin_function_or_method" else "method"
  | .path _ => "Path"
  | .nameSegment _ => "Name"
  | .indexSegment _ => "Index"

namespace Store

/-- The name of the type of a value. -/
def typeName (s : Store) : Value → String
  | .null => "NoneType"
  | .bool _ => "bool"
  | .int _ => "int"
  | .float _ => "float"
  | .str _ .plain => "str"
  | .str _ .derived => "StrSub"
  | .bytes _ => "bytes"
  | .root _ => "_RootSelector"
  | .ref r => ((s.get? r).map Cell.typeName).getD "object"

/-- The module that a type other than the built-in ones is listed under. -/
def typeModule (s : Store) (v : Value) : String :=
  match v, s.cell? v with
  | .root _, _ => "jsonscript.jsonscript_datatypes."
  | _, some (.raw _) | _, some (.closure ..) | _, some (.scope ..) | _, some (.context ..) | _, some (.path _)
  | _, some (.nameSegment _) | _, some (.indexSegment _) => "jsonscript.jsonscript_datatypes."
  | _, some (.engine ..) => "jsonscript.jsonscript_interpreter."
  | _, some (.object ..) | _, some (.list _ .derived) => "__main__."
  | _, _ => ""

/-- The type of a value with its module, as the message about scope keys shows it. -/
def typeLabel (s : Store) (v : Value) : String :=
  "<class '" ++ s.typeModule v ++ s.typeName v ++ "'>"

/-- Whether a value counts as true: null, false, zeros and empty texts and containers do not. -/
def isTrue (s : Store) : Value → Bool
  | .null => false
  | .bool b => b
  | .int n => n != 0
  | .float d => !d.isZero
  | .str t _ => !t.isEmpty
  | .bytes bs => !bs.isEmpty
  | .root _ => true
  | .ref r =>
    match s.get? r with
    | some (.list items _) | some (.tuple items) => !items.isEmpty
    | some (.dict entries) | some (.frozen entries) => !entries.isEmpty
    | _ => true

/-- The type of the first part of a value that cannot be hashed; `fuel` bounds the nesting of tuples. -/
def unhashableIn (s : Store) : Nat → Value → Option String
  | 0, _ => none
  | fuel + 1, v =>
    match s.cell? v with
    | some (.tuple items) => items.findSome? (unhashableIn s fuel)
    | some (.list ..) | some (.dict _) | some (.frozen _) | some (.raw _) | some (.context ..) => some (s.typeName v)
    | _ => none

/-- The type of the first part of a value that cannot be hashed. -/
def unhashable? (s : Store) (v : Value) : Option String := s.unhashableIn (s.extent v + 1) v

/-- Refuses values that cannot be hashed. -/
def checkHashable (s : Store) (v : Value) : Except Raised Unit :=
  match s.unhashable? v with
  | some type => .error (.of (.unhashable type))
  | none => .ok ()

/-- The elements of a value that has a length: of a list or tuple, the keys of a dictionary, the characters of a text,
the numbers of bytes. -/
def elements? (s : Store) : Value → Option (List Value)
  | .str t _ => some (t.toList.map fun c => .text (String.singleton c))
  | .bytes bs => some (bs.map fun b => .int b.toNat)
  | .ref r =>
    match s.get? r with
    | some (.list items _) | some (.tuple items) => some items
    | some (.dict entries) | some (.frozen entries) => some (Entries.keys entries)
    | _ => none
  | _ => none

/-- The elements of a value, refusing what has no length. -/
def sizedElements (s : Store) (v : Value) : Except Raised (List Value) :=
  match s.elements? v with
  | some items => .ok items
  | none => .error (.of (.unsized (s.typeName v)))

end Store

end ListScript
