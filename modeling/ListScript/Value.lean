import ListScript.Number.Double
import ListScript.Path.Basic

/-!
# Values

A value is either immediate (null, a boolean, a number, a text, bytes, a path root) or a reference to an object of the
store. Everything that can be changed, shared or part of a cycle is an object. Two values are the same object exactly
when they are equal as elements of `Value`.
-/

namespace ListScript

/-- The address of an object in a store. -/
structure Ref where
  index : Nat
  deriving DecidableEq

/-- Whether a text or a list is of the built-in type or of a subtype that the host derived from it. The two differ in
their type names only. -/
inductive Flavor where
  | plain
  | derived
  deriving DecidableEq

/-- What a script computes with. -/
inductive Value where
  | null
  | bool (b : Bool)
  | int (n : Int)
  | float (d : Double)
  | str (text : String) (flavor : Flavor)
  | bytes (content : List UInt8)
  | root (r : Root)
  | ref (r : Ref)
  deriving DecidableEq

namespace Value

/-- A text of the built-in type. -/
def text (s : String) : Value := str s .plain

/-- The content of a text. -/
def text? : Value → Option String
  | str s _ => some s
  | _ => none

/-- Whether a value is a text. -/
def isText (v : Value) : Bool := v.text?.isSome

/-- The object that a value refers to. -/
def ref? : Value → Option Ref
  | ref r => some r
  | _ => none

/-- Whether a value is replaced, and not descended into, when a write passes through it. -/
def isScalar : Value → Bool
  | bool _ | int _ | float _ | str _ _ | bytes _ => true
  | null | root _ | ref _ => false

/-- Equality of two immediate values: numbers compare by their value across their types, texts by their content. -/
def immediateEq : Value → Value → Bool
  | null, null => true
  | bool a, bool b => a == b
  | bool a, int n => a.toNat == n
  | int n, bool a => a.toNat == n
  | int m, int n => m == n
  | float d, bool a => d.eqInt a.toNat
  | bool a, float d => d.eqInt a.toNat
  | float d, int n => d.eqInt n
  | int n, float d => d.eqInt n
  | float d, float e => d.eq e
  | str s _, str t _ => s == t
  | bytes a, bytes b => a == b
  | root a, root b => a == b
  | _, _ => false

end Value

/-- Named values of an object, in the order in which they were first set. -/
abbrev Attributes := List (String × Value)

namespace Attributes

/-- Sets a named value: in its place if the name is there, else at the end. -/
def put (attrs : Attributes) (name : String) (v : Value) : Attributes :=
  match attrs with
  | [] => [(name, v)]
  | (n, w) :: rest => if n == name then (n, v) :: rest else (n, w) :: put rest name v

theorem lookup_put_self (attrs : Attributes) (name : String) (v : Value) :
    (attrs.put name v).lookup name = some v := by
  induction attrs with
  | nil => simp [put]
  | cons a rest ih =>
    obtain ⟨n, w⟩ := a
    by_cases h : n = name
    · simp [put, h]
    · have h' : (name == n) = false := by simpa using Ne.symm h
      simp [put, h, List.lookup_cons, h', ih]

end Attributes

/-- Keys and their values, in the order in which the keys were first set. -/
abbrev Entries := List (Value × Value)

namespace Entries

/-- The value of the first key that `hit` accepts. -/
def find? (hit : Value → Bool) (entries : Entries) : Option Value :=
  match entries with
  | [] => none
  | (k, v) :: rest => if hit k then some v else find? hit rest

/-- Sets the value of the first key that `hit` accepts; if there is none, `key` is added at the end. -/
def put (hit : Value → Bool) (key value : Value) (entries : Entries) : Entries :=
  match entries with
  | [] => [(key, value)]
  | (k, v) :: rest => if hit k then (k, value) :: rest else (k, v) :: put hit key value rest

/-- Drops the first key that `hit` accepts. -/
def drop (hit : Value → Bool) (entries : Entries) : Entries :=
  match entries with
  | [] => []
  | (k, v) :: rest => if hit k then rest else (k, v) :: drop hit rest

/-- The keys in order. -/
def keys (entries : Entries) : List Value := entries.map Prod.fst

/-- The keys and values in order. -/
def parts (entries : Entries) : List Value := entries.flatMap fun e => [e.1, e.2]

/-- What was put is found. -/
theorem find?_put {hit : Value → Bool} {key : Value} (value : Value) (h : hit key = true) (entries : Entries) :
    find? hit (put hit key value entries) = some value := by
  induction entries with
  | nil => simp [put, find?, h]
  | cons e rest ih =>
    obtain ⟨k, v⟩ := e
    by_cases hk : hit k = true
    · simp [put, find?, hk]
    · simp [put, find?, hk, ih]

/-- Putting keeps the keys that are there, in their order, and adds at most one at the end. -/
theorem keys_isPrefix_put (hit : Value → Bool) (key value : Value) (entries : Entries) :
    keys entries <+: keys (put hit key value entries) := by
  induction entries with
  | nil => exact List.nil_prefix
  | cons e rest ih =>
    obtain ⟨k, v⟩ := e
    by_cases hk : hit k = true
    · simp [put, keys, hk]
    · simpa [put, keys, hk] using ih

end Entries

/-- What the expressions of a script see: the context object, the variables and the last value. -/
structure Context where
  this : Value
  scope : Value
  last : Value
  deriving DecidableEq

end ListScript
