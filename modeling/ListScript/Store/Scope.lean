import ListScript.Store.Dictionary

/-!
# Scopes

A scope has bindings of its own and may have a parent. A name is looked up in the scope's own bindings and then in
those of its parents, the nearest one first; a write always goes to the scope's own bindings. The bindings are a
dictionary that others may hold too, so a write to a scope over the host's variables is seen by the host.

A script can make any object the parent of a scope. Names are then looked up in that object as if it were a scope: in
its attribute `bindings`, and on in its attribute `_parent`.
-/

namespace ListScript.Store

/-- The bindings and the parent of a scope. -/
def scope? (s : Store) (v : Value) : Option (Value × Value) :=
  match s.cell? v with
  | some (.scope bindings parent) => some (bindings, parent)
  | _ => none

/-- A stored attribute that has to be there, whether or not scripts can name it. -/
def needHidden (s : Store) (v : Value) (name : String) : Except Raised Value :=
  match s.hiddenAttribute? v name with
  | some w => .ok w
  | none => .error (.of (.noAttribute (s.typeName v) name))

/-- The bindings of a scope. Any other object with an attribute for them can stand in its place. -/
def bindingsOf (s : Store) (v : Value) : Except Raised Value :=
  match s.scope? v with
  | some (bindings, _) => .ok bindings
  | none => s.needHidden v "bindings"

/-- The parent of a scope. For any other object it is an attribute that scripts cannot name. -/
def parentOf (s : Store) (v : Value) : Except Raised Value :=
  match s.scope? v with
  | some (_, parent) => .ok parent
  | none => s.needHidden v "_parent"

/-- The nearest scope of a chain that binds a key, with the value bound there; `fuel` bounds the length of the chain. -/
def ownerWithin (s : Store) (key : Value) : Nat → Value → Except Raised (Option (Value × Value))
  | 0, _ => .ok none
  | _ + 1, .null => .ok none
  | fuel + 1, scope => do
    match ← s.valueAt? (← s.bindingsOf scope) key with
    | some v => return some (scope, v)
    | none => ownerWithin s key fuel (← s.parentOf scope)

/-- The nearest scope of a chain that binds a key, with the value bound there. -/
def owner? (s : Store) (scope key : Value) : Except Raised (Option (Value × Value)) :=
  s.ownerWithin key (s.size + 1) scope

/-- The value that a key has in a scope. -/
def lookup? (s : Store) (scope key : Value) : Except Raised (Option Value) :=
  (s.owner? scope key).map (·.map Prod.snd)

/-- Whether a scope has a value for a key. Only texts can be bound. -/
def binds (s : Store) (scope key : Value) : Except Raised Bool :=
  if key.isText then (s.owner? scope key).map Option.isSome else .ok false

/-- Binds a key in a scope itself. -/
def bind (s : Store) (scope key value : Value) : Except Raised Store :=
  match s.scope? scope with
  | none => .error (.of (.noItemAssignment (s.typeName scope)))
  | some (bindings, _) =>
    if key.isText then s.setEntry bindings key value
    else .error (.of (.scopeKeyNotText (s.typeLabel key)))

/-- A new scope with the given parent and bindings. -/
def allocScope (s : Store) (parent bindings : Value) : Value × Store :=
  let (r, s) := s.alloc (.scope bindings parent)
  (.ref r, s)

/-- A new scope with the given parent and no bindings. -/
def allocEmptyScope (s : Store) (parent : Value) : Value × Store :=
  let (bindings, s) := s.allocDict []
  s.allocScope parent bindings

end ListScript.Store
