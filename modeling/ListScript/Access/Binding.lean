import ListScript.Store.Print
import ListScript.Store.Scope

/-!
# Bindings that have to be there

Reading and removing a binding of a scope where a missing one is an error and not null.
-/

namespace ListScript.Store

/-- The value that a key has in a scope; a key without one is refused. -/
def lookup (s : Store) (scope key : Value) : Except Raised Value := do
  match ← s.lookup? scope key with
  | some v => return v
  | none => .error (.of (.missingBinding (← s.plainText key)))

/-- Removes a key from the own bindings of a scope; a key that is not there is refused. -/
def unbind (s : Store) (scope key : Value) : Except Raised Store :=
  match s.scope? scope with
  | none => .error (.of (.noItemAssignment (s.typeName scope)))
  | some (bindings, _) => do
    match ← s.valueAt? bindings key with
    | some _ => return s.dropEntry bindings key
    | none => .error (.of (.missingBinding (← s.plainText key)))

end ListScript.Store
