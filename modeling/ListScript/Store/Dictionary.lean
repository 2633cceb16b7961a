import ListScript.Store.Equality

/-!
# Dictionaries

Reading, writing and removing entries of dictionaries by key. A key has to be hashable wherever a dictionary is
consulted. Writing an existing key keeps its place and its spelling; a new key goes to the end.
-/

namespace ListScript.Store

/-- The value of a key in something other than a dictionary: a sequence or a text has none, and an element or a part of
it is refused as an index. -/
def valueElsewhere? (s : Store) (container key : Value) : Except Raised (Option Value) :=
  match container, key, s.cell? container with
  | .str t _, .str part _, _ =>
    if Text.occursIn part t then .error (.of (.textAsIndex "string" "'str'")) else .ok none
  | .str .., _, _ => .error (.of (.notAPart (s.typeName key)))
  | .bytes _, .str .., _ => .error (.of (.notInBytes (s.typeName key)))
  | _, _, some (.list items _) => among "list" items
  | _, _, some (.tuple items) => among "tuple" items
  | _, _, _ => .error (.of (.notAContainer (s.typeName container)))
where
  /-- Looks the key up among the elements of a sequence. -/
  among (label : String) (items : List Value) : Except Raised (Option Value) :=
    if items.any (s.alike key) then .error (.of (.textAsIndex label (s.typeName key))) else .ok none

/-- The value of a key in a dictionary. -/
def valueAt? (s : Store) (dictionary key : Value) : Except Raised (Option Value) :=
  match s.mapping? dictionary with
  | none => s.valueElsewhere? dictionary key
  | some entries => do
    s.checkHashable key
    return Entries.find? (s.sameKey key) entries

/-- Sets the value of a key in a dictionary. -/
def setEntry (s : Store) (dictionary key value : Value) : Except Raised Store :=
  match dictionary, s.dict? dictionary with
  | .ref r, some entries => do
    s.checkHashable key
    return s.set r (.dict (Entries.put (s.sameKey key) key value entries))
  | _, _ =>
    .error (.of (if s.isList dictionary then .textAsIndex "list" (s.typeName key)
      else .noItemAssignment (s.typeName dictionary)))

/-- Removes a key from a dictionary, if it is there. -/
def dropEntry (s : Store) (dictionary key : Value) : Store :=
  match dictionary, s.dict? dictionary with
  | .ref r, some entries => s.set r (.dict (Entries.drop (s.sameKey key) entries))
  | _, _ => s

/-- The entries that arise from setting keys one after the other. -/
def entriesOf (s : Store) : Entries → Entries → Except Raised Entries
  | done, [] => .ok done
  | done, (k, v) :: rest => do
    s.checkHashable k
    entriesOf s (Entries.put (s.sameKey k) k v done) rest

end ListScript.Store
