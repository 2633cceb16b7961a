import ListScript.Effect

/-!
# The stack of active calls

An evaluator keeps the list of its active calls, outermost first; each is a dictionary with the name and the arguments
of the call. The list is an ordinary object, so a script that gets hold of it can change it, and every operation here
works on what it finds.
-/

namespace ListScript

namespace Store

/-- The list of active calls of an evaluator. -/
def stackOf (s : Store) (engine : Ref) : Value :=
  match s.get? engine with
  | some (.engine stack _) => stack
  | _ => .null

/-- Replaces the elements of the list of active calls; an object that is no list lacks the `operation`. -/
def updateStack (s : Store) (engine : Ref) (operation : String) (f : List Value → Except Raised (List Value)) :
    Except Raised Store :=
  let stack := s.stackOf engine
  match stack, s.cell? stack with
  | .ref r, some (.list items flavor) => (f items).map fun items => s.set r (.list items flavor)
  | _, _ => .error (.of (.noAttribute (s.typeName stack) operation))

/-- Adds a call to the active ones. -/
def pushFrame (s : Store) (engine : Ref) (name args : Value) : Except Raised Store :=
  let (frame, s) := s.allocDict [(.text "name", name), (.text "args", args)]
  s.updateStack engine "append" fun items => .ok (items ++ [frame])

/-- Removes the innermost call; a dictionary in place of the list does not say which. -/
def popFrame (s : Store) (engine : Ref) : Except Raised Store :=
  if (s.dict? (s.stackOf engine)).isSome then .error (.of (.host .badType "pop expected at least 1 argument, got 0"))
  else
    s.updateStack engine "pop" fun items => if items.isEmpty then .error (.of .popFromEmpty) else .ok items.dropLast

/-- Removes all calls; a dictionary in place of the list is emptied too. -/
def clearStack (s : Store) (engine : Ref) : Except Raised Store :=
  match s.stackOf engine, s.dict? (s.stackOf engine) with
  | .ref r, some _ => .ok (s.set r (.dict []))
  | _, _ => s.updateStack engine "clear" fun _ => .ok []

/-- How many calls are active. -/
def stackDepth (s : Store) (engine : Ref) : Nat := ((s.elements? (s.stackOf engine)).getD []).length

/-- An active call as it is recorded: a copy of its name and arguments. -/
def frameOf (s : Store) (v : Value) : Except Raised Frame := do
  let entries ← s.copiedEntries v
  let field (name : String) : Value := (Entries.find? (s.sameKey (.text name)) entries).getD .null
  return ⟨field "name", field "args"⟩

/-- The record of the active calls, outermost first. -/
def frames (s : Store) (engine : Ref) : Except Raised (List Frame) := do
  let items ← s.elements (s.stackOf engine)
  items.mapM s.frameOf

/-- A new evaluator without active calls. -/
def allocEngine (s : Store) : Ref × Store :=
  let (stack, s) := s.allocList []
  s.alloc (.engine stack [])

end Store

open Effect

/-- The error with the active calls recorded, if it has no record yet. -/
def recordCalls (engine : Ref) (e : Raised) : Effect Raised :=
  if e.awaitsStack then do
    let frames ← ask (·.frames engine)
    return { e with stack := some frames }
  else return e

end ListScript
