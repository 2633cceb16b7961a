import ListScript.Store.Print

/-!
# Effects

An effect is a computation on a `State`, the objects of a run and the trace it writes. It ends with a value, with an
error, or with neither, because its fuel did not suffice or it went on where it is not followed; the state afterwards is
there in the first two cases. The trace is written only when tracing is on.
-/

namespace ListScript

/-- What a run can change. -/
structure State where
  store : Store
  /-- whether the trace is written -/
  tracing : Bool
  /-- the entries of the trace, with their line ends -/
  trace : Array String

/-- How an effect ends. -/
inductive Outcome (α : Type) where
  | value (a : α) (st : State)
  | raised (e : Raised) (st : State)
  /-- the fuel did not suffice, or the run goes on in what the model does not follow -/
  | exhausted

/-- A computation on a state. -/
def Effect (α : Type) : Type := State → Outcome α

namespace Effect

/-- The effect that changes nothing. -/
protected def pure {α : Type} (a : α) : Effect α := fun st => .value a st

/-- One effect after the other; an error skips the second. -/
protected def bind {α β : Type} (act : Effect α) (f : α → Effect β) : Effect β := fun st =>
  match act st with
  | .value a st => f a st
  | .raised e st => .raised e st
  | .exhausted => .exhausted

instance : Monad Effect where
  pure := Effect.pure
  bind := Effect.bind

/-- Ends with an error. -/
def raise {α : Type} (e : Raised) : Effect α := fun st => .raised e st

/-- Gives no answer. -/
def exhaust {α : Type} : Effect α := fun _ => .exhausted

/-- Catches an error as a value. -/
def attempt {α : Type} (act : Effect α) : Effect (Except Raised α) := fun st =>
  match act st with
  | .value a st => .value (.ok a) st
  | .raised e st => .value (.error e) st
  | .exhausted => .exhausted

/-- The store. -/
def store : Effect Store := fun st => .value st.store st

/-- Ends as a result says. -/
def ofExcept {α : Type} : Except Raised α → Effect α
  | .ok a => pure a
  | .error e => raise e

/-- A question to the store. -/
def ask {α : Type} (f : Store → Except Raised α) : Effect α := fun st =>
  match f st.store with
  | .ok a => .value a st
  | .error e => .raised e st

/-- A question to the store that may add objects. -/
def askGrowing {α : Type} (f : Store → Except Raised (α × Store)) : Effect α := fun st =>
  match f st.store with
  | .ok (a, store) => .value a { st with store }
  | .error e => .raised e st

/-- A change of the store that succeeds or leaves it alone. -/
def change (f : Store → Except Raised Store) : Effect Unit := fun st =>
  match f st.store with
  | .ok store => .value () { st with store }
  | .error e => .raised e st

/-- Adds to the store. -/
def extend {α : Type} (f : Store → α × Store) : Effect α := fun st =>
  let (a, store) := f st.store
  .value a { st with store }

/-- The element of a list at a position, as the list is now. -/
def element? (list : Value) (i : Nat) : Effect (Option Value) := fun st =>
  .value (((st.store.list? list).getD [])[i]?) st

/-- Writes an entry of the trace if tracing is on. -/
def trace (entry : String) : Effect Unit := fun st =>
  .value () (if st.tracing then { st with trace := st.trace.push entry } else st)

end Effect

end ListScript
