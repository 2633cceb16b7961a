import ListScript.Error

/-!
# Code of the host

A host can hand any function to scripts. What such a function does next depends on what it has learnt since it was
called and on nothing else (`Code.next`). It knows the objects that it gets by the order in which it gets them and not
by their addresses, and it names them in this way when it does something to them.
-/

namespace ListScript

/-- What a value is apart from addresses. -/
def Value.bare : Value → Value
  | .ref _ => .null
  | .float d => .float { d with tag := 0 }
  | v => v

namespace Host

/-- A value in the words of a function of the host: one that it has got, by its position among these, or one that it
makes up. -/
inductive Term where
  | got (i : Nat)
  | literal (v : Value)

namespace Term

/-- The value that a term names. -/
def value (got : List Value) : Term → Value
  | .got i => (got[i]?).getD .null
  | .literal v => v.bare

end Term

/-- A step of a function of the host; `F` is the type of the functions that it can hand out in turn. -/
inductive Act (F : Type) where
  | makeList (items : List Term)
  /-- makes a dictionary of alternating keys and values -/
  | makeDict (items : List Term)
  | makeFunction (f : F)
  /-- makes an object of a class, which can be called if there is a function for that -/
  | makeObject (label : String) (call : Option F) (methods : List F)
  /-- goes through a value -/
  | iterate (v : Term)
  /-- goes through the keys of a dictionary with their values -/
  | entries (v : Term)
  | print (v : Term)
  | read (v : Term) (segments : List Segment)
  | write (v : Term) (segments : List Segment) (w : Term)
  | call (f : Term) (args : List Term)

/-- What a function of the host does next. -/
inductive Move (F : Type) where
  /-- ends with a value -/
  | finish (v : Term)
  /-- ends with an error of its own -/
  | fail (kind : Kind) (text : String)
  /-- ends with an error that it has caught -/
  | rethrow (i : Nat)
  /-- takes a step, whose error is caught or not -/
  | act (a : Act F) (caught : Bool)

/-- What a function of the host can tell of a value: what it is apart from addresses, where the same value stands first
among those that the function has got, its type, and whether it can be called. -/
structure View where
  bare : Value
  place : Nat
  type : String
  isCallable : Bool

/-- What a function of the host learns from a step. -/
inductive Seen where
  | values (views : List View)
  | error (kind : Kind) (message : String)

/-- A function of the host, by what it does next after all that it has learnt, with its name and its marks. -/
structure Code where
  name : String
  /-- whether it is handed the receiver of the call -/
  takesReceiver : Bool
  /-- whether it is part of the programming interface of its host -/
  isMarked : Bool
  next : List Seen → Move Code

end Host

end ListScript
