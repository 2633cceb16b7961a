import ListScript.Host.Basic

/-!
# The store

Objects live in the cells of a store and are addressed by references. A cell is of one kind for good; a write replaces
its content, an allocation adds a cell at the end and changes no other (`get?_alloc_lt`).
-/

namespace ListScript

/-- The parts of a function made by a script, all of which can be read and set as attributes. -/
structure Closure where
  params : Value
  body : Value
  context : Value
  engine : Value
  deriving DecidableEq

/-- The content of an object. -/
inductive Cell where
  | list (items : List Value) (flavor : Flavor)
  | tuple (items : List Value)
  | dict (entries : Entries)
  /-- a dictionary that cannot be written -/
  | frozen (entries : Entries)
  /-- literal data inside a script -/
  | raw (payload : Value)
  /-- variables with an outer scope to look in; the bindings are a dictionary of their own -/
  | scope (bindings parent : Value)
  | closure (parts : Closure) (attrs : Attributes)
  | context (ctx : Context) (attrs : Attributes)
  /-- an evaluator and its list of active calls -/
  | engine (stack : Value) (attrs : Attributes)
  | function (f : Host.Function) (attrs : Attributes)
  | object (cls : Host.Class) (attrs : Attributes)
  /-- a method bound to a value -/
  | method (self : Value) (m : Host.Method)
  | path (p : Path)
  | nameSegment (text : String)
  | indexSegment (n : Int)

/-- The objects of a run. -/
structure Store where
  cells : Array Cell

namespace Store

/-- The store without objects. -/
def empty : Store := ⟨#[]⟩

/-- How many objects there are. -/
def size (s : Store) : Nat := s.cells.size

/-- The object at a reference. -/
def get? (s : Store) (r : Ref) : Option Cell := s.cells[r.index]?

/-- The reference that the next object gets. -/
def next (s : Store) : Ref := ⟨s.size⟩

/-- Adds an object. -/
def alloc (s : Store) (c : Cell) : Ref × Store := (s.next, ⟨s.cells.push c⟩)

/-- Replaces the content of an object. -/
def set (s : Store) (r : Ref) (c : Cell) : Store := ⟨s.cells.setIfInBounds r.index c⟩

/-- The object that a value refers to. -/
def cell? (s : Store) : Value → Option Cell
  | .ref r => s.get? r
  | _ => none

/-- The elements of a list. -/
def list? (s : Store) (v : Value) : Option (List Value) :=
  match s.cell? v with
  | some (.list items _) => some items
  | _ => none

/-- The entries of a dictionary that can be written. -/
def dict? (s : Store) (v : Value) : Option Entries :=
  match s.cell? v with
  | some (.dict entries) => some entries
  | _ => none

/-- The entries of a dictionary of either kind. -/
def mapping? (s : Store) (v : Value) : Option Entries :=
  match s.cell? v with
  | some (.dict entries) => some entries
  | some (.frozen entries) => some entries
  | _ => none

/-- The payload of literal data. -/
def raw? (s : Store) (v : Value) : Option Value :=
  match s.cell? v with
  | some (.raw payload) => some payload
  | _ => none

/-- Whether a value is a list. -/
def isList (s : Store) (v : Value) : Bool := (s.list? v).isSome

/-- Whether a value is a function made by a script. -/
def isClosure (s : Store) (v : Value) : Bool :=
  match s.cell? v with
  | some (.closure ..) => true
  | _ => false

/-- Whether a value is an object of the host. -/
def isObject (s : Store) (v : Value) : Bool :=
  match s.cell? v with
  | some (.object ..) => true
  | _ => false

/-- Whether a value can be called. -/
def isCallable (s : Store) (v : Value) : Bool :=
  match s.cell? v with
  | some (.closure ..) | some (.function ..) | some (.method ..) => true
  | some (.object cls _) => cls.isCallable
  | _ => false

/-- Adds a plain list. -/
def allocList (s : Store) (items : List Value) : Value × Store :=
  let (r, s) := s.alloc (.list items .plain)
  (.ref r, s)

/-- Adds a dictionary. -/
def allocDict (s : Store) (entries : Entries) : Value × Store :=
  let (r, s) := s.alloc (.dict entries)
  (.ref r, s)

/-- Adds an object whose address tells a new number that is not a number apart. -/
def allocNan (s : Store) : Double × Store :=
  let (r, s) := s.alloc (.tuple [])
  (.nan r.index, s)

/-- The value that a value source stands for if it is not to be evaluated. -/
def unwrap (s : Store) (v : Value) : Value := (s.raw? v).getD v

/-- Whether a value source stands for itself: everything but a list does. -/
def isLiteral (s : Store) (v : Value) : Bool := !s.isList v

/-- The stored attributes of an object. -/
def storedAttribute? (c : Cell) (name : String) : Option Value :=
  match c with
  | .raw payload => if name == "payload" then some payload else none
  | .closure f attrs =>
    match name with
    | "params" => some f.params
    | "body" => some f.body
    | "closure" => some f.context
    | "evaluator" => some f.engine
    | _ => attrs.lookup name
  | .context ctx attrs =>
    match name with
    | "this" => some ctx.this
    | "variables" => some ctx.scope
    | "last_value" => some ctx.last
    | _ => attrs.lookup name
  | .engine stack attrs => if name == "call_stack" then some stack else attrs.lookup name
  | .function _ attrs => attrs.lookup name
  | .object _ attrs => attrs.lookup name
  | _ => none

/-- A stored attribute that scripts cannot name. -/
def hiddenAttribute? (s : Store) (v : Value) (name : String) : Option Value :=
  (s.cell? v).bind (storedAttribute? · name)

/-! ## Laws -/

@[simp] theorem size_alloc (s : Store) (c : Cell) : (s.alloc c).2.size = s.size + 1 := by
  simp [alloc, size]

@[simp] theorem get?_alloc_self (s : Store) (c : Cell) : (s.alloc c).2.get? (s.alloc c).1 = some c := by
  simp [alloc, get?, next, size]

theorem get?_alloc_lt {s : Store} {r : Ref} (c : Cell) (h : r.index < s.size) : (s.alloc c).2.get? r = s.get? r := by
  simp only [alloc, get?, size] at *
  rw [Array.getElem?_push_lt h, Array.getElem?_eq_getElem h]

@[simp] theorem size_set (s : Store) (r : Ref) (c : Cell) : (s.set r c).size = s.size := by
  simp [set, size]

theorem get?_set_self {s : Store} {r : Ref} (c : Cell) (h : r.index < s.size) : (s.set r c).get? r = some c := by
  simp only [set, get?, size] at *
  simp [h]

theorem get?_set_ne {s : Store} {r r' : Ref} (c : Cell) (h : r' ≠ r) : (s.set r c).get? r' = s.get? r' := by
  have : r.index ≠ r'.index := fun e => h (by cases r; cases r'; simp_all)
  simp [set, get?, Array.getElem?_setIfInBounds_ne this]

end Store

end ListScript
