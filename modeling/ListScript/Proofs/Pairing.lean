import ListScript.Proofs.Enclosure

/-!
# Stores side by side

A pairing relates the objects of one store to those of another: each object of a set has a counterpart, which is the
same but that what it refers to is replaced by the counterparts, and that hidden attributes of host objects may have
other values. Objects that both stores add at the same time become counterparts of each other (`Paired.alloc`), and a
change of an object is matched by the corresponding change of its counterpart (`Paired.set`), so long as the hidden
attributes stay what they are.

What can be told of a value in the one store can be told of its counterpart in the other. Here are the questions that
look at one object only; `PairingDepth` has those that go down into values.
-/

namespace ListScript

/-- How the objects of a store correspond to those of another. -/
structure Pairing where
  /-- the objects of the first store that have a counterpart -/
  good : Ref → Prop
  /-- the counterpart of an object -/
  move : Ref → Ref
  /-- the names of attributes of host objects that are not compared -/
  hidden : String → Bool
  /-- the hidden attributes of an object -/
  kept : Ref → Attributes
  /-- the values that the hidden attributes of its counterpart have -/
  veil : Ref → List Value
  /-- how many objects the first store has at the start -/
  base : Nat
  /-- how many objects more the second has -/
  gap : Nat
  /-- whether the traces are written -/
  tracing : Bool
  /-- the two traces at the start -/
  lines : Array String
  lines' : Array String
  injective : ∀ {r r'}, move r = move r' → r = r'
  move_zero : move ⟨0⟩ = ⟨0⟩
  move_new : ∀ r, base ≤ r.index → (move r).index = r.index + gap
  good_new : ∀ r, base ≤ r.index → good r
  kept_new : ∀ r, base ≤ r.index → kept r = []
  private_of_hidden : ∀ name, hidden name = true → isPrivate name = true
  /-- the attributes that the interpreter itself asks for -/
  open_names : ∀ name ∈ ["_parent", "_script_accepts_this", "__func__", "__qualname__", "__name__"], hidden name = false

/-- The attributes of a host object with a name of a kind. -/
def Cell.attributesOf (hidden : String → Bool) : Cell → Attributes
  | .function _ attrs | .object _ attrs => attrs.filter fun a => hidden a.1
  | _ => []

namespace Pairing

variable (p : Pairing)

/-! ## Counterparts -/

/-- The counterpart of a floating-point number; what is not a number goes by the address of an object. -/
def double (d : Double) : Double := { d with tag := (p.move ⟨d.tag⟩).index }

/-- The counterpart of a value. -/
def value : Value → Value
  | .float d => .float (p.double d)
  | .ref r => .ref (p.move r)
  | v => v

def entries (entries : Entries) : Entries := entries.map fun e => (p.value e.1, p.value e.2)

def attributes (attrs : Attributes) : Attributes := attrs.map fun a => (a.1, p.value a.2)

/-- The counterpart of attributes, with other values for the hidden ones. -/
def veiled : List Value → Attributes → Attributes
  | _, [] => []
  | veil, (name, v) :: rest =>
    if p.hidden name then (name, veil.head?.getD .null) :: veiled veil.tail rest
    else (name, p.value v) :: veiled veil rest

def context (ctx : Context) : Context := ⟨p.value ctx.this, p.value ctx.scope, p.value ctx.last⟩

def closure (f : Closure) : Closure := ⟨p.value f.params, p.value f.body, p.value f.context, p.value f.engine⟩

def cls : Host.Class → Host.Class
  | .box items => .box (items.map fun e => (e.1, p.value e.2))
  | .future result waiting => .future (result.map p.value) (waiting.map p.value)
  | c => c

/-- The counterpart of an object. -/
def cell (r : Ref) : Cell → Cell
  | .list items flavor => .list (items.map p.value) flavor
  | .tuple items => .tuple (items.map p.value)
  | .dict es => .dict (p.entries es)
  | .frozen es => .frozen (p.entries es)
  | .raw payload => .raw (p.value payload)
  | .scope bindings parent => .scope (p.value bindings) (p.value parent)
  | .closure f attrs => .closure (p.closure f) (p.attributes attrs)
  | .context ctx attrs => .context (p.context ctx) (p.attributes attrs)
  | .engine stack attrs => .engine (p.value stack) (p.attributes attrs)
  | .function f attrs => .function f (p.veiled (p.veil r) attrs)
  | .object c attrs => .object (p.cls c) (p.veiled (p.veil r) attrs)
  | .method self m => .method (p.value self) m
  | .path path => .path path
  | .nameSegment t => .nameSegment t
  | .indexSegment n => .indexSegment n

/-- Two stores with counterparts for all that the first one leads to. -/
structure Paired (s s' : Store) : Prop where
  get?_move : ∀ r, p.good r → s'.get? (p.move r) = (s.get? r).map (p.cell r)
  closed : ∀ r c, p.good r → s.get? r = some c → ∀ v ∈ c.contents, v.Within p.good
  kept : ∀ r c, p.good r → s.get? r = some c → c.attributesOf p.hidden = p.kept r
  base : p.base ≤ s.size
  size : s'.size = s.size + p.gap

variable {p} {v w : Value} {r r' : Ref}

/-- An attribute that scripts can name is not hidden. -/
theorem hidden_eq_false {name : String} (h : isPrivate name = false) : p.hidden name = false := by
  cases hname : p.hidden name with
  | false => rfl
  | true => rw [p.private_of_hidden name hname] at h; cases h

theorem double_of_tag {d : Double} (h : d.tag = 0) : p.double d = d := by
  obtain ⟨bits, tag⟩ := d
  cases h
  simp [double, p.move_zero]

theorem double_injective {d e : Double} (h : p.double d = p.double e) : d = e := by
  obtain ⟨bits, tag⟩ := d
  obtain ⟨bits', tag'⟩ := e
  simp only [double, Double.mk.injEq] at h
  have htag : (Ref.mk tag) = ⟨tag'⟩ := p.injective (by
    cases hr : p.move ⟨tag⟩
    cases hr' : p.move ⟨tag'⟩
    rw [hr, hr'] at h
    exact congrArg Ref.mk h.2)
  cases htag
  rw [h.1]

theorem value_injective (h : p.value v = p.value w) : v = w := by
  cases v <;> cases w
  case float.float => rw [double_injective (Value.float.inj h)]
  case ref.ref => rw [p.injective (Value.ref.inj h)]
  all_goals first | exact h | cases h

theorem value_beq (v w : Value) : (p.value v == p.value w) = (v == w) := by
  rw [Bool.eq_iff_iff, beq_iff_eq, beq_iff_eq]
  exact ⟨value_injective, congrArg _⟩

theorem value_eq_iff_of_immediate (hv : ∀ r, v ≠ .ref r) (hv' : ∀ d, v ≠ .float d) : p.value w = v ↔ w = v := by
  constructor
  · intro h
    cases w with
    | float d => exact absurd h.symm (hv' _)
    | ref r => exact absurd h.symm (hv _)
    | _ => exact h
  · rintro rfl
    cases w with
    | float d => exact absurd rfl (hv' d)
    | ref r => exact absurd rfl (hv r)
    | _ => rfl

@[simp] theorem value_eq_null : p.value v = .null ↔ v = .null := value_eq_iff_of_immediate (by simp) (by simp)

@[simp] theorem text?_value (v : Value) : (p.value v).text? = v.text? := by cases v <;> rfl

@[simp] theorem isText_value (v : Value) : (p.value v).isText = v.isText := by simp [Value.isText]

@[simp] theorem isScalar_value (v : Value) : (p.value v).isScalar = v.isScalar := by cases v <;> rfl

@[simp] theorem value_ref (r : Ref) : p.value (.ref r) = .ref (p.move r) := rfl

@[simp] theorem value_text (t : String) : p.value (.text t) = .text t := rfl

theorem decode_double (d : Double) : (p.double d).decode = d.decode := rfl

theorem immediateEq_value (v w : Value) : (p.value v).immediateEq (p.value w) = v.immediateEq w := by
  cases v <;> cases w <;> rfl

theorem within_null : Value.null.Within p.good := Value.within_immediate (by simp)

theorem within_text (t : String) : (Value.text t).Within p.good := Value.within_immediate (by simp [Value.text])

theorem getD_null (o : Option Value) : (o.map p.value).getD .null = p.value (o.getD .null) := by cases o <;> rfl

theorem within_getD {o : Option Value} (h : ∀ v ∈ o, v.Within p.good) : (o.getD .null).Within p.good := by
  cases o with
  | none => exact within_null
  | some v => exact h v rfl

/-! ## Tables -/

theorem find?_entries {hit hit' : Value → Bool} {es : Entries} (h : ∀ k ∈ es.keys, hit' (p.value k) = hit k) :
    Entries.find? hit' (p.entries es) = (Entries.find? hit es).map p.value := by
  induction es with
  | nil => rfl
  | cons e rest ih =>
    simp only [Entries.keys, List.map_cons, List.forall_mem_cons] at h
    simp only [entries, List.map_cons, Entries.find?, h.1]
    split
    · rfl
    · exact ih h.2

theorem put_entries {hit hit' : Value → Bool} {es : Entries} (key v : Value) (h : ∀ k ∈ es.keys, hit' (p.value k) = hit k) :
    Entries.put hit' (p.value key) (p.value v) (p.entries es) = p.entries (Entries.put hit key v es) := by
  induction es with
  | nil => rfl
  | cons e rest ih =>
    simp only [Entries.keys, List.map_cons, List.forall_mem_cons] at h
    simp only [entries, List.map_cons, Entries.put, h.1]
    split
    · rfl
    · exact congrArg _ (ih h.2)

@[simp] theorem keys_entries (es : Entries) : (p.entries es).keys = es.keys.map p.value := by
  simp [entries, Entries.keys]

@[simp] theorem parts_entries (es : Entries) : (p.entries es).parts = es.parts.map p.value := by
  induction es with
  | nil => rfl
  | cons e rest ih =>
    simp only [Entries.parts, entries] at ih ⊢
    simp [ih]

/-- A table with counterparts for its values has them at the same keys. -/
theorem lookup_map {κ : Type} [BEq κ] (table : List (κ × Value)) (key : κ) :
    (table.map fun e => (e.1, p.value e.2)).lookup key = (table.lookup key).map p.value := by
  induction table with
  | nil => rfl
  | cons e rest ih =>
    obtain ⟨k, v⟩ := e
    simp only [List.map_cons, List.lookup_cons]
    cases key == k
    · exact ih
    · rfl

theorem put_attributes (attrs : Attributes) (name : String) (v : Value) :
    (p.attributes attrs).put name (p.value v) = p.attributes (attrs.put name v) := by
  induction attrs with
  | nil => rfl
  | cons a rest ih =>
    simp only [attributes, List.map_cons, Attributes.put] at ih ⊢
    split
    · rfl
    · rw [ih]
      rfl

theorem lookup_veiled {name : String} (hname : p.hidden name = false) (attrs : Attributes) :
    ∀ veil, (p.veiled veil attrs).lookup name = (attrs.lookup name).map p.value := by
  induction attrs with
  | nil => exact fun _ => rfl
  | cons a rest ih =>
    obtain ⟨n, v⟩ := a
    intro veil
    rw [veiled, List.lookup_cons]
    by_cases heq : name = n
    · subst heq
      simp [hname]
    · have hne : (name == n) = false := by simpa using heq
      rw [hne]
      split <;> rw [List.lookup_cons, hne] <;> exact ih _

theorem put_veiled {name : String} (hname : p.hidden name = false) (v : Value) (attrs : Attributes) :
    ∀ veil, (p.veiled veil attrs).put name (p.value v) = p.veiled veil (attrs.put name v) := by
  induction attrs with
  | nil => simp [veiled, Attributes.put, hname]
  | cons a rest ih =>
    obtain ⟨n, w⟩ := a
    intro veil
    by_cases heq : n = name
    · subst heq
      simp [veiled, Attributes.put, hname]
    · have hne : (n == name) = false := by simpa using heq
      simp only [veiled, Attributes.put, hne]
      by_cases hn : p.hidden n = true <;> simp [hn, veiled, Attributes.put, hne, ih]

theorem filter_put {name : String} (hname : p.hidden name = false) (attrs : Attributes) (v : Value) :
    (attrs.put name v).filter (fun a => p.hidden a.1) = attrs.filter fun a => p.hidden a.1 := by
  induction attrs with
  | nil => simp [Attributes.put, hname]
  | cons a rest ih =>
    obtain ⟨n, w⟩ := a
    unfold Attributes.put
    by_cases heq : n = name
    · subst heq
      simp [hname]
    · have hne : (n == name) = false := by simpa using heq
      simp only [hne, Bool.false_eq_true, if_false, List.filter_cons, ih]

/-! ## Cells -/

@[simp] theorem typeName_cell (r : Ref) (c : Cell) : (p.cell r c).typeName = c.typeName := by
  cases c with
  | list items flavor => cases flavor <;> rfl
  | object c attrs => cases c <;> rfl
  | _ => rfl

@[simp] theorem inner_cell (r : Ref) (c : Cell) : (p.cell r c).inner = c.inner.map p.value := by
  cases c <;> first | rfl | exact parts_entries _

@[simp] theorem label_cls (c : Host.Class) : (p.cls c).label = c.label := by cases c <;> rfl

@[simp] theorem isCallable_cls (c : Host.Class) : (p.cls c).isCallable = c.isCallable := by cases c <;> rfl

@[simp] theorem ofClass_cls (c : Host.Class) : Host.Method.ofClass (p.cls c) = Host.Method.ofClass c := by cases c <;> rfl

theorem storedAttribute?_cell {name : String} (hname : p.hidden name = false) (r : Ref) (c : Cell) :
    Store.storedAttribute? (p.cell r c) name = (Store.storedAttribute? c name).map p.value := by
  cases c with
  | raw payload =>
    simp only [cell, Store.storedAttribute?]
    split <;> rfl
  | closure f attrs =>
    simp only [cell, Store.storedAttribute?]
    split
    case h_5 => exact lookup_map attrs name
    all_goals rfl
  | context ctx attrs =>
    simp only [cell, Store.storedAttribute?]
    split
    case h_4 => exact lookup_map attrs name
    all_goals rfl
  | engine stack attrs =>
    simp only [cell, Store.storedAttribute?]
    split
    · rfl
    · exact lookup_map attrs name
  | function f attrs => exact lookup_veiled hname attrs _
  | object c attrs => exact lookup_veiled hname attrs _
  | _ => rfl

theorem withAttribute?_cell {name : String} (hname : p.hidden name = false) (r : Ref) (c : Cell) (v : Value) :
    Store.withAttribute? (p.cell r c) name (p.value v) = (Store.withAttribute? c name v).map (p.cell r) := by
  cases c with
  | raw payload =>
    simp only [cell, Store.withAttribute?]
    split <;> rfl
  | closure f attrs =>
    simp only [cell, Store.withAttribute?]
    split
    case h_5 => simp only [put_attributes, Option.map_some, cell]
    all_goals rfl
  | context ctx attrs =>
    simp only [cell, Store.withAttribute?]
    split
    case h_4 => simp only [put_attributes, Option.map_some, cell]
    all_goals rfl
  | engine stack attrs =>
    simp only [cell, Store.withAttribute?]
    split
    · rfl
    · simp only [put_attributes, Option.map_some, cell]
  | function f attrs => simp only [cell, Store.withAttribute?, put_veiled hname, Option.map_some]
  | object c attrs => simp only [cell, Store.withAttribute?, put_veiled hname, Option.map_some]
  | _ => rfl

/-- A write to an attribute that is not hidden keeps those that are. -/
theorem attributesOf_withAttribute? {name : String} (hname : p.hidden name = false) {c c' : Cell} {v : Value}
    (h : Store.withAttribute? c name v = some c') : c'.attributesOf p.hidden = c.attributesOf p.hidden := by
  cases c with
  | function f attrs =>
    cases h
    exact filter_put hname attrs v
  | object cls attrs =>
    cases h
    exact filter_put hname attrs v
  | raw | closure | context | engine =>
    simp only [Store.withAttribute?] at h
    split at h <;> cases h <;> rfl
  | _ => cases h

theorem veiled_of_filter_eq_nil {attrs : Attributes} (h : attrs.filter (fun a => p.hidden a.1) = []) (veil : List Value) :
    p.veiled veil attrs = p.attributes attrs := by
  induction attrs generalizing veil with
  | nil => rfl
  | cons a rest ih =>
    obtain ⟨name, v⟩ := a
    cases hname : p.hidden name with
    | true => simp [hname] at h
    | false =>
      simp only [List.filter_cons, hname, Bool.false_eq_true, if_false] at h
      rw [veiled, if_neg (by simp [hname]), ih h]
      rfl

theorem map_of_fixed {α : Type} {g : α → α} {xs : List α} (h : ∀ x ∈ xs, g x = x) : xs.map g = xs :=
  (List.map_congr_left h).trans (List.map_id _)

theorem attributes_of_fixed {attrs : Attributes} (h : ∀ v ∈ attrs.map Prod.snd, p.value v = v) : p.attributes attrs = attrs :=
  map_of_fixed fun a ha => congrArg (Prod.mk a.1) (h a.2 (List.mem_map_of_mem ha))

theorem entries_of_fixed {es : Entries} (h : ∀ v ∈ es.parts, p.value v = v) : p.entries es = es := by
  refine map_of_fixed fun e he => ?_
  have hmem : ∀ v ∈ [e.1, e.2], p.value v = v := fun v hv => h v (List.mem_flatMap.2 ⟨e, he, hv⟩)
  rw [hmem e.1 (by simp), hmem e.2 (by simp)]

theorem cls_of_fixed {c : Host.Class} (h : ∀ v ∈ c.parts, p.value v = v) : p.cls c = c := by
  cases c with
  | box items =>
    exact congrArg Host.Class.box (map_of_fixed fun e he => congrArg (Prod.mk e.1) (h e.2 (List.mem_map_of_mem he)))
  | future result waiting =>
    simp only [Host.Class.parts, List.forall_mem_append] at h
    have hresult : result.map p.value = result := by
      cases result with
      | none => rfl
      | some v => exact congrArg some (h.1 v (by simp))
    rw [cls, hresult, map_of_fixed h.2]
  | _ => rfl

/-- An object whose values stand for themselves, and that has no hidden attributes, stands for itself. -/
theorem cell_of_fixed {r : Ref} {c : Cell} (h : ∀ v ∈ c.contents, p.value v = v) (hattrs : c.attributesOf p.hidden = []) :
    p.cell r c = c := by
  cases c with
  | list items flavor => exact congrArg (Cell.list · flavor) (map_of_fixed h)
  | tuple items => exact congrArg Cell.tuple (map_of_fixed h)
  | dict es => exact congrArg Cell.dict (entries_of_fixed h)
  | frozen es => exact congrArg Cell.frozen (entries_of_fixed h)
  | raw payload => rw [cell, h payload (by simp [Cell.contents, Cell.parts])]
  | scope bindings parent =>
    rw [cell, h bindings (by simp [Cell.contents]), h parent (by simp [Cell.contents])]
  | closure f attrs =>
    simp only [Cell.contents, Cell.parts, List.forall_mem_append, List.forall_mem_cons] at h
    rw [cell, closure, h.1.1, h.1.2.1, h.1.2.2.1, h.1.2.2.2.1, attributes_of_fixed h.2]
  | context ctx attrs =>
    simp only [Cell.contents, Cell.parts, List.forall_mem_append, List.forall_mem_cons] at h
    rw [cell, context, h.1.1, h.1.2.1, h.1.2.2.1, attributes_of_fixed h.2]
  | engine stack attrs =>
    simp only [Cell.contents, Cell.parts, List.forall_mem_cons] at h
    rw [cell, h.1, attributes_of_fixed h.2]
  | function f attrs => rw [cell, veiled_of_filter_eq_nil hattrs, attributes_of_fixed h]
  | object c attrs =>
    simp only [Cell.contents, Cell.parts, List.forall_mem_append] at h
    rw [cell, cls_of_fixed h.1, veiled_of_filter_eq_nil hattrs, attributes_of_fixed h.2]
  | method self m => rw [cell, h self (by simp [Cell.contents, Cell.parts])]
  | _ => rfl

namespace Paired

variable {s s' : Store} {c c' : Cell}

/-! ## Changes -/

theorem next (h : p.Paired s s') : s'.next = p.move s.next := by
  have hmove := p.move_new s.next h.base
  cases hr : p.move s.next with
  | mk i =>
    rw [hr] at hmove
    exact congrArg Ref.mk (h.size.trans hmove.symm)

theorem good_next (h : p.Paired s s') : p.good s.next := p.good_new s.next h.base

theorem get?_alloc (s : Store) (c : Cell) (r : Ref) : (s.alloc c).2.get? r = if r = s.next then some c else s.get? r := by
  by_cases hr : r = s.next
  · rw [if_pos hr, hr]
    exact s.get?_alloc_self c
  · rw [if_neg hr]
    have hne : r.index ≠ s.cells.size := fun heq => hr (congrArg Ref.mk heq)
    simp [Store.alloc, Store.get?, Array.getElem?_push, hne]

/-- Both stores add an object. -/
theorem alloc (h : p.Paired s s') (hc : ∀ v ∈ c.contents, v.Within p.good) (hattrs : c.attributesOf p.hidden = [])
    (hcell : c' = p.cell s.next c) : p.Paired (s.alloc c).2 (s'.alloc c').2 where
  get?_move r hr := by
    rw [get?_alloc, get?_alloc, h.next]
    by_cases heq : r = s.next
    · rw [if_pos heq, if_pos (congrArg _ heq), heq, hcell]
      rfl
    · rw [if_neg heq, if_neg fun hmove => heq (p.injective hmove), h.get?_move r hr]
  closed r d hr hd := by
    rw [get?_alloc] at hd
    split at hd
    · cases hd
      exact hc
    · exact h.closed r d hr hd
  kept r d hr hd := by
    rw [get?_alloc] at hd
    split at hd
    · rename_i heq
      cases hd
      rw [hattrs, heq]
      exact (p.kept_new s.next h.base).symm
    · exact h.kept r d hr hd
  base := by
    rw [Store.size_alloc]
    exact Nat.le_succ_of_le h.base
  size := by
    rw [Store.size_alloc, Store.size_alloc, h.size]
    omega

/-- Both stores replace an object. -/
theorem set (h : p.Paired s s') (hr : p.good r) (hc : ∀ v ∈ c.contents, v.Within p.good)
    (hattrs : ∀ d, s.get? r = some d → c.attributesOf p.hidden = d.attributesOf p.hidden) (hcell : c' = p.cell r c) :
    p.Paired (s.set r c) (s'.set (p.move r) c') := by
  have hsome : ∀ {t : Store} {k : Ref} {d : Cell} (e : Cell), t.get? k = some d → (t.set k e).get? k = some e :=
    fun e hd => Store.get?_set_self e (Store.index_lt_of_get? hd)
  have hnone : ∀ {t : Store} {k : Ref} (e : Cell), t.get? k = none → t.set k e = t := by
    intro t k e hk
    have hle : t.cells.size ≤ k.index := by simpa [Store.get?] using hk
    simp [Store.set, Array.setIfInBounds, Nat.not_lt.2 hle]
  cases hget : s.get? r with
  | none =>
    have hget' := h.get?_move r hr
    rw [hget] at hget'
    rw [hnone c hget, hnone c' hget']
    exact h
  | some d =>
    have hget' := h.get?_move r hr
    rw [hget] at hget'
    refine ⟨fun k hk => ?_, fun k e hk he => ?_, fun k e hk he => ?_, ?_, ?_⟩
    · by_cases heq : k = r
      · subst heq
        rw [hsome c hget, hsome c' hget', hcell]
        rfl
      · rw [Store.get?_set_ne c heq, Store.get?_set_ne c' fun hmove => heq (p.injective hmove), h.get?_move k hk]
    · by_cases heq : k = r
      · subst heq
        cases (hsome c hget).symm.trans he
        exact hc
      · exact h.closed k e hk (by rwa [Store.get?_set_ne c heq] at he)
    · by_cases heq : k = r
      · subst heq
        cases (hsome c hget).symm.trans he
        rw [hattrs d hget, h.kept k d hk hget]
      · exact h.kept k e hk (by rwa [Store.get?_set_ne c heq] at he)
    · rw [Store.size_set]
      exact h.base
    · rw [Store.size_set, Store.size_set, h.size]

/-! ## Questions -/

/-- What a value refers to, and what its counterpart does. -/
theorem cell?_cases (h : p.Paired s s') (hv : v.Within p.good) :
    (s.cell? v = none ∧ s'.cell? (p.value v) = none) ∨
      ∃ r c, v = .ref r ∧ p.good r ∧ s.cell? v = some c ∧ s'.cell? (p.value v) = some (p.cell r c) ∧
        ∀ w ∈ c.contents, w.Within p.good := by
  cases v with
  | ref r =>
    have hr := Value.within_ref.1 hv
    have hmove := h.get?_move r hr
    cases hc : s.get? r with
    | none => exact .inl ⟨hc, by rw [value, Store.cell?, hmove, hc]; rfl⟩
    | some c => exact .inr ⟨r, c, rfl, hr, hc, by rw [value, Store.cell?, hmove, hc]; rfl, h.closed r c hr hc⟩
  | _ => exact .inl ⟨rfl, rfl⟩

theorem within_of_cell? (h : p.Paired s s') (hv : v.Within p.good) (hc : s.cell? v = some c) :
    ∀ w ∈ c.contents, w.Within p.good := by
  cases v with
  | ref r => exact h.closed r c (Value.within_ref.1 hv) hc
  | _ => cases hc

theorem list?_value (h : p.Paired s s') (hv : v.Within p.good) :
    s'.list? (p.value v) = (s.list? v).map (List.map p.value) := by
  rcases h.cell?_cases hv with ⟨hc, hc'⟩ | ⟨r, c, -, -, hc, hc', -⟩ <;> simp only [Store.list?, hc, hc']
  · rfl
  · cases c <;> rfl

theorem within_list? (h : p.Paired s s') (hv : v.Within p.good) {items : List Value} (hitems : s.list? v = some items) :
    ∀ w ∈ items, w.Within p.good := by
  rcases h.cell?_cases hv with ⟨hc, -⟩ | ⟨r, c, -, -, hc, -, hwithin⟩ <;> simp only [Store.list?, hc] at hitems
  · cases hitems
  · cases c <;> cases hitems
    exact hwithin

theorem isList_value (h : p.Paired s s') (hv : v.Within p.good) : s'.isList (p.value v) = s.isList v := by
  simp only [Store.isList, h.list?_value hv, Option.isSome_map]

theorem dict?_value (h : p.Paired s s') (hv : v.Within p.good) : s'.dict? (p.value v) = (s.dict? v).map p.entries := by
  rcases h.cell?_cases hv with ⟨hc, hc'⟩ | ⟨r, c, -, -, hc, hc', -⟩ <;> simp only [Store.dict?, hc, hc']
  · rfl
  · cases c <;> rfl

theorem mapping?_value (h : p.Paired s s') (hv : v.Within p.good) :
    s'.mapping? (p.value v) = (s.mapping? v).map p.entries := by
  rcases h.cell?_cases hv with ⟨hc, hc'⟩ | ⟨r, c, -, -, hc, hc', -⟩ <;> simp only [Store.mapping?, hc, hc']
  · rfl
  · cases c <;> rfl

theorem within_mapping? (h : p.Paired s s') (hv : v.Within p.good) {es : Entries} (hes : s.mapping? v = some es) :
    ∀ w ∈ es.parts, w.Within p.good := by
  rcases h.cell?_cases hv with ⟨hc, -⟩ | ⟨r, c, -, -, hc, -, hwithin⟩ <;> simp only [Store.mapping?, hc] at hes
  · cases hes
  · cases c <;> cases hes <;> exact hwithin

theorem scope?_value (h : p.Paired s s') (hv : v.Within p.good) :
    s'.scope? (p.value v) = (s.scope? v).map (Prod.map p.value p.value) := by
  rcases h.cell?_cases hv with ⟨hc, hc'⟩ | ⟨r, c, -, -, hc, hc', -⟩ <;> simp only [Store.scope?, hc, hc']
  · rfl
  · cases c <;> rfl

theorem within_scope? (h : p.Paired s s') (hv : v.Within p.good) {b q : Value} (hscope : s.scope? v = some (b, q)) :
    b.Within p.good ∧ q.Within p.good := by
  rcases h.cell?_cases hv with ⟨hc, -⟩ | ⟨r, c, -, -, hc, -, hwithin⟩ <;> simp only [Store.scope?, hc] at hscope
  · cases hscope
  · cases c <;> cases hscope
    simpa [Cell.contents] using hwithin

theorem isClosure_value (h : p.Paired s s') (hv : v.Within p.good) : s'.isClosure (p.value v) = s.isClosure v := by
  rcases h.cell?_cases hv with ⟨hc, hc'⟩ | ⟨r, c, -, -, hc, hc', -⟩ <;> simp only [Store.isClosure, hc, hc']
  cases c <;> rfl

theorem isObject_value (h : p.Paired s s') (hv : v.Within p.good) : s'.isObject (p.value v) = s.isObject v := by
  rcases h.cell?_cases hv with ⟨hc, hc'⟩ | ⟨r, c, -, -, hc, hc', -⟩ <;> simp only [Store.isObject, hc, hc']
  cases c <;> rfl

theorem isCallable_value (h : p.Paired s s') (hv : v.Within p.good) : s'.isCallable (p.value v) = s.isCallable v := by
  rcases h.cell?_cases hv with ⟨hc, hc'⟩ | ⟨r, c, -, -, hc, hc', -⟩ <;> simp only [Store.isCallable, hc, hc']
  cases c <;> first | rfl | exact isCallable_cls _

theorem unwrap_value (h : p.Paired s s') (hv : v.Within p.good) :
    s'.unwrap (p.value v) = p.value (s.unwrap v) ∧ (s.unwrap v).Within p.good := by
  rcases h.cell?_cases hv with ⟨hc, hc'⟩ | ⟨r, c, -, -, hc, hc', hwithin⟩ <;>
    simp only [Store.unwrap, Store.raw?, hc, hc']
  · exact ⟨rfl, hv⟩
  · cases c with
    | raw payload => exact ⟨rfl, hwithin payload List.mem_cons_self⟩
    | _ => exact ⟨rfl, hv⟩

theorem typeName_value (h : p.Paired s s') (hv : v.Within p.good) : s'.typeName (p.value v) = s.typeName v := by
  cases v with
  | ref r =>
    simp only [value, Store.typeName, h.get?_move r (Value.within_ref.1 hv), Option.map_map]
    cases s.get? r <;> simp
  | str t flavor => cases flavor <;> rfl
  | _ => rfl

theorem typeModule_value (h : p.Paired s s') (hv : v.Within p.good) : s'.typeModule (p.value v) = s.typeModule v := by
  cases v with
  | ref r =>
    rcases h.cell?_cases hv with ⟨hc, hc'⟩ | ⟨r, c, -, -, hc, hc', -⟩
    · simp only [value] at hc' ⊢
      simp only [Store.typeModule, hc, hc']
    · simp only [value] at hc' ⊢
      simp only [Store.typeModule, hc, hc']
      cases c with
      | list items flavor => cases flavor <;> rfl
      | _ => rfl
  | _ => rfl

theorem typeLabel_value (h : p.Paired s s') (hv : v.Within p.good) : s'.typeLabel (p.value v) = s.typeLabel v := by
  simp only [Store.typeLabel, h.typeName_value hv, h.typeModule_value hv]

theorem isTrue_value (h : p.Paired s s') (hv : v.Within p.good) : s'.isTrue (p.value v) = s.isTrue v := by
  cases v with
  | ref r =>
    simp only [value, Store.isTrue, h.get?_move r (Value.within_ref.1 hv)]
    rcases s.get? r with _ | c
    · rfl
    · cases c <;> simp [cell, entries]
  | _ => rfl

theorem elements?_value (h : p.Paired s s') (hv : v.Within p.good) :
    s'.elements? (p.value v) = (s.elements? v).map (List.map p.value) ∧ ∀ items ∈ s.elements? v, ∀ w ∈ items, w.Within p.good := by
  cases v with
  | ref r =>
    have hr := Value.within_ref.1 hv
    simp only [value, Store.elements?, h.get?_move r hr]
    cases hc : s.get? r with
    | none => exact ⟨rfl, by simp⟩
    | some c =>
      have hwithin := h.closed r c hr hc
      cases c with
      | list items | tuple items => exact ⟨rfl, by rintro _ ⟨⟩; exact hwithin⟩
      | dict es | frozen es =>
        refine ⟨by simp [cell], ?_⟩
        rintro _ ⟨⟩ w hw
        exact hwithin w (Entries.mem_of_mem_keys hw)
      | _ => exact ⟨rfl, by simp⟩
  | str t flavor =>
    refine ⟨by simp only [value, Store.elements?, Option.map_some, List.map_map]; rfl, ?_⟩
    rintro _ ⟨⟩ w hw
    obtain ⟨c, -, rfl⟩ := List.mem_map.1 hw
    exact within_text _
  | bytes bs =>
    refine ⟨by simp [value, Store.elements?, Function.comp_def], ?_⟩
    rintro _ ⟨⟩ w hw
    obtain ⟨b, -, rfl⟩ := List.mem_map.1 hw
    exact Value.within_immediate (by simp)
  | _ => exact ⟨rfl, by simp [Store.elements?]⟩

theorem methodsOf_value (h : p.Paired s s') (hv : v.Within p.good) : s'.methodsOf (p.value v) = s.methodsOf v := by
  cases v with
  | ref r =>
    simp only [value, Store.methodsOf, Store.cell?, h.get?_move r (Value.within_ref.1 hv)]
    rcases s.get? r with _ | c
    · rfl
    · cases c <;> first | rfl | exact ofClass_cls _
  | _ => rfl

theorem hiddenAttribute?_value {name : String} (hname : p.hidden name = false) (h : p.Paired s s') (hv : v.Within p.good) :
    s'.hiddenAttribute? (p.value v) name = (s.hiddenAttribute? v name).map p.value := by
  rcases h.cell?_cases hv with ⟨hc, hc'⟩ | ⟨r, c, -, -, hc, hc', -⟩ <;> simp only [Store.hiddenAttribute?, hc, hc']
  · rfl
  · exact storedAttribute?_cell hname r c

theorem within_hiddenAttribute? (h : p.Paired s s') (hv : v.Within p.good) {name : String}
    (hw : s.hiddenAttribute? v name = some w) : w.Within p.good := by
  obtain ⟨c, hc, hw⟩ := Option.bind_eq_some_iff.1 hw
  exact h.within_of_cell? hv hc w (Cell.mem_contents_of_storedAttribute? hw)

end Paired

end Pairing

end ListScript
