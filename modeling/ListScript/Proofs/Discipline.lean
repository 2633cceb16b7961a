import ListScript.Proofs.Parts
import ListScript.Proofs.Plain
import ListScript.Proofs.WriteThenRead

/-!
# Disciplines

A custody is a property of stores together with the values that a run may get hold of, such that reading an object that
is held gives values that are held, and rewriting one that is held, with held values, does not break the property. Three
parts of objects are looked after specially. The list of active calls of an evaluator may be kept back: only an
evaluator that the custody exposes has its list read and replaced by those who hold it. The attributes of an evaluator
may have to stay: they are set only if the custody opens it. And the variables of a context may have to be more than
held: they are `outer`, fit to be what a new scope is put below.

A new object is not yet among the values of a custody. A discipline is a family of custodies in which a run moves on to
a later one when it adds objects; what is held stays held. It also says which errors a run may end with. A `Ward` is the
common case: one custody for the whole run, and all that is held may be the variables of a context.

Here it is shown for every question that the interpreter asks a store and for every change it makes; `Upheld` goes on
from there to effects, and `Conduct` to whole runs.

- `Custody.gives_command`, `Custody.yields_frames`: what is read is held;
- `Discipline.gives_read`, `Discipline.later_assign`: following a path, provided that it leads to no list of active
  calls that is kept back (`Custody.Admits`), puts nothing but outer values into contexts (`Custody.Takes`) and writes
  to no evaluator that is not open (`Custody.Opens`);
- `Discipline.later_pushFrame`, `Custody.yields_popFrame`: the stack of an evaluator that is exposed.
-/

namespace ListScript

/-- The variables of an object that is a context have a property. -/
def Cell.Captures (P : Value → Prop) : Cell → Prop
  | .context ctx _ => P ctx.scope
  | _ => True

/-- An object that is an evaluator has a property. -/
def Cell.IfEngine (P : Prop) : Cell → Prop
  | .engine .. => P
  | _ => True

/-- A property of stores and the values that a run may get hold of. -/
structure Custody where
  inv : Store → Prop
  held : Value → Prop
  /-- the values that a context may have as its variables -/
  outer : Value → Prop
  /-- the evaluators whose lists of active calls are not kept back -/
  exposes : Ref → Prop
  /-- the evaluators whose attributes may be set -/
  opens : Ref → Prop := fun _ => True
  immediate : ∀ v, (∀ r, v ≠ .ref r) → held v
  held_of_outer : ∀ v, outer v → held v
  /-- a write that replaces the variables of a context on its way may do so -/
  replaceable : ∀ v w, outer v → (v = .null || v.isScalar) = true → held w → outer w
  part : ∀ s r c v, inv s → held (.ref r) → s.get? r = some c → v ∈ c.fields → held v
  captured : ∀ s r c, inv s → held (.ref r) → s.get? r = some c → c.Captures outer
  stack : ∀ s r v attrs, inv s → held (.ref r) → exposes r → s.get? r = some (.engine v attrs) → held v
  binding : ∀ s scope key v, inv s → held scope → s.lookup? scope key = .ok (some v) → held v
  set : ∀ s r c c', inv s → held (.ref r) → s.get? r = some c → c.IfEngine (opens r) → c.Rewrites c' →
    (∀ v ∈ c'.fields, held v) → c'.Captures outer → inv (s.set r c')
  setStack : ∀ s r v attrs w, inv s → held (.ref r) → exposes r → s.get? r = some (.engine v attrs) → held w →
    inv (s.set r (.engine w attrs))

/-- Custodies, one for each stage of a run, and the errors that it may end with. -/
structure Discipline where
  Stage : Type
  custody : Stage → Custody
  fault : Stage → Raised → Prop
  plain : ∀ i e, e.isPlain = true → fault i e
  le : Stage → Stage → Prop
  refl : ∀ i, le i i
  trans : ∀ {i j k}, le i j → le j k → le i k
  mono : ∀ {i j v}, le i j → (custody i).held v → (custody j).held v
  outer_mono : ∀ {i j v}, le i j → (custody i).outer v → (custody j).outer v
  exposed : ∀ {i j r}, le i j → (custody i).exposes r → (custody j).exposes r
  opened : ∀ {i j r}, le i j → (custody i).opens r → (custody j).opens r := by exact fun _ _ => trivial
  /-- a new object may be held, but for a scope, which may be below something that is no scope -/
  alloc : ∀ i s c, (custody i).inv s → (∀ v ∈ c.contents, (custody i).held v) → c.Captures (custody i).outer →
    ∃ j, le i j ∧ (custody j).inv (s.alloc c).2 ∧ (c.scope? = none → (custody j).held (.ref (s.alloc c).1))
  scopes : ∀ i s v, (custody i).inv s → v = .null ∨ (custody i).outer v →
    ∃ j, le i j ∧ (custody j).inv (s.allocEmptyScope v).2 ∧ (custody j).outer (s.allocEmptyScope v).1

/-- The values that an expression, read, is made of. -/
def Command.parts : Command → List Value
  | .call target args => target :: args.toList
  | .get target => [target]
  | .lambda params body => [params, body]
  | .set receiver source => [receiver, source]
  | .value payload => [payload]

/-- The containers that following segments below a value comes to, in order. -/
def Store.walk (s : Store) (v : Value) : List Segment → List Visit
  | [] => []
  | segment :: rest =>
    ⟨s, v, segment⟩ ::
      match s.readField v segment with
      | .ok (w, s) => s.walk w rest
      | .error _ => []

/-! ## Contexts and scopes in a store -/

namespace Store

variable {s s' : Store} {v scope key value b p : Value} {ctx : Context} {attrs : Attributes}

theorem cell?_of_alloc {c d : Cell} (h : (s.alloc c).2.cell? v = some d) : s.cell? v = some d ∨ c = d := by
  cases v with
  | ref r =>
    by_cases hlt : r.index < s.size
    · exact .inl (by rwa [cell?, get?_alloc_lt c hlt] at h)
    · have hle := index_lt_of_get? h
      rw [size_alloc] at hle
      obtain rfl : r = (s.alloc c).1 := congrArg Ref.mk (show r.index = s.size by omega)
      rw [cell?, get?_alloc_self] at h
      exact .inr (Option.some.inj h)
  | _ => cases h

theorem needAttribute_variables (hc : s.cell? v = some (.context ctx attrs)) :
    s.needAttribute v "variables" = .ok ctx.scope := by
  have hattr : s.attribute? v "variables" = .ok (some (.stored ctx.scope)) := by
    cases v with
    | ref r => simp [attribute?, hc, isTrapped, storedAttribute?]
    | _ => cases hc
  simp only [needAttribute, hattr]
  rfl

/-- The variables of a context, as an attribute. -/
theorem readField_variables (hc : s.cell? v = some (.context ctx attrs)) :
    s.readField v (.name "variables") = .ok (ctx.scope, s) := by
  have hprivate : isPrivate "variables" = false := by decide
  have hattr : s.attribute? v "variables" = .ok (some (.stored ctx.scope)) := by
    cases v with
    | ref r => simp [attribute?, hc, isTrapped, storedAttribute?]
    | _ => cases hc
  simp only [readField, scope?, mapping?, hc, Option.isSome_none, Bool.false_eq_true, if_false, hprivate, hattr]
  rfl

/-- A new container is no context. -/
theorem cell?_of_allocFor {segment : Segment} (h : (s.allocFor segment).2.cell? v = some (.context ctx attrs)) :
    s.cell? v = some (.context ctx attrs) := by
  unfold allocFor at h
  split at h <;> exact (cell?_of_alloc h).resolve_right (by rintro ⟨⟩)

/-- Binding a name sets an entry of the bindings and nothing else. -/
theorem bind_cases (hscope : s.scope? scope = some (b, p)) (h : s.bind scope key value = .ok s') :
    s.setEntry b key value = .ok s' ∧ ∃ r entries entries', s.get? r = some (.dict entries) ∧
      s' = s.set r (.dict entries') := by
  rw [bind, hscope] at h
  dsimp only at h
  split at h
  · refine ⟨h, ?_⟩
    unfold setEntry at h
    split at h
    · rename_i r entries hd
      have hc : s.get? r = some (.dict entries) := by
        unfold dict? at hd
        split at hd <;> cases hd
        assumption
      cases hhash : s.checkHashable key with
      | error e => rw [hhash] at h; cases h
      | ok u =>
        rw [hhash] at h
        exact ⟨r, entries, _, hc, (Except.ok.inj h).symm⟩
    · cases h
  · cases h

/-- Binding a name changes no scope. -/
theorem scope?_of_bind (hscope : s.scope? scope = some (b, p)) (h : s.bind scope key value = .ok s') :
    s'.scope? scope = some (b, p) := by
  obtain ⟨-, r, entries, entries', hr, rfl⟩ := bind_cases hscope h
  have hkeeps : s.Keeps (s.set r (.dict entries')) := keeps_set hr rfl rfl
  exact hkeeps.scope?_some hscope

/-- Binding a name changes no context. -/
theorem cell?_of_bind (hscope : s.scope? scope = some (b, p)) (h : s.bind scope key value = .ok s')
    (hc : s'.cell? v = some (.context ctx attrs)) : s.cell? v = some (.context ctx attrs) := by
  obtain ⟨-, r, entries, entries', hr, rfl⟩ := bind_cases hscope h
  cases v with
  | ref r' =>
    by_cases heq : r' = r
    · subst heq
      rw [cell?, get?_set_self _ (index_lt_of_get? hr)] at hc
      cases hc
    · rwa [cell?, get?_set_ne _ heq] at hc
  | _ => cases hc

theorem cell?_of_bindParameters {names args : List Value} (hscope : s.scope? scope = some (b, p))
    (h : s.bindParameters scope names args = .ok s') (hc : s'.cell? v = some (.context ctx attrs)) :
    s.cell? v = some (.context ctx attrs) := by
  induction names generalizing s args with
  | nil =>
    cases h
    exact hc
  | cons name names ih =>
    rw [bindParameters] at h
    cases hbind : s.bind scope name (args.head?.getD .null) with
    | error e => rw [hbind] at h; cases h
    | ok t =>
      rw [hbind] at h
      exact cell?_of_bind hscope hbind (ih (scope?_of_bind hscope hbind) h)

theorem scope?_allocEmptyScope (s : Store) (v : Value) :
    (s.allocEmptyScope v).2.scope? (s.allocEmptyScope v).1 = some ((s.allocDict []).1, v) := by
  have hself := (s.alloc (.dict [])).2.get?_alloc_self (.scope (.ref (s.alloc (.dict [])).1) v)
  simp only [allocEmptyScope, allocDict, allocScope, scope?, cell?, hself]

end Store

namespace Custody

variable (C : Custody)

/-- The values in a context are held, and its variables are outer. -/
def HeldContext (ctx : Context) : Prop := C.held ctx.this ∧ C.outer ctx.scope ∧ C.held ctx.last

/-- The names in the record of an error are held. -/
def HeldError (e : Raised) : Prop := ∀ frames, e.stack = some frames → ∀ f ∈ frames, C.held f.name

/-- Following a segment below a value does not lead to a list of active calls that is kept back. -/
def Admits (v : Value) (segment : Segment) : Prop := ∀ r, v = .ref r → segment = .name "call_stack" → C.exposes r

/-- A value is no evaluator whose attributes have to stay. -/
def Opens (v : Value) : Prop := ∀ r, v = .ref r → C.opens r

/-- None of the containers on the way of a path leads to a list of active calls that is kept back. -/
def AdmitsAll (visits : List Visit) : Prop := ∀ u ∈ visits, C.Admits u.container u.segment

/-- None of the containers on the way of a path is an evaluator whose attributes have to stay. -/
def OpensAll (visits : List Visit) : Prop := ∀ u ∈ visits, C.Opens u.container

/-- Setting a segment below a value does not give a context other variables than outer ones. -/
def Takes (s : Store) (v : Value) (segment : Segment) (w : Value) : Prop :=
  ∀ ctx attrs, s.cell? v = some (.context ctx attrs) → segment = .name "variables" → C.outer w

/-- The last of the containers on the way of a write takes the value. -/
def TakesLast (visits : List Visit) (w : Value) : Prop :=
  ∀ u, visits.getLast? = some u → C.Takes u.store u.container u.segment w

variable {C} {s : Store} {v w : Value}

@[simp] theorem held_null : C.held .null := C.immediate _ (by simp)

@[simp] theorem held_bool (b : Bool) : C.held (.bool b) := C.immediate _ (by simp)

@[simp] theorem held_int (n : Int) : C.held (.int n) := C.immediate _ (by simp)

@[simp] theorem held_float (d : Double) : C.held (.float d) := C.immediate _ (by simp)

@[simp] theorem held_text (t : String) : C.held (.text t) := C.immediate _ (by simp [Value.text])

theorem held_getD {o : Option Value} (h : ∀ v, o = some v → C.held v) : C.held (o.getD .null) := by
  cases o with
  | none => exact held_null
  | some v => exact h v rfl

theorem heldError_of_none {e : Raised} (h : e.stack = none) : C.HeldError e := by
  intro frames hframes
  rw [h] at hframes
  cases hframes

/-! ## Looking at objects -/

section Objects

variable {items : List Value} {entries : Entries}

theorem held_part {c : Cell} (hs : C.inv s) (hv : C.held v) (hc : s.cell? v = some c) (hw : w ∈ c.fields) :
    C.held w := by
  cases v with
  | ref r => exact C.part s r c w hs hv hc hw
  | _ => cases hc

/-- The variables of a context that is held are outer. -/
theorem outer_scope {ctx : Context} {attrs : Attributes} (hs : C.inv s) (hv : C.held v)
    (hc : s.cell? v = some (.context ctx attrs)) : C.outer ctx.scope := by
  cases v with
  | ref r => exact C.captured s r _ hs hv hc
  | _ => cases hc

/-- The values in a context that is held. -/
theorem heldContext_of_context? {ctx : Context} (hs : C.inv s) (hv : C.held v) (h : s.context? v = some ctx) :
    C.HeldContext ctx := by
  unfold Store.context? at h
  split at h
  · rename_i ctx' attrs hc
    cases h
    have hpart : ∀ w ∈ (Cell.context ctx attrs).fields, C.held w := fun w hw => held_part hs hv hc hw
    exact ⟨hpart _ (by simp [Cell.fields, Cell.parts]), outer_scope hs hv hc, hpart _ (by simp [Cell.fields, Cell.parts])⟩
  · cases h

/-- An attribute of an object that is held, but for a list of active calls. -/
theorem held_hiddenAttribute? {name : String} (hs : C.inv s) (hv : C.held v) (hname : name ≠ "call_stack")
    (h : s.hiddenAttribute? v name = some w) : C.held w := by
  obtain ⟨c, hc, hstored⟩ := Option.bind_eq_some_iff.1 h
  rcases Cell.storedAttribute?_cases hstored with hpart | ⟨rfl, -⟩
  · exact held_part hs hv hc hpart
  · exact absurd rfl hname

theorem held_list? (hs : C.inv s) (hv : C.held v) (h : s.list? v = some items) : ∀ w ∈ items, C.held w := by
  unfold Store.list? at h
  split at h
  · rename_i hc
    cases h
    exact fun w hw => held_part hs hv hc hw
  · cases h

theorem held_mapping? (hs : C.inv s) (hv : C.held v) (h : s.mapping? v = some entries) :
    ∀ w ∈ entries.parts, C.held w := by
  unfold Store.mapping? at h
  split at h
  · rename_i hc
    cases h
    exact fun w hw => held_part hs hv hc hw
  · rename_i hc
    cases h
    exact fun w hw => held_part hs hv hc hw
  · cases h

theorem held_raw? (hs : C.inv s) (hv : C.held v) (h : s.raw? v = some w) : C.held w := by
  unfold Store.raw? at h
  split at h
  · rename_i hc
    cases h
    exact held_part hs hv hc List.mem_cons_self
  · cases h

theorem held_unwrap (hs : C.inv s) (hv : C.held v) : C.held (s.unwrap v) := by
  unfold Store.unwrap
  cases h : s.raw? v with
  | none => exact hv
  | some w => exact held_raw? hs hv h

theorem held_elements? (hs : C.inv s) (hv : C.held v) (h : s.elements? v = some items) : ∀ w ∈ items, C.held w := by
  unfold Store.elements? at h
  split at h
  · cases h
    intro w hw
    obtain ⟨c, _, rfl⟩ := List.mem_map.1 hw
    exact held_text _
  · cases h
    intro w hw
    obtain ⟨b, _, rfl⟩ := List.mem_map.1 hw
    exact held_int _
  · split at h
    · rename_i hc
      cases h
      exact fun w hw => held_part hs hv hc hw
    · rename_i hc
      cases h
      exact fun w hw => held_part hs hv hc hw
    · rename_i hc
      cases h
      exact fun w hw => held_part hs hv hc (Entries.mem_of_mem_keys hw)
    · rename_i hc
      cases h
      exact fun w hw => held_part hs hv hc (Entries.mem_of_mem_keys hw)
    · cases h
  · cases h

theorem yields_sizedElements (hs : C.inv s) (hv : C.held v) :
    Yields (s.sizedElements v) fun items => ∀ w ∈ items, C.held w := by
  unfold Store.sizedElements
  split
  · rename_i items hitems
    exact ends_ok (held_elements? hs hv hitems)
  · exact ends_error rfl

theorem all_traverse (hs : C.inv s) (hv : C.held v) {t : Traversal} (h : s.traverse? v = some t) : t.All C.held := by
  refine Store.all_traverse? ?_ ?_ ?_ h
  · exact fun items hitems => held_elements? hs hv hitems
  · exact fun key w hw => C.binding s v key w hs hv hw
  · exact fun items attrs n w hc hw => held_part hs hv hc (List.mem_append_left _ (mem_of_lookup hw))

theorem gives_traverse (hs : C.inv s) (hv : C.held v) : Gives (s.traverse v) fun t => t.All C.held := by
  unfold Store.traverse
  split
  · rename_i t ht
    exact ends_ok (all_traverse hs hv ht)
  · exact ends_error rfl

theorem gives_elements (hs : C.inv s) (hv : C.held v) :
    Gives (s.elements v) fun items => ∀ w ∈ items, C.held w :=
  (gives_traverse hs hv).bind fun _ ht => ht.result

theorem gives_valueAt? (hs : C.inv s) (hv : C.held v) (key : Value) :
    Gives (s.valueAt? v key) fun o => ∀ w, o = some w → C.held w := by
  refine ⟨?_, (s.plain_valueAt? v key).error⟩
  intro o ho w hw
  subst hw
  obtain ⟨c, hc, hmem⟩ := Store.mem_of_valueAt? ho
  exact held_part hs hv hc hmem

theorem gives_lookup? (hs : C.inv s) (hv : C.held v) (key : Value) :
    Gives (s.lookup? v key) fun o => ∀ w, o = some w → C.held w := by
  refine ⟨?_, (s.plain_lookup? v key).error⟩
  intro o ho w hw
  subst hw
  exact C.binding s v key w hs hv ho

end Objects

/-! ## Records of calls -/

section Records

variable {entries pairs : Entries}

theorem yields_entryOf (hs : C.inv s) (hv : C.held v) (position : Nat) :
    Yields (s.entryOf position v) fun e => C.held e.1 ∧ C.held e.2 := by
  unfold Store.entryOf
  split
  · exact ends_error rfl
  · rename_i t ht
    refine (all_traverse hs hv ht).result.yields.bind fun items hitems => ?_
    split
    · rename_i k w
      exact ends_ok ⟨hitems k (by simp), hitems w (by simp)⟩
    · exact ends_error rfl

theorem yields_entriesOf (hdone : ∀ w ∈ entries.parts, C.held w) (hpairs : ∀ e ∈ pairs, C.held e.1 ∧ C.held e.2) :
    Yields (s.entriesOf entries pairs) fun result => ∀ w ∈ result.parts, C.held w := by
  induction pairs generalizing entries with
  | nil => exact ends_ok hdone
  | cons e pairs ih =>
    obtain ⟨hk, hv⟩ := hpairs e List.mem_cons_self
    refine (s.plain_checkHashable e.1).yields.bind fun _ _ => ih ?_ fun e' he' => hpairs e' (List.mem_cons_of_mem _ he')
    intro w hw
    rcases Entries.mem_parts_put hw with rfl | rfl | hw
    · exact hk
    · exact hv
    · exact hdone w hw

theorem held_of_scope? {b p : Value} (hs : C.inv s) (hv : C.held v) (h : s.scope? v = some (b, p)) : C.held b := by
  unfold Store.scope? at h
  split at h
  · rename_i hc
    cases h
    exact held_part hs hv hc List.mem_cons_self
  · cases h

theorem yields_copiedEntries (hs : C.inv s) (hv : C.held v) :
    Yields (s.copiedEntries v) fun entries => ∀ w ∈ entries.parts, C.held w := by
  have hd : C.held (((s.scope? v).map Prod.fst).getD v) := by
    cases h : s.scope? v with
    | none => exact hv
    | some bp => exact held_of_scope? hs hv h
  unfold Store.copiedEntries
  simp only
  split
  · rename_i entries hentries
    exact ends_ok (held_mapping? hs hd hentries)
  · refine (gives_elements hs hv).yields.bind fun items hitems => ?_
    refine (ends_mapM (R := fun e => C.held e.1 ∧ C.held e.2) ?_).bind fun pairs hpairs => ?_
    · intro e he
      exact yields_entryOf hs (hitems e.1 (List.fst_mem_of_mem_zipIdx he)) e.2
    · exact yields_entriesOf (by simp [Entries.parts]) hpairs

theorem yields_frameOf (hs : C.inv s) (hv : C.held v) : Yields (s.frameOf v) fun f => C.held f.name := by
  refine (yields_copiedEntries hs hv).bind fun entries hentries => ends_ok ?_
  exact held_getD fun w hw => hentries w (Entries.mem_of_find? hw)

theorem held_stackOf {engine : Ref} (hs : C.inv s) (he : C.held (.ref engine)) (hopen : C.exposes engine) :
    C.held (s.stackOf engine) := by
  unfold Store.stackOf
  split
  · rename_i stack attrs hc
    exact C.stack s engine stack attrs hs he hopen hc
  · exact held_null

theorem yields_frames {engine : Ref} (hs : C.inv s) (he : C.held (.ref engine)) (hopen : C.exposes engine) :
    Yields (s.frames engine) fun frames => ∀ f ∈ frames, C.held f.name := by
  refine (gives_elements hs (held_stackOf hs he hopen)).yields.bind fun items hitems => ?_
  exact ends_mapM fun w hw => yields_frameOf hs (hitems w hw)

end Records

/-! ## Reading by path -/

theorem gives_readItem (hs : C.inv s) (hv : C.held v) (n : Nat) : Gives (s.readItem v n) C.held := by
  unfold Store.readItem
  split
  · refine ends_ok (held_getD fun w hw => ?_)
    obtain ⟨c, _, rfl⟩ := Option.map_eq_some_iff.1 hw
    exact held_text _
  · refine ends_ok (held_getD fun w hw => ?_)
    obtain ⟨b, _, rfl⟩ := Option.map_eq_some_iff.1 hw
    exact held_int _
  · split
    · rename_i hc
      exact ends_ok (held_getD fun w hw => held_part hs hv hc (List.mem_of_getElem? hw))
    · rename_i hc
      exact ends_ok (held_getD fun w hw => held_part hs hv hc (List.mem_of_getElem? hw))
    · rename_i hc
      split
      · exact ends_error rfl
      · exact ends_ok (held_getD fun w hw => held_part hs hv hc (List.mem_append_left _ (mem_of_lookup hw)))
    · exact ends_ok held_null

theorem gives_attribute? (hs : C.inv s) (hv : C.held v) {name : String} (hadmits : C.Admits v (.name name)) :
    Gives (s.attribute? v name) fun o => ∀ w, o = some (.stored w) → C.held w := by
  have hpart : ∀ (n : Int) w, Store.attribute?.numberPart name n = some (.stored w) → C.held w := by
    intro n w hw
    unfold Store.attribute?.numberPart at hw
    split at hw <;> cases hw <;> exact held_int _
  have hmethod : ∀ (o : Option Host.Method) w, o.map Reading.method = some (.stored w) → C.held w := by
    intro o w hw
    cases o <;> cases hw
  unfold Store.attribute?
  split
  · exact ends_ok (hpart _)
  · exact ends_ok (hpart _)
  · split
    · rename_i c hc
      split
      · split
        · exact ends_error rfl
        · exact ends_ok (by simp)
      · split
        · rename_i x hx
          refine ends_ok fun w hw => ?_
          cases hw
          rcases Cell.storedAttribute?_cases hx with hx | ⟨rfl, attrs, rfl⟩
          · exact held_part hs hv hc hx
          · cases v with
            | ref r => exact C.stack s r x attrs hs hv (hadmits r rfl rfl) hc
            | _ => cases hc
        · exact ends_ok (hmethod _)
    · exact ends_ok (hmethod _)

theorem held_rootValue {ctx : Context} (hctx : C.HeldContext ctx) (root : Root) : C.held (ctx.rootValue root) := by
  cases root with
  | this => exact hctx.1
  | scope => exact C.held_of_outer _ hctx.2.1
  | lastValue => exact hctx.2.2

/-! ## Reading scripts -/

section Scripts

variable {expression tag : Value} {params : List Value}

theorem gives_script (s : Store) (v : Value) :
    Gives (s.script v) fun form => form = .single v ∨ form = .sequence v := by
  unfold Store.script
  split
  · split
    · exact ends_ok (.inl rfl)
    · exact ends_ok (.inr rfl)
  · exact (s.plain_print v).bind fun _ _ => ends_error rfl

theorem gives_refuse {α : Type} {Q : α → Prop} (s : Store) (expression : Value) {cause : String → Cause}
    (h : ∀ shown, (cause shown).kind.isScript = true) :
    Gives (s.refuse expression cause) Q := by
  refine (s.plain_print expression).bind fun shown _ => ends_error ?_
  simp [Raised.isPlain, Raised.kind, Raised.about, h]

theorem plain_checkArity (s : Store) (expression : Value) (tag : String) (given least most : Nat) :
    Plain (s.checkArity expression tag given least most) := by
  unfold Store.checkArity
  split
  · exact gives_refuse s expression fun _ => rfl
  · split
    · exact gives_refuse s expression fun _ => rfl
    · exact plain_ok _

theorem gives_commandOf (h : ∀ w ∈ params, C.held w) :
    Gives (s.commandOf expression tag params) fun command => ∀ w ∈ command.parts, C.held w := by
  have hparam : ∀ i : Nat, C.held ((params[i]?).getD .null) :=
    fun i => held_getD fun w hw => h w (List.mem_of_getElem? hw)
  have harity : ∀ name least most, Plain (s.checkArity expression name params.length least most) :=
    fun name least most => plain_checkArity s expression name _ least most
  unfold Store.commandOf
  simp only
  split
  · refine (harity _ _ _).bind fun _ _ => ?_
    split
    · exact ends_ok (by simpa [Command.parts] using hparam 0)
    · rename_i args hargs
      split
      · refine ends_ok ?_
        simp only [Command.parts, Option.toList_some, List.mem_cons, List.not_mem_nil, or_false]
        rintro w (rfl | rfl)
        · exact hparam 0
        · exact h _ (List.mem_of_getElem? hargs)
      · exact gives_refuse s expression fun _ => rfl
  · exact (harity _ _ _).bind fun _ _ => ends_ok (by simpa [Command.parts] using hparam 0)
  · refine (harity _ _ _).bind fun _ _ => ?_
    split
    · exact ends_ok (by simpa [Command.parts] using ⟨hparam 0, hparam 1⟩)
    · exact gives_refuse s expression fun _ => rfl
  · refine (harity _ _ _).bind fun _ _ => ?_
    split
    · exact ends_ok (by simpa [Command.parts] using ⟨hparam 0, hparam 1⟩)
    · exact gives_refuse s expression fun _ => rfl
  · exact (harity _ _ _).bind fun _ _ => ends_ok (by simpa [Command.parts] using hparam 0)
  · exact (s.plain_print tag).bind fun _ _ => gives_refuse s expression fun _ => rfl

theorem gives_command (hs : C.inv s) (he : C.held expression) :
    Gives (s.command expression) fun command => ∀ w ∈ command.parts, C.held w := by
  unfold Store.command
  split
  · rename_i tag params hitems
    exact gives_commandOf fun w hw => held_list? hs he hitems w (List.mem_cons_of_mem _ hw)
  · exact gives_refuse s expression fun _ => rfl

theorem admits_of_ne {segment : Segment} (h : segment ≠ .name "call_stack") : C.Admits v segment :=
  fun _ _ hsegment => absurd hsegment h

theorem gives_needAttribute (hs : C.inv s) (hv : C.held v) {name : String} (hname : name ≠ "call_stack") :
    Gives (s.needAttribute v name) C.held := by
  refine (gives_attribute? hs hv (admits_of_ne (by simpa using hname))).bind fun o ho => ?_
  split
  · rename_i w
    exact ends_ok (ho w rfl)
  · exact ends_error rfl

end Scripts

/-! ## Changes -/

section Changes

variable {key value : Value}

theorem gives_setEntry (hs : C.inv s) (hv : C.held v) (hk : C.held key) (hw : C.held value) :
    Gives (s.setEntry v key value) C.inv := by
  unfold Store.setEntry
  split
  · rename_i r entries hd
    have hc : s.get? r = some (.dict entries) := by
      unfold Store.dict? at hd
      split at hd <;> cases hd
      assumption
    refine (s.plain_checkHashable key).bind fun _ _ => ends_ok ?_
    refine C.set s r _ _ hs hv hc trivial (.entry _ _ _ _) (fun w hput => ?_) trivial
    rcases Entries.mem_parts_put hput with rfl | rfl | hput
    · exact hk
    · exact hw
    · exact C.part s r _ w hs hv hc hput
  · refine ends_error ?_
    split <;> rfl

theorem gives_bind (hs : C.inv s) (hv : C.held v) (hk : C.held key) (hw : C.held value) :
    Gives (s.bind v key value) C.inv := by
  unfold Store.bind
  split
  · exact ends_error rfl
  · rename_i bindings parent hscope
    split
    · exact gives_setEntry hs (held_of_scope? hs hv hscope) hk hw
    · exact ends_error rfl

/-- The bindings of a scope take parameters, whether the scope itself is held or not. -/
theorem gives_bindParameters {scope b p : Value} (hb : C.held b) {names : List Value} :
    ∀ {s : Store} {args : List Value}, C.inv s → s.scope? scope = some (b, p) → (∀ w ∈ names, C.held w) →
      (∀ w ∈ args, C.held w) → Gives (s.bindParameters scope names args) C.inv := by
  induction names with
  | nil => intro s args hs _ _ _; exact ends_ok hs
  | cons name names ih =>
    intro s args hs hscope hnames hargs
    have hfirst : C.held (args.head?.getD .null) := held_getD fun w hw => hargs w (List.mem_of_mem_head? hw)
    have hbind : Gives (s.bind scope name (args.head?.getD .null)) C.inv := by
      rw [Store.bind, hscope]
      dsimp only
      split
      · exact gives_setEntry hs hb (hnames name List.mem_cons_self) hfirst
      · exact ends_error rfl
    refine hbind.andThen fun s' hs' hinv => ?_
    have hscope' := Store.scope?_of_bind hscope hs'
    exact ih hinv hscope' (fun w hw => hnames w (List.mem_cons_of_mem _ hw))
      fun w hw => hargs w (List.mem_of_mem_tail hw)

theorem gives_setAttribute (hs : C.inv s) (hv : C.held v) (hw : C.held value) {name : String}
    (hopens : ∀ c, s.cell? v = some c → c.IfEngine (C.Opens v)) (hadmits : C.Admits v (.name name))
    (htakes : C.Takes s v (.name name) value) : Gives (s.setAttribute v name value) C.inv := by
  unfold Store.setAttribute
  split
  · rename_i r c hc
    split
    · exact ends_error rfl
    · split
      · rename_i c' hset
        by_cases hname : ∃ stack attrs, c = .engine stack attrs ∧ name = "call_stack"
        · obtain ⟨stack, attrs, rfl, rfl⟩ := hname
          cases hset
          exact ends_ok (C.setStack s r stack attrs value hs hv (hadmits r rfl rfl) hc hw)
        · have hother : ∀ stack attrs, c = .engine stack attrs → name ≠ "call_stack" :=
            fun stack attrs hengine hstack => hname ⟨stack, attrs, hengine, hstack⟩
          refine ends_ok (C.set s r c c' hs hv hc ?_ (.named hset hother) (fun w hpart => ?_) ?_)
          · have hopen := hopens c hc
            cases c with
            | engine stack attrs => exact hopen r rfl
            | _ => trivial
          · rcases Cell.mem_fields_of_withAttribute? hset hpart with rfl | hpart
            · exact hw
            · exact C.part s r c w hs hv hc hpart
          · cases hc' : c' with
            | context ctx' attrs' =>
              rw [hc'] at hset
              obtain ⟨ctx, attrs, rfl, hsame | ⟨rfl, rfl⟩⟩ := Cell.withAttribute?_context hset
              · change C.outer ctx'.scope
                rw [hsame]
                exact outer_scope hs hv hc
              · exact htakes ctx attrs hc rfl
            | _ => trivial
      · exact ends_error rfl
  · exact ends_error rfl

theorem takes_of_ne {segment : Segment} (h : segment ≠ .name "variables") : C.Takes s v segment w :=
  fun _ _ _ hsegment => absurd hsegment h

theorem gives_writeItem (hs : C.inv s) (hv : C.held v) (hw : C.held value) (n : Nat) :
    Gives (s.writeItem v n value) C.inv := by
  unfold Store.writeItem
  split
  · rename_i r items attrs hc
    split
    · exact ends_error rfl
    · split
      · exact ends_error rfl
      · refine ends_ok (C.set s r _ _ hs hv hc trivial (.item items n value attrs) (fun w hpart => ?_) trivial)
        rcases List.mem_append.1 hpart with hpart | hpart
        · rcases mem_putItem hpart with rfl | hpart
          · exact hw
          · exact C.part s r _ w hs hv hc (List.mem_append_left _ hpart)
        · exact C.part s r _ w hs hv hc (List.mem_append_right _ hpart)
  · exact ends_error rfl

/-- Replacing the elements of a list that is held by held values. -/
theorem inv_setList {r : Ref} {items items' : List Value} {flavor : Flavor} (hs : C.inv s) (hr : C.held (.ref r))
    (hc : s.get? r = some (.list items flavor)) (h : ∀ w ∈ items', C.held w) : C.inv (s.set r (.list items' flavor)) :=
  C.set s r _ _ hs hr hc trivial (.items items items' flavor) h trivial

theorem gives_setElement {items : List Value} (h : ∀ w ∈ items, C.held w) (hw : C.held value) (n : Nat) :
    Gives (Store.setElement items n value) fun items' => ∀ w ∈ items', C.held w := by
  refine ⟨?_, ?_⟩
  · intro items' hset w hmem
    rcases mem_setElement hset hmem with rfl | rfl | hmem
    · exact hw
    · exact held_null
    · exact h w hmem
  · intro e hset
    unfold Store.setElement at hset
    split at hset
    · cases hset
    · split at hset
      · cases hset
        rfl
      · split at hset <;> cases hset
        rfl

theorem gives_writeField (hs : C.inv s) (hv : C.held v) (hw : C.held value) {segment : Segment}
    (hopens : C.Opens v) (hadmits : C.Admits v segment) (htakes : C.Takes s v segment value) :
    Gives (s.writeField v segment value) C.inv := by
  unfold Store.writeField
  split
  · exact gives_bind hs hv (held_text _) hw
  · split
    · rename_i r entries _ hc
      obtain ⟨hit, key, heq, hkey⟩ := Entries.setSegment_eq_put entries segment value
      rw [heq]
      refine ends_ok (C.set s r _ _ hs hv hc trivial (.entry hit key value entries) (fun w hput => ?_) trivial)
      rcases Entries.mem_parts_put hput with rfl | rfl | hput
      · exact C.immediate _ hkey
      · exact hw
      · exact C.part s r _ w hs hv hc hput
    · rename_i r items flavor _ hc
      split
      · exact ends_error rfl
      · have hitems : ∀ w ∈ items, C.held w := fun w hmem => C.part s r _ w hs hv hc hmem
        exact (gives_setElement hitems hw _).map fun items' hitems' => inv_setList hs hv hc hitems'
    · split
      · exact (s.plain_print _).bind fun _ _ => ends_error rfl
      · split
        · exact gives_writeItem hs hv hw _
        · split
          · exact ends_error rfl
          · refine gives_setAttribute hs hv hw (fun c _ => ?_) hadmits htakes
            cases c <;> first | exact hopens | trivial

end Changes

/-! ## The stack of active calls -/

section Stack

variable {engine : Ref}

theorem yields_updateStack {f : List Value → Except Raised (List Value)} (hs : C.inv s) (he : C.held (.ref engine))
    (hopen : C.exposes engine) (hf : ∀ items, (∀ w ∈ items, C.held w) → Yields (f items) fun items' => ∀ w ∈ items', C.held w)
    (operation : String) : Yields (s.updateStack engine operation f) C.inv := by
  have hstack := held_stackOf hs he hopen
  unfold Store.updateStack
  simp only
  split
  · rename_i r items flavor hr hc
    rw [hr] at hstack
    refine (hf items fun w hw => held_part hs (hr ▸ hstack) hc hw).map fun items' hitems' => ?_
    rw [hr] at hc
    exact inv_setList hs hstack hc hitems'
  · exact ends_error rfl

theorem yields_popFrame (hs : C.inv s) (he : C.held (.ref engine)) (hopen : C.exposes engine) :
    Yields (s.popFrame engine) C.inv := by
  unfold Store.popFrame
  split
  · exact ends_error rfl
  · refine yields_updateStack hs he hopen ?_ "pop"
    intro items hitems
    split
    · exact ends_error rfl
    · exact ends_ok fun w hw => hitems w (List.dropLast_subset _ hw)

end Stack

end Custody

namespace Discipline

variable (D : Discipline)

/-- A value is held at a stage. -/
abbrev Held (i : D.Stage) (v : Value) : Prop := (D.custody i).held v

/-- All the values of a list are held at a stage. -/
abbrev HeldAll (i : D.Stage) (vs : List Value) : Prop := ∀ v ∈ vs, D.Held i v

/-- At a later stage a store has the property, and something holds there. -/
def Later (i : D.Stage) (s : Store) (Q : D.Stage → Prop) : Prop := ∃ j, D.le i j ∧ (D.custody j).inv s ∧ Q j

variable {D} {i j : D.Stage} {s t : Store} {v w : Value}

section Later

variable {Q R : D.Stage → Prop}

theorem later_self (hs : (D.custody i).inv s) (h : Q i) : D.Later i s Q := ⟨i, D.refl i, hs, h⟩

theorem Later.trans (h : D.Later j s Q) (hij : D.le i j) : D.Later i s Q := by
  obtain ⟨k, hjk, hs, hk⟩ := h
  exact ⟨k, D.trans hij hjk, hs, hk⟩

theorem Later.imp (h : D.Later i s Q) (hQ : ∀ j, D.le i j → Q j → R j) : D.Later i s R := by
  obtain ⟨j, hij, hs, hj⟩ := h
  exact ⟨j, hij, hs, hQ j hij hj⟩

end Later

theorem heldContext_mono {ctx : Context} (hij : D.le i j) (h : (D.custody i).HeldContext ctx) :
    (D.custody j).HeldContext ctx :=
  ⟨D.mono hij h.1, D.outer_mono hij h.2.1, D.mono hij h.2.2⟩

/-! ## New objects -/

section Allocation

variable {items : List Value} {entries : Entries}

theorem later_alloc {c : Cell} (hs : (D.custody i).inv s) (h : ∀ w ∈ c.contents, D.Held i w)
    (hcaptures : c.Captures (D.custody i).outer) (hc : c.scope? = none) :
    D.Later i (s.alloc c).2 fun j => D.Held j (.ref (s.alloc c).1) := by
  obtain ⟨j, hij, hs', hheld⟩ := D.alloc i s c hs h hcaptures
  exact ⟨j, hij, hs', hheld hc⟩

theorem later_allocList (hs : (D.custody i).inv s) (h : ∀ w ∈ items, D.Held i w) :
    D.Later i (s.allocList items).2 fun j => D.Held j (s.allocList items).1 :=
  later_alloc (c := .list items .plain) hs h trivial rfl

theorem later_allocDict (hs : (D.custody i).inv s) (h : ∀ w ∈ entries.parts, D.Held i w) :
    D.Later i (s.allocDict entries).2 fun j => D.Held j (s.allocDict entries).1 :=
  later_alloc (c := .dict entries) hs h trivial rfl

/-- A new scope below anything that is held: its bindings are held. -/
theorem later_allocEmptyScope (hs : (D.custody i).inv s) (hv : D.Held i v) :
    D.Later i (s.allocEmptyScope v).2 fun j => D.Held j (s.allocDict []).1 := by
  obtain ⟨j, hij, hs', hb⟩ := @later_allocDict D i s [] hs (by simp [Entries.parts])
  have hscope : ∀ w ∈ [(s.allocDict []).1, v], D.Held j w := by
    simpa using ⟨hb, D.mono hij hv⟩
  obtain ⟨k, hjk, hs'', -⟩ := D.alloc j _ (.scope (s.allocDict []).1 v) hs' hscope trivial
  exact ⟨k, D.trans hij hjk, hs'', D.mono hjk hb⟩

theorem later_allocClosure {params body : Value} {ctx : Context} {engine : Ref} (hs : (D.custody i).inv s)
    (hp : D.Held i params) (hb : D.Held i body) (hctx : (D.custody i).HeldContext ctx)
    (he : D.Held i (.ref engine)) :
    D.Later i (s.allocClosure params body ctx engine).2 fun j =>
      D.Held j (s.allocClosure params body ctx engine).1 := by
  have hcontext : ∀ w ∈ (Cell.context ctx []).contents, D.Held i w := by
    simpa [Cell.contents, Cell.parts] using ⟨hctx.1, (D.custody i).held_of_outer _ hctx.2.1, hctx.2.2⟩
  obtain ⟨j, hij, hs', hc⟩ := later_alloc (c := .context ctx []) hs hcontext hctx.2.1 rfl
  have hclosure : ∀ w ∈ [params, body, .ref (s.alloc (.context ctx [])).1, .ref engine], D.Held j w := by
    simpa using ⟨D.mono hij hp, D.mono hij hb, hc, D.mono hij he⟩
  exact Later.trans (later_alloc (c := .closure ⟨params, body, .ref _, .ref engine⟩ []) hs' hclosure trivial rfl) hij

theorem later_allocFor (hs : (D.custody i).inv s) (segment : Segment) :
    D.Later i (s.allocFor segment).2 fun j => D.Held j (s.allocFor segment).1 := by
  unfold Store.allocFor
  split
  · exact later_allocList hs (by simp)
  · exact later_allocDict hs (by simp [Entries.parts])

theorem later_allocNan (hs : (D.custody i).inv s) : D.Later i s.allocNan.2 fun _ => True :=
  Later.imp (later_alloc (c := .tuple []) hs (by simp [Cell.contents, Cell.parts]) trivial rfl) fun _ _ _ => trivial

end Allocation

/-! ## Reading by path -/

theorem later_materialize (hs : (D.custody i).inv s) (hv : D.Held i v) {reading : Reading}
    (h : ∀ w, reading = .stored w → D.Held i w) :
    D.Later i (s.materialize v reading).2 fun j => D.Held j (s.materialize v reading).1 := by
  cases reading with
  | stored w => exact later_self hs (h w rfl)
  | method m => exact later_alloc (c := .method v m) hs (by simpa [Cell.contents, Cell.parts] using hv) trivial rfl

theorem gives_readField (hs : (D.custody i).inv s) (hv : D.Held i v) {segment : Segment}
    (hadmits : (D.custody i).Admits v segment) :
    Gives (s.readField v segment) fun p => D.Later i p.2 fun j => D.Held j p.1 := by
  unfold Store.readField
  split
  · exact (Custody.gives_lookup? hs hv _).bind fun o ho => ends_ok (later_self hs (Custody.held_getD ho))
  · split
    · rename_i entries hentries
      refine ends_ok (later_self hs (Custody.held_getD fun w hw => ?_))
      exact Custody.held_mapping? hs hv hentries w (Entries.mem_of_atSegment hw)
    · split
      · exact (Custody.gives_readItem hs hv _).map fun w hw => later_self hs hw
      · split
        · exact ends_ok (later_self hs Custody.held_null)
        · refine (Custody.gives_attribute? hs hv hadmits).bind fun o ho => ?_
          cases o with
          | none => exact ends_ok (later_self hs Custody.held_null)
          | some reading => exact ends_ok (later_materialize hs hv fun w hw => ho w (by rw [hw]))

theorem admitsAll_mono {visits : List Visit} (hij : D.le i j) (h : (D.custody i).AdmitsAll visits) :
    (D.custody j).AdmitsAll visits :=
  fun u hu r hr hsegment => D.exposed hij (h u hu r hr hsegment)

theorem gives_readBelow (segments : List Segment) : ∀ {i : D.Stage} {s : Store} {v : Value}, (D.custody i).inv s →
    D.Held i v → (D.custody i).AdmitsAll (s.walk v segments) →
    Gives (s.readBelow v segments) fun p => D.Later i p.2 fun j => D.Held j p.1 := by
  induction segments with
  | nil => intro i s v hs hv _; exact ends_ok (later_self hs hv)
  | cons segment rest ih =>
    intro i s v hs hv hadmits
    unfold Store.readBelow
    split
    · exact ends_ok (later_self hs Custody.held_null)
    · refine (gives_readField hs hv (hadmits _ List.mem_cons_self)).andThen fun p hfield hp => ?_
      obtain ⟨j, hij, hs', hw⟩ := hp
      have hrest : (D.custody i).AdmitsAll (p.2.walk p.1 rest) := by
        intro u hu
        refine hadmits u (List.mem_cons_of_mem _ ?_)
        rw [hfield]
        exact hu
      exact (ih hs' hw (admitsAll_mono hij hrest)).mono fun q hq => hq.trans hij

theorem gives_read {ctx : Context} {p : Path} (hs : (D.custody i).inv s) (hctx : (D.custody i).HeldContext ctx)
    (hadmits : (D.custody i).AdmitsAll (s.walk (ctx.rootValue p.root) p.segments)) :
    Gives (s.read p ctx) fun q => D.Later i q.2 fun j => D.Held j q.1 :=
  gives_readBelow p.segments hs (Custody.held_rootValue hctx p.root) hadmits

/-! ## Writing by path -/

/-- A write that makes a container on its way puts it in place of something that may be replaced. -/
theorem takes_allocFor {segment below : Segment} {old : Value} (hs : (D.custody i).inv s) (hv : D.Held i v)
    (hread : s.readField v segment = .ok (old, t)) (hold : (old = .null || old.isScalar) = true) (hij : D.le i j)
    (hw : D.Held j w) : (D.custody j).Takes (t.allocFor below).2 v segment w := by
  rintro ctx attrs hc rfl
  obtain rfl := Store.readField_store hread (by simp [Value.leadsOn, hold])
  have hcontext := Store.cell?_of_allocFor hc
  rw [Store.readField_variables hcontext] at hread
  cases hread
  exact (D.custody j).replaceable _ w (D.outer_mono hij (Custody.outer_scope hs hv hcontext)) hold hw

theorem opensAll_mono {visits : List Visit} (hij : D.le i j) (h : (D.custody i).OpensAll visits) :
    (D.custody j).OpensAll visits :=
  fun u hu r hr => D.opened hij (h u hu r hr)

theorem takesLast_mono {visits : List Visit} (hij : D.le i j) (h : (D.custody i).TakesLast visits w) :
    (D.custody j).TakesLast visits w :=
  fun u hu ctx attrs hc hsegment => D.outer_mono hij (h u hu ctx attrs hc hsegment)

/-- A write keeps the property, also when it is refused on the way. -/
theorem later_assignBelow {value : Value} (rest : List Segment) : ∀ {i : D.Stage} {s : Store} {v : Value}
    {segment : Segment}, (D.custody i).inv s → D.Held i v → D.Held i value →
    (D.custody i).OpensAll (s.visits v segment rest) → (D.custody i).AdmitsAll (s.visits v segment rest) →
    (D.custody i).TakesLast (s.visits v segment rest) value →
    D.Later i (s.assignBelow v value segment rest).1 fun _ =>
      ∀ e, (s.assignBelow v value segment rest).2 = some e → e.isPlain = true := by
  induction rest with
  | nil =>
    intro i s v segment hs hv hw hopens hadmits htakes
    have hwrite := Custody.gives_writeField hs hv hw (hopens _ (List.mem_singleton.2 rfl))
      (hadmits _ (List.mem_singleton.2 rfl)) (htakes _ rfl)
    unfold Store.assignBelow
    cases h : s.writeField v segment value with
    | ok s' => exact later_self (hwrite.value s' h) (by simp)
    | error e => exact later_self hs (by simpa using hwrite.error e h)
  | cons below rest ih =>
    intro i s v segment hs hv hw hopens hadmits htakes
    have hhere : (D.custody i).Admits v segment := hadmits _ List.mem_cons_self
    have hhere' : (D.custody i).Opens v := hopens _ List.mem_cons_self
    have hread := gives_readField hs hv hhere
    have hvisits := fun u hu => hadmits u (List.mem_cons_of_mem _ hu)
    have hvisits' := fun u hu => hopens u (List.mem_cons_of_mem _ hu)
    have hlast : ∀ u, List.getLast? (s.visits v segment (below :: rest)).tail = some u →
        (D.custody i).Takes u.store u.container u.segment value := by
      intro u hu
      refine htakes u ?_
      rw [Store.visits] at hu ⊢
      rw [List.tail_cons] at hu
      rw [List.getLast?_cons, hu, Option.getD_some]
    rw [Store.visits, List.tail_cons] at hlast
    unfold Store.assignBelow
    cases h : s.readField v segment with
    | error e => exact later_self hs (by simpa using hread.error e h)
    | ok p =>
      obtain ⟨child, t⟩ := p
      obtain ⟨j, hij, ht, hchild⟩ := hread.value _ h
      rw [h] at hvisits hvisits' hlast
      dsimp only at hvisits hvisits' hlast ⊢
      split
      · rename_i hscalar
        rw [if_pos hscalar] at hvisits hvisits' hlast
        obtain ⟨k, hjk, ht', hfresh⟩ := later_allocFor ht below
        have hik := D.trans hij hjk
        have hwrite := Custody.gives_writeField ht' (D.mono hik hv) hfresh
          (fun r hr => D.opened hik (hhere' r hr)) (fun r hr hsegment => D.exposed hik (hhere r hr hsegment))
          (takes_allocFor hs hv h hscalar hik hfresh)
        cases h' : (t.allocFor below).2.writeField v segment (t.allocFor below).1 with
        | error e => exact (later_self ht' (by simpa using hwrite.error e h')).trans hik
        | ok t' =>
          rw [h'] at hvisits hvisits' hlast
          exact (ih (hwrite.value t' h') hfresh (D.mono hik hw) (opensAll_mono hik hvisits') (admitsAll_mono hik hvisits)
            (takesLast_mono hik hlast)).trans hik
      · rename_i hother
        rw [if_neg hother] at hvisits hvisits' hlast
        exact (ih ht hchild (D.mono hij hw) (opensAll_mono hij hvisits') (admitsAll_mono hij hvisits)
          (takesLast_mono hij hlast)).trans hij

theorem later_assign {ctx : Context} {p : Path} (hs : (D.custody i).inv s) (hctx : (D.custody i).HeldContext ctx)
    (hw : D.Held i w) (hopens : p.root ≠ .lastValue → (D.custody i).OpensAll (s.route p ctx))
    (hadmits : p.root ≠ .lastValue → (D.custody i).AdmitsAll (s.route p ctx))
    (htakes : p.root ≠ .lastValue → (D.custody i).TakesLast (s.route p ctx) w) :
    D.Later i (s.assign p w ctx).1 fun _ => ∀ e, (s.assign p w ctx).2 = some e → e.isPlain = true := by
  unfold Store.assign
  unfold Store.route at hopens hadmits htakes
  split
  · exact later_self hs (by simp [Raised.isPlain, Raised.kind, Cause.kind, Kind.isScript])
  · rename_i hroot
    cases hp : p.segments with
    | nil => exact later_self hs (by simp [Raised.isPlain, Raised.kind, Cause.kind, Kind.isScript])
    | cons segment rest =>
      rw [hp] at hopens hadmits htakes
      dsimp only
      split
      · exact later_self hs (by simp [Raised.isPlain, Raised.kind, Cause.kind, Kind.isScript])
      · exact later_assignBelow rest hs (Custody.held_rootValue hctx p.root) hw (hopens hroot) (hadmits hroot)
          (htakes hroot)

/-! ## Calls -/

theorem later_pushFrame {engine : Ref} {name args : Value} (hs : (D.custody i).inv s)
    (he : D.Held i (.ref engine)) (hopen : (D.custody i).exposes engine) (hname : D.Held i name)
    (hargs : D.Held i args) : Yields (s.pushFrame engine name args) fun s' => D.Later i s' fun _ => True := by
  have hentries : ∀ w ∈ Entries.parts [(.text "name", name), (.text "args", args)], D.Held i w := by
    simpa [Entries.parts] using ⟨hname, hargs⟩
  obtain ⟨j, hij, hs', hframe⟩ := later_allocDict hs hentries
  have hpush := Custody.yields_updateStack (f := fun items => .ok (items ++ [(s.allocDict _).1])) hs' (D.mono hij he)
    (D.exposed hij hopen) (fun items hitems => ends_ok (by
      intro w hw
      rcases List.mem_append.1 hw with hw | hw
      · exact hitems w hw
      · rw [List.mem_singleton.1 hw]; exact hframe)) "append"
  exact hpush.mono fun s' hs'' => ⟨j, hij, hs'', trivial⟩

end Discipline

end ListScript
