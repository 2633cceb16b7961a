import ListScript.Proofs.Discipline

/-!
# Effects that uphold a discipline

An effect upholds a discipline if it keeps the property of the store, whether it ends with a value or with an error, and
hands on only what is held. It may add objects and so move on to a later stage; an effect that stays where it is ends
`At` the stage where it started. The rules for the parts of effects give this for every function and method of the host
that does not call back (`Discipline.upholds_function`, `Discipline.upholds_method`).

An error of the host may bring a record of calls along. A discipline that goes by such records, as a run with functions
of the host needs it, is one that `RulesHost`.
-/

namespace ListScript

open Effect

namespace Discipline

variable (D : Discipline)

/-- What a discipline asks of how an effect ends. -/
def Allows {α : Type} (i : D.Stage) (Q : D.Stage → α → Prop) : Outcome α → Prop
  | .value a st => D.Later i st.store fun j => Q j a
  | .raised e st => D.Later i st.store fun j => D.fault j e
  | .exhausted => True

/-- The effect keeps the property of a discipline, and its value satisfies `Q` at the stage where it ends. -/
def Upholds {α : Type} (i : D.Stage) (act : Effect α) (Q : D.Stage → α → Prop) : Prop :=
  ∀ st, (D.custody i).inv st.store → D.Allows i Q (act st)

/-- Something holds at the stage `i` itself. -/
def At {α : Type} (i : D.Stage) (Q : α → Prop) (j : D.Stage) (a : α) : Prop := j = i ∧ Q a

/-- The errors that a discipline allows are those with a record of held names. -/
def RulesHost : Prop := ∀ i e, D.fault i e ↔ (D.custody i).HeldError e

variable {D} {i : D.Stage}

theorem RulesHost.fault_of_none (hD : D.RulesHost) {e : Raised} (h : e.stack = none) : D.fault i e :=
  (hD i e).2 (Custody.heldError_of_none h)

/-! ## Rules -/

section Rules

variable {α β : Type} {act : Effect α} {Q : D.Stage → α → Prop} {P : α → Prop} {R : D.Stage → β → Prop}

theorem Allows.trans {out : Outcome α} {j : D.Stage} (h : D.Allows j Q out) (hij : D.le i j) : D.Allows i Q out := by
  cases out with
  | value a st => exact Later.trans h hij
  | raised e st => exact Later.trans h hij
  | exhausted => trivial

theorem upholds_pure {a : α} (h : Q i a) : D.Upholds i (pure a) Q := fun _ hs => later_self hs h

theorem upholds_raise {e : Raised} (h : D.fault i e) : D.Upholds i (raise e) Q := fun _ hs => later_self hs h

theorem upholds_exhaust : D.Upholds i exhaust Q := fun _ _ => trivial

theorem Upholds.bind {f : α → Effect β} (h : D.Upholds i act Q)
    (hf : ∀ j a, D.le i j → Q j a → D.Upholds j (f a) R) : D.Upholds i (act >>= f) R := by
  intro st hs
  change D.Allows i R (Effect.bind act f st)
  have hact := h st hs
  unfold Effect.bind
  cases hst : act st with
  | value a st' =>
    rw [hst] at hact
    obtain ⟨j, hij, hs', ha⟩ := hact
    exact (hf j a hij ha st' hs').trans hij
  | raised e st' =>
    rw [hst] at hact
    exact hact
  | exhausted => trivial

/-- After an effect that stays at its stage. -/
theorem Upholds.keep {f : α → Effect β} (h : D.Upholds i act (D.At i P)) (hf : ∀ a, P a → D.Upholds i (f a) R) :
    D.Upholds i (act >>= f) R := by
  refine h.bind fun j a _ ha => ?_
  obtain ⟨rfl, ha⟩ := ha
  exact hf a ha

theorem Allows.here {out : Outcome α} (h : D.Allows i (D.At i P) out) (hP : ∀ a, P a → Q i a) : D.Allows i Q out := by
  cases out with
  | value a st =>
    refine Later.imp h fun j _ ha => ?_
    obtain ⟨rfl, ha⟩ := ha
    exact hP a ha
  | raised e st => exact h
  | exhausted => trivial

/-- An effect that stays at its stage gives what is held there. -/
theorem Upholds.here (h : D.Upholds i act (D.At i P)) (hP : ∀ a, P a → Q i a) : D.Upholds i act Q :=
  fun st hs => (h st hs).here hP

theorem Upholds.attempt (h : D.Upholds i act Q) :
    D.Upholds i (attempt act) fun j result =>
      (∀ a, result = .ok a → Q j a) ∧ ∀ e, result = .error e → D.fault j e := by
  intro st hs
  have hact := h st hs
  unfold Effect.attempt
  cases hst : act st with
  | value a st' =>
    rw [hst] at hact
    refine Later.imp hact fun j _ ha => ⟨?_, ?_⟩
    · rintro a' ⟨⟩
      exact ha
    · rintro e ⟨⟩
  | raised e st' =>
    rw [hst] at hact
    refine Later.imp hact fun j _ he => ⟨?_, ?_⟩
    · rintro a ⟨⟩
    · rintro e' ⟨⟩
      exact he
  | exhausted => trivial

theorem upholds_store : D.Upholds i store (D.At i (D.custody i).inv) := fun _ hs => later_self hs ⟨rfl, hs⟩

theorem upholds_ofExcept {x : Except Raised α} (h : ∀ a, x = .ok a → Q i a) (he : ∀ e, x = .error e → D.fault i e) :
    D.Upholds i (ofExcept x) Q := by
  cases x with
  | ok a => exact upholds_pure (h a rfl)
  | error e => exact upholds_raise (he e rfl)

/-- A question whose errors are allowed. -/
theorem upholds_ask_of {f : Store → Except Raised α} (h : ∀ s, (D.custody i).inv s → Ends (D.fault i) (f s) P) :
    D.Upholds i (ask f) (D.At i P) := by
  intro st hs
  unfold Effect.ask
  cases hf : f st.store with
  | ok a => exact later_self hs ⟨rfl, (h _ hs).value a hf⟩
  | error e => exact later_self hs ((h _ hs).error e hf)

theorem upholds_ask {f : Store → Except Raised α} (h : ∀ s, (D.custody i).inv s → Gives (f s) P) :
    D.Upholds i (ask f) (D.At i P) :=
  upholds_ask_of fun s hs => ⟨(h s hs).value, fun e he => D.plain i e ((h s hs).error e he)⟩

/-- A question to a state at hand, and what follows it. -/
theorem allows_bind_ask {f : Store → Except Raised α} {g : α → Effect β} {st : State} (hs : (D.custody i).inv st.store)
    (h : Gives (f st.store) P) (hg : ∀ a, f st.store = .ok a → P a → D.Allows i R (g a st)) :
    D.Allows i R ((ask f >>= g) st) := by
  change D.Allows i R (Effect.bind (ask f) g st)
  unfold Effect.bind Effect.ask
  cases hf : f st.store with
  | ok a => exact hg a hf (h.value a hf)
  | error e => exact later_self (Q := fun j => D.fault j e) hs (D.plain i e (h.error e hf))

/-- A change of a state at hand, and what follows it. -/
theorem allows_bind_change {f : Store → Except Raised Store} {g : Unit → Effect β} {st : State}
    (hs : (D.custody i).inv st.store) (h : Gives (f st.store) (D.custody i).inv)
    (hg : ∀ s, f st.store = .ok s → (D.custody i).inv s → D.Allows i R (g () { st with store := s })) :
    D.Allows i R ((change f >>= g) st) := by
  change D.Allows i R (Effect.bind (change f) g st)
  unfold Effect.bind Effect.change
  cases hf : f st.store with
  | ok s => exact hg s hf (h.value s hf)
  | error e => exact later_self (Q := fun j => D.fault j e) hs (D.plain i e (h.error e hf))

theorem RulesHost.ends (hD : D.RulesHost) {x : Except Raised α} (h : Yields x P) : Ends (D.fault i) x P :=
  ⟨h.value, fun e he => hD.fault_of_none (h.error e he)⟩

/-- A change whose errors are allowed, and which may add objects. -/
theorem upholds_change_of {f : Store → Except Raised Store} {Q : D.Stage → Unit → Prop}
    (h : ∀ s, (D.custody i).inv s → Ends (D.fault i) (f s) fun s' => D.Later i s' fun j => Q j ()) :
    D.Upholds i (change f) Q := by
  intro st hs
  unfold Effect.change
  cases hf : f st.store with
  | ok s' => exact (h _ hs).value s' hf
  | error e => exact later_self hs ((h _ hs).error e hf)

theorem upholds_change {f : Store → Except Raised Store} (h : ∀ s, (D.custody i).inv s → Gives (f s) (D.custody i).inv) :
    D.Upholds i (change f) (D.At i fun _ => True) :=
  upholds_change_of fun s hs =>
    ⟨fun s' hs' => later_self ((h s hs).value s' hs') ⟨rfl, trivial⟩, fun e he => D.plain i e ((h s hs).error e he)⟩

theorem upholds_extend {f : Store → α × Store}
    (h : ∀ s, (D.custody i).inv s → D.Later i (f s).2 fun j => Q j (f s).1) : D.Upholds i (extend f) Q :=
  fun _ hs => h _ hs

theorem upholds_element? {list : Value} (hl : D.Held i list) (n : Nat) :
    D.Upholds i (element? list n) (D.At i fun o => ∀ v, o = some v → D.Held i v) := by
  refine fun st hs => later_self hs ⟨rfl, fun v hv => ?_⟩
  have hmem := List.mem_of_getElem? hv
  cases h : st.store.list? list with
  | none => rw [h] at hmem; cases hmem
  | some items => rw [h] at hmem; exact Custody.held_list? hs hl h v hmem

theorem upholds_trace (line : String) : D.Upholds i (trace line) (D.At i fun _ => True) := by
  refine fun st hs => later_self ?_ ⟨rfl, trivial⟩
  split <;> exact hs

end Rules

/-! ## Lists of held values -/

section Lists

variable {args more : List Value} {v w : Value} {j : D.Stage}

theorem held_arg (h : D.HeldAll i args) (n : Nat) : D.Held i (Host.arg args n) :=
  Custody.held_getD fun v hv => h v (List.mem_of_getElem? hv)

theorem heldAll_mono (hij : D.le i j) (h : D.HeldAll i args) : D.HeldAll j args := fun v hv => D.mono hij (h v hv)

theorem heldAll_drop (h : D.HeldAll i args) (n : Nat) : D.HeldAll i (args.drop n) :=
  fun v hv => h v (List.mem_of_mem_drop hv)

theorem heldAll_take (h : D.HeldAll i args) (n : Nat) : D.HeldAll i (args.take n) :=
  fun v hv => h v (List.mem_of_mem_take hv)

theorem heldAll_nil : D.HeldAll i [] := fun _ hv => absurd hv List.not_mem_nil

theorem heldAll_cons (hv : D.Held i v) (h : D.HeldAll i args) : D.HeldAll i (v :: args) :=
  List.forall_mem_cons.2 ⟨hv, h⟩

theorem heldAll_singleton (hv : D.Held i v) : D.HeldAll i [v] := heldAll_cons hv heldAll_nil

theorem heldAll_pair (hv : D.Held i v) (hw : D.Held i w) : D.HeldAll i [v, w] := heldAll_cons hv (heldAll_singleton hw)

theorem heldAll_reverse (h : D.HeldAll i args) : D.HeldAll i args.reverse := fun v hv => h v (List.mem_reverse.1 hv)

theorem heldAll_append (h : D.HeldAll i args) (hmore : D.HeldAll i more) : D.HeldAll i (args ++ more) :=
  List.forall_mem_append.2 ⟨h, hmore⟩

theorem upholds_newList (h : D.HeldAll i args) : D.Upholds i (Host.newList args) D.Held :=
  upholds_extend fun _ hs => later_allocList hs h

end Lists

variable (hD : D.RulesHost)

include hD

theorem upholds_fault {α : Type} {Q : D.Stage → α → Prop} (kind : Kind) (text : String) :
    D.Upholds i (Host.fault kind text) Q :=
  upholds_raise (hD.fault_of_none rfl)

/-! ## Functions of the host -/

section Functions

variable {args : List Value}

theorem upholds_integerArg (name : String) (v : Value) :
    D.Upholds i (Host.integerArg name v) (D.At i fun _ => True) := by
  cases v with
  | int n => exact upholds_pure ⟨rfl, trivial⟩
  | _ => exact upholds_fault hD _ _

theorem upholds_needCallable (name : String) (f : Value) :
    D.Upholds i (Host.needCallable name f) (D.At i fun _ => True) := by
  refine upholds_store.keep fun s _ => ?_
  split
  · exact upholds_pure ⟨rfl, trivial⟩
  · exact upholds_fault hD _ _

theorem upholds_needList (name : String) (v : Value) : D.Upholds i (Host.needList name v) (D.At i fun _ => True) := by
  refine upholds_store.keep fun s _ => ?_
  split
  · exact upholds_pure ⟨rfl, trivial⟩
  · exact upholds_fault hD _ _

theorem upholds_sum (name : String) (args : List Value) :
    D.Upholds i (Host.sum name args) (D.At i fun _ => True) := by
  induction args with
  | nil => exact upholds_pure ⟨rfl, trivial⟩
  | cons v rest ih =>
    exact (upholds_integerArg hD name v).keep fun _ _ => ih.keep fun _ _ => upholds_pure ⟨rfl, trivial⟩

theorem upholds_joined (args : List Value) : D.Upholds i (Host.joined args) (D.At i fun _ => True) := by
  induction args with
  | nil => exact upholds_pure ⟨rfl, trivial⟩
  | cons v rest ih =>
    cases v with
    | str t flavor => exact ih.keep fun _ _ => upholds_pure ⟨rfl, trivial⟩
    | _ => exact upholds_fault hD _ _

omit hD in
theorem held_alternating (h : D.HeldAll i args) :
    ∀ e ∈ Host.alternating args, D.Held i e.1 ∧ D.Held i e.2 := by
  fun_induction Host.alternating args with
  | case1 => simp
  | case2 k => simpa using h k List.mem_cons_self
  | case3 k v rest ih =>
    obtain ⟨hk, h⟩ := List.forall_mem_cons.1 h
    obtain ⟨hv, h⟩ := List.forall_mem_cons.1 h
    exact List.forall_mem_cons.2 ⟨⟨hk, hv⟩, ih h⟩

omit hD in
/-- The elements of a list that is held are replaced by held values. -/
theorem gives_replace {s : Store} {list : Value} (hs : (D.custody i).inv s) (hl : D.Held i list)
    {f : List Value → List Value} (hf : ∀ items, D.HeldAll i items → D.HeldAll i (f items)) :
    Gives (match list, s.cell? list with
      | .ref r, some (.list old flavor) => .ok (s.set r (.list (f old) flavor))
      | _, _ => .ok s) (D.custody i).inv := by
  split
  · rename_i r old flavor hc
    exact ends_ok (Custody.inv_setList hs hl hc (hf old fun w hw => (D.custody i).part s r _ w hs hl hc hw))
  · exact ends_ok hs

theorem upholds_pushAll (name : String) {list : Value} {items : List Value} (hl : D.Held i list)
    (h : D.HeldAll i items) : D.Upholds i (Host.pushAll name list items) (D.At i fun _ => True) := by
  refine (upholds_needList hD name list).keep fun _ _ => upholds_change fun s hs => ?_
  exact gives_replace hs hl (f := fun old => old ++ items) fun old hold => heldAll_append hold h

theorem upholds_kindOf (v : Value) : D.Upholds i (Host.kindOf v) (D.At i fun _ => True) := by
  refine upholds_store.keep fun s _ => ?_
  split
  · exact upholds_pure ⟨rfl, trivial⟩
  · refine (upholds_ask fun s _ => s.plain_checkHashable v).keep fun _ _ => ?_
    split
    · exact upholds_pure ⟨rfl, trivial⟩
    · exact (upholds_ask fun s _ => s.plain_inspect v).keep fun _ _ => upholds_raise (hD.fault_of_none rfl)

omit hD in
theorem upholds_errorText (v : Value) : D.Upholds i (Host.errorText v) (D.At i fun _ => True) := by
  unfold Host.errorText
  split
  · exact upholds_pure ⟨rfl, trivial⟩
  · exact upholds_pure ⟨rfl, trivial⟩
  · exact upholds_ask fun s _ => s.plain_print _

omit hD in
theorem upholds_ownStack (kind : Kind) :
    D.Upholds i (Host.ownStack kind) fun j stack => ∀ frames, stack = some frames → ∀ f ∈ frames, D.Held j f.name := by
  unfold Host.ownStack
  split
  · refine (upholds_newList (heldAll_pair (Custody.held_int 1) (Custody.held_int 2))).bind fun j inner _ hinner => ?_
    refine (upholds_newList (heldAll_pair (Custody.held_text "x") hinner)).bind fun k args _ _ => upholds_pure ?_
    rintro frames ⟨⟩ f hf
    simp only [List.mem_cons, List.not_mem_nil, or_false] at hf
    rcases hf with rfl | rfl <;> exact Custody.held_text _
  · refine upholds_pure ?_
    rintro frames ⟨⟩ f hf
    cases hf
  · refine upholds_pure ?_
    rintro frames ⟨⟩

theorem upholds_failAs (kind : Kind) (text : String) : D.Upholds i (Host.failAs kind text) D.Held :=
  (upholds_ownStack kind).bind fun j _ _ hstack => upholds_raise ((hD j _).2 hstack)

theorem upholds_failWith (kind text : Value) : D.Upholds i (Host.failWith kind text) D.Held := by
  refine (upholds_kindOf hD kind).keep fun kind _ => (upholds_errorText text).keep fun text _ => ?_
  exact upholds_failAs hD kind text

omit hD in
theorem upholds_report {e : Raised} (he : (D.custody i).HeldError e) : D.Upholds i (Host.report e) D.Held := by
  have hdict : ∀ j stack, D.Held j stack → D.Upholds j (extend (·.allocDict [(.text "kind", .text e.kind.label),
      (.text "message", .text e.message), (.text "stack", stack)])) D.Held := by
    intro j stack hstack
    exact upholds_extend fun s hs => later_allocDict hs (by simpa [Entries.parts] using hstack)
  unfold Host.report
  cases hframes : e.stack with
  | none => exact (upholds_pure (Q := D.Held) Custody.held_null).bind fun j stack _ => hdict j stack
  | some frames =>
    refine (upholds_newList ?_).bind fun j stack _ => hdict j stack
    intro v hv
    obtain ⟨f, hf, rfl⟩ := List.mem_map.1 hv
    exact he frames hframes f hf

theorem upholds_needReceiver (name : String) {this : Option Value} (h : ∀ v, this = some v → D.Held i v) :
    D.Upholds i (Host.needReceiver name this) (D.At i (D.Held i)) := by
  cases this with
  | none => exact upholds_raise (hD.fault_of_none rfl)
  | some v => exact upholds_pure ⟨rfl, h v rfl⟩

end Functions

/-! ## Functions that are given by their code -/

section Codes

variable {args got : List Value} {v : Value} {m : Host.Memory} {j : D.Stage}

omit hD

theorem held_term (h : D.HeldAll i got) (t : Host.Term) : D.Held i (t.value got) := by
  cases t with
  | got n => exact Custody.held_getD fun v hv => h v (List.mem_of_getElem? hv)
  | literal v => exact (D.custody i).immediate _ (by cases v <;> simp [Host.Term.value, Value.bare])

theorem heldAll_terms (h : D.HeldAll i got) (items : List Host.Term) : D.HeldAll i (items.map (·.value got)) := by
  intro v hv
  obtain ⟨t, -, rfl⟩ := List.mem_map.1 hv
  exact held_term h t

variable (D) in
/-- What a function has got is held, and the errors that it has caught may leave it. -/
def HeldMemory (i : D.Stage) (m : Host.Memory) : Prop := D.HeldAll i m.got ∧ ∀ e ∈ m.caught, (D.custody i).HeldError e

theorem heldMemory_mono (hij : D.le i j) (h : D.HeldMemory i m) : D.HeldMemory j m :=
  ⟨heldAll_mono hij h.1, fun e he frames hframes f hf => D.mono hij (h.2 e he frames hframes f hf)⟩

theorem upholds_add (hm : D.HeldMemory i m) (h : D.HeldAll i args) :
    D.Upholds i (m.add args) (D.At i (D.HeldMemory i)) :=
  upholds_store.keep fun _ _ => upholds_pure ⟨rfl, heldAll_append hm.1 h, hm.2⟩

theorem heldMemory_addError {e : Raised} (hm : D.HeldMemory i m) (he : (D.custody i).HeldError e) :
    D.HeldMemory i (m.addError e) :=
  ⟨hm.1, List.forall_mem_append.2 ⟨hm.2, by simpa using he⟩⟩

theorem upholds_ofCall {own : List Value} {this : Option Value} (hown : D.HeldAll i own) (h : D.HeldAll i args)
    (hthis : ∀ v, this = some v → D.Held i v) :
    D.Upholds i (Host.Memory.ofCall own args this) (D.At i (D.HeldMemory i)) := by
  have hempty : D.HeldMemory i ⟨[], [], []⟩ := ⟨heldAll_nil, by simp⟩
  refine (upholds_add hempty hown).keep fun m hm => ?_
  exact (upholds_add hm fun v hv => hthis v (Option.mem_toList.1 hv)).keep fun m hm => upholds_add hm h

/-- A context that a function makes has a new scope as its variables. -/
theorem upholds_ownContext (hv : D.Held i v) :
    D.Upholds i (Host.ownContext v) fun j ctx => (D.custody j).HeldContext ctx := by
  have hscope : D.Upholds i (extend (·.allocEmptyScope .null)) fun j scope => (D.custody j).outer scope :=
    upholds_extend fun s hs => D.scopes i s .null hs (.inl rfl)
  exact hscope.bind fun j scope hij hscope => upholds_pure ⟨D.mono hij hv, hscope, Custody.held_null⟩

theorem upholds_tried {α : Type} {act : Effect α} {Q : D.Stage → α → Prop} (caught : Bool) (h : D.Upholds i act Q) :
    D.Upholds i (Host.tried caught act) fun j result =>
      (∀ a, result = .ok a → Q j a) ∧ ∀ e, result = .error e → D.fault j e := by
  unfold Host.tried
  split
  · exact h.attempt
  · refine h.bind fun j a _ ha => upholds_pure ⟨?_, ?_⟩
    · rintro a' ⟨⟩
      exact ha
    · rintro e ⟨⟩

include hD

theorem upholds_rethrow (hm : D.HeldMemory i m) (n : Nat) : D.Upholds i (m.rethrow n) D.Held := by
  unfold Host.Memory.rethrow
  split
  · rename_i e he
    exact upholds_raise ((hD i e).2 (hm.2 e (List.mem_of_getElem? he)))
  · exact upholds_fault hD _ _

end Codes

/-! ## What stands in for parts of the interpreter -/

section StandIns

variable {v : Value} {engine : Ref}

omit hD in
theorem held_of_engine? {s : Store} {r : Ref} (h : s.engine? v = some r) (hv : D.Held i v) : D.Held i (.ref r) := by
  unfold Store.engine? at h
  split at h <;> cases h
  exact hv

theorem upholds_unfollowed {α : Type} {Q : D.Stage → α → Prop} (v : Value) : D.Upholds i (unfollowed v) Q := by
  refine upholds_store.keep fun s _ => ?_
  split
  · exact upholds_exhaust
  · exact upholds_raise (hD.fault_of_none rfl)

theorem upholds_standIn (m : Host.Method) (hv : D.Held i v) :
    D.Upholds i (standIn m v) (D.At i fun r => D.Held i (.ref r)) := by
  refine upholds_store.keep fun s hs => ?_
  split
  · rename_i self m' hc
    split
    · rename_i r hr
      split
      · exact upholds_pure ⟨rfl, held_of_engine? hr (Custody.held_part hs hv hc List.mem_cons_self)⟩
      · exact upholds_exhaust
    · exact upholds_exhaust
  · exact upholds_unfollowed hD v

/-- What runs the scripts of an evaluator that is held is held. -/
theorem upholds_evaluatorOf (he : D.Held i (.ref engine)) :
    D.Upholds i (evaluatorOf engine) (D.At i fun r => D.Held i (.ref r)) := by
  refine upholds_store.keep fun s hs => ?_
  split
  · exact upholds_pure ⟨rfl, he⟩
  · rename_i f hf
    exact upholds_standIn hD _ (Custody.held_hiddenAttribute? hs he (by decide) hf)

/-- What makes the calls of an evaluator that is held is held. -/
theorem upholds_callerOf (he : D.Held i (.ref engine)) :
    D.Upholds i (callerOf engine) (D.At i fun r => D.Held i (.ref r)) := by
  refine upholds_store.keep fun s hs => ?_
  split
  · exact upholds_pure ⟨rfl, he⟩
  · rename_i f hf
    split
    · exact upholds_raise (hD.fault_of_none rfl)
    · exact upholds_standIn hD _ (Custody.held_hiddenAttribute? hs he (by decide) hf)

omit hD in
theorem upholds_engineFor (hv : D.Held i v) : D.Upholds i (engineFor v) (D.At i fun r => D.Held i (.ref r)) := by
  refine upholds_store.keep fun s _ => ?_
  split
  · rename_i r _ hr
    exact upholds_pure ⟨rfl, held_of_engine? hr hv⟩
  · exact upholds_raise (D.plain i _ rfl)
  · exact upholds_exhaust

theorem upholds_contextFrom (hv : D.Held i v) :
    D.Upholds i (contextFrom v) (D.At i (D.custody i).HeldContext) := by
  refine upholds_store.keep fun s hs => ?_
  split
  · exact upholds_unfollowed hD _
  · rename_i ctx _ hctx
    exact upholds_pure ⟨rfl, Custody.heldContext_of_context? hs hv hctx⟩
  · exact upholds_raise (D.plain i _ rfl)

end StandIns

/-! ## Methods -/

section Methods

variable {self : Value} {args : List Value}

theorem upholds_needCount (wording : Nat → String) (args : List Value) (n : Nat) :
    D.Upholds i (Host.needCount wording args n) (D.At i fun _ => True) := by
  unfold Host.needCount
  split
  · exact upholds_pure ⟨rfl, trivial⟩
  · exact upholds_fault hD _ _

theorem upholds_positionArg (v : Value) : D.Upholds i (Host.positionArg v) (D.At i fun _ => True) := by
  cases v with
  | int n =>
    simp only [Host.positionArg]
    split
    · exact upholds_pure ⟨rfl, trivial⟩
    · exact upholds_raise (hD.fault_of_none rfl)
  | bool b => exact upholds_pure ⟨rfl, trivial⟩
  | _ => exact upholds_store.keep fun _ _ => upholds_fault hD _ _

theorem upholds_popPosition (args : List Value) : D.Upholds i (Host.popPosition args) (D.At i fun _ => True) := by
  unfold Host.popPosition
  split
  · exact upholds_pure ⟨rfl, trivial⟩
  · exact upholds_positionArg hD _

omit hD in
theorem upholds_setItems {items : List Value} (hself : D.Held i self) (h : D.HeldAll i items) :
    D.Upholds i (Host.setItems self items) (D.At i fun _ => True) :=
  upholds_change fun _ hs => gives_replace hs hself (f := fun _ => items) fun _ _ => h

theorem upholds_performOnList (hself : D.Held i self) (m : Host.Method) (h : D.HeldAll i args) :
    D.Upholds i (Host.performOnList self m args) D.Held := by
  refine upholds_store.keep fun s hs => upholds_store.keep fun s' _ => ?_
  have hitems : D.HeldAll i ((s.list? self).getD []) := by
    cases hl : s.list? self with
    | none => exact heldAll_nil
    | some items => exact Custody.held_list? hs hself hl
  have hfirst := held_arg h 0
  have hnull : D.Upholds i (pure Value.null) D.Held := upholds_pure Custody.held_null
  dsimp only
  cases m with
  | append =>
    refine (upholds_needCount hD _ _ _).keep fun _ _ => ?_
    exact (upholds_setItems hself (heldAll_append hitems (heldAll_singleton hfirst))).keep fun _ _ => hnull
  | pop =>
    dsimp only
    split
    · exact upholds_fault hD _ _
    · refine (upholds_popPosition hD args).keep fun n _ => ?_
      split
      · exact upholds_raise (hD.fault_of_none rfl)
      · generalize (if n < 0 then n + (((s.list? self).getD []).length : Int) else n) = place
        split
        · exact upholds_fault hD _ _
        · refine (upholds_setItems hself fun v hv => hitems v (List.mem_of_mem_eraseIdx hv)).keep fun _ _ => ?_
          exact upholds_pure (held_arg hitems _)
  | insert =>
    refine (upholds_needCount hD _ _ _).keep fun _ _ => (upholds_positionArg hD _).keep fun n _ => ?_
    refine (upholds_setItems hself (heldAll_append (heldAll_take hitems _) ?_)).keep fun _ _ => hnull
    exact heldAll_cons (held_arg h 1) (heldAll_drop hitems _)
  | extend =>
    refine (upholds_needCount hD _ _ _).keep fun _ _ => ?_
    refine (upholds_ask fun s hs => Custody.gives_traverse hs hfirst).keep fun more hmore => ?_
    refine (upholds_setItems hself (heldAll_append hitems hmore.1)).keep fun _ _ => ?_
    have hresult : D.Upholds i (ofExcept more.result) (D.At i fun _ => True) :=
      upholds_ofExcept (fun _ _ => ⟨rfl, trivial⟩) fun e he => D.plain i e (hmore.result.error e he)
    exact hresult.keep fun _ _ => hnull
  | reverse =>
    refine (upholds_needCount hD _ _ _).keep fun _ _ => ?_
    exact (upholds_setItems hself (heldAll_reverse hitems)).keep fun _ _ => hnull
  | clear =>
    exact (upholds_needCount hD _ _ _).keep fun _ _ => (upholds_setItems hself heldAll_nil).keep fun _ _ => hnull
  | copy => exact (upholds_needCount hD _ _ _).keep fun _ _ => upholds_newList hitems
  | _ => exact hnull

theorem upholds_boundArg (v : Value) : D.Upholds i (Host.boundArg v) (D.At i fun _ => True) := by
  cases v with
  | null | int | bool => exact upholds_pure ⟨rfl, trivial⟩
  | _ => exact upholds_fault hD _ _

theorem upholds_startsWithOne (piece : Option String) (items : List Value) :
    D.Upholds i (Host.startsWithOne piece items) (D.At i fun _ => True) := by
  induction items with
  | nil => exact upholds_pure ⟨rfl, trivial⟩
  | cons v rest ih =>
    cases v with
    | str t flavor =>
      unfold Host.startsWithOne
      split
      · exact upholds_pure ⟨rfl, trivial⟩
      · exact ih
    | _ => exact upholds_store.keep fun _ _ => upholds_fault hD _ _

theorem upholds_performOnText (self : Value) (text : String) (m : Host.Method) (args : List Value) :
    D.Upholds i (Host.performOnText self text m args) D.Held := by
  refine upholds_store.keep fun s _ => ?_
  cases m with
  | upper | lower => exact (upholds_needCount hD _ _ _).keep fun _ _ => upholds_pure (Custody.held_text _)
  | startsWith =>
    dsimp only
    split
    · exact upholds_fault hD _ _
    · split
      · exact upholds_fault hD _ _
      · refine (upholds_boundArg hD _).keep fun start _ => (upholds_boundArg hD _).keep fun stop _ => ?_
        refine upholds_store.keep fun s _ => ?_
        split
        · exact upholds_pure (Custody.held_bool _)
        · exact (upholds_startsWithOne hD _ _).keep fun _ _ => upholds_pure (Custody.held_bool _)
        · exact upholds_store.keep fun _ _ => upholds_fault hD _ _
  | _ => exact upholds_pure Custody.held_null

omit hD in
/-- What a future holds is held. -/
theorem upholds_futureState (hself : D.Held i self) :
    D.Upholds i (Host.futureState self) (D.At i fun state =>
      (∀ v, state.1 = some v → D.Held i v) ∧ D.HeldAll i state.2) := by
  refine upholds_store.keep fun s hs => ?_
  split
  · rename_i result waiting attrs hc
    refine upholds_pure ⟨rfl, fun v hv => Custody.held_part hs hself hc ?_, fun v hv => Custody.held_part hs hself hc ?_⟩
    · cases hv
      simp [Cell.fields, Cell.parts, Host.Class.parts]
    · simp [Cell.fields, Cell.parts, Host.Class.parts, hv]
  · refine upholds_pure ⟨rfl, ?_, heldAll_nil⟩
    rintro v ⟨⟩

omit hD in
theorem upholds_setFuture (hself : D.Held i self) {result : Option Value} {waiting : List Value}
    (hresult : ∀ v, result = some v → D.Held i v) (hwaiting : D.HeldAll i waiting) :
    D.Upholds i (Host.setFuture self result waiting) (D.At i fun _ => True) := by
  refine upholds_change fun s hs => ?_
  split
  · rename_i r old oldWaiting attrs hc
    refine ends_ok ((D.custody i).set s r _ _ hs hself hc trivial (.future old result oldWaiting waiting attrs) (fun w hw => ?_)
      trivial)
    simp only [Cell.fields, Cell.parts, Host.Class.parts, List.mem_append, Option.mem_toList] at hw
    rcases hw with (hw | hw) | hw
    · exact hresult w hw
    · exact hwaiting w hw
    · exact (D.custody i).part s r _ w hs hself hc (List.mem_append_right _ hw)
  · exact ends_ok hs

theorem upholds_changeHitPoints (hself : D.Held i self) (c : Host.Change) (amount : Int) :
    D.Upholds i (Host.changeHitPoints self c amount) D.Held := by
  have happly : ∀ v, D.Upholds i (c.apply v amount) D.Held := by
    intro v
    cases v with
    | int | bool => exact upholds_pure (Custody.held_int _)
    | float d =>
      unfold Host.Change.apply
      dsimp only
      split
      · exact upholds_raise (hD.fault_of_none rfl)
      · split
        · exact upholds_pure (Custody.held_float _)
        · have hnan : D.Upholds i (extend (·.allocNan)) fun _ _ => True := upholds_extend fun s hs => later_allocNan hs
          exact hnan.bind fun j d _ _ => upholds_pure (Custody.held_float d)
    | _ => exact upholds_store.keep fun _ _ => upholds_fault hD _ _
  refine upholds_store.keep fun s _ => (happly _).bind fun j result hij hresult => ?_
  refine Upholds.keep (upholds_change fun s hs => ?_) fun _ _ => upholds_pure hresult
  split
  · rename_i hobject
    refine Custody.gives_setAttribute hs (D.mono hij hself) hresult (fun c hc => ?_) (Custody.admits_of_ne (by simp))
      (Custody.takes_of_ne (by simp))
    -- an object of the host is no evaluator
    unfold Store.isObject at hobject
    rw [hc] at hobject
    cases c <;> trivial
  · exact ends_error rfl

theorem upholds_performOnHero (hself : D.Held i self) (m : Host.Method) (h : D.HeldAll i args) {this : Option Value}
    (hthis : ∀ v, this = some v → D.Held i v) : D.Upholds i (Host.performOnHero self m args this) D.Held := by
  refine upholds_store.keep fun s _ => ?_
  cases m with
  | takeDamage | heal => exact (upholds_integerArg hD _ _).keep fun _ _ => upholds_changeHitPoints hD hself _ _
  | whoami => exact (upholds_needReceiver hD _ hthis).here fun _ hv => hv
  | me => exact upholds_pure hself
  | boom => exact (upholds_ask fun s _ => s.plain_print _).keep fun _ _ => upholds_fault hD _ _
  | whisper =>
    refine (upholds_needReceiver hD _ hthis).keep fun owner _ => (upholds_newList h).bind fun j list _ hlist => ?_
    exact upholds_newList (heldAll_pair (Custody.held_bool _) hlist)
  | secret | notExposed => exact upholds_pure (Custody.held_text _)
  | _ => exact upholds_pure Custody.held_null

end Methods

end Discipline

end ListScript
