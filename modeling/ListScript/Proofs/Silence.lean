import ListScript.Proofs.Composition
import ListScript.Proofs.Guard

/-!
# Effects that do not see the trace

An effect neither reads the trace nor asks whether it is written. So a run with tracing is the run without it, with entries
added at the end of the trace (`Outcome.voiced`). For what the interpreter and the host do between the tasks they start
there are no entries to add (`Effect.Quiet`), as this is a compositional property (`Effect.compositional_quiet`).
-/

namespace ListScript

open Effect

/-! ## The same state, with and without a trace -/

/-- The state without its trace, and with tracing off. -/
def State.hushed (st : State) : State := ⟨st.store, false, #[]⟩

/-- The state with other objects, and with entries added to the trace if tracing is on. -/
def State.heard (st : State) (s : Store) (entries : List String) : State :=
  ⟨s, st.tracing, if st.tracing then st.trace ++ entries.toArray else st.trace⟩

/-- How an effect ends in a state that has the trace of another one, and entries after it. -/
def Outcome.voiced {α : Type} (out : Outcome α) (st : State) (entries : List String) : Outcome α :=
  match out with
  | .value a st' => .value a (st.heard st'.store entries)
  | .raised e st' => .raised e (st.heard st'.store entries)
  | .exhausted => .exhausted

section States

variable {α : Type} (st : State) (s : Store) (entries : List String)

@[simp] theorem State.store_hushed : st.hushed.store = st.store := rfl

@[simp] theorem State.store_heard : (st.heard s entries).store = s := rfl

@[simp] theorem State.hushed_heard : (st.heard s entries).hushed = ⟨s, false, #[]⟩ := rfl

@[simp] theorem State.heard_nil : st.heard st.store [] = st := by
  cases st with
  | mk s tracing trace => cases tracing <;> simp [heard]

/-- An effect that writes no entry leaves the state with other objects. -/
theorem State.with_store : { st with store := s } = st.heard s [] := by
  cases st with
  | mk _ tracing trace => cases tracing <;> simp [heard]

@[simp] theorem State.heard_heard (s' : Store) (more : List String) :
    (st.heard s entries).heard s' more = st.heard s' (entries ++ more) := by
  cases st with
  | mk _ tracing trace => cases tracing <;> simp [heard]

theorem State.traced_eq_heard (entry : String) : st.traced entry = st.heard st.store [entry] := by
  cases st with
  | mk s tracing trace => cases tracing <;> simp [traced, heard]

/-- Lines in two parts are added one part after the other. -/
theorem Outcome.voiced_heard (out : Outcome α) (more : List String) :
    out.voiced (st.heard s entries) more = out.voiced st (entries ++ more) := by
  cases out <;> simp [voiced]

end States

/-! ## Quiet effects -/

namespace Effect

/-- The effect is the one without tracing, and adds no entry to the trace. -/
def Quiet {α : Type} (act : Effect α) : Prop := ∀ st, act st = (act st.hushed).voiced st []

variable {α β : Type} {act : Effect α} {st st' : State}

/-- Without tracing an effect that is not affected by tracing leaves no trace. -/
theorem hushed_of_voiced {entries : List String} (h : act st.hushed = (act st.hushed).voiced st.hushed entries)
    (hst : (act st.hushed).state? = some st') : st' = st'.hushed := by
  cases hact : act st.hushed with
  | value a st₁ | raised e st₁ =>
    rw [hact] at h hst
    cases hst
    simp only [Outcome.voiced, Outcome.value.injEq, Outcome.raised.injEq, true_and] at h
    exact h
  | exhausted =>
    rw [hact] at hst
    cases hst

theorem Quiet.bind {f : α → Effect β} (h : Quiet act) (hf : ∀ a, Quiet (f a)) : Quiet (act >>= f) := by
  intro st
  change Effect.bind act f st = (Effect.bind act f st.hushed).voiced st []
  unfold Effect.bind
  rw [h st]
  cases hact : act st.hushed with
  | value a st₁ =>
    have hst₁ : st₁ = st₁.hushed := hushed_of_voiced (h st.hushed) (by rw [hact]; rfl)
    dsimp only [Outcome.voiced]
    rw [hf a, State.hushed_heard, Outcome.voiced_heard, hst₁]
    rfl
  | raised e st₁ => rfl
  | exhausted => rfl

theorem voiced_attempt {entries : List String} (h : act st = (act st.hushed).voiced st entries) :
    attempt act st = (attempt act st.hushed).voiced st entries := by
  unfold Effect.attempt
  rw [h]
  cases act st.hushed <;> rfl

theorem Quiet.attempt (h : Quiet act) : Quiet (attempt act) := fun st => voiced_attempt (h st)

theorem quiet_pure (a : α) : Quiet (pure a : Effect α) := fun st => by
  change Outcome.value a st = .value a (st.heard st.store [])
  rw [State.heard_nil]

theorem quiet_raise (e : Raised) : Quiet (raise e : Effect α) := fun st => by
  change Outcome.raised e st = .raised e (st.heard st.store [])
  rw [State.heard_nil]

theorem quiet_exhaust : Quiet (exhaust : Effect α) := fun _ => rfl

theorem quiet_store : Quiet store := fun st => by
  change Outcome.value st.store st = .value st.store (st.heard st.store [])
  rw [State.heard_nil]

theorem quiet_ofExcept (x : Except Raised α) : Quiet (ofExcept x) := by
  cases x with
  | ok a => exact quiet_pure a
  | error e => exact quiet_raise e

theorem quiet_askGrowing (f : Store → Except Raised (α × Store)) : Quiet (askGrowing f) := by
  intro st
  unfold askGrowing
  rw [State.store_hushed]
  cases f st.store with
  | ok p => simp only [State.with_store, Outcome.voiced]
  | error e => simp only [Outcome.voiced, State.store_hushed, State.heard_nil]

theorem quiet_ask (f : Store → Except Raised α) : Quiet (ask f) := by
  intro st
  unfold ask
  rw [State.store_hushed]
  cases f st.store <;> simp only [Outcome.voiced, State.store_hushed, State.heard_nil]

theorem quiet_change (f : Store → Except Raised Store) : Quiet (change f) := by
  intro st
  unfold change
  rw [State.store_hushed]
  cases f st.store with
  | ok s => simp only [State.with_store, Outcome.voiced]
  | error e => simp only [Outcome.voiced, State.store_hushed, State.heard_nil]

theorem quiet_extend (f : Store → α × Store) : Quiet (extend f) := by
  intro st
  simp only [extend, State.with_store, Outcome.voiced, State.store_heard, State.store_hushed]

theorem quiet_element? (list : Value) (i : Nat) : Quiet (element? list i) := fun st => by
  simp only [element?, Outcome.voiced, State.store_hushed, State.heard_nil]

theorem quiet_readAt (path : Path) (ctx : Context) : Quiet (readAt path ctx) := quiet_askGrowing _

theorem quiet_writeAt (path : Path) (v : Value) (ctx : Context) : Quiet (writeAt path v ctx) := by
  intro st
  unfold writeAt
  rw [State.store_hushed]
  cases st.store.assign path v ctx with
  | mk s error => cases error <;> simp only [State.with_store, Outcome.voiced]

/-- What the functions and methods of the host do by themselves is quiet. -/
theorem compositional_quiet : Compositional @Quiet where
  pure := quiet_pure
  raise := quiet_raise
  exhaust := quiet_exhaust
  store := quiet_store
  ask := quiet_ask
  element? := quiet_element?
  extend _ := quiet_extend _
  change _ := quiet_change _
  attempt h := h.attempt
  bind h hf := h.bind hf

/-- An entry between two effects that write none is the only one. -/
theorem voiced_of_trace {f : Effect α} (h : Quiet f) (entry : String) (st : State) :
    (trace entry >>= fun _ => f) st = ((trace entry >>= fun _ => f) st.hushed).voiced st [entry] := by
  rw [bind_of_value (trace_eq_value entry st), bind_of_value (trace_eq_value entry st.hushed), h, State.traced_eq_heard,
    State.traced_eq_heard, State.hushed_heard, Outcome.voiced_heard]
  rfl

end Effect

/-! ## The parts of a call -/

theorem quiet_callLabel (f name : Value) : Quiet (callLabel f name) :=
  quiet_store.bind fun _ => Compositional.of_ite (quiet_pure name) ((quiet_ask _).bind fun _ => quiet_pure _)

theorem quiet_closeCall (engine : Ref) (outcome : Except Raised Value) : Quiet (closeCall engine outcome) := by
  have hrecord : Quiet (recordOutcome engine outcome) := by
    intro st
    rw [recordOutcome_eq, recordOutcome_eq]
    simp only [Outcome.voiced, State.store_hushed, State.heard_nil]
  exact hrecord.bind fun _ => (quiet_change _).bind fun _ => quiet_ofExcept _

/-! ## The entries of the trace -/

/-- The entry for a call, if the call has a name and a list of arguments. -/
def entryOfCall (f args name : Value) (st : State) : Option String :=
  match callLabel f name st, st.store.sizedElements args with
  | .value label _, .ok values => some (callEntry st.store label values.length)
  | _, _ => none

/-- A call that becomes active writes its entry and no other one. -/
theorem voiced_openCall (engine : Ref) (f args receiver name : Value) (st : State) :
    openCall engine f args receiver name st =
      (openCall engine f args receiver name st.hushed).voiced st (entryOfCall f args name st.hushed).toList := by
  have hlabel := quiet_callLabel f name st
  unfold openCall entryOfCall
  rcases callLabel_cases f name st.hushed with ⟨e, hsilent, -⟩ | ⟨label, hsilent, -⟩
  · rw [hsilent, Outcome.voiced, State.store_hushed, State.heard_nil] at hlabel
    rw [bind_of_raised hlabel, bind_of_raised hsilent, hsilent]
    simp [Outcome.voiced]
  rw [hsilent, Outcome.voiced, State.store_hushed, State.heard_nil] at hlabel
  rw [bind_of_value hlabel, bind_of_value hsilent, store_bind, store_bind, hsilent]
  simp only [State.store_hushed]
  cases hvalues : st.store.sizedElements args with
  | error e =>
    have hask : ∀ st' : State, st'.store = st.store → ask (·.sizedElements args) st' = .raised e st' := by
      intro st' hst'
      simp only [ask, hst', hvalues]
    rw [bind_of_raised (hask st rfl), bind_of_raised (hask st.hushed rfl)]
    simp [Outcome.voiced]
  | ok values =>
    have hask : ∀ st' : State, st'.store = st.store → ask (·.sizedElements args) st' = .value values st' := by
      intro st' hst'
      simp only [ask, hst', hvalues]
    rw [bind_of_value (hask st rfl), bind_of_value (hask st.hushed rfl)]
    exact voiced_of_trace ((quiet_change _).bind fun _ => quiet_store.bind fun _ => quiet_pure _) _ st

namespace Logged

variable {α β : Type} {act : Effect α} {f : α → Logged β} {st st₁ : State}

theorem log_lift_bind {a : α} (h : act st = .value a st₁) : (lift act >>= f).log st = (f a).log st₁ := by
  change [] ++ logAfter f (act st) = _
  rw [h]
  rfl

theorem log_lift_bind_of_raised {e : Raised} (h : act st = .raised e st₁) : (lift act >>= f).log st = [] := by
  change [] ++ logAfter f (act st) = _
  rw [h]
  rfl

/-- An expression that is refused does nothing else. -/
theorem expression_refused (fuel : Nat) (engine : Ref) (ctx : Context) {v : Value} {e : Raised}
    (h : st.store.command v = .error e) :
    (expression fuel engine ctx v).run st = .raised e st ∧ (expression fuel engine ctx v).log st = [] := by
  have hask : ask (·.command v) st = .raised e st := by simp only [ask, h]
  exact ⟨bind_of_raised hask, log_lift_bind_of_raised hask⟩

/-- An expression that is accepted writes its entry, and then does what its command does. -/
theorem expression_accepted (fuel : Nat) (engine : Ref) (ctx : Context) {v : Value} {c : Command}
    (h : st.store.command v = .ok c) :
    (expression fuel engine ctx v).run st = (command fuel engine ctx v c).run (st.traced (evalEntry st.store v c)) ∧
      (expression fuel engine ctx v).log st = (command fuel engine ctx v c).log (st.traced (evalEntry st.store v c)) := by
  have hask : ask (·.command v) st = .value c st := by simp only [ask, h]
  have hstore : store st = .value st.store st := rfl
  have htrace := trace_eq_value (evalEntry st.store v c) st
  constructor
  · refine (bind_of_value hask).trans ((bind_of_value hstore).trans ((bind_of_value htrace).trans ?_))
    cases c <;> rfl
  · refine (log_lift_bind hask).trans ((log_lift_bind hstore).trans ((log_lift_bind htrace).trans ?_))
    cases c <;> rfl

end Logged

end ListScript
