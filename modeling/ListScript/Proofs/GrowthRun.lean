import ListScript.Proofs.Composition
import ListScript.Proofs.Guard

/-!
# Runs only add and overwrite

Wherever a run ends, the objects that were there when it started have only grown: keys of dictionaries, and with them
the bindings of scopes, are neither removed nor moved, and a list is at least as long as before, unless one of the
built-in methods of lists was called on it (`execute_only_adds`). Two things in a run call such methods: the application
of a method that was read off a list, and the end of a call, which takes the last element off the list of active calls.
The latter makes up for the element that the start of the call has added, except where a script has put another list in
place of the first (`Moment.Handles`).

The argument goes by effects (`Effect.Expands`), then by effects with the tasks that they start (`Logged.Expands`), then
by induction on the weight of tasks (`Moment.expands`). Both properties of effects are compositional, so that only the
steps that change something call for an argument. A call is the one task in which an object shrinks for a time.
-/

namespace ListScript

open Effect

/-! ## Effects -/

namespace Effect

variable {α β : Type}

/-- Wherever the effect ends, objects have only grown. -/
def Expands (long : Ref → Prop) (act : Effect α) : Prop :=
  ∀ st st', (act st).state? = some st' → st.store.Expands long st'.store

variable {long : Ref → Prop} {act : Effect α}

theorem state?_bind {f : α → Effect β} {st st' : State} (h : ((act >>= f) st).state? = some st') :
    (act st).state? = some st' ∨ ∃ a st₁, act st = .value a st₁ ∧ (f a st₁).state? = some st' := by
  change (Effect.bind act f st).state? = _ at h
  unfold Effect.bind at h
  cases hact : act st with
  | value a st₁ =>
    rw [hact] at h
    exact .inr ⟨a, st₁, rfl, h⟩
  | raised e st₁ =>
    rw [hact] at h
    exact .inl h
  | exhausted => rw [hact] at h; cases h

theorem Expands.bind {f : α → Effect β} (h : act.Expands long) (hf : ∀ a, (f a).Expands long) :
    (act >>= f).Expands long := by
  intro st st' hst
  rcases state?_bind hst with hst | ⟨a, st₁, hact, hst⟩
  · exact h st st' hst
  · exact (h st st₁ (by rw [hact]; rfl)).trans (hf a st₁ st' hst)

theorem state?_attempt (act : Effect α) (st : State) : (attempt act st).state? = (act st).state? := by
  unfold attempt
  cases act st <;> rfl

theorem Expands.attempt (h : act.Expands long) : (attempt act).Expands long := fun st st' hst =>
  h st st' (by rwa [state?_attempt] at hst)

/-- An effect that leaves the store alone. -/
theorem expands_of_still (h : ∀ st st', (act st).state? = some st' → st'.store = st.store) : act.Expands long := by
  intro st st' hst
  rw [h st st' hst]
  exact .refl _

theorem expands_pure (a : α) : (pure a : Effect α).Expands long := expands_of_still fun _ _ h => by cases h; rfl

theorem expands_raise (e : Raised) : (raise e : Effect α).Expands long := expands_of_still fun _ _ h => by cases h; rfl

theorem expands_exhaust : (exhaust : Effect α).Expands long := expands_of_still fun _ _ h => by cases h

theorem expands_store : store.Expands long := expands_of_still fun _ _ h => by cases h; rfl

theorem expands_ask (f : Store → Except Raised α) : (ask f).Expands long := by
  refine expands_of_still fun st st' h => ?_
  unfold ask at h
  split at h <;> cases h <;> rfl

theorem expands_element? (list : Value) (i : Nat) : (element? list i).Expands long :=
  expands_of_still fun _ _ h => by cases h; rfl

theorem expands_trace (line : String) : (trace line).Expands long := by
  refine expands_of_still fun st st' h => ?_
  cases h
  split <;> rfl

theorem expands_change {f : Store → Except Raised Store} (h : ∀ s s', f s = .ok s' → s.Expands long s') :
    (change f).Expands long := by
  intro st st' hst
  unfold change at hst
  split at hst
  · rename_i s hs
    cases hst
    exact h _ _ hs
  · cases hst
    exact .refl _

theorem expands_extend {f : Store → α × Store} (h : ∀ s : Store, s.Expands long (f s).2) : (extend f).Expands long := by
  intro st st' hst
  cases hst
  exact h _

/-- What the functions and methods of the host do by themselves lets objects grow, but for the methods of lists. -/
theorem compositional_expands (long : Ref → Prop) : Compositional fun _ act => act.Expands long where
  pure := expands_pure
  raise := expands_raise
  exhaust := expands_exhaust
  store := expands_store
  ask := expands_ask
  element? := expands_element?
  extend h := expands_extend fun s => (h s).mono fun _ _ => trivial
  change h := expands_change fun s s' hs => (h s s' hs).mono fun _ _ => trivial
  attempt h := h.attempt
  bind h hf := h.bind hf

/-- A list may get other elements if it need not stay as long as it is. -/
theorem expands_setItems {self : Value} (h : ∀ r, self = .ref r → ¬ long r) (items : List Value) :
    (Host.setItems self items).Expands long := by
  refine expands_change fun s s' hs => ?_
  split at hs <;> cases hs
  · rename_i r old flavor hc
    exact Store.expands_set hc (Cell.expands_list fun hlong => absurd hlong (h r rfl))
  · exact .refl _

theorem expands_readAt (path : Path) (ctx : Context) : (readAt path ctx).Expands long := by
  intro st st' hst
  unfold readAt askGrowing at hst
  split at hst
  · rename_i v s hread
    cases hst
    exact Store.expands_read hread
  · cases hst
    exact .refl _

theorem expands_writeAt (path : Path) (v : Value) (ctx : Context) : (writeAt path v ctx).Expands long := by
  intro st st' hst
  have hexpands : st.store.Expands long _ := st.store.expands_assign path v ctx
  unfold writeAt at hst
  split at hst <;> rename_i hassign <;> cases hst <;> rw [hassign] at hexpands <;> exact hexpands

end Effect

/-! ## Effects with the tasks that they start -/

/-- Wherever the task ends, objects have only grown. -/
def Moment.Expands (long : Ref → Prop) (m : Moment) : Prop :=
  ∀ st', m.outcome.state? = some st' → m.state.store.Expands long st'.store

namespace Logged

variable {α β : Type} {long : Ref → Prop}

/-- In a state, the effect lets objects grow if the tasks that it starts do. -/
def ExpandsAt (long : Ref → Prop) (st : State) (p : Logged α) : Prop :=
  (∀ ev ∈ p.log st, ev.moment.Expands long) → ∀ st', (p.run st).state? = some st' → st.store.Expands long st'.store

/-- The effect lets objects grow if the tasks that it starts do. -/
def Expands (long : Ref → Prop) (p : Logged α) : Prop := ∀ st, p.ExpandsAt long st

theorem expands_lift {act : Effect α} (h : act.Expands long) : (lift act).Expands long := fun st _ => h st

theorem expands_start (fuel : Nat) (t : Task) : (start fuel t).Expands long := fun st h =>
  h ⟨⟨fuel, t, st⟩, false⟩ List.mem_cons_self

theorem expands_watch (fuel : Nat) (t : Task) : (watch fuel t).Expands long := fun st h st' hst =>
  h ⟨⟨fuel, t, st⟩, true⟩ List.mem_cons_self st' (by rwa [run_watch, state?_attempt] at hst)

theorem Expands.bind {p : Logged α} {f : α → Logged β} (h : p.Expands long) (hf : ∀ a, (f a).Expands long) :
    (p >>= f).Expands long := by
  intro st hev st' hst
  change ∀ ev ∈ p.log st ++ logAfter f (p.run st), _ at hev
  have hp := h st fun ev hmem => hev ev (List.mem_append_left _ hmem)
  rcases state?_bind hst with hst | ⟨a, st₁, hrun, hst⟩
  · exact hp st' hst
  · refine (hp st₁ (by rw [hrun]; rfl)).trans (hf a st₁ (fun ev hmem => ?_) st' hst)
    exact hev ev (List.mem_append_right _ (by rwa [hrun]))

/-- A task lets objects grow if the tasks that it starts do, but for the methods of lists and the ends of calls. -/
theorem compositional_expands (long : Ref → Prop) :
    Compositional (fun _ act => act.Expands long) (fun _ => True) fun _ p => p.Expands long where
  effects := Effect.compositional_expands long
  lift := expands_lift
  start fuel _ := expands_start fuel _
  watch fuel _ := expands_watch fuel _
  bind h hf := h.bind hf

/-- The store is what it is in the state. -/
theorem expandsAt_store {f : Store → Logged β} {st : State} (h : (f st.store).ExpandsAt long st) :
    (lift store >>= f).ExpandsAt long st := h

/-- The application of a value lets objects grow, but for the list whose method is applied. -/
theorem expandsAt_apply (fuel : Nat) {f : Value} {st : State}
    (h : ∀ r m, st.store.cell? f = some (.method (.ref r) m) → m ∈ Host.Method.ofLists → ¬ long r) (args : List Value)
    (this : Option Value) : (apply f args this fuel).ExpandsAt long st := by
  have hP := compositional_expands long
  cases fuel with
  | zero => exact hP.exhaust st
  | succ fuel =>
    refine expandsAt_store ?_
    split
    · exact hP.closure (fun _ _ _ => trivial) fuel _ args st
    · exact hP.function (fun _ _ => trivial) (fun _ _ => trivial) (fun _ _ _ => trivial) _ args this st
    · rename_i self m hc
      split
      · exact hP.onEngine (fun _ _ => trivial) (fun _ _ _ _ => trivial) m args st
      · refine hP.method (fun _ _ => trivial) (fun _ _ => trivial) (fun _ _ _ => trivial) (fun hm items => ?_) args this st
        exact expands_setItems (fun r hself => h r m (hself ▸ hc) hm) items
    · exact hP.object (fun _ _ => trivial) (fun _ _ => trivial) (fun _ _ _ => trivial) f _ args this st
    · exact expands_lift (expands_raise _) st

end Logged

/-! ## Calls -/

namespace Store

variable {long : Ref → Prop} {s s' : Store} {engine : Ref} {name args : Value}

theorem updateStack_cases {operation : String} {f : List Value → Except Raised (List Value)}
    (h : s.updateStack engine operation f = .ok s') :
    ∃ r items items' flavor, s.stackOf engine = .ref r ∧ s.get? r = some (.list items flavor) ∧ f items = .ok items' ∧
      s' = s.set r (.list items' flavor) := by
  unfold updateStack at h
  dsimp only at h
  split at h
  · rename_i r items flavor hstack hc
    rw [hstack] at hc
    cases hitems : f items with
    | error e => rw [hitems] at h; cases h
    | ok items' =>
      rw [hitems] at h
      exact ⟨r, items, items', flavor, hstack, hc, hitems, (Except.ok.inj h).symm⟩
  · cases h

/-- A call that becomes active makes the list of active calls longer by one. -/
theorem pushFrame_cases (h : s.pushFrame engine name args = .ok s') :
    s.Expands long s' ∧ ∃ r, s'.stackOf engine = .ref r ∧ ∀ items flavor, s.get? r = some (.list items flavor) →
      ∃ frame, s'.get? r = some (.list (items ++ [frame]) flavor) := by
  obtain ⟨r, items, items', flavor, hstack, hc, hitems, rfl⟩ := updateStack_cases h
  cases hitems
  have hne : engine ≠ r := by
    rintro rfl
    simp only [stackOf, hc] at hstack
    cases hstack
  refine ⟨?_, r, ?_, fun items' flavor' hlist => ?_⟩
  · exact (s.expands_alloc _).trans (expands_set hc (Cell.expands_list fun _ => by simp))
  · simpa only [stackOf, get?_set_ne _ hne] using hstack
  · have halloc : (s.alloc (.dict [(.text "name", name), (.text "args", args)])).2.get? r = some (.list items' flavor') := by
      rw [get?_alloc_lt _ (index_lt_of_get? hlist), hlist]
    cases hc.symm.trans halloc
    exact ⟨_, get?_set_self _ (index_lt_of_get? hc)⟩

/-- A call that ends takes one element off the list of active calls. -/
theorem popFrame_cases (h : s.popFrame engine = .ok s') :
    ∃ r items flavor, s.stackOf engine = .ref r ∧ s.get? r = some (.list items flavor) ∧
      s' = s.set r (.list items.dropLast flavor) := by
  unfold popFrame at h
  split at h
  · cases h
  · obtain ⟨r, items, items', flavor, hstack, hc, hitems, rfl⟩ := updateStack_cases h
    split at hitems <;> cases hitems
    exact ⟨r, items, flavor, hstack, hc, rfl⟩

/-- A list that gives up an element after it has got one has grown nevertheless. -/
theorem expands_popped {t u : Store} {r : Ref} {items : List Value} {flavor : Flavor}
    (hpushed : s.Expands long t) (hgrown : t.Expands long u)
    (hframe : ∀ items flavor, s.get? r = some (.list items flavor) →
      ∃ frame, t.get? r = some (.list (items ++ [frame]) flavor))
    (hlist : u.get? r = some (.list items flavor)) :
    s.Expands long (u.set r (.list items.dropLast flavor)) := by
  intro k c hc
  by_cases hk : k = r
  · subst hk
    refine ⟨_, get?_set_self _ (index_lt_of_get? hlist), ?_⟩
    obtain ⟨_, hc₂, hexpands⟩ := hpushed.trans hgrown k c hc
    cases hlist.symm.trans hc₂
    cases c with
    | list items flavor' =>
      -- the element that is taken off makes up for the frame
      obtain ⟨_, ⟨⟩, -⟩ := hexpands
      obtain ⟨frame, hc₁⟩ := hframe items flavor hc
      obtain ⟨_, hc₂, _, rfl, hlength⟩ := hgrown k _ hc₁
      cases hlist.symm.trans hc₂
      refine Cell.expands_list fun hlong => ?_
      have hlength := hlength hlong
      simp only [List.length_append, List.length_singleton] at hlength
      simp only [List.length_dropLast]
      omega
    | dict => obtain ⟨_, ⟨⟩, -⟩ := hexpands
    | scope => cases hexpands
    | _ => trivial
  · rw [get?_set_ne _ hk]
    exact hpushed.trans hgrown k c hc

end Store

/-- A moment at which a built-in method of lists is called on a list: because the method is applied, or because a call
ends that takes its last element although it has not added one. -/
inductive Moment.Handles (r : Ref) : Moment → Prop
  | method {fuel : Nat} {f : Value} {args : List Value} {this : Option Value} {st : State} {m : Host.Method} :
      st.store.cell? f = some (.method (.ref r) m) → m ∈ Host.Method.ofLists → Handles r ⟨fuel, .apply f args this, st⟩
  | pop {fuel : Nat} {engine : Ref} {f args receiver name : Value} {st st₁ st₂ : State} {p : List Value × Option Value} :
      openCall engine f args receiver name st = .value p st₁ → st₁.store.stackOf engine ≠ .ref r →
      (apply fuel f p.1 p.2 st₁).state? = some st₂ → st₂.store.stackOf engine = .ref r →
      Handles r ⟨fuel, .call engine f args receiver name, st⟩

namespace Moment

variable {long : Ref → Prop} {m : Moment}

theorem state?_closeCall {engine : Ref} {outcome : Except Raised Value} {st st' : State}
    (h : (closeCall engine outcome st).state? = some st') :
    st'.store = st.store ∨ st.store.popFrame engine = .ok st'.store := by
  cases hpop : st.store.popFrame engine with
  | ok s =>
    rw [closeCall_eq hpop] at h
    cases outcome <;> cases h <;> exact .inr rfl
  | error e =>
    have hchange : change (·.popFrame engine) st = .raised e st := by simp only [change, hpop]
    unfold closeCall at h
    rw [bind_of_value (recordOutcome_eq engine outcome st), bind_of_raised hchange] at h
    cases h
    exact .inl rfl

/-- The end of a call makes up for its start. -/
theorem expands_call {fuel : Nat} {engine : Ref} {f args receiver name : Value} {st : State}
    (hsub : ∀ m', Starts ⟨fuel, .call engine f args receiver name, st⟩ m' → m'.Expands long)
    (h : ∀ r, long r → ¬ Handles r ⟨fuel, .call engine f args receiver name, st⟩) :
    Expands long ⟨fuel, .call engine f args receiver name, st⟩ := by
  intro st' hst
  change (ListScript.call (ListScript.apply fuel) engine f args receiver name st).state? = some st' at hst
  change st.store.Expands long st'.store
  rw [call_eq] at hst
  rcases openCall_cases engine f args receiver name st with
    ⟨e, st₁, hopen, hstore, -⟩ | ⟨label, values, this, st₁, hopen, -, -, -, hpush, -⟩
  · rw [bind_of_raised hopen] at hst
    cases hst
    rw [hstore]
    exact .refl _
  rw [bind_of_value hopen] at hst
  obtain ⟨hpushed, r, hstack, hframe⟩ := @Store.pushFrame_cases long _ _ _ _ _ hpush
  have happly : ∀ st₂, (ListScript.apply fuel f values this st₁).state? = some st₂ → st₁.store.Expands long st₂.store :=
    hsub _ (starts_apply hopen)
  rcases state?_bind hst with hst | ⟨outcome, st₂, hattempt, hst⟩
  · rw [state?_attempt] at hst
    exact hpushed.trans (happly st' hst)
  have hstate : (ListScript.apply fuel f values this st₁).state? = some st₂ := by
    rw [← state?_attempt, hattempt]
    rfl
  have hgrown := happly st₂ hstate
  rcases state?_closeCall hst with heq | hpop
  · rw [heq]
    exact hpushed.trans hgrown
  obtain ⟨r', items₂, flavor, hstack₂, hlist₂, heq⟩ := Store.popFrame_cases hpop
  rw [heq]
  by_cases hsame : r' = r
  · subst hsame
    exact Store.expands_popped hpushed hgrown hframe hlist₂
  · -- another list than the one with the frame gives up an element
    have hlong : ¬ long r' := fun hlong => h r' hlong (.pop hopen (by rw [hstack]; simpa using Ne.symm hsame) hstate hstack₂)
    exact (hpushed.trans hgrown).trans (Store.expands_set hlist₂ (Cell.expands_list fun hl => absurd hl hlong))

/-- Every run lets objects grow, but for the lists on which a method of lists is called. -/
theorem expands (h : ∀ m', m.Reaches m' → ∀ r, long r → ¬ m'.Handles r) : m.Expands long := by
  induction hw : m.weight using Nat.strongRecOn generalizing m with
  | ind w ih =>
    have hsub : ∀ m', m.Starts m' → m'.Expands long := fun m' hm' =>
      ih m'.weight (hw ▸ hm'.weight_lt) (fun m'' hm'' => h m'' (.head hm' hm'')) rfl
    have hlogged : (m.task.logged m.fuel).ExpandsAt long m.state → m.Expands long := by
      intro hexpands st' hst
      rw [← m.run_logged] at hst
      exact hexpands (fun ev hev => hsub _ ⟨ev, hev, rfl⟩) st' hst
    have hP := Logged.compositional_expands long
    obtain ⟨fuel, task, st⟩ := m
    cases task with
    | script engine v ctx => exact hlogged (hP.script (fun _ _ _ => trivial) fuel engine ctx v st)
    | expression engine v ctx =>
      exact hlogged (hP.expression (fun _ _ => trivial) (fun _ _ => trivial) expands_trace (fun _ _ _ => trivial)
        (fun _ _ => trivial) v st)
    | invoke engine found values => exact hlogged (hP.invoke (fun _ _ _ _ _ => trivial) fuel engine found values st)
    | call engine f args receiver name => exact expands_call hsub (h _ .refl)
    | apply f args this =>
      exact hlogged (Logged.expandsAt_apply fuel (fun r m hf hm hlong => h _ .refl r hlong (.method hf hm)) args this)
    | read path ctx => exact hlogged (Logged.expands_lift (expands_readAt path ctx) st)
    | write path v ctx => exact hlogged (Logged.expands_lift (expands_writeAt path v ctx) st)

end Moment

/-! ## Runs -/

theorem Store.expands_contextFor {long : Ref → Prop} (s : Store) (this vars parent : Value) :
    s.Expands long (s.contextFor this vars parent).2 := by
  have hdict : ∀ (t : Store) (v : Value), t.Expands long (if v = .null then t.allocDict [] else (v, t)).2 := by
    intro t v
    split
    · exact t.expands_alloc _
    · exact .refl t
  exact ((hdict s this).trans (hdict _ vars)).trans (expands_alloc _ _)

/-- A run adds and overwrites, and neither removes nor reorders. However it ends, every dictionary from before the run has
the keys that it had, in the same order and spelling, and new ones only after them; every scope has the same
bindings and the same parent, and so its bindings have only grown; and every list is at least as long as it was, unless
a built-in method of lists was called on it in the run. -/
theorem execute_only_adds {fuel : Nat} {engine : Ref} {script this vars : Value} {st st' : State}
    (hout : (execute fuel engine script this vars st).state? = some st') :
    (∀ r entries, st.store.get? r = some (.dict entries) →
      ∃ entries', st'.store.get? r = some (.dict entries') ∧ entries.keys <+: Entries.keys entries') ∧
    (∀ r bindings parent, st.store.get? r = some (.scope bindings parent) →
      st'.store.get? r = some (.scope bindings parent) ∧ ∀ entries, st.store.dict? bindings = some entries →
        ∃ entries', st'.store.dict? bindings = some entries' ∧ entries.keys <+: Entries.keys entries') ∧
    ∀ r items flavor, st.store.get? r = some (.list items flavor) →
      ∃ items', st'.store.get? r = some (.list items' flavor) ∧
        (items.length ≤ items'.length ∨
          ∃ m, (Moment.ofExecute fuel engine script this vars st).Reaches m ∧ m.Handles r) := by
  rw [Moment.execute_eq] at hout
  have hrun : (Moment.ofExecute fuel engine script this vars st).Expands
      fun r => ¬ ∃ m, (Moment.ofExecute fuel engine script this vars st).Reaches m ∧ m.Handles r :=
    Moment.expands fun m' hm' r hlong hhandles => hlong ⟨m', hm', hhandles⟩
  have hexpands := (st.store.expands_contextFor this vars .null).trans (hrun st' hout)
  have hdict : ∀ r entries, st.store.get? r = some (.dict entries) →
      ∃ entries', st'.store.get? r = some (.dict entries') ∧ entries.keys <+: Entries.keys entries' := by
    intro r entries hc
    obtain ⟨_, hc', entries', rfl, hkeys⟩ := hexpands r _ hc
    exact ⟨entries', hc', hkeys⟩
  refine ⟨hdict, fun r bindings parent hc => ?_, fun r items flavor hc => ?_⟩
  · obtain ⟨_, hc', rfl⟩ := hexpands r _ hc
    refine ⟨hc', fun entries hentries => ?_⟩
    unfold Store.dict? at hentries
    split at hentries <;> cases hentries
    rename_i hcell
    cases bindings with
    | ref b =>
      obtain ⟨entries', hc', hkeys⟩ := hdict b entries hcell
      exact ⟨entries', by simp only [Store.dict?, Store.cell?, hc'], hkeys⟩
    | _ => cases hcell
  · obtain ⟨_, hc', items', rfl, hlength⟩ := hexpands r _ hc
    refine ⟨items', hc', ?_⟩
    by_cases hhandled : ∃ m, (Moment.ofExecute fuel engine script this vars st).Reaches m ∧ m.Handles r
    · exact .inr hhandled
    · exact .inl (hlength hhandled)

/-- A script that writes into a dictionary of the host and then calls it, which is an error. -/
def writesThenFails : State where
  store := ⟨#[.dict [(.text "d", .ref ⟨1⟩)], .dict [(.text "a", .int 1)], .list [.ref ⟨3⟩, .ref ⟨4⟩] .plain,
    .list [.text "set", .text "d.b", .int 5] .plain, .list [.text "call", .text "d"] .plain, .list [] .plain,
    .engine (.ref ⟨5⟩) []]⟩
  tracing := false
  trace := #[]

theorem execute_only_adds_before_error :
    ∃ e st, execute 4 ⟨6⟩ (.ref ⟨2⟩) .null (.ref ⟨0⟩) writesThenFails = .raised e st ∧
      ∃ entries, st.store.get? ⟨1⟩ = some (.dict entries) ∧ [.text "a"] <+: Entries.keys entries := by
  have herror : (execute 4 ⟨6⟩ (.ref ⟨2⟩) .null (.ref ⟨0⟩) writesThenFails).error?.isSome = true := by decide +kernel
  cases hout : execute 4 ⟨6⟩ (.ref ⟨2⟩) .null (.ref ⟨0⟩) writesThenFails with
  | raised e st =>
    refine ⟨e, st, rfl, ?_⟩
    exact (execute_only_adds (by rw [hout]; rfl)).1 ⟨1⟩ [(.text "a", .int 1)] rfl
  | value | exhausted => rw [hout] at herror; cases herror

/-- A function that puts a list of the host in place of the list of active calls of its evaluator, and a call of it. -/
def replacesStack : State where
  store := ⟨#[.list [.ref ⟨1⟩, .ref ⟨2⟩] .plain, .list [.text "set", .text "f", .ref ⟨3⟩] .plain,
    .list [.text "call", .text "f"] .plain, .list [.text "lambda", .ref ⟨4⟩, .ref ⟨5⟩] .plain, .list [] .plain,
    .list [.ref ⟨6⟩, .ref ⟨7⟩] .plain, .list [.text "set", .text "f.evaluator.call_stack", .ref ⟨8⟩] .plain,
    .list [.text "value", .int 0] .plain, .list [.text "get", .text "host"] .plain, .dict [(.text "host", .ref ⟨10⟩)],
    .list [.int 1, .int 2] .plain, .list [] .plain, .engine (.ref ⟨11⟩) []]⟩
  tracing := false
  trace := #[]

/-- Whether a value is a method of an object. -/
def Store.isMethod (s : Store) (v : Value) : Bool :=
  match s.cell? v with
  | some (.method ..) => true
  | _ => false

/-- Whether a method is applied at a moment. -/
def Moment.appliesMethod : Moment → Bool
  | ⟨_, .apply f _ _, st⟩ => st.store.isMethod f
  | _ => false

/-- The end of a call takes the last element off the list that is there by then, though no method is applied at all. -/
theorem not_execute_only_adds :
    ((execute 9 ⟨12⟩ (.ref ⟨0⟩) .null (.ref ⟨9⟩) replacesStack).state?.bind fun st => st.store.list? (.ref ⟨10⟩)) =
        some [.int 1] ∧
      ∀ m, (Moment.ofExecute 9 ⟨12⟩ (.ref ⟨0⟩) .null (.ref ⟨9⟩) replacesStack).Reaches m →
        ∀ f args this, m.task = .apply f args this → ∀ self name, m.state.store.cell? f ≠ some (.method self name) := by
  have hcheck : Moment.always (!·.appliesMethod) 10 (.ofExecute 9 ⟨12⟩ (.ref ⟨0⟩) .null (.ref ⟨9⟩) replacesStack) = true := by
    decide +kernel
  refine ⟨by decide +kernel, fun m hm f args this htask self name hf => ?_⟩
  obtain ⟨fuel, task, st⟩ := m
  cases htask
  have hnone := Moment.of_always hcheck hm
  simp [Moment.appliesMethod, Store.isMethod, hf] at hnone

end ListScript
