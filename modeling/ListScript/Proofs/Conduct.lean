import ListScript.Proofs.StandIn
import ListScript.Proofs.Upheld

/-!
# The conduct of runs

A task conducts itself well under a discipline (`Discipline.Good`) if it keeps its property and gives what is held
whenever it starts with values that are held. An effect with the tasks it starts conforms to the discipline if it does
so provided that those tasks are good, and then hands them only what is held.

All tasks conform (`conforms_script`, `conforms_expression`, `conforms_invoke`, `conforms_call`, `conforms_apply`), a
call on condition that the stack of the evaluator is exposed, a read or a write on condition that it is permitted
(`Discipline.Permits`). `Ward` goes on from single tasks to runs.
-/

namespace ListScript

open Effect Logged

namespace Discipline

variable (D : Discipline)

/-- A task gets what is held, and variables that are outer. -/
def Ready (i : D.Stage) (t : Task) : Prop :=
  D.HeldAll i t.values ∧ ∀ ctx, t.context? = some ctx → (D.custody i).outer ctx.scope

/-- The task keeps the property of a discipline and gives what is held, if it starts with what is held. -/
def Good (m : Moment) : Prop :=
  ∀ i, (D.custody i).inv m.state.store → D.Ready i m.task → D.Allows i D.Held m.outcome

/-- The effect keeps the property of a discipline if the tasks it starts do. They are lighter than `w`, and start with
what is held. -/
def Conforms {α : Type} (w : Nat) (i : D.Stage) (p : Logged α) (Q : D.Stage → α → Prop) : Prop :=
  ∀ st, (D.custody i).inv st.store → (∀ ev ∈ p.log st, D.Good ev.moment) →
    D.Allows i Q (p.run st) ∧ ∀ ev ∈ p.log st, ev.moment.weight < w ∧
      D.Later i ev.moment.state.store fun j => D.Ready j ev.moment.task

variable {D} {i : D.Stage} {w fuel : Nat}

/-! ## Rules -/

section Rules

variable {α β : Type} {act : Effect α} {p : Logged α} {Q : D.Stage → α → Prop} {P : α → Prop} {R : D.Stage → β → Prop}
  {t : Task}

theorem conforms_lift (h : D.Upholds i act Q) : D.Conforms w i (lift act) Q :=
  fun st hs _ => ⟨h st hs, fun _ hev => absurd hev List.not_mem_nil⟩

theorem conforms_pure {a : α} (h : Q i a) : D.Conforms w i (pure a) Q := conforms_lift (upholds_pure h)

theorem conforms_start (hw : t.weight fuel < w) (ht : D.Ready i t) : D.Conforms w i (start fuel t) D.Held := by
  intro st hs hgood
  have hmem : (⟨⟨fuel, t, st⟩, false⟩ : Event) ∈ (start fuel t).log st := List.mem_singleton.2 rfl
  refine ⟨hgood _ hmem i hs ht, ?_⟩
  intro ev hev
  cases List.mem_singleton.1 hev
  exact ⟨hw, later_self hs ht⟩

theorem conforms_watch (hw : t.weight fuel < w) (ht : D.Ready i t) :
    D.Conforms w i (watch fuel t) fun j result =>
      (∀ v, result = .ok v → D.Held j v) ∧ ∀ e, result = .error e → D.fault j e := by
  intro st hs hgood
  have hmem : (⟨⟨fuel, t, st⟩, true⟩ : Event) ∈ (watch fuel t).log st := List.mem_singleton.2 rfl
  have hout : D.Allows i D.Held (t.run fuel st) := hgood _ hmem i hs ht
  refine ⟨?_, ?_⟩
  · change D.Allows i _ (attempt (t.run fuel) st)
    unfold Effect.attempt
    cases hrun : t.run fuel st with
    | value v st' =>
      rw [hrun] at hout
      refine Later.imp hout fun j _ hv => ⟨?_, ?_⟩
      · rintro v' ⟨⟩
        exact hv
      · rintro e ⟨⟩
    | raised e st' =>
      rw [hrun] at hout
      refine Later.imp hout fun j _ he => ⟨?_, ?_⟩
      · rintro v ⟨⟩
      · rintro e' ⟨⟩
        exact he
    | exhausted => trivial
  · intro ev hev
    cases List.mem_singleton.1 hev
    exact ⟨hw, later_self hs ht⟩

theorem Conforms.bind {f : α → Logged β} (h : D.Conforms w i p Q)
    (hf : ∀ j a, D.le i j → Q j a → D.Conforms w j (f a) R) : D.Conforms w i (p >>= f) R := by
  intro st hs hgood
  change ∀ ev ∈ p.log st ++ logAfter f (p.run st), _ at hgood
  obtain ⟨hrun, hlog⟩ := h st hs fun ev hev => hgood ev (List.mem_append_left _ hev)
  change D.Allows i R (Effect.bind p.run _ st) ∧ ∀ ev ∈ p.log st ++ logAfter f (p.run st), _
  unfold Effect.bind
  cases hp : p.run st with
  | value a st' =>
    rw [hp] at hrun hgood
    obtain ⟨j, hij, hs', ha⟩ := hrun
    obtain ⟨hrun', hlog'⟩ := hf j a hij ha st' hs' fun ev hev => hgood ev (List.mem_append_right _ hev)
    refine ⟨hrun'.trans hij, fun ev hev => ?_⟩
    rcases List.mem_append.1 hev with hev | hev
    · exact hlog ev hev
    · exact ⟨(hlog' ev hev).1, (hlog' ev hev).2.trans hij⟩
  | raised e st' =>
    rw [hp] at hrun
    exact ⟨hrun, by simpa [logAfter] using hlog⟩
  | exhausted => exact ⟨trivial, by simpa [logAfter] using hlog⟩

/-- After an effect that starts no task and stays at its stage. -/
theorem conforms_keep {f : α → Logged β} (h : D.Upholds i act (D.At i P))
    (hf : ∀ a, P a → D.Conforms w i (f a) R) : D.Conforms w i (lift act >>= f) R := by
  refine (conforms_lift h).bind fun j a _ ha => ?_
  obtain ⟨rfl, ha⟩ := ha
  exact hf a ha

end Rules

/-! ## Scripts -/

section Scripts

variable {engine : Ref} {ctx : Context} {v : Value}

theorem heldAll_context (hctx : (D.custody i).HeldContext ctx) : D.HeldAll i [ctx.this, ctx.scope, ctx.last] :=
  heldAll_cons hctx.1 (heldAll_pair ((D.custody i).held_of_outer _ hctx.2.1) hctx.2.2)

theorem ready_script (he : D.Held i (.ref engine)) (hv : D.Held i v) (hctx : (D.custody i).HeldContext ctx) :
    D.Ready i (.script engine v ctx) := by
  refine ⟨heldAll_cons he (heldAll_cons hv (heldAll_context hctx)), ?_⟩
  rintro _ ⟨⟩
  exact hctx.2.1

theorem of_ready_script (h : D.Ready i (.script engine v ctx)) :
    D.Held i (.ref engine) ∧ D.Held i v ∧ (D.custody i).HeldContext ctx := by
  obtain ⟨hheld, houter⟩ := h
  simp only [HeldAll, Task.values, List.forall_mem_cons] at hheld
  exact ⟨hheld.1, hheld.2.1, hheld.2.2.1, houter ctx rfl, hheld.2.2.2.2.1⟩

theorem ready_read (hctx : (D.custody i).HeldContext ctx) (path : Path) : D.Ready i (.read path ctx) := by
  refine ⟨heldAll_context hctx, ?_⟩
  rintro _ ⟨⟩
  exact hctx.2.1

theorem of_ready_read {path : Path} (h : D.Ready i (.read path ctx)) : (D.custody i).HeldContext ctx := by
  obtain ⟨hheld, houter⟩ := h
  simp only [HeldAll, Task.values, List.forall_mem_cons] at hheld
  exact ⟨hheld.1, houter ctx rfl, hheld.2.2.1⟩

theorem ready_write (hv : D.Held i v) (hctx : (D.custody i).HeldContext ctx) (path : Path) :
    D.Ready i (.write path v ctx) := by
  refine ⟨heldAll_cons hv (heldAll_context hctx), ?_⟩
  rintro _ ⟨⟩
  exact hctx.2.1

theorem of_ready_write {path : Path} (h : D.Ready i (.write path v ctx)) :
    D.Held i v ∧ (D.custody i).HeldContext ctx := by
  obtain ⟨hheld, houter⟩ := h
  simp only [HeldAll, Task.values, List.forall_mem_cons] at hheld
  exact ⟨hheld.1, hheld.2.1, houter ctx rfl, hheld.2.2.2.1⟩

theorem ready_mono {j : D.Stage} {t : Task} (hij : D.le i j) (h : D.Ready i t) : D.Ready j t :=
  ⟨heldAll_mono hij h.1, fun ctx hctx => D.outer_mono hij (h.2 ctx hctx)⟩

/-- A task without a context has no variables to ask for. -/
theorem ready_of_heldAll {t : Task} (h : D.HeldAll i t.values) (ht : t.context? = none) : D.Ready i t := by
  refine ⟨h, fun ctx hctx => ?_⟩
  rw [ht] at hctx
  cases hctx

theorem conforms_read (hctx : (D.custody i).HeldContext ctx) (hw : 0 < w) (path : Path) :
    D.Conforms w i (start 0 (.read path ctx)) D.Held :=
  conforms_start hw (ready_read hctx path)

section Nested

variable (hw : 4 * fuel + 2 < w) (he : D.Held i (.ref engine)) (hctx : (D.custody i).HeldContext ctx)

include hw he hctx

theorem conforms_nested (hv : D.Held i v) : D.Conforms w i (start fuel (.script engine v ctx)) D.Held :=
  conforms_start (by simp only [Task.weight]; omega) (ready_script he hv hctx)

theorem conforms_source (hv : D.Held i v) : D.Conforms w i (source fuel engine ctx v) D.Held := by
  refine conforms_keep upholds_store fun s hs => ?_
  split
  · exact conforms_pure (Custody.held_unwrap hs hv)
  · exact conforms_nested hw he hctx hv

theorem conforms_target (hv : D.Held i v) : D.Conforms w i (target fuel engine ctx v) D.Held := by
  unfold target
  split
  · exact conforms_pure hv
  · exact conforms_nested hw he hctx hv

theorem conforms_get (expression : Value) (hv : D.Held i v) :
    D.Conforms w i (get fuel engine ctx expression v) D.Held := by
  refine (conforms_target hw he hctx hv).bind fun j text hij _ => ?_
  split
  · refine conforms_keep (upholds_ask fun s _ => s.plain_pathOf text) fun path _ => ?_
    exact conforms_read (heldContext_mono hij hctx) (by omega) path
  · refine conforms_lift (Upholds.here (upholds_ask fun s _ => ?_) fun _ h => h)
    exact (s.plain_print v).bind fun _ _ => ends_error rfl

theorem conforms_callee (expression : Value) (hv : D.Held i v) :
    D.Conforms w i (callee fuel engine ctx expression v) fun j found =>
      D.HeldAll j [found.function, found.receiver, found.name] := by
  refine (conforms_target hw he hctx hv).bind fun j resolved hij hresolved => ?_
  have hctx' := heldContext_mono hij hctx
  split
  · refine conforms_keep (upholds_ask fun s _ => s.plain_pathOf resolved) fun path _ => ?_
    refine (conforms_read hctx' (by omega) path).bind fun k function hjk hfunction => ?_
    have hname := D.mono hjk hresolved
    split
    · exact conforms_pure (heldAll_cons hfunction (heldAll_pair (D.mono hjk hctx'.1) hname))
    · rename_i parent _
      refine (conforms_read (heldContext_mono hjk hctx') (by omega) parent).bind fun l owner hkl howner => ?_
      exact conforms_pure (heldAll_cons (D.mono hkl hfunction) (heldAll_pair howner (D.mono hkl hname)))
  · refine conforms_keep upholds_store fun s _ => ?_
    split
    · refine conforms_keep (upholds_ask fun s _ => s.plain_print v) fun shown _ => ?_
      exact conforms_pure (heldAll_cons hresolved (heldAll_pair hctx'.1 (Custody.held_text shown)))
    · refine conforms_lift (Upholds.here (upholds_ask fun s _ => ?_) fun _ h => h)
      refine (s.plain_print v).bind fun _ _ => ?_
      exact (s.plain_print resolved).bind fun _ _ => ends_error rfl

end Nested

theorem conforms_arguments {list : Value} : ∀ {fuel n : Nat} {i : D.Stage}, 4 * fuel < w → D.Held i (.ref engine) →
    (D.custody i).HeldContext ctx → D.Held i list → D.Conforms w i (arguments engine ctx fuel n list) D.HeldAll := by
  intro fuel
  induction fuel with
  | zero => intro n i _ _ _ _; exact conforms_lift upholds_exhaust
  | succ fuel ih =>
    intro n i hw he hctx hl
    refine conforms_keep (upholds_element? hl n) fun found hfound => ?_
    cases found with
    | none => exact conforms_pure heldAll_nil
    | some v =>
      refine (conforms_source (by omega) he hctx (hfound v rfl)).bind fun j x hij hx => ?_
      refine (ih (by omega) (D.mono hij he) (heldContext_mono hij hctx) (D.mono hij hl)).bind fun k xs hjk hxs => ?_
      exact conforms_pure (heldAll_cons (D.mono hjk hx) hxs)

/-- One expression conforms to a discipline. -/
theorem conforms_expression (h : D.Ready i (.expression engine v ctx)) :
    D.Conforms (4 * fuel + 3) i (Logged.expression fuel engine ctx v) D.Held := by
  obtain ⟨he, hv, hctx⟩ := of_ready_script h
  have hw : 4 * fuel + 2 < 4 * fuel + 3 := by omega
  refine conforms_keep (upholds_ask fun s hs => Custody.gives_command hs hv) fun command hparts => ?_
  refine conforms_keep upholds_store fun s _ => conforms_keep (upholds_trace _) fun _ _ => ?_
  cases command with
  | call target args =>
    obtain ⟨htarget, hargs⟩ := List.forall_mem_cons.1 hparts
    refine (conforms_callee hw he hctx v htarget).bind fun j found hij hfound => ?_
    have he' := D.mono hij he
    have hvalues : D.Conforms (4 * fuel + 3) j (givenArguments fuel engine ctx args) D.HeldAll := by
      cases args with
      | none => exact conforms_pure heldAll_nil
      | some list =>
        have hlist := D.mono hij (hargs list (by simp))
        exact conforms_arguments (by omega) he' (heldContext_mono hij hctx) hlist
    refine hvalues.bind fun k values hjk hvalues => conforms_keep upholds_store fun s _ => ?_
    split
    · refine conforms_start (by simp [Task.weight]) (ready_of_heldAll (heldAll_cons (D.mono hjk he') ?_) rfl)
      exact heldAll_append (heldAll_mono hjk hfound) hvalues
    · refine conforms_lift (Upholds.here (upholds_ask fun s _ => ?_) fun _ h => h)
      exact (s.plain_plainText _).bind fun _ _ => (s.plain_print _).bind fun _ _ => ends_error rfl
  | get target => exact conforms_get hw he hctx v (hparts target (by simp [Command.parts]))
  | lambda params body =>
    have hp : D.Held i params := hparts params (by simp [Command.parts])
    have hb : D.Held i body := hparts body (by simp [Command.parts])
    exact conforms_lift (upholds_extend fun s hs => later_allocClosure hs hp hb hctx he)
  | set receiver x =>
    refine (conforms_source hw he hctx (hparts x (by simp [Command.parts]))).bind fun j x hij hx => ?_
    refine conforms_keep (upholds_ask fun s _ => s.plain_pathOf receiver) fun path _ => ?_
    exact conforms_start (by simp [Task.weight]) (ready_write hx (heldContext_mono hij hctx) path)
  | value payload =>
    refine conforms_keep upholds_store fun s hs => ?_
    exact conforms_pure (Custody.held_unwrap hs (hparts payload (by simp [Command.parts])))

theorem conforms_sequel {list : Value} : ∀ {fuel n : Nat} {i : D.Stage} {ctx : Context} {last : Value}, 4 * fuel ≤ w →
    D.Held i (.ref engine) → (D.custody i).HeldContext ctx → D.Held i list → D.Held i last →
    D.Conforms w i (sequel engine fuel list n ctx last) D.Held := by
  intro fuel
  induction fuel with
  | zero => intro n i ctx last _ _ _ _ _; exact conforms_lift upholds_exhaust
  | succ fuel ih =>
    intro n i ctx last hw he hctx hl hlast
    refine conforms_keep (upholds_element? hl n) fun found hfound => ?_
    cases found with
    | none => exact conforms_pure hlast
    | some v =>
      have hready : D.Ready i (.expression engine v ctx) := ready_script he (hfound v rfl) hctx
      refine (conforms_start (by simp only [Task.weight]; omega) hready).bind fun j x hij hx => ?_
      have hctx' := heldContext_mono hij hctx
      exact ih (by omega) (D.mono hij he) ⟨hctx'.1, hctx'.2.1, hx⟩ (D.mono hij hl) hx

/-- What a script is conforms to a discipline. -/
theorem conforms_form (hw : 4 * fuel + 3 < w) (he : D.Held i (.ref engine)) (hv : D.Held i v)
    (hctx : (D.custody i).HeldContext ctx) : D.Conforms w i (form fuel engine ctx v) D.Held := by
  refine conforms_keep (upholds_ask fun s _ => Custody.gives_script s v) fun form hform => ?_
  rcases hform with rfl | rfl
  · exact conforms_start (by simp only [Task.weight]; omega) (ready_script he hv hctx)
  · exact conforms_sequel (by omega) he hctx hv Custody.held_null

/-- A script conforms to a discipline, if looking up what runs it does. -/
theorem conforms_script (hself : D.Upholds i (evaluatorOf engine) (D.At i fun r => D.Held i (.ref r)))
    (h : D.Ready i (.script engine v ctx)) : D.Conforms (4 * fuel) i (Logged.script engine ctx fuel v) D.Held := by
  obtain ⟨-, hv, hctx⟩ := of_ready_script h
  cases fuel with
  | zero => exact conforms_lift upholds_exhaust
  | succ fuel => exact conforms_keep hself fun evaluator he => conforms_form (by omega) he hv hctx

/-- The list of arguments that a call expression makes is held. -/
theorem conforms_invoke (hD : D.RulesHost) {found : Callee} {values : List Value}
    (h : D.Ready i (.invoke engine found values)) :
    D.Conforms (4 * fuel + 2) i (Logged.invoke fuel engine found values) D.Held := by
  have hheld := h.1
  simp only [HeldAll, Task.values, List.forall_mem_cons] at hheld
  obtain ⟨he, hf, hr, hname, hvalues⟩ := hheld
  refine (conforms_lift (upholds_extend fun s hs => later_allocList hs hvalues)).bind fun j list hij hlist => ?_
  refine conforms_keep (upholds_callerOf hD (D.mono hij he)) fun caller hcaller => ?_
  refine conforms_start (by simp [Task.weight]) (ready_of_heldAll ?_ rfl)
  exact heldAll_cons hcaller (heldAll_cons (D.mono hij hf) (heldAll_cons hlist
    (heldAll_pair (D.mono hij hr) (D.mono hij hname))))

end Scripts

/-! ## Calls -/

section Calls

variable {engine : Ref} {f args receiver name : Value}

theorem upholds_callLabel (hname : D.Held i name) : D.Upholds i (callLabel f name) (D.At i (D.Held i)) := by
  refine upholds_store.keep fun s _ => ?_
  split
  · exact upholds_pure ⟨rfl, hname⟩
  · refine (upholds_ask fun s _ => s.plain_print f).keep fun shown _ => ?_
    exact upholds_pure ⟨rfl, Custody.held_text shown⟩

variable (hD : D.RulesHost) (he : D.Held i (.ref engine)) (hopen : (D.custody i).exposes engine)

include hD he hopen

theorem upholds_openCall (hargs : D.Held i args) (hr : D.Held i receiver) (hname : D.Held i name) :
    D.Upholds i (openCall engine f args receiver name) fun j p =>
      D.HeldAll j p.1 ∧ ∀ v, p.2 = some v → D.Held j v := by
  refine (upholds_callLabel hname).keep fun label hlabel => upholds_store.keep fun s _ => ?_
  refine (upholds_ask_of fun s hs => hD.ends (Custody.yields_sizedElements hs hargs)).keep fun items hitems => ?_
  refine (upholds_trace _).keep fun _ _ => ?_
  have hpush : D.Upholds i (change (·.pushFrame engine label args)) fun _ _ => True :=
    upholds_change_of fun s hs => hD.ends (later_pushFrame hs he hopen hlabel hargs)
  refine hpush.bind fun j _ hij _ => upholds_store.keep fun s _ => ?_
  refine upholds_pure ⟨heldAll_mono hij hitems, fun v hv => ?_⟩
  dsimp only at hv
  split at hv <;> cases hv
  exact D.mono hij hr

theorem upholds_recordOutcome {outcome : Except Raised Value} (hok : ∀ v, outcome = .ok v → D.Held i v)
    (herr : ∀ e, outcome = .error e → D.fault i e) :
    D.Upholds i (recordOutcome engine outcome) fun j result =>
      (∀ v, result = .ok v → D.Held j v) ∧ ∀ e, result = .error e → D.fault j e := by
  cases outcome with
  | ok v => exact upholds_pure ⟨hok, herr⟩
  | error e =>
    have hrecord : D.Upholds i (recordCalls engine e) (D.At i (D.fault i)) := by
      unfold recordCalls
      split
      · refine (upholds_ask_of fun s hs => hD.ends (Custody.yields_frames hs he hopen)).keep fun frames hframes => ?_
        refine upholds_pure ⟨rfl, (hD i _).2 ?_⟩
        rintro frames' ⟨⟩
        exact hframes
      · exact upholds_pure ⟨rfl, herr e rfl⟩
    have hraise : D.Upholds i (recordCalls engine e >>= fun e => raise e) D.Held :=
      hrecord.keep fun e he => upholds_raise he
    exact hraise.attempt

theorem upholds_closeCall {outcome : Except Raised Value} (hok : ∀ v, outcome = .ok v → D.Held i v)
    (herr : ∀ e, outcome = .error e → D.fault i e) : D.Upholds i (closeCall engine outcome) D.Held := by
  refine (upholds_recordOutcome hD he hopen hok herr).bind fun j recorded hij hrecorded => ?_
  have hpop : D.Upholds j (change (·.popFrame engine)) (D.At j fun _ => True) := by
    refine upholds_change_of fun s hs => hD.ends ?_
    exact (Custody.yields_popFrame hs (D.mono hij he) (D.exposed hij hopen)).mono fun s' hs' =>
      later_self hs' ⟨rfl, trivial⟩
  exact hpop.keep fun _ _ => upholds_ofExcept hrecorded.1 hrecorded.2

omit he in
/-- A call on an evaluator whose stack is exposed conforms to a discipline. -/
theorem conforms_call (h : D.Ready i (.call engine f args receiver name)) :
    D.Conforms (4 * fuel + 1) i (Logged.call fuel engine f args receiver name) D.Held := by
  have hheld := h.1
  simp only [HeldAll, Task.values, List.forall_mem_cons] at hheld
  obtain ⟨he, hf, hargs, hr, hname, -⟩ := hheld
  refine (conforms_lift (upholds_openCall hD he hopen hargs hr hname)).bind fun j p hij hp => ?_
  have happly : D.Ready j (.apply f p.1 p.2) := by
    refine ready_of_heldAll (heldAll_cons (D.mono hij hf) (heldAll_append ?_ hp.1)) rfl
    exact fun v hv => hp.2 v (Option.mem_toList.1 hv)
  refine (conforms_watch (by simp [Task.weight]) happly).bind fun k outcome hjk houtcome => ?_
  have hik := D.trans hij hjk
  exact conforms_lift (upholds_closeCall hD (D.mono hik he) (D.exposed hik hopen) houtcome.1 houtcome.2)

end Calls

/-! ## Functions -/

section Functions

variable {f list self : Value} {args : List Value} {this : Option Value}

theorem ready_apply (hf : D.Held i f) (h : D.HeldAll i args) : D.Ready i (.apply f args none) :=
  ready_of_heldAll (heldAll_cons hf h) rfl

variable (hw : 4 * fuel < w)

include hw

theorem conforms_again (hf : D.Held i f) (h : D.HeldAll i args) :
    D.Conforms w i (start fuel (.apply f args none)) D.Held :=
  conforms_start hw (ready_apply hf h)

theorem conforms_mapFrom : ∀ {n k : Nat} {i : D.Stage} {done : List Value}, D.Held i f → D.Held i list →
    D.HeldAll i done → D.Conforms w i (mapFrom fuel f list n k done) D.HeldAll := by
  intro n
  induction n with
  | zero => intro k i done _ _ _; exact conforms_lift upholds_exhaust
  | succ n ih =>
    intro k i done hf hl hdone
    refine conforms_keep (upholds_element? hl k) fun found hfound => ?_
    cases found with
    | none => exact conforms_pure (heldAll_reverse hdone)
    | some x =>
      refine (conforms_again hw hf (heldAll_singleton (hfound x rfl))).bind fun j y hij hy => ?_
      exact ih (D.mono hij hf) (D.mono hij hl) (heldAll_cons hy (heldAll_mono hij hdone))

theorem conforms_foldFrom : ∀ {n k : Nat} {i : D.Stage} {acc : Value}, D.Held i f → D.Held i list →
    D.Held i acc → D.Conforms w i (foldFrom fuel f list n k acc) D.Held := by
  intro n
  induction n with
  | zero => intro k i acc _ _ _; exact conforms_lift upholds_exhaust
  | succ n ih =>
    intro k i acc hf hl hacc
    refine conforms_keep (upholds_element? hl k) fun found hfound => ?_
    cases found with
    | none => exact conforms_pure hacc
    | some x =>
      refine (conforms_again hw hf (heldAll_pair hacc (hfound x rfl))).bind fun j y hij hy => ?_
      exact ih (D.mono hij hf) (D.mono hij hl) hy

theorem conforms_timesFrom : ∀ {n : Nat} {k : Int} {i : D.Stage} {done : List Value}, D.Held i f →
    D.HeldAll i done → D.Conforms w i (timesFrom fuel f n k done) D.HeldAll := by
  intro n
  induction n with
  | zero => intro k i done _ hdone; exact conforms_pure (heldAll_reverse hdone)
  | succ n ih =>
    intro k i done hf hdone
    refine (conforms_again hw hf (heldAll_singleton (Custody.held_int k))).bind fun j y hij hy => ?_
    exact ih (D.mono hij hf) (heldAll_cons hy (heldAll_mono hij hdone))

theorem conforms_notifyAll : ∀ {waiting : List Value} {i : D.Stage}, D.Held i self → D.HeldAll i waiting →
    D.Conforms w i (notifyAll fuel self waiting) fun _ _ => True := by
  intro waiting
  induction waiting with
  | nil => intro i _ _; exact conforms_pure trivial
  | cons f rest ih =>
    intro i hself h
    obtain ⟨hf, hrest⟩ := List.forall_mem_cons.1 h
    refine (conforms_again hw hf (heldAll_singleton hself)).bind fun j _ hij _ => ?_
    exact ih (D.mono hij hself) (heldAll_mono hij hrest)

omit hw in
/-- The body of a script function is run only if what it has captured is a context. -/
theorem context_of_openBelow {g : Closure} {outer : Value} {st st' : State} {p : Ref × Context}
    (h : openBelow g args outer st = .value p st') : ∃ ctx attrs, st.store.cell? g.context = some (.context ctx attrs) := by
  obtain ⟨scope, st₁, hscope, h⟩ := bind_eq_value.1 h
  obtain ⟨names, st₂, hnames, h⟩ := bind_eq_value.1 h
  obtain ⟨_, st₃, hbind, h⟩ := bind_eq_value.1 h
  obtain ⟨_, st₄, hresult, h⟩ := bind_eq_value.1 h
  obtain ⟨engine, st₅, hengine, h⟩ := bind_eq_value.1 h
  obtain ⟨ctx, st₆, hneed, _⟩ := bind_eq_value.1 h
  obtain ⟨rfl, rfl⟩ := extend_eq_value.1 hscope
  obtain ⟨-, rfl⟩ := ask_eq_value.1 hnames
  obtain ⟨s, hbound, rfl⟩ := change_eq_value.1 hbind
  obtain ⟨-, rfl⟩ := ofExcept_eq_value.1 hresult
  obtain ⟨rfl, -⟩ := (looks_engineFor _ _).of_value hengine
  obtain ⟨attrs, hc⟩ := Store.cell?_of_context? ((looks_contextFrom _ _).of_value hneed).2
  have hnew := Store.cell?_of_bindParameters (Store.scope?_allocEmptyScope _ outer) hbound hc
  have hnew := (Store.cell?_of_alloc hnew).resolve_right (by rintro ⟨⟩)
  exact ⟨ctx, attrs, (Store.cell?_of_alloc hnew).resolve_right (by rintro ⟨⟩)⟩

omit hw in
/-- Once a scope is there, its bindings take the arguments. What the context of the body has for a scope is that one. -/
theorem allows_openBelow (hD : D.RulesHost) {g : Closure} {outer : Value} {st : State}
    (hparams : D.Held i g.params) (hcontext : D.Held i g.context) (hengine : D.Held i g.engine) (h : D.HeldAll i args)
    (hs : (D.custody i).inv (st.store.allocEmptyScope outer).2) (hb : D.Held i (st.store.allocDict []).1) :
    D.Allows i (D.At i fun p => D.Held i (.ref p.1) ∧ p.2.scope = (st.store.allocEmptyScope outer).1 ∧
      D.Held i p.2.this ∧ D.Held i p.2.last) (openBelow g args outer st) := by
  have hscope := Store.scope?_allocEmptyScope st.store outer
  change D.Allows i _ (openParts g args (st.store.allocEmptyScope outer).1
    { st with store := (st.store.allocEmptyScope outer).2 })
  refine allows_bind_ask hs (Custody.gives_traverse hs hparams) fun names _ hnames => ?_
  refine allows_bind_change hs (Custody.gives_bindParameters hb hs hscope hnames.1 h) fun s _ hs' => ?_
  have hresult : D.Upholds i (ofExcept names.result) (D.At i fun _ => True) :=
    upholds_ofExcept (fun _ _ => ⟨rfl, trivial⟩) fun e he => D.plain i e (hnames.result.error e he)
  refine hresult.keep (fun _ _ => ?_) { st with store := s } hs'
  refine (upholds_engineFor hengine).keep fun engine he => ?_
  refine (upholds_contextFrom hD hcontext).keep fun ctx hctx => ?_
  exact upholds_pure ⟨rfl, he, rfl, hctx.1, hctx.2.2⟩

omit hw in
/-- The new scope of an application is below the variables of the captured context. If what is captured is no context,
the application ends in an error. -/
theorem upholds_openClosure (hD : D.RulesHost) {g : Closure} (hparams : D.Held i g.params) (hcontext : D.Held i g.context)
    (hengine : D.Held i g.engine) (h : D.HeldAll i args) :
    D.Upholds i (openClosure g args) fun j p => D.Held j (.ref p.1) ∧ (D.custody j).HeldContext p.2 := by
  intro st hs
  have hvariables := Custody.gives_needAttribute hs hcontext (show "variables" ≠ "call_stack" by decide)
  change D.Allows i _ (Effect.bind (ask fun s => s.needAttribute g.context "variables") (openBelow g args) st)
  unfold Effect.bind Effect.ask
  dsimp only
  cases hneed : st.store.needAttribute g.context "variables" with
  | error e => exact later_self hs (D.plain i e (hvariables.error e hneed))
  | ok v =>
    change D.Allows i _ (openBelow g args v st)
    by_cases hctx : ∃ ctx attrs, st.store.cell? g.context = some (.context ctx attrs)
    · obtain ⟨ctx, attrs, hc⟩ := hctx
      obtain rfl : v = ctx.scope := by
        rw [Store.needAttribute_variables hc] at hneed
        exact (Except.ok.inj hneed).symm
      obtain ⟨j, hij, hs', hscope⟩ := D.scopes i st.store ctx.scope hs (.inr (Custody.outer_scope hs hcontext hc))
      have hb := Custody.held_of_scope? hs' ((D.custody j).held_of_outer _ hscope)
        (Store.scope?_allocEmptyScope st.store ctx.scope)
      have hopen := allows_openBelow hD (D.mono hij hparams) (D.mono hij hcontext) (D.mono hij hengine)
        (heldAll_mono hij h) hs' hb
      refine (hopen.here fun p hp => ⟨hp.1, hp.2.2.1, ?_, hp.2.2.2⟩).trans hij
      rw [hp.2.1]
      exact hscope
    · obtain ⟨j, hij, hs', hb⟩ := later_allocEmptyScope hs (hvariables.value v hneed)
      have hopen := allows_openBelow hD (D.mono hij hparams) (D.mono hij hcontext) (D.mono hij hengine)
        (heldAll_mono hij h) hs' hb
      cases hout : openBelow g args v st with
      | value p st' => exact absurd (context_of_openBelow hout) hctx
      | raised e st' =>
        rw [hout] at hopen
        exact Later.trans hopen hij
      | exhausted => trivial

theorem conforms_closure (hD : D.RulesHost) {g : Closure} (hparams : D.Held i g.params) (hbody : D.Held i g.body)
    (hcontext : D.Held i g.context) (hengine : D.Held i g.engine) (h : D.HeldAll i args) :
    D.Conforms w i (closure fuel g args) D.Held := by
  refine (conforms_lift (upholds_openClosure hD hparams hcontext hengine h)).bind fun j p hij hp => ?_
  exact conforms_start hw (ready_script hp.1 (D.mono hij hbody) hp.2)

variable (hD : D.RulesHost)

include hD

theorem conforms_guardedCall (name : String) (hf : D.Held i f) (h : D.HeldAll i args) :
    D.Conforms w i (guardedCall fuel name f args) fun j result =>
      (∀ v, result = .ok v → D.Held j v) ∧ ∀ e, result = .error e → D.fault j e := by
  refine (conforms_lift (upholds_needCallable hD name f).attempt).bind fun j checked hij hchecked => ?_
  cases checked with
  | ok _ => exact conforms_watch hw (ready_apply (D.mono hij hf) (heldAll_mono hij h))
  | error e =>
    refine conforms_pure ⟨?_, ?_⟩
    · rintro v ⟨⟩
    · rintro e' ⟨⟩
      exact hchecked.2 e rfl

section Codes

variable {got : List Value} {m : Host.Memory}

omit hw hD

theorem conforms_tried {t : Task} (caught : Bool) (hw : t.weight fuel < w) (ht : D.Ready i t) :
    D.Conforms w i (Logged.tried fuel caught t) fun j result =>
      (∀ v, result = .ok v → D.Held j v) ∧ ∀ e, result = .error e → D.fault j e := by
  unfold Logged.tried
  split
  · exact conforms_watch hw ht
  · refine (conforms_start hw ht).bind fun j v _ hv => conforms_pure ⟨?_, ?_⟩
    · rintro v' ⟨⟩
      exact hv
    · rintro e ⟨⟩

/-- What a step of a function gives is held, and its error may leave the function. -/
abbrev HeldResult (j : D.Stage) (result : Except Raised (List Value)) : Prop :=
  (∀ values, result = .ok values → D.HeldAll j values) ∧ ∀ e, result = .error e → D.fault j e

theorem heldResult_map {result : Except Raised Value}
    (h : (∀ v, result = .ok v → D.Held i v) ∧ ∀ e, result = .error e → D.fault i e) :
    HeldResult i (result.map fun v => [v]) := by
  cases result with
  | ok v =>
    refine ⟨?_, by rintro e ⟨⟩⟩
    rintro _ ⟨⟩
    exact heldAll_singleton (h.1 v rfl)
  | error e =>
    refine ⟨by rintro values ⟨⟩, ?_⟩
    rintro _ ⟨⟩
    exact h.2 e rfl

include hw hD

theorem conforms_act (h : D.HeldAll i got) (caught : Bool) (a : Host.Act Host.Code) :
    D.Conforms w i (Logged.act fuel got caught a) HeldResult := by
  have hown : ∀ {act : Effect (List Value)}, D.Upholds i act D.HeldAll →
      D.Conforms w i (lift (Host.tried caught act)) HeldResult := fun h => conforms_lift (upholds_tried caught h)
  have hcell : ∀ c : Cell, c.contents = [] → c.Captures (D.custody i).outer → c.scope? = none →
      D.Upholds i (Host.newCell c) D.Held := fun c hc hcaptures hscope =>
    upholds_extend fun s hs => later_alloc hs (by simp [hc]) hcaptures hscope
  have hterm := held_term h
  cases a with
  | makeList items =>
    exact hown ((upholds_newList (heldAll_terms h items)).bind fun j v _ hv => upholds_pure (heldAll_singleton hv))
  | makeDict items =>
    have hentries : ∀ s : Store, Yields (s.entriesOf [] (Host.alternating (items.map (·.value got)))) fun entries =>
        ∀ v ∈ entries.parts, D.Held i v :=
      fun s => Custody.yields_entriesOf (by simp [Entries.parts]) (held_alternating (heldAll_terms h items))
    refine hown ((upholds_ask_of fun s _ => hD.ends (hentries s)).keep fun entries hheld => ?_)
    exact (upholds_extend fun s hs => later_allocDict hs hheld).bind fun j v _ hv => upholds_pure (heldAll_singleton hv)
  | makeFunction code =>
    have hnew := hcell (.function (.other code) []) rfl trivial rfl
    exact hown (hnew.bind fun j v _ hv => upholds_pure (heldAll_singleton hv))
  | makeObject label code methods =>
    have hnew := hcell (.object (.other label code methods) []) rfl trivial rfl
    exact hown (hnew.bind fun j v _ hv => upholds_pure (heldAll_singleton hv))
  | iterate v => exact hown ((upholds_ask fun s hs => Custody.gives_elements hs (hterm v)).here fun _ hvs => hvs)
  | entries v =>
    refine hown ((upholds_ask_of fun s hs => hD.ends (Custody.yields_copiedEntries hs (hterm v))).keep fun _ hheld => ?_)
    exact upholds_pure hheld
  | print v =>
    refine hown ((upholds_ask fun s _ => s.plain_print _).keep fun _ _ => upholds_pure ?_)
    exact heldAll_singleton (Custody.held_text _)
  | read v segments =>
    refine (conforms_lift (upholds_ownContext (hterm v))).bind fun j ctx hij hctx => ?_
    refine (conforms_tried caught (by simp only [Task.weight]; omega) (ready_read hctx _)).bind fun k found _ hfound => ?_
    exact conforms_pure (heldResult_map hfound)
  | write v segments x =>
    refine (conforms_lift (upholds_ownContext (hterm v))).bind fun j ctx hij hctx => ?_
    refine (conforms_tried caught (by simp only [Task.weight]; omega)
      (ready_write (D.mono hij (hterm x)) hctx _)).bind fun k found _ hfound => ?_
    exact conforms_pure (heldResult_map hfound)
  | call f args =>
    refine (conforms_tried caught hw (ready_apply (hterm f) (heldAll_terms h args))).bind fun k found _ hfound => ?_
    exact conforms_pure (heldResult_map hfound)

theorem conforms_playFrom (code : Host.Code) : ∀ {n : Nat} {i : D.Stage} {m : Host.Memory}, D.HeldMemory i m →
    D.Conforms w i (Logged.playFrom fuel code n m) D.Held := by
  intro n
  induction n with
  | zero => intro i m _; exact conforms_lift upholds_exhaust
  | succ n ih =>
    intro i m hm
    unfold Logged.playFrom
    split
    · exact conforms_pure (held_term hm.1 _)
    · exact conforms_lift (upholds_failAs hD _ _)
    · exact conforms_lift (upholds_rethrow hD hm _)
    · refine (conforms_act hw hD hm.1 _ _).bind fun j outcome hij houtcome => ?_
      have hm' := heldMemory_mono hij hm
      cases outcome with
      | ok values => exact conforms_keep (upholds_add hm' (houtcome.1 values rfl)) fun m hm => ih hm
      | error e => exact ih (heldMemory_addError hm' ((hD j e).1 (houtcome.2 e rfl)))

/-- Every function that is given by its code conforms to a discipline. -/
theorem conforms_play (code : Host.Code) {own : List Value} (hown : D.HeldAll i own) (h : D.HeldAll i args)
    (hthis : ∀ v, this = some v → D.Held i v) : D.Conforms w i (Logged.play fuel code own args this) D.Held :=
  conforms_keep (upholds_ofCall hown h hthis) fun _ hm => conforms_playFrom hw hD code hm

end Codes

/-- Every function of the host conforms to a discipline. -/
theorem conforms_function (g : Host.Function) (h : D.HeldAll i args) (hthis : ∀ v, this = some v → D.Held i v) :
    D.Conforms w i (function fuel g args this) D.Held := by
  have hfirst := held_arg h 0
  have hsecond := held_arg h 1
  have hthird := held_arg h 2
  have hrest := heldAll_drop h 1
  cases g with
  | choose =>
    have hpick : D.Held i (if Host.arg args 0 = .bool true then Host.arg args 1 else Host.arg args 2) := by
      split
      · exact hsecond
      · exact hthird
    refine conforms_keep upholds_store fun s _ => ?_
    by_cases hc : s.isCallable (if Host.arg args 0 = .bool true then Host.arg args 1 else Host.arg args 2) = true
    · simp only [hc, if_true]
      exact conforms_again hw hpick heldAll_nil
    · simp only [hc]
      exact conforms_pure hpick
  | apply => exact conforms_keep (upholds_needCallable hD _ _) fun _ _ => conforms_again hw hfirst hrest
  | mapList =>
    refine conforms_keep (upholds_needCallable hD _ _) fun _ _ => conforms_keep (upholds_needList hD _ _) fun _ _ => ?_
    refine (conforms_mapFrom hw hfirst hsecond heldAll_nil).bind fun j ys _ hys => ?_
    exact conforms_lift (upholds_newList hys)
  | fold =>
    refine conforms_keep (upholds_needCallable hD _ _) fun _ _ => conforms_keep (upholds_needList hD _ _) fun _ _ => ?_
    exact conforms_foldFrom hw hfirst hthird hsecond
  | times =>
    refine conforms_keep (upholds_integerArg hD _ _) fun n _ => conforms_keep (upholds_needCallable hD _ _) fun _ _ => ?_
    refine (conforms_timesFrom hw hsecond heldAll_nil).bind fun j ys _ hys => ?_
    exact conforms_lift (upholds_newList hys)
  | guarded =>
    refine (conforms_guardedCall hw hD _ hfirst hrest).bind fun j result _ hresult => ?_
    cases result with
    | ok v => exact conforms_pure (hresult.1 v rfl)
    | error e => exact conforms_lift (upholds_report ((hD j e).1 (hresult.2 e rfl)))
  | wrap =>
    refine (conforms_guardedCall hw hD _ hfirst hrest).bind fun j result _ hresult => ?_
    cases result with
    | ok v => exact conforms_pure (hresult.1 v rfl)
    | error e => exact conforms_lift (upholds_fault hD _ _)
  | identity | firstParameter => exact conforms_lift (upholds_pure hfirst)
  | makeList => exact conforms_lift (upholds_newList h)
  | count => exact conforms_lift (upholds_pure (Custody.held_int _))
  | add => exact conforms_lift ((upholds_sum hD _ _).keep fun _ _ => upholds_pure (Custody.held_int _))
  | subtract | multiply =>
    refine conforms_lift ((upholds_integerArg hD _ _).keep fun _ _ => (upholds_integerArg hD _ _).keep fun _ _ => ?_)
    exact upholds_pure (Custody.held_int _)
  | lessThan =>
    refine conforms_lift ((upholds_integerArg hD _ _).keep fun _ _ => (upholds_integerArg hD _ _).keep fun _ _ => ?_)
    exact upholds_pure (Custody.held_bool _)
  | equals | same => exact conforms_lift (upholds_store.keep fun _ _ => upholds_pure (Custody.held_bool _))
  | concat => exact conforms_lift ((upholds_joined hD _).keep fun _ _ => upholds_pure (Custody.held_text _))
  | makeDict =>
    have hentries : ∀ s : Store, Yields (s.entriesOf [] (Host.alternating args)) fun entries =>
        ∀ v ∈ entries.parts, D.Held i v :=
      fun s => Custody.yields_entriesOf (by simp [Entries.parts]) (held_alternating h)
    refine conforms_lift ((upholds_ask_of fun s _ => hD.ends (hentries s)).keep fun entries hheld => ?_)
    exact upholds_extend fun s hs => later_allocDict hs hheld
  | push => exact conforms_lift ((upholds_pushAll hD _ hfirst hrest).keep fun _ _ => upholds_pure hfirst)
  | pushThenFail => exact conforms_lift ((upholds_pushAll hD _ hfirst hrest).keep fun _ _ => upholds_fault hD _ _)
  | fail => exact conforms_lift (upholds_failWith hD _ _)
  | display =>
    exact conforms_lift ((upholds_ask fun s _ => s.plain_print _).keep fun _ _ => upholds_pure (Custody.held_text _))
  | receiver => exact conforms_lift ((upholds_needReceiver hD _ hthis).here fun _ hv => hv)
  | receiverAndArgs =>
    refine conforms_lift ((upholds_needReceiver hD _ hthis).keep fun owner howner => ?_)
    refine (upholds_newList h).bind fun j list hij hlist => ?_
    exact upholds_newList (heldAll_pair (D.mono hij howner) hlist)
  | optionalReceiver =>
    refine conforms_lift (upholds_pure ?_)
    cases this with
    | none => exact Custody.held_text _
    | some v => exact hthis v rfl
  | anyKeyword => exact conforms_lift (upholds_newList heldAll_nil)
  | receiverGet =>
    refine conforms_lift ((upholds_needReceiver hD _ hthis).keep fun owner howner => upholds_store.keep fun s _ => ?_)
    split
    · refine (upholds_ask fun s hs => Custody.gives_valueAt? hs howner _).keep fun o ho => ?_
      exact upholds_pure (Custody.held_getD ho)
    · exact upholds_pure Custody.held_null
  | receiverSet =>
    refine conforms_lift ((upholds_needReceiver hD _ hthis).keep fun owner howner => upholds_store.keep fun s _ => ?_)
    split
    · refine (upholds_change fun s hs => Custody.gives_setEntry hs howner hfirst hsecond).keep fun _ _ => ?_
      exact upholds_pure howner
    · exact upholds_fault hD _ _
  | increment => exact conforms_lift ((upholds_integerArg hD _ _).keep fun _ _ => upholds_pure (Custody.held_int _))
  | unmarked => exact conforms_lift (upholds_pure (Custody.held_text _))
  | other code => exact conforms_play hw hD code heldAll_nil h hthis

/-- Every callable object conforms to a discipline. -/
theorem conforms_object (hself : D.Held i self) (cls : Host.Class) (h : D.HeldAll i args)
    (hthis : ∀ v, this = some v → D.Held i v) : D.Conforms w i (object fuel self cls args this) D.Held := by
  have hrefused : ∀ {e : Raised}, e.stack = none → D.Conforms w i (lift (raise e)) D.Held := fun he =>
    conforms_lift (upholds_raise (hD.fault_of_none he))
  cases cls with
  | callable =>
    cases this with
    | none => exact conforms_lift (upholds_newList h)
    | some owner => exact hrefused rfl
  | callableThis =>
    cases this with
    | none => exact hrefused rfl
    | some owner =>
      refine conforms_lift ((upholds_newList h).bind fun j list hij hlist => ?_)
      exact upholds_newList (heldAll_pair (D.mono hij (hthis owner rfl)) hlist)
  | other label call methods =>
    cases call with
    | none => exact hrefused rfl
    | some code => exact conforms_play hw hD code (heldAll_singleton hself) h hthis
  | _ => exact hrefused rfl

theorem conforms_onFuture (hself : D.Held i self) (m : Host.Method) (h : D.HeldAll i args) :
    D.Conforms w i (onFuture fuel self m args) D.Held := by
  have hfirst := held_arg h 0
  have hnull : ∀ j, D.Conforms w j (pure Value.null) D.Held := fun j => conforms_pure Custody.held_null
  refine conforms_keep (upholds_futureState hself) fun state hstate => ?_
  obtain ⟨result, waiting⟩ := state
  cases m with
  | addDoneCallback =>
    cases result with
    | none =>
      refine conforms_keep (upholds_setFuture hself hstate.1 ?_) fun _ _ => hnull i
      exact heldAll_append hstate.2 (heldAll_singleton hfirst)
    | some v => exact (conforms_again hw hfirst (heldAll_singleton hself)).bind fun j _ _ _ => hnull j
  | setResult =>
    cases result with
    | none =>
      refine conforms_keep (upholds_setFuture hself ?_ hstate.2) fun _ _ => ?_
      · rintro v ⟨⟩
        exact hfirst
      · exact (conforms_notifyAll hw hself hstate.2).bind fun j _ _ _ => hnull j
    | some v => exact conforms_lift (upholds_fault hD _ _)
  | result =>
    cases result with
    | none => exact conforms_lift (upholds_fault hD _ _)
    | some v => exact conforms_pure (hstate.1 v rfl)
  | _ => cases result <;> exact hnull i

omit hw in
/-- Every method of an evaluator conforms to a discipline. -/
theorem conforms_onEngine {engine : Ref} (hw : 4 * fuel + 3 < w) (he : D.Held i (.ref engine)) (m : Host.Method)
    (h : D.HeldAll i args) : D.Conforms w i (onEngine fuel engine m args) D.Held := by
  have hcall : ∀ f list receiver name, D.HeldAll i [f, list, receiver, name] →
      D.Conforms w i (start fuel (.call engine f list receiver name)) D.Held := fun f list receiver name hheld =>
    conforms_start (by simp only [Task.weight]; omega) (ready_of_heldAll (heldAll_cons he hheld) rfl)
  unfold onEngine
  split
  · simp only [HeldAll, List.forall_mem_cons] at h
    exact conforms_keep (upholds_contextFrom hD h.2.1) fun ctx hctx => conforms_form hw he h.1 hctx
  · exact hcall _ _ _ _ (heldAll_append h (heldAll_pair Custody.held_null Custody.held_null))
  · exact hcall _ _ _ _ (heldAll_append h (heldAll_singleton Custody.held_null))
  · exact hcall _ _ _ _ h
  · exact conforms_lift (upholds_fault hD _ _)

/-- Every method of another value conforms to a discipline. -/
theorem conforms_method (hself : D.Held i self) (m : Host.Method) (h : D.HeldAll i args)
    (hthis : ∀ v, this = some v → D.Held i v) : D.Conforms w i (method fuel self m args this) D.Held := by
  refine conforms_keep upholds_store fun s _ => ?_
  split
  · exact conforms_lift (upholds_performOnText hD _ _ m args)
  · exact conforms_lift (upholds_performOnList hD hself m h)
  · exact conforms_onFuture hw hD hself m h
  · unfold Logged.onObject
    split
    · exact conforms_play hw hD _ (heldAll_singleton hself) h hthis
    · exact conforms_lift (upholds_performOnHero hD hself m h hthis)
  · exact conforms_lift (upholds_performOnHero hD hself m h hthis)

omit hw in
/-- The application of a value conforms to a discipline. -/
theorem conforms_apply (h : D.Ready i (.apply f args this)) :
    D.Conforms (4 * fuel) i (Logged.apply f args this fuel) D.Held := by
  obtain ⟨hf, h⟩ := List.forall_mem_cons.1 h.1
  obtain ⟨hthis, hargs⟩ := List.forall_mem_append.1 h
  have hthis' : ∀ v, this = some v → D.Held i v := fun v hv => hthis v (Option.mem_toList.2 hv)
  cases fuel with
  | zero => exact conforms_lift upholds_exhaust
  | succ fuel =>
    have hw : 4 * fuel < 4 * (fuel + 1) := by omega
    refine conforms_keep upholds_store fun s hs => ?_
    split
    · rename_i parts attrs hc
      have hpart : ∀ v ∈ (Cell.closure parts attrs).parts, D.Held i v := fun v hv => Custody.held_part hs hf hc hv
      refine conforms_closure hw hD ?_ ?_ ?_ ?_ hargs <;> exact hpart _ (by simp [Cell.parts])
    · exact conforms_function hw hD _ hargs hthis'
    · rename_i self m hc
      have hself : D.Held i self := Custody.held_part hs hf hc List.mem_cons_self
      split
      · rename_i engine hengine
        exact conforms_onEngine hD (by omega) (held_of_engine? hengine hself) m hargs
      · exact conforms_method hw hD hself m hargs hthis'
    · exact conforms_object hw hD hf _ hargs hthis'
    · exact conforms_lift (upholds_raise (hD.fault_of_none rfl))

end Functions

end Discipline

/-! ## Paths -/

/-- The containers that a read or a write at a path comes to. -/
def Moment.visits (m : Moment) : List Visit :=
  match m.task with
  | .read path ctx => m.state.store.walk (ctx.rootValue path.root) path.segments
  | .write path _ ctx => if path.root = .lastValue then [] else m.state.store.route path ctx
  | _ => []

namespace Discipline

variable {D : Discipline} {m m' : Moment}

theorem upholds_readAt {i : D.Stage} {ctx : Context} {path : Path} {st : State} (hs : (D.custody i).inv st.store)
    (hctx : (D.custody i).HeldContext ctx)
    (hadmits : (D.custody i).AdmitsAll (st.store.walk (ctx.rootValue path.root) path.segments)) :
    D.Allows i D.Held (readAt path ctx st) := by
  have hread := gives_read hs hctx hadmits
  unfold readAt Effect.askGrowing
  dsimp only
  cases h : st.store.read path ctx with
  | ok p =>
    obtain ⟨v, store⟩ := p
    exact hread.value (v, store) h
  | error e => exact later_self (Q := fun j => D.fault j e) hs (D.plain i e (hread.error e h))

theorem upholds_writeAt {i : D.Stage} {ctx : Context} {path : Path} {v : Value} {st : State}
    (hs : (D.custody i).inv st.store) (hv : D.Held i v) (hctx : (D.custody i).HeldContext ctx)
    (hopens : path.root ≠ .lastValue → (D.custody i).OpensAll (st.store.route path ctx))
    (hadmits : path.root ≠ .lastValue → (D.custody i).AdmitsAll (st.store.route path ctx))
    (htakes : path.root ≠ .lastValue → (D.custody i).TakesLast (st.store.route path ctx) v) :
    D.Allows i D.Held (writeAt path v ctx st) := by
  obtain ⟨j, hij, hs', herr⟩ := later_assign hs hctx hv hopens hadmits htakes
  unfold writeAt
  cases h : st.store.assign path v ctx with
  | mk store error =>
    rw [h] at hs' herr
    cases error with
    | none => exact ⟨j, hij, hs', D.mono hij hv⟩
    | some e => exact ⟨j, hij, hs', D.plain j e (herr e rfl)⟩

/-! ## Moments -/

/-- A read or a write leads to no stack that is kept back. A write goes through no evaluator whose attributes have to
stay, and gives contexts outer variables only. -/
def Permits (i : D.Stage) (m : Moment) : Prop :=
  (D.custody i).AdmitsAll m.visits ∧ ∀ path v ctx, m.task = .write path v ctx →
    (D.custody i).OpensAll m.visits ∧ (D.custody i).TakesLast m.visits v

/-- What a moment that conforms hands to the moments it starts is held. -/
theorem later_of_starts {w : Nat} {i : D.Stage} (h : D.Conforms w i (m.task.logged m.fuel) D.Held)
    (hs : (D.custody i).inv m.state.store) (hsub : ∀ m', m.Starts m' → D.Good m') (hm : m.Starts m') :
    m'.weight < w ∧ D.Later i m'.state.store fun j => D.Ready j m'.task := by
  obtain ⟨ev, hev, rfl⟩ := hm
  exact (h m.state hs fun ev hev => hsub _ ⟨ev, hev, rfl⟩).2 ev hev

/-- Every task conforms to a discipline, a call on condition that it exposes the stack; a read or a write has conditions
of its own. -/
theorem conforms_task (hD : D.RulesHost) {i : D.Stage}
    (hcall : ∀ engine f args receiver name, m.task = .call engine f args receiver name → (D.custody i).exposes engine)
    (hpath : ∀ path ctx v, m.task ≠ .read path ctx ∧ m.task ≠ .write path v ctx) (hm : D.Ready i m.task) :
    D.Conforms m.weight i (m.task.logged m.fuel) D.Held := by
  obtain ⟨fuel, task, st⟩ := m
  cases task with
  | script engine v ctx => exact conforms_script (upholds_evaluatorOf hD (of_ready_script hm).1) hm
  | expression engine v ctx => exact conforms_expression hm
  | invoke engine found values => exact conforms_invoke hD hm
  | call engine f args receiver name => exact conforms_call hD (hcall engine f args receiver name rfl) hm
  | apply f args this => exact conforms_apply hD hm
  | read path ctx => exact absurd rfl (hpath path ctx .null).1
  | write path v ctx => exact absurd rfl (hpath path ctx v).2

/-- A read or a write keeps the property if it is permitted. -/
theorem allows_of_permits {i : D.Stage} {path : Path} {ctx : Context} {v : Value}
    (h : m.task = .read path ctx ∨ m.task = .write path v ctx) (hpermits : D.Permits i m)
    (hs : (D.custody i).inv m.state.store) (hm : D.Ready i m.task) : D.Allows i D.Held m.outcome := by
  obtain ⟨fuel, task, st⟩ := m
  obtain ⟨hadmits, htakes⟩ := hpermits
  rcases h with rfl | rfl
  · exact upholds_readAt hs (of_ready_read hm) hadmits
  · obtain ⟨hopens, hlast⟩ := htakes path v ctx rfl
    obtain ⟨hv, hctx⟩ := of_ready_write hm
    simp only [Moment.visits] at hopens hadmits hlast
    refine upholds_writeAt hs hv hctx (fun hroot => ?_) (fun hroot => ?_) fun hroot => ?_
    · rwa [if_neg hroot] at hopens
    · rwa [if_neg hroot] at hadmits
    · rwa [if_neg hroot] at hlast

end Discipline

end ListScript
