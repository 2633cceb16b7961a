import ListScript.Proofs.Arguments
import ListScript.Proofs.CallRecord
import ListScript.Proofs.Receiver
import ListScript.Proofs.Transcript

/-!
# The rule of method calls

A call whose target gives the text of a path first finds a function and its receiver, then evaluates the arguments from
left to right, and only then asks whether the function can be called. So whatever the arguments do, the function and the
receiver are those that were there before (`method_call`):

- `Store.methodAt` says what they are;
- `Supplies` is the evaluation of the arguments, without fuel and without the list object that holds their sources;
- `MethodCall` lists the ways in which such a call ends;
- `Invokes` says that the run comes to the application of a function.

A call of something that cannot be called is an invocation error that shows it. If it cannot be printed, the error is the
printer's instead (`not_method_call_long_integer`).
-/

namespace ListScript

open Effect

/-! ## The function and the receiver -/

/-- What the target of a call gives: a text stands for itself, anything else is run as a script. -/
def TargetGives (engine : Ref) (target : Value) (ctx : Context) (st : State) (resolved : Value) (st' : State) : Prop :=
  if target.isText then resolved = target ∧ st' = st else Evaluates engine target ctx st (.value resolved st')

section Callees

variable {engine : Ref} {e target name f receiver : Value} {path : Path} {ctx : Context} {st st' : State} {s : Store}

theorem steady_evalTarget (engine : Ref) (target : Value) (ctx : Context) :
    Steady fun n => evalTarget (runScript n engine) target ctx :=
  fun _ _ hmn => evalTarget_le ((run_le hmn).1 engine) target ctx

theorem steady_evalCallee (engine : Ref) (e target : Value) (ctx : Context) :
    Steady fun n => evalCallee (runScript n engine) e target ctx :=
  (steady_evalTarget engine target ctx).bind fun _ => steady_const _

theorem endsAs_evalTarget {resolved : Value} (h : TargetGives engine target ctx st resolved st') :
    EndsAs (fun n => evalTarget (runScript n engine) target ctx) st (.value resolved st') := by
  unfold TargetGives at h
  unfold evalTarget
  split at h
  · rename_i htext
    obtain ⟨rfl, rfl⟩ := h
    simp only [htext, if_true]
    exact endsAs_of_eq (fun _ => rfl) (by simp)
  · rename_i htext
    simp only [htext]
    exact h

/-- What the text of a path asks to call. -/
def calleeAt (path : Path) (name : Value) (ctx : Context) : Effect Callee := do
  let function ← readAt path ctx
  match path.parent with
  | none => return ⟨function, ctx.this, name⟩
  | some parent => return ⟨function, ← readAt parent ctx, name⟩

theorem endsAs_evalCallee {out : Outcome Callee} (htarget : TargetGives engine target ctx st name st')
    (hname : name.isText = true) (hpath : st'.store.pathOf name = .ok path) :
    EndsAs (fun n => evalCallee (runScript n engine) e target ctx) st out ↔
      EndsAs (fun _ => calleeAt path name ctx) st' out := by
  have hask : ask (·.pathOf name) st' = .value path st' := by simp only [ask, hpath]
  unfold evalCallee
  rw [(endsAs_evalTarget htarget).bind_const_iff (steady_evalTarget engine target ctx)]
  refine endsAs_congr fun _ => ?_
  rw [if_pos hname, bind_of_value hask]
  rfl

/-- A path that finds no function for the rule finds none for the call. -/
theorem calleeAt_of_error {err : Raised} (h : st.store.methodAt path ctx = .error err) (name : Value) :
    calleeAt path name ctx st = .raised err st := by
  have hread : readAt path ctx st = .raised err st := by
    simp only [readAt, askGrowing, Store.read_eq_methodAt, h, Except.map]
  exact bind_of_raised hread

/-- A path that finds a function for the rule finds it for the call. The receiver is that of the rule, too, if there is a
function. -/
theorem calleeAt_of_ok (h : st.store.methodAt path ctx = .ok (f, receiver, s)) (name : Value) :
    ∃ receiver' s', calleeAt path name ctx st = .value ⟨f, receiver', name⟩ { st with store := s' } ∧
      st.store.Persists s' ∧ (f ≠ .null → receiver' = receiver ∧ s' = s) := by
  have hwalk : st.store.read path ctx = .ok (f, s) := by rw [Store.read_eq_methodAt, h]; rfl
  have hread : readAt path ctx st = .value f { st with store := s } := by simp only [readAt, askGrowing, hwalk]
  have hkept := Store.persists_readBelow hwalk
  cases hparent : path.parent with
  | none =>
    have hthis : receiver = ctx.this := by
      simp only [Store.methodAt, hparent, hwalk, bind, Except.bind] at h
      cases h
      rfl
    refine ⟨ctx.this, s, ?_, hkept, fun _ => ⟨hthis.symm, rfl⟩⟩
    rw [calleeAt, bind_of_value hread, hparent]
    rfl
  | some parent =>
    obtain ⟨receiver', s', hagain, hkept', hsame⟩ := Store.read_parent_of_methodAt hparent h
    have hread' : readAt parent ctx { st with store := s } = .value receiver' { st with store := s' } := by
      simp only [readAt, askGrowing, hagain]
    refine ⟨receiver', s', ?_, hkept.trans hkept', hsame⟩
    rw [calleeAt, bind_of_value hread, hparent]
    exact bind_of_value hread'

end Callees

/-! ## Calls -/

namespace State

/-- The state with the values of the arguments in a new list, and with the entry for a call by a name. -/
def announced (st : State) (name : Value) (values : List Value) : State :=
  let s := (st.store.allocList values).2
  { st with store := s }.traced (callEntry s name values.length)

/-- An evaluator makes the call of another one, once the values of the arguments are in a new list. -/
def CalledBy (st : State) (engine : Ref) (values : List Value) (caller : Ref) : Prop :=
  callerOf engine (st.withArguments values) = .value caller (st.withArguments values)

/-- The state in which a function is applied: the call is active. -/
def opened (st : State) (engine : Ref) (name : Value) (values : List Value) : Except Raised State :=
  ((st.announced name values).store.pushFrame engine name (st.store.allocList values).1).map fun store =>
    { st.announced name values with store }

end State

namespace Store

variable {s t : Store} {engine : Ref}

theorem Persists.list?_eq (h : s.Persists t) {v : Value} {items : List Value} (hlist : s.list? v = some items) :
    t.list? v = some items := by
  cases hc : s.cell? v with
  | none => simp [list?, hc] at hlist
  | some cell => simpa only [list?, hc, h.cell?_eq hc] using hlist

/-- The list of active calls is there with more objects. -/
theorem Persists.stackOf_eq (h : s.Persists t) (hlist : s.isList (s.stackOf engine) = true) :
    t.stackOf engine = s.stackOf engine := by
  cases hc : s.get? engine with
  | none => simp [stackOf, hc, isList, list?, cell?] at hlist
  | some cell => simp only [stackOf, hc, h engine cell hc]

theorem exists_pushFrame (h : s.isList (s.stackOf engine) = true) (name args : Value) :
    ∃ s', s.pushFrame engine name args = .ok s' := by
  have hkept := s.persists_alloc (.dict [(.text "name", name), (.text "args", args)])
  obtain ⟨r, items, flavor, hstack, hc⟩ := Ward.isList_iff.1 h
  have hstack' := (hkept.stackOf_eq h).trans hstack
  have hc' := hkept r _ hc
  simp only [pushFrame, allocDict, updateStack, hstack', cell?, hc']
  exact ⟨_, rfl⟩

end Store

/-- A call becomes active if the evaluator has a list of active calls. -/
theorem State.exists_opened {st : State} {engine : Ref} (h : st.store.isList (st.store.stackOf engine) = true) (name : Value)
    (values : List Value) : ∃ st', st.opened engine name values = .ok st' := by
  have hstore : (st.announced name values).store = (st.store.allocList values).2 := State.store_traced _ _
  have hkept : st.store.Persists (st.store.allocList values).2 := st.store.persists_alloc _
  obtain ⟨items, hitems⟩ := Option.isSome_iff_exists.1 h
  have hlist : (st.store.allocList values).2.isList ((st.store.allocList values).2.stackOf engine) = true := by
    rw [hkept.stackOf_eq h, Store.isList, hkept.list?_eq hitems]
    rfl
  obtain ⟨s, hs⟩ := Store.exists_pushFrame hlist name (st.store.allocList values).1
  exact ⟨_, by rw [opened, hstore, hs]; rfl⟩

/-- An evaluator makes its calls itself if nothing stands in the place of its method for that. -/
theorem State.calledBy_self {st : State} {engine : Ref} (h : st.store.CallsItself engine) (values : List Value) :
    st.CalledBy engine values engine :=
  callerOf_self (Store.hiddenAttribute?_allocList h)

/-- The receiver as it is handed to a function: if the function takes it. -/
def Store.handed (s : Store) (f receiver : Value) : Option Value := if s.acceptsReceiver f then some receiver else none

/-- How the application of a function ends. -/
def Applies (f : Value) (args : List Value) (this : Option Value) (st : State) (out : Outcome Value) : Prop :=
  EndsAs (fun n => apply n f args this) st out

/-- How a call of a function on a receiver ends once both have been found. The call is made by the evaluator itself, unless
something stands in the place of its method for that. -/
inductive MethodCall (engine : Ref) (e name f receiver : Value) (sources : List Value) (ctx : Context) (st : State) :
    Outcome Value → Prop
  /-- the first argument that raises an error -/
  | argument {err : Raised} {st₁ : State} : Supplies engine ctx sources st (.raised err st₁) →
      MethodCall engine e name f receiver sources ctx st (.raised err st₁)
  /-- an invocation error -/
  | notCallable {values : List Value} {st₁ : State} {shown : String} : Supplies engine ctx sources st (.value values st₁) →
      st₁.store.isCallable f = false → st₁.store.print f = .ok shown →
      MethodCall engine e name f receiver sources ctx st
        (.raised (.about e (.notAFunction (name.text?.getD "") shown)) st₁)
  /-- what is no function cannot be shown either -/
  | notPrintable {values : List Value} {st₁ : State} {err : Raised} : Supplies engine ctx sources st (.value values st₁) →
      st₁.store.isCallable f = false → st₁.store.print f = .error err →
      MethodCall engine e name f receiver sources ctx st (.raised err st₁)
  /-- what stands in the place of the evaluator's method does not make such a call -/
  | notMade {values : List Value} {st₁ : State} {err : Raised} : Supplies engine ctx sources st (.value values st₁) →
      st₁.store.isCallable f = true →
      callerOf engine (st₁.withArguments values) = .raised err (st₁.withArguments values) →
      MethodCall engine e name f receiver sources ctx st (.raised err (st₁.withArguments values))
  /-- there is no list of active calls -/
  | notOpened {values : List Value} {caller : Ref} {st₁ : State} {err : Raised} :
      Supplies engine ctx sources st (.value values st₁) → st₁.store.isCallable f = true →
      st₁.CalledBy engine values caller → st₁.opened caller name values = .error err →
      MethodCall engine e name f receiver sources ctx st (.raised err (st₁.announced name values))
  | returned {values : List Value} {caller : Ref} {v : Value} {st₁ st₂ st₃ : State} :
      Supplies engine ctx sources st (.value values st₁) → st₁.store.isCallable f = true →
      st₁.CalledBy engine values caller → st₁.opened caller name values = .ok st₂ →
      Applies f values (st₂.store.handed f receiver) st₂ (.value v st₃) →
      MethodCall engine e name f receiver sources ctx st (closeCall caller (.ok v) st₃)
  | failed {values : List Value} {caller : Ref} {err : Raised} {st₁ st₂ st₃ : State} :
      Supplies engine ctx sources st (.value values st₁) → st₁.store.isCallable f = true →
      st₁.CalledBy engine values caller → st₁.opened caller name values = .ok st₂ →
      Applies f values (st₂.store.handed f receiver) st₂ (.raised err st₃) →
      MethodCall engine e name f receiver sources ctx st (closeCall caller (.error err) st₃)

section Calls

variable {engine : Ref} {e name f receiver : Value} {values : List Value} {st : State}

/-- A call becomes active under its name, which is not empty. -/
theorem openCall_announced (htrue : ∀ s : Store, s.isTrue name = true) :
    openCall engine f (st.store.allocList values).1 receiver name { st with store := (st.store.allocList values).2 } =
      match st.opened engine name values with
      | .error err => .raised err (st.announced name values)
      | .ok st₁ => .value (values, st₁.store.handed f receiver) st₁ := by
  generalize hst₁ : ({ st with store := (st.store.allocList values).2 } : State) = st₁
  have hkept : st₁.store = (st.store.allocList values).2 := by rw [← hst₁]
  have hlabel : callLabel f name st₁ = .value name st₁ := by
    rw [callLabel, store_bind, if_pos (htrue _)]
    rfl
  have hsized : ask (·.sizedElements (st.store.allocList values).1) st₁ = .value values st₁ := by
    have hlist := st.store.get?_alloc_self (.list values .plain)
    simp only [ask, hkept, Store.sizedElements, Store.elements?, Store.allocList, hlist]
  have hannounced : st.announced name values = st₁.traced (callEntry st₁.store name values.length) := by
    rw [State.announced, hkept, ← hst₁]
  rw [openCall, bind_of_value hlabel, store_bind, bind_of_value hsized,
    bind_of_value (trace_eq_value _ st₁)]
  change (Effect.change _ >>= _) (st₁.traced (callEntry st₁.store name values.length)) = _
  unfold State.opened
  rw [hannounced]
  generalize st₁.traced (callEntry st₁.store name values.length) = st₂
  cases hpush : st₂.store.pushFrame engine name (st.store.allocList values).1 with
  | error err =>
    have hrefused : change (·.pushFrame engine name (st.store.allocList values).1) st₂ = .raised err st₂ := by
      simp only [change, hpush]
    rw [bind_of_raised hrefused]
    rfl
  | ok s =>
    have hpushed : change (·.pushFrame engine name (st.store.allocList values).1) st₂ = .value () { st₂ with store := s } := by
      simp only [change, hpush]
    rw [bind_of_value hpushed]
    rfl

theorem steady_apply (f : Value) (args : List Value) (this : Option Value) : Steady fun n => apply n f args this :=
  fun _ _ hmn => (run_le hmn).2.2.2 f args this

/-- The end of a call gives an outcome. -/
theorem closeCall_ne_exhausted (engine : Ref) (result : Except Raised Value) (st : State) :
    closeCall engine result st ≠ .exhausted := by
  rw [closeCall, bind_of_value (recordOutcome_eq engine result st)]
  cases hpop : st.store.popFrame engine with
  | error err =>
    have hrefused : change (·.popFrame engine) st = .raised err st := by simp only [change, hpop]
    rw [bind_of_raised hrefused]
    simp
  | ok s =>
    have hpopped : change (·.popFrame engine) st = .value () { st with store := s } := by simp only [change, hpop]
    rw [bind_of_value hpopped]
    cases result <;> intro h <;> cases h

/-- A function that has been called ends the call. -/
theorem endsAs_closeCall {this : Option Value} {out : Outcome Value} :
    EndsAs (fun n => attempt (apply n f values this) >>= closeCall engine) st out ↔
      (∃ v st₁, Applies f values this st (.value v st₁) ∧ out = closeCall engine (.ok v) st₁) ∨
      ∃ err st₁, Applies f values this st (.raised err st₁) ∧ out = closeCall engine (.error err) st₁ := by
  have hsteady : Steady fun n => attempt (apply n f values this) := fun _ _ hmn => (steady_apply f values this hmn).attempt
  have hclose : ∀ {result : Except Raised Value} {st₁ : State},
      EndsAs (fun _ => closeCall engine result) st₁ out ↔ out = closeCall engine result st₁ :=
    endsAs_iff_eq (fun _ => rfl) (closeCall_ne_exhausted engine _ _)
  rw [endsAs_bind hsteady fun result => steady_const (closeCall engine result)]
  simp only [hclose, endsAs_attempt]
  constructor
  · rintro (⟨err, st₁, ⟨_, _, -, h⟩ | ⟨_, _, -, h⟩, -⟩ | ⟨result, st₁, ⟨v, st₂, hvalue, h⟩ | ⟨err, st₂, hraised, h⟩, hout⟩)
    · cases h
    · cases h
    · cases h
      exact .inl ⟨v, st₁, hvalue, hout⟩
    · cases h
      exact .inr ⟨err, st₁, hraised, hout⟩
  · rintro (⟨v, st₁, hvalue, hout⟩ | ⟨err, st₁, hraised, hout⟩)
    · exact .inr ⟨.ok v, st₁, .inl ⟨v, st₁, hvalue, rfl⟩, hout⟩
    · exact .inr ⟨.error err, st₁, .inr ⟨err, st₁, hraised, rfl⟩, hout⟩

/-- The task of making a call, with the state in which the function is applied. -/
theorem run_invoke {caller : Ref} (htrue : ∀ s : Store, s.isTrue name = true) (hcaller : st.CalledBy engine values caller)
    (fuel : Nat) :
    (Task.invoke engine ⟨f, receiver, name⟩ values).run fuel st =
      match st.opened caller name values with
      | .error err => .raised err (st.announced name values)
      | .ok st₁ => (attempt (apply fuel f values (st₁.store.handed f receiver)) >>= closeCall caller) st₁ := by
  have hopen := @openCall_announced caller name f receiver values st htrue
  refine invoke_outcome.trans ((bind_of_value hcaller).trans ?_)
  rw [call_eq]
  cases hopened : st.opened caller name values with
  | error err =>
    rw [hopened] at hopen
    exact bind_of_raised hopen
  | ok st₁ =>
    rw [hopened] at hopen
    exact bind_of_value hopen

/-- What a call expression does with what it has found and the values of its arguments. -/
def finishCall (fuel : Nat) (engine : Ref) (e : Value) (found : Callee) (values : List Value) : Effect Value := do
  if (← store).isCallable found.function then (Task.invoke engine found values).run fuel
  else
    ask fun s => do
      let name ← s.plainText found.name
      let shown ← s.print found.function
      .error (.about e (.notAFunction name shown))

theorem steady_finishCall (engine : Ref) (e : Value) (found : Callee) (values : List Value) :
    Steady fun n => finishCall n engine e found values :=
  fun _ _ hmn => Le.after _ fun _ => Le.ite (Le.after _ fun _ => callBy_le (run_le hmn).2.2.2 engine _ _ _ _) (Le.refl _)

/-- The entry of a call expression, and what it does in turn. -/
theorem runExpression_call {target : Value} {args : Option Value} {ctx : Context}
    (h : st.store.command e = .ok (.call target args)) (fuel : Nat) :
    runExpression fuel engine e ctx st =
      (evalCallee (runScript fuel engine) e target ctx >>= fun found =>
        evalArguments (runArguments fuel engine 0) args ctx >>= fun values => finishCall fuel engine e found values)
        (st.traced (evalEntry st.store e (.call target args))) := by
  rw [← Logged.run_expression, (Logged.expression_accepted fuel engine ctx h).1]
  simp only [Logged.command, Logged.run_bind, Logged.run_callee, Logged.run_givenArguments, Logged.run_lift, Logged.run_ite,
    Logged.run_start]
  rfl

/-- What cannot be called is an error that shows it, or the printer's error. -/
theorem endsAs_finishCall_of_not_callable {text : String} {out : Outcome Value} (hname : name.text? = some text)
    (hf : st.store.isCallable f = false) :
    EndsAs (fun n => finishCall n engine e ⟨f, receiver, name⟩ values) st out ↔
      (∃ shown, st.store.print f = .ok shown ∧ out = .raised (.about e (.notAFunction text shown)) st) ∨
      ∃ err, st.store.print f = .error err ∧ out = .raised err st := by
  have hplain : st.store.plainText name = .ok text := Store.plainText_of_text? _ hname
  have hfinish : ∀ n, finishCall n engine e ⟨f, receiver, name⟩ values st = ask (fun s => do
      let label ← s.plainText name
      let shown ← s.print f
      .error (.about e (.notAFunction label shown))) st := by
    intro n
    rw [finishCall, store_bind, hf, if_neg Bool.false_ne_true]
  cases hshown : st.store.print f with
  | ok shown =>
    simp only [ask, hplain, bind, Except.bind, hshown] at hfinish
    simp [endsAs_iff_eq hfinish]
  | error err =>
    simp only [ask, hplain, bind, Except.bind, hshown] at hfinish
    simp [endsAs_iff_eq hfinish]

/-- What can be called is applied, once the call is active. -/
theorem endsAs_finishCall_of_callable {out : Outcome Value} (htrue : ∀ s : Store, s.isTrue name = true)
    (hf : st.store.isCallable f = true) :
    EndsAs (fun n => finishCall n engine e ⟨f, receiver, name⟩ values) st out ↔
      (∃ err, callerOf engine (st.withArguments values) = .raised err (st.withArguments values) ∧
        out = .raised err (st.withArguments values)) ∨
      ∃ caller, st.CalledBy engine values caller ∧
        ((∃ err, st.opened caller name values = .error err ∧ out = .raised err (st.announced name values)) ∨
        ∃ st₁, st.opened caller name values = .ok st₁ ∧
          ((∃ v st₂, Applies f values (st₁.store.handed f receiver) st₁ (.value v st₂) ∧
            out = closeCall caller (.ok v) st₂) ∨
          ∃ err st₂, Applies f values (st₁.store.handed f receiver) st₁ (.raised err st₂) ∧
            out = closeCall caller (.error err) st₂)) := by
  have hfinish : ∀ n, finishCall n engine e ⟨f, receiver, name⟩ values st =
      (Task.invoke engine ⟨f, receiver, name⟩ values).run n st := by
    intro n
    rw [finishCall, store_bind, hf, if_pos rfl]
  rw [endsAs_congr hfinish]
  unfold State.CalledBy
  obtain ⟨caller, hcaller, -⟩ | ⟨err, hraised, -⟩ | hexhausted := looks_callerOf engine (st.withArguments values)
  · have hrun := fun n => @run_invoke engine name f receiver values st caller htrue hcaller n
    simp only [hcaller, reduceCtorEq, false_and, exists_false, false_or, Outcome.value.injEq, and_true, exists_eq_left']
    cases hopened : st.opened caller name values with
    | error err =>
      simp only [hopened] at hrun
      simp [endsAs_iff_eq hrun]
    | ok st₁ =>
      simp only [hopened] at hrun
      simp only [endsAs_congr hrun, reduceCtorEq, false_and, exists_false, false_or, Except.ok.injEq, exists_eq_left']
      exact endsAs_closeCall
  · have hrun : ∀ n, (Task.invoke engine ⟨f, receiver, name⟩ values).run n st = .raised err (st.withArguments values) :=
      fun n => invoke_outcome.trans (bind_of_raised hraised)
    simp [endsAs_iff_eq hrun, hraised]
  · have hrun : ∀ n, (Task.invoke engine ⟨f, receiver, name⟩ values).run n st = .exhausted :=
      fun n => invoke_outcome.trans (bind_of_exhausted hexhausted)
    constructor
    · rintro ⟨hout, n, hn⟩
      exact absurd (hn.symm.trans (hrun n)) hout
    · simp [hexhausted]

theorem ne_null_of_isCallable {s : Store} (h : s.isCallable f = true) : f ≠ .null := by
  rintro rfl
  cases h

/-- What comes after the function and the receiver have been found: the arguments, and the call if there is something to
call. -/
theorem endsAs_iff_methodCall {ctx : Context} {args : Option Value} {sources : List Value} {text : String}
    {receiver' : Value} {out : Outcome Value} (hname : name.text? = some text)
    (htrue : ∀ s : Store, s.isTrue name = true) (hkeeps : KeepsSources engine ctx args sources st)
    (hreceiver : f ≠ .null → receiver' = receiver) :
    EndsAs (fun n => evalArguments (runArguments n engine 0) args ctx >>= fun values =>
        finishCall n engine e ⟨f, receiver', name⟩ values) st out ↔
      MethodCall engine e name f receiver sources ctx st out := by
  rw [endsAs_bind (steady_evalArguments engine args ctx) fun values => steady_finishCall engine e _ values]
  simp only [endsAs_evalArguments hkeeps]
  have htext : name.text?.getD "" = text := by rw [hname]; rfl
  constructor
  · rintro (⟨err, st₁, hargs, rfl⟩ | ⟨values, st₁, hargs, hfinish⟩)
    · exact .argument hargs
    · cases hf : st₁.store.isCallable f with
      | false =>
        rw [endsAs_finishCall_of_not_callable hname hf] at hfinish
        obtain ⟨shown, hshown, rfl⟩ | ⟨err, hshown, rfl⟩ := hfinish
        · rw [← htext]
          exact .notCallable hargs hf hshown
        · exact .notPrintable hargs hf hshown
      | true =>
        obtain rfl := hreceiver (ne_null_of_isCallable hf)
        rw [endsAs_finishCall_of_callable htrue hf] at hfinish
        obtain ⟨err, hraised, rfl⟩ | ⟨caller, hcaller, hcalled⟩ := hfinish
        · exact .notMade hargs hf hraised
        obtain ⟨err, hopened, rfl⟩ | ⟨st₂, hopened, ⟨v, st₃, happlies, rfl⟩ | ⟨err, st₃, happlies, rfl⟩⟩ := hcalled
        · exact .notOpened hargs hf hcaller hopened
        · exact .returned hargs hf hcaller hopened happlies
        · exact .failed hargs hf hcaller hopened happlies
  · intro h
    cases h with
    | argument hargs => exact .inl ⟨_, _, hargs, rfl⟩
    | notCallable hargs hf hshown =>
      exact .inr ⟨_, _, hargs, (endsAs_finishCall_of_not_callable hname hf).2 (.inl ⟨_, hshown, by rw [htext]⟩)⟩
    | notPrintable hargs hf hshown =>
      exact .inr ⟨_, _, hargs, (endsAs_finishCall_of_not_callable hname hf).2 (.inr ⟨_, hshown, rfl⟩)⟩
    | notMade hargs hf hraised =>
      exact .inr ⟨_, _, hargs, (endsAs_finishCall_of_callable htrue hf).2 (.inl ⟨_, hraised, rfl⟩)⟩
    | notOpened hargs hf hcaller hopened =>
      exact .inr ⟨_, _, hargs, (endsAs_finishCall_of_callable htrue hf).2 (.inr ⟨_, hcaller, .inl ⟨_, hopened, rfl⟩⟩)⟩
    | returned hargs hf hcaller hopened happlies =>
      obtain rfl := hreceiver (ne_null_of_isCallable hf)
      exact .inr ⟨_, _, hargs, (endsAs_finishCall_of_callable htrue hf).2
        (.inr ⟨_, hcaller, .inr ⟨_, hopened, .inl ⟨_, _, happlies, rfl⟩⟩⟩)⟩
    | failed hargs hf hcaller hopened happlies =>
      obtain rfl := hreceiver (ne_null_of_isCallable hf)
      exact .inr ⟨_, _, hargs, (endsAs_finishCall_of_callable htrue hf).2
        (.inr ⟨_, hcaller, .inr ⟨_, hopened, .inr ⟨_, _, happlies, rfl⟩⟩⟩)⟩

end Calls

/-! ## Invocations -/

/-- The run of a call expression comes to apply a function to arguments, by the call that it makes. -/
def Invokes (engine : Ref) (e : Value) (ctx : Context) (st : State) (f : Value) (values : List Value) (this : Option Value)
    (st' : State) : Prop :=
  ∃ fuel made called, Moment.Starts ⟨fuel, .expression engine e ctx, st⟩ made ∧ made.task.isInvoke = true ∧
    made.Starts called ∧ called.Starts ⟨fuel, .apply f values this, st'⟩

section Invocations

variable {engine : Ref} {e target : Value} {args : Option Value} {ctx : Context} {st : State} {fuel : Nat}

theorem mem_log_of_value {α β : Type} {p : Logged α} {f : α → Logged β} {a : α} {st st₁ : State} {ev : Event}
    (h : p.run st = .value a st₁) (hev : ev ∈ (f a).log st₁) : ev ∈ (p >>= f).log st := by
  refine List.mem_append_right _ ?_
  rw [h]
  exact hev

/-- The call that an expression makes. -/
theorem starts_invoke_iff {made : Moment} (hcommand : st.store.command e = .ok (.call target args)) :
    (Moment.Starts ⟨fuel, .expression engine e ctx, st⟩ made ∧ made.task.isInvoke = true) ↔
      ∃ found st₁ values st₂, evalCallee (runScript fuel engine) e target ctx
          (st.traced (evalEntry st.store e (.call target args))) = .value found st₁ ∧
        evalArguments (runArguments fuel engine 0) args ctx st₁ = .value values st₂ ∧
        st₂.store.isCallable found.function = true ∧ made = ⟨fuel, .invoke engine found values, st₂⟩ := by
  have hlog : Moment.events ⟨fuel, .expression engine e ctx, st⟩ = _ :=
    (Logged.expression_accepted fuel engine ctx hcommand).2
  unfold Moment.Starts
  rw [hlog]
  generalize st.traced (evalEntry st.store e (.call target args)) = st₀
  constructor
  · rintro ⟨⟨ev, hev, rfl⟩, hinvoke⟩
    have hall := Logged.compositional_all fun t => t.isInvoke = false
    have hnone : ∀ {α : Type} {p : Logged α} {st : State}, p.All (fun t => t.isInvoke = false) → ev ∉ p.log st :=
      fun h hev => by cases hinvoke.symm.trans (h _ ev hev)
    rcases Logged.mem_log_bind hev with hev | ⟨found, st₁, hfound, hev⟩
    · exact absurd hev (hnone (hall.callee (fun _ _ => rfl) (fun _ _ => rfl) e target))
    rcases Logged.mem_log_bind hev with hev | ⟨values, st₂, hvalues, hev⟩
    · exact absurd hev (hnone (hall.givenArguments (fun _ _ => rfl) args))
    obtain ⟨s, st₃, hstore, hev⟩ := Logged.mem_log_keep hev
    cases hstore
    rw [Logged.run_callee] at hfound
    rw [Logged.run_givenArguments] at hvalues
    split at hev
    · rename_i hcallable
      cases List.mem_singleton.1 hev
      exact ⟨found, st₁, values, st₂, hfound, hvalues, hcallable, rfl⟩
    · cases hev
  · rintro ⟨found, st₁, values, st₂, hfound, hvalues, hcallable, rfl⟩
    refine ⟨⟨⟨⟨fuel, .invoke engine found values, st₂⟩, false⟩, ?_, rfl⟩, rfl⟩
    refine mem_log_of_value (by rw [Logged.run_callee]; exact hfound) ?_
    refine mem_log_of_value (by rw [Logged.run_givenArguments]; exact hvalues) ?_
    refine mem_log_of_value (p := Logged.lift store) rfl ?_
    rw [if_pos hcallable]
    exact List.mem_singleton.2 rfl

/-- A call expression applies what it has found to the values of its arguments, if that can be called. -/
theorem invokes_iff {name f receiver receiver' g : Value} {sources values : List Value} {this : Option Value}
    {st₁ st' : State} (hcommand : st.store.command e = .ok (.call target args))
    (hcallee : EndsAs (fun n => evalCallee (runScript n engine) e target ctx)
      (st.traced (evalEntry st.store e (.call target args))) (.value ⟨f, receiver', name⟩ st₁))
    (htrue : ∀ s : Store, s.isTrue name = true) (hkeeps : KeepsSources engine ctx args sources st₁)
    (hreceiver : f ≠ .null → receiver' = receiver) :
    Invokes engine e ctx st g values this st' ↔
      g = f ∧ ∃ caller st₂, Supplies engine ctx sources st₁ (.value values st₂) ∧ st₂.store.isCallable f = true ∧
        st₂.CalledBy engine values caller ∧ st₂.opened caller name values = .ok st' ∧
        this = st'.store.handed f receiver := by
  constructor
  · rintro ⟨fuel, made, called, hmade, hinvoke, hcalled, happlied⟩
    obtain ⟨found, st₁', values', st₂, hfound, hvalues, hf, rfl⟩ := (starts_invoke_iff hcommand).1 ⟨hmade, hinvoke⟩
    have hfound' : EndsAs (fun n => evalCallee (runScript n engine) e target ctx) _ (.value found st₁') :=
      ⟨by simp, fuel, hfound⟩
    cases hcallee.unique hfound' (steady_evalCallee engine e target ctx)
    have hargs := (endsAs_evalArguments hkeeps).1 ⟨by simp, fuel, hvalues⟩
    obtain ⟨caller, hcaller, rfl⟩ := of_starts_invoke hcalled
    obtain ⟨p, st₃, hopen, happly⟩ := of_starts_call happlied
    have hannounced := @openCall_announced caller name f receiver' values' st₂ htrue
    cases hopened : st₂.opened caller name values' with
    | error err =>
      rw [hopened] at hannounced
      cases hannounced.symm.trans hopen
    | ok st₄ =>
      rw [hopened] at hannounced
      cases hannounced.symm.trans hopen
      cases happly
      exact ⟨rfl, caller, st₂, hargs, hf, hcaller, hopened, by rw [hreceiver (ne_null_of_isCallable hf)]⟩
  · rintro ⟨rfl, caller, st₂, hargs, hf, hcaller, hopened, rfl⟩
    obtain ⟨m, hm⟩ := hcallee.fuel (steady_evalCallee engine e target ctx)
    obtain ⟨n, hn⟩ := ((endsAs_evalArguments hkeeps).2 hargs).fuel (steady_evalArguments engine args ctx)
    obtain rfl := hreceiver (ne_null_of_isCallable hf)
    have hmade := (starts_invoke_iff hcommand).2
      ⟨_, _, _, _, hm (max m n) (Nat.le_max_left m n), hn (max m n) (Nat.le_max_right m n), hf, rfl⟩
    have hannounced := @openCall_announced caller name g receiver' values st₂ htrue
    rw [hopened] at hannounced
    exact ⟨max m n, _, _, hmade.1, hmade.2, starts_call hcaller, starts_apply hannounced⟩

end Invocations

/-! ## The rule -/

/-- **The rule of method calls.** The target of a call expression gives the text of a path. A path has a parent if it goes
below an object, and if it goes further than to a variable. The function and the receiver are those that the path finds
before the arguments are evaluated (`Store.methodAt`): on the receiver at the parent of the path the function that the
last segment finds, and otherwise the function at the path and the object of the context as the receiver. An error of
that is the error of the call. Otherwise the call ends as `MethodCall` says, with the arguments evaluated from left to
right in the one context. It comes to apply a function in just one case: all arguments have values, and what the path
has found can be called. Then this is applied to these values, and to the receiver if it takes one.

The list of the arguments is not modified meanwhile. The function is applied once the call is active. The evaluator makes
the call if nothing stands in the place of its own method for that, and the call becomes active if the evaluator has a list
of active calls. -/
theorem method_call {engine : Ref} {e target name : Value} {args : Option Value} {text : String} {path : Path}
    {ctx : Context} {st st₀ : State} (hcommand : st.store.command e = .ok (.call target args))
    (htarget : TargetGives engine target ctx (st.traced (evalEntry st.store e (.call target args))) name st₀)
    (hname : name.text? = some text) (hpath : Path.parse text = .ok path) :
    (path.parent.isSome = true ↔ path.segments ≠ [] ∧ (path.root = .scope → 2 ≤ path.segments.length)) ∧
    (∀ err, st₀.store.methodAt path ctx = .error err → ∀ out, Computes engine e ctx st out ↔ out = .raised err st₀) ∧
    (∀ f receiver s, st₀.store.methodAt path ctx = .ok (f, receiver, s) →
      ∃ st₁, st₀.store.Persists st₁.store ∧ (f ≠ .null → st₁ = { st₀ with store := s }) ∧
        ∀ sources, KeepsSources engine ctx args sources st₁ →
          (∀ out, Computes engine e ctx st out ↔ MethodCall engine e name f receiver sources ctx st₁ out) ∧
          ∀ g values this st', Invokes engine e ctx st g values this st' ↔
            g = f ∧ ∃ caller st₂, Supplies engine ctx sources st₁ (.value values st₂) ∧ st₂.store.isCallable f = true ∧
              st₂.CalledBy engine values caller ∧ st₂.opened caller name values = .ok st' ∧
              this = st'.store.handed f receiver) ∧
    (∀ (st₂ : State) values, st₂.store.CallsItself engine → st₂.CalledBy engine values engine) ∧
    ∀ (st₂ : State) values caller, st₂.store.isList (st₂.store.stackOf caller) = true →
      ∃ st', st₂.opened caller name values = .ok st' := by
  have htext : name.isText = true := by rw [Value.isText, hname]; rfl
  have hspells : ∀ s : Store, s.pathOf name = .ok path := Store.pathOf_of_parse hname hpath
  have htrue : ∀ s : Store, s.isTrue name = true := fun s => Store.isTrue_of_pathOf htext (hspells s)
  have hcomputes : ∀ out, Computes engine e ctx st out ↔
      EndsAs (fun n => evalCallee (runScript n engine) e target ctx >>= fun found =>
        evalArguments (runArguments n engine 0) args ctx >>= fun values => finishCall n engine e found values)
        (st.traced (evalEntry st.store e (.call target args))) out :=
    fun out => endsAs_congr (runExpression_call hcommand)
  have hrest : ∀ found, Steady fun n => evalArguments (runArguments n engine 0) args ctx >>= fun values =>
      finishCall n engine e found values :=
    fun found => (steady_evalArguments engine args ctx).bind fun values => steady_finishCall engine e found values
  refine ⟨Path.isSome_parent_iff, ?_, ?_, fun st₂ values hself => State.calledBy_self hself values,
    fun st₂ values caller hstack => State.exists_opened hstack name values⟩
  · intro err hmethod out
    have hcallee : EndsAs (fun n => evalCallee (runScript n engine) e target ctx) _ (.raised err st₀) :=
      (endsAs_evalCallee htarget htext (hspells _)).2 (endsAs_of_eq (fun _ => calleeAt_of_error hmethod name) (by simp))
    rw [hcomputes, endsAs_bind (steady_evalCallee engine e target ctx) hrest]
    constructor
    · rintro (⟨err', st', hraised, rfl⟩ | ⟨found, st', hvalue, -⟩)
      · cases hraised.unique hcallee (steady_evalCallee engine e target ctx)
        rfl
      · cases hvalue.unique hcallee (steady_evalCallee engine e target ctx)
    · rintro rfl
      exact .inl ⟨err, st₀, hcallee, rfl⟩
  · intro f receiver s hmethod
    obtain ⟨receiver', s', hfound, hkept, hsame⟩ := calleeAt_of_ok hmethod name
    have hcallee : EndsAs (fun n => evalCallee (runScript n engine) e target ctx) _
        (.value ⟨f, receiver', name⟩ { st₀ with store := s' }) :=
      (endsAs_evalCallee htarget htext (hspells _)).2 (endsAs_of_eq (fun _ => hfound) (by simp))
    refine ⟨{ st₀ with store := s' }, hkept, fun hf => by rw [(hsame hf).2], fun sources hkeeps => ⟨fun out => ?_, ?_⟩⟩
    · rw [hcomputes, hcallee.bind_iff (steady_evalCallee engine e target ctx) hrest]
      exact endsAs_iff_methodCall hname htrue hkeeps fun hf => (hsame hf).1
    · exact fun g values this st' => invokes_iff hcommand hcallee htrue hkeeps fun hf => (hsame hf).1

namespace Rebinding

/-- Variables with an object that has a function, and a call of the function; its argument is a script that makes the
variable a number. -/
def state : State where
  store := ⟨#[.list [] .plain, .engine (.ref ⟨0⟩) [], .dict [(.text "f", .ref ⟨3⟩)], .function .receiverAndArgs [],
    .dict [(.text "obj", .ref ⟨2⟩)], .scope (.ref ⟨4⟩) .null, .list [.ref ⟨8⟩] .plain,
    .list [.text "call", .text "obj.f", .ref ⟨6⟩] .plain, .list [.text "set", .text "obj", .int 5] .plain]⟩
  tracing := false
  trace := #[]

def context : Context := ⟨.null, .ref ⟨5⟩, .null⟩

/-- The objects after the argument. -/
def rebound : Store := state.store.set ⟨4⟩ (.dict [(.text "obj", .int 5)])

/-- The objects once the call is active. -/
def opened : Store :=
  (((rebound.alloc (.list [.int 5] .plain)).2.alloc (.dict [(.text "name", .text "obj.f"), (.text "args", .ref ⟨9⟩)])).2).set ⟨0⟩
    (.list [.ref ⟨10⟩] .plain)

theorem evaluates_argument : ∃ st, st.store = rebound ∧ Evaluates ⟨1⟩ (.ref ⟨8⟩) context state (.value (.int 5) st) := by
  have hname : Path.IsName "obj" := ⟨by decide, List.all_eq_true.1 rfl, by decide, by decide⟩
  have hset : state.store.IsSet (.ref ⟨8⟩) (.text "obj") (.int 5) := ⟨_, rfl, rfl⟩
  have hparse : Path.parse "obj" = .ok ⟨.scope, [.name "obj"], "obj"⟩ := Path.parse_name hname
  exact evaluates_set_literal (by decide) hset rfl rfl (Store.pathOf_of_parse rfl hparse _) rfl

theorem parse_path : Path.parse "obj.f" = .ok ⟨.scope, [.name "obj", .name "f"], "obj.f"⟩ := by
  have hobj : (Path.Piece.name "obj".toList).Spelled true "obj".toList := .first (by decide) (List.all_eq_true.1 rfl)
  have hf : (Path.Piece.name ['f']).Spelled false ".f".toList := .later (by decide) (List.all_eq_true.1 rfl)
  rw [Path.parse_eq_map (by simp)]
  exact congrArg _ (Path.scan_path hobj (.cons hf .nil))

theorem keepsSources : KeepsSources ⟨1⟩ context (some (.ref ⟨6⟩)) [.ref ⟨8⟩] state := by
  obtain ⟨st, hstore, hargument⟩ := evaluates_argument
  intro done rest vs st' hsplit hdone
  cases hdone with
  | done => rfl
  | next hsource hrest =>
    obtain ⟨rfl, hnil⟩ := List.cons.inj hsplit
    obtain ⟨rfl, -⟩ := List.append_eq_nil_iff.1 hnil.symm
    cases hrest with
    | done =>
      cases Evaluates.unique hsource hargument
      rw [hstore]
      rfl

end Rebinding

open Rebinding in
/-- The function gets the object that it was found on, though the argument has put a number in its place. -/
theorem method_call_rebinding :
    ∃ st, st.store = opened ∧
      Invokes ⟨1⟩ (.ref ⟨7⟩) context state (.ref ⟨3⟩) [.int 5] (some (.ref ⟨2⟩)) st := by
  obtain ⟨st₂, hstore, hargument⟩ := evaluates_argument
  obtain ⟨-, -, hrule, -⟩ := @method_call ⟨1⟩ (.ref ⟨7⟩) (.text "obj.f") (.text "obj.f") (some (.ref ⟨6⟩)) "obj.f" _ context
    state state rfl ⟨rfl, rfl⟩ rfl parse_path
  obtain ⟨st₁, -, hst₁, hrest⟩ := hrule (.ref ⟨3⟩) (.ref ⟨2⟩) state.store rfl
  obtain rfl : st₁ = state := hst₁ (by simp)
  have hsupplies : Supplies ⟨1⟩ context [.ref ⟨8⟩] state (.value [.int 5] st₂) := .next hargument .done
  refine ⟨{ st₂.announced (.text "obj.f") [.int 5] with store := opened }, rfl, ?_⟩
  refine ((hrest _ keepsSources).2 _ _ _ _).2 ⟨rfl, ⟨1⟩, st₂, hsupplies, ?_, ?_, ?_, rfl⟩
  · rw [hstore]
    rfl
  · have hself : st₂.store.CallsItself ⟨1⟩ := by
      rw [hstore]
      decide
    exact State.calledBy_self hself _
  · rw [State.opened, show (st₂.announced (.text "obj.f") [.int 5]).store = _ from State.store_traced _ _, hstore]
    rfl

/-- A call of the last value. -/
def callsLast : State where
  store := ⟨#[.list [.text "call", .text "$"] .plain, .list [] .plain, .engine (.ref ⟨1⟩) []]⟩
  tracing := false
  trace := #[]

/-- A call of an integer with too many digits is not an invocation error but the error of printing it. -/
theorem not_method_call_long_integer :
    ¬ ∀ (engine : Ref) (e : Value) (ctx : Context) (st : State) (out : Outcome Value),
      st.store.command e = .ok (.call (.text "$") none) → st.store.isCallable ctx.last = false →
      Computes engine e ctx st out → out.error?.map Raised.kind = some .invocation := by
  intro hall
  have herror : (runExpression 1 ⟨2⟩ (.ref ⟨0⟩) ⟨.null, .null, .int (Int.pow 10 4300)⟩ callsLast).error? =
      some (.of .integerTooLong) := by
    decide +kernel
  have hends : runExpression 1 ⟨2⟩ (.ref ⟨0⟩) ⟨.null, .null, .int (Int.pow 10 4300)⟩ callsLast ≠ .exhausted := by
    intro hout
    rw [hout] at herror
    cases herror
  have hkind := hall ⟨2⟩ (.ref ⟨0⟩) ⟨.null, .null, .int (Int.pow 10 4300)⟩ callsLast _ rfl rfl ⟨hends, 1, rfl⟩
  rw [herror] at hkind
  cases hkind

end ListScript
