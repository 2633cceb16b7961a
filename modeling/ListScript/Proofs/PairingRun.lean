import ListScript.Interpreter
import ListScript.Proofs.PairingHost

/-!
# Runs side by side

A script run on the counterparts of what another run gets does the same (`mirrors_run`): it gives the counterpart of the
value, or the counterpart of the error, or neither within the same fuel, and leaves the stores paired. The proof is by
induction on the fuel; each function of the interpreter mirrors itself if those that it calls do.
-/

namespace ListScript.Pairing

variable {p : Pairing} {s s' : Store} {v w expression target f : Value} {ctx : Context} {engine : Ref}
  {args : List Value}

open Effect Paired

variable (p) in
/-- Two ways to run scripts that mirror each other. -/
def Evaluations (nested nested' : Evaluation) : Prop :=
  ∀ script ctx, script.Within p.good → ContextWithin p ctx →
    p.Mirrors p.Val (nested script ctx) (nested' (p.value script) (p.context ctx))

variable (p) in
/-- Two ways to apply values that mirror each other. -/
def Applications (apply apply' : Application) : Prop :=
  ∀ f args this, f.Within p.good → (∀ u ∈ args, u.Within p.good) → (∀ v ∈ this, v.Within p.good) →
    p.Mirrors p.Val (apply f args this) (apply' (p.value f) (args.map p.value) (this.map p.value))

/-! ## What stands in for parts of the interpreter -/

section StandIns

variable (p) in
/-- An evaluator and its counterpart. -/
abbrev Engines : Ref → Ref → Prop := Of p.move p.good

theorem mirrors_unfollowed {α β : Type} {R : α → β → Prop} (hf : f.Within p.good) :
    p.Mirrors R (unfollowed f) (unfollowed (p.value f)) := by
  refine mirrors_store.bind fun s s' h => ?_
  rw [h.isCallable_value hf, h.typeName_value hf]
  exact mirrors_ite Iff.rfl (fun _ => mirrors_exhaust) fun _ => mirrors_raise (errors_of _)

theorem mirrors_standIn (m : Host.Method) (hf : f.Within p.good) :
    p.Mirrors (Engines p) (standIn m f) (standIn m (p.value f)) := by
  refine mirrors_store.bind fun s s' h => ?_
  rcases h.cell?_cases hf with ⟨hc, hc'⟩ | ⟨r, c, -, -, hc, hc', hwithin⟩ <;> rw [hc, hc']
  · exact mirrors_unfollowed hf
  · cases c with
    | method self m' =>
      obtain ⟨hengine, hgood⟩ := h.engine?_value (hwithin self (by simp [Cell.contents, Cell.parts]))
      simp only [cell, hengine]
      cases hself : s.engine? self with
      | none => exact mirrors_exhaust
      | some r => exact mirrors_ite Iff.rfl (fun _ => mirrors_pure ⟨rfl, hgood r hself⟩) fun _ => mirrors_exhaust
    | _ => exact mirrors_unfollowed hf

theorem mirrors_evaluatorOf (hengine : p.good engine) :
    p.Mirrors (Engines p) (evaluatorOf engine) (evaluatorOf (p.move engine)) := by
  have hname : p.hidden Host.Method.evaluate.label = false := hidden_eq_false (by decide)
  refine mirrors_store.bind fun s s' h => ?_
  have hv : (Value.ref engine).Within p.good := Value.within_ref.2 hengine
  rw [← value_ref, h.hiddenAttribute?_value hname hv]
  cases hf : s.hiddenAttribute? (.ref engine) Host.Method.evaluate.label with
  | none => exact mirrors_pure ⟨rfl, hengine⟩
  | some f => exact mirrors_standIn .evaluate (h.within_hiddenAttribute? hv hf)

theorem mirrors_callerOf (hengine : p.good engine) :
    p.Mirrors (Engines p) (callerOf engine) (callerOf (p.move engine)) := by
  have hname : p.hidden Host.Method.invoke.label = false := hidden_eq_false (by decide)
  refine mirrors_store.bind fun s s' h => ?_
  have hv : (Value.ref engine).Within p.good := Value.within_ref.2 hengine
  rw [← value_ref, h.hiddenAttribute?_value hname hv]
  cases hf : s.hiddenAttribute? (.ref engine) Host.Method.invoke.label with
  | none => exact mirrors_pure ⟨rfl, hengine⟩
  | some f =>
    have hwithin := h.within_hiddenAttribute? hv hf
    exact mirrors_ite (by rw [h.isClosure_value hwithin]) (fun _ => mirrors_raise (errors_of _)) fun _ =>
      mirrors_standIn .invoke hwithin

theorem mirrors_engineFor (hv : v.Within p.good) : p.Mirrors (Engines p) (engineFor v) (engineFor (p.value v)) := by
  have hname : p.hidden Host.Method.evaluate.label = false := hidden_eq_false (by decide)
  refine mirrors_store.bind fun s s' h => ?_
  obtain ⟨hengine, hgood⟩ := h.engine?_value hv
  rw [hengine, h.hiddenAttribute?_value hname hv, h.typeName_value hv]
  cases hr : s.engine? v with
  | some r => exact mirrors_pure ⟨rfl, hgood r hr⟩
  | none =>
    cases s.hiddenAttribute? v Host.Method.evaluate.label with
    | none => exact mirrors_raise (errors_of _)
    | some f => exact mirrors_exhaust

theorem mirrors_contextFrom (hv : v.Within p.good) :
    p.Mirrors (Contexts p) (contextFrom v) (contextFrom (p.value v)) := by
  have hname : p.hidden "derive" = false := hidden_eq_false (by decide)
  refine mirrors_store.bind fun s s' h => ?_
  obtain ⟨hcontext, hwithin⟩ := h.context?_value hv
  rw [hcontext, h.hiddenAttribute?_value hname hv, h.typeName_value hv]
  cases hf : s.hiddenAttribute? v "derive" with
  | some f => exact mirrors_unfollowed (h.within_hiddenAttribute? hv hf)
  | none =>
    cases hctx : s.context? v with
    | none => exact mirrors_raise (errors_of _)
    | some ctx => exact mirrors_pure ⟨rfl, hwithin ctx hctx⟩

end StandIns

section Steps

variable {nested nested' : Evaluation} {apply apply' : Application}

theorem isLiteral_value (h : p.Paired s s') (hv : v.Within p.good) : s'.isLiteral (p.value v) = s.isLiteral v := by
  rw [Store.isLiteral, Store.isLiteral, h.isList_value hv]

theorem mirrors_evalSource (hnested : p.Evaluations nested nested') (hv : v.Within p.good) (hctx : ContextWithin p ctx) :
    p.Mirrors p.Val (evalSource nested v ctx) (evalSource nested' (p.value v) (p.context ctx)) := by
  refine mirrors_store.bind fun s s' h => mirrors_ite (by rw [isLiteral_value h hv]) (fun _ => ?_) fun _ => hnested v ctx hv hctx
  exact mirrors_pure (h.unwrap_value hv)

theorem mirrors_pathOf (hv : v.Within p.good) : p.Mirrors Eq (ask (·.pathOf v)) (ask (·.pathOf (p.value v))) :=
  mirrors_ask fun _ _ h => h.both_pathOf hv

theorem mirrors_assignAt (hv : v.Within p.good) (hw : w.Within p.good) (hctx : ContextWithin p ctx) :
    p.Mirrors Eq (assignAt v w ctx) (assignAt (p.value v) (p.value w) (p.context ctx)) := by
  refine (mirrors_pathOf hv).same fun path => fun st st' hst => ?_
  obtain ⟨hstore, hfault⟩ := hst.store.assigned_assign path hw hctx
  rcases hx : st.store.assign path w ctx with ⟨t, fault⟩
  rcases hx' : st'.store.assign path (p.value w) (p.context ctx) with ⟨t', fault'⟩
  simp only [hx, hx'] at hstore hfault ⊢
  rcases hfault with ⟨rfl, rfl⟩ | ⟨e, e', rfl, rfl, he⟩
  · exact .value rfl (hst.with_store hstore)
  · exact .raised he (hst.with_store hstore)

theorem mirrors_evalTarget (hnested : p.Evaluations nested nested') (hv : v.Within p.good) (hctx : ContextWithin p ctx) :
    p.Mirrors p.Val (evalTarget nested v ctx) (evalTarget nested' (p.value v) (p.context ctx)) :=
  mirrors_ite (by rw [isText_value]) (fun _ => mirrors_value hv) fun _ => hnested v ctx hv hctx

theorem mirrors_evalGet (hnested : p.Evaluations nested nested') (hv : target.Within p.good)
    (hctx : ContextWithin p ctx) :
    p.Mirrors p.Val (evalGet nested expression target ctx)
      (evalGet nested' (p.value expression) (p.value target) (p.context ctx)) := by
  refine (mirrors_evalTarget hnested hv hctx).val fun text htext => ?_
  refine mirrors_ite (by rw [isText_value]) (fun _ => ?_) fun _ => mirrors_ask fun s s' h => ?_
  · exact (mirrors_pathOf htext).same fun path => mirrors_readAt path hctx
  · refine (h.both_print hv).bind ?_
    rintro shown _ rfl
    rw [h.typeName_value htext]
    exact both_fail_about expression _

variable (p) in
def callee (c : Callee) : Callee := ⟨p.value c.function, p.value c.receiver, p.value c.name⟩

variable (p) in
/-- What is called, and its counterpart. -/
abbrev Callees : Callee → Callee → Prop :=
  Of p.callee fun c => c.function.Within p.good ∧ c.receiver.Within p.good ∧ c.name.Within p.good

theorem mirrors_evalCallee (hnested : p.Evaluations nested nested') (hv : target.Within p.good)
    (hctx : ContextWithin p ctx) :
    p.Mirrors p.Callees (evalCallee nested expression target ctx)
      (evalCallee nested' (p.value expression) (p.value target) (p.context ctx)) := by
  refine (mirrors_evalTarget hnested hv hctx).val fun resolved hresolved => ?_
  refine mirrors_ite (by rw [isText_value]) (fun _ => ?_) fun _ => mirrors_store.bind fun s s' h => ?_
  · refine (mirrors_pathOf hresolved).same fun path => (mirrors_readAt path hctx).val fun function hfunction => ?_
    cases path.parent with
    | none => exact mirrors_pure ⟨rfl, hfunction, hctx.1, hresolved⟩
    | some parent =>
      exact (mirrors_readAt parent hctx).val fun receiver hreceiver => mirrors_pure ⟨rfl, hfunction, hreceiver, hresolved⟩
  · refine mirrors_ite (by rw [h.isCallable_value hresolved]) (fun _ => ?_) fun _ => mirrors_ask fun s s' h => ?_
    · exact (mirrors_ask fun _ _ h => h.both_print hv).same fun shown =>
        mirrors_pure ⟨rfl, hresolved, hctx.1, within_text shown⟩
    · refine (h.both_print hv).bind ?_
      rintro shown _ rfl
      refine (h.both_print hresolved).bind ?_
      rintro result _ rfl
      exact both_fail_about expression _

theorem mirrors_callLabel (hf : f.Within p.good) (hv : v.Within p.good) :
    p.Mirrors p.Val (callLabel f v) (callLabel (p.value f) (p.value v)) := by
  refine mirrors_store.bind fun s s' h => ?_
  refine mirrors_ite (by rw [h.isTrue_value hv]) (fun _ => mirrors_value hv) fun _ => ?_
  exact (mirrors_ask fun _ _ h => h.both_print hf).same fun shown => mirrors_text shown

theorem mirrors_recordCalls (hengine : p.good engine) {e e' : Raised} (h : p.Errors e e') :
    p.Mirrors p.Errors (recordCalls engine e) (recordCalls (p.move engine) e') := by
  obtain ⟨rfl, hframes⟩ := h
  have hawaits : (p.raised e).awaitsStack = e.awaitsStack := by
    simp only [Raised.awaitsStack, raised, Option.isNone_map]
    rfl
  refine mirrors_ite (by rw [hawaits]) (fun _ => ?_) fun _ => mirrors_pure ⟨rfl, hframes⟩
  refine (mirrors_ask fun _ _ h => h.both_frames hengine).bind ?_
  rintro frames _ ⟨rfl, hwithin⟩
  refine mirrors_pure ⟨rfl, ?_⟩
  rintro _ ⟨⟩
  exact hwithin

theorem mirrors_recordOutcome (hengine : p.good engine) {x x' : Except Raised Value} (h : p.Both p.Val x x') :
    p.Mirrors (p.Both p.Val) (recordOutcome engine x) (recordOutcome (p.move engine) x') := by
  cases h with
  | ok h => exact mirrors_pure (.ok h)
  | error h => exact ((mirrors_recordCalls hengine h).bind fun _ _ he => mirrors_raise he).attempt

/-- The trace tells the same of counterparts. -/
theorem callEntry_value {s s' : Store} {label : Value} (h : p.Paired s s') (hlabel : label.Within p.good) (count : Nat) :
    callEntry s' (p.value label) count = callEntry s label count := by
  have htext := h.both_plainText hlabel
  unfold callEntry
  generalize s.plainText label = x at htext ⊢
  generalize s'.plainText (p.value label) = x' at htext ⊢
  cases htext with
  | ok heq => rw [heq]
  | error => rfl

theorem evalEntry_value {s s' : Store} (h : p.Paired s s') (he : expression.Within p.good) (command : Command) :
    evalEntry s' (p.value expression) (p.command command) = evalEntry s expression command := by
  have hsize : ((s'.list? (p.value expression)).getD []).length = ((s.list? expression).getD []).length := by
    rw [h.list?_value he]
    cases s.list? expression <;> simp
  rw [evalEntry, evalEntry, hsize, label_command]

theorem mirrors_call (happly : p.Applications apply apply') (hengine : p.good engine) {list receiver name : Value}
    (hf : f.Within p.good) (hlist : list.Within p.good) (hreceiver : receiver.Within p.good) (hname : name.Within p.good) :
    p.Mirrors p.Val (call apply engine f list receiver name)
      (call apply' (p.move engine) (p.value f) (p.value list) (p.value receiver) (p.value name)) := by
  refine (mirrors_callLabel hf hname).val fun label hlabel => mirrors_store.bind fun s s' h => ?_
  refine (mirrors_ask fun _ _ h => h.both_sizedElements hlist).bind ?_
  rintro items _ ⟨rfl, hitems⟩
  rw [List.length_map, callEntry_value h hlabel]
  refine (mirrors_trace _).same fun _ => ?_
  refine (mirrors_change fun _ _ h => h.both_pushFrame hengine hlabel hlist).same fun _ => ?_
  refine mirrors_store.bind fun t t' ht => ?_
  have hthis : (if t'.acceptsReceiver (p.value f) then some (p.value receiver) else none) =
      (if t.acceptsReceiver f then some receiver else none).map p.value := by
    rw [ht.acceptsReceiver_value hf]
    split <;> rfl
  dsimp only
  rw [hthis]
  refine (happly f items _ hf hitems ?_).attempt.bind fun outcome outcome' houtcome => ?_
  · split
    · rintro _ ⟨⟩
      exact hreceiver
    · rintro _ ⟨⟩
  · refine (mirrors_recordOutcome hengine houtcome).bind fun recorded recorded' hrecorded => ?_
    exact (mirrors_change fun _ _ h => h.both_popFrame hengine).same fun _ => mirrors_ofExcept hrecorded

theorem mirrors_callBy (happly : p.Applications apply apply') (hengine : p.good engine) {list receiver name : Value}
    (hf : f.Within p.good) (hlist : list.Within p.good) (hreceiver : receiver.Within p.good) (hname : name.Within p.good) :
    p.Mirrors p.Val (callBy apply engine f list receiver name)
      (callBy apply' (p.move engine) (p.value f) (p.value list) (p.value receiver) (p.value name)) := by
  refine (mirrors_callerOf hengine).bind ?_
  rintro caller _ ⟨rfl, hcaller⟩
  exact mirrors_call happly hcaller hf hlist hreceiver hname

variable (p) in
/-- Two ways to get the values of arguments that mirror each other. -/
def Arguments (arguments arguments' : Value → Context → Effect (List Value)) : Prop :=
  ∀ list ctx, list.Within p.good → ContextWithin p ctx →
    p.Mirrors p.Vals (arguments list ctx) (arguments' (p.value list) (p.context ctx))

/-- An expression does the same with counterparts, if what it runs does. -/
theorem mirrors_evalExpression {arguments arguments' : Value → Context → Effect (List Value)}
    (hnested : p.Evaluations nested nested') (harguments : p.Arguments arguments arguments')
    (happly : p.Applications apply apply') (hengine : p.good engine) (he : expression.Within p.good)
    (hctx : ContextWithin p ctx) :
    p.Mirrors p.Val (evalExpression nested arguments apply engine expression ctx)
      (evalExpression nested' arguments' apply' (p.move engine) (p.value expression) (p.context ctx)) := by
  refine (mirrors_ask fun _ _ h => h.both_command he).bind ?_
  rintro command _ ⟨rfl, hparts⟩
  refine mirrors_store.bind fun s s' h => ?_
  rw [evalEntry_value h he]
  refine (mirrors_trace _).same fun _ => ?_
  cases command with
  | call target args =>
    simp only [Command.parts, List.forall_mem_cons] at hparts
    refine (mirrors_evalCallee hnested hparts.1 hctx).bind ?_
    rintro found _ ⟨rfl, hfunction, hreceiver, hname⟩
    have hvalues : p.Mirrors p.Vals (evalArguments arguments args ctx)
        (evalArguments arguments' (args.map p.value) (p.context ctx)) := by
      cases args with
      | none => exact mirrors_pure ⟨rfl, by simp⟩
      | some list => exact harguments list ctx (hparts.2 list (by simp)) hctx
    refine hvalues.bind ?_
    rintro values _ ⟨rfl, hvalues⟩
    refine mirrors_store.bind fun s s' h => ?_
    refine mirrors_ite (by rw [callee, h.isCallable_value hfunction]) (fun _ => ?_) fun _ => mirrors_ask fun s s' h => ?_
    · exact (mirrors_newList hvalues).val fun list hlist => mirrors_callBy happly hengine hfunction hlist hreceiver hname
    · refine (h.both_plainText hname).bind ?_
      rintro name _ rfl
      refine (h.both_print hfunction).bind ?_
      rintro shown _ rfl
      exact both_fail_about expression _
  | get target => exact mirrors_evalGet hnested (hparts target (by simp [Command.parts])) hctx
  | lambda params body =>
    refine mirrors_extend fun _ _ h => h.grown_allocClosure (hparts params ?_) (hparts body ?_) hctx hengine <;>
      simp [Command.parts]
  | set receiver source =>
    refine (mirrors_evalSource hnested (hparts source (by simp [Command.parts])) hctx).val fun v hv => ?_
    exact (mirrors_assignAt (hparts receiver (by simp [Command.parts])) hv hctx).same fun _ => mirrors_value hv
  | value payload =>
    exact mirrors_store.bind fun s s' h => mirrors_pure (h.unwrap_value (hparts payload (by simp [Command.parts])))

/-- A function made by a script does the same with counterparts, if its body does. -/
theorem mirrors_applyClosure {run run' : Ref → Evaluation}
    (hrun : ∀ engine, p.good engine → p.Evaluations (run engine) (run' (p.move engine))) {parts : Closure}
    (hparams : parts.params.Within p.good) (hbody : parts.body.Within p.good) (hcontext : parts.context.Within p.good)
    (hengine : parts.engine.Within p.good) (hargs : ∀ u ∈ args, u.Within p.good) :
    p.Mirrors p.Val (applyClosure run parts args) (applyClosure run' (p.closure parts) (args.map p.value)) := by
  have hvariables : p.hidden "variables" = false := hidden_eq_false (by decide)
  refine (mirrors_ask fun _ _ h => both_needAttribute hvariables h hcontext).val fun outer houter => ?_
  refine (mirrors_extend fun _ _ h => h.allocEmptyScope houter : p.Mirrors p.Val _ _).val fun scope hscope => ?_
  refine (mirrors_ask fun _ _ h => h.both_traverse hparams).bind fun names names' hnames => ?_
  rw [hnames.items.1]
  refine (mirrors_change fun _ _ h => both_bindParameters hscope h hnames.items.2 hargs).same fun _ => ?_
  refine (mirrors_ofExcept hnames.result).bind fun _ _ _ => ?_
  refine (mirrors_engineFor hengine).bind ?_
  rintro engine _ ⟨rfl, hengine⟩
  refine (mirrors_contextFrom hcontext).bind ?_
  rintro ctx _ ⟨rfl, hthis, -, hlast⟩
  exact hrun engine hengine _ _ hbody ⟨hthis, hscope, hlast⟩

/-- A script does the same with counterparts in either of its forms, if its expressions do. -/
theorem mirrors_runForm {single single' sequence sequence' : Value → Effect Value} (hv : v.Within p.good)
    (hsingle : ∀ w, w.Within p.good → p.Mirrors p.Val (single w) (single' (p.value w)))
    (hsequence : ∀ w, w.Within p.good → p.Mirrors p.Val (sequence w) (sequence' (p.value w))) :
    p.Mirrors p.Val (runForm single sequence v) (runForm single' sequence' (p.value v)) := by
  refine (mirrors_ask fun _ _ h => h.both_script hv).bind ?_
  rintro form _ ⟨rfl, hform⟩
  cases form with
  | single expression => exact hsingle expression hform
  | sequence list => exact hsequence list hform

/-- The methods of an evaluator do the same with counterparts, if what they run and call does. -/
theorem mirrors_performOnEngine {run run' : Evaluation} {call call' : Value → Value → Value → Value → Effect Value}
    (hrun : p.Evaluations run run')
    (hcall : ∀ f list receiver name, f.Within p.good → list.Within p.good → receiver.Within p.good →
      name.Within p.good →
      p.Mirrors p.Val (call f list receiver name) (call' (p.value f) (p.value list) (p.value receiver) (p.value name)))
    (m : Host.Method) (hargs : ∀ u ∈ args, u.Within p.good) :
    p.Mirrors p.Val (performOnEngine run call m args) (performOnEngine run' call' m (args.map p.value)) := by
  have hrefuse : p.Mirrors p.Val (refuseCount m args.length) (refuseCount m (args.map p.value).length) := by
    rw [List.length_map]
    exact mirrors_fault _ _
  cases m with
  | evaluate =>
    rcases args with _ | ⟨script, _ | ⟨context, _ | ⟨_, _⟩⟩⟩
    case cons.cons.nil =>
      simp only [List.forall_mem_cons] at hargs
      refine (mirrors_contextFrom hargs.2.1).bind ?_
      rintro ctx _ ⟨rfl, hctx⟩
      exact hrun script ctx hargs.1 hctx
    all_goals exact hrefuse
  | invoke =>
    rcases args with _ | ⟨f, _ | ⟨list, _ | ⟨receiver, _ | ⟨name, _ | ⟨_, _⟩⟩⟩⟩⟩
    case cons.cons.nil =>
      simp only [List.forall_mem_cons] at hargs
      exact hcall f list .null .null hargs.1 hargs.2.1 within_null within_null
    case cons.cons.cons.nil =>
      simp only [List.forall_mem_cons] at hargs
      exact hcall f list receiver .null hargs.1 hargs.2.1 hargs.2.2.1 within_null
    case cons.cons.cons.cons.nil =>
      simp only [List.forall_mem_cons] at hargs
      exact hcall f list receiver name hargs.1 hargs.2.1 hargs.2.2.1 hargs.2.2.2.1
    all_goals exact hrefuse
  | _ => exact hrefuse

end Steps

/-- The application of a value does the same with counterparts, if the functions that it calls back and the bodies of
functions do. -/
theorem mirrors_apply_succ {fuel : Nat}
    (hscript : ∀ engine, p.good engine → p.Evaluations (runScript fuel engine) (runScript fuel (p.move engine)))
    (hform : ∀ engine, p.good engine → p.Evaluations
      (fun script ctx => runForm
        (evalExpression (runScript fuel engine) (runArguments fuel engine 0) (apply fuel) engine · ctx)
        (runFrom fuel engine · 0 ctx .null) script)
      (fun script ctx => runForm
        (evalExpression (runScript fuel (p.move engine)) (runArguments fuel (p.move engine) 0) (apply fuel)
          (p.move engine) · ctx)
        (runFrom fuel (p.move engine) · 0 ctx .null) script))
    (happly : p.Applications (apply fuel) (apply fuel)) : p.Applications (apply (fuel + 1)) (apply (fuel + 1)) := by
  intro f args this hf hargs hthis
  rw [apply, apply]
  refine mirrors_store.bind fun s s' h => ?_
  have hcall : p.Calls (fun g args => apply fuel g args none) fun g args => apply fuel g args none :=
    fun g args hg hargs => happly g args none hg hargs (by simp)
  dsimp only
  rw [h.typeName_value hf]
  rcases h.cell?_cases hf with ⟨hc, hc'⟩ | ⟨r, c, -, -, hc, hc', hwithin⟩ <;> rw [hc, hc']
  · exact mirrors_raise (errors_of _)
  · cases c with
    | closure parts attrs =>
      simp only [Cell.contents, Cell.parts, List.forall_mem_append, List.forall_mem_cons] at hwithin
      obtain ⟨⟨hparams, hbody, hcontext, hengine, -⟩, -⟩ := hwithin
      exact mirrors_applyClosure hscript hparams hbody hcontext hengine hargs
    | function g attrs => exact mirrors_function hcall fuel g hargs hthis
    | method self m =>
      have hself := hwithin self (by simp [Cell.contents, Cell.parts])
      obtain ⟨hengine, hgood⟩ := h.engine?_value hself
      simp only [cell, hengine]
      cases hr : s.engine? self with
      | none => exact mirrors_method hcall fuel hself m hargs hthis
      | some engine =>
        refine mirrors_performOnEngine (hform engine (hgood engine hr)) (fun f list receiver name hf hlist hreceiver hname => ?_)
          m hargs
        exact mirrors_call happly (hgood engine hr) hf hlist hreceiver hname
    | object cls attrs => exact mirrors_class hcall fuel hf cls hargs hthis
    | _ => exact mirrors_raise (errors_of _)

/-- The four functions of the interpreter do the same with counterparts. -/
theorem mirrors_run (fuel : Nat) :
    (∀ engine, p.good engine → p.Evaluations (runScript fuel engine) (runScript fuel (p.move engine))) ∧
    (∀ engine list i ctx last, p.good engine → list.Within p.good → ContextWithin p ctx → last.Within p.good →
      p.Mirrors p.Val (runFrom fuel engine list i ctx last)
        (runFrom fuel (p.move engine) (p.value list) i (p.context ctx) (p.value last))) ∧
    (∀ engine i, p.good engine → p.Arguments (runArguments fuel engine i) (runArguments fuel (p.move engine) i)) ∧
    p.Applications (apply fuel) (apply fuel) := by
  induction fuel with
  | zero =>
    refine ⟨?_, ?_, ?_, ?_⟩
    · intro engine _ script ctx _ _
      rw [runScript, runScript]
      exact mirrors_exhaust
    · intro engine list i ctx last _ _ _ _
      rw [runFrom, runFrom]
      exact mirrors_exhaust
    · intro engine i _ list ctx _ _
      rw [runArguments, runArguments]
      exact mirrors_exhaust
    · intro f args this _ _ _
      rw [apply, apply]
      exact mirrors_exhaust
  | succ fuel ih =>
    obtain ⟨hscript, hfrom, harguments, happly⟩ := ih
    -- a script is run in its form by an evaluator and by its method alike
    have hform : ∀ engine, p.good engine → p.Evaluations
        (fun script ctx => runForm
          (evalExpression (runScript fuel engine) (runArguments fuel engine 0) (apply fuel) engine · ctx)
          (runFrom fuel engine · 0 ctx .null) script)
        (fun script ctx => runForm
          (evalExpression (runScript fuel (p.move engine)) (runArguments fuel (p.move engine) 0) (apply fuel)
            (p.move engine) · ctx)
          (runFrom fuel (p.move engine) · 0 ctx .null) script) := by
      intro engine hengine script ctx hscript' hctx
      refine mirrors_runForm hscript' (fun expression he => ?_) fun list hlist => ?_
      · exact mirrors_evalExpression (hscript engine hengine) (harguments engine 0 hengine) happly hengine he hctx
      · exact hfrom engine list 0 ctx .null hengine hlist hctx within_null
    refine ⟨?_, ?_, ?_, ?_⟩
    · intro engine hengine script ctx hscript' hctx
      rw [runScript, runScript]
      refine (mirrors_evaluatorOf hengine).bind ?_
      rintro evaluator _ ⟨rfl, hevaluator⟩
      exact hform evaluator hevaluator script ctx hscript' hctx
    · intro engine list i ctx last hengine hlist hctx hlast
      rw [runFrom, runFrom]
      refine (mirrors_element? hlist i).bind ?_
      rintro found _ ⟨rfl, hfound⟩
      cases found with
      | none => exact mirrors_value hlast
      | some expression =>
        refine (mirrors_evalExpression (hscript engine hengine) (harguments engine 0 hengine) happly hengine
          (hfound expression rfl) hctx).val fun v hv => ?_
        exact hfrom engine list (i + 1) _ v hengine hlist ⟨hctx.1, hctx.2.1, hv⟩ hv
    · intro engine i hengine list ctx hlist hctx
      rw [runArguments, runArguments]
      refine (mirrors_element? hlist i).bind ?_
      rintro found _ ⟨rfl, hfound⟩
      cases found with
      | none => exact mirrors_pure ⟨rfl, by simp⟩
      | some source =>
        refine (mirrors_evalSource (hscript engine hengine) (hfound source rfl) hctx).val fun v hv => ?_
        refine (harguments engine (i + 1) hengine list ctx hlist hctx).bind ?_
        rintro vs _ ⟨rfl, hvs⟩
        exact mirrors_pure ⟨rfl, List.forall_mem_cons.2 ⟨hv, hvs⟩⟩
    · exact mirrors_apply_succ hscript hform happly

theorem mirrors_newDict : p.Mirrors p.Val (extend (·.allocDict [])) (extend (·.allocDict [])) :=
  mirrors_extend fun s s' h => @allocDict p s s' h [] (by simp [Entries.parts])

theorem mirrors_newContext {this vars parent : Value} (hthis : this.Within p.good) (hvars : vars.Within p.good)
    (hparent : parent.Within p.good) :
    p.Mirrors (Contexts p) (newContext this vars parent) (newContext (p.value this) (p.value vars) (p.value parent)) := by
  have hscope : ∀ this bindings : Value, this.Within p.good → bindings.Within p.good → p.Mirrors (Contexts p)
      (extend (·.allocScope parent bindings) >>= fun scope => pure ⟨this, scope, .null⟩)
      (extend (·.allocScope (p.value parent) (p.value bindings)) >>= fun scope => pure ⟨p.value this, scope, .null⟩) :=
    fun this bindings hthis hbindings =>
      (mirrors_extend fun _ _ h => h.allocScope hparent hbindings : p.Mirrors p.Val _ _).val fun scope hscope =>
        mirrors_pure ⟨rfl, hthis, hscope, within_null⟩
  unfold newContext
  refine mirrors_ite value_eq_null (fun _ => mirrors_newDict.val fun this hthis => ?_) fun _ =>
    (mirrors_value hthis).val fun this hthis => ?_ <;>
  exact mirrors_ite value_eq_null (fun _ => mirrors_newDict.val fun bindings hbindings => hscope this bindings hthis hbindings)
    fun _ => (mirrors_value hvars).val fun bindings hbindings => hscope this bindings hthis hbindings

/-- A script run in place does the same with counterparts. -/
theorem mirrors_execute (fuel : Nat) {script this vars : Value} (hengine : p.good engine) (hscript : script.Within p.good)
    (hthis : this.Within p.good) (hvars : vars.Within p.good) :
    p.Mirrors p.Val (execute fuel engine script this vars)
      (execute fuel (p.move engine) (p.value script) (p.value this) (p.value vars)) := by
  refine (mirrors_newContext hthis hvars within_null).bind ?_
  rintro ctx _ ⟨rfl, hctx⟩
  exact (mirrors_run fuel).1 engine hengine script ctx hscript hctx

end ListScript.Pairing
