import ListScript.Proofs.CallRecord
import ListScript.Proofs.Silence

/-!
# The trace of a run

With tracing on, a run ends as it does with tracing off, with the same value or error and the same objects, and the trace
holds the entries of the tasks of the run, each before those of the tasks it starts (`runScript_transcribed`). Only two
kinds of tasks have an entry of their own (`Moment.headline`): an expression that is accepted, and a call, whether it is
that of a call expression or of a method of an evaluator. As the arguments of a call are tasks of the expression that come
before the call, and its body is a task of the call, the entry of a call stands between those of the arguments and those
of the body.

The entries of a run are read off the run without tracing (`Moment.transcript`). That a run with tracing writes them
(`Moment.told`) goes by effects with the tasks that they start (`Logged.Tells`), then by induction on the weight of tasks.
An entry is one line of text unless the name of a call holds line breaks or cannot be printed.
-/

namespace ListScript

open Effect

/-! ## Transcripts -/

/-- The entry that a task has of its own. -/
def Moment.headline (m : Moment) : Option String :=
  match m.task with
  | .expression _ v _ => (m.state.store.command v).toOption.map (evalEntry m.state.store v)
  | .call _ f args _ name => entryOfCall f args name m.state
  | _ => none

/-- The entries of a task: its own entry, and then the entries of the tasks that it starts, one task after the other. -/
def Moment.transcript (m : Moment) : List String :=
  m.headline.toList ++ m.events.attach.flatMap fun ev => ev.1.moment.transcript
termination_by m.weight
decreasing_by exact Starts.weight_lt ⟨ev.1, ev.2, rfl⟩

/-- The entries of some tasks, one task after the other. -/
def transcripts (events : List Event) : List String := events.flatMap fun ev => ev.moment.transcript

theorem transcripts_append (events more : List Event) : transcripts (events ++ more) = transcripts events ++ transcripts more :=
  List.flatMap_append

theorem Moment.transcript_eq (m : Moment) : m.transcript = m.headline.toList ++ transcripts m.events := by
  rw [transcript, transcripts]
  simp

/-- With tracing on, a task ends as it does without, and writes its entries. -/
def Moment.Told (m : Moment) : Prop :=
  ∀ st : State, st.hushed = m.state → m.task.run m.fuel st = m.outcome.voiced st m.transcript

/-! ## Effects with the tasks that they start -/

namespace Logged

variable {α β : Type} {p : Logged α} {act : Effect α} {lead : State → List String}

/-- With tracing on, the effect ends as it does without, and writes some entries first and then those of its tasks, if each
of these does so. -/
def Tells (lead : State → List String) (p : Logged α) : Prop :=
  ∀ st : State, (∀ ev ∈ p.log st.hushed, ev.moment.Told) →
    p.run st = (p.run st.hushed).voiced st (lead st.hushed ++ transcripts (p.log st.hushed))

/-- The effect writes the entries of its tasks and no others. -/
def Told (p : Logged α) : Prop := p.Tells fun _ => []

theorem told_lift (h : Quiet act) : (lift act).Told := fun st _ => h st

theorem told_start (fuel : Nat) (t : Task) : (start fuel t).Told := by
  intro st hev
  have ht := hev ⟨⟨fuel, t, st.hushed⟩, false⟩ List.mem_cons_self st rfl
  change t.run fuel st = (t.run fuel st.hushed).voiced st ([] ++ transcripts [_])
  rw [ht, transcripts, List.flatMap_singleton]
  rfl

theorem told_watch (fuel : Nat) (t : Task) : (watch fuel t).Told := by
  intro st hev
  have ht := hev ⟨⟨fuel, t, st.hushed⟩, true⟩ List.mem_cons_self st rfl
  change attempt (t.run fuel) st = (attempt (t.run fuel) st.hushed).voiced st ([] ++ transcripts [_])
  rw [transcripts, List.flatMap_singleton]
  exact voiced_attempt ht

theorem Tells.bind {f : α → Logged β} (h : p.Tells lead) (hf : ∀ a, (f a).Told) : (p >>= f).Tells lead := by
  intro st hev
  change ∀ ev ∈ p.log st.hushed ++ logAfter f (p.run st.hushed), _ at hev
  change Effect.bind p.run _ st = (Effect.bind p.run _ st.hushed).voiced st
    (lead st.hushed ++ transcripts (p.log st.hushed ++ logAfter f (p.run st.hushed)))
  have hfirst : ∀ ev ∈ p.log st.hushed, ev.moment.Told := fun ev hmem => hev ev (List.mem_append_left _ hmem)
  have hp := h st hfirst
  unfold Effect.bind
  rw [hp]
  cases hrun : p.run st.hushed with
  | value a st₁ =>
    have hst₁ : st₁ = st₁.hushed := hushed_of_voiced (h st.hushed hfirst) (by rw [hrun]; rfl)
    rw [hrun] at hev
    -- the second effect starts where the first one ends, with the entries of the first one in the trace
    generalize hentries : lead st.hushed ++ transcripts (p.log st.hushed) = entries
    have hheard : (st.heard st₁.store entries).hushed = st₁ := hst₁.symm
    have hrest := hf a (st.heard st₁.store entries)
    rw [hheard] at hrest
    change (f a).run (st.heard st₁.store entries) =
      ((f a).run st₁).voiced st (lead st.hushed ++ transcripts (p.log st.hushed ++ (f a).log st₁))
    rw [hrest fun ev hmem => hev ev (List.mem_append_right _ hmem), Outcome.voiced_heard, transcripts_append, ← hentries]
    simp only [List.nil_append, List.append_assoc]
  | raised e st₁ =>
    change Outcome.raised e _ = .raised e _
    rw [logAfter, List.append_nil]
  | exhausted => rfl

/-- What a task does by itself adds no entries to those of the tasks that it starts. -/
theorem compositional_told : Compositional @Quiet (fun _ => True) fun _ p => p.Told where
  effects := compositional_quiet
  lift := told_lift
  start fuel _ := told_start fuel _
  watch fuel _ := told_watch fuel _
  bind h hf := h.bind hf

/-! ### Tasks -/

section Tasks

variable (fuel : Nat) (engine : Ref) (ctx : Context)

/-- An expression writes its entry before its tasks write theirs. -/
theorem tells_expression (v : Value) :
    (expression fuel engine ctx v).Tells fun st => ((st.store.command v).toOption.map (evalEntry st.store v)).toList := by
  intro st hev
  dsimp only
  rw [State.store_hushed]
  cases hcommand : st.store.command v with
  | error e =>
    have hcommand' : st.hushed.store.command v = .error e := hcommand
    obtain ⟨hrun, -⟩ := expression_refused fuel engine ctx hcommand
    obtain ⟨hrun', hlog⟩ := expression_refused fuel engine ctx hcommand'
    rw [hrun, hrun', hlog]
    simp [Outcome.voiced, transcripts, Except.toOption]
  | ok c =>
    have hcommand' : st.hushed.store.command v = .ok c := hcommand
    obtain ⟨hrun, -⟩ := expression_accepted fuel engine ctx hcommand
    obtain ⟨hrun', hlog⟩ := expression_accepted fuel engine ctx hcommand'
    rw [hlog] at hev
    rw [hrun, hrun', hlog]
    have htold : (command fuel engine ctx v c).Told := compositional_told.command (fun _ _ => trivial)
      (fun _ _ => trivial) (fun _ _ _ => trivial) (fun _ _ => trivial) v c
    replace htold := htold (st.traced (evalEntry st.store v c))
    rw [State.traced_eq_heard] at htold ⊢
    rw [htold hev, Outcome.voiced_heard]
    rfl

/-- A call writes its entry before the function writes its entries. -/
theorem tells_call (f args receiver name : Value) :
    (call fuel engine f args receiver name).Tells fun st => (entryOfCall f args name st).toList := by
  have hopen : (lift (openCall engine f args receiver name)).Tells fun st => (entryOfCall f args name st).toList := by
    intro st _
    change openCall engine f args receiver name st = _
    rw [voiced_openCall]
    change _ = (openCall engine f args receiver name st.hushed).voiced st (_ ++ [])
    rw [List.append_nil]
  exact hopen.bind fun p => (told_watch _ _).bind fun outcome => told_lift (quiet_closeCall engine outcome)

theorem told_apply (f : Value) (args : List Value) (this : Option Value) : (apply f args this fuel).Told := by
  cases fuel with
  | zero => exact compositional_told.exhaust
  | succ fuel =>
    refine compositional_told.keep quiet_store fun s => ?_
    split
    · exact compositional_told.closure (fun _ _ _ => trivial) fuel _ args
    · exact compositional_told.function (fun _ _ => trivial) (fun _ _ => trivial) (fun _ _ _ => trivial) _ args this
    · split
      · exact compositional_told.onEngine (fun _ _ => trivial) (fun _ _ _ _ => trivial) _ args
      · exact compositional_told.method (fun _ _ => trivial) (fun _ _ => trivial) (fun _ _ _ => trivial)
          (fun _ _ => quiet_change _) args this
    · exact compositional_told.object (fun _ _ => trivial) (fun _ _ => trivial) (fun _ _ _ => trivial) f _ args this
    · exact told_lift (quiet_raise _)

end Tasks

end Logged

namespace Moment

/-- A task writes its own entry and then the entries of the tasks that it starts. -/
theorem tells_task (fuel : Nat) (t : Task) :
    (t.logged fuel).Tells fun st => (headline ⟨fuel, t, st⟩).toList := by
  cases t with
  | script engine v ctx => exact Logged.compositional_told.script (fun _ _ _ => trivial) fuel engine ctx v
  | expression engine v ctx => exact Logged.tells_expression fuel engine ctx v
  | invoke engine found values => exact Logged.compositional_told.invoke (fun _ _ _ _ _ => trivial) fuel engine found values
  | call engine f args receiver name => exact Logged.tells_call fuel engine f args receiver name
  | apply f args this => exact Logged.told_apply fuel f args this
  | read path ctx => exact Logged.told_lift (quiet_readAt path ctx)
  | write path v ctx => exact Logged.told_lift (quiet_writeAt path v ctx)

/-- **With tracing on, a task ends as it does without, and writes its entries.** -/
theorem told (m : Moment) : m.Told := by
  induction hw : m.weight using Nat.strongRecOn generalizing m with
  | ind w ih =>
    intro st hst
    obtain ⟨fuel, t, st₀⟩ := m
    obtain rfl : st.hushed = st₀ := hst
    have hsub : ∀ ev ∈ (t.logged fuel).log st.hushed, ev.moment.Told := fun ev hev =>
      ih ev.moment.weight (hw ▸ Starts.weight_lt (m := ⟨fuel, t, st.hushed⟩) ⟨ev, hev, rfl⟩) ev.moment rfl
    have htask := tells_task fuel t st hsub
    rw [Task.run_logged] at htask
    rw [transcript_eq]
    exact htask

end Moment

/-! ## The order of the entries -/

/-- Whether a task is the making of a call that an expression has found. -/
def Task.isInvoke : Task → Bool
  | invoke .. => true
  | _ => false

/-- The entries of a task and their order. An expression that is refused writes none. One that is accepted writes its
entry, then come the entries of what it runs on the way, and those of the call that it makes, if it makes one, are the
last. That call writes an entry under the name that the expression has found, with the number of the arguments, before the
function that it applies writes any. So does a call that a method of an evaluator makes, unless it is refused for its name
or its arguments. All other tasks have the entries of the tasks they start. -/
def Moment.Transcribed (m : Moment) : Prop :=
  match m.task with
  | .expression _ v _ =>
    match m.state.store.command v with
    | .error _ => m.transcript = []
    | .ok c =>
      ∃ parts calls, m.events = parts ++ calls ∧ (∀ ev ∈ parts, ev.moment.task.isInvoke = false) ∧
        (∀ ev ∈ calls, ev.moment.task.isInvoke = true) ∧ calls.length ≤ 1 ∧
        m.transcript = evalEntry m.state.store v c :: (transcripts parts ++ transcripts calls)
  | .invoke engine found values =>
    match callerOf engine (m.state.withArguments values) with
    | .value caller st =>
      ∃ called : Moment, m.events = [⟨called, false⟩] ∧ called.state = st ∧
        called.task = .call caller found.function (.ref m.state.store.next) found.receiver found.name ∧
        m.transcript = callEntry st.store found.name values.length :: transcripts called.events
    | .raised .. | .exhausted => m.transcript = []
  | .call _ f args _ name =>
    match entryOfCall f args name m.state with
    | some entry => m.transcript = entry :: transcripts m.events
    | none => m.transcript = []
  | _ => m.transcript = transcripts m.events

namespace Logged

variable {α β : Type}

/-- The effect makes at most one call, as the last of its tasks. -/
def CallsLast (p : Logged α) : Prop :=
  ∀ st, ∃ parts calls, p.log st = parts ++ calls ∧ (∀ ev ∈ parts, ev.moment.task.isInvoke = false) ∧
    (∀ ev ∈ calls, ev.moment.task.isInvoke = true) ∧ calls.length ≤ 1

theorem All.callsLast {p : Logged α} (h : p.All fun t => t.isInvoke = false) : p.CallsLast := fun st =>
  ⟨p.log st, [], (List.append_nil _).symm, h st, by simp, Nat.zero_le 1⟩

theorem callsLast_start {t : Task} (fuel : Nat) (h : t.isInvoke = true) : (start fuel t).CallsLast := by
  intro st
  refine ⟨[], [⟨⟨fuel, t, st⟩, false⟩], rfl, by simp, fun ev hev => ?_, Nat.le_refl 1⟩
  rw [List.mem_singleton.1 hev]
  exact h

theorem All.bind_callsLast {p : Logged α} {f : α → Logged β} (h : p.All fun t => t.isInvoke = false)
    (hf : ∀ a, (f a).CallsLast) : (p >>= f).CallsLast := by
  intro st
  change ∃ parts calls, p.log st ++ logAfter f (p.run st) = parts ++ calls ∧ _
  cases p.run st with
  | value a st₁ =>
    obtain ⟨parts, calls, hlog, hparts, hcalls⟩ := hf a st₁
    refine ⟨p.log st ++ parts, calls, by rw [logAfter, hlog, List.append_assoc], fun ev hev => ?_, hcalls⟩
    rcases List.mem_append.1 hev with hev | hev
    · exact h st ev hev
    · exact hparts ev hev
  | raised | exhausted => exact ⟨p.log st, [], rfl, h st, by simp, Nat.zero_le 1⟩

theorem callsLast_command (fuel : Nat) (engine : Ref) (ctx : Context) (v : Value) (c : Command) :
    (command fuel engine ctx v c).CallsLast := by
  have hall := compositional_all fun t => t.isInvoke = false
  have hscript : ∀ v ctx, (Task.script engine v ctx).isInvoke = false := fun _ _ => rfl
  cases c with
  | call target args =>
    refine (hall.callee hscript (fun _ _ => rfl) v target).bind_callsLast fun found => ?_
    refine (hall.givenArguments hscript args).bind_callsLast fun values => all_lift.bind_callsLast fun s => ?_
    split
    · exact callsLast_start _ rfl
    · exact all_lift.callsLast
  | get target => exact (hall.get hscript (fun _ _ => rfl) v target).callsLast
  | lambda params body => exact all_lift.callsLast
  | set receiver w =>
    have hset : (command fuel engine ctx v (.set receiver w)).All fun t => t.isInvoke = false :=
      hall.bind (hall.source hscript w) fun w => all_keep fun path => all_start rfl
    exact hset.callsLast
  | value payload => exact (all_keep fun s => all_pure).callsLast

end Logged

/-- Two ends with the same value or the same error and with the same objects, or none at all for want of fuel. -/
inductive Outcome.Alike {α : Type} : Outcome α → Outcome α → Prop
  | value (a : α) {st st' : State} : st.store = st'.store → Alike (.value a st) (.value a st')
  | raised (e : Raised) {st st' : State} : st.store = st'.store → Alike (.raised e st) (.raised e st')
  | exhausted : Alike .exhausted .exhausted

namespace Moment

variable {m m' : Moment}

/-- A call that is made for an expression is made by the evaluator that is found for it. -/
theorem events_invoke (fuel : Nat) (found : Callee) {engine caller : Ref} {values : List Value} {st : State}
    (h : callerOf engine (st.withArguments values) = .value caller (st.withArguments values)) :
    events ⟨fuel, .invoke engine found values, st⟩ =
      [⟨⟨fuel, .call caller found.function (.ref st.store.next) found.receiver found.name, st.withArguments values⟩,
        false⟩] := by
  change [] ++ ([] ++ Logged.logAfter (fun caller => Logged.start fuel _) (callerOf engine (st.withArguments values))) = _
  rw [h]
  rfl

theorem events_invoke_of_refused (fuel : Nat) (found : Callee) {engine : Ref} {values : List Value} {st : State}
    (h : ∀ caller st', callerOf engine (st.withArguments values) ≠ .value caller st') :
    events ⟨fuel, .invoke engine found values, st⟩ = [] := by
  change [] ++ ([] ++ Logged.logAfter (fun caller => Logged.start fuel _) (callerOf engine (st.withArguments values))) = _
  cases hcaller : callerOf engine (st.withArguments values) with
  | value caller st' => exact absurd hcaller (h caller st')
  | raised | exhausted => rfl

/-- A call that writes no entry applies nothing. -/
theorem events_call_of_refused (fuel : Nat) (engine : Ref) (receiver : Value) {f args name : Value} {st : State}
    (h : entryOfCall f args name st = none) : events ⟨fuel, .call engine f args receiver name, st⟩ = [] := by
  have hopen : ∀ p st', openCall engine f args receiver name st ≠ .value p st' := by
    intro p st' hopen
    obtain ⟨label, st₁, hlabel, hrest⟩ := bind_eq_value.1 hopen
    obtain ⟨s, st₂, hstore, hrest⟩ := bind_eq_value.1 hrest
    cases hstore
    obtain ⟨items, st₃, hitems, -⟩ := bind_eq_value.1 hrest
    obtain ⟨hitems, -⟩ := ask_eq_value.1 hitems
    have hst₁ : st₁ = st := by
      obtain ⟨e, hraised, -⟩ | ⟨label', hlabel', -⟩ := callLabel_cases f name st
      · cases hraised.symm.trans hlabel
      · cases hlabel'.symm.trans hlabel
        rfl
    rw [hst₁] at hlabel hitems
    rw [entryOfCall, hlabel, hitems] at h
    cases h
  change [] ++ Logged.logAfter _ (openCall engine f args receiver name st) = _
  cases hcall : openCall engine f args receiver name st with
  | value p st' => exact absurd hcall (hopen p st')
  | raised | exhausted => rfl

/-- The call of an expression writes an entry under a name that is not empty. -/
theorem entryOfCall_arguments (f : Value) (values : List Value) {name : Value} {st : State}
    (hname : (st.withArguments values).store.isTrue name = true) :
    entryOfCall f (.ref st.store.next) name (st.withArguments values) =
      some (callEntry (st.withArguments values).store name values.length) := by
  have hlabel : callLabel f name (st.withArguments values) = .value name (st.withArguments values) := by
    unfold callLabel
    rw [store_bind, if_pos hname]
    rfl
  have hvalues : (st.withArguments values).store.sizedElements (.ref st.store.next) = .ok values := by
    simp only [State.withArguments, Store.sizedElements, Store.elements?, Store.next, Store.get?, Store.alloc, Store.size,
      Array.getElem?_push_size]
  unfold entryOfCall
  rw [hlabel, hvalues]

/-- The name that an expression of a run finds for a call is not empty. -/
theorem isTrue_name_of_reaches {engine engine' : Ref} {script : Value} {ctx : Context} {fuel : Nat} {found : Callee}
    {values : List Value} {st : State} (hm : m.task = .script engine script ctx)
    (h : m.Reaches ⟨fuel, .invoke engine' found values, st⟩) (s : Store) : s.isTrue found.name = true := by
  rcases Relation.ReflTransGen.cases_tail h with rfl | ⟨⟨fuel₁, task, st₁⟩, -, hstarts⟩
  · cases hm
  obtain ⟨v, ctx', rfl⟩ := hstarts.begets.of_invoke
  obtain ⟨_, _, _, _, -, -, hcallee, -⟩ := of_starts_expression hstarts rfl
  exact isTrue_name_of_evalCallee hcallee s

/-- The entries of whatever a run that starts with a script comes to have their order. -/
theorem transcribed_of_reaches {engine : Ref} {script : Value} {ctx : Context} (hm : m.task = .script engine script ctx)
    (h : m.Reaches m') : m'.Transcribed := by
  obtain ⟨fuel, task, st⟩ := m'
  have heq := transcript_eq ⟨fuel, task, st⟩
  cases task with
  | expression engine v ctx =>
    unfold Transcribed
    dsimp only
    split
    · rename_i e hrefused
      rw [heq]
      change ((st.store.command v).toOption.map _).toList ++ transcripts ((Logged.expression fuel engine ctx v).log st) = []
      rw [(Logged.expression_refused fuel engine ctx hrefused).2]
      change st.store.command v = _ at hrefused
      rw [hrefused]
      rfl
    · rename_i c haccepted
      change st.store.command v = _ at haccepted
      obtain ⟨parts, calls, hlog, hparts, hcalls, hone⟩ :=
        Logged.callsLast_command fuel engine ctx v c (st.traced (evalEntry st.store v c))
      have hevents : events ⟨fuel, .expression engine v ctx, st⟩ = parts ++ calls :=
        (Logged.expression_accepted fuel engine ctx haccepted).2.trans hlog
      refine ⟨parts, calls, hevents, hparts, hcalls, hone, ?_⟩
      rw [heq, hevents, transcripts_append, headline]
      dsimp only
      rw [haccepted]
      rfl
  | invoke engine found values =>
    have hname := isTrue_name_of_reaches hm h (st.withArguments values).store
    unfold Transcribed
    dsimp only
    rw [heq, headline, Option.toList_none, List.nil_append]
    obtain ⟨caller, hcaller, -⟩ | ⟨e, hraised, -⟩ | hexhausted := looks_callerOf engine (st.withArguments values)
    · have hevents := events_invoke fuel found hcaller
      rw [hcaller, hevents]
      refine ⟨_, rfl, rfl, rfl, ?_⟩
      rw [transcripts, List.flatMap_singleton, transcript_eq]
      change (entryOfCall _ _ _ _).toList ++ _ = _
      rw [entryOfCall_arguments _ _ hname]
      rfl
    · rw [hraised, events_invoke_of_refused fuel found (by simp [hraised])]
      rfl
    · rw [hexhausted, events_invoke_of_refused fuel found (by simp [hexhausted])]
      rfl
  | call engine f args receiver name =>
    replace heq : transcript ⟨fuel, .call engine f args receiver name, st⟩ = (entryOfCall f args name st).toList ++
      transcripts (events ⟨fuel, .call engine f args receiver name, st⟩) := heq
    unfold Transcribed
    dsimp only
    rw [heq]
    split
    · rename_i entry hline
      rw [hline]
      rfl
    · rename_i hline
      rw [hline, events_call_of_refused fuel engine receiver hline]
      rfl
  | script | apply | read | write => exact heq

end Moment

/-- **Tracing does not change what a run does.** With it and without it a script ends with the same value or the same
error, and with the same objects, the list of active calls among them. Without tracing nothing is written. With it, the
entries of the script are added to the trace, each task of the run having its own before those of the tasks it starts. -/
theorem runScript_transcribed (fuel : Nat) (engine : Ref) (script : Value) (ctx : Context) (s : Store)
    (before : Array String) :
    let start : Moment := ⟨fuel, .script engine script ctx, ⟨s, false, #[]⟩⟩
    let traced := runScript fuel engine script ctx ⟨s, true, before⟩
    let untraced := runScript fuel engine script ctx ⟨s, false, before⟩
    traced.Alike untraced ∧
    (∀ st, untraced.state? = some st → st.trace = before) ∧
    (∀ st, traced.state? = some st → st.trace = before ++ start.transcript.toArray) ∧
    ∀ m, start.Reaches m → m.Transcribed := by
  intro start traced untraced
  have htraced : traced = start.outcome.voiced ⟨s, true, before⟩ start.transcript := start.told _ rfl
  have huntraced : untraced = start.outcome.voiced ⟨s, false, before⟩ start.transcript := start.told _ rfl
  rw [htraced, huntraced]
  refine ⟨?_, ?_, ?_, fun m hm => Moment.transcribed_of_reaches rfl hm⟩
  · cases start.outcome with
    | value v st => exact .value v rfl
    | raised e st => exact .raised e rfl
    | exhausted => exact .exhausted
  · intro st hst
    cases hout : start.outcome <;> rw [hout] at hst <;> cases hst <;> rfl
  · intro st hst
    cases hout : start.outcome <;> rw [hout] at hst <;> cases hst <;> rfl

namespace Nested

/-- A call of a function `f` that reads its parameter, with the value of a variable as its argument. -/
def store : Store :=
  ⟨#[.list [] .plain, .engine (.ref ⟨0⟩) [], .list [.text "x"] .plain, .list [.text "get", .text "x"] .plain,
    .dict [(.text "y", .int 1), (.text "f", .ref ⟨6⟩)], .scope (.ref ⟨4⟩) .null,
    .closure ⟨.ref ⟨2⟩, .ref ⟨3⟩, .ref ⟨7⟩, .ref ⟨1⟩⟩ [], .context ⟨.null, .ref ⟨5⟩, .null⟩ [],
    .list [.text "get", .text "y"] .plain, .list [.ref ⟨8⟩] .plain,
    .list [.text "call", .text "f", .ref ⟨9⟩] .plain]⟩

/-- The variables as context. -/
def context : Context := ⟨.null, .ref ⟨5⟩, .null⟩

end Nested

open Nested in
/-- The entry of a call is between those of its argument and those of the function. -/
theorem runScript_transcribed_nested :
    (Moment.mk 9 (.script ⟨1⟩ (.ref ⟨10⟩) context) ⟨store, false, #[]⟩).transcript =
      ["[DBG] eval call params 2\n", "[DBG] eval get params 1\n", "[DBG] call f argc 1\n",
        "[DBG] eval get params 1\n"] := by
  obtain ⟨-, -, htrace, -⟩ := runScript_transcribed 9 ⟨1⟩ (.ref ⟨10⟩) context store #[]
  have hentries : (runScript 9 ⟨1⟩ (.ref ⟨10⟩) context ⟨store, true, #[]⟩).state?.map State.trace =
      some #["[DBG] eval call params 2\n", "[DBG] eval get params 1\n", "[DBG] call f argc 1\n",
        "[DBG] eval get params 1\n"] := by
    decide +kernel
  obtain ⟨st, hst, hwritten⟩ := Option.map_eq_some_iff.1 hentries
  simpa using (congrArg Array.toList ((htrace st hst).symm.trans hwritten))

/-- A script that calls a function of the host by the path `[a⏎b]`. -/
def Nested.broken : Store :=
  ⟨#[.list [] .plain, .engine (.ref ⟨0⟩) [], .function .fail [], .dict [(.text "a\nb", .ref ⟨2⟩)],
    .scope (.ref ⟨3⟩) .null, .list [.text "call", .text "[a\nb]"] .plain]⟩

/-- The output is not one line for each expression and for each call of a call expression. Where all call expressions call
`c`, the method of an evaluator that `c` is adds an entry for the call that it makes itself. And the name in an entry may go
over several lines. -/
theorem not_runScript_transcribed :
    (Moment.always (fun m => match m.task with | .invoke _ found _ => found.name == .text "c" | _ => true) 9
        Moment.ofLending = true ∧
      (runScript 5 ⟨1⟩ (.ref ⟨6⟩) ⟨.null, .ref ⟨5⟩, .null⟩ ⟨Moment.lending.store, true, #[]⟩).state?.map State.trace =
        some #["[DBG] eval call params 2\n", "[DBG] eval get params 1\n", "[DBG] eval value params 1\n",
          "[DBG] call c argc 2\n", "[DBG] call <function fail> argc 0\n"]) ∧
    (runScript 5 ⟨1⟩ (.ref ⟨5⟩) ⟨.null, .ref ⟨4⟩, .null⟩ ⟨Nested.broken, true, #[]⟩).state?.map State.trace =
      some #["[DBG] eval call params 1\n", "[DBG] call [a\nb] argc 0\n"] :=
  ⟨⟨by decide +kernel, by decide +kernel⟩, by decide +kernel⟩

end ListScript
