import Mathlib.Data.List.Forall2
import ListScript.Proofs.Balance
import ListScript.Proofs.Steady

/-!
# The calls that an error records

An error arises in some task of a run, and leaves the tasks around it one after the other unless host code catches it on
the way. `Moment.Escapes` is the relation between a task, an error that leaves it, and the calls that the error passes
from where it arises, outermost first. Each of these calls was found and given its arguments by a call expression of the
run (`Moment.Makes`).

On an evaluator without active calls, to whose list of them the run follows no path, an error that takes a record and
brings none leaves the run with exactly these calls, and with none if it has passed none
(`Moment.escapes_recorded`). The induction is on the way of the error: the innermost call that it leaves records the
stack, and by `Moment.restores_of_spares` the stack is then what it was when the call became active.
-/

namespace ListScript

open Effect

/-! ## Calls as they are found -/

/-- An active call: the name it is called by, the list of its arguments, and their values. -/
structure ActiveCall where
  name : Value
  args : Value
  values : List Value

/-- The record of a call. -/
def ActiveCall.frame (c : ActiveCall) : Frame := ⟨c.name, c.args⟩

/-- The name under which a call expression calls what its target has given: the path text, or the printed target if it
has given something to call. -/
def Store.Names (s : Store) (target resolved name : Value) : Prop :=
  if resolved.isText then name = resolved else ∃ shown, s.print target = .ok shown ∧ name = .text shown

/-- A call expression that a run comes to finds something to call under a name, and has the values of its arguments. -/
def Moment.Makes (m : Moment) (name : Value) (values : List Value) : Prop :=
  ∃ fuel engine v ctx st st₀ target args resolved st₁ found st₂ st₃,
    m.Reaches ⟨fuel, .expression engine v ctx, st⟩ ∧ st.store.command v = .ok (.call target args) ∧ st₀.store = st.store ∧
    evalTarget (runScript fuel engine) target ctx st₀ = .value resolved st₁ ∧ st₁.store.Names target resolved name ∧
    evalCallee (runScript fuel engine) v target ctx st₀ = .value found st₂ ∧
    evalArguments (runArguments fuel engine 0) args ctx st₂ = .value values st₃

section Names

variable {s : Store} {v : Value}

/-- A list is a list for the whole run. -/
def Ward.listhood (v : Value) : Ward where
  inv s := s.isList v = true
  held _ := True
  exposes _ := True
  immediate _ _ := trivial
  part _ _ _ _ _ _ _ _ := trivial
  stack _ _ _ _ _ _ _ _ := trivial
  binding _ _ _ _ _ _ _ := trivial
  alloc s c hs _ := by
    refine ⟨?_, trivial⟩
    cases v with
    | ref r =>
      cases hc : s.get? r with
      | none => simp [Store.isList, Store.list?, Store.cell?, hc] at hs
      | some d => rwa [Store.isList, Store.list?, Store.cell?, Store.get?_alloc_lt c (Store.index_lt_of_get? hc)]
    | _ => exact hs
  set s r c c' hs _ hc _ hwrite _ := by
    cases v with
    | ref k =>
      by_cases heq : k = r
      · subst heq
        cases c with
        | list items flavor =>
          obtain ⟨items', rfl⟩ := hwrite.list
          simp [Store.isList, Store.list?, Store.cell?, Store.get?_set_self _ (Store.index_lt_of_get? hc)]
        | _ => simp [Store.isList, Store.list?, Store.cell?, hc] at hs
      · rwa [Store.isList, Store.list?, Store.cell?, Store.get?_set_ne c' heq]
    | _ => exact hs
  setStack s r w attrs w' hs _ _ hc _ := by
    cases v with
    | ref k =>
      by_cases heq : k = r
      · subst heq
        simp [Store.isList, Store.list?, Store.cell?, hc] at hs
      · rwa [Store.isList, Store.list?, Store.cell?, Store.get?_set_ne _ heq]
    | _ => exact hs

theorem isList_of_runScript {fuel : Nat} {engine : Ref} {ctx : Context} {w : Value} {st st' : State}
    (h : runScript fuel engine v ctx st = .value w st') : st'.store.isList v = true := by
  have hlist : st.store.isList v = true := by
    cases fuel with
    | zero => rw [runScript] at h; cases h
    | succ fuel =>
      rw [runScript] at h
      obtain ⟨evaluator, st₁, hfound, hrun⟩ := bind_eq_value.1 h
      obtain ⟨hst, -⟩ := (looks_evaluatorOf _ _).of_value hfound
      obtain ⟨form, st₂, hform, -⟩ := bind_eq_value.1 hrun
      obtain ⟨hform, -⟩ := ask_eq_value.1 hform
      rw [hst] at hform
      unfold Store.script at hform
      split at hform
      · rename_i items hitems
        rw [Store.isList, hitems]
        rfl
      · cases hshown : st.store.print v with
        | ok shown => rw [hshown] at hform; cases hform
        | error e => rw [hshown] at hform; cases hform
  let m : Moment := ⟨fuel, .script engine v ctx, st⟩
  have hout : m.outcome.state? = some st' := congrArg Outcome.state? h
  exact @Ward.inv_of_state? (.listhood v) m st' (fun m' _ => Ward.abides_of_exposes (fun _ => trivial) (fun _ => trivial) m') hlist
    (fun _ _ => trivial) hout

/-- A list is printed as some text. -/
theorem Store.ne_empty_of_print {t : String} (hlist : s.isList v = true) (h : s.print v = .ok t) : t ≠ "" := by
  cases v with
  | ref r =>
    cases hc : s.get? r with
    | none => simp [isList, list?, cell?, hc] at hlist
    | some c =>
      cases c with
      | list items flavor =>
        simp only [print, printAt, depthBound, printWithin, hc, printList] at h
        split at h
        · obtain ⟨lines, -, h⟩ := bind_eq_ok.1 h
          cases h
          simp
        · obtain ⟨texts, -, h⟩ := bind_eq_ok.1 h
          cases h
          simp
      | _ => simp [isList, list?, cell?, hc] at hlist
  | _ => cases hlist

/-- A path is spelled by a text that is not empty. -/
theorem Store.isTrue_of_pathOf {p : Path} (htext : v.isText = true) (h : s.pathOf v = .ok p) : s.isTrue v = true := by
  cases v with
  | str t flavor =>
    obtain ⟨_, -, h⟩ := bind_eq_ok.1 h
    dsimp only [Value.text?, Option.getD] at h
    by_cases hempty : t = ""
    · subst hempty
      have hparse : Path.parse "" = .error .empty := rfl
      rw [hparse] at h
      dsimp only at h
      obtain ⟨shown, -, h⟩ := bind_eq_ok.1 h
      cases h
    · simpa [Store.isTrue] using hempty
  | _ => cases htext

end Names

/-! ## Where calls come from -/

section Sites

variable {fuel : Nat} {engine : Ref} {v : Value} {ctx : Context} {st : State}

/-- What the target of a call expression gives, and the name for it. -/
theorem of_evalCallee {nested : Evaluation} {target : Value} {found : Callee} {st' : State}
    (h : evalCallee nested v target ctx st = .value found st') :
    ∃ resolved st₁, evalTarget nested target ctx st = .value resolved st₁ ∧
      st₁.store.Names target resolved found.name ∧
      (resolved.isText = true → ∃ p, st₁.store.pathOf resolved = .ok p) := by
  obtain ⟨resolved, st₁, htarget, h⟩ := bind_eq_value.1 h
  refine ⟨resolved, st₁, htarget, ?_⟩
  unfold Store.Names
  by_cases htext : resolved.isText = true
  · rw [if_pos htext] at h ⊢
    obtain ⟨path, st₂, hpath, h⟩ := bind_eq_value.1 h
    obtain ⟨function, st₃, -, h⟩ := bind_eq_value.1 h
    refine ⟨?_, fun _ => ⟨path, (ask_eq_value.1 hpath).1⟩⟩
    cases hparent : path.parent with
    | none =>
      rw [hparent] at h
      obtain ⟨rfl, -⟩ := pure_eq_value.1 h
      rfl
    | some parent =>
      rw [hparent] at h
      obtain ⟨owner, st₄, -, h⟩ := bind_eq_value.1 h
      obtain ⟨rfl, -⟩ := pure_eq_value.1 h
      rfl
  · rw [if_neg htext] at h ⊢
    obtain ⟨s, st₂, hstore, h⟩ := bind_eq_value.1 h
    cases hstore
    refine ⟨?_, fun h => absurd h htext⟩
    split at h
    · obtain ⟨shown, st₃, hshown, h⟩ := bind_eq_value.1 h
      obtain ⟨rfl, -⟩ := pure_eq_value.1 h
      exact ⟨shown, (ask_eq_value.1 hshown).1, rfl⟩
    · obtain ⟨hraise, -⟩ := ask_eq_value.1 h
      obtain ⟨_, -, hraise⟩ := bind_eq_ok.1 hraise
      obtain ⟨_, -, hraise⟩ := bind_eq_ok.1 hraise
      cases hraise

/-- The name that a call expression finds is not empty. -/
theorem isTrue_name_of_evalCallee {target : Value} {found : Callee} {st' : State}
    (h : evalCallee (runScript fuel engine) v target ctx st = .value found st') (s : Store) :
    s.isTrue found.name = true := by
  obtain ⟨resolved, st₁, htarget, hnames, hpath⟩ := of_evalCallee h
  unfold Store.Names at hnames
  split at hnames
  · rename_i htext
    obtain ⟨p, hp⟩ := hpath htext
    rw [hnames]
    have htrue := Store.isTrue_of_pathOf htext hp
    cases resolved with
    | str => exact htrue
    | _ => cases htext
  · rename_i htext
    obtain ⟨shown, hshown, hname⟩ := hnames
    unfold evalTarget at htarget
    split at htarget
    · rename_i htarget'
      obtain ⟨rfl, -⟩ := pure_eq_value.1 htarget
      exact absurd htarget' htext
    · rw [hname]
      simpa [Store.isTrue, Value.text] using Store.ne_empty_of_print (isList_of_runScript htarget) hshown

/-- A call that an expression starts has been found by it, with the values of its arguments. -/
theorem of_starts_expression {m : Moment} {found : Callee} {values : List Value}
    (h : Moment.Starts ⟨fuel, .expression engine v ctx, st⟩ m) (hm : m.task = .invoke engine found values) :
    ∃ target args st₀ st₂, st.store.command v = .ok (.call target args) ∧ st₀.store = st.store ∧
      evalCallee (runScript fuel engine) v target ctx st₀ = .value found st₂ ∧
      evalArguments (runArguments fuel engine 0) args ctx st₂ = .value values m.state := by
  obtain ⟨ev, hev, rfl⟩ := h
  -- nothing else that an expression starts is the making of a call
  have hall := Logged.compositional_all fun t => ∀ found values, t ≠ .invoke engine found values
  have hnone : ∀ {α : Type} {p : Logged α} {st : State}, p.All (fun t => ∀ found values, t ≠ .invoke engine found values) →
      ev ∉ p.log st := fun h hev => h _ ev hev found values hm
  obtain ⟨command, st₁, hcommand, hev⟩ := Logged.mem_log_keep hev
  obtain ⟨hread, rfl⟩ := ask_eq_value.1 hcommand
  obtain ⟨s, st₁, hstore, hev⟩ := Logged.mem_log_keep hev
  cases hstore
  obtain ⟨_, st₀, htrace, hev⟩ := Logged.mem_log_keep hev
  have hst₀ : st₀.store = st.store := by
    rw [trace_eq_value] at htrace
    cases htrace
    exact st.store_traced _
  cases command with
  | call target args =>
    rcases Logged.mem_log_bind hev with hev | ⟨found', st₂, hfound, hev⟩
    · exact absurd hev (hnone (hall.callee (by simp) (by simp) v target))
    rcases Logged.mem_log_bind hev with hev | ⟨values', st₃, hvalues, hev⟩
    · exact absurd hev (hnone (hall.givenArguments (by simp) args))
    obtain ⟨s, st₄, hstore, hev⟩ := Logged.mem_log_keep hev
    cases hstore
    rw [Logged.run_callee] at hfound
    rw [Logged.run_givenArguments] at hvalues
    split at hev
    · cases List.mem_singleton.1 hev
      cases hm
      exact ⟨target, args, st₀, st₂, hread, hst₀, hfound, hvalues⟩
    · cases hev
  | get target => exact absurd hev (hnone (hall.get (by simp) (by simp) v target))
  | lambda params body => cases hev
  | set receiver w =>
    refine absurd hev (hnone ?_)
    exact hall.bind (hall.source (by simp) w) fun w => Logged.all_keep fun path => Logged.all_start (by simp)
  | value payload =>
    obtain ⟨s, st₁, -, hev⟩ := Logged.mem_log_keep hev
    cases hev

end Sites

namespace Task

variable {s : Store} {t : Task} {engine : Ref} {f args receiver name : Value} {found : Callee} {values : List Value}

/-- A call is that of a call expression, or of the method of an evaluator. -/
theorem Begets.of_call (h : t.Begets s (call engine f args receiver name)) :
    (∃ engine' found values, t = invoke engine' found values) ∨
      ∃ g args' this self m, t = apply g args' this ∧ s.cell? g = some (.method self m) ∧ s.engine? self ≠ none := by
  cases t with
  | invoke engine' found values => exact .inl ⟨engine', found, values, rfl⟩
  | script => obtain ⟨_, _, _, -, heq⟩ := h; cases heq
  | expression =>
    rcases h with ⟨_, _, heq⟩ | ⟨_, _, heq⟩ | ⟨_, _, _, heq⟩ | ⟨_, _, heq⟩ <;> cases heq
  | call => obtain ⟨_, _, _, heq⟩ := h; cases heq
  | apply g args' this =>
    rcases h with hhost | ⟨_, _, _, _, _, -, -, heq⟩ | ⟨self, m, _, hcell, hself, -⟩
    · rcases hhost with ⟨_, _, heq⟩ | ⟨_, _, heq⟩ | ⟨_, _, _, heq⟩ <;> cases heq
    · cases heq
    · exact .inr ⟨g, args', this, self, m, rfl, hcell, by simp [hself]⟩
  | read | write => cases h

theorem Begets.of_invoke (h : t.Begets s (invoke engine found values)) : ∃ v ctx, t = expression engine v ctx := by
  cases t with
  | invoke => obtain ⟨_, _, _, _, _, -, heq⟩ := h; cases heq
  | script => obtain ⟨_, _, _, -, heq⟩ := h; cases heq
  | expression engine v ctx =>
    rcases h with ⟨_, _, heq⟩ | ⟨_, _, heq⟩ | ⟨_, _, _, heq⟩ | ⟨_, _, heq⟩ <;> cases heq
    exact ⟨v, ctx, rfl⟩
  | call => obtain ⟨_, _, _, heq⟩ := h; cases heq
  | apply =>
    rcases h with ⟨⟨_, _, heq⟩ | ⟨_, _, heq⟩ | ⟨_, _, _, heq⟩⟩ | ⟨_, _, _, _, _, -, -, heq⟩ |
      ⟨_, _, _, -, -, ⟨_, _, heq⟩ | ⟨_, _, _, _, heq⟩⟩ <;> cases heq
  | read | write => cases h

end Task

namespace Moment

variable {m m' : Moment} {engine list : Ref}

theorem Avoids.spares (h : m.Avoids engine) : m.Spares engine := fun u hu hcontainer => absurd hcontainer (h u hu)

/-- The functions that a run applies are those of an evaluator, and none is a method of an evaluator. -/
def AppliesOwn (engine : Ref) (m : Moment) : Prop :=
  ∀ f args this, m.task = .apply f args this →
    (∀ parts attrs, m.state.store.cell? f = some (.closure parts attrs) → parts.engine = .ref engine) ∧
    ∀ self m', m.state.store.cell? f = some (.method self m') → m.state.store.engine? self = none

/-- A run on an evaluator that nothing stands in for, with functions of that evaluator, is on it wherever it comes to. -/
theorem engine_of_reaches (hown : ∀ m', m.Reaches m' → m'.AppliesOwn engine)
    (hselves : ∀ m', m.Reaches m' → m'.state.store.RunsItself engine ∧ m'.state.store.CallsItself engine)
    (hm : ∀ e ∈ m.task.engine?, e = engine) (h : m.Reaches m') : ∀ e ∈ m'.task.engine?, e = engine := by
  induction h with
  | refl => exact hm
  | @tail m₁ m₂ hreach hstarts ih =>
    have hbegets := hstarts.begets
    have hown₁ := hown m₁ hreach
    obtain ⟨hruns, hcalls⟩ := hselves m₁ hreach
    obtain ⟨fuel, task, st⟩ := m₁
    cases task with
    | script r =>
      obtain rfl : r = engine := ih r rfl
      obtain ⟨_, _, _, hsame, heq⟩ := hbegets
      rw [heq, hsame hruns]
      exact ih
    | expression =>
      rcases hbegets with ⟨_, _, heq⟩ | ⟨_, _, heq⟩ | ⟨_, _, _, heq⟩ | ⟨_, _, heq⟩ <;> rw [heq]
      · exact ih
      · rintro e ⟨⟩
      · rintro e ⟨⟩
      · exact ih
    | invoke r =>
      obtain rfl : r = engine := ih r rfl
      obtain ⟨_, _, _, _, _, hsame, heq⟩ := hbegets
      rw [heq, hsame hcalls]
      exact ih
    | call =>
      obtain ⟨_, _, _, heq⟩ := hbegets
      rw [heq]
      rintro e ⟨⟩
    | apply f args this =>
      obtain ⟨hclosure, hmethod⟩ := hown₁ f args this rfl
      rcases hbegets with hhost | ⟨parts, attrs, engine', _, _, hcell, hengine, heq⟩ | ⟨self, _, _, hcell, hself, -⟩
      · rcases hhost with ⟨_, _, heq⟩ | ⟨_, _, heq⟩ | ⟨_, _, _, heq⟩ <;> rw [heq] <;> rintro e ⟨⟩
      · rw [heq]
        rintro e ⟨⟩
        exact Value.ref.inj (hengine.symm.trans (hclosure parts attrs hcell))
      · exact absurd hself (by simp [hmethod self _ hcell])
    | read | write => cases hbegets

/-- A call on the way of a run that starts with a script has been found by a call expression. -/
theorem makes_of_reaches {script : Value} {ctx : Context} (hm : m.task = .script engine script ctx)
    (hown : ∀ m', m.Reaches m' → m'.AppliesOwn engine) {fuel : Nat} {engine' : Ref} {f args receiver name : Value} {st : State}
    (h : m.Reaches ⟨fuel, .call engine' f args receiver name, st⟩) :
    ∃ values, st.store.sizedElements args = .ok values ∧ m.Makes name values ∧ ∀ s : Store, s.isTrue name = true := by
  rcases Relation.ReflTransGen.cases_tail h with rfl | ⟨⟨fuel₁, task₁, st₁⟩, hreach₁, hstarts₁⟩
  · cases hm
  obtain ⟨engine₁, found, values, rfl⟩ | ⟨g, args', this, self, m', rfl, hcell, hself⟩ := hstarts₁.begets.of_call
  case inr => exact absurd ((hown _ hreach₁ g args' this rfl).2 self m' hcell) hself
  obtain ⟨caller, -, heq⟩ := of_starts_invoke hstarts₁
  cases heq
  rcases Relation.ReflTransGen.cases_tail hreach₁ with rfl | ⟨⟨fuel₂, task₂, st₂⟩, hreach₂, hstarts₂⟩
  · cases hm
  obtain ⟨v, ctx', rfl⟩ := hstarts₂.begets.of_invoke
  obtain ⟨target, args, st₀, st₃, hcommand, hst₀, hcallee, hargs⟩ := of_starts_expression hstarts₂ rfl
  obtain ⟨resolved, st₄, htarget, hnames, -⟩ := of_evalCallee hcallee
  refine ⟨values, ?_, ?_, isTrue_name_of_evalCallee hcallee⟩
  · simp only [State.withArguments, Store.sizedElements, Store.elements?, Store.next, Store.get?, Store.alloc, Store.size,
      Array.getElem?_push_size]
  · exact ⟨_, _, _, _, _, _, _, _, _, _, _, _, _, hreach₂, hcommand, hst₀, htarget, hnames, hcallee, hargs⟩

end Moment

/-! ## The way of an error -/

/-- An error leaves a task, on a way that passes some calls. It arises in the task itself if the tasks that this starts
do not hand it on; a call hands on what the function it applies ends in. -/
inductive Moment.Escapes : Moment → Raised → List ActiveCall → Prop
  | here {m : Moment} {e : Raised} {st : State} (hout : m.outcome = .raised e st)
      (hself : ∀ ev ∈ m.events, ev.caught = false → ev.moment.outcome.error? = none)
      (hcall : ∀ engine f args receiver name, m.task = .call engine f args receiver name → m.events = []) : Escapes m e []
  | passed {m : Moment} {e : Raised} {calls : List ActiveCall} {ev : Event} (hev : ev ∈ m.events) (hcaught : ev.caught = false)
      (h : Escapes ev.moment e calls) : Escapes m e calls
  | called {fuel : Nat} {engine : Ref} {f args receiver name : Value} {st st₁ : State} {p : List Value × Option Value}
      {e : Raised} {calls : List ActiveCall} (hopen : openCall engine f args receiver name st = .value p st₁)
      (h : Escapes ⟨fuel, .apply f p.1 p.2, st₁⟩ e calls) :
      Escapes ⟨fuel, .call engine f args receiver name, st⟩ e (⟨name, args, p.1⟩ :: calls)

/-- The error with a record of some calls, if it takes one. -/
def Raised.filed (e : Raised) (calls : List ActiveCall) : Raised :=
  if e.awaitsStack then { e with stack := some (calls.map ActiveCall.frame) } else e

/-- The elements of a list of active calls are the frames of some calls. -/
def Store.Lists (fixed : List (Ref × Cell)) : List Value → List ActiveCall → Prop :=
  List.Forall₂ fun v c => ∃ k, v = .ref k ∧ (k, frameCell c.name c.args) ∈ fixed

section Records

variable {s s' : Store} {engine list : Ref} {items : List Value} {fixed fixed' : List (Ref × Cell)} {good : Ref → Prop}
  {calls : List ActiveCall} {e : Raised}

theorem Store.Lists.mono (h : Store.Lists fixed items calls) (hfixed : ∀ k ∈ fixed, k ∈ fixed') :
    Store.Lists fixed' items calls :=
  h.imp fun _ _ ⟨k, hk, hmem⟩ => ⟨k, hk, hfixed _ hmem⟩

/-- The stack of an evaluator under guard is recorded as the calls that it lists. -/
theorem Store.Guards.frames_eq (h : s.Guards engine list items fixed good) (hlists : Lists fixed items calls) :
    s.frames engine = .ok (calls.map ActiveCall.frame) := by
  unfold frames
  rw [h.elements_stackOf]
  change items.mapM s.frameOf = _
  have hcells := h.fixed_eq
  clear h
  induction hlists with
  | nil => rfl
  | cons hv _ ih =>
    obtain ⟨k, rfl, hk⟩ := hv
    rw [List.mapM_cons, frameOf (hcells _ hk).2.2, ih]
    rfl

theorem Store.Guards.recorded_eq (h : s.Guards engine list items fixed good) (hlists : Lists fixed items calls) :
    s.recorded engine e = e.filed calls := by
  unfold recorded Raised.filed
  rw [h.frames_eq hlists]

/-- An error that has its record keeps it. -/
theorem Store.recorded_filed : s.recorded engine (e.filed calls) = e.filed calls := by
  unfold recorded Raised.filed
  by_cases hawaits : e.awaitsStack = true
  · rw [if_pos hawaits, if_neg (by simp [Raised.awaitsStack])]
  · rw [if_neg hawaits, if_neg hawaits]

/-- Removing the innermost call changes no object but the list of active calls. -/
theorem Store.Guards.get?_popFrame (h : s.Guards engine list items fixed good) (hpop : s.popFrame engine = .ok s')
    {r : Ref} (hr : r ≠ list) : s'.get? r = s.get? r := by
  obtain ⟨flavor, hupdate⟩ := h.updateStack "pop" fun items =>
    if items.isEmpty then .error (.of .popFromEmpty) else .ok items.dropLast
  unfold Store.popFrame at hpop
  split at hpop
  · cases hpop
  · rw [hupdate] at hpop
    split at hpop
    · cases hpop
    · cases hpop
      exact get?_set_ne _ hr

end Records

namespace Moment

variable {m m' : Moment} {engine list : Ref} {items : List Value} {fixed : List (Ref × Cell)} {good : Ref → Prop} {e : Raised}
  {calls : List ActiveCall}

/-- What is asked of a run on an evaluator: that it is on no other one, with nothing in its place, makes calls under
names that are not empty, and follows no path to the list of active calls. -/
structure Regular (engine : Ref) (m : Moment) : Prop where
  spares : ∀ m', m.Reaches m' → m'.Spares engine
  engines : ∀ m', m.Reaches m' → ∀ e ∈ m'.task.engine?, e = engine
  own : ∀ m', m.Reaches m' → m'.AppliesOwn engine
  calls : ∀ m', m.Reaches m' → m'.state.store.CallsItself engine
  names : ∀ fuel engine' f args receiver name st, m.Reaches ⟨fuel, .call engine' f args receiver name, st⟩ →
    ∀ s : Store, s.isTrue name = true

theorem Regular.of_starts (h : m.Regular engine) (hm : m.Starts m') : m'.Regular engine :=
  ⟨fun m'' hm'' => h.spares m'' (.head hm hm''), fun m'' hm'' => h.engines m'' (.head hm hm''),
    fun m'' hm'' => h.own m'' (.head hm hm''), fun m'' hm'' => h.calls m'' (.head hm hm''),
    fun fuel engine' f args receiver name st hm'' => h.names fuel engine' f args receiver name st (.head hm hm'')⟩

/-- The state of a run in which the calls active are those of a list. -/
structure Under (engine list : Ref) (items : List Value) (fixed : List (Ref × Cell)) (good : Ref → Prop) (m : Moment) :
    Prop where
  regular : m.Regular engine
  guards : m.state.store.Guards engine list items fixed good
  fits : m.task.Fits engine fixed good
  lends : ∀ f args receiver name, m.task = .call engine f args receiver name → m.task.Lends engine fixed good

/-- The calls that are active stay the same from a task to those it starts, unless it is a call. -/
theorem Under.of_starts (h : m.Under engine list items fixed good) (hm : m.Starts m')
    (hcall : ∀ f args receiver name, m.task ≠ .call engine f args receiver name) :
    ∃ fixed' good', m'.Under engine list items fixed' good' ∧ ∀ k ∈ fixed, k ∈ fixed' := by
  by_cases hinvoke : ∃ found values, m.task = .invoke engine found values
  · obtain ⟨fuel, task, st⟩ := m
    obtain ⟨found, values, rfl⟩ := hinvoke
    have hregular := h.regular.of_starts hm
    obtain ⟨caller, hcaller, rfl⟩ := of_starts_invoke hm
    have hself : (st.withArguments values).store.CallsItself engine :=
      Store.hiddenAttribute?_allocList (h.regular.calls _ .refl)
    cases (callerOf_self hself).symm.trans hcaller
    have hvalues : ∀ v ∈ .ref engine :: found.function :: found.receiver :: found.name :: values, v.Within good := by
      rcases h.fits with h | ⟨_, _, _, _, _, heq, -⟩
      · exact h
      · cases heq
    have hlends : (Task.call engine found.function (.ref st.store.next) found.receiver found.name).Lends engine
        ((st.store.next, .list values .plain) :: fixed) good := ⟨_, _, values, _, _, rfl, List.mem_cons_self, hvalues⟩
    exact ⟨_, good, ⟨hregular, h.guards.alloc_out (.list values .plain), .inr hlends, fun _ _ _ _ _ => hlends⟩,
      fun _ => List.mem_cons_of_mem _⟩
  · obtain ⟨items', fixed', good', hguards, hfits, hfixed, hitems⟩ :=
      guards_of_starts h.regular.spares hm h.guards h.fits
    cases hitems hcall
    refine ⟨fixed', good', ⟨h.regular.of_starts hm, hguards, hfits, fun f args receiver name htask => ?_⟩, hfixed⟩
    obtain ⟨engine₀, found, values, hm₀⟩ | ⟨g, args', this, self, _, hm₀, hcell, hself⟩ := (htask ▸ hm.begets).of_call
    · obtain rfl := h.regular.engines m .refl engine₀ (by rw [hm₀]; rfl)
      exact absurd ⟨found, values, hm₀⟩ hinvoke
    · exact absurd ((h.regular.own m .refl g args' this hm₀).2 self _ hcell) hself

/-- What a call applies is under guard with the call as the innermost one. -/
theorem Under.of_openCall {fuel : Nat} {f args receiver name : Value} {st st₁ : State} {p : List Value × Option Value}
    (h : Under engine list items fixed good ⟨fuel, .call engine f args receiver name, st⟩)
    (hopen : openCall engine f args receiver name st = .value p st₁) :
    Under engine list (items ++ [.ref st.store.next]) ((st.store.next, Store.frameCell name args) :: fixed) good
        ⟨fuel, .apply f p.1 p.2, st₁⟩ ∧
      ∃ a, args = .ref a ∧ (a, .list p.1 .plain) ∈ fixed := by
  obtain ⟨label, hlabel, hsized, hguards, hwithin⟩ := opened_call h.guards h.fits hopen
  obtain ⟨f', a, values, receiver', name', heq, hfixed, -⟩ := h.lends f args receiver name rfl
  cases heq
  have hname : label = name := by
    have htrue := h.regular.names _ _ _ _ _ _ _ .refl st.store
    unfold callLabel at hlabel
    rw [store_bind, if_pos htrue] at hlabel
    exact (pure_eq_value.1 hlabel).1.symm
  have hvalues : p.1 = values := by
    simp only [Store.sizedElements, Store.elements?, (h.guards.fixed_eq _ hfixed).2.2] at hsized
    exact (Except.ok.inj hsized).symm
  subst hname hvalues
  exact ⟨⟨h.regular.of_starts (starts_apply hopen), hguards, .inl hwithin, fun _ _ _ _ htask => by cases htask⟩,
    a, rfl, hfixed⟩

/-- A run under guard that ends in an error has the same calls active then. -/
theorem Under.guards_of_raised (h : m.Under engine list items fixed good) {st : State} (hout : m.outcome = .raised e st) :
    ∃ good', st.store.Guards engine list items fixed good' := by
  have hallows := restores_of_spares h.regular.spares items fixed good h.guards h.fits
  rw [hout] at hallows
  obtain ⟨good', -, hs, -⟩ := hallows
  exact ⟨good', hs⟩

/-- A call hands on the error of what it applies, with a record. -/
theorem outcome_call {fuel : Nat} {f args receiver name : Value} {st st₁ st₂ : State} {p : List Value × Option Value} {s : Store}
    (hopen : openCall engine f args receiver name st = .value p st₁)
    (hout : ListScript.apply fuel f p.1 p.2 st₁ = .raised e st₂) (hpop : st₂.store.popFrame engine = .ok s) :
    Moment.outcome ⟨fuel, .call engine f args receiver name, st⟩ =
      .raised (st₂.store.recorded engine e) { st₂ with store := s } := by
  have hattempt : attempt (ListScript.apply fuel f p.1 p.2) st₁ = .value (.error e) st₂ := by
    unfold attempt
    rw [hout]
  change call (ListScript.apply fuel) engine f args receiver name st = _
  rw [call_eq, bind_of_value hopen, bind_of_value hattempt, closeCall_eq hpop]

/-- A call that became active ends in an error only if what it applies does. -/
theorem Under.raised_of_call {fuel : Nat} {f args receiver name v : Value} {st st₁ st' : State} {p : List Value × Option Value}
    (h : Under engine list (items ++ [v]) fixed good ⟨fuel, .apply f p.1 p.2, st₁⟩)
    (hopen : openCall engine f args receiver name st = .value p st₁)
    (hout : Moment.outcome ⟨fuel, .call engine f args receiver name, st⟩ = .raised e st') :
    ∃ e₁ st₂, ListScript.apply fuel f p.1 p.2 st₁ = .raised e₁ st₂ := by
  have hallows := restores_of_spares h.regular.spares _ fixed good h.guards h.fits
  change call (ListScript.apply fuel) engine f args receiver name st = _ at hout
  rw [call_eq, bind_of_value hopen] at hout
  change (Discipline.guarded engine list _ fixed).Allows good _ (ListScript.apply fuel f p.1 p.2 st₁) at hallows
  have hclose : ∀ (outcome : Except Raised Value) (st₂ : State),
      attempt (ListScript.apply fuel f p.1 p.2) st₁ = .value outcome st₂ →
      (attempt (ListScript.apply fuel f p.1 p.2) >>= closeCall engine) st₁ = closeCall engine outcome st₂ :=
    fun _ _ h => bind_of_value h
  cases happly : ListScript.apply fuel f p.1 p.2 st₁ with
  | raised e₁ st₂ => exact ⟨e₁, st₂, rfl⟩
  | value w st₂ =>
    rw [happly] at hallows
    obtain ⟨good', -, hguards, -⟩ := hallows
    obtain ⟨s, hpop, -⟩ := Store.Guards.popFrame hguards
    rw [hclose (.ok w) st₂ (by unfold attempt; rw [happly]), closeCall_eq hpop] at hout
    cases hout
  | exhausted =>
    change Effect.bind (attempt (ListScript.apply fuel f p.1 p.2)) (closeCall engine) st₁ = _ at hout
    unfold Effect.bind attempt at hout
    rw [happly] at hout
    cases hout

/-- An error that leaves a task has recorded the calls that were active before and those that it has passed, unless it
has passed none. The lists of arguments of the calls passed are as they were. -/
theorem Escapes.outcome_eq (h : m.Escapes e calls) {before : List ActiveCall} (hm : m.Under engine list items fixed good)
    (hlists : Store.Lists fixed items before) :
    ∃ st, m.outcome = .raised (if calls = [] then e else e.filed (before ++ calls)) st ∧
      ∀ c ∈ calls, ∃ a, c.args = .ref a ∧ a ≠ list ∧ st.store.get? a = some (.list c.values .plain) := by
  induction h generalizing items fixed good before with
  | @here m e st hout hself hcall => exact ⟨st, hout, by simp⟩
  | @passed m e calls ev hev hcaught h ih =>
    have hstarts : m.Starts ev.moment := ⟨ev, hev, rfl⟩
    have hcall : ∀ f args receiver name, m.task ≠ .call engine f args receiver name := by
      intro f args receiver name htask
      obtain ⟨fuel, task, st⟩ := m
      cases htask
      obtain ⟨p, st₁, -, rfl⟩ := event_of_call hev
      cases hcaught
    obtain ⟨fixed', good', hm', hfixed⟩ := hm.of_starts hstarts hcall
    obtain ⟨st, hout, hargs⟩ := ih hm' (hlists.mono hfixed)
    refine ⟨st, ?_, hargs⟩
    rw [← m.run_logged]
    exact (m.task.logged m.fuel).strict hev hcaught hout
  | @called fuel engine' f args receiver name st st₁ p e calls hopen h ih =>
    obtain rfl := hm.regular.engines _ .refl engine' rfl
    obtain ⟨hm', a, rfl, ha⟩ := hm.of_openCall hopen
    have hlists' : Store.Lists ((st.store.next, Store.frameCell name (.ref a)) :: fixed) (items ++ [.ref st.store.next])
        (before ++ [⟨name, .ref a, p.1⟩]) :=
      List.rel_append (hlists.mono fun _ => List.mem_cons_of_mem _) (.cons ⟨_, rfl, List.mem_cons_self⟩ .nil)
    obtain ⟨st₂, hout, hargs⟩ := ih hm' hlists'
    obtain ⟨good₂, hguards⟩ := hm'.guards_of_raised hout
    obtain ⟨s, hpop, -⟩ := hguards.popFrame
    refine ⟨{ st₂ with store := s }, ?_, ?_⟩
    · rw [outcome_call hopen hout hpop, if_neg (List.cons_ne_nil _ _)]
      congr 1
      by_cases hnil : calls = []
      · subst hnil
        rw [if_pos rfl, hguards.recorded_eq hlists']
      · rw [if_neg hnil, Store.recorded_filed, List.append_assoc]
        rfl
    · intro c hc
      rcases List.mem_cons.1 hc with rfl | hc
      · obtain ⟨-, hne, hget⟩ := hguards.fixed_eq _ (List.mem_cons_of_mem _ ha)
        exact ⟨a, rfl, hne, (hguards.get?_popFrame hpop hne).trans hget⟩
      · obtain ⟨b, hb, hne, hget⟩ := hargs c hc
        exact ⟨b, hb, hne, (hguards.get?_popFrame hpop hne).trans hget⟩

/-- Every error that leaves a run has arisen somewhere. -/
theorem Under.escapes (h : m.Under engine list items fixed good) {st : State} (hout : m.outcome = .raised e st) :
    ∃ e calls, m.Escapes e calls := by
  induction hw : m.weight using Nat.strongRecOn generalizing m items fixed good e st with
  | ind w ih =>
    by_cases hcall : ∃ f args receiver name, m.task = .call engine f args receiver name
    · obtain ⟨fuel, task, st₀⟩ := m
      obtain ⟨f, args, receiver, name, rfl⟩ := hcall
      by_cases hopened : ∃ p st₁, openCall engine f args receiver name st₀ = .value p st₁
      · obtain ⟨p, st₁, hopen⟩ := hopened
        obtain ⟨hm', -⟩ := h.of_openCall hopen
        obtain ⟨e', st₂, happly⟩ := hm'.raised_of_call hopen hout
        obtain ⟨e', calls, hescapes⟩ := ih _ (hw ▸ (starts_apply hopen).weight_lt) hm' happly rfl
        exact ⟨e', _, .called hopen hescapes⟩
      · have hevents : ∀ ev, ev ∉ Moment.events ⟨fuel, .call engine f args receiver name, st₀⟩ := by
          intro ev hev
          obtain ⟨p, st₁, hopen, -⟩ := event_of_call hev
          exact hopened ⟨p, st₁, hopen⟩
        exact ⟨e, [], .here hout (fun ev hev => absurd hev (hevents ev)) fun _ _ _ _ _ _ => List.eq_nil_iff_forall_not_mem.2 hevents⟩
    · have hcall' : ∀ f args receiver name, m.task ≠ .call engine f args receiver name :=
        fun f args receiver name htask => hcall ⟨f, args, receiver, name, htask⟩
      by_cases hself : ∀ ev ∈ m.events, ev.caught = false → ev.moment.outcome.error? = none
      · refine ⟨e, [], .here hout hself fun engine' f args receiver name htask => ?_⟩
        obtain rfl := h.regular.engines _ .refl engine' (by rw [htask]; rfl)
        exact absurd htask (hcall' f args receiver name)
      · push Not at hself
        obtain ⟨ev, hev, hcaught, herror⟩ := hself
        have hstarts : m.Starts ev.moment := ⟨ev, hev, rfl⟩
        obtain ⟨fixed', good', hm', -⟩ := h.of_starts hstarts hcall'
        cases hev' : ev.moment.outcome with
        | raised e₁ st₁ =>
          obtain ⟨e', calls, hescapes⟩ := ih _ (hw ▸ hstarts.weight_lt) hm' hev' rfl
          exact ⟨e', calls, .passed hev hcaught hescapes⟩
        | value | exhausted => exact absurd (by rw [hev']; rfl) herror

/-- The calls that an error passes are calls that the run comes to and that become active. -/
theorem Escapes.of_mem (h : m.Escapes e calls) {c : ActiveCall} (hc : c ∈ calls) :
    ∃ fuel engine f receiver st p st₁, m.Reaches ⟨fuel, .call engine f c.args receiver c.name, st⟩ ∧
      openCall engine f c.args receiver c.name st = .value p st₁ ∧ c.values = p.1 := by
  induction h with
  | here => cases hc
  | passed hev _ _ ih =>
    obtain ⟨fuel, engine, f, receiver, st, p, st₁, hreach, hopen⟩ := ih hc
    exact ⟨fuel, engine, f, receiver, st, p, st₁, .head ⟨_, hev, rfl⟩ hreach, hopen⟩
  | called hopen _ ih =>
    rcases List.mem_cons.1 hc with rfl | hc
    · exact ⟨_, _, _, _, _, _, _, .refl, hopen, rfl⟩
    · obtain ⟨fuel, engine, f, receiver, st, p, st₁, hreach, hopen'⟩ := ih hc
      exact ⟨fuel, engine, f, receiver, st, p, st₁, .head (starts_apply hopen) hreach, hopen'⟩

/-- The calls that an error passes are made by call expressions, under names that are not empty. -/
theorem Escapes.makes (h : m.Escapes e calls) {script : Value} {ctx : Context} (hm : m.task = .script engine script ctx)
    (hown : ∀ m', m.Reaches m' → m'.AppliesOwn engine) {c : ActiveCall} (hc : c ∈ calls) : m.Makes c.name c.values ∧ ∀ s : Store, s.isTrue c.name = true := by
  obtain ⟨fuel, engine', f, receiver, st, p, st₁, hreach, hopen, hvalues⟩ := h.of_mem hc
  obtain ⟨values, hsized, hmakes, hname⟩ := makes_of_reaches hm hown hreach
  refine ⟨?_, hname⟩
  rcases openCall_cases engine' f c.args receiver c.name st with ⟨e, st', hraised, -⟩ | ⟨_, values', _, st', hopen', -, -, hsized', -⟩
  · cases hopen.symm.trans hraised
  · cases hopen.symm.trans hopen'
    rw [hvalues]
    exact Except.ok.inj (hsized.symm.trans hsized') ▸ hmakes

/-- A run of a script on an evaluator without active calls, to which it follows no path. -/
theorem under_script {fuel : Nat} {script : Value} {ctx : Context} {st : State} (hstack : st.store.HasStack engine list [])
    (howns : st.store.OwnsStack engine list)
    (hvalues : ∀ v ∈ (Task.script engine script ctx).values, st.store.Knows v ∧ v ≠ .ref list)
    (hselves : st.store.RunsItself engine ∧ st.store.CallsItself engine)
    (havoids : ∀ m, Reaches ⟨fuel, .script engine script ctx, st⟩ m → m.Avoids engine)
    (hown : ∀ m, Reaches ⟨fuel, .script engine script ctx, st⟩ m → m.AppliesOwn engine) :
    Under engine list [] [] (fun r => r.index < st.store.size ∧ r ≠ list) ⟨fuel, .script engine script ctx, st⟩ where
  regular := by
    obtain ⟨attrs, hengine⟩ := hstack.engine_eq
    have hattrs : st.store.HasAttributes engine attrs := ⟨_, hengine⟩
    have hkept : ∀ m, Reaches ⟨fuel, .script engine script ctx, st⟩ m →
        m.state.store.RunsItself engine ∧ m.state.store.CallsItself engine :=
      fun m hm => hattrs.selves_of_reaches hselves.1 hselves.2 havoids hm
    exact {
      spares := fun m hm => (havoids m hm).spares
      engines := fun m hm => engine_of_reaches hown hkept (by rintro e ⟨⟩; rfl) hm
      own := hown
      calls := fun m hm => (hkept m hm).2
      names := fun _ _ _ _ _ _ _ hm => (makes_of_reaches rfl hown hm).choose_spec.2.2 }
  guards := howns.guards hstack
  fits := by
    left
    rintro v hv r rfl
    obtain ⟨hknows, hne⟩ := hvalues _ hv
    exact ⟨hknows r rfl, fun heq => hne (by rw [heq])⟩
  lends _ _ _ _ h := by cases h

/-- An error that leaves a run records the calls that were active where it arose. On an evaluator without active calls
that does all itself, with functions of that evaluator, no path to any part of it and no method of an evaluator applied,
an error that takes a record and brings none leaves the run with the calls that it has passed, outermost first, and
without a record if it has passed none; any other error leaves as it was. Each of these calls is that of a call
expression, under the name that its target gives and with the values of its arguments. -/
theorem escapes_recorded {fuel : Nat} {engine list : Ref} {script : Value} {ctx : Context} {st : State}
    (hstack : st.store.HasStack engine list []) (howns : st.store.OwnsStack engine list)
    (hvalues : ∀ v ∈ (Task.script engine script ctx).values, st.store.Knows v ∧ v ≠ .ref list)
    (hselves : st.store.RunsItself engine ∧ st.store.CallsItself engine)
    (havoids : ∀ m, Reaches ⟨fuel, .script engine script ctx, st⟩ m → m.Avoids engine)
    (hown : ∀ m, Reaches ⟨fuel, .script engine script ctx, st⟩ m → m.AppliesOwn engine) {e' : Raised} {st' : State}
    (hout : runScript fuel engine script ctx st = .raised e' st') :
    (∃ e calls, Escapes ⟨fuel, .script engine script ctx, st⟩ e calls) ∧
    ∀ e calls, Escapes ⟨fuel, .script engine script ctx, st⟩ e calls →
      e' = (if e.awaitsStack then { e with stack := if calls = [] then none else some (calls.map ActiveCall.frame) } else e) ∧
      ∀ c ∈ calls, st'.store.list? c.args = some c.values ∧ Makes ⟨fuel, .script engine script ctx, st⟩ c.name c.values := by
  have hunder := under_script hstack howns hvalues hselves havoids hown
  refine ⟨hunder.escapes hout, fun e calls hescapes => ?_⟩
  obtain ⟨st₁, hout₁, hargs⟩ := hescapes.outcome_eq hunder List.Forall₂.nil
  cases hout₁.symm.trans hout
  refine ⟨?_, fun c hc => ⟨?_, (hescapes.makes rfl hown hc).1⟩⟩
  · unfold Raised.filed
    by_cases hawaits : e.awaitsStack = true
    · have hnone : e.stack = none := by simpa using (Bool.and_eq_true_iff.1 hawaits).1
      by_cases hnil : calls = []
      · rw [if_pos hnil, if_pos hawaits, if_pos hnil, ← hnone]
      · rw [if_neg hnil, if_pos hawaits, if_pos hawaits, if_neg hnil]
        rfl
    · rw [if_neg hawaits, if_neg hawaits, ite_self]
  · obtain ⟨a, ha, -, hget⟩ := hargs c hc
    rw [ha]
    simp only [Store.list?, Store.cell?, hget]

/-- An evaluator; a script that makes a function and calls it; and the body of the function, which calls a function of
the host that fails. -/
def failing (args : List Value) : State where
  store := ⟨#[.list [] .plain, .engine (.ref ⟨0⟩) [], .function .fail [], .dict [(.text "fail", .ref ⟨2⟩)],
    .scope (.ref ⟨3⟩) .null, .list [.ref ⟨6⟩, .ref ⟨7⟩] .plain, .list [.text "set", .text "f", .ref ⟨8⟩] .plain,
    .list [.text "call", .text "f"] .plain, .list [.text "lambda", .ref ⟨9⟩, .ref ⟨10⟩] .plain, .list [] .plain,
    .list [.text "call", .text "fail", .ref ⟨11⟩] .plain, .list args .plain]⟩
  tracing := false
  trace := #[]

/-- The script or the body of its function, run. -/
def ofFailing (script : Nat) (args : List Value) : Moment :=
  ⟨7, .script ⟨1⟩ (.ref ⟨script⟩) ⟨.null, .ref ⟨4⟩, .null⟩, failing args⟩

/-- Whether a moment follows no path to the evaluator, and applies no functions but those of the evaluator. -/
def keepsOff (m : Moment) : Bool :=
  m.visits.all (fun u => u.container != .ref ⟨1⟩) &&
    match m.task with
    | .apply f _ _ =>
      match m.state.store.cell? f with
      | some (.closure parts _) => parts.engine == .ref ⟨1⟩
      | some (.method self _) => (m.state.store.engine? self).isNone
      | _ => true
    | _ => true

theorem avoids_of_keepsOff (h : m.keepsOff = true) : m.Avoids ⟨1⟩ ∧ m.AppliesOwn ⟨1⟩ := by
  obtain ⟨hvisits, happly⟩ := Bool.and_eq_true_iff.1 h
  refine ⟨avoids_of_all hvisits, fun f args this htask => ⟨fun parts attrs hcell => ?_, fun self m' hcell => ?_⟩⟩ <;>
    · simp only [htask, hcell] at happly
      simpa using happly

/-- The function and the function of the host that it calls are in the record. -/
theorem escapes_recorded_nested :
    ∃ e calls e' st', (ofFailing 5 []).Escapes e calls ∧ (ofFailing 5 []).outcome = .raised e' st' ∧
      e' = (if e.awaitsStack then { e with stack := if calls = [] then none else some (calls.map ActiveCall.frame) } else e) ∧
      e'.stack.map (List.map Frame.name) = some [.text "f", .text "fail"] := by
  have hcheck : always keepsOff 12 (ofFailing 5 []) = true := by decide +kernel
  have hnames : (ofFailing 5 []).outcome.error?.map (fun e => e.stack.map (List.map Frame.name)) =
      some (some [.text "f", .text "fail"]) := by
    decide +kernel
  cases hout : (ofFailing 5 []).outcome with
  | raised e' st' =>
    have hstack : (failing []).store.HasStack ⟨1⟩ ⟨0⟩ [] := ⟨⟨[], rfl⟩, ⟨.plain, rfl⟩⟩
    obtain ⟨⟨e, calls, hescapes⟩, hall⟩ := escapes_recorded hstack (by decide) (by decide) (by decide)
      (fun m hm => (avoids_of_keepsOff (of_always hcheck hm)).1)
      (fun m hm => (avoids_of_keepsOff (of_always hcheck hm)).2) hout
    rw [hout] at hnames
    exact ⟨e, calls, e', st', hescapes, rfl, (hall e calls hescapes).1, Option.some.inj hnames⟩
  | value | exhausted => rw [hout] at hnames; cases hnames

/-- An error of the host that brings a record of its own leaves with that, and not with the calls that it has passed. -/
theorem escapes_preset :
    ∃ e' st', (ofFailing 10 [.text "Preset", .text "x"]).outcome = .raised e' st' ∧
      (∃ e calls, (ofFailing 10 [.text "Preset", .text "x"]).Escapes e calls) ∧
      ∀ e calls, (ofFailing 10 [.text "Preset", .text "x"]).Escapes e calls →
        e'.stack ≠ if calls = [] then none else some (calls.map ActiveCall.frame) := by
  have hcheck : always keepsOff 9 (ofFailing 10 [.text "Preset", .text "x"]) = true := by decide +kernel
  have hnames : (ofFailing 10 [.text "Preset", .text "x"]).outcome.error?.map (fun e => e.stack.map (List.map Frame.name)) =
      some (some [.text "", .text "pre"]) := by
    decide +kernel
  cases hout : (ofFailing 10 [.text "Preset", .text "x"]).outcome with
  | raised e' st' =>
    have hunder : Under ⟨1⟩ ⟨0⟩ [] [] _ (ofFailing 10 [.text "Preset", .text "x"]) :=
      under_script ⟨⟨[], rfl⟩, ⟨.plain, rfl⟩⟩ (by decide) (by decide) (by decide)
        (fun m hm => (avoids_of_keepsOff (of_always hcheck hm)).1) fun m hm => (avoids_of_keepsOff (of_always hcheck hm)).2
    refine ⟨e', st', rfl, hunder.escapes hout, fun e calls hescapes hstack => ?_⟩
    rw [hout] at hnames
    replace hnames : e'.stack.map (List.map Frame.name) = some [.text "", .text "pre"] := Option.some.inj hnames
    rw [hstack] at hnames
    -- the calls that an error passes have names that are not empty
    cases calls with
    | nil => cases hnames
    | cons c rest =>
      have htrue := (hescapes.makes rfl (fun m hm => (avoids_of_keepsOff (of_always hcheck hm)).2) List.mem_cons_self).2 .empty
      have hname : c.name = .text "" := (List.cons.inj (Option.some.inj hnames)).1
      rw [hname] at htrue
      cases htrue
  | value | exhausted => rw [hout] at hnames; cases hnames

/-- An evaluator; a script that calls the evaluator's own method, which a variable holds, to call a function of the host
that fails. -/
def lending : State where
  store := ⟨#[.list [] .plain, .engine (.ref ⟨0⟩) [], .function .fail [], .method (.ref ⟨1⟩) .invoke,
    .dict [(.text "fail", .ref ⟨2⟩), (.text "c", .ref ⟨3⟩)], .scope (.ref ⟨4⟩) .null,
    .list [.text "call", .text "c", .ref ⟨7⟩] .plain, .list [.ref ⟨8⟩, .ref ⟨9⟩] .plain,
    .list [.text "get", .text "fail"] .plain, .list [.text "value", .ref ⟨10⟩] .plain, .list [] .plain]⟩
  tracing := false
  trace := #[]

/-- The script, run. -/
def ofLending : Moment := ⟨5, .script ⟨1⟩ (.ref ⟨6⟩) ⟨.null, .ref ⟨5⟩, .null⟩, lending⟩

/-- Two exceptions have to be made. An error of the host that brings a record of its own leaves with that. And a method
of the evaluator makes calls under names that no call expression gives, though no path leads to the evaluator. -/
theorem not_escapes_recorded :
    (∃ e' st', (ofFailing 10 [.text "Preset", .text "x"]).outcome = .raised e' st' ∧
      (∃ e calls, (ofFailing 10 [.text "Preset", .text "x"]).Escapes e calls) ∧
      ∀ e calls, (ofFailing 10 [.text "Preset", .text "x"]).Escapes e calls →
        e'.stack ≠ if calls = [] then none else some (calls.map ActiveCall.frame)) ∧
    lending.store.HasStack ⟨1⟩ ⟨0⟩ [] ∧ lending.store.OwnsStack ⟨1⟩ ⟨0⟩ ∧
    always (fun m => m.visits.all fun u => u.container != .ref ⟨1⟩) 9 ofLending = true ∧
    always (fun m => match m.task with | .invoke _ found _ => found.name == .text "c" | _ => true) 9 ofLending = true ∧
    ofLending.outcome.error?.map (fun e => e.stack.map (List.map Frame.name)) =
      some (some [.text "c", .text "<function fail>"]) :=
  ⟨escapes_preset, ⟨⟨[], rfl⟩, ⟨.plain, rfl⟩⟩, by decide, by decide +kernel, by decide +kernel, by decide +kernel⟩

end Moment

end ListScript
