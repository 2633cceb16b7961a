import ListScript.Proofs.Balance
import ListScript.Proofs.Seclusion

/-!
# Runs during runs

A runner has one evaluator, and with it one list of active calls, for all its runs. A run clears the list when it starts,
so it leaves an empty list, whatever calls were active when it started (`Runner.run_clears_calls`). If the run was started
from within a call, by a function of the host, the frame of that call is gone when the function returns: the call ends with
the error of taking an element from an empty list, also when the function has given a value.
-/

namespace ListScript

open Effect

namespace Store

variable {s : Store} {engine list : Ref} {items : List Value} {fixed : List (Ref × Cell)} {good : Ref → Prop}
  {this vars parent : Value}

/-- A new context for a run keeps the evaluator under guard. -/
theorem Guards.contextFor (h : s.Guards engine list items fixed good) (hthis : this.Within good) (hvars : vars.Within good)
    (hparent : parent.Within good) :
    ∃ good', (∀ r, good r → good' r) ∧ (s.contextFor this vars parent).2.Guards engine list items fixed good' ∧
      ∀ v ∈ [(s.contextFor this vars parent).1.this, (s.contextFor this vars parent).1.scope,
        (s.contextFor this vars parent).1.last], v.Within good' := by
  have hdict : ∀ {t : Store} {good : Ref → Prop} {v : Value}, t.Guards engine list items fixed good → v.Within good →
      ∃ good', (∀ r, good r → good' r) ∧
        (if v = .null then t.allocDict [] else (v, t)).2.Guards engine list items fixed good' ∧
        (if v = .null then t.allocDict [] else (v, t)).1.Within good' := by
    intro t good v ht hv
    split
    · refine ⟨_, fun _ => .inl, ht.alloc (c := .dict []) (by simp [Cell.contents, Cell.parts, Entries.parts]), ?_⟩
      exact Value.within_ref.2 (.inr rfl)
    · exact ⟨good, fun _ => id, ht, hv⟩
  obtain ⟨good₁, hle₁, h₁, hthis⟩ := hdict h hthis
  obtain ⟨good₂, hle₂, h₂, hvars⟩ := hdict h₁ (hvars.mono hle₁)
  have hscope := h₂.alloc (c := .scope _ parent) (by
    simpa [Cell.contents] using ⟨hvars, hparent.mono fun r hr => hle₂ r (hle₁ r hr)⟩)
  refine ⟨_, fun r hr => .inl (hle₂ r (hle₁ r hr)), hscope, ?_⟩
  simp only [List.forall_mem_cons, List.not_mem_nil, false_implies, implies_true, and_true]
  exact ⟨hthis.mono fun r hr => .inl (hle₂ r hr), Value.within_ref.2 (.inr rfl), fun r hr => by cases hr⟩

/-- The list of active calls, cleared. -/
theorem HasStack.clearStack (h : s.HasStack engine list items) :
    ∃ flavor, s.clearStack engine = .ok (s.set list (.list [] flavor)) := by
  obtain ⟨attrs, hengine⟩ := h.engine_eq
  obtain ⟨flavor, hlist⟩ := h.list_eq
  refine ⟨flavor, ?_⟩
  simp only [Store.clearStack, Store.updateStack, stackOf, hengine, dict?, cell?, hlist]
  rfl

theorem HasStack.popFrame_nil (h : s.HasStack engine list []) : s.popFrame engine = .error (.of .popFromEmpty) := by
  obtain ⟨attrs, hengine⟩ := h.engine_eq
  obtain ⟨flavor, hlist⟩ := h.list_eq
  simp only [Store.popFrame, Store.updateStack, stackOf, hengine, dict?, cell?, hlist]
  rfl

theorem HasStack.popFrame (h : s.HasStack engine list items) (hne : items ≠ []) : ∃ s', s.popFrame engine = .ok s' := by
  obtain ⟨attrs, hengine⟩ := h.engine_eq
  obtain ⟨flavor, hlist⟩ := h.list_eq
  refine ⟨s.set list (.list items.dropLast flavor), ?_⟩
  have hempty : items.isEmpty = false := by simpa using hne
  simp only [Store.popFrame, Store.updateStack, stackOf, hengine, dict?, cell?, hlist, hempty]
  rfl

/-- After a call has become active there is one. -/
theorem HasStack.ne_pushFrame {s' : Store} {name args : Value} (h : s'.HasStack engine list []) :
    s.pushFrame engine name args ≠ .ok s' := by
  intro hpush
  obtain ⟨attrs, hengine⟩ := h.engine_eq
  obtain ⟨flavor, hlist⟩ := h.list_eq
  unfold Store.pushFrame Store.updateStack at hpush
  dsimp only at hpush
  split at hpush
  · rename_i r items flavor' hstack hcell
    cases hpush
    have hcell : (s.allocDict [(.text "name", name), (.text "args", args)]).2.get? r = some (.list items flavor') := by
      rwa [hstack] at hcell
    have hself := get?_set_self (.list (items ++ [(s.allocDict [(.text "name", name), (.text "args", args)]).1]) flavor')
      (index_lt_of_get? hcell)
    -- the list that was changed is not the evaluator, which has the same list as before
    have hne : engine ≠ r := by
      rintro rfl
      cases hengine.symm.trans hself
    rw [get?_set_ne _ hne] at hengine
    simp only [stackOf, hengine, Value.ref.injEq] at hstack
    subst hstack
    have hitems := hlist.symm.trans hself
    simp at hitems
  · cases hpush

end Store

/-- A call that has become active is on the stack. -/
theorem ne_nil_of_openCall {engine list : Ref} {items : List Value} {f args receiver name : Value} {st st₁ : State}
    {p : List Value × Option Value} (h : openCall engine f args receiver name st = .value p st₁)
    (hstack : st₁.store.HasStack engine list items) : items ≠ [] := by
  rcases openCall_cases engine f args receiver name st with
    ⟨e, st', hraised, -⟩ | ⟨label, values, this, st', hopen, -, -, -, hpush, -⟩
  · cases h.symm.trans hraised
  cases h.symm.trans hopen
  rintro rfl
  exact hstack.ne_pushFrame hpush

/-- A call that finds no active calls when it ends fails for it, whatever its function has given. -/
theorem closeCall_of_empty {engine list : Ref} {st : State} (h : st.store.HasStack engine list [])
    (outcome : Except Raised Value) : closeCall engine outcome st = .raised (.of .popFromEmpty) st := by
  have hchange : change (·.popFrame engine) st = .raised (.of .popFromEmpty) st := by
    simp only [change, h.popFrame_nil]
  unfold closeCall
  rw [bind_of_value (recordOutcome_eq engine outcome st), bind_of_raised hchange]

namespace Runner

variable {r : Runner} {st st' : State} {list : Ref} {items : List Value} {fuel : Nat} {script this vars : Value}

/-- A run that follows no path to the list of active calls leaves it empty. -/
theorem hasStack_run (hstack : st.store.HasStack r.engine list items) (howns : st.store.OwnsStack r.engine list)
    (hvalues : ∀ v ∈ [script, this, vars, r.host, r.rootScope], st.store.Knows v ∧ v ≠ .ref list)
    (hspares : ∀ s, st.store.clearStack r.engine = .ok s →
      ∀ m, (r.moment fuel script this vars { st with store := s }).Reaches m → m.Spares r.engine)
    (hrun : (r.run fuel script this vars st).state? = some st') : st'.store.HasStack r.engine list [] := by
  obtain ⟨flavor, hclear⟩ := hstack.clearStack
  have hguards := howns.guards hstack
  have hcleared : (st.store.set list (.list [] flavor)).Guards _ _ [] _ _ := hguards.setList (by simp)
  have hwithin : ∀ v ∈ [script, this, vars, r.host, r.rootScope],
      v.Within fun k => k.index < st.store.size ∧ k ≠ list := by
    rintro v hv k rfl
    exact ⟨(hvalues _ hv).1 k rfl, fun heq => (hvalues _ hv).2 (by rw [heq])⟩
  simp only [List.forall_mem_cons, List.not_mem_nil, false_implies, implies_true, and_true] at hwithin
  obtain ⟨hscript, hthis, hvars, hhost, hroot⟩ := hwithin
  have hobject : (if this = .null then r.host else this).Within fun k => k.index < st.store.size ∧ k ≠ list := by
    split
    · exact hhost
    · exact hthis
  obtain ⟨good, hle, hmoment, hcontext⟩ := hcleared.contextFor hobject hvars hroot
  have hengine : (Value.ref r.engine).Within fun k => k.index < st.store.size ∧ k ≠ list := by
    obtain ⟨attrs, hengine⟩ := hstack.engine_eq
    exact Value.within_ref.2 ⟨Store.index_lt_of_get? hengine, hguards.ne_list⟩
  have hfits : (r.moment fuel script this vars { st with store := st.store.set list (.list [] flavor) }).task.Fits
      r.engine [] good :=
    .inl (List.forall_mem_cons.2 ⟨hengine.mono hle, List.forall_mem_cons.2 ⟨hscript.mono hle, hcontext⟩⟩)
  rw [state?_run hclear] at hrun
  obtain ⟨good', hends⟩ := (restores_of_spares (hspares _ hclear)).guards hmoment hfits hrun
  exact hends.hasStack

/-- A run leaves the list of active calls empty, whatever it was when the run started. So if a function of the host, on
being called, runs a script on the runner whose call it is, its call ends with the error of taking an element from an
empty list, whatever the function makes of the report; a function that gives a value without such a run is left with
that value. -/
theorem run_clears_calls (hstack : st.store.HasStack r.engine list items) (howns : st.store.OwnsStack r.engine list)
    (hvalues : ∀ v ∈ [script, this, vars, r.host, r.rootScope], st.store.Knows v ∧ v ≠ .ref list)
    (hspares : ∀ s, st.store.clearStack r.engine = .ok s →
      ∀ m, (r.moment fuel script this vars { st with store := s }).Reaches m → m.Spares r.engine) :
    (∀ st', (r.run fuel script this vars st).state? = some st' → st'.store.HasStack r.engine list []) ∧
    ∀ (apply : Application) f args receiver name st₀ p, openCall r.engine f args receiver name st₀ = .value p st →
      (∀ (view : Report → Value) st', (r.run fuel script this vars st).state? = some st' →
        apply f p.1 p.2 st = (r.run fuel script this vars >>= fun report => pure (view report)) st →
        call apply r.engine f args receiver name st₀ = .raised (.of .popFromEmpty) st') ∧
      (∀ v, apply f p.1 p.2 st = .value v st →
        ∃ st', call apply r.engine f args receiver name st₀ = .value v st') := by
  refine ⟨fun st' hrun => hasStack_run hstack howns hvalues hspares hrun, ?_⟩
  intro apply f args receiver name st₀ p hopen
  have hcall : call apply r.engine f args receiver name st₀ = (attempt (apply f p.1 p.2) >>= closeCall r.engine) st := by
    rw [call_eq, bind_of_value hopen]
  constructor
  · intro view st' hrun happly
    have hempty := hasStack_run hstack howns hvalues hspares hrun
    have hends : ∃ outcome, attempt (apply f p.1 p.2) st = .value outcome st' := by
      unfold attempt
      rw [happly]
      cases hout : r.run fuel script this vars st with
      | value report st₁ =>
        rw [hout] at hrun
        cases hrun
        rw [bind_of_value hout]
        exact ⟨_, rfl⟩
      | raised e st₁ =>
        rw [hout] at hrun
        cases hrun
        rw [bind_of_raised hout]
        exact ⟨_, rfl⟩
      | exhausted => rw [hout] at hrun; cases hrun
    obtain ⟨outcome, hattempt⟩ := hends
    rw [hcall, bind_of_value hattempt, closeCall_of_empty hempty]
  · intro v happly
    have hattempt : attempt (apply f p.1 p.2) st = .value (.ok v) st := by
      unfold attempt
      rw [happly]
    obtain ⟨s', hpop⟩ := hstack.popFrame (ne_nil_of_openCall hopen hstack)
    exact ⟨_, by rw [hcall, bind_of_value hattempt, closeCall_eq hpop]⟩

/-- A runner, and its state: there is a function in the root scope, a script and a list of arguments. -/
def reentered : Runner × State where
  fst := ⟨.null, ⟨1⟩, .ref ⟨4⟩, []⟩
  snd.store := ⟨#[.list [] .plain, .engine (.ref ⟨0⟩) [], .dict [(.text "f", .ref ⟨3⟩)], .function .fail [],
    .scope (.ref ⟨2⟩) .null, .list [.text "value", .int 1] .plain, .list [] .plain]⟩
  snd.tracing := false
  snd.trace := #[]

/-- The state while the function is called. -/
def interrupted : State :=
  let (frame, s) := reentered.2.store.alloc (Store.frameCell (.text "f") (.ref ⟨6⟩))
  { reentered.2 with store := s.set ⟨0⟩ (.list [.ref frame] .plain) }

/-- What the function does if it runs a script on the runner whose call it is, and gives a number. -/
def rerun : Application := fun _ _ _ => reentered.1.run 3 (.ref ⟨5⟩) .null .null >>= fun _ => pure (.int 2)

theorem run_clears_calls_interrupted :
    ∃ report st', reentered.1.run 3 (.ref ⟨5⟩) .null .null interrupted = .value report st' ∧
      st'.store.HasStack ⟨1⟩ ⟨0⟩ [] ∧
      call rerun ⟨1⟩ (.ref ⟨3⟩) (.ref ⟨6⟩) .null (.text "f") reentered.2 = .raised (.of .popFromEmpty) st' := by
  have hopen : openCall ⟨1⟩ (.ref ⟨3⟩) (.ref ⟨6⟩) .null (.text "f") reentered.2 = .value ([], none) interrupted := rfl
  have hcheck : Moment.always (fun m => m.visits.all fun u => u.container != .ref ⟨1⟩ || u.segment != .name "call_stack") 9
      (reentered.1.moment 3 (.ref ⟨5⟩) .null .null
        { interrupted with store := interrupted.store.set ⟨0⟩ (.list [] .plain) }) = true := by
    decide +kernel
  have hspares : ∀ s, interrupted.store.clearStack ⟨1⟩ = .ok s →
      ∀ m, (reentered.1.moment 3 (.ref ⟨5⟩) .null .null { interrupted with store := s }).Reaches m → m.Spares ⟨1⟩ := by
    rintro s hs m hm u hu hcontainer hsegment
    obtain rfl : interrupted.store.set ⟨0⟩ (.list [] .plain) = s := Except.ok.inj hs
    have htest := List.all_eq_true.1 (Moment.of_always hcheck hm) u hu
    simp [hcontainer, hsegment] at htest
  obtain ⟨hruns, hcalls⟩ := @run_clears_calls reentered.1 interrupted ⟨0⟩ [.ref ⟨7⟩] 3 (.ref ⟨5⟩) .null .null
    ⟨⟨[], rfl⟩, ⟨.plain, rfl⟩⟩ (by decide) (by decide) hspares
  have hvalue : (reentered.1.run 3 (.ref ⟨5⟩) .null .null interrupted).error? = none ∧
      (reentered.1.run 3 (.ref ⟨5⟩) .null .null interrupted).state?.isSome = true := by
    decide +kernel
  cases hrun : reentered.1.run 3 (.ref ⟨5⟩) .null .null interrupted with
  | value report st' =>
    have hends : (reentered.1.run 3 (.ref ⟨5⟩) .null .null interrupted).state? = some st' := by rw [hrun]; rfl
    exact ⟨report, st', rfl, hruns st' hends, (hcalls rerun _ _ _ _ _ _ hopen).1 (fun _ => .int 2) st' hends rfl⟩
  | raised e st' => rw [hrun] at hvalue; cases hvalue.1
  | exhausted => rw [hrun] at hvalue; cases hvalue.2

/-- A run that starts with an active call ends without one. -/
theorem not_run_keeps_calls :
    interrupted.store.stackDepth reentered.1.engine = 1 ∧
    (reentered.1.run 3 (.ref ⟨5⟩) .null .null interrupted).state?.map (·.store.stackDepth reentered.1.engine) = some 0 := by
  decide +kernel

end Runner

end ListScript
