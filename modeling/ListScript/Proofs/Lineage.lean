import ListScript.Proofs.Composition
import ListScript.Proofs.StandIn

/-!
# Which tasks start which

A script starts expressions, an expression starts nested scripts, reads, writes and the call it makes, and so on down to
functions, which start the functions they call back or the script they are made of. The evaluator stays the same, unless
something stands in for it. `Task.Begets` lists the pairs of tasks; `Moment.Starts.begets` says that there are no others. To start only tasks of one kind is a compositional property
(`Logged.compositional_all`), so that it is enough to look at the places where a task is started.
-/

namespace ListScript

open Effect

/-- A task that a function of the host starts: the application of a value, a read or a write. -/
def Task.IsOfHost (t : Task) : Prop :=
  (∃ g args, t = apply g args none) ∨ (∃ path ctx, t = read path ctx) ∨ ∃ path v ctx, t = write path v ctx

/-- In a store, a task may start another one. -/
def Task.Begets (s : Store) : Task → Task → Prop
  | script engine _ _, t => ∃ evaluator v ctx, (s.RunsItself engine → evaluator = engine) ∧ t = expression evaluator v ctx
  | expression engine _ _, t =>
    (∃ v ctx, t = script engine v ctx) ∨ (∃ path ctx, t = read path ctx) ∨ (∃ path v ctx, t = write path v ctx) ∨
      ∃ found values, t = invoke engine found values
  | invoke engine _ _, t =>
    ∃ caller f args receiver name, (s.CallsItself engine → caller = engine) ∧ t = call caller f args receiver name
  | call .., t => ∃ f args this, t = apply f args this
  | apply f _ _, t => t.IsOfHost ∨
      (∃ parts attrs engine v ctx, s.cell? f = some (.closure parts attrs) ∧ parts.engine = .ref engine ∧
        t = script engine v ctx) ∨
      ∃ self m engine, s.cell? f = some (.method self m) ∧ s.engine? self = some engine ∧
        ((∃ v ctx, t = expression engine v ctx) ∨ ∃ g args receiver name, t = call engine g args receiver name)
  | read .., _ | write .., _ => False

namespace Logged

variable {α β : Type} {P : Task → Prop} {act : Effect α} {p : Logged α}

/-- All tasks that an effect starts are of a kind. -/
def All (P : Task → Prop) (p : Logged α) : Prop := ∀ st, ∀ ev ∈ p.log st, P ev.moment.task

theorem all_lift : (lift act).All P := fun _ _ hev => absurd hev List.not_mem_nil

theorem all_pure {a : α} : (pure a : Logged α).All P := all_lift

theorem all_start {fuel : Nat} {t : Task} (h : P t) : (start fuel t).All P := by
  intro st ev hev
  cases List.mem_singleton.1 hev
  exact h

theorem all_watch {fuel : Nat} {t : Task} (h : P t) : (watch fuel t).All P := by
  intro st ev hev
  cases List.mem_singleton.1 hev
  exact h

/-- A task that is started by one effect after another is started by the first or, if that ends with a value, by the
second. -/
theorem mem_log_bind {f : α → Logged β} {st : State} {ev : Event} (h : ev ∈ (p >>= f).log st) :
    ev ∈ p.log st ∨ ∃ a st₁, p.run st = .value a st₁ ∧ ev ∈ (f a).log st₁ := by
  rcases List.mem_append.1 h with h | h
  · exact .inl h
  · cases hp : p.run st with
    | value a st₁ =>
      rw [hp] at h
      exact .inr ⟨a, st₁, rfl, h⟩
    | raised | exhausted => rw [hp] at h; cases h

theorem mem_log_keep {f : α → Logged β} {st : State} {ev : Event} (h : ev ∈ (lift act >>= f).log st) :
    ∃ a st₁, act st = .value a st₁ ∧ ev ∈ (f a).log st₁ :=
  (mem_log_bind h).resolve_left List.not_mem_nil

theorem All.bind {f : α → Logged β} (h : p.All P) (hf : ∀ a, (f a).All P) : (p >>= f).All P := by
  intro st ev hev
  rcases mem_log_bind hev with hev | ⟨a, st₁, -, hev⟩
  · exact h st ev hev
  · exact hf a st₁ ev hev

theorem all_keep {f : α → Logged β} (hf : ∀ a, (f a).All P) : (lift act >>= f).All P := all_lift.bind hf

/-- What a task does by itself starts nothing, so that it starts tasks of a kind if each step does. -/
theorem compositional_all (P : Task → Prop) : Compositional (fun _ _ => True) P fun _ p => p.All P where
  effects := .trivial
  lift _ := all_lift
  start _ := all_start
  watch _ := all_watch
  bind h hf := h.bind hf

end Logged

/-- The script that a function runs is run by the evaluator that the function belongs to. -/
theorem engine_of_openClosure {f : Closure} {args : List Value} {st st' : State} {p : Ref × Context}
    (h : openClosure f args st = .value p st') : f.engine = .ref p.1 := by
  obtain ⟨outer, st₁, -, h⟩ := bind_eq_value.1 h
  obtain ⟨scope, st₂, -, h⟩ := bind_eq_value.1 h
  obtain ⟨names, st₃, -, h⟩ := bind_eq_value.1 h
  obtain ⟨_, st₄, -, h⟩ := bind_eq_value.1 h
  obtain ⟨_, st₅, -, h⟩ := bind_eq_value.1 h
  obtain ⟨engine, st₆, hengine, h⟩ := bind_eq_value.1 h
  obtain ⟨ctx, st₇, -, h⟩ := bind_eq_value.1 h
  obtain ⟨rfl, -⟩ := pure_eq_value.1 h
  have hneed := ((looks_engineFor _ _).of_value hengine).2
  unfold Store.engine? at hneed
  split at hneed <;> cases hneed
  assumption

namespace Moment

variable {m m' : Moment}

/-- A task starts only such tasks as it may. -/
theorem Starts.begets (h : m.Starts m') : m.task.Begets m.state.store m'.task := by
  obtain ⟨ev, hev, rfl⟩ := h
  obtain ⟨fuel, task, st⟩ := m
  cases task with
  | script engine v ctx =>
    have hP := Logged.compositional_all (Task.Begets st.store (.script engine v ctx))
    cases fuel with
    | zero => cases hev
    | succ fuel =>
      obtain ⟨evaluator, st₁, hfound, hev⟩ := Logged.mem_log_keep hev
      refine hP.form (fun v ctx => ⟨evaluator, v, ctx, fun hself => ?_, rfl⟩) fuel ctx v st₁ ev hev
      cases (evaluatorOf_self hself).symm.trans hfound
      rfl
  | expression engine v ctx =>
    have hP := Logged.compositional_all (Task.Begets st.store (.expression engine v ctx))
    exact hP.expression (fun v ctx => .inl ⟨v, ctx, rfl⟩) (fun path ctx => .inr (.inl ⟨path, ctx, rfl⟩)) (fun _ => trivial)
      (fun path v ctx => .inr (.inr (.inl ⟨path, v, ctx, rfl⟩))) (fun found values => .inr (.inr (.inr ⟨found, values, rfl⟩)))
      v st ev hev
  | invoke engine found values =>
    obtain ⟨list, st₁, halloc, hev⟩ := Logged.mem_log_keep hev
    obtain ⟨caller, st₂, hfound, hev⟩ := Logged.mem_log_keep hev
    cases List.mem_singleton.1 hev
    obtain ⟨-, rfl⟩ := extend_eq_value.1 halloc
    refine ⟨caller, _, _, _, _, fun hself => ?_, rfl⟩
    have hself' : (st.store.allocList values).2.CallsItself engine := Store.hiddenAttribute?_allocList hself
    cases (callerOf_self hself').symm.trans hfound
    rfl
  | call engine f args receiver name =>
    have hall : (Logged.call fuel engine f args receiver name).All (Task.Begets st.store (.call engine f args receiver name)) :=
      Logged.all_keep fun p => (Logged.all_watch ⟨_, _, _, rfl⟩).bind fun _ => Logged.all_lift
    exact hall st ev hev
  | apply f args this =>
    cases fuel with
    | zero => cases hev
    | succ fuel =>
      have happly : ∀ g args', Task.Begets st.store (.apply f args this) (.apply g args' none) :=
        fun g args' => .inl (.inl ⟨g, args', rfl⟩)
      have hread : ∀ path ctx, Task.Begets st.store (.apply f args this) (.read path ctx) :=
        fun path ctx => .inl (.inr (.inl ⟨path, ctx, rfl⟩))
      have hwrite : ∀ path v ctx, Task.Begets st.store (.apply f args this) (.write path v ctx) :=
        fun path v ctx => .inl (.inr (.inr ⟨path, v, ctx, rfl⟩))
      rcases List.mem_append.1 hev with hev | hev
      · cases hev
      · change ev ∈ Logged.log (_ : Logged Value) st at hev
        dsimp only at hev
        split at hev
        · rename_i parts attrs hc
          -- no function of the host runs a script
          rcases List.mem_append.1 hev with hev | hev
          · cases hev
          · cases hopen : openClosure parts args st with
            | value p st₁ =>
              change ev ∈ Logged.logAfter _ (openClosure parts args st) at hev
              rw [hopen] at hev
              cases List.mem_singleton.1 hev
              exact .inr (.inl ⟨parts, attrs, p.1, parts.body, p.2, hc, engine_of_openClosure hopen, rfl⟩)
            | raised | exhausted =>
              change ev ∈ Logged.logAfter _ (openClosure parts args st) at hev
              rw [hopen] at hev
              cases hev
        · exact (Logged.compositional_all _).function happly hread hwrite _ args this st ev hev
        · rename_i self m hc
          split at hev
          · rename_i engine hengine
            exact (Logged.compositional_all _).onEngine
              (fun v ctx => .inr (.inr ⟨self, m, engine, hc, hengine, .inl ⟨v, ctx, rfl⟩⟩))
              (fun g args receiver name => .inr (.inr ⟨self, m, engine, hc, hengine, .inr ⟨g, args, receiver, name, rfl⟩⟩))
              m args st ev hev
          · exact (Logged.compositional_all _).method happly hread hwrite (fun _ _ => trivial) args this st ev hev
        · exact (Logged.compositional_all _).object happly hread hwrite f _ args this st ev hev
        · cases hev
  | read | write => cases hev

end Moment

end ListScript
