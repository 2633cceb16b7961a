import ListScript.Interpreter

/-!
# More fuel changes no result

A run that ends does so in the same way with any greater amount of fuel. Effects are compared by `Effect.Le`: where the
first one ends, the second ends likewise. Everything that a run is put together from respects this order, so that the
functions of the interpreter grow with their fuel (`run_le`), and how a script or an expression ends is a matter of
the context and the state alone (`Evaluates.unique`, `Computes.unique`).
-/

namespace ListScript

open Effect

namespace Effect

section Order

variable {α β : Type}

/-- Where the first effect ends, the second ends in the same way. -/
def Le (act act' : Effect α) : Prop := ∀ st, act st ≠ .exhausted → act' st = act st

theorem Le.refl (act : Effect α) : act.Le act := fun _ _ => rfl

theorem le_of_exhaust (act : Effect α) : exhaust.Le act := fun _ h => absurd rfl h

theorem Le.bind {act act' : Effect α} {f f' : α → Effect β} (h : act.Le act') (hf : ∀ a, (f a).Le (f' a)) :
    (act >>= f).Le (act' >>= f') := by
  intro st hne
  change Effect.bind act f st ≠ .exhausted at hne
  change Effect.bind act' f' st = Effect.bind act f st
  unfold Effect.bind at hne ⊢
  have hact : act st ≠ .exhausted := fun he => hne (by rw [he])
  rw [h st hact]
  cases hst : act st with
  | value a st' =>
    rw [hst] at hne
    exact hf a st' hne
  | raised e st' => rfl
  | exhausted => exact absurd hst hact

/-- What comes after an effect may depend on the fuel. -/
theorem Le.after (act : Effect α) {f f' : α → Effect β} (hf : ∀ a, (f a).Le (f' a)) : (act >>= f).Le (act >>= f') :=
  (Le.refl act).bind hf

/-- What comes before an effect may depend on the fuel. -/
theorem Le.before {act act' : Effect α} (h : act.Le act') (f : α → Effect β) : (act >>= f).Le (act' >>= f) :=
  h.bind fun a => Le.refl (f a)

theorem Le.ite {c : Prop} [Decidable c] {act act' other other' : Effect α} (h : act.Le act') (h' : other.Le other') :
    (if c then act else other).Le (if c then act' else other') := by
  split
  · exact h
  · exact h'

theorem Le.attempt {act act' : Effect α} (h : act.Le act') : (attempt act).Le (attempt act') := by
  intro st hne
  unfold Effect.attempt at hne ⊢
  have hact : act st ≠ .exhausted := fun he => hne (by rw [he])
  rw [h st hact]

end Order

end Effect

/-! ## The host -/

namespace Host

section Loops

variable {call call' : Callback}

theorem mapFrom_le (h : ∀ g args, (call g args).Le (call' g args)) (f list : Value) :
    ∀ {m n : Nat}, m ≤ n → ∀ (i : Nat) (done : List Value),
      (mapFrom call f list m i done).Le (mapFrom call' f list n i done) := by
  intro m
  induction m with
  | zero => intro n _ i done; exact le_of_exhaust _
  | succ m ih =>
    intro n hmn i done
    obtain ⟨n, rfl⟩ : ∃ k, n = k + 1 := ⟨n - 1, by omega⟩
    refine Le.after _ fun x => ?_
    cases x with
    | none => exact Le.refl _
    | some x => exact (h f [x]).bind fun y => ih (by omega) (i + 1) (y :: done)

theorem foldFrom_le (h : ∀ g args, (call g args).Le (call' g args)) (f list : Value) :
    ∀ {m n : Nat}, m ≤ n → ∀ (i : Nat) (acc : Value),
      (foldFrom call f list m i acc).Le (foldFrom call' f list n i acc) := by
  intro m
  induction m with
  | zero => intro n _ i acc; exact le_of_exhaust _
  | succ m ih =>
    intro n hmn i acc
    obtain ⟨n, rfl⟩ : ∃ k, n = k + 1 := ⟨n - 1, by omega⟩
    refine Le.after _ fun x => ?_
    cases x with
    | none => exact Le.refl _
    | some x => exact (h f [acc, x]).bind fun y => ih (by omega) (i + 1) y

theorem timesFrom_le (h : ∀ g args, (call g args).Le (call' g args)) (f : Value) :
    ∀ (n : Nat) (i : Int) (done : List Value), (timesFrom call f n i done).Le (timesFrom call' f n i done) := by
  intro n
  induction n with
  | zero => intro i done; exact Le.refl _
  | succ n ih =>
    intro i done
    exact (h f [.int i]).bind fun y => ih (i + 1) (y :: done)

theorem notifyAll_le (h : ∀ g args, (call g args).Le (call' g args)) (self : Value) (waiting : List Value) :
    (notifyAll call self waiting).Le (notifyAll call' self waiting) := by
  induction waiting with
  | nil => exact Le.refl _
  | cons f rest ih => exact (h f [self]).bind fun _ => ih

theorem callChecked_le (h : ∀ g args, (call g args).Le (call' g args)) (name : String) (f : Value) (args : List Value) :
    (callChecked call name f args).Le (callChecked call' name f args) :=
  Le.after _ fun _ => h f args

theorem tried_le {α : Type} {act act' : Effect α} (caught : Bool) (h : act.Le act') :
    (tried caught act).Le (tried caught act') :=
  Le.ite h.attempt (h.before _)

theorem Act.perform_le (h : ∀ g args, (call g args).Le (call' g args)) (got : List Value) (a : Act Code) :
    (a.perform call got).Le (a.perform call' got) := by
  cases a with
  | call f args => exact (h _ _).before _
  | _ => exact Le.refl _

theorem Code.playFrom_le (h : ∀ g args, (call g args).Le (call' g args)) (code : Code) :
    ∀ {m n : Nat}, m ≤ n → ∀ mem : Memory, (code.playFrom call m mem).Le (code.playFrom call' n mem) := by
  intro m
  induction m with
  | zero => intro n _ mem; exact le_of_exhaust _
  | succ m ih =>
    intro n hmn mem
    obtain ⟨n, rfl⟩ : ∃ k, n = k + 1 := ⟨n - 1, by omega⟩
    unfold Code.playFrom
    split
    · exact Le.refl _
    · exact Le.refl _
    · exact Le.refl _
    · refine (tried_le _ (Act.perform_le h _ _)).bind fun outcome => ?_
      cases outcome with
      | ok values => exact Le.after _ fun mem => ih (by omega) mem
      | error e => exact ih (by omega) _

theorem Code.play_le (h : ∀ g args, (call g args).Le (call' g args)) {m n : Nat} (hmn : m ≤ n) (code : Code)
    (own args : List Value) (this : Option Value) : (code.play call m own args this).Le (code.play call' n own args this) :=
  Le.after _ fun mem => code.playFrom_le h hmn mem

/-- A function of the host calls back as it is told, and repeats that as often as its fuel allows. -/
theorem Function.perform_le (h : ∀ g args, (call g args).Le (call' g args)) {m n : Nat} (hmn : m ≤ n) (f : Function)
    (args : List Value) (this : Option Value) : (f.perform call m args this).Le (f.perform call' n args this) := by
  cases f with
  | choose => exact Le.after _ fun s => Le.ite (h _ _) (Le.refl _)
  | apply => exact callChecked_le h _ _ _
  | mapList =>
    refine Le.after _ fun _ => Le.after _ fun _ => ?_
    exact (mapFrom_le h _ _ hmn 0 []).before _
  | fold =>
    refine Le.after _ fun _ => Le.after _ fun _ => ?_
    exact foldFrom_le h _ _ hmn 0 _
  | times =>
    refine Le.after _ fun k => Le.after _ fun _ => ?_
    exact (timesFrom_le h _ _ 0 []).before _
  | guarded | wrap => exact (callChecked_le h _ _ _).attempt.before _
  | other code => exact code.play_le h hmn [] args this
  | _ => exact Le.refl _

theorem performOnFuture_le (h : ∀ g args, (call g args).Le (call' g args)) (self : Value) (m : Method)
    (args : List Value) : (performOnFuture call self m args).Le (performOnFuture call' self m args) := by
  refine Le.after _ fun state => ?_
  obtain ⟨result, waiting⟩ := state
  cases m with
  | addDoneCallback =>
    cases result with
    | none => exact Le.refl _
    | some v => exact (h _ _).before _
  | setResult =>
    cases result with
    | none => exact Le.after _ fun _ => (notifyAll_le h self waiting).before _
    | some v => exact Le.refl _
  | _ => cases result <;> exact Le.refl _

theorem Method.perform_le (h : ∀ g args, (call g args).Le (call' g args)) {k n : Nat} (hkn : k ≤ n) (self : Value)
    (m : Method) (args : List Value) (this : Option Value) :
    (m.perform call k self args this).Le (m.perform call' n self args this) := by
  refine Le.after _ fun s => ?_
  split
  · exact Le.refl _
  · exact Le.refl _
  · exact performOnFuture_le h _ m args
  · unfold performOnObject
    split
    · exact Code.play_le h hkn _ _ args this
    · exact Le.refl _
  · exact Le.refl _

theorem Class.perform_le (h : ∀ g args, (call g args).Le (call' g args)) {m n : Nat} (hmn : m ≤ n) (self : Value)
    (cls : Class) (args : List Value) (this : Option Value) :
    (cls.perform call m self args this).Le (cls.perform call' n self args this) := by
  unfold Class.perform
  split
  case h_5 => exact Code.play_le h hmn _ _ args _
  all_goals exact Le.refl _

end Loops

end Host

/-! ## The interpreter -/

section Interpreter

variable {nested nested' : Evaluation}

theorem evalSource_le (h : ∀ script ctx, (nested script ctx).Le (nested' script ctx)) (source : Value) (ctx : Context) :
    (evalSource nested source ctx).Le (evalSource nested' source ctx) :=
  Le.after _ fun _ => Le.ite (Le.refl _) (h source ctx)

theorem evalTarget_le (h : ∀ script ctx, (nested script ctx).Le (nested' script ctx)) (target : Value) (ctx : Context) :
    (evalTarget nested target ctx).Le (evalTarget nested' target ctx) :=
  Le.ite (Le.refl _) (h target ctx)

theorem call_le {apply apply' : Application} (h : ∀ f args this, (apply f args this).Le (apply' f args this))
    (engine : Ref) (f args receiver name : Value) :
    (call apply engine f args receiver name).Le (call apply' engine f args receiver name) := by
  refine Le.after _ fun label => Le.after _ fun s => Le.after _ fun items => Le.after _ fun _ => ?_
  refine Le.after _ fun _ => Le.after _ fun s => ?_
  exact (h f items _).attempt.before _

theorem callBy_le {apply apply' : Application} (h : ∀ f args this, (apply f args this).Le (apply' f args this))
    (engine : Ref) (f args receiver name : Value) :
    (callBy apply engine f args receiver name).Le (callBy apply' engine f args receiver name) :=
  Le.after _ fun caller => call_le h caller f args receiver name

/-- An expression runs nested scripts, arguments and calls as it is told. -/
theorem evalExpression_le {arguments arguments' : Value → Context → Effect (List Value)} {apply apply' : Application}
    (hn : ∀ script ctx, (nested script ctx).Le (nested' script ctx))
    (ha : ∀ list ctx, (arguments list ctx).Le (arguments' list ctx))
    (hc : ∀ f args this, (apply f args this).Le (apply' f args this)) (engine : Ref) (expression : Value)
    (ctx : Context) :
    (evalExpression nested arguments apply engine expression ctx).Le
      (evalExpression nested' arguments' apply' engine expression ctx) := by
  refine Le.after _ fun command => Le.after _ fun s => Le.after _ fun _ => ?_
  cases command with
  | call target args =>
    refine ((evalTarget_le hn target ctx).before _).bind fun callee => ?_
    refine Le.bind ?_ fun values => Le.after _ fun s => ?_
    · cases args with
      | none => exact Le.refl _
      | some list => exact ha list ctx
    · exact Le.ite (Le.after _ fun list => callBy_le hc engine _ _ _ _) (Le.refl _)
  | get target => exact (evalTarget_le hn target ctx).before _
  | set receiver source => exact (evalSource_le hn source ctx).before _
  | lambda | value => exact Le.refl _

theorem applyClosure_le {run run' : Ref → Evaluation}
    (h : ∀ engine script ctx, (run engine script ctx).Le (run' engine script ctx))
    (f : Closure) (args : List Value) : (applyClosure run f args).Le (applyClosure run' f args) := by
  refine Le.after _ fun outer => Le.after _ fun scope => Le.after _ fun names => ?_
  refine Le.after _ fun _ => Le.after _ fun _ => ?_
  exact Le.after _ fun engine => Le.after _ fun ctx => h engine _ _

theorem runForm_le {single single' sequence sequence' : Value → Effect Value} (hs : ∀ v, (single v).Le (single' v))
    (hq : ∀ v, (sequence v).Le (sequence' v)) (script : Value) :
    (runForm single sequence script).Le (runForm single' sequence' script) := by
  refine Le.after _ fun form => ?_
  cases form with
  | single expression => exact hs expression
  | sequence list => exact hq list

theorem performOnEngine_le {call call' : Value → Value → Value → Value → Effect Value}
    (hn : ∀ script ctx, (nested script ctx).Le (nested' script ctx))
    (hc : ∀ f args receiver name, (call f args receiver name).Le (call' f args receiver name)) (m : Host.Method)
    (args : List Value) : (performOnEngine nested call m args).Le (performOnEngine nested' call' m args) := by
  unfold performOnEngine
  split
  · exact Le.after _ fun ctx => hn _ ctx
  · exact hc _ _ _ _
  · exact hc _ _ _ _
  · exact hc _ _ _ _
  · exact Le.refl _

end Interpreter

/-- The four functions of the interpreter grow with their fuel. -/
theorem run_le {m n : Nat} (hmn : m ≤ n) :
    (∀ engine script ctx, (runScript m engine script ctx).Le (runScript n engine script ctx)) ∧
    (∀ engine list i ctx last, (runFrom m engine list i ctx last).Le (runFrom n engine list i ctx last)) ∧
    (∀ engine i list ctx, (runArguments m engine i list ctx).Le (runArguments n engine i list ctx)) ∧
    (∀ f args this, (apply m f args this).Le (apply n f args this)) := by
  induction m generalizing n with
  | zero =>
    refine ⟨?_, ?_, ?_, ?_⟩ <;> intros
    · rw [runScript]; exact le_of_exhaust _
    · rw [runFrom]; exact le_of_exhaust _
    · rw [runArguments]; exact le_of_exhaust _
    · rw [apply]; exact le_of_exhaust _
  | succ m ih =>
    obtain ⟨n, rfl⟩ : ∃ k, n = k + 1 := ⟨n - 1, by omega⟩
    obtain ⟨hscript, hfrom, harguments, happly⟩ := ih (show m ≤ n by omega)
    have hform : ∀ engine script ctx,
        (runForm (evalExpression (runScript m engine) (runArguments m engine 0) (apply m) engine · ctx)
          (runFrom m engine · 0 ctx .null) script).Le
        (runForm (evalExpression (runScript n engine) (runArguments n engine 0) (apply n) engine · ctx)
          (runFrom n engine · 0 ctx .null) script) := fun engine script ctx =>
      runForm_le (fun v => evalExpression_le (hscript engine) (harguments engine 0) happly engine v ctx)
        (fun list => hfrom engine list 0 ctx .null) script
    refine ⟨?_, ?_, ?_, ?_⟩
    · intro engine script ctx
      rw [runScript, runScript]
      exact Le.after _ fun engine => hform engine script ctx
    · intro engine list i ctx last
      rw [runFrom, runFrom]
      refine Le.after _ fun found => ?_
      cases found with
      | none => exact Le.refl _
      | some expression =>
        refine (evalExpression_le (hscript engine) (harguments engine 0) happly engine expression ctx).bind fun v => ?_
        exact hfrom engine list (i + 1) _ v
    · intro engine i list ctx
      rw [runArguments, runArguments]
      refine Le.after _ fun found => ?_
      cases found with
      | none => exact Le.refl _
      | some source =>
        refine (evalSource_le (hscript engine) source ctx).bind fun v => ?_
        exact (harguments engine (i + 1) list ctx).before _
    · intro f args this
      rw [apply, apply]
      refine Le.after _ fun s => ?_
      have hcall : ∀ g args, (apply m g args none).Le (apply n g args none) := fun g args => happly g args none
      dsimp only
      split
      · exact applyClosure_le hscript _ args
      · exact Host.Function.perform_le hcall (by omega) _ args this
      · split
        · exact performOnEngine_le (hform _) (call_le happly _) _ args
        · exact Host.Method.perform_le hcall (by omega) _ _ args this
      · exact Host.Class.perform_le hcall (by omega) _ _ args this
      · exact Le.refl _

/-! ## Runs with enough fuel -/

/-- Runs one expression, with the given fuel for everything in it. -/
def runExpression (fuel : Nat) (engine : Ref) (expression : Value) (ctx : Context) : Effect Value :=
  evalExpression (runScript fuel engine) (runArguments fuel engine 0) (apply fuel) engine expression ctx

theorem runExpression_le {m n : Nat} (hmn : m ≤ n) (engine : Ref) (expression : Value) (ctx : Context) :
    (runExpression m engine expression ctx).Le (runExpression n engine expression ctx) := by
  obtain ⟨hscript, _, harguments, happly⟩ := run_le hmn
  exact evalExpression_le (hscript engine) (harguments engine 0) happly engine expression ctx

/-- How a script ends in a context, with enough fuel. -/
def Evaluates (engine : Ref) (script : Value) (ctx : Context) (st : State) (out : Outcome Value) : Prop :=
  out ≠ .exhausted ∧ ∃ fuel, runScript fuel engine script ctx st = out

/-- How one expression ends in a context, with enough fuel. -/
def Computes (engine : Ref) (expression : Value) (ctx : Context) (st : State) (out : Outcome Value) : Prop :=
  out ≠ .exhausted ∧ ∃ fuel, runExpression fuel engine expression ctx st = out

section Runs

variable {engine : Ref} {script expression : Value} {ctx : Context} {st : State} {out out' : Outcome Value}

/-- Two amounts of fuel that suffice give the same result. -/
theorem Effect.eq_of_le {α : Type} {act : Nat → Effect α} (hle : ∀ {m n}, m ≤ n → (act m).Le (act n)) {st : State}
    {m n : Nat} (hm : act m st ≠ .exhausted) (hn : act n st ≠ .exhausted) : act m st = act n st := by
  have hmax := hle (Nat.le_max_left m n) st hm
  have hmax' := hle (Nat.le_max_right m n) st hn
  rw [← hmax, ← hmax']

/-- A script ends in one way. -/
theorem Evaluates.unique (h : Evaluates engine script ctx st out) (h' : Evaluates engine script ctx st out') :
    out = out' := by
  obtain ⟨hout, m, rfl⟩ := h
  obtain ⟨hout', n, rfl⟩ := h'
  exact @Effect.eq_of_le _ (fun n => runScript n engine script ctx) (fun hmn => (run_le hmn).1 engine script ctx)
    _ _ _ hout hout'

/-- An expression ends in one way. -/
theorem Computes.unique (h : Computes engine expression ctx st out) (h' : Computes engine expression ctx st out') :
    out = out' := by
  obtain ⟨hout, m, rfl⟩ := h
  obtain ⟨hout', n, rfl⟩ := h'
  exact @Effect.eq_of_le _ (fun n => runExpression n engine expression ctx)
    (fun hmn => runExpression_le hmn engine expression ctx) _ _ _ hout hout'

end Runs

end ListScript
