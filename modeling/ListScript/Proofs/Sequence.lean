import ListScript.Proofs.Lineage
import ListScript.Proofs.Unreached

/-!
# Sequences of expressions

A script that is a list of expressions runs them one after the other, each seeing the value of the one before as the
last value. `Runs` is this reading of a script, without fuel and without the list object that the interpreter goes
through; the two agree as long as the list is not modified between the expressions (`evaluates_iff_runs`).

- `runs_append`, `evaluates_append`: running a concatenation is running its two parts in turn;
- `evaluates_singleton`: one expression runs as the list of it;
- `get?_of_apply_evaluate`: a context that a host hands to the evaluator is the same afterwards.

The second part of a concatenation, run by itself, is run by whatever the evaluator then has in place of its method. So
the first part must not set it (`not_evaluates_composition`).
-/

namespace ListScript

/-- Running expressions one after the other; `last` is the value if there are none. -/
inductive Runs (engine : Ref) : List Value → Context → Value → State → Outcome Value → Prop
  | done {ctx : Context} {last : Value} {st : State} : Runs engine [] ctx last st (.value last st)
  | raised {e : Value} {es : List Value} {ctx : Context} {last : Value} {st st' : State} {err : Raised} :
      Computes engine e ctx st (.raised err st') → Runs engine (e :: es) ctx last st (.raised err st')
  | next {e v : Value} {es : List Value} {ctx : Context} {last : Value} {st st' : State} {out : Outcome Value} :
      Computes engine e ctx st (.value v st') → Runs engine es { ctx with last := v } v st' out →
      Runs engine (e :: es) ctx last st out

/-- The context and the state after some expressions. -/
inductive After (engine : Ref) : List Value → Context → State → Context → State → Prop
  | start {ctx : Context} {st : State} : After engine [] ctx st ctx st
  | next {e v : Value} {es : List Value} {ctx ctx' : Context} {st st' st'' : State} :
      Computes engine e ctx st (.value v st') → After engine es { ctx with last := v } st' ctx' st'' →
      After engine (e :: es) ctx st ctx' st''

/-- Some lists are not modified by the expressions that run: after each of them they hold what they held before. -/
def Unmodified (engine : Ref) (lists es : List Value) (ctx : Context) (st : State) : Prop :=
  ∀ done rest ctx' st', es = done ++ rest → After engine done ctx st ctx' st' →
    ∀ l ∈ lists, st'.store.list? l = st.store.list? l

section Runs

variable {engine : Ref} {e v last list : Value} {es fs items lists : List Value} {ctx ctx' : Context} {st st' : State}
  {out : Outcome Value}

/-! ## Concatenation -/

theorem Runs.ne_exhausted (h : Runs engine es ctx last st out) : out ≠ .exhausted := by
  induction h with
  | done => simp
  | raised _ => simp
  | next _ _ ih => exact ih

theorem Runs.of_last (hne : es ≠ []) (last' : Value) (h : Runs engine es ctx last st out) :
    Runs engine es ctx last' st out := by
  cases h with
  | done => exact absurd rfl hne
  | raised he => exact .raised he
  | next he hes => exact .next he hes

/-- The value of a sequence is the last value for what comes after it. -/
theorem Runs.after (h : Runs engine es ctx last st (.value v st')) (hne : es ≠ []) :
    After engine es ctx st { ctx with last := v } st' := by
  generalize hout : Outcome.value v st' = out at h
  induction h with
  | done => exact absurd rfl hne
  | raised _ => cases hout
  | @next e w es ctx last st st₁ out he hes ih =>
    by_cases hes' : es = []
    · subst hes'
      subst hout
      cases hes with
      | done => exact .next he .start
    · exact .next he (ih hes' hout)

theorem runs_append_of_raised {err : Raised} (h : Runs engine es ctx last st (.raised err st')) (fs : List Value) :
    Runs engine (es ++ fs) ctx last st (.raised err st') := by
  generalize hout : Outcome.raised err st' = out at h
  induction h with
  | done => cases hout
  | raised he => exact .raised he
  | next he _ ih => exact .next he (ih hout)

/-- What comes after a sequence that gives a value runs in the context with that last value. -/
theorem runs_append (h : Runs engine es ctx last st (.value v st')) (hne : es ≠ []) :
    Runs engine (es ++ fs) ctx last st out ↔ Runs engine fs { ctx with last := v } v st' out := by
  generalize hvalue : Outcome.value v st' = out' at h
  induction h with
  | done => exact absurd rfl hne
  | raised _ => cases hvalue
  | @next e w es ctx last st st₁ out' he hes ih =>
    have hstep : Runs engine (e :: es ++ fs) ctx last st out ↔
        Runs engine (es ++ fs) { ctx with last := w } w st₁ out := by
      constructor
      · intro h
        cases h with
        | raised he' => cases he.unique he'
        | next he' hrest => cases he.unique he'; exact hrest
      · exact fun h => .next he h
    rw [hstep]
    by_cases hes' : es = []
    · subst hes'
      subst hvalue
      cases hes with
      | done => exact Iff.rfl
    · exact ih hes' hvalue

/-! ## Scripts as sequences -/

theorem Unmodified.next (h : Unmodified engine lists (e :: es) ctx st) (he : Computes engine e ctx st (.value v st')) :
    (∀ l ∈ lists, st'.store.list? l = st.store.list? l) ∧ Unmodified engine lists es { ctx with last := v } st' := by
  have hafter : ∀ l ∈ lists, st'.store.list? l = st.store.list? l := h [e] es _ st' rfl (.next he .start)
  refine ⟨hafter, ?_⟩
  intro done rest ctx' st'' hes hdone l hl
  rw [hafter l hl]
  exact h (e :: done) rest ctx' st'' (by rw [hes]; rfl) (.next he hdone) l hl

theorem runFrom_succ (fuel : Nat) (engine : Ref) (list : Value) (i : Nat) (ctx : Context) (last : Value) (st : State) :
    runFrom (fuel + 1) engine list i ctx last st =
      match ((st.store.list? list).getD [])[i]? with
      | none => .value last st
      | some e =>
        match runExpression fuel engine e ctx st with
        | .value v st' => runFrom fuel engine list (i + 1) { ctx with last := v } v st'
        | .raised err st' => .raised err st'
        | .exhausted => .exhausted := by
  rw [runFrom]
  change Effect.bind (Effect.element? list i) _ st = _
  unfold Effect.bind Effect.element?
  simp only
  cases ((st.store.list? list).getD [])[i]? with
  | none => rfl
  | some e =>
    dsimp only
    change Effect.bind (runExpression fuel engine e ctx) _ st = _
    unfold Effect.bind
    cases runExpression fuel engine e ctx st <;> rfl

/-- The interpreter goes through a list that is not modified as through a sequence. -/
theorem runs_of_runFrom (es : List Value) :
    ∀ {pre : List Value} {ctx : Context} {last : Value} {st : State} {fuel : Nat},
      st.store.list? list = some (pre ++ es) → Unmodified engine [list] es ctx st →
      runFrom fuel engine list pre.length ctx last st = out → out ≠ .exhausted → Runs engine es ctx last st out := by
  induction es with
  | nil =>
    intro pre ctx last st fuel hlist _ hrun hout
    cases fuel with
    | zero => rw [runFrom] at hrun; exact absurd hrun.symm hout
    | succ fuel =>
      rw [runFrom_succ, hlist] at hrun
      have hend : (pre ++ [])[pre.length]? = none := List.getElem?_eq_none (by simp)
      simp only [Option.getD_some, hend] at hrun
      rw [← hrun]
      exact .done
  | cons e es ih =>
    intro pre ctx last st fuel hlist hun hrun hout
    cases fuel with
    | zero => rw [runFrom] at hrun; exact absurd hrun.symm hout
    | succ fuel =>
      rw [runFrom_succ, hlist] at hrun
      simp only [Option.getD_some, List.getElem?_append_right (Nat.le_refl _), Nat.sub_self,
        List.getElem?_cons_zero] at hrun
      cases he : runExpression fuel engine e ctx st with
      | value v st' =>
        rw [he] at hrun
        have hcomputes : Computes engine e ctx st (.value v st') := ⟨by simp, fuel, he⟩
        obtain ⟨hsame, hun'⟩ := hun.next hcomputes
        have hlist' : st'.store.list? list = some ((pre ++ [e]) ++ es) := by
          rw [hsame list List.mem_cons_self, hlist]
          simp
        have hrest : runFrom fuel engine list (pre ++ [e]).length { ctx with last := v } v st' = out := by
          rw [List.length_append]
          exact hrun
        exact .next hcomputes (ih hlist' hun' hrest hout)
      | raised err st' =>
        rw [he] at hrun
        rw [← hrun]
        exact .raised ⟨by simp, fuel, he⟩
      | exhausted =>
        rw [he] at hrun
        exact absurd hrun.symm hout

theorem runFrom_of_runs (h : Runs engine es ctx last st out) : ∀ {pre : List Value},
    st.store.list? list = some (pre ++ es) → Unmodified engine [list] es ctx st →
      ∃ fuel, runFrom fuel engine list pre.length ctx last st = out := by
  induction h with
  | @done ctx last st =>
    intro pre hlist _
    refine ⟨1, ?_⟩
    rw [runFrom_succ, hlist]
    simp
  | @raised e es ctx last st st' err he =>
    intro pre hlist _
    obtain ⟨_, fuel, he⟩ := he
    refine ⟨fuel + 1, ?_⟩
    rw [runFrom_succ, hlist]
    simp [he]
  | @next e v es ctx last st st' out he hes ih =>
    intro pre hlist hun
    obtain ⟨hsame, hun'⟩ := hun.next he
    have hlist' : st'.store.list? list = some ((pre ++ [e]) ++ es) := by
      rw [hsame list List.mem_cons_self, hlist]
      simp
    obtain ⟨n, hn⟩ := ih hlist' hun'
    obtain ⟨_, m, hm⟩ := he
    -- both parts of the run get the greater of the two amounts of fuel
    refine ⟨max m n + 1, ?_⟩
    have hm' := runExpression_le (Nat.le_max_left m n) engine e ctx st (by rw [hm]; simp)
    have hn' := (run_le (Nat.le_max_right m n)).2.1 engine list (pre ++ [e]).length { ctx with last := v } v st'
      (by rw [hn]; exact hes.ne_exhausted)
    rw [runFrom_succ, hlist]
    simp only [Option.getD_some, List.getElem?_append_right (Nat.le_refl _), Nat.sub_self, List.getElem?_cons_zero]
    rw [hm', hm]
    rw [List.length_append] at hn'
    exact hn'.trans (by rw [← hn, List.length_append])

/-! ## Scripts -/

/-- A script is run by the evaluator that is found for it. -/
theorem runScript_by (fuel : Nat) {runner : Ref} (script : Value) (ctx : Context) {form : Script}
    (hrunner : evaluatorOf engine st = .value runner st) (h : st.store.script script = .ok form) :
    runScript (fuel + 1) engine script ctx st =
      match form with
      | .single e => runExpression fuel runner e ctx st
      | .sequence list => runFrom fuel runner list 0 ctx .null st := by
  rw [runScript, Effect.bind_of_value hrunner]
  change Effect.bind (Effect.ask (·.script script)) _ st = _
  unfold Effect.bind Effect.ask
  simp only [h]
  cases form <;> rfl

theorem runScript_succ (fuel : Nat) (engine : Ref) (script : Value) (ctx : Context) (st : State) {form : Script}
    (hself : st.store.RunsItself engine) (h : st.store.script script = .ok form) :
    runScript (fuel + 1) engine script ctx st =
      match form with
      | .single e => runExpression fuel engine e ctx st
      | .sequence list => runFrom fuel engine list 0 ctx .null st := by
  rw [runScript_by fuel script ctx (evaluatorOf_self hself) h]
  cases form <;> rfl

theorem script_sequence (hlist : st.store.list? list = some items)
    (hfirst : ∀ e ∈ items.head?, st.store.isList e = true) : st.store.script list = .ok (.sequence list) := by
  have hsingle : st.store.isSingle items = false := by
    cases items with
    | nil => rfl
    | cons e items => simp [Store.isSingle, hfirst e rfl]
  simp [Store.script, hlist, hsingle]

theorem script_single (hlist : st.store.list? e = some items) (hsingle : st.store.isSingle items = true) :
    st.store.script e = .ok (.single e) := by
  simp [Store.script, hlist, hsingle]

/-- A script that is a list of expressions ends as the sequence of them, if it is not modified by them. -/
theorem evaluates_iff_runs (hself : st.store.RunsItself engine) (hlist : st.store.list? list = some items)
    (hfirst : ∀ e ∈ items.head?, st.store.isList e = true) (hun : Unmodified engine [list] items ctx st) :
    Evaluates engine list ctx st out ↔ Runs engine items ctx .null st out := by
  have hform := script_sequence hlist hfirst
  constructor
  · rintro ⟨hout, fuel, hrun⟩
    cases fuel with
    | zero => rw [runScript] at hrun; exact absurd hrun.symm hout
    | succ fuel =>
      rw [runScript_succ fuel engine list ctx st hself hform] at hrun
      exact @runs_of_runFrom engine list out items [] ctx .null st fuel hlist hun hrun hout
  · intro h
    obtain ⟨fuel, hfuel⟩ := @runFrom_of_runs engine .null list items ctx st out h [] hlist hun
    exact ⟨h.ne_exhausted, fuel + 1, by rw [runScript_succ fuel engine list ctx st hself hform]; exact hfuel⟩

/-- A script that is one expression ends as the expression. -/
theorem evaluates_iff_computes (hself : st.store.RunsItself engine) (hlist : st.store.list? e = some items)
    (hsingle : st.store.isSingle items = true) :
    Evaluates engine e ctx st out ↔ Computes engine e ctx st out := by
  have hform := script_single hlist hsingle
  constructor
  · rintro ⟨hout, fuel, hrun⟩
    cases fuel with
    | zero => rw [runScript] at hrun; exact absurd hrun.symm hout
    | succ fuel =>
      rw [runScript_succ fuel engine e ctx st hself hform] at hrun
      exact ⟨hout, fuel, hrun⟩
  · rintro ⟨hout, fuel, hrun⟩
    exact ⟨hout, fuel + 1, by rw [runScript_succ fuel engine e ctx st hself hform]; exact hrun⟩

theorem runs_singleton : Runs engine [e] ctx last st out ↔ Computes engine e ctx st out := by
  constructor
  · intro h
    cases h with
    | raised he => exact he
    | next he hrest =>
      cases hrest with
      | done => exact he
  · intro h
    cases out with
    | value v st' => exact .next h .done
    | raised err st' => exact .raised h
    | exhausted => exact absurd rfl h.1

theorem After.isList {l : Value} (h : After engine es ctx st ctx' st') (hl : st.store.isList l = true) :
    st'.store.isList l = true := by
  induction h with
  | start => exact hl
  | next he _ ih => exact ih (he.isList hl)

theorem After.append (h : After engine es ctx st ctx' st') {ctx'' : Context} {st'' : State}
    (h' : After engine fs ctx' st' ctx'' st'') : After engine (es ++ fs) ctx st ctx'' st'' := by
  induction h with
  | start => exact h'
  | next he _ ih => exact .next he (ih h')

theorem Unmodified.of_subset {more : List Value} (h : Unmodified engine more (es ++ fs) ctx st) (hsub : lists ⊆ more) :
    Unmodified engine lists es ctx st := by
  intro done rest ctx' st' hes hafter l hl
  exact h done (rest ++ fs) ctx' st' (by rw [hes, List.append_assoc]) hafter l (hsub hl)

/-- What comes after a sequence does not modify what the whole does not modify. -/
theorem Unmodified.rest {more : List Value} (h : Unmodified engine more (es ++ fs) ctx st)
    (hafter : After engine es ctx st ctx' st') (hsub : lists ⊆ more) : Unmodified engine lists fs ctx' st' := by
  intro done rest ctx'' st'' hfs hdone l hl
  rw [h es fs ctx' st' rfl hafter l (hsub hl)]
  exact h (es ++ done) rest ctx'' st'' (by rw [hfs, List.append_assoc]) (hafter.append hdone) l (hsub hl)

end Runs

/-! ## Sequential composition -/

section Composition

variable {engine : Ref} {a b ab : Value} {A B : List Value} {ctx : Context} {st : State}

/-- A script that starts as another one ends with an error ends with that error too. Where the other one ends with a
value, it goes on as the rest with that last value, if nothing stands in for the evaluator by then. -/
theorem evaluates_append (hself : st.store.RunsItself engine) (ha : st.store.list? a = some A) (hb : st.store.list? b = some B)
    (hab : st.store.list? ab = some (A ++ B)) (hne : A ≠ []) (hlists : ∀ e ∈ A ++ B, st.store.isList e = true)
    (hun : Unmodified engine [a, b, ab] (A ++ B) ctx st) :
    (∀ err st', Evaluates engine a ctx st (.raised err st') → Evaluates engine ab ctx st (.raised err st')) ∧
    (∀ v st', Evaluates engine a ctx st (.value v st') →
      (B ≠ [] → st'.store.RunsItself engine →
        ∀ out, Evaluates engine ab ctx st out ↔ Evaluates engine b { ctx with last := v } st' out) ∧
      (B = [] → Evaluates engine ab ctx st (.value v st'))) := by
  have hfirst : ∀ e ∈ A.head?, st.store.isList e = true :=
    fun e he => hlists e (List.mem_append_left _ (List.mem_of_mem_head? he))
  have hfirst' : ∀ e ∈ (A ++ B).head?, st.store.isList e = true := fun e he => hlists e (List.mem_of_mem_head? he)
  have hruns : ∀ out, Evaluates engine a ctx st out ↔ Runs engine A ctx .null st out :=
    fun out => evaluates_iff_runs hself ha hfirst (hun.of_subset (by simp))
  have hruns' : ∀ out, Evaluates engine ab ctx st out ↔ Runs engine (A ++ B) ctx .null st out := by
    intro out
    have hall : Unmodified engine [a, b, ab] ((A ++ B) ++ []) ctx st := by rwa [List.append_nil]
    exact evaluates_iff_runs hself hab hfirst' (hall.of_subset (by simp))
  constructor
  · intro err st' h
    exact (hruns' _).2 (runs_append_of_raised ((hruns _).1 h) B)
  · intro v st' h
    have hA := (hruns _).1 h
    have hafter := hA.after hne
    constructor
    · intro hB hself' out
      have hb' : st'.store.list? b = some B := by
        rw [hun A B _ st' rfl hafter b (by simp), hb]
      have hfirstB : ∀ e ∈ B.head?, st'.store.isList e = true :=
        fun e he => hafter.isList (hlists e (List.mem_append_right _ (List.mem_of_mem_head? he)))
      rw [hruns' out, runs_append hA hne, evaluates_iff_runs hself' hb' hfirstB (hun.rest hafter (by simp))]
      exact ⟨Runs.of_last hB .null, Runs.of_last hB v⟩
    · rintro rfl
      rw [hruns', runs_append hA hne]
      exact .done

/-- A list that cannot be reached from an expression, its context and its evaluator is not modified by it. -/
theorem unmodified_of_not_reaches {e w : Value} {items : List Value} (hself : st.store.RunsItself engine) (he : st.store.list? e = some items)
    (hsingle : st.store.isSingle items = true) (hw : st.store.list? w = some [e])
    (hr : ∀ r, w = .ref r → ¬ st.store.Reaches [e, ctx.this, ctx.scope, ctx.last, .ref engine] r) :
    Unmodified engine [w] [e] ctx st := by
  have hwlist : st.store.isList w = true := by simp [Store.isList, hw]
  obtain ⟨r, _, flavor, rfl, hc⟩ := Ward.isList_iff.1 hwlist
  intro done rest ctx' st' hsplit hafter l hl
  cases List.mem_singleton.1 hl
  cases hafter with
  | start => rfl
  | next hcomputes hrest =>
    obtain ⟨rfl, hnil⟩ := List.cons.inj hsplit
    obtain ⟨rfl, -⟩ := List.append_eq_nil_iff.1 hnil.symm
    cases hrest with
    | start =>
      have hevaluates := (evaluates_iff_computes hself he hsingle).2 hcomputes
      have hkept := hevaluates.get?_eq rfl hc (hr r rfl)
      simp only [Store.list?, Store.cell?, hkept, hc]

/-- One expression runs as the list of it. -/
theorem evaluates_singleton {e w : Value} {items : List Value} (hself : st.store.RunsItself engine) (he : st.store.list? e = some items)
    (hsingle : st.store.isSingle items = true) (hw : st.store.list? w = some [e])
    (hun : Unmodified engine [w] [e] ctx st) (out : Outcome Value) :
    Evaluates engine e ctx st out ↔ Evaluates engine w ctx st out := by
  have helist : st.store.isList e = true := by simp [Store.isList, he]
  have hfirst : ∀ e' ∈ [e].head?, st.store.isList e' = true := by simpa using helist
  rw [evaluates_iff_computes hself he hsingle, evaluates_iff_runs hself hw hfirst hun, runs_singleton]

/-- A script that is given to the evaluator's own method is run by the evaluator, in the context that is given. -/
theorem apply_evaluate {f : Ref} {script context : Value} (hself : st.store.RunsItself engine)
    (hengine : st.store.engine? (.ref engine) = some engine)
    (hf : st.store.get? f = some (.method (.ref engine) .evaluate)) (fuel : Nat) :
    ListScript.apply (fuel + 1) (.ref f) [script, context] none st =
      (contextFrom context >>= fun ctx => runScript (fuel + 1) engine script ctx) st := by
  rw [← Logged.run_apply (fuel + 1)]
  rw [Logged.apply, Logged.run_bind, Logged.run_lift, Effect.store_bind, Store.cell?, hf]
  dsimp only
  rw [hengine]
  change (contextFrom context >>= fun ctx => (Logged.form fuel engine ctx script).run) st = _
  -- looking up the context changes nothing, so that the evaluator still runs scripts itself
  obtain ⟨ctx, hvalue, -⟩ | ⟨e, hraised, -⟩ | hexhausted := looks_contextFrom context st
  · rw [Effect.bind_of_value hvalue, Effect.bind_of_value hvalue, ← Logged.run_script, run_script_self hself]
  · rw [Effect.bind_of_raised hraised, Effect.bind_of_raised hraised]
  · change Effect.bind _ _ st = Effect.bind _ _ st
    unfold Effect.bind
    rw [hexhausted]

/-- A context that is handed to the evaluator is the same after the run, if the run cannot reach it. -/
theorem get?_of_apply_evaluate {f r : Ref} {attrs : Attributes} {script : Value} {fuel : Nat} {st' : State}
    (hself : st.store.RunsItself engine) (hengine : st.store.engine? (.ref engine) = some engine)
    (hf : st.store.get? f = some (.method (.ref engine) .evaluate)) (hr : st.store.get? r = some (.context ctx attrs))
    (hunreached : ¬ st.store.Reaches [script, ctx.this, ctx.scope, ctx.last, .ref engine] r)
    (hst : (ListScript.apply fuel (.ref f) [script, .ref r] none st).state? = some st') :
    st'.store.get? r = some (.context ctx attrs) := by
  cases fuel with
  | zero => rw [ListScript.apply] at hst; cases hst
  | succ fuel =>
    rw [apply_evaluate hself hengine hf] at hst
    obtain ⟨ctx', hvalue, hcontext⟩ | ⟨e, hraised, -⟩ | hexhausted := looks_contextFrom (.ref r) st
    · rw [Effect.bind_of_value hvalue] at hst
      obtain rfl : ctx = ctx' := by simpa only [Store.context?, Store.cell?, hr, Option.some.injEq] using hcontext
      have hne : runScript (fuel + 1) engine script ctx st ≠ .exhausted := by
        intro hexhausted
        rw [hexhausted] at hst
        cases hst
      exact Evaluates.get?_eq ⟨hne, fuel + 1, rfl⟩ hst hr hunreached
    · rw [Effect.bind_of_raised hraised] at hst
      cases hst
      exact hr
    · change (Effect.bind _ _ st).state? = _ at hst
      unfold Effect.bind at hst
      rw [hexhausted] at hst
      cases hst

end Composition

/-- Sequential composition, on an evaluator that runs its scripts itself. Let `a`, `b` and `ab` be lists of the
expressions `A`, of `B` and of both, which the expressions do not modify. If `a` ends with an error, `ab` ends with that
error in the same state. If it ends with the value `v`, and nothing stands in for the evaluator by then, `ab` goes on as
`b` with the last value `v`; and it ends there if `B` is empty. One expression runs as the list of it, be it a list that
nothing refers to or one that the expression does not modify. And a context object that is handed to the evaluator is the
same after the run, if it cannot be reached in it. -/
theorem evaluates_composition (engine : Ref) (ctx : Context) (st : State) (hself : st.store.RunsItself engine) :
    (∀ a b ab A B, st.store.list? a = some A → st.store.list? b = some B → st.store.list? ab = some (A ++ B) →
      A ≠ [] → (∀ e ∈ A ++ B, st.store.isList e = true) → Unmodified engine [a, b, ab] (A ++ B) ctx st →
      (∀ err st', Evaluates engine a ctx st (.raised err st') → Evaluates engine ab ctx st (.raised err st')) ∧
      (∀ v st', Evaluates engine a ctx st (.value v st') →
        (B ≠ [] → st'.store.RunsItself engine →
          ∀ out, Evaluates engine ab ctx st out ↔ Evaluates engine b { ctx with last := v } st' out) ∧
        (B = [] → Evaluates engine ab ctx st (.value v st')))) ∧
    (∀ e items w, st.store.list? e = some items → st.store.isSingle items = true → st.store.list? w = some [e] →
      ((∀ r, w = .ref r → ¬ st.store.Reaches [e, ctx.this, ctx.scope, ctx.last, .ref engine] r) ∨
        Unmodified engine [w] [e] ctx st) →
      ∀ out, Evaluates engine e ctx st out ↔ Evaluates engine w ctx st out) ∧
    (∀ fuel script f r attrs st', st.store.engine? (.ref engine) = some engine →
      st.store.get? f = some (.method (.ref engine) .evaluate) → st.store.get? r = some (.context ctx attrs) →
      ¬ st.store.Reaches [script, ctx.this, ctx.scope, ctx.last, .ref engine] r →
      (ListScript.apply fuel (.ref f) [script, .ref r] none st).state? = some st' →
      st'.store.get? r = some (.context ctx attrs)) := by
  refine ⟨?_, ?_, ?_⟩
  · intro a b ab A B ha hb hab hne hlists hun
    exact evaluates_append hself ha hb hab hne hlists hun
  · intro e items w he hsingle hw hlist
    rcases hlist with hr | hun
    · exact evaluates_singleton hself he hsingle hw (unmodified_of_not_reaches hself he hsingle hw hr)
    · exact evaluates_singleton hself he hsingle hw hun
  · intro fuel script f r attrs st' hengine hf hr hunreached hst
    exact get?_of_apply_evaluate hself hengine hf hr hunreached hst

/-- Two expressions, alone and together, an evaluator, a scope, a context and the method of the evaluator. -/
def twoValues : State where
  store := ⟨#[.list [.text "value", .int 1] .plain, .list [.text "value", .int 2] .plain, .list [.ref ⟨0⟩] .plain,
    .list [.ref ⟨1⟩] .plain, .list [.ref ⟨0⟩, .ref ⟨1⟩] .plain, .list [] .plain, .engine (.ref ⟨5⟩) [], .dict [],
    .scope (.ref ⟨7⟩) .null, .context ⟨.null, .ref ⟨8⟩, .null⟩ [], .method (.ref ⟨6⟩) .evaluate]⟩
  tracing := false
  trace := #[]

theorem computes_twoValues (ctx : Context) :
    Computes ⟨6⟩ (.ref ⟨0⟩) ctx twoValues (.value (.int 1) twoValues) ∧
      Computes ⟨6⟩ (.ref ⟨1⟩) ctx twoValues (.value (.int 2) twoValues) :=
  ⟨⟨by simp, 0, rfl⟩, ⟨by simp, 0, rfl⟩⟩

theorem after_twoValues {es : List Value} {ctx ctx' : Context} {st st' : State} (h : After ⟨6⟩ es ctx st ctx' st')
    (hst : st = twoValues) (hes : ∀ e ∈ es, e = .ref ⟨0⟩ ∨ e = .ref ⟨1⟩) : st' = twoValues := by
  induction h with
  | start => exact hst
  | @next e v es ctx ctx' st st' st'' he _ ih =>
    subst hst
    obtain ⟨hone, htwo⟩ := computes_twoValues ctx
    refine ih ?_ fun e' he' => hes e' (List.mem_cons_of_mem _ he')
    rcases hes e List.mem_cons_self with rfl | rfl
    · cases he.unique hone; rfl
    · cases he.unique htwo; rfl

/-- Nothing refers to the context. -/
theorem not_reaches_twoValues {roots : List Value} (hroots : .ref ⟨9⟩ ∉ roots) :
    ¬ twoValues.store.Reaches roots ⟨9⟩ := by
  have hcells : ∀ i : Fin 11, .ref ⟨9⟩ ∉ ((twoValues.store.get? ⟨i⟩).map Cell.contents).getD [] := by decide
  intro h
  generalize hr : (⟨9⟩ : Ref) = r at h
  cases h with
  | root hmem => exact hroots (hr ▸ hmem)
  | @inside r _ c _ hc hmem =>
    have hlt : r.index < 11 := Store.index_lt_of_get? hc
    have hcell := hcells ⟨r.index, hlt⟩
    rw [show twoValues.store.get? ⟨r.index⟩ = some c from hc] at hcell
    exact hcell (hr ▸ hmem)

theorem evaluates_composition_two_values :
    Evaluates ⟨6⟩ (.ref ⟨4⟩) ⟨.null, .ref ⟨8⟩, .null⟩ twoValues (.value (.int 2) twoValues) ∧
    (∀ out, Evaluates ⟨6⟩ (.ref ⟨0⟩) ⟨.null, .ref ⟨8⟩, .null⟩ twoValues out ↔
      Evaluates ⟨6⟩ (.ref ⟨2⟩) ⟨.null, .ref ⟨8⟩, .null⟩ twoValues out) ∧
    ∀ fuel st', (ListScript.apply fuel (.ref ⟨10⟩) [.ref ⟨4⟩, .ref ⟨9⟩] none twoValues).state? = some st' →
      st'.store.get? ⟨9⟩ = some (.context ⟨.null, .ref ⟨8⟩, .null⟩ []) := by
  have hun : ∀ lists es ctx, (∀ e ∈ es, e = .ref ⟨0⟩ ∨ e = .ref ⟨1⟩) → Unmodified ⟨6⟩ lists es ctx twoValues := by
    intro lists es ctx hes done rest ctx' st' hsplit hafter l _
    rw [after_twoValues hafter rfl fun e he => hes e (hsplit ▸ List.mem_append_left _ he)]
  obtain ⟨happend, hsingleton, hcontext⟩ :=
    evaluates_composition ⟨6⟩ ⟨.null, .ref ⟨8⟩, .null⟩ twoValues (by decide)
  refine ⟨?_, ?_, ?_⟩
  · have hboth := (happend (.ref ⟨2⟩) (.ref ⟨3⟩) (.ref ⟨4⟩) [.ref ⟨0⟩] [.ref ⟨1⟩] rfl rfl rfl (by simp) (by decide)
      (hun _ _ _ (by simp))).2
    have hone : Evaluates ⟨6⟩ (.ref ⟨2⟩) ⟨.null, .ref ⟨8⟩, .null⟩ twoValues (.value (.int 1) twoValues) :=
      ⟨by simp, 3, rfl⟩
    exact ((hboth _ _ hone).1 (by simp) (by decide) _).2 ⟨by simp, 3, rfl⟩
  · exact hsingleton (.ref ⟨0⟩) _ (.ref ⟨2⟩) rfl rfl rfl (.inr (hun _ _ _ (by simp)))
  · intro fuel st' hst
    exact hcontext fuel _ ⟨10⟩ ⟨9⟩ _ st' rfl rfl rfl (not_reaches_twoValues (by decide)) hst

/-- A script that makes a function and, by way of it, sets the method with which its evaluator runs scripts; the rest of
the script; and both together. -/
def replacing : State where
  store := ⟨#[.list [.text "set", .text "f", .ref ⟨1⟩] .plain, .list [.text "lambda", .ref ⟨2⟩, .ref ⟨3⟩] .plain,
    .list [] .plain, .list [] .plain, .list [.text "set", .text "f.evaluator.eval", .int 5] .plain,
    .list [.text "value", .int 1] .plain, .list [.ref ⟨0⟩, .ref ⟨4⟩] .plain, .list [.ref ⟨5⟩] .plain,
    .list [.ref ⟨0⟩, .ref ⟨4⟩, .ref ⟨5⟩] .plain, .list [] .plain, .engine (.ref ⟨9⟩) [], .dict [],
    .scope (.ref ⟨11⟩) .null]⟩
  tracing := false
  trace := #[]

/-- The evaluator goes on with a script that it runs, but not with another one once its method is gone. -/
theorem not_evaluates_composition :
    replacing.store.RunsItself ⟨10⟩ ∧
    ∃ v st', Evaluates ⟨10⟩ (.ref ⟨6⟩) ⟨.null, .ref ⟨12⟩, .null⟩ replacing (.value v st') ∧
      (∀ l ∈ [.ref ⟨6⟩, .ref ⟨7⟩, .ref ⟨8⟩], st'.store.list? l = replacing.store.list? l) ∧
      ¬ ∀ out, Evaluates ⟨10⟩ (.ref ⟨8⟩) ⟨.null, .ref ⟨12⟩, .null⟩ replacing out ↔
        Evaluates ⟨10⟩ (.ref ⟨7⟩) ⟨.null, .ref ⟨12⟩, v⟩ st' out := by
  refine ⟨by decide, ?_⟩
  have hfirst : (runScript 5 ⟨10⟩ (.ref ⟨6⟩) ⟨.null, .ref ⟨12⟩, .null⟩ replacing).value?.bind (fun v =>
        (runScript 5 ⟨10⟩ (.ref ⟨6⟩) ⟨.null, .ref ⟨12⟩, .null⟩ replacing).state?.map fun st' =>
          [.ref ⟨6⟩, .ref ⟨7⟩, .ref ⟨8⟩].all (fun l => st'.store.list? l = replacing.store.list? l) &&
            (runScript 5 ⟨10⟩ (.ref ⟨7⟩) ⟨.null, .ref ⟨12⟩, v⟩ st').error?.isSome) = some true := by
    decide +kernel
  have hboth : (runScript 5 ⟨10⟩ (.ref ⟨8⟩) ⟨.null, .ref ⟨12⟩, .null⟩ replacing).value?.isSome = true := by
    decide +kernel
  cases ha : runScript 5 ⟨10⟩ (.ref ⟨6⟩) ⟨.null, .ref ⟨12⟩, .null⟩ replacing with
  | raised | exhausted => rw [ha] at hfirst; cases hfirst
  | value v st' =>
    rw [ha] at hfirst
    obtain ⟨hlists, hrest⟩ := Bool.and_eq_true_iff.1 (Option.some.inj hfirst)
    refine ⟨v, st', ⟨by simp, 5, ha⟩, by simpa using hlists, fun hsame => ?_⟩
    cases hb : runScript 5 ⟨10⟩ (.ref ⟨7⟩) ⟨.null, .ref ⟨12⟩, v⟩ st' with
    | value | exhausted => rw [hb] at hrest; cases hrest
    | raised e st₁ =>
      have hraised : Evaluates ⟨10⟩ (.ref ⟨7⟩) ⟨.null, .ref ⟨12⟩, v⟩ st' (.raised e st₁) := ⟨by simp, 5, hb⟩
      cases hab : runScript 5 ⟨10⟩ (.ref ⟨8⟩) ⟨.null, .ref ⟨12⟩, .null⟩ replacing with
      | value w st₂ => cases ((hsame _).2 hraised).unique ⟨by simp, 5, hab⟩
      | raised | exhausted => rw [hab] at hboth; cases hboth

end ListScript
