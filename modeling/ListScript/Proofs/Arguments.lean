import ListScript.Proofs.Tasks

/-!
# Arguments from left to right

The arguments of a call come from a list of value sources. `Supplies` is the evaluation of the sources, one after the
other and each in the state that the one before it leaves, without fuel and without the list object that the interpreter
goes through. The two agree as long as the list is not modified meanwhile (`endsAs_evalArguments`).

How something with fuel ends is a relation of its own, `Effect.EndsAs`, for which one thing after the other has a law
(`Effect.endsAs_bind`). It is `Evaluates` for scripts and `Computes` for expressions.
-/

namespace ListScript

open Effect

/-! ## Effects with enough fuel -/

namespace Effect

variable {α β : Type}

/-- How something ends with enough fuel. -/
def EndsAs (act : Nat → Effect α) (st : State) (out : Outcome α) : Prop := out ≠ .exhausted ∧ ∃ fuel, act fuel st = out

/-- More fuel changes no result. -/
def Steady (act : Nat → Effect α) : Prop := ∀ ⦃m n⦄, m ≤ n → (act m).Le (act n)

variable {p act act' : Nat → Effect α} {f : Nat → α → Effect β} {st st' : State} {out out' : Outcome α} {a : α}

theorem steady_const (act : Effect α) : Steady fun _ => act := fun _ _ _ => Le.refl act

theorem Steady.bind (hp : Steady p) (hf : ∀ a, Steady fun n => f n a) : Steady fun n => p n >>= f n :=
  fun _ _ hmn => (hp hmn).bind fun a => hf a hmn

/-- An amount of fuel that suffices, with all greater ones. -/
theorem EndsAs.fuel (h : EndsAs act st out) (hact : Steady act) : ∃ m, ∀ n, m ≤ n → act n st = out := by
  obtain ⟨hout, m, rfl⟩ := h
  exact ⟨m, fun n hn => hact hn st hout⟩

theorem EndsAs.unique (h : EndsAs act st out) (h' : EndsAs act st out') (hact : Steady act) : out = out' := by
  obtain ⟨m, hm⟩ := h.fuel hact
  obtain ⟨n, hn⟩ := h'.fuel hact
  exact (hm _ (Nat.le_max_left m n)).symm.trans (hn _ (Nat.le_max_right m n))

theorem endsAs_of_eq (h : ∀ n, act n st = out) (hout : out ≠ .exhausted) : EndsAs act st out := ⟨hout, 0, h 0⟩

theorem endsAs_congr (h : ∀ n, act n st = act' n st') : EndsAs act st out ↔ EndsAs act' st' out := by simp only [EndsAs, h]

/-- What ends in one way with any fuel ends in that way. -/
theorem endsAs_iff_eq (h : ∀ n, act n st = out') (hout : out' ≠ .exhausted) : EndsAs act st out ↔ out = out' := by
  simp only [EndsAs, h, exists_const]
  constructor
  · exact fun h => h.2.symm
  · rintro rfl
    exact ⟨hout, rfl⟩

/-- The first unit of fuel is not counted where there is nothing without it. -/
theorem endsAs_succ (hzero : act 0 = exhaust) : EndsAs (fun n => act (n + 1)) st out ↔ EndsAs act st out := by
  constructor
  · rintro ⟨hout, n, hn⟩
    exact ⟨hout, n + 1, hn⟩
  · rintro ⟨hout, n, hn⟩
    cases n with
    | zero => rw [hzero] at hn; exact absurd hn.symm hout
    | succ n => exact ⟨hout, n, hn⟩

/-- The two ways in which one thing after the other ends. -/
theorem endsAs_bind {out : Outcome β} (hp : Steady p) (hf : ∀ a, Steady fun n => f n a) :
    EndsAs (fun n => p n >>= f n) st out ↔
      (∃ e st', EndsAs p st (.raised e st') ∧ out = .raised e st') ∨
      ∃ a st', EndsAs p st (.value a st') ∧ EndsAs (fun n => f n a) st' out := by
  constructor
  · rintro ⟨hout, n, hn : (p n >>= f n) st = out⟩
    cases hfirst : p n st with
    | value a st' =>
      rw [bind_of_value hfirst] at hn
      exact .inr ⟨a, st', ⟨by simp, n, hfirst⟩, hout, n, hn⟩
    | raised e st' =>
      rw [bind_of_raised hfirst] at hn
      exact .inl ⟨e, st', ⟨by simp, n, hfirst⟩, hn.symm⟩
    | exhausted =>
      change Effect.bind (p n) (f n) st = out at hn
      rw [Effect.bind, hfirst] at hn
      exact absurd hn.symm hout
  · rintro (⟨e, st', ⟨-, n, hn⟩, rfl⟩ | ⟨a, st', hfirst, hrest⟩)
    · exact ⟨by simp, n, bind_of_raised hn⟩
    · obtain ⟨m, hm⟩ := hfirst.fuel hp
      obtain ⟨n, hn⟩ := hrest.fuel (hf a)
      refine ⟨hrest.1, max m n, ?_⟩
      change (p (max m n) >>= f (max m n)) st = out
      rw [bind_of_value (hm _ (Nat.le_max_left m n)), hn _ (Nat.le_max_right m n)]

/-- What comes after a value starts from it. -/
theorem EndsAs.bind_iff {out : Outcome β} (h : EndsAs p st (.value a st')) (hp : Steady p) (hf : ∀ a, Steady fun n => f n a) :
    EndsAs (fun n => p n >>= f n) st out ↔ EndsAs (fun n => f n a) st' out := by
  rw [endsAs_bind hp hf]
  constructor
  · rintro (⟨e, st'', hraised, -⟩ | ⟨a', st'', hvalue, hrest⟩)
    · cases h.unique hraised hp
    · cases h.unique hvalue hp
      exact hrest
  · exact fun hrest => .inr ⟨a, st', h, hrest⟩

/-- What needs no fuel after a value starts from it. -/
theorem EndsAs.bind_const_iff {g : α → Effect β} {out : Outcome β} (h : EndsAs p st (.value a st')) (hp : Steady p) :
    EndsAs (fun n => p n >>= g) st out ↔ EndsAs (fun _ => g a) st' out :=
  h.bind_iff hp fun a => steady_const (g a)

/-- An error that is caught is a value. -/
theorem endsAs_attempt {out : Outcome (Except Raised α)} :
    EndsAs (fun n => attempt (act n)) st out ↔
      (∃ a st', EndsAs act st (.value a st') ∧ out = .value (.ok a) st') ∨
      ∃ e st', EndsAs act st (.raised e st') ∧ out = .value (.error e) st' := by
  constructor
  · rintro ⟨hout, n, hn : attempt (act n) st = out⟩
    cases hact : act n st with
    | value a st' =>
      rw [attempt, hact] at hn
      exact .inl ⟨a, st', ⟨by simp, n, hact⟩, hn.symm⟩
    | raised e st' =>
      rw [attempt, hact] at hn
      exact .inr ⟨e, st', ⟨by simp, n, hact⟩, hn.symm⟩
    | exhausted =>
      rw [attempt, hact] at hn
      exact absurd hn.symm hout
  · rintro (⟨a, st', ⟨-, n, hn⟩, rfl⟩ | ⟨e, st', ⟨-, n, hn⟩, rfl⟩) <;>
      exact ⟨by simp, n, by simp only [attempt, hn]⟩

end Effect

/-! ## Arguments -/

/-- How the evaluation of a value source ends: a literal stands for itself, a list is run as a script. -/
def SourceEnds (engine : Ref) (source : Value) (ctx : Context) (st : State) (out : Outcome Value) : Prop :=
  if st.store.isLiteral source then out = .value (st.store.unwrap source) st else Evaluates engine source ctx st out

/-- Evaluating sources from left to right, each in the state that the one before it leaves, all in one context. -/
inductive Supplies (engine : Ref) (ctx : Context) : List Value → State → Outcome (List Value) → Prop
  | done {st : State} : Supplies engine ctx [] st (.value [] st)
  | raised {source : Value} {sources : List Value} {st st' : State} {e : Raised} :
      SourceEnds engine source ctx st (.raised e st') → Supplies engine ctx (source :: sources) st (.raised e st')
  | raisedLater {source v : Value} {sources : List Value} {st st' st'' : State} {e : Raised} :
      SourceEnds engine source ctx st (.value v st') → Supplies engine ctx sources st' (.raised e st'') →
      Supplies engine ctx (source :: sources) st (.raised e st'')
  | next {source v : Value} {sources vs : List Value} {st st' st'' : State} :
      SourceEnds engine source ctx st (.value v st') → Supplies engine ctx sources st' (.value vs st'') →
      Supplies engine ctx (source :: sources) st (.value (v :: vs) st'')

/-- The sources of the arguments that a call gives; it may give no list of them. -/
def Store.sourcesOf (s : Store) : Option Value → List Value
  | some list => (s.list? list).getD []
  | none => []

/-- The list of arguments holds some sources, and is not modified while they are evaluated. -/
def KeepsSources (engine : Ref) (ctx : Context) (args : Option Value) (sources : List Value) (st : State) : Prop :=
  ∀ done rest vs st', sources = done ++ rest → Supplies engine ctx done st (.value vs st') →
    st'.store.sourcesOf args = sources

section Arguments

variable {engine : Ref} {ctx : Context} {source v list : Value} {args : Option Value} {sources : List Value} {st st' : State}

theorem steady_runArguments (engine : Ref) (i : Nat) (list : Value) (ctx : Context) :
    Steady fun n => runArguments n engine i list ctx :=
  fun _ _ hmn => (run_le hmn).2.2.1 engine i list ctx

theorem steady_evalSource (engine : Ref) (source : Value) (ctx : Context) :
    Steady fun n => evalSource (runScript n engine) source ctx :=
  fun _ _ hmn => evalSource_le ((run_le hmn).1 engine) source ctx

theorem endsAs_evalSource {out : Outcome Value} :
    EndsAs (fun n => evalSource (runScript n engine) source ctx) st out ↔ SourceEnds engine source ctx st out := by
  have hsource : ∀ n, evalSource (runScript n engine) source ctx st =
      if st.store.isLiteral source = true then .value (st.store.unwrap source) st else runScript n engine source ctx st := by
    intro n
    rw [evalSource, store_bind]
    split <;> rfl
  unfold SourceEnds
  by_cases hliteral : st.store.isLiteral source = true
  · rw [if_pos hliteral]
    exact endsAs_iff_eq (fun n => (hsource n).trans (if_pos hliteral)) (by simp)
  · rw [if_neg hliteral]
    exact endsAs_congr fun n => (hsource n).trans (if_neg hliteral)

theorem supplies_nil_iff {out : Outcome (List Value)} : Supplies engine ctx [] st out ↔ out = .value [] st := by
  constructor
  · intro h
    cases h
    rfl
  · rintro rfl
    exact .done

theorem supplies_cons_iff {out : Outcome (List Value)} :
    Supplies engine ctx (source :: sources) st out ↔
      (∃ e st', SourceEnds engine source ctx st (.raised e st') ∧ out = .raised e st') ∨
      ∃ v st', SourceEnds engine source ctx st (.value v st') ∧
        ((∃ e st'', Supplies engine ctx sources st' (.raised e st'') ∧ out = .raised e st'') ∨
          ∃ vs st'', Supplies engine ctx sources st' (.value vs st'') ∧ out = .value (v :: vs) st'') := by
  constructor
  · intro h
    cases h with
    | raised hsource => exact .inl ⟨_, _, hsource, rfl⟩
    | raisedLater hsource hrest => exact .inr ⟨_, _, hsource, .inl ⟨_, _, hrest, rfl⟩⟩
    | next hsource hrest => exact .inr ⟨_, _, hsource, .inr ⟨_, _, hrest, rfl⟩⟩
  · rintro (⟨e, st', hsource, rfl⟩ | ⟨v, st', hsource, ⟨e, st'', hrest, rfl⟩ | ⟨vs, st'', hrest, rfl⟩⟩)
    · exact .raised hsource
    · exact .raisedLater hsource hrest
    · exact .next hsource hrest

theorem KeepsSources.sourcesOf_eq (h : KeepsSources engine ctx args sources st) : st.store.sourcesOf args = sources :=
  h [] sources [] st rfl .done

theorem runArguments_succ (fuel : Nat) (engine : Ref) (i : Nat) (list : Value) (ctx : Context) (st : State) :
    runArguments (fuel + 1) engine i list ctx st =
      match (st.store.sourcesOf (some list))[i]? with
      | none => .value [] st
      | some source =>
        (evalSource (runScript fuel engine) source ctx >>= fun v =>
          runArguments fuel engine (i + 1) list ctx >>= fun vs => pure (v :: vs)) st := by
  rw [runArguments, bind_of_value (show element? list i st = .value _ st from rfl)]
  change _ = match ((st.store.list? list).getD [])[i]? with | none => _ | some source => _
  cases ((st.store.list? list).getD [])[i]? <;> rfl

/-- The interpreter goes through the rest of a list of sources as through the sources. -/
theorem endsAs_runArguments {all : List Value} : ∀ {rest pre : List Value} {st : State} {out : Outcome (List Value)},
    all = pre ++ rest →
    (∀ done rest' vs st', rest = done ++ rest' → Supplies engine ctx done st (.value vs st') →
      st'.store.sourcesOf (some list) = all) →
    (EndsAs (fun n => runArguments n engine pre.length list ctx) st out ↔ Supplies engine ctx rest st out) := by
  intro rest
  induction rest with
  | nil =>
    intro pre st out hall hkeeps
    have hnow := hkeeps [] [] [] st rfl .done
    have hend : all[pre.length]? = none := List.getElem?_eq_none (by simp [hall])
    have hrun : ∀ n, runArguments (n + 1) engine pre.length list ctx st = .value [] st := by
      intro n
      rw [runArguments_succ, hnow, hend]
    rw [← endsAs_succ (by rw [runArguments]), endsAs_iff_eq hrun (by simp), supplies_nil_iff]
  | cons source rest ih =>
    intro pre st out hall hkeeps
    have hnow := hkeeps [] (source :: rest) [] st rfl .done
    have hsource : all[pre.length]? = some source := by simp [hall]
    have hrun : ∀ n, runArguments (n + 1) engine pre.length list ctx st =
        (evalSource (runScript n engine) source ctx >>= fun v =>
          runArguments n engine (pre.length + 1) list ctx >>= fun vs => pure (v :: vs)) st := by
      intro n
      rw [runArguments_succ, hnow, hsource]
    have hrest := fun v : Value =>
      (steady_runArguments engine (pre.length + 1) list ctx).bind fun vs => steady_const (pure (v :: vs))
    rw [← endsAs_succ (by rw [runArguments]), endsAs_congr hrun, endsAs_bind (steady_evalSource engine source ctx) hrest,
      supplies_cons_iff]
    simp only [endsAs_evalSource]
    refine or_congr Iff.rfl (exists_congr fun v => exists_congr fun st' => and_congr_right fun hvalue => ?_)
    rw [endsAs_bind (steady_runArguments engine (pre.length + 1) list ctx) fun vs => steady_const (pure (v :: vs))]
    -- the rest of the sources starts where this one ends
    have hmore : ∀ out, EndsAs (fun n => runArguments n engine (pre.length + 1) list ctx) st' out ↔
        Supplies engine ctx rest st' out := by
      intro out
      have := @ih (pre ++ [source]) st' out (by simp [hall]) fun done rest' vs st'' hsplit hdone =>
        hkeeps (source :: done) rest' (v :: vs) st'' (by rw [hsplit]; rfl) (.next hvalue hdone)
      rwa [List.length_append] at this
    simp only [hmore]
    refine or_congr Iff.rfl (exists_congr fun vs => exists_congr fun st'' => and_congr_right fun _ => ?_)
    exact endsAs_iff_eq (fun _ => rfl) (by simp)

/-- The interpreter evaluates the arguments of a call as its sources, if the list of them is not modified. -/
theorem endsAs_evalArguments {out : Outcome (List Value)} (h : KeepsSources engine ctx args sources st) :
    EndsAs (fun n => evalArguments (runArguments n engine 0) args ctx) st out ↔ Supplies engine ctx sources st out := by
  cases args with
  | some list => exact endsAs_runArguments (List.nil_append sources).symm h
  | none =>
    have hnone : sources = [] := h.sourcesOf_eq.symm
    subst hnone
    rw [endsAs_iff_eq (fun _ => rfl) (by simp), supplies_nil_iff]

theorem steady_evalArguments (engine : Ref) (args : Option Value) (ctx : Context) :
    Steady fun n => evalArguments (runArguments n engine 0) args ctx := by
  cases args with
  | some list => exact steady_runArguments engine 0 list ctx
  | none => exact steady_const _

end Arguments

end ListScript
