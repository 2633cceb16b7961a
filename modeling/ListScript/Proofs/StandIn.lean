import ListScript.Proofs.Tasks

/-!
# What stands in for parts of the interpreter

The evaluator that runs a script or makes a call, and the context that a function has captured, are looked up in
attributes that scripts can set. Looking them up changes nothing; `Effect.Looks` says so, together with what is found.

- `looks_evaluatorOf`, `looks_callerOf`: an evaluator finds itself, or the evaluator whose method stands in its place;
- `evaluatorOf_self`, `callerOf_self`: it finds itself if nothing stands there;
- `looks_engineFor`, `looks_contextFrom`: what a function has captured is an evaluator and a context.
-/

namespace ListScript

open Effect

/-- The effect looks at the store and changes nothing. What it finds has a property, and its errors have no record of
calls. -/
def Effect.Looks {α : Type} (act : Effect α) (st : State) (P : α → Prop) : Prop :=
  (∃ a, act st = .value a st ∧ P a) ∨ (∃ e, act st = .raised e st ∧ e.stack = none) ∨ act st = .exhausted

namespace Effect.Looks

variable {α : Type} {act : Effect α} {st st' : State} {P : α → Prop} {a : α} {e : Raised}

theorem pure (h : P a) : (Pure.pure a : Effect α).Looks st P := .inl ⟨a, rfl, h⟩

theorem exhaust : (Effect.exhaust : Effect α).Looks st P := .inr (.inr rfl)

theorem raise (h : e.stack = none) : (Effect.raise e : Effect α).Looks st P := .inr (.inl ⟨e, rfl, h⟩)

theorem store_bind {f : Store → Effect α} (h : (f st.store).Looks st P) : (store >>= f).Looks st P := h

theorem imp {Q : α → Prop} (h : act.Looks st P) (hPQ : ∀ a, P a → Q a) : act.Looks st Q := by
  obtain ⟨a, hact, ha⟩ | h := h
  · exact .inl ⟨a, hact, hPQ a ha⟩
  · exact .inr h

theorem of_value (h : act.Looks st P) (hst : act st = .value a st') : st' = st ∧ P a := by
  obtain ⟨_, hact, ha⟩ | ⟨_, hact, _⟩ | hact := h <;> cases hst.symm.trans hact
  exact ⟨rfl, ha⟩

end Effect.Looks

section Looking

variable (engine : Ref) (v f : Value) (st : State)

theorem looks_unfollowed {α : Type} (P : α → Prop) : (unfollowed f : Effect α).Looks st P := by
  refine .store_bind ?_
  split
  · exact .exhaust
  · exact .raise rfl

/-- What stands in for a part of an evaluator is the method of an evaluator. -/
theorem looks_standIn (m : Host.Method) : (standIn m f).Looks st fun r =>
    ∃ self, st.store.cell? f = some (.method self m) ∧ st.store.engine? self = some r := by
  refine .store_bind ?_
  split
  · rename_i self m' hf
    split
    · rename_i r hself
      split
      · rename_i hm
        exact .pure ⟨self, hm ▸ hf, hself⟩
      · exact .exhaust
    · exact .exhaust
  · exact looks_unfollowed f st _

theorem looks_evaluatorOf : (evaluatorOf engine).Looks st fun r => r = engine ∨
    ∃ f self, st.store.hiddenAttribute? (.ref engine) Host.Method.evaluate.label = some f ∧
      st.store.cell? f = some (.method self .evaluate) ∧ st.store.engine? self = some r := by
  refine .store_bind ?_
  split
  · exact .pure (.inl rfl)
  · rename_i f hf
    refine (looks_standIn f st .evaluate).imp fun r hr => .inr ?_
    obtain ⟨self, hmethod, hself⟩ := hr
    exact ⟨f, self, hf, hmethod, hself⟩

theorem looks_callerOf : (callerOf engine).Looks st fun r => r = engine ∨
    ∃ f self, st.store.hiddenAttribute? (.ref engine) Host.Method.invoke.label = some f ∧
      st.store.cell? f = some (.method self .invoke) ∧ st.store.engine? self = some r := by
  refine .store_bind ?_
  split
  · exact .pure (.inl rfl)
  · rename_i f hf
    split
    · exact .raise rfl
    · refine (looks_standIn f st .invoke).imp fun r hr => .inr ?_
      obtain ⟨self, hmethod, hself⟩ := hr
      exact ⟨f, self, hf, hmethod, hself⟩

theorem looks_engineFor : (engineFor v).Looks st fun r => st.store.engine? v = some r := by
  refine .store_bind ?_
  split
  · rename_i r _ hr
    exact .pure hr
  · exact .raise rfl
  · exact .exhaust

theorem looks_contextFrom : (contextFrom v).Looks st fun ctx => st.store.context? v = some ctx := by
  refine .store_bind ?_
  split
  · exact looks_unfollowed _ st _
  · rename_i ctx _ hctx
    exact .pure hctx
  · exact .raise rfl

end Looking

theorem Store.eq_ref_of_engine? {s : Store} {v : Value} {r : Ref} (h : s.engine? v = some r) : v = .ref r := by
  unfold engine? at h
  split at h <;> cases h
  rfl

theorem Store.cell?_of_context? {s : Store} {v : Value} {ctx : Context} (h : s.context? v = some ctx) :
    ∃ attrs, s.cell? v = some (.context ctx attrs) := by
  unfold context? at h
  split at h <;> cases h
  exact ⟨_, by assumption⟩

/-! ## Evaluators that do all themselves -/

/-- Nothing stands in for an evaluator when it runs a script. -/
def Store.RunsItself (s : Store) (engine : Ref) : Prop :=
  s.hiddenAttribute? (.ref engine) Host.Method.evaluate.label = none

/-- Nothing stands in for an evaluator when it makes a call. -/
def Store.CallsItself (s : Store) (engine : Ref) : Prop :=
  s.hiddenAttribute? (.ref engine) Host.Method.invoke.label = none

instance (s : Store) (engine : Ref) : Decidable (s.RunsItself engine) :=
  inferInstanceAs (Decidable (s.hiddenAttribute? (.ref engine) _ = none))

instance (s : Store) (engine : Ref) : Decidable (s.CallsItself engine) :=
  inferInstanceAs (Decidable (s.hiddenAttribute? (.ref engine) _ = none))

/-- A new list has no attributes. -/
theorem Store.hiddenAttribute?_allocList {s : Store} {v : Value} {name : String} {items : List Value}
    (h : s.hiddenAttribute? v name = none) : (s.allocList items).2.hiddenAttribute? v name = none := by
  cases v with
  | ref r =>
    by_cases hr : r.index < s.size
    · rw [hiddenAttribute?, cell?, allocList, get?_alloc_lt _ hr]
      exact h
    · cases hget : (s.allocList items).2.get? r with
      | none => rw [hiddenAttribute?, cell?, hget]; rfl
      | some c =>
        have hlt := (Array.getElem?_eq_some_iff.1 hget).1
        have hsize : (s.allocList items).2.size = s.size + 1 := s.size_alloc _
        obtain rfl : r = (s.alloc (.list items .plain)).1 := congrArg Ref.mk (show r.index = s.size by
          change r.index < (s.allocList items).2.size at hlt
          omega)
        rw [allocList, get?_alloc_self] at hget
        cases hget
        rw [hiddenAttribute?, cell?, allocList, get?_alloc_self]
        rfl
  | _ => rfl

section Selves

variable {engine : Ref} {st : State}

theorem evaluatorOf_self (h : st.store.RunsItself engine) : evaluatorOf engine st = .value engine st := by
  rw [evaluatorOf, store_bind, show st.store.hiddenAttribute? _ _ = none from h]
  rfl

/-- An evaluator that runs its scripts itself runs a script as the expressions that it is. -/
theorem run_script_self (h : st.store.RunsItself engine) (fuel : Nat) (ctx : Context) (v : Value) :
    (Logged.script engine ctx (fuel + 1) v).run st = (Logged.form fuel engine ctx v).run st :=
  bind_of_value (evaluatorOf_self h)

/-- The evaluator that runs the scripts of an evaluator, or the error with which looking for it ends. There is neither if
what stands in its place is a function of another kind. -/
def Store.runner? (s : Store) (engine : Ref) : Option (Except Raised Ref) :=
  match s.hiddenAttribute? (.ref engine) Host.Method.evaluate.label with
  | none => some (.ok engine)
  | some f =>
    match s.cell? f with
    | some (.method self m) => if m = .evaluate then (s.engine? self).map .ok else none
    | _ => if s.isCallable f then none else some (.error (.of (.notCallable (s.typeName f))))

/-- What a lookup ends with. -/
def Effect.ofLookup {α : Type} : Option (Except Raised α) → Effect α
  | some found => ofExcept found
  | none => exhaust

theorem evaluatorOf_eq (engine : Ref) (st : State) : evaluatorOf engine st = ofLookup (st.store.runner? engine) st := by
  have hunfollowed : ∀ f, (unfollowed f : Effect Ref) st = ofLookup
      (if st.store.isCallable f then none else some (.error (.of (.notCallable (st.store.typeName f))))) st := by
    intro f
    change (if st.store.isCallable f = true then (exhaust : Effect Ref)
      else raise (.of (.notCallable (st.store.typeName f)))) st = _
    split <;> rfl
  rw [evaluatorOf, store_bind, Store.runner?]
  cases st.store.hiddenAttribute? (.ref engine) Host.Method.evaluate.label with
  | none => rfl
  | some f =>
    dsimp only
    rw [standIn, store_bind]
    cases st.store.cell? f with
    | none => exact hunfollowed f
    | some c =>
      cases c with
      | method self m => cases hself : st.store.engine? self <;> simp only [hself] <;> split <;> rfl
      | _ => exact hunfollowed f

theorem Effect.ofLookup_eq_value {α : Type} {o : Option (Except Raised α)} {a : α} :
    ofLookup o st = .value a st ↔ o = some (.ok a) := by
  rcases o with _ | e | b
  · exact ⟨nofun, nofun⟩
  · exact ⟨nofun, nofun⟩
  · exact ⟨fun h => by cases h; rfl, fun h => by cases h; rfl⟩

theorem Effect.ofLookup_eq_raised {α : Type} {o : Option (Except Raised α)} {e : Raised} :
    ofLookup o st = .raised e st ↔ o = some (.error e) := by
  rcases o with _ | e' | b
  · exact ⟨nofun, nofun⟩
  · exact ⟨fun h => by cases h; rfl, fun h => by cases h; rfl⟩
  · exact ⟨nofun, nofun⟩

/-- The same evaluator, or the same error, is found in stores that have the same in its place. -/
theorem evaluatorOf_congr {st' : State} (h : st'.store.runner? engine = st.store.runner? engine) :
    (∀ r, evaluatorOf engine st' = .value r st' ↔ evaluatorOf engine st = .value r st) ∧
      ∀ e, evaluatorOf engine st' = .raised e st' ↔ evaluatorOf engine st = .raised e st := by
  simp only [evaluatorOf_eq, ofLookup_eq_value, ofLookup_eq_raised, h, implies_true, and_self]

theorem callerOf_self (h : st.store.CallsItself engine) : callerOf engine st = .value engine st := by
  rw [callerOf, store_bind, show st.store.hiddenAttribute? _ _ = none from h]
  rfl

end Selves

end ListScript
