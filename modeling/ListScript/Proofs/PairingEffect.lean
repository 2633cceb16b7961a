import ListScript.Host.Functions
import ListScript.Proofs.PairingCall

/-!
# Effects side by side

Two effects mirror each other if, from any two states with paired stores, they end in the same way: both with a value,
both with an error, or both for want of fuel, and in states that are paired again (`Pairing.Mirrors`). Here are the rules
for the building blocks of effects.
-/

namespace ListScript

namespace Pairing

variable (p : Pairing)

/-- Two states with paired stores that have written the same lines of trace. -/
structure States (st st' : State) : Prop where
  store : p.Paired st.store st'.store
  tracing : st.tracing = p.tracing
  tracing' : st'.tracing = p.tracing
  lines : ∃ lines, st.trace = p.lines ++ lines ∧ st'.trace = p.lines' ++ lines

/-- Two ends side by side. -/
inductive Outcomes {α β : Type} (R : α → β → Prop) : Outcome α → Outcome β → Prop
  | value {a : α} {b : β} {st st' : State} (h : R a b) (hst : p.States st st') : Outcomes R (.value a st) (.value b st')
  | raised {e e' : Raised} {st st' : State} (h : p.Errors e e') (hst : p.States st st') :
    Outcomes R (.raised e st) (.raised e' st')
  | exhausted : Outcomes R .exhausted .exhausted

/-- Two effects that end in the same way from paired states. -/
def Mirrors {α β : Type} (R : α → β → Prop) (act : Effect α) (act' : Effect β) : Prop :=
  ∀ st st', p.States st st' → p.Outcomes R (act st) (act' st')

variable {p} {s s' : Store} {v w : Value} {r : Ref}

theorem States.with_store {st st' : State} (hst : p.States st st') (h : p.Paired s s') :
    p.States { st with store := s } { st' with store := s' } :=
  ⟨h, hst.tracing, hst.tracing', hst.lines⟩

section Rules

variable {α α' β β' : Type} {R : α → α' → Prop} {Q : β → β' → Prop} {act : Effect α} {act' : Effect α'}

theorem mirrors_pure {a : α} {a' : α'} (h : R a a') : p.Mirrors R (pure a) (pure a') := fun _ _ hst => .value h hst

theorem Mirrors.bind {f : α → Effect β} {f' : α' → Effect β'} (h : p.Mirrors R act act')
    (hf : ∀ a a', R a a' → p.Mirrors Q (f a) (f' a')) : p.Mirrors Q (act >>= f) (act' >>= f') := by
  intro st st' hst
  have hact := h st st' hst
  change p.Outcomes Q (Effect.bind act f st) (Effect.bind act' f' st')
  unfold Effect.bind
  cases hx : act st <;> cases hx' : act' st' <;> rw [hx, hx'] at hact <;> cases hact
  · exact hf _ _ ‹_› _ _ ‹_›
  · exact .raised ‹_› ‹_›
  · exact .exhausted

theorem mirrors_raise {e e' : Raised} (h : p.Errors e e') : p.Mirrors R (Effect.raise e) (Effect.raise e') :=
  fun _ _ hst => .raised h hst

theorem mirrors_fault (kind : Kind) (text : String) : p.Mirrors R (Host.fault kind text) (Host.fault kind text) :=
  mirrors_raise (errors_of _)

theorem mirrors_exhaust : p.Mirrors R Effect.exhaust Effect.exhaust := fun _ _ _ => .exhausted

theorem Mirrors.attempt (h : p.Mirrors R act act') : p.Mirrors (p.Both R) (Effect.attempt act) (Effect.attempt act') := by
  intro st st' hst
  have hact := h st st' hst
  unfold Effect.attempt
  cases hx : act st <;> cases hx' : act' st' <;> rw [hx, hx'] at hact <;> cases hact
  · exact .value (.ok ‹_›) ‹_›
  · exact .value (.error ‹_›) ‹_›
  · exact .exhausted

theorem mirrors_store : p.Mirrors p.Paired Effect.store Effect.store := fun _ _ hst => .value hst.store hst

theorem mirrors_ofExcept {x : Except Raised α} {x' : Except Raised α'} (h : p.Both R x x') :
    p.Mirrors R (Effect.ofExcept x) (Effect.ofExcept x') := by
  cases h with
  | ok h => exact mirrors_pure h
  | error h => exact mirrors_raise h

theorem mirrors_ask {f : Store → Except Raised α} {f' : Store → Except Raised α'}
    (h : ∀ s s', p.Paired s s' → p.Both R (f s) (f' s')) : p.Mirrors R (Effect.ask f) (Effect.ask f') := by
  intro st st' hst
  have hboth := h _ _ hst.store
  unfold Effect.ask
  cases hx : f st.store <;> cases hx' : f' st'.store <;> rw [hx, hx'] at hboth <;> cases hboth
  · exact .raised ‹_› hst
  · exact .value ‹_› hst

theorem mirrors_askGrowing {f : Store → Except Raised (α × Store)} {f' : Store → Except Raised (α' × Store)}
    (h : ∀ s s', p.Paired s s' → p.Both (fun x y => R x.1 y.1 ∧ p.Paired x.2 y.2) (f s) (f' s')) :
    p.Mirrors R (Effect.askGrowing f) (Effect.askGrowing f') := by
  intro st st' hst
  have hboth := h _ _ hst.store
  unfold Effect.askGrowing
  cases hx : f st.store <;> cases hx' : f' st'.store <;> rw [hx, hx'] at hboth <;> cases hboth
  · exact .raised ‹_› hst
  · rename_i hgrown
    exact .value hgrown.1 (hst.with_store hgrown.2)

theorem mirrors_change {f f' : Store → Except Raised Store} (h : ∀ s s', p.Paired s s' → p.Both p.Paired (f s) (f' s')) :
    p.Mirrors Eq (Effect.change f) (Effect.change f') := by
  intro st st' hst
  have hboth := h _ _ hst.store
  unfold Effect.change
  cases hx : f st.store <;> cases hx' : f' st'.store <;> rw [hx, hx'] at hboth <;> cases hboth
  · exact .raised ‹_› hst
  · exact .value rfl (hst.with_store ‹_›)

theorem mirrors_extend {f : Store → α × Store} {f' : Store → α' × Store}
    (h : ∀ s s', p.Paired s s' → R (f s).1 (f' s').1 ∧ p.Paired (f s).2 (f' s').2) :
    p.Mirrors R (Effect.extend f) (Effect.extend f') := by
  intro st st' hst
  obtain ⟨hvalue, hstore⟩ := h _ _ hst.store
  exact .value hvalue (hst.with_store hstore)

theorem mirrors_trace (line : String) : p.Mirrors Eq (Effect.trace line) (Effect.trace line) := by
  intro st st' hst
  refine .value rfl ?_
  rw [hst.tracing, hst.tracing']
  split
  · obtain ⟨lines, hlines, hlines'⟩ := hst.lines
    exact ⟨hst.store, rfl, rfl, lines.push line, by simp [hlines], by simp [hlines']⟩
  · exact hst

theorem mirrors_element? {list : Value} (hlist : list.Within p.good) (i : Nat) :
    p.Mirrors p.Found (Effect.element? list i) (Effect.element? (p.value list) i) := by
  intro st st' hst
  refine .value ?_ hst
  rw [hst.store.list?_value hlist]
  cases hitems : st.store.list? list with
  | none => exact ⟨rfl, by simp⟩
  | some items => exact ⟨List.getElem?_map .., fun u hu => hst.store.within_list? hlist hitems u (List.mem_of_getElem? hu)⟩

theorem mirrors_ite {c c' : Prop} [Decidable c] [Decidable c'] {other : Effect α} {other' : Effect α'} (hc : c' ↔ c)
    (h : c → p.Mirrors R act act') (h' : ¬ c → p.Mirrors R other other') :
    p.Mirrors R (if c then act else other) (if c' then act' else other') := by
  by_cases hyes : c
  · rw [if_pos hyes, if_pos (hc.2 hyes)]
    exact h hyes
  · rw [if_neg hyes, if_neg fun hno => hyes (hc.1 hno)]
    exact h' hyes

/-- The value of a first effect stands for itself in the second. -/
theorem Mirrors.same {act act' : Effect α} {f : α → Effect β} {f' : α → Effect β'} (h : p.Mirrors Eq act act')
    (hf : ∀ a, p.Mirrors Q (f a) (f' a)) : p.Mirrors Q (act >>= f) (act' >>= f') := by
  refine h.bind ?_
  rintro a _ rfl
  exact hf a

/-- A value that both effects get. -/
theorem Mirrors.val {act act' : Effect Value} {f : Value → Effect β} {f' : Value → Effect β'} (h : p.Mirrors p.Val act act')
    (hf : ∀ v, v.Within p.good → p.Mirrors Q (f v) (f' (p.value v))) : p.Mirrors Q (act >>= f) (act' >>= f') := by
  refine h.bind ?_
  rintro v _ ⟨rfl, hv⟩
  exact hf v hv

end Rules

theorem mirrors_value (hv : v.Within p.good) : p.Mirrors p.Val (pure v) (pure (p.value v)) := mirrors_pure ⟨rfl, hv⟩

theorem mirrors_immediate (h : p.value v = v) (hv : ∀ r, v ≠ .ref r) : p.Mirrors p.Val (pure v) (pure v) :=
  mirrors_pure ⟨h.symm, Value.within_immediate hv⟩

theorem mirrors_text (t : String) : p.Mirrors p.Val (pure (.text t)) (pure (.text t)) :=
  mirrors_immediate rfl (by simp [Value.text])

theorem mirrors_int (n : Int) : p.Mirrors p.Val (pure (.int n)) (pure (.int n)) := mirrors_immediate rfl (by simp)

theorem mirrors_bool (b : Bool) : p.Mirrors p.Val (pure (.bool b)) (pure (.bool b)) := mirrors_immediate rfl (by simp)

theorem mirrors_null : p.Mirrors p.Val (pure .null) (pure .null) := mirrors_immediate rfl (by simp)

end Pairing

end ListScript
