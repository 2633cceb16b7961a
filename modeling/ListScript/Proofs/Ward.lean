import ListScript.Proofs.Conduct

/-!
# Runs under a discipline

By induction along a run every task of it is good if its reads, writes and calls are such as the discipline allows
(`Discipline.good_of_run`), and starts with what is held (`Discipline.ready_of_run`). The induction is on the weight of
tasks: that tasks are heavier than those they start is itself a matter of conduct, under the discipline that asks for
nothing.

Most disciplines have one custody throughout, a `Ward`; for them a run keeps the property to its end
(`Ward.inv_of_state?`).
-/

namespace ListScript

/-! ## Runs -/

namespace Discipline

/-- The custody of a run about which nothing is asked. -/
def idle : Discipline where
  Stage := Unit
  custody _ :=
    { inv := fun _ => True, held := fun _ => True, outer := fun _ => True, exposes := fun _ => True
      immediate := fun _ _ => trivial, held_of_outer := fun _ _ => trivial, replaceable := fun _ _ _ _ _ => trivial
      part := fun _ _ _ _ _ _ _ _ => trivial, captured := fun _ _ c _ _ _ => by cases c <;> trivial
      stack := fun _ _ _ _ _ _ _ _ => trivial, binding := fun _ _ _ _ _ _ _ => trivial
      set := fun _ _ _ _ _ _ _ _ _ _ _ => trivial, setStack := fun _ _ _ _ _ _ _ _ _ _ => trivial }
  fault _ _ := True
  plain _ _ _ := trivial
  le _ _ := True
  refl _ := trivial
  trans _ _ := trivial
  mono _ _ := trivial
  outer_mono _ _ := trivial
  exposed _ _ := trivial
  alloc _ _ _ _ _ _ := ⟨(), trivial, trivial, fun _ => trivial⟩
  scopes _ _ _ _ _ := ⟨(), trivial, trivial, trivial⟩

theorem good_idle (m : Moment) : idle.Good m := by
  intro i _ _
  cases m.outcome with
  | value | raised => exact ⟨(), trivial, trivial, trivial⟩
  | exhausted => trivial

end Discipline

namespace Moment

variable {m m' : Moment}

/-- Reads and writes start no tasks. -/
theorem Starts.isPath_eq_false (h : m.Starts m') (path : Path) (ctx : Context) (v : Value) :
    m.task ≠ .read path ctx ∧ m.task ≠ .write path v ctx := by
  obtain ⟨ev, hev, -⟩ := h
  constructor <;> intro htask <;> rw [events, htask] at hev <;> cases hev

/-- A task is heavier than the tasks it starts. -/
theorem Starts.weight_lt (h : m.Starts m') : m'.weight < m.weight := by
  have hready : Discipline.idle.Ready () m.task := ⟨fun _ _ => trivial, fun _ _ => trivial⟩
  have hhost : Discipline.idle.RulesHost := fun _ _ => ⟨fun _ _ _ _ _ => trivial, fun _ => trivial⟩
  have hconforms := Discipline.conforms_task hhost (fun _ _ _ _ _ _ => trivial) h.isPath_eq_false hready
  exact (Discipline.later_of_starts hconforms trivial (fun m' _ => Discipline.good_idle m') h).1

end Moment

namespace Discipline

variable {D : Discipline} {m m' : Moment}

/-- The reads, writes and calls of a moment are such as a discipline allows. -/
structure Lawful (D : Discipline) (m : Moment) : Prop where
  permits : ∀ i, (D.custody i).inv m.state.store → D.Ready i m.task → D.Later i m.state.store fun j => D.Permits j m
  exposes : ∀ i, (D.custody i).inv m.state.store → D.Ready i m.task → ∀ engine f args receiver name,
    m.task = .call engine f args receiver name → (D.custody i).exposes engine

theorem conforms_of_lawful (hD : D.RulesHost) (h : D.Lawful m) (hstarts : m.Starts m') {i : D.Stage}
    (hs : (D.custody i).inv m.state.store) (hm : D.Ready i m.task) :
    D.Conforms m.weight i (m.task.logged m.fuel) D.Held :=
  conforms_task hD (h.exposes i hs hm) hstarts.isPath_eq_false hm

/-- A moment is good if it is lawful and the moments it starts are good. -/
theorem good_of_lawful (hD : D.RulesHost) (h : D.Lawful m) (hsub : ∀ m', m.Starts m' → D.Good m') : D.Good m := by
  intro i hs hm
  have hconforms : (∀ path ctx v, m.task ≠ .read path ctx ∧ m.task ≠ .write path v ctx) →
      D.Allows i D.Held m.outcome := by
    intro hpath
    have := conforms_task hD (h.exposes i hs hm) hpath hm
    rw [← m.run_logged]
    exact (this m.state hs fun ev hev => hsub _ ⟨ev, hev, rfl⟩).1
  obtain ⟨j, hij, hs', hpermits⟩ := h.permits i hs hm
  cases htask : m.task with
  | read path ctx => exact (allows_of_permits (v := .null) (.inl htask) hpermits hs' (ready_mono hij hm)).trans hij
  | write path v ctx => exact (allows_of_permits (.inr htask) hpermits hs' (ready_mono hij hm)).trans hij
  | _ => exact hconforms (by simp [htask])

/-- All that a run comes to is good if it is lawful. -/
theorem good_of_run (hD : D.RulesHost) (h : ∀ m', m.Reaches m' → D.Lawful m') : D.Good m := by
  induction hw : m.weight using Nat.strongRecOn generalizing m with
  | ind w ih =>
    refine good_of_lawful hD (h m .refl) fun m' hm' => ?_
    refine ih m'.weight (hw ▸ hm'.weight_lt) (fun m'' hm'' => h m'' (.head hm' hm'')) rfl

/-- All that a run comes to starts with what is held. -/
theorem ready_of_run (hD : D.RulesHost) (h : ∀ m', m.Reaches m' → D.Lawful m') (hm' : m.Reaches m') {i : D.Stage}
    (hs : (D.custody i).inv m.state.store) (hm : D.Ready i m.task) :
    D.Later i m'.state.store fun j => D.Ready j m'.task := by
  induction hm' with
  | refl => exact later_self hs hm
  | @tail m₁ m₂ hreach hstarts ih =>
    obtain ⟨j, hij, hs₁, hm₁⟩ := ih
    have hgood : ∀ m₃, m₁.Starts m₃ → D.Good m₃ := fun m₃ hm₃ =>
      good_of_run hD fun m₄ hm₄ => h m₄ (hreach.trans (.head hm₃ hm₄))
    have hconforms := conforms_of_lawful hD (h m₁ hreach) hstarts hs₁ hm₁
    exact (later_of_starts hconforms hs₁ hgood hstarts).2.trans hij

end Discipline

/-! ## Wards -/

/-- One custody for a whole run, under which all that is held may be the variables of a context. -/
structure Ward where
  inv : Store → Prop
  held : Value → Prop
  exposes : Ref → Prop
  /-- the evaluators whose attributes may be set -/
  opens : Ref → Prop := fun _ => True
  immediate : ∀ v, (∀ r, v ≠ .ref r) → held v
  part : ∀ s r c v, inv s → held (.ref r) → s.get? r = some c → v ∈ c.fields → held v
  stack : ∀ s r v attrs, inv s → held (.ref r) → exposes r → s.get? r = some (.engine v attrs) → held v
  binding : ∀ s scope key v, inv s → held scope → s.lookup? scope key = .ok (some v) → held v
  alloc : ∀ s c, inv s → (∀ v ∈ c.contents, held v) → inv (s.alloc c).2 ∧ held (.ref (s.alloc c).1)
  set : ∀ s r c c', inv s → held (.ref r) → s.get? r = some c → c.IfEngine (opens r) → c.Rewrites c' →
    (∀ v ∈ c'.fields, held v) → inv (s.set r c')
  setStack : ∀ s r v attrs w, inv s → held (.ref r) → exposes r → s.get? r = some (.engine v attrs) → held w →
    inv (s.set r (.engine w attrs))

namespace Ward

/-- The custody of a ward. -/
def custody (w : Ward) : Custody where
  inv := w.inv
  held := w.held
  outer := w.held
  exposes := w.exposes
  opens := w.opens
  immediate := w.immediate
  held_of_outer _ h := h
  replaceable _ _ _ _ h := h
  part := w.part
  captured s r c hs hr hc := by
    cases c with
    | context ctx attrs => exact w.part s r _ ctx.scope hs hr hc (by simp [Cell.fields, Cell.parts])
    | _ => trivial
  stack := w.stack
  binding := w.binding
  set s r c c' hs hr hc hopen hwrite hfields _ := w.set s r c c' hs hr hc hopen hwrite hfields
  setStack := w.setStack

/-- The discipline of a ward. -/
def discipline (w : Ward) : Discipline where
  Stage := Unit
  custody _ := w.custody
  fault _ e := w.custody.HeldError e
  plain _ _ he := Custody.heldError_of_none (Raised.stack_of_isPlain he)
  le _ _ := True
  refl _ := trivial
  trans _ _ := trivial
  mono _ h := h
  outer_mono _ h := h
  exposed _ h := h
  opened _ h := h
  alloc _ s c hs hc _ := ⟨(), trivial, (w.alloc s c hs hc).1, fun _ => (w.alloc s c hs hc).2⟩
  scopes _ s v hs hv := by
    have hdict := w.alloc s (.dict []) hs (by simp [Cell.contents, Cell.parts, Entries.parts])
    have hscope := w.alloc _ (.scope (.ref (s.alloc (.dict [])).1) v) hdict.1 (by
      simpa [Cell.contents] using ⟨hdict.2, hv.elim (fun hnull => hnull ▸ w.immediate .null (by simp)) id⟩)
    exact ⟨(), trivial, hscope⟩

variable {w : Ward} {m : Moment}

theorem rulesHost (w : Ward) : w.discipline.RulesHost := fun _ _ => Iff.rfl

theorem ready_iff {i : w.discipline.Stage} {t : Task} : w.discipline.Ready i t ↔ ∀ v ∈ t.values, w.held v := by
  refine ⟨fun h => h.1, fun h => ⟨h, fun ctx hctx => h _ ?_⟩⟩
  cases t <;> cases hctx <;> simp [Task.values]

/-- The paths and calls of a moment lead to no list of active calls that is kept back, and its writes go through no
evaluator whose attributes have to stay. -/
structure Abides (w : Ward) (m : Moment) : Prop where
  admits : w.custody.AdmitsAll m.visits
  opens : ∀ path v ctx, m.task = .write path v ctx → w.custody.OpensAll m.visits
  exposes : ∀ engine f args receiver name, m.task = .call engine f args receiver name → w.exposes engine

/-- A value that is held may be the variables of a context. -/
theorem Abides.lawful (h : w.Abides m) : w.discipline.Lawful m where
  permits _ hs hm := by
    refine Discipline.later_self hs ⟨h.admits, fun path v ctx htask =>
      ⟨h.opens path v ctx htask, fun u _ _ _ _ _ => ?_⟩⟩
    rw [htask] at hm
    exact hm.1 v (by simp [Task.values])
  exposes _ _ _ := h.exposes

/-- A ward that keeps nothing back has nothing to ask of a moment. -/
theorem abides_of_exposes (h : ∀ r, w.exposes r) (hopens : ∀ r, w.opens r) (m : Moment) : w.Abides m :=
  ⟨fun _ _ r _ _ => h r, fun _ _ _ _ _ _ r _ => hopens r, fun engine _ _ _ _ _ => h engine⟩

theorem allows_outcome (h : ∀ m', m.Reaches m' → w.Abides m') (hs : w.inv m.state.store)
    (hm : ∀ v ∈ m.task.values, w.held v) : w.discipline.Allows () w.discipline.Held m.outcome :=
  Discipline.good_of_run w.rulesHost (fun m' hm' => (h m' hm').lawful) () hs (ready_iff.2 hm)

/-- The property of a ward holds wherever a run comes to, and what starts there is held. -/
theorem inv_of_reaches {m' : Moment} (h : ∀ m', m.Reaches m' → w.Abides m') (hs : w.inv m.state.store)
    (hm : ∀ v ∈ m.task.values, w.held v) (hm' : m.Reaches m') :
    w.inv m'.state.store ∧ ∀ v ∈ m'.task.values, w.held v := by
  obtain ⟨_, -, hs', hready⟩ := Discipline.ready_of_run (i := ()) w.rulesHost (fun m' hm' => (h m' hm').lawful) hm' hs
    (ready_iff.2 hm)
  exact ⟨hs', ready_iff.1 hready⟩

/-- The property of a ward holds where a run ends. -/
theorem inv_of_state? {st : State} (h : ∀ m', m.Reaches m' → w.Abides m') (hs : w.inv m.state.store)
    (hm : ∀ v ∈ m.task.values, w.held v) (hst : m.outcome.state? = some st) : w.inv st.store := by
  have hallows := allows_outcome h hs hm
  cases hout : m.outcome with
  | value v st' | raised e st' =>
    rw [hout] at hallows hst
    cases hst
    obtain ⟨_, -, hinv, -⟩ := hallows
    exact hinv
  | exhausted => rw [hout] at hst; cases hst

end Ward

end ListScript
