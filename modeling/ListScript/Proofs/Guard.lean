import ListScript.Proofs.Enclosure
import ListScript.Proofs.Lineage

/-!
# Evaluators under guard

An evaluator is under guard if what a run gets hold of, an enclosed set of objects, does not lead to the list of its
active calls (`Store.Guards`). Then the run changes the list only by calls: each call adds a frame of its own
(`opened_call`), what it applies leaves the list as it finds it, and the end of the call removes the frame
(`restores_call`). By induction on the weight of tasks, every run that follows no path to the list restores it
(`restores_of_spares`), and the evaluator is under guard wherever the run comes to (`guards_of_reaches`).

Some more objects may be kept out of reach: the frames, and the lists of arguments that calls are made with. They stay
as they are.
-/

namespace ListScript

open Effect

namespace Store

/-- An active call as the list of active calls has it. -/
def frameCell (name args : Value) : Cell := .dict [(.text "name", name), (.text "args", args)]

/-- An element of a list of active calls: a value of a set, or a frame out of its reach that has a name of the set. -/
def Listed (fixed : List (Ref × Cell)) (good : Ref → Prop) (v : Value) : Prop :=
  v.Within good ∨ ∃ k name args, v = .ref k ∧ (k, frameCell name args) ∈ fixed ∧ name.Within good

/-- An evaluator has the list of its active calls to itself. The objects of a set lead only to each other, and neither
to the list nor to some more objects, which are as they were; the names of the active calls are in the set. -/
structure Guards (s : Store) (engine list : Ref) (items : List Value) (fixed : List (Ref × Cell)) (good : Ref → Prop) :
    Prop where
  enclosed : s.Enclosed (· = engine) good
  engine_eq : ∃ attrs, s.get? engine = some (.engine (.ref list) attrs)
  list_eq : ∃ flavor, s.get? list = some (.list items flavor)
  away : ¬ good list
  fixed_eq : ∀ k ∈ fixed, ¬ good k.1 ∧ k.1 ≠ list ∧ s.get? k.1 = some k.2
  listed : ∀ v ∈ items, Listed fixed good v

namespace Guards

variable {C : Custody} {s : Store} {engine list r : Ref} {items : List Value} {fixed fixed' : List (Ref × Cell)}
  {good good' : Ref → Prop} {v w name args : Value} {c c' : Cell}

theorem ne_list (h : s.Guards engine list items fixed good) : engine ≠ list := by
  rintro rfl
  obtain ⟨attrs, hengine⟩ := h.engine_eq
  obtain ⟨flavor, hlist⟩ := h.list_eq
  cases hengine.symm.trans hlist

theorem stackOf (h : s.Guards engine list items fixed good) : s.stackOf engine = .ref list := by
  obtain ⟨attrs, hengine⟩ := h.engine_eq
  simp only [Store.stackOf, hengine]

theorem listed_mono (hgood : ∀ r, good r → good' r) (hfixed : ∀ k ∈ fixed, k ∈ fixed') (h : Listed fixed good v) :
    Listed fixed' good' v := by
  rcases h with h | ⟨k, name, args, hk, hmem, hname⟩
  · exact .inl (h.mono hgood)
  · exact .inr ⟨k, name, args, hk, hfixed _ hmem, hname.mono hgood⟩

/-- A new object of the set. -/
theorem alloc (h : s.Guards engine list items fixed good) (hc : ∀ v ∈ c.contents, v.Within good) :
    (s.alloc c).2.Guards engine list items fixed fun r => good r ∨ r = s.next := by
  obtain ⟨attrs, hengine⟩ := h.engine_eq
  obtain ⟨flavor, hlist⟩ := h.list_eq
  have hnew : ∀ {r : Ref} {d : Cell}, s.get? r = some d → r ≠ s.next := by
    rintro r d hd rfl
    exact absurd (index_lt_of_get? hd) (by simp [next])
  refine ⟨h.enclosed.alloc hc, ⟨attrs, ?_⟩, ⟨flavor, ?_⟩, ?_, ?_, ?_⟩
  · rw [get?_alloc_lt c (index_lt_of_get? hengine)]
    exact hengine
  · rw [get?_alloc_lt c (index_lt_of_get? hlist)]
    exact hlist
  · rintro (hgood | heq)
    · exact h.away hgood
    · exact hnew hlist heq
  · intro k hk
    obtain ⟨haway, hne, hget⟩ := h.fixed_eq k hk
    refine ⟨?_, hne, ?_⟩
    · rintro (hgood | heq)
      · exact haway hgood
      · exact hnew hget heq
    · rw [get?_alloc_lt c (index_lt_of_get? hget)]
      exact hget
  · exact fun v hv => listed_mono (fun _ => .inl) (fun _ => id) (h.listed v hv)

/-- A change of an object of the set keeps what is outside of it. -/
theorem of_set (h : s.Guards engine list items fixed good) (hr : good r)
    (henclosed : (s.set r c').Enclosed (· = engine) good)
    (hengine : r = engine → ∃ attrs, c' = .engine (.ref list) attrs) : (s.set r c').Guards engine list items fixed good := by
  obtain ⟨attrs, hget⟩ := h.engine_eq
  obtain ⟨flavor, hlist⟩ := h.list_eq
  refine ⟨henclosed, ?_, ⟨flavor, ?_⟩, h.away, ?_, h.listed⟩
  · by_cases heq : engine = r
    · obtain ⟨attrs', rfl⟩ := hengine heq.symm
      subst heq
      exact ⟨attrs', get?_set_self _ (index_lt_of_get? hget)⟩
    · rw [get?_set_ne c' heq]
      exact ⟨attrs, hget⟩
  · rw [get?_set_ne c' (by rintro rfl; exact h.away hr)]
    exact hlist
  · intro k hk
    obtain ⟨haway, hne, hfixed⟩ := h.fixed_eq k hk
    refine ⟨haway, hne, ?_⟩
    rw [get?_set_ne c' (by rintro heq; exact haway (heq ▸ hr))]
    exact hfixed

/-- Fewer of the objects outside of the set. -/
theorem weaken (h : s.Guards engine list items fixed' good') (hgood : ∀ r, good r → good' r)
    (hfixed : ∀ k ∈ fixed, k ∈ fixed')
    (hlisted : ∀ v ∈ items, Listed fixed good v) : s.Guards engine list items fixed good' :=
  ⟨h.enclosed, h.engine_eq, h.list_eq, h.away, fun k hk => h.fixed_eq k (hfixed k hk),
    fun v hv => listed_mono hgood (fun _ => id) (hlisted v hv)⟩

/-- A new object outside of the set. -/
theorem alloc_out (h : s.Guards engine list items fixed good) (c : Cell) :
    (s.alloc c).2.Guards engine list items ((s.next, c) :: fixed) good := by
  obtain ⟨attrs, hengine⟩ := h.engine_eq
  obtain ⟨flavor, hlist⟩ := h.list_eq
  refine ⟨h.enclosed.alloc_out c, ⟨attrs, ?_⟩, ⟨flavor, ?_⟩, h.away, ?_, ?_⟩
  · rw [get?_alloc_lt c (index_lt_of_get? hengine)]
    exact hengine
  · rw [get?_alloc_lt c (index_lt_of_get? hlist)]
    exact hlist
  · intro k hk
    rcases List.mem_cons.1 hk with rfl | hk
    · refine ⟨fun hgood => ?_, ?_, s.get?_alloc_self c⟩
      · exact absurd (h.enclosed.there _ hgood) (by simp [next])
      · rintro heq
        exact absurd (index_lt_of_get? hlist) (by rw [← heq]; simp [next])
    · obtain ⟨haway, hne, hget⟩ := h.fixed_eq k hk
      refine ⟨haway, hne, ?_⟩
      rw [get?_alloc_lt c (index_lt_of_get? hget)]
      exact hget
  · exact fun v hv => listed_mono (fun _ => id) (fun _ => List.mem_cons_of_mem _) (h.listed v hv)

/-- Other active calls. -/
theorem setList {items' : List Value} {flavor : Flavor} (h : s.Guards engine list items fixed good)
    (hlisted : ∀ v ∈ items', Listed fixed good v) :
    (s.set list (.list items' flavor)).Guards engine list items' fixed good := by
  obtain ⟨attrs, hengine⟩ := h.engine_eq
  obtain ⟨flavor', hlist⟩ := h.list_eq
  refine ⟨h.enclosed.set_out h.away _, ⟨attrs, ?_⟩, ⟨flavor, get?_set_self _ (index_lt_of_get? hlist)⟩, h.away, ?_, hlisted⟩
  · rw [get?_set_ne _ h.ne_list]
    exact hengine
  · intro k hk
    obtain ⟨haway, hne, hget⟩ := h.fixed_eq k hk
    refine ⟨haway, hne, ?_⟩
    rw [get?_set_ne _ hne]
    exact hget

theorem updateStack (h : s.Guards engine list items fixed good) (operation : String)
    (f : List Value → Except Raised (List Value)) :
    ∃ flavor, s.updateStack engine operation f = (f items).map fun items => s.set list (.list items flavor) := by
  obtain ⟨flavor, hlist⟩ := h.list_eq
  refine ⟨flavor, ?_⟩
  simp only [Store.updateStack, h.stackOf, cell?, hlist]

/-- A call becomes active. -/
theorem pushFrame (h : s.Guards engine list items fixed good) (hname : name.Within good) (args : Value) :
    ∃ s', s.pushFrame engine name args = .ok s' ∧
      s'.Guards engine list (items ++ [.ref s.next]) ((s.next, frameCell name args) :: fixed) good := by
  have halloc := h.alloc_out (frameCell name args)
  obtain ⟨flavor, hupdate⟩ := halloc.updateStack "append" fun items => .ok (items ++ [.ref s.next])
  refine ⟨_, hupdate, halloc.setList fun v hv => ?_⟩
  rcases List.mem_append.1 hv with hv | hv
  · exact halloc.listed v hv
  · exact .inr ⟨s.next, name, args, List.mem_singleton.1 hv, List.mem_cons_self, hname⟩

/-- The innermost call is no longer active. -/
theorem popFrame (h : s.Guards engine list (items ++ [v]) fixed good) :
    ∃ s', s.popFrame engine = .ok s' ∧ s'.Guards engine list items fixed good := by
  obtain ⟨flavor, hupdate⟩ := h.updateStack "pop" fun items =>
    if items.isEmpty then .error (.of .popFromEmpty) else .ok items.dropLast
  obtain ⟨flavor', hlist⟩ := h.list_eq
  have hdict : s.dict? (s.stackOf engine) = none := by
    simp only [h.stackOf, dict?, cell?, hlist]
  refine ⟨s.set list (.list items flavor), ?_, h.setList fun w hw => h.listed w (List.mem_append_left _ hw)⟩
  rw [Store.popFrame, hdict, if_neg (by simp), hupdate]
  simp [Except.map]

theorem frameOf {k : Ref} (hk : s.get? k = some (frameCell name args)) : s.frameOf (.ref k) = .ok ⟨name, args⟩ := by
  have hentries : s.copiedEntries (.ref k) = .ok [(.text "name", name), (.text "args", args)] := by
    simp only [copiedEntries, Store.scope?, cell?, hk, frameCell, mapping?, Option.map_none, Option.getD_none]
  have hname : Entries.find? (s.sameKey (.text "name")) [(.text "name", name), (.text "args", args)] = some name := by
    rw [sameKey_text]
    simp [Entries.find?, Value.text, Value.immediateEq]
  have hargs : Entries.find? (s.sameKey (.text "args")) [(.text "name", name), (.text "args", args)] = some args := by
    rw [sameKey_text]
    simp [Entries.find?, Value.text, Value.immediateEq]
  unfold Store.frameOf
  rw [hentries]
  change Except.ok (Frame.mk ((Entries.find? _ _).getD .null) ((Entries.find? _ _).getD .null)) = _
  rw [hname, hargs]
  rfl

theorem elements_stackOf (h : s.Guards engine list items fixed good) : s.elements (s.stackOf engine) = .ok items := by
  obtain ⟨flavor, hlist⟩ := h.list_eq
  simp only [Store.elements, Store.traverse, Store.traverse?, Store.elements?, h.stackOf, hlist]
  rfl

/-- The names in a record of the active calls are in the set. -/
theorem yields_frames (h : s.Guards engine list items fixed good) (hs : C.inv s) (hheld : ∀ v, C.held v ↔ v.Within good) :
    Yields (s.frames engine) fun frames => ∀ f ∈ frames, f.name.Within good := by
  unfold Store.frames
  rw [h.elements_stackOf]
  refine ends_mapM fun v hv => ?_
  rcases h.listed v hv with hv | ⟨k, name, args, rfl, hk, hname⟩
  · exact (Custody.yields_frameOf hs ((hheld v).2 hv)).mono fun f hf => (hheld f.name).1 hf
  · rw [frameOf (h.fixed_eq _ hk).2.2]
    exact ends_ok hname

end Guards

end Store

/-- Runs keep the list of active calls of an evaluator, and the objects out of reach, as they are. -/
def Discipline.guarded (engine list : Ref) (items : List Value) (fixed : List (Ref × Cell)) : Discipline where
  Stage := Ref → Prop
  custody good :=
    { inv := fun s => s.Guards engine list items fixed good
      held := Value.Within good
      outer := Value.Within good
      exposes := (· ≠ engine)
      immediate := fun v hv => Value.within_immediate hv
      held_of_outer := fun _ h => h
      replaceable := fun _ _ _ _ h => h
      part := fun s r c v hs hr hc hv => hs.enclosed.fields r c (Value.within_ref.1 hr) hc v hv
      captured := fun s r c hs hr hc => by
        cases c with
        | context ctx attrs => exact hs.enclosed.fields r _ (Value.within_ref.1 hr) hc ctx.scope (by simp [Cell.fields, Cell.parts])
        | _ => trivial
      stack := fun s r v attrs hs hr hopen hc => hs.enclosed.stack r v attrs (Value.within_ref.1 hr) hopen hc
      binding := fun s scope key v hs hscope hv => hs.enclosed.lookup? hscope hv
      set := fun s r c c' hs hr hc _ hwrite hfields _ => by
        have hgood := Value.within_ref.1 hr
        refine hs.of_set hgood (hs.enclosed.set hgood hc hwrite hfields) ?_
        rintro rfl
        obtain ⟨attrs, hengine⟩ := hs.engine_eq
        cases hengine.symm.trans hc
        exact hwrite.of_engine
      setStack := fun s r v attrs w hs hr hopen hc hw => by
        have hgood := Value.within_ref.1 hr
        exact hs.of_set hgood (hs.enclosed.setStack hgood hc hw) fun heq => absurd heq hopen }
  fault good e := ∀ frames, e.stack = some frames → ∀ f ∈ frames, f.name.Within good
  plain good e he frames hframes := by
    rw [Raised.stack_of_isPlain he] at hframes
    cases hframes
  le good good' := ∀ r, good r → good' r
  refl _ _ h := h
  trans h h' r hr := h' r (h r hr)
  mono h hv := hv.mono h
  outer_mono h hv := hv.mono h
  exposed _ h := h
  alloc good s c hs hc _ := ⟨_, fun _ => .inl, hs.alloc hc, fun _ => Value.within_ref.2 (.inr rfl)⟩
  scopes good s v hs hv := by
    have hdict := hs.alloc (c := .dict []) (by simp [Cell.contents, Cell.parts, Entries.parts])
    have hscope := hdict.alloc (c := .scope (.ref s.next) v) (by
      simp only [Cell.contents, List.forall_mem_cons, List.not_mem_nil, false_implies, implies_true, and_true]
      have hv' : v.Within good := hv.elim (fun hnull => hnull ▸ Value.within_immediate (by simp)) id
      exact ⟨Value.within_ref.2 (.inr rfl), hv'.mono fun _ => .inl⟩)
    exact ⟨_, fun r hr => .inl (.inl hr), hscope, Value.within_ref.2 (.inr rfl)⟩

theorem Discipline.rulesHost_guarded (engine list : Ref) (items : List Value) (fixed : List (Ref × Cell)) :
    (guarded engine list items fixed).RulesHost := fun _ _ => Iff.rfl

/-! ## Calls -/

/-- The error that leaves a call, with the active calls recorded if it has no record yet. -/
def Store.recorded (s : Store) (engine : Ref) (e : Raised) : Raised :=
  if e.awaitsStack then
    match s.frames engine with
    | .ok frames => { e with stack := some frames }
    | .error e => e
  else e

section Calls

variable {engine : Ref} {f args receiver name : Value} {st : State}

theorem callLabel_cases (f name : Value) (st : State) :
    (∃ e, callLabel f name st = .raised e st ∧ e.stack = none) ∨
      ∃ label, callLabel f name st = .value label st ∧ (label = name ∨ ∃ t, label = .text t) := by
  unfold callLabel
  rw [store_bind]
  by_cases htrue : st.store.isTrue name = true
  · rw [if_pos htrue]
    exact .inr ⟨name, rfl, .inl rfl⟩
  · rw [if_neg htrue]
    cases hprint : st.store.print f with
    | error e =>
      refine .inl ⟨e, bind_of_raised ?_, Raised.stack_of_isPlain ((st.store.plain_print f).error e hprint)⟩
      simp only [ask, hprint]
    | ok t =>
      refine .inr ⟨.text t, bind_of_value (a := t) ?_, .inr ⟨t, rfl⟩⟩
      simp only [ask, hprint]

theorem Store.stack_of_pushFrame {s : Store} {e : Raised} (h : s.pushFrame engine name args = .error e) : e.stack = none := by
  unfold pushFrame updateStack at h
  dsimp only at h
  split at h
  · cases h
  · cases h
    rfl

/-- The state with a line in the trace if tracing is on. -/
def State.traced (st : State) (line : String) : State :=
  if st.tracing then { st with trace := st.trace.push line } else st

theorem State.store_traced (st : State) (line : String) : (st.traced line).store = st.store := by
  unfold traced
  split <;> rfl

theorem trace_eq_value (line : String) (st : State) : trace line st = .value () (st.traced line) := rfl

/-- How a call becomes active, or does not. -/
theorem openCall_cases (engine : Ref) (f args receiver name : Value) (st : State) :
    (∃ e st', openCall engine f args receiver name st = .raised e st' ∧ st'.store = st.store ∧ e.stack = none) ∨
    ∃ label values this st', openCall engine f args receiver name st = .value (values, this) st' ∧
      callLabel f name st = .value label st ∧ (label = name ∨ ∃ t, label = .text t) ∧ st.store.sizedElements args = .ok values ∧
      st.store.pushFrame engine label args = .ok st'.store ∧ (this = none ∨ this = some receiver) := by
  unfold openCall
  rcases callLabel_cases f name st with ⟨e, hlabel, he⟩ | ⟨label, hlabel, hname⟩
  · exact .inl ⟨e, st, bind_of_raised hlabel, rfl, he⟩
  rw [bind_of_value hlabel, store_bind]
  cases hvalues : st.store.sizedElements args with
  | error e =>
    refine .inl ⟨e, st, bind_of_raised ?_, rfl, ?_⟩
    · simp only [ask, hvalues]
    · unfold Store.sizedElements at hvalues
      split at hvalues <;> cases hvalues
      rfl
  | ok values =>
    have hask : ask (·.sizedElements args) st = .value values st := by simp only [ask, hvalues]
    rw [bind_of_value hask]
    rw [bind_of_value (trace_eq_value _ st)]
    generalize hst₁ : st.traced _ = st₁
    replace hst₁ : st₁.store = st.store := hst₁ ▸ st.store_traced _
    cases hpush : st.store.pushFrame engine label args with
    | error e =>
      have hchange : change (·.pushFrame engine label args) st₁ = .raised e st₁ := by simp only [change, hst₁, hpush]
      refine .inl ⟨e, st₁, bind_of_raised hchange, hst₁, ?_⟩
      exact Store.stack_of_pushFrame hpush
    | ok s =>
      have hchange : change (·.pushFrame engine label args) st₁ = .value () { st₁ with store := s } := by
        simp only [change, hst₁, hpush]
      rw [bind_of_value hchange, store_bind]
      refine .inr ⟨label, values, _, _, rfl, hlabel, hname, rfl, hpush, ?_⟩
      split
      · exact .inr rfl
      · exact .inl rfl

theorem recordOutcome_eq (engine : Ref) (outcome : Except Raised Value) (st : State) :
    recordOutcome engine outcome st = .value (outcome.mapError (st.store.recorded engine)) st := by
  cases outcome with
  | ok v => rfl
  | error e =>
    have hrecord : (recordCalls engine e >>= fun e => (raise e : Effect Value)) st =
        .raised (st.store.recorded engine e) st := by
      unfold recordCalls Store.recorded
      by_cases hawaits : e.awaitsStack = true
      · rw [if_pos hawaits, if_pos hawaits]
        cases hframes : st.store.frames engine with
        | ok frames =>
          have hask : ask (·.frames engine) st = .value frames st := by simp only [ask, hframes]
          exact bind_of_value (bind_of_value hask)
        | error e' =>
          have hask : ask (·.frames engine) st = .raised e' st := by simp only [ask, hframes]
          exact bind_of_raised (bind_of_raised hask)
      · rw [if_neg hawaits, if_neg hawaits]
        rfl
    change attempt (recordCalls engine e >>= fun e => (raise e : Effect Value)) st = _
    unfold attempt
    rw [hrecord]
    rfl

/-- How a call ends. -/
theorem closeCall_eq {outcome : Except Raised Value} {s' : Store} (h : st.store.popFrame engine = .ok s') :
    closeCall engine outcome st = match outcome with
      | .ok v => .value v { st with store := s' }
      | .error e => .raised (st.store.recorded engine e) { st with store := s' } := by
  have hchange : change (·.popFrame engine) st = .value () { st with store := s' } := by
    simp only [change, h]
  unfold closeCall
  rw [bind_of_value (recordOutcome_eq engine outcome st), bind_of_value hchange]
  cases outcome <;> rfl

/-- A call that became active applies its function. -/
theorem starts_apply {fuel : Nat} {p : List Value × Option Value} {st₁ : State}
    (h : openCall engine f args receiver name st = .value p st₁) :
    Moment.Starts ⟨fuel, .call engine f args receiver name, st⟩ ⟨fuel, .apply f p.1 p.2, st₁⟩ := by
  refine ⟨⟨⟨fuel, .apply f p.1 p.2, st₁⟩, true⟩, ?_, rfl⟩
  change _ ∈ [] ++ Logged.logAfter _ (openCall engine f args receiver name st)
  rw [h]
  exact List.mem_cons_self

/-- A call starts nothing but what it applies, and catches its error. -/
theorem event_of_call {fuel : Nat} {ev : Event} (hev : ev ∈ Moment.events ⟨fuel, .call engine f args receiver name, st⟩) :
    ∃ p st₁, openCall engine f args receiver name st = .value p st₁ ∧ ev = ⟨⟨fuel, .apply f p.1 p.2, st₁⟩, true⟩ := by
  change ev ∈ [] ++ Logged.logAfter (fun p => Logged.watch fuel (.apply f p.1 p.2) >>= fun outcome =>
    Logged.lift (closeCall engine outcome)) (openCall engine f args receiver name st) at hev
  cases hopen : openCall engine f args receiver name st with
  | value p st₁ =>
    rw [hopen] at hev
    refine ⟨p, st₁, rfl, ?_⟩
    change ev ∈ [⟨⟨fuel, .apply f p.1 p.2, st₁⟩, true⟩] ++ Logged.logAfter (fun outcome => Logged.lift (closeCall engine outcome))
      (attempt (ListScript.apply fuel f p.1 p.2) st₁) at hev
    rcases List.mem_append.1 hev with hev | hev
    · exact List.mem_singleton.1 hev
    · -- what closes a call starts no task
      cases hout : attempt (ListScript.apply fuel f p.1 p.2) st₁ <;> rw [hout] at hev <;> cases hev
  | raised | exhausted => rw [hopen] at hev; cases hev

theorem of_starts_call {fuel : Nat} {m' : Moment} (h : Moment.Starts ⟨fuel, .call engine f args receiver name, st⟩ m') :
    ∃ p st₁, openCall engine f args receiver name st = .value p st₁ ∧ m' = ⟨fuel, .apply f p.1 p.2, st₁⟩ := by
  obtain ⟨ev, hev, rfl⟩ := h
  obtain ⟨p, st₁, hopen, rfl⟩ := event_of_call hev
  exact ⟨p, st₁, hopen, rfl⟩

/-- The state with a new list of arguments. -/
def State.withArguments (st : State) (values : List Value) : State :=
  { st with store := (st.store.alloc (.list values .plain)).2 }

theorem of_starts_invoke {fuel : Nat} {found : Callee} {values : List Value} {m' : Moment}
    (h : Moment.Starts ⟨fuel, .invoke engine found values, st⟩ m') :
    ∃ caller, callerOf engine (st.withArguments values) = .value caller (st.withArguments values) ∧
      m' = ⟨fuel, .call caller found.function (.ref st.store.next) found.receiver found.name, st.withArguments values⟩ := by
  obtain ⟨ev, hev, rfl⟩ := h
  obtain ⟨list, st₁, halloc, hev⟩ := Logged.mem_log_keep hev
  obtain ⟨caller, st₂, hfound, hev⟩ := Logged.mem_log_keep hev
  obtain ⟨rfl, rfl⟩ := extend_eq_value.1 halloc
  obtain ⟨rfl, -⟩ := (looks_callerOf _ _).of_value hfound
  cases List.mem_singleton.1 hev
  exact ⟨caller, hfound, rfl⟩

theorem starts_call {fuel : Nat} {found : Callee} {values : List Value} {caller : Ref}
    (h : callerOf engine (st.withArguments values) = .value caller (st.withArguments values)) :
    Moment.Starts ⟨fuel, .invoke engine found values, st⟩
      ⟨fuel, .call caller found.function (.ref st.store.next) found.receiver found.name, st.withArguments values⟩ := by
  refine ⟨⟨_, false⟩, ?_, rfl⟩
  change _ ∈ [] ++ ([] ++ Logged.logAfter (fun caller => Logged.start fuel _) (callerOf engine (st.withArguments values)))
  rw [h]
  exact List.mem_cons_self

/-- A call expression ends as its call does, if there is an evaluator that makes it. -/
theorem invoke_outcome {fuel : Nat} {found : Callee} {values : List Value} :
    Moment.outcome ⟨fuel, .invoke engine found values, st⟩ =
      (callerOf engine >>= fun caller => call (ListScript.apply fuel) caller found.function (.ref st.store.next)
        found.receiver found.name) (st.withArguments values) := rfl

end Calls

/-! ## Runs -/

/-- The arguments of a call are a list of its own, out of the reach of what it calls. -/
def Task.Lends (engine : Ref) (fixed : List (Ref × Cell)) (good : Ref → Prop) (t : Task) : Prop :=
  ∃ f a values receiver name, t = .call engine f (.ref a) receiver name ∧ (a, .list values .plain) ∈ fixed ∧
    ∀ v ∈ .ref engine :: f :: receiver :: name :: values, v.Within good

/-- What a task starts with is in a set, but maybe for the list of arguments of a call. -/
def Task.Fits (engine : Ref) (fixed : List (Ref × Cell)) (good : Ref → Prop) (t : Task) : Prop :=
  (∀ v ∈ t.values, v.Within good) ∨ t.Lends engine fixed good

/-- Whatever the active calls are when a task starts, they are the same when it ends. -/
def Moment.Restores (engine list : Ref) (m : Moment) : Prop :=
  ∀ items fixed good, m.state.store.Guards engine list items fixed good → m.task.Fits engine fixed good →
    (Discipline.guarded engine list items fixed).Allows good (Discipline.guarded engine list items fixed).Held m.outcome

/-- The paths of a moment do not lead to the list of active calls of an evaluator. -/
def Moment.Spares (engine : Ref) (m : Moment) : Prop :=
  ∀ u ∈ m.visits, u.container = .ref engine → u.segment ≠ .name "call_stack"

section Runs

variable {engine list : Ref} {items : List Value} {fixed : List (Ref × Cell)} {good : Ref → Prop} {fuel : Nat}
  {f args receiver name : Value} {st : State} {m m' : Moment}

/-- What a call hands on is in the set. -/
theorem within_of_fits (hs : st.store.Guards engine list items fixed good)
    (h : (Task.call engine f args receiver name).Fits engine fixed good) :
    f.Within good ∧ receiver.Within good ∧ name.Within good ∧
      ∀ values, st.store.sizedElements args = .ok values → ∀ v ∈ values, v.Within good := by
  rcases h with h | ⟨f, a, values, receiver, name, heq, hfixed, h⟩
  · simp only [Task.values, List.forall_mem_cons] at h
    obtain ⟨-, hf, hargs, hr, hname, -⟩ := h
    exact ⟨hf, hr, hname, fun values hvalues =>
      (@Custody.yields_sizedElements ((Discipline.guarded engine list items fixed).custody good) st.store args hs hargs).value
        values hvalues⟩
  · cases heq
    simp only [List.forall_mem_cons] at h
    obtain ⟨-, hf, hr, hname, hvalues⟩ := h
    refine ⟨hf, hr, hname, fun values' hvalues' => ?_⟩
    simp only [Store.sizedElements, Store.elements?, (hs.fixed_eq _ hfixed).2.2] at hvalues'
    cases hvalues'
    exact hvalues

/-- A call that becomes active puts itself on the stack, and what it applies starts with what is in the set. -/
theorem opened_call (hs : st.store.Guards engine list items fixed good)
    (hfits : (Task.call engine f args receiver name).Fits engine fixed good) {p : List Value × Option Value} {st₁ : State}
    (h : openCall engine f args receiver name st = .value p st₁) :
    ∃ label, callLabel f name st = .value label st ∧ st.store.sizedElements args = .ok p.1 ∧
      st₁.store.Guards engine list (items ++ [.ref st.store.next])
        ((st.store.next, Store.frameCell label args) :: fixed) good ∧
      ∀ v ∈ (Task.apply f p.1 p.2).values, v.Within good := by
  obtain ⟨hf, hr, hname, hvalues⟩ := within_of_fits hs hfits
  rcases openCall_cases engine f args receiver name st with
    ⟨e, st', hraised, -⟩ | ⟨label, values, this, st', hopen, hcall, hlabel, hsized, hpush, hthis⟩
  · cases h.symm.trans hraised
  · cases h.symm.trans hopen
    have hwithin : label.Within good := by
      rcases hlabel with rfl | ⟨t, rfl⟩
      · exact hname
      · exact Value.within_immediate (by simp [Value.text])
    obtain ⟨s', hs', hguards⟩ := hs.pushFrame hwithin args
    cases hpush.symm.trans hs'
    refine ⟨label, hcall, hsized, hguards, List.forall_mem_cons.2 ⟨hf, fun v hv => ?_⟩⟩
    rcases List.mem_append.1 hv with hv | hv
    · rcases hthis with rfl | rfl
      · cases hv
      · cases List.mem_singleton.1 hv
        exact hr
    · exact hvalues values hsized v hv

/-- The names in the record of an error that leaves a call are in the set. -/
theorem named_recorded {e : Raised} (hs : st.store.Guards engine list items fixed good)
    (he : (Discipline.guarded engine list items fixed).fault good e) :
    (Discipline.guarded engine list items fixed).fault good (st.store.recorded engine e) := by
  have hframes := hs.yields_frames (C := (Discipline.guarded engine list items fixed).custody good) hs fun _ => Iff.rfl
  unfold Store.recorded
  split
  · cases h : st.store.frames engine with
    | ok frames =>
      rintro frames' ⟨⟩
      exact hframes.value frames h
    | error e' =>
      intro frames' hframes'
      rw [hframes.error e' h] at hframes'
      cases hframes'
  · exact he

/-- A call restores the stack if what it applies does. -/
theorem restores_call (hsub : ∀ m', Moment.Starts ⟨fuel, .call engine f args receiver name, st⟩ m' → m'.Restores engine list) :
    Moment.Restores engine list ⟨fuel, .call engine f args receiver name, st⟩ := by
  intro items fixed good hs hfits
  change (Discipline.guarded engine list items fixed).Allows good _ (call (ListScript.apply fuel) engine f args receiver name st)
  rw [call_eq]
  rcases openCall_cases engine f args receiver name st with ⟨e, st', hraised, hst', he⟩ | ⟨label, values, this, st₁, hopen, -⟩
  · rw [bind_of_raised hraised]
    refine ⟨good, fun _ => id, hst' ▸ hs, fun frames hframes => ?_⟩
    rw [he] at hframes
    cases hframes
  · obtain ⟨label, -, -, hs₁, hvalues⟩ := opened_call hs hfits hopen
    have happly := hsub _ (starts_apply hopen) _ _ good hs₁ (.inl hvalues)
    rw [bind_of_value hopen]
    have hclose : ∀ (outcome : Except Raised Value) (st₂ : State),
        attempt (ListScript.apply fuel f values this) st₁ = .value outcome st₂ →
        (attempt (ListScript.apply fuel f values this) >>= closeCall engine) st₁ = closeCall engine outcome st₂ :=
      fun _ _ h => bind_of_value h
    have hback : ∀ {good' : Ref → Prop} {s : Store}, (∀ r, good r → good' r) →
        s.Guards engine list (items ++ [.ref st.store.next]) ((st.store.next, Store.frameCell label args) :: fixed) good' →
        ∃ s', s.popFrame engine = .ok s' ∧ s'.Guards engine list items fixed good' := by
      intro good' s hgood h
      obtain ⟨s', hpop, hs'⟩ := h.popFrame
      exact ⟨s', hpop, hs'.weaken hgood (fun _ => List.mem_cons_of_mem _) hs.listed⟩
    cases hout : ListScript.apply fuel f values this st₁ with
    | exhausted =>
      change (Discipline.guarded engine list items fixed).Allows good _ (Effect.bind (attempt _) _ st₁)
      unfold Effect.bind attempt
      rw [hout]
      trivial
    | value v st₂ =>
      have hmoment : (⟨fuel, .apply f values this, st₁⟩ : Moment).outcome = .value v st₂ := hout
      rw [hmoment] at happly
      obtain ⟨good', hgood, hs₂, hv⟩ := happly
      obtain ⟨s', hpop, hs'⟩ := hback hgood hs₂
      rw [hclose (.ok v) st₂ (by unfold attempt; rw [hout]), closeCall_eq hpop]
      exact ⟨good', hgood, hs', hv⟩
    | raised e st₂ =>
      have hmoment : (⟨fuel, .apply f values this, st₁⟩ : Moment).outcome = .raised e st₂ := hout
      rw [hmoment] at happly
      obtain ⟨good', hgood, hs₂, he⟩ := happly
      obtain ⟨s', hpop, hs'⟩ := hback hgood hs₂
      have hfault := named_recorded hs₂ he
      rw [hclose (.error e) st₂ (by unfold attempt; rw [hout]), closeCall_eq hpop]
      exact ⟨good', hgood, hs', hfault⟩

theorem allows_weaken {fixed' : List (Ref × Cell)} {good' : Ref → Prop} {out : Outcome Value}
    (hs : st.store.Guards engine list items fixed good) (hgood : ∀ r, good r → good' r) (hfixed : ∀ k ∈ fixed, k ∈ fixed')
    (h : (Discipline.guarded engine list items fixed').Allows good' (Discipline.guarded engine list items fixed').Held out) :
    (Discipline.guarded engine list items fixed).Allows good (Discipline.guarded engine list items fixed).Held out := by
  cases out with
  | value v st' | raised e st' =>
    obtain ⟨good₁, hgood₁, hs', hpost⟩ := h
    have hle : ∀ r, good r → good₁ r := fun r hr => hgood₁ r (hgood r hr)
    exact ⟨good₁, hle, Store.Guards.weaken hs' hle hfixed hs.listed, hpost⟩
  | exhausted => trivial

/-- The arguments of a call are out of the reach of what it calls if the evaluator makes the call itself. If another
one makes it, they are like any other object. -/
theorem guards_arguments {found : Callee} {values : List Value} {caller : Ref}
    (hs : st.store.Guards engine list items fixed good)
    (hvalues : ∀ v ∈ .ref engine :: found.function :: found.receiver :: found.name :: values, v.Within good)
    (hcaller : callerOf engine (st.withArguments values) = .value caller (st.withArguments values)) :
    ∃ fixed' good', (∀ r, good r → good' r) ∧ (∀ k ∈ fixed, k ∈ fixed') ∧
      (st.withArguments values).store.Guards engine list items fixed' good' ∧
      (Task.call caller found.function (.ref st.store.next) found.receiver found.name).Fits engine fixed' good' := by
  by_cases hself : caller = engine
  · subst hself
    exact ⟨_, good, fun _ => id, fun _ => List.mem_cons_of_mem _, hs.alloc_out (.list values .plain),
      .inr ⟨_, _, values, _, _, rfl, List.mem_cons_self, hvalues⟩⟩
  · obtain ⟨he, hf, hr, hname, hrest⟩ : _ ∧ _ ∧ _ ∧ _ ∧ ∀ v ∈ values, v.Within good := by
      simpa only [List.forall_mem_cons] using hvalues
    have hs' := hs.alloc (c := .list values .plain) hrest
    have hmono : ∀ {v : Value}, v.Within good → v.Within fun r => good r ∨ r = st.store.next :=
      fun hv => hv.mono fun _ => .inl
    obtain hsame | ⟨f, self, hattr, hmethod, hengine⟩ := ((looks_callerOf _ _).of_value hcaller).2
    · exact absurd hsame hself
    have hmethod' := hs'.enclosed.hiddenAttribute? (hmono he) (by decide) hattr
    have hcaller' : (Value.ref caller).Within fun r => good r ∨ r = st.store.next := by
      rw [← Store.eq_ref_of_engine? hengine]
      exact hs'.enclosed.cell? hmethod' hmethod self List.mem_cons_self
    refine ⟨fixed, _, fun _ => .inl, fun _ => id, hs', .inl ?_⟩
    simp only [Task.values, List.forall_mem_cons]
    exact ⟨hcaller', hmono hf, Value.within_ref.2 (.inr rfl), hmono hr, hmono hname, fun _ h => absurd h List.not_mem_nil⟩

/-- A call expression restores the stack if the call does. -/
theorem restores_invoke {found : Callee} {values : List Value}
    (hsub : ∀ m', Moment.Starts ⟨fuel, .invoke engine found values, st⟩ m' → m'.Restores engine list) :
    Moment.Restores engine list ⟨fuel, .invoke engine found values, st⟩ := by
  intro items fixed good hs hfits
  have hvalues : ∀ v ∈ .ref engine :: found.function :: found.receiver :: found.name :: values, v.Within good := by
    rcases hfits with h | ⟨_, _, _, _, _, heq, -⟩
    · exact h
    · cases heq
  rw [invoke_outcome]
  obtain ⟨caller, hcaller, -⟩ | ⟨e, hraised, he⟩ | hexhausted := looks_callerOf engine (st.withArguments values)
  · obtain ⟨fixed', good', hgood, hfixed, hs', hfits'⟩ := guards_arguments hs hvalues hcaller
    have hcall := hsub _ (starts_call hcaller) items fixed' good' hs' hfits'
    rw [bind_of_value hcaller]
    exact (allows_weaken hs hgood hfixed hcall)
  · rw [bind_of_raised hraised]
    refine ⟨good, fun _ => id, (hs.alloc_out _).weaken (fun _ => id) (fun _ => List.mem_cons_of_mem _) hs.listed, ?_⟩
    intro frames hframes
    rw [he] at hframes
    cases hframes
  · change (Discipline.guarded engine list items fixed).Allows good _ (Effect.bind _ _ _)
    unfold Effect.bind
    rw [hexhausted]
    trivial

theorem lawful_of_spares (h : m.Spares engine) (hcall : ∀ f args receiver name, m.task ≠ .call engine f args receiver name)
    (items : List Value) (fixed : List (Ref × Cell)) : (Discipline.guarded engine list items fixed).Lawful m where
  permits good hs hm := by
    refine Discipline.later_self hs ⟨fun u hu r hr hsegment heq => ?_, fun path v ctx htask =>
      ⟨fun _ _ _ _ => trivial, fun u _ _ _ _ _ => ?_⟩⟩
    · exact h u hu (heq ▸ hr) hsegment
    · rw [htask] at hm
      exact hm.1 v (by simp [Task.values])
  exposes good _ _ engine' f args receiver name htask heq := hcall f args receiver name (heq ▸ htask)

theorem ready_of_within {t : Task} (h : ∀ v ∈ t.values, v.Within good) :
    (Discipline.guarded engine list items fixed).Ready good t := by
  refine ⟨h, fun ctx hctx => h _ ?_⟩
  cases t <;> cases hctx <;> simp [Task.values]

/-- Every run restores the stack that follows no path to it. -/
theorem restores_of_spares (h : ∀ m', m.Reaches m' → m'.Spares engine) : m.Restores engine list := by
  induction hw : m.weight using Nat.strongRecOn generalizing m with
  | ind w ih =>
    have hsub : ∀ m', m.Starts m' → m'.Restores engine list := fun m' hm' =>
      ih m'.weight (hw ▸ hm'.weight_lt) (fun m'' hm'' => h m'' (.head hm' hm'')) rfl
    by_cases hcall : ∃ f args receiver name, m.task = .call engine f args receiver name
    · obtain ⟨fuel, task, st⟩ := m
      obtain ⟨f, args, receiver, name, rfl⟩ := hcall
      exact restores_call hsub
    by_cases hinvoke : ∃ found values, m.task = .invoke engine found values
    · obtain ⟨fuel, task, st⟩ := m
      obtain ⟨found, values, rfl⟩ := hinvoke
      exact restores_invoke hsub
    intro items fixed good hs hfits
    have hcall' : ∀ f args receiver name, m.task ≠ .call engine f args receiver name :=
      fun f args receiver name htask => hcall ⟨f, args, receiver, name, htask⟩
    rcases hfits with hvalues | ⟨f, a, values, receiver, name, htask, -⟩
    · refine Discipline.good_of_lawful (Discipline.rulesHost_guarded engine list items fixed)
        (lawful_of_spares (h m .refl) hcall' items fixed) (fun m' hm' good' hs' hm => ?_) good hs (ready_of_within hvalues)
      exact hsub m' hm' items fixed good' hs' (.inl hm.1)
    · exact absurd htask (hcall' f _ receiver name)

/-- A run that restores the stack under guard has it when it ends. -/
theorem Moment.Restores.guards (h : m.Restores engine list) (hs : m.state.store.Guards engine list items fixed good)
    (hfits : m.task.Fits engine fixed good) (hst : m.outcome.state? = some st) :
    ∃ good', st.store.Guards engine list items fixed good' := by
  have hallows := h items fixed good hs hfits
  cases hout : m.outcome with
  | value v st' | raised e st' =>
    rw [hout] at hallows hst
    cases hst
    obtain ⟨good', -, hs', -⟩ := hallows
    exact ⟨good', hs'⟩
  | exhausted => rw [hout] at hst; cases hst

/-- What a task starts is under guard as well, with the same calls active, unless it is what a call applies. -/
theorem guards_of_starts (h : ∀ m', m.Reaches m' → m'.Spares engine) (hm : m.Starts m')
    (hs : m.state.store.Guards engine list items fixed good) (hfits : m.task.Fits engine fixed good) :
    ∃ items' fixed' good', m'.state.store.Guards engine list items' fixed' good' ∧ m'.task.Fits engine fixed' good' ∧
      (∀ k ∈ fixed, k ∈ fixed') ∧
      ((∀ f args receiver name, m.task ≠ .call engine f args receiver name) → items' = items) := by
  by_cases hcall : ∃ f args receiver name, m.task = .call engine f args receiver name
  · obtain ⟨fuel, task, st⟩ := m
    obtain ⟨f, args, receiver, name, rfl⟩ := hcall
    obtain ⟨p, st₁, hopen, rfl⟩ := of_starts_call hm
    obtain ⟨label, -, -, hs₁, hvalues⟩ := opened_call hs hfits hopen
    exact ⟨_, _, good, hs₁, .inl hvalues, fun _ => List.mem_cons_of_mem _, fun hne => absurd rfl (hne f args receiver name)⟩
  have hcall' : ∀ f args receiver name, m.task ≠ .call engine f args receiver name :=
    fun f args receiver name htask => hcall ⟨f, args, receiver, name, htask⟩
  have hvalues : ∀ v ∈ m.task.values, v.Within good := by
    rcases hfits with hvalues | ⟨f, a, values, receiver, name, htask, -⟩
    · exact hvalues
    · exact absurd htask (hcall' f _ receiver name)
  by_cases hinvoke : ∃ found values, m.task = .invoke engine found values
  · obtain ⟨fuel, task, st⟩ := m
    obtain ⟨found, values, rfl⟩ := hinvoke
    obtain ⟨caller, hcaller, rfl⟩ := of_starts_invoke hm
    obtain ⟨fixed', good', -, hfixed, hs', hfits'⟩ := guards_arguments hs hvalues hcaller
    exact ⟨items, fixed', good', hs', hfits', hfixed, fun _ => rfl⟩
  · have hconforms := Discipline.conforms_of_lawful (Discipline.rulesHost_guarded engine list items fixed)
      (lawful_of_spares (h m .refl) hcall' items fixed) hm hs (ready_of_within hvalues)
    have hgood : ∀ m', m.Starts m' → (Discipline.guarded engine list items fixed).Good m' := fun m' hm' good' hs' hready =>
      restores_of_spares (fun m'' hm'' => h m'' (.head hm' hm'')) items fixed good' hs' (.inl hready.1)
    obtain ⟨-, good', hle, hs', hready⟩ := Discipline.later_of_starts hconforms hs hgood hm
    exact ⟨items, fixed, good', hs', .inl hready.1, fun _ => id, fun _ => rfl⟩

end Runs

end ListScript
