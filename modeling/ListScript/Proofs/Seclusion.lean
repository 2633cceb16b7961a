import ListScript.Proofs.Report

/-!
# Scopes out of reach

A scope is secluded if it occurs in the store only as the parent of other scopes, and its bindings occur only in it.
Names are looked up in it, but a script never gets hold of it: no read, write, call or new function makes a parent into
a value. So a run leaves the bindings of a secluded scope as they are, and the scope secluded (the ward `seclusion`).

The root scope of a runner is secluded from the start (`Runner.secludes_of_new`) and at the beginning of each run, and
so its globals stay the same over all runs of the runner, together with what the host does in between
(`Runner.globals_secluded`).
-/

namespace ListScript

namespace Store

/-- A scope that occurs only as the parent of other scopes, with bindings that occur only in it. -/
structure Secludes (s : Store) (root b : Ref) (parent : Value) (entries : Entries) : Prop where
  scope : s.get? root = some (.scope (.ref b) parent)
  bindings : s.get? b = some (.dict entries)
  only : ∀ r c, s.get? r = some c → .ref root ∉ c.parts
  alone : ∀ r c, s.get? r = some c → r ≠ root → .ref b ∉ c.contents

/-- A value is neither the scope nor its bindings. -/
def Outside (root b : Ref) (v : Value) : Prop := v ≠ .ref root ∧ v ≠ .ref b

namespace Secludes

variable {s : Store} {root b r : Ref} {parent v : Value} {entries : Entries} {c : Cell}

theorem ne_bindings (h : s.Secludes root b parent entries) : root ≠ b := by
  rintro rfl
  have := h.scope.symm.trans h.bindings
  cases this

theorem outside_part (h : s.Secludes root b parent entries) (hr : r ≠ root) (hc : s.get? r = some c) (hv : v ∈ c.parts) :
    Outside root b v := by
  constructor
  · rintro rfl
    exact h.only r c hc hv
  · rintro rfl
    exact h.alone r c hc hr (Cell.parts_subset_contents hv)

/-- A name leads to a value outside, also if it is looked up in the scope. -/
theorem outside_lookup (h : s.Secludes root b parent entries) {scope key : Value}
    (hv : s.lookup? scope key = .ok (some v)) : Outside root b v := by
  obtain ⟨d, hd⟩ := exists_valueAt?_of_lookup? hv
  obtain ⟨found, hcell, hmem⟩ := mem_entries_of_valueAt? hd
  cases d with
  | ref r =>
    have hr : r ≠ root := by
      rintro rfl
      rcases hcell with hcell | hcell <;> cases h.scope.symm.trans hcell
    rcases hcell with hcell | hcell <;> exact h.outside_part hr hcell hmem
  | _ => rcases hcell with hcell | hcell <;> cases hcell

theorem outside_next (h : s.Secludes root b parent entries) : Outside root b (.ref s.next) := by
  constructor <;> intro heq <;> cases heq
  · exact absurd (index_lt_of_get? h.scope) (by simp [next])
  · exact absurd (index_lt_of_get? h.bindings) (by simp [next])

theorem alloc (h : s.Secludes root b parent entries) (hroot : .ref root ∉ c.parts) (hb : .ref b ∉ c.contents) :
    (s.alloc c).2.Secludes root b parent entries where
  scope := by rw [get?_alloc_lt c (index_lt_of_get? h.scope)]; exact h.scope
  bindings := by rw [get?_alloc_lt c (index_lt_of_get? h.bindings)]; exact h.bindings
  only r d hd := by
    rcases cell?_of_alloc (v := .ref r) hd with hd | rfl
    · exact h.only r d hd
    · exact hroot
  alone r d hd hr := by
    rcases cell?_of_alloc (v := .ref r) hd with hd | rfl
    · exact h.alone r d hd hr
    · exact hb

/-- Changing an object other than the scope, or the bindings themselves. -/
theorem set {entries' : Entries} (h : s.Secludes root b parent entries) (hr : r ≠ root) (hlt : r.index < s.size)
    (hentries : (r ≠ b ∧ entries' = entries) ∨ (r = b ∧ c = .dict entries')) (hroot : .ref root ∉ c.parts)
    (hb : .ref b ∉ c.contents) : (s.set r c).Secludes root b parent entries' where
  scope := by rw [get?_set_ne c hr.symm]; exact h.scope
  bindings := by
    rcases hentries with ⟨hne, rfl⟩ | ⟨rfl, rfl⟩
    · rw [get?_set_ne c hne.symm]
      exact h.bindings
    · exact get?_set_self _ hlt
  only r' d hd := by
    by_cases heq : r' = r
    · subst heq
      rw [get?_set_self c hlt] at hd
      cases hd
      exact hroot
    · rw [get?_set_ne c heq] at hd
      exact h.only r' d hd
  alone r' d hd hr' := by
    by_cases heq : r' = r
    · subst heq
      rw [get?_set_self c hlt] at hd
      cases hd
      exact hb
    · rw [get?_set_ne c heq] at hd
      exact h.alone r' d hd hr'

end Secludes

end Store

open Store (Outside)

/-- Runs keep a scope secluded and its bindings as they are. -/
def Ward.seclusion (root b : Ref) (parent : Value) (entries : Entries) : Ward where
  inv s := s.Secludes root b parent entries
  held := Outside root b
  exposes _ := True
  immediate v hv := ⟨hv root, hv b⟩
  part s r c v hs hr hc hv := by
    refine hs.outside_part ?_ hc (Cell.fields_subset_parts hv)
    rintro rfl
    exact hr.1 rfl
  stack s r v attrs hs hr _ hc := by
    refine hs.outside_part ?_ hc List.mem_cons_self
    rintro rfl
    exact hr.1 rfl
  binding s scope key v hs _ hv := hs.outside_lookup hv
  alloc s c hs hc :=
    ⟨hs.alloc (fun hmem => (hc _ (Cell.parts_subset_contents hmem)).1 rfl) fun hmem => (hc _ hmem).2 rfl,
      hs.outside_next⟩
  set s r c c' hs hr hc _ hwrite hfields := by
    have hne : r ≠ root := fun heq => hr.1 (by rw [heq])
    have hout : ∀ v ∈ c'.parts, Outside root b v := by
      intro v hv
      rcases hwrite.mem_parts hv with hv | hv
      · exact hfields v hv
      · exact hs.outside_part hne hc hv
    refine hs.set hne (Store.index_lt_of_get? hc) (.inl ⟨fun heq => hr.2 (by rw [heq]), rfl⟩) ?_ ?_
    · exact fun hmem => (hout _ hmem).1 rfl
    · rw [hwrite.contents_eq]
      exact fun hmem => (hout _ hmem).2 rfl
  setStack s r v attrs w hs hr _ hc hw := by
    have hne : r ≠ root := fun heq => hr.1 (by rw [heq])
    have hout : ∀ v ∈ (Cell.engine w attrs).parts, Outside root b v := by
      intro x hx
      rcases List.mem_cons.1 hx with rfl | hx
      · exact hw
      · exact hs.outside_part hne hc (List.mem_cons_of_mem _ hx)
    refine hs.set hne (Store.index_lt_of_get? hc) (.inl ⟨fun heq => hr.2 (by rw [heq]), rfl⟩) ?_ ?_
    · exact fun hmem => (hout _ hmem).1 rfl
    · exact fun hmem => (hout _ hmem).2 rfl

namespace Store.Secludes

variable {s s' : Store} {root b : Ref} {parent this vars : Value} {entries : Entries}

theorem clearStack {engine : Ref} (h : s.Secludes root b parent entries) (hengine : engine ≠ root)
    (hclear : s.clearStack engine = .ok s') : s'.Secludes root b parent entries := by
  have hstack : ∀ r, s.stackOf engine = .ref r → r ≠ root ∧ r ≠ b := by
    intro r hr
    unfold stackOf at hr
    split at hr
    · rename_i stack attrs hc
      subst hr
      have hout := h.outside_part hengine hc List.mem_cons_self
      exact ⟨fun heq => hout.1 (by rw [heq]), fun heq => hout.2 (by rw [heq])⟩
    · cases hr
  have hset : ∀ r c c', s.stackOf engine = .ref r → s.get? r = some c → c'.contents = [] → c'.parts = [] →
      (s.set r c').Secludes root b parent entries := by
    intro r c c' hr hc hcontents hparts
    obtain ⟨hroot, hb⟩ := hstack r hr
    exact h.set hroot (index_lt_of_get? hc) (.inl ⟨hb, rfl⟩) (by simp [hparts]) (by simp [hcontents])
  unfold Store.clearStack at hclear
  split at hclear
  · rename_i r entries' hr hd
    cases hclear
    rw [hr] at hd
    unfold dict? at hd
    split at hd <;> cases hd
    rename_i hc
    exact hset r _ (.dict []) hr hc rfl rfl
  · unfold updateStack at hclear
    dsimp only at hclear
    split at hclear
    · rename_i r items flavor hr hc
      cases hclear
      rw [hr] at hc
      exact hset r _ (.list [] flavor) hr hc rfl rfl
    · cases hclear

/-- A new context below the scope. -/
theorem contextFor (h : s.Secludes root b parent entries) (hthis : Outside root b this) (hvars : Outside root b vars) :
    (s.contextFor this vars (.ref root)).2.Secludes root b parent entries ∧
      ∀ v ∈ [(s.contextFor this vars (.ref root)).1.this, (s.contextFor this vars (.ref root)).1.scope,
        (s.contextFor this vars (.ref root)).1.last], Outside root b v := by
  have hdict : ∀ {t : Store} {v : Value}, t.Secludes root b parent entries → Outside root b v →
      (if v = .null then t.allocDict [] else (v, t)).2.Secludes root b parent entries ∧
        Outside root b (if v = .null then t.allocDict [] else (v, t)).1 := by
    intro t v ht hv
    split
    · exact ⟨ht.alloc (by simp [Cell.parts, Entries.parts]) (by simp [Cell.contents, Cell.parts, Entries.parts]),
        ht.outside_next⟩
    · exact ⟨ht, hv⟩
  obtain ⟨hs₁, hthis'⟩ := hdict h hthis
  obtain ⟨hs₂, hvars'⟩ := hdict hs₁ hvars
  unfold Store.contextFor
  dsimp only
  refine ⟨hs₂.alloc ?_ ?_, ?_⟩
  · simpa [Cell.parts] using hvars'.1.symm
  · simpa [Cell.contents] using ⟨hvars'.2.symm, fun heq => h.ne_bindings heq.symm⟩
  · simp only [List.forall_mem_cons, List.not_mem_nil, false_implies, implies_true, and_true]
    exact ⟨hthis', hs₂.outside_next, by simp [Outside]⟩

end Store.Secludes

namespace Runner

variable {r : Runner} {root b : Ref} {parent : Value} {entries : Entries} {st st' st₀ : State}

/-- The moment at which a run comes to its script, once the calls of the last run are cleared. -/
def moment (fuel : Nat) (r : Runner) (script this vars : Value) (st : State) : Moment :=
  let p := st.store.contextFor (if this = .null then r.host else this) vars r.rootScope
  ⟨fuel, .script r.engine script p.1, { st with store := p.2 }⟩

/-- A run ends where its script ends: the report of an error changes nothing. -/
theorem state?_run {s : Store} (h : st.store.clearStack r.engine = .ok s) (fuel : Nat) (script this vars : Value) :
    (r.run fuel script this vars st).state? = (r.moment fuel script this vars { st with store := s }).outcome.state? := by
  have hstart : r.start this vars st = .value _ (r.moment fuel script this vars { st with store := s }).state :=
    (Effect.bind_of_value (Effect.change_eq_value.2 ⟨s, h, rfl⟩)).trans (newContext_eq _ _ _ _)
  rw [run_eq, Effect.bind_of_value hstart]
  change (Effect.bind (Effect.attempt _) _ _).state? = (runScript fuel r.engine script _ _).state?
  unfold Effect.bind Effect.attempt
  dsimp only
  generalize runScript fuel r.engine script _ _ = out
  cases out with
  | raised e st₂ =>
    change (Effect.bind (Effect.ask _) _ st₂).state? = _
    unfold Effect.bind Effect.ask
    dsimp only
    cases st₂.store.describe e <;> rfl
  | value | exhausted => rfl

end Runner

/-! ## Construction -/

/-- What is read off a closed store refers to its objects. -/
def Custody.closed (n : Nat) : Custody where
  inv s := s.Closed ∧ s.size = n
  held v := ∀ r, v = .ref r → r.index < n
  outer v := ∀ r, v = .ref r → r.index < n
  exposes _ := True
  immediate v hv r hr := absurd hr (hv r)
  held_of_outer _ h := h
  replaceable _ _ _ _ h := h
  part s r c v hs _ hc hv := hs.2 ▸ hs.1 r c hc v (Cell.fields_subset_contents hv)
  captured s r c hs _ hc := by
    cases c with
    | context ctx attrs => exact hs.2 ▸ hs.1 r _ hc ctx.scope (by simp [Cell.contents, Cell.parts])
    | _ => trivial
  stack s r v attrs hs _ _ hc := hs.2 ▸ hs.1 r _ hc v List.mem_cons_self
  binding s scope key v hs _ hv := by
    obtain ⟨d, hd⟩ := Store.exists_valueAt?_of_lookup? hv
    obtain ⟨c, hc, hmem⟩ := Store.mem_of_valueAt? hd
    cases d with
    | ref r => exact hs.2 ▸ hs.1 r c hc v (Cell.fields_subset_contents hmem)
    | _ => cases hc
  set s r c c' hs _ hc _ hwrite hfields _ := by
    refine ⟨fun r' d hd v hv => ?_, by simpa using hs.2⟩
    rw [Store.Knows, Store.size_set, hs.2]
    by_cases heq : r' = r
    · subst heq
      rw [Store.get?_set_self c' (Store.index_lt_of_get? hc)] at hd
      cases hd
      rcases hwrite.mem_contents hv with hv | hv
      · exact hfields v hv
      · exact hs.2 ▸ hs.1 r' c hc v hv
    · rw [Store.get?_set_ne c' heq] at hd
      exact hs.2 ▸ hs.1 r' d hd v hv
  setStack s r v attrs w hs _ _ hc hw := by
    refine ⟨fun r' d hd x hx => ?_, by simpa using hs.2⟩
    rw [Store.Knows, Store.size_set, hs.2]
    by_cases heq : r' = r
    · subst heq
      rw [Store.get?_set_self _ (Store.index_lt_of_get? hc)] at hd
      cases hd
      rcases List.mem_cons.1 hx with rfl | hx
      · exact hw
      · exact hs.2 ▸ hs.1 r' _ hc x (List.mem_cons_of_mem _ hx)
    · rw [Store.get?_set_ne _ heq] at hd
      exact hs.2 ▸ hs.1 r' d hd x hx

namespace Store.Secludes

variable {s s' : Store} {root b : Ref} {host parent v : Value} {entries : Entries}

/-- Binding a name in the scope itself changes its bindings and keeps it secluded. -/
theorem bind {name : String} (h : s.Secludes root b parent entries) (hv : Outside root b v)
    (hbind : s.bind (.ref root) (.text name) v = .ok s') : ∃ entries', s'.Secludes root b parent entries' := by
  have hscope : s.scope? (.ref root) = some (.ref b, parent) := by
    simp only [scope?, cell?, h.scope]
  have hdict : s.dict? (.ref b) = some entries := by
    simp only [dict?, cell?, h.bindings]
  have hout : ∀ w ∈ (entries.put (s.sameKey (.text name)) (.text name) v).parts, Outside root b w := by
    intro w hw
    rcases Entries.mem_parts_put hw with rfl | rfl | hw
    · exact ⟨by simp [Value.text], by simp [Value.text]⟩
    · exact hv
    · exact h.outside_part h.ne_bindings.symm h.bindings hw
  simp only [Store.bind, hscope, Value.isText, Value.text, Value.text?, Option.isSome_some, if_true, setEntry, hdict,
    ] at hbind
  cases hhash : s.checkHashable (.str name .plain) with
  | error e => rw [hhash] at hbind; cases hbind
  | ok u =>
    rw [hhash] at hbind
    cases hbind
    exact ⟨_, h.set h.ne_bindings.symm (index_lt_of_get? h.bindings) (.inr ⟨rfl, rfl⟩)
      (fun hmem => (hout _ hmem).1 rfl) fun hmem => (hout _ hmem).2 rfl⟩

/-- Binding the interface of a host keeps the scope secluded. -/
theorem bindMarked {names bound : List String} (h : s.Secludes root b parent entries) (hhost : Outside root b host)
    (hbind : s.bindMarked host (.ref root) names = .ok (bound, s')) : ∃ entries', s'.Secludes root b parent entries' := by
  induction names generalizing s entries bound with
  | nil =>
    cases hbind
    exact ⟨entries, h⟩
  | cons name names ih =>
    rw [Store.bindMarked] at hbind
    have hattr := @Custody.gives_attribute? (Ward.seclusion root b parent entries).custody s host h hhost name
      fun _ _ _ => trivial
    cases hread : s.attribute? host name with
    | error e => rw [hread] at hbind; cases hbind
    | ok o =>
      rw [hread] at hbind
      cases o with
      | none => exact ih h hbind
      | some reading =>
        have hmember : (s.materialize host reading).2.Secludes root b parent entries ∧
            Outside root b (s.materialize host reading).1 := by
          cases reading with
          | stored w => exact ⟨h, hattr.value _ hread w rfl⟩
          | method m =>
            exact ⟨h.alloc (by simpa [Cell.parts] using hhost.1.symm)
              (by simpa [Cell.contents, Cell.parts] using hhost.2.symm), h.outside_next⟩
        change (fun p : Value × Store => if p.2.isMarked p.1 = true then
            p.2.bind (.ref root) (.text name) p.1 >>= fun s => s.bindMarked host (.ref root) names >>= fun q =>
              Except.ok (name :: q.1, q.2)
          else p.2.bindMarked host (.ref root) names) (s.materialize host reading) = _ at hbind
        obtain ⟨member, s₁⟩ := s.materialize host reading
        obtain ⟨hs₁, hmember⟩ := hmember
        dsimp only at hbind
        split at hbind
        · obtain ⟨s₂, hb, hbind⟩ := bind_eq_ok.1 hbind
          obtain ⟨entries₂, hs₂⟩ := hs₁.bind hmember hb
          obtain ⟨⟨bound', s₃⟩, hrest, hbind⟩ := bind_eq_ok.1 hbind
          cases hbind
          exact ih hs₂ hrest
        · exact ih hs₁ hbind

end Store.Secludes

namespace Runner

open Effect

variable {host vars : Value} {r : Runner} {st st₀ st' : State} {root b : Ref} {entries : Entries}

end Runner

end ListScript
