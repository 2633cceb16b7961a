import ListScript.Proofs.Field
import ListScript.Proofs.Fuel
import ListScript.Proofs.Ward

/-!
# What a run cannot reach, it does not change

A run gets hold of the objects that can be reached from its script, its context and its evaluator, and of those it
makes. Every other object is left as it is, whether the run ends with a value or with an error (`Evaluates.get?_eq`).
This is the ward `region`; the ward `kinds` says that lists stay lists, and scopes and dictionaries what they are.
-/

namespace ListScript

namespace Store

/-- The objects that can be reached from some values. -/
inductive Reaches (s : Store) (roots : List Value) : Ref → Prop
  | root {r : Ref} : .ref r ∈ roots → Reaches s roots r
  | inside {r r' : Ref} {c : Cell} : Reaches s roots r → s.get? r = some c → .ref r' ∈ c.contents → Reaches s roots r'

/-- What can be reached from some values can be reached from more. -/
theorem Reaches.mono {s : Store} {roots roots' : List Value} {r : Ref} (h : s.Reaches roots r) (hsub : roots ⊆ roots') :
    s.Reaches roots' r := by
  induction h with
  | root hr => exact .root (hsub hr)
  | inside _ hc hr ih => exact .inside ih hc hr

/-- What can be reached is among some objects if the roots are, and what these hold. -/
theorem Reaches.mem {s : Store} {roots : List Value} {r : Ref} {L : List Ref} (h : s.Reaches roots r)
    (hroots : ∀ v ∈ roots, ∀ r ∈ v.ref?, r ∈ L)
    (hL : ∀ r ∈ L, ∀ v ∈ ((s.get? r).map Cell.contents).getD [], ∀ r' ∈ v.ref?, r' ∈ L) : r ∈ L := by
  induction h with
  | root hr => exact hroots _ hr _ rfl
  | inside _ hc hr ih => exact hL _ ih _ (by rw [hc]; exact hr) _ rfl

end Store

namespace Ward

/-- The references to objects that can be reached from the roots in a store, or that are not in it yet. -/
def InRegion (s : Store) (roots : List Value) (v : Value) : Prop :=
  ∀ r, v = .ref r → s.Reaches roots r ∨ s.size ≤ r.index

/-- A later store in which the objects of a region refer only to the region, and all others are as they were. -/
structure Confined (s : Store) (roots : List Value) (t : Store) : Prop where
  grows : s.size ≤ t.size
  closed : ∀ r c, InRegion s roots (.ref r) → t.get? r = some c → ∀ v ∈ c.contents, InRegion s roots v
  frame : ∀ r, ¬ InRegion s roots (.ref r) → t.get? r = s.get? r

section Region

variable {s t : Store} {roots : List Value} {v : Value}

theorem confined_self (s : Store) (roots : List Value) : Confined s roots s := by
  refine ⟨Nat.le_refl _, ?_, fun _ _ => rfl⟩
  rintro r c hr hc v hv r' rfl
  rcases hr r rfl with hr | hr
  · exact .inl (.inside hr hc hv)
  · exact absurd (Store.index_lt_of_get? hc) (by omega)

/-- The objects that cannot be reached are as they were. -/
theorem Confined.get?_eq {r : Ref} {c : Cell} (h : Confined s roots t) (hr : ¬ s.Reaches roots r) (hc : s.get? r = some c) :
    t.get? r = some c := by
  rw [h.frame r, hc]
  intro hin
  rcases hin r rfl with hin | hin
  · exact hr hin
  · exact absurd (Store.index_lt_of_get? hc) (by omega)

theorem Confined.cell? {c : Cell} (h : Confined s roots t) (hv : InRegion s roots v) (hc : t.cell? v = some c) :
    ∀ w ∈ c.contents, InRegion s roots w := by
  cases v with
  | ref r => exact h.closed r c hv hc
  | _ => cases hc

theorem Confined.scope? {b p : Value} (h : Confined s roots t) (hv : InRegion s roots v)
    (hscope : t.scope? v = some (b, p)) : InRegion s roots b ∧ InRegion s roots p := by
  rw [Store.scope?_eq] at hscope
  obtain ⟨c, hc, hbp⟩ := Option.bind_eq_some_iff.1 hscope
  have hall := h.cell? hv hc
  cases c with
  | scope bindings parent =>
    cases hbp
    exact ⟨hall b (by simp [Cell.contents]), hall p (by simp [Cell.contents])⟩
  | _ => cases hbp

theorem Confined.hiddenAttribute? {x : Value} {name : String} (h : Confined s roots t) (hv : InRegion s roots v)
    (hx : t.hiddenAttribute? v name = some x) : InRegion s roots x := by
  obtain ⟨c, hc, hstored⟩ := Option.bind_eq_some_iff.1 hx
  exact h.cell? hv hc x (Cell.mem_contents_of_storedAttribute? hstored)

theorem Confined.bindingsOf {b : Value} (h : Confined s roots t) (hv : InRegion s roots v)
    (hb : t.bindingsOf v = .ok b) : InRegion s roots b := by
  obtain ⟨p, hscope⟩ | ⟨-, hattr⟩ := Store.bindingsOf_eq_ok_iff.1 hb
  · exact (h.scope? hv hscope).1
  · exact h.hiddenAttribute? hv hattr

theorem Confined.parentOf {p : Value} (h : Confined s roots t) (hv : InRegion s roots v)
    (hp : t.parentOf v = .ok p) : InRegion s roots p := by
  obtain ⟨b, hscope⟩ | ⟨-, hattr⟩ := Store.parentOf_eq_ok_iff.1 hp
  · exact (h.scope? hv hscope).2
  · exact h.hiddenAttribute? hv hattr

/-- A name leads from a scope of the region, or from what stands in for one, to a value of the region. -/
theorem Confined.lookup? (h : Confined s roots t) {key x : Value} (hv : InRegion s roots v)
    (hx : t.lookup? v key = .ok (some x)) : InRegion s roots x := by
  obtain ⟨_, b, hd, hb, hvalue⟩ := Store.exists_link_of_lookup? (fun _ _ hc hp => h.parentOf hc hp) hv hx
  obtain ⟨c, hc, hmem⟩ := Store.mem_of_valueAt? hvalue
  exact h.cell? (h.bindingsOf hd hb) hc x (Cell.fields_subset_contents hmem)

theorem Confined.alloc {c : Cell} (h : Confined s roots t) (hc : ∀ v ∈ c.contents, InRegion s roots v) :
    Confined s roots (t.alloc c).2 := by
  refine ⟨Nat.le_trans h.grows (by simp), ?_, ?_⟩
  · intro r d hr hd
    by_cases hlt : r.index < t.size
    · rw [Store.get?_alloc_lt c hlt] at hd
      exact h.closed r d hr hd
    · have hnext : r = (t.alloc c).1 := by
        have hle := Store.index_lt_of_get? hd
        rw [Store.size_alloc] at hle
        have hindex : r.index = t.size := by omega
        exact congrArg Ref.mk hindex
      subst hnext
      rw [Store.get?_alloc_self] at hd
      cases hd
      exact hc
  · intro r hr
    have hlt : r.index < t.size := by
      have hgrows := h.grows
      have hold : r.index < s.size := by
        refine Nat.lt_of_not_le fun hle => hr ?_
        rintro r' ⟨⟩
        exact .inr hle
      omega
    rw [Store.get?_alloc_lt c hlt]
    exact h.frame r hr

theorem Confined.set {r : Ref} {c' : Cell} (h : Confined s roots t) (hr : InRegion s roots (.ref r))
    (hlt : r.index < t.size) (hcontents : ∀ v ∈ c'.contents, InRegion s roots v) : Confined s roots (t.set r c') := by
  refine ⟨by simpa using h.grows, ?_, ?_⟩
  · intro r' d hr' hd
    by_cases heq : r' = r
    · subst heq
      rw [Store.get?_set_self c' hlt] at hd
      cases hd
      exact hcontents
    · rw [Store.get?_set_ne c' heq] at hd
      exact h.closed r' d hr' hd
  · intro r' hr'
    have hne : r' ≠ r := by
      rintro rfl
      exact hr' hr
    rw [Store.get?_set_ne c' hne]
    exact h.frame r' hr'

/-- Runs stay in the region of their roots. -/
def region (s : Store) (roots : List Value) : Ward where
  inv := Confined s roots
  held := InRegion s roots
  exposes _ := True
  immediate v hv r hr := absurd hr (hv r)
  part t r c v ht hr hc hv := ht.closed r c hr hc v (Cell.fields_subset_contents hv)
  stack t r v attrs ht hr _ hc := ht.closed r _ hr hc v List.mem_cons_self
  binding t scope key v ht hscope hv := ht.lookup? hscope hv
  alloc t c ht hc := by
    refine ⟨ht.alloc hc, ?_⟩
    rintro r ⟨⟩
    exact .inr ht.grows
  set t r c c' ht hr hc _ hwrite hfields := by
    refine ht.set hr (Store.index_lt_of_get? hc) fun v hv => ?_
    rcases hwrite.mem_contents hv with hv | hv
    · exact hfields v hv
    · exact ht.closed r c hr hc v hv
  setStack t r v attrs w ht hr _ hc hw := by
    refine ht.set hr (Store.index_lt_of_get? hc) fun x hx => ?_
    rcases List.mem_cons.1 hx with rfl | hx
    · exact hw
    · exact ht.closed r _ hr hc x (List.mem_cons_of_mem _ hx)

end Region

section Kinds

variable {s t : Store} {v : Value}

theorem isList_iff : s.isList v = true ↔ ∃ r items flavor, v = .ref r ∧ s.get? r = some (.list items flavor) := by
  constructor
  · intro h
    cases v with
    | ref r =>
      simp only [Store.isList, Store.list?, Store.cell?] at h
      split at h
      · rename_i items flavor hc
        exact ⟨r, items, flavor, rfl, hc⟩
      · cases h
    | _ => cases h
  · rintro ⟨r, items, flavor, rfl, hc⟩
    simp [Store.isList, Store.list?, Store.cell?, hc]

/-- A kind of objects that no change takes an object out of. -/
structure Lasting (kind : Cell → Prop) : Prop where
  rewrites {c c' : Cell} : c.Rewrites c' → kind c → kind c'
  stack {v w : Value} {attrs : Attributes} : kind (.engine v attrs) → kind (.engine w attrs)

theorem lasting_list : Lasting fun c => ∃ items flavor, c = .list items flavor where
  rewrites := by
    rintro _ c' hwrite ⟨items, flavor, rfl⟩
    obtain ⟨items', rfl⟩ := hwrite.list
    exact ⟨items', flavor, rfl⟩
  stack := by rintro v w attrs ⟨_, _, ⟨⟩⟩

theorem lasting_scope : Lasting fun c => ∃ bindings parent, c = .scope bindings parent where
  rewrites := by
    rintro _ c' hwrite ⟨bindings, parent, rfl⟩
    cases hwrite with
    | named h _ => cases h
  stack := by rintro v w attrs ⟨_, _, ⟨⟩⟩

theorem lasting_dict : Lasting fun c => ∃ entries, c = .dict entries where
  rewrites := by
    rintro _ c' hwrite ⟨entries, rfl⟩
    cases hwrite with
    | entry hit key value entries => exact ⟨_, rfl⟩
    | named h _ => cases h
  stack := by rintro v w attrs ⟨_, ⟨⟩⟩

theorem exists_set {kind : Cell → Prop} {r r' : Ref} {c c' d : Cell} (hc : t.get? r = some c) (hkind : kind c → kind c')
    (hd : t.get? r' = some d) (hd' : kind d) : ∃ d', (t.set r c').get? r' = some d' ∧ kind d' := by
  by_cases heq : r' = r
  · subst heq
    cases hc.symm.trans hd
    exact ⟨c', Store.get?_set_self c' (Store.index_lt_of_get? hc), hkind hd'⟩
  · exact ⟨d, by rw [Store.get?_set_ne c' heq, hd], hd'⟩

/-- Objects of a lasting kind stay of that kind. -/
def kinds {kind : Cell → Prop} (hkind : Lasting kind) (s : Store) : Ward where
  inv t := ∀ r c, s.get? r = some c → kind c → ∃ c', t.get? r = some c' ∧ kind c'
  held _ := True
  exposes _ := True
  immediate _ _ := trivial
  part _ _ _ _ _ _ _ _ := trivial
  stack _ _ _ _ _ _ _ _ := trivial
  binding _ _ _ _ _ _ _ := trivial
  alloc t c ht _ := by
    refine ⟨fun r d hd hd' => ?_, trivial⟩
    obtain ⟨d', hd, hd'⟩ := ht r d hd hd'
    exact ⟨d', by rw [Store.get?_alloc_lt c (Store.index_lt_of_get? hd), hd], hd'⟩
  set t r c c' ht _ hc _ hwrite _ := by
    intro r' d hd hd'
    obtain ⟨d', hd, hd'⟩ := ht r' d hd hd'
    exact exists_set hc (hkind.rewrites hwrite) hd hd'
  setStack t r v attrs w ht _ _ hc _ := by
    intro r' d hd hd'
    obtain ⟨d', hd, hd'⟩ := ht r' d hd hd'
    exact exists_set hc hkind.stack hd hd'

end Kinds

end Ward

/-! ## Whole runs -/

open Ward

variable {engine : Ref} {script expression : Value} {ctx : Context} {st st' : State} {out : Outcome Value}

/-- A run leaves an object as it is that cannot be reached from its script, its context and its evaluator. -/
theorem Evaluates.get?_eq (h : Evaluates engine script ctx st out) (hst : out.state? = some st') {r : Ref} {c : Cell}
    (hc : st.store.get? r = some c)
    (hr : ¬ st.store.Reaches [script, ctx.this, ctx.scope, ctx.last, .ref engine] r) : st'.store.get? r = some c := by
  obtain ⟨-, fuel, rfl⟩ := h
  have hroot : ∀ v ∈ (Task.script engine script ctx).values,
      InRegion st.store [script, ctx.this, ctx.scope, ctx.last, .ref engine] v := by
    rintro v hv r rfl
    refine .inl (.root ?_)
    simp only [Task.values, List.mem_cons, List.not_mem_nil, or_false] at hv ⊢
    grind
  have hconfined : Confined st.store [script, ctx.this, ctx.scope, ctx.last, .ref engine] st'.store :=
    @inv_of_state? (region st.store _) ⟨fuel, .script engine script ctx, st⟩ st'
      (fun m' _ => abides_of_exposes (fun _ => trivial) (fun _ => trivial) m') (confined_self st.store _) hroot hst
  exact hconfined.get?_eq hr hc

/-- A run takes no object out of a lasting kind. -/
theorem exists_of_state? {kind : Cell → Prop} (hkind : Lasting kind) {m : Moment} (hst : m.outcome.state? = some st')
    {r : Ref} {c : Cell} (hc : m.state.store.get? r = some c) (hc' : kind c) :
    ∃ c', st'.store.get? r = some c' ∧ kind c' :=
  inv_of_state? (w := kinds hkind m.state.store) (fun m' _ => abides_of_exposes (fun _ => trivial) (fun _ => trivial) m')
    (fun _ c hc hc' => ⟨c, hc, hc'⟩) (fun _ _ => trivial) hst r c hc hc'

/-- An expression leaves lists as lists. -/
theorem Computes.isList {v : Value} (h : Computes engine expression ctx st (.value v st')) {l : Value}
    (hl : st.store.isList l = true) : st'.store.isList l = true := by
  obtain ⟨-, fuel, hfuel⟩ := h
  obtain ⟨r, items, flavor, rfl, hr⟩ := isList_iff.1 hl
  obtain ⟨_, hr', items', flavor', rfl⟩ := exists_of_state? (m := ⟨fuel, .expression engine expression ctx, st⟩)
    lasting_list (congrArg Outcome.state? hfuel) hr ⟨items, flavor, rfl⟩
  exact isList_iff.2 ⟨r, items', flavor', rfl, hr'⟩

end ListScript
