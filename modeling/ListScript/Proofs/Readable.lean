import ListScript.Proofs.Enclosure

/-!
# Reading is never an error

A path that leads nowhere reads as null. The one thing in the interpreter's own hands that could go wrong is the look-up
of a name along the parents of a scope: it fails at a parent that is no scope. The variables of a context become the
parent of new scopes, so all is well as long as the variables of contexts are scopes whose parents are scopes throughout
(`Store.Scoped`). Every step of a run keeps this, but for a write to a context, or to something else that takes part in
the running of scripts. A run without such a write can read all paths wherever it comes to, and no read changes an object
(`Moment.succeeds_read`). If a write gives a captured context something else as its variables, names cannot be read in
the function that captured it (`not_succeeds_read_number`).

Host objects may refuse a read in their own words (`Visit.isRefused`).
-/

namespace ListScript

/-! ## Chains of scopes -/

/-- The objects that a run gets hold of, and the scopes among them. -/
structure Scoping where
  good : Ref → Prop
  chain : Ref → Prop
  good_of_chain : ∀ r, chain r → good r

namespace Scoping

/-- A value is a scope with scopes as its parents. -/
def Outer (i : Scoping) (v : Value) : Prop := ∃ r, v = .ref r ∧ i.chain r

/-- One more object. -/
def add (i : Scoping) (n : Ref) : Scoping :=
  ⟨fun r => i.good r ∨ r = n, i.chain, fun r hr => .inl (i.good_of_chain r hr)⟩

/-- One more scope. -/
def addScope (i : Scoping) (n : Ref) : Scoping :=
  ⟨fun r => i.good r ∨ r = n, fun r => i.chain r ∨ r = n, fun r hr => hr.imp_left (i.good_of_chain r)⟩

/-- All of the one is in the other. -/
def Le (i j : Scoping) : Prop := (∀ r, i.good r → j.good r) ∧ ∀ r, i.chain r → j.chain r

theorem le_add (i : Scoping) (n : Ref) : i.Le (i.add n) := ⟨fun _ => .inl, fun _ => id⟩

theorem le_addScope (i : Scoping) (n : Ref) : i.Le (i.addScope n) := ⟨fun _ => .inl, fun _ => .inl⟩

theorem Le.trans {i j k : Scoping} (h : i.Le j) (h' : j.Le k) : i.Le k :=
  ⟨fun r hr => h'.1 r (h.1 r hr), fun r hr => h'.2 r (h.2 r hr)⟩

theorem Outer.mono {i j : Scoping} {v : Value} (h : i.Outer v) (hij : i.Le j) : j.Outer v := by
  obtain ⟨r, rfl, hr⟩ := h
  exact ⟨r, rfl, hij.2 r hr⟩

theorem Outer.within {i : Scoping} {v : Value} (h : i.Outer v) : v.Within i.good := by
  obtain ⟨r, rfl, hr⟩ := h
  exact Value.within_ref.2 (i.good_of_chain r hr)

end Scoping

namespace Store

/-- The objects of a set lead only to each other, the scopes among them have dictionaries as bindings and scopes as
parents, and the variables of the contexts among them are scopes. -/
structure Scoped (s : Store) (i : Scoping) : Prop where
  enclosed : s.Enclosed (fun _ => False) i.good
  scopes : ∀ r b p, i.good r → s.get? r = some (.scope b p) → i.chain r
  chains : ∀ r, i.chain r → ∃ b p, s.scope? (.ref r) = some (b, p) ∧ (s.mapping? b).isSome = true ∧ (p = .null ∨ i.Outer p)
  contexts : ∀ r ctx attrs, i.good r → s.get? r = some (.context ctx attrs) → i.Outer ctx.scope

theorem isSome_mapping?_allocDict (s : Store) (entries : Entries) :
    ((s.allocDict entries).2.mapping? (s.allocDict entries).1).isSome = true := by
  simp only [allocDict, mapping?, cell?, get?_alloc_self, Option.isSome_some]

namespace Scoped

variable {s s' : Store} {i j : Scoping} {v w b p : Value} {c c' : Cell} {r : Ref}

/-- The scopes stay as they were in a store that keeps its objects. -/
theorem chains_of_keeps (h : s.Scoped i) (hkeeps : s.Keeps s') (r : Ref) (hr : i.chain r) :
    ∃ b p, s'.scope? (.ref r) = some (b, p) ∧ (s'.mapping? b).isSome = true ∧ (p = .null ∨ i.Outer p) := by
  obtain ⟨b, p, hscope, hb, hp⟩ := h.chains r hr
  exact ⟨b, p, hkeeps.scope?_some hscope, hkeeps.isSome_mapping? hb, hp⟩

/-- A new object that is not a scope. -/
theorem alloc (h : s.Scoped i) (hc : ∀ v ∈ c.contents, v.Within i.good) (hcontext : c.Captures i.Outer)
    (hscope : c.scope? = none) :
    (s.alloc c).2.Scoped (i.add s.next) := by
  have hnew : (s.alloc c).2.get? s.next = some c := s.get?_alloc_self c
  refine ⟨h.enclosed.alloc hc, ?_, h.chains_of_keeps (s.keeps_alloc c), ?_⟩
  · rintro r b p (hr | rfl) hd
    · rw [get?_alloc_lt c (h.enclosed.there r hr)] at hd
      exact h.scopes r b p hr hd
    · cases hnew.symm.trans hd
      cases hscope
  · rintro r ctx attrs (hr | rfl) hd
    · rw [get?_alloc_lt c (h.enclosed.there r hr)] at hd
      exact h.contexts r ctx attrs hr hd
    · cases hnew.symm.trans hd
      exact hcontext

/-- A new object that the run does not get hold of. -/
theorem alloc_out (h : s.Scoped i) (c : Cell) : (s.alloc c).2.Scoped i where
  enclosed := h.enclosed.alloc_out c
  scopes r b p hr hd := h.scopes r b p hr (get?_alloc_lt c (h.enclosed.there r hr) ▸ hd)
  chains := h.chains_of_keeps (s.keeps_alloc c)
  contexts r ctx attrs hr hd := h.contexts r ctx attrs hr (get?_alloc_lt c (h.enclosed.there r hr) ▸ hd)

/-- A new scope. -/
theorem allocScope (h : s.Scoped i) (hb : b.Within i.good) (hmapping : (s.mapping? b).isSome = true)
    (hp : p = .null ∨ i.Outer p) :
    (s.allocScope p b).2.Scoped (i.addScope s.next) := by
  have hnew : (s.alloc (.scope b p)).2.get? s.next = some (.scope b p) := s.get?_alloc_self _
  have hkeeps := s.keeps_alloc (.scope b p)
  have hcontents : ∀ v ∈ (Cell.scope b p).contents, v.Within i.good := by
    simp only [Cell.contents, List.forall_mem_cons, List.not_mem_nil, false_implies, implies_true, and_true]
    refine ⟨hb, ?_⟩
    rcases hp with rfl | hp
    · exact Value.within_immediate (by simp)
    · exact hp.within
  refine ⟨h.enclosed.alloc hcontents, ?_, ?_, ?_⟩
  · rintro r b' p' (hr | rfl) hd
    · exact .inl (h.scopes r b' p' hr (get?_alloc_lt _ (h.enclosed.there r hr) ▸ hd))
    · exact .inr rfl
  · rintro r (hr | rfl)
    · obtain ⟨b', p', hscope, hb', hp'⟩ := h.chains_of_keeps hkeeps r hr
      exact ⟨b', p', hscope, hb', hp'.imp_right (·.mono (i.le_addScope s.next))⟩
    · refine ⟨b, p, ?_, hkeeps.isSome_mapping? hmapping, hp.imp_right (·.mono (i.le_addScope s.next))⟩
      rw [Store.allocScope, scope?_eq, cell?, hnew]
      rfl
  · rintro r ctx attrs (hr | rfl) hd
    · exact (h.contexts r ctx attrs hr (get?_alloc_lt _ (h.enclosed.there r hr) ▸ hd)).mono (i.le_addScope s.next)
    · cases hnew.symm.trans hd

/-- A change that keeps scopes and captures scopes only. -/
theorem of_set (h : s.Scoped i) (hc : s.get? r = some c) (henclosed : (s.set r c').Enclosed (fun _ => False) i.good)
    (hscope : c'.scope? = c.scope?) (hentries : c'.entries?.isSome = c.entries?.isSome) (hcontext : c'.Captures i.Outer) :
    (s.set r c').Scoped i := by
  have hself := get?_set_self c' (index_lt_of_get? hc)
  refine ⟨henclosed, ?_, h.chains_of_keeps (keeps_set hc hscope hentries), ?_⟩
  · intro r' b p hr' hd
    by_cases heq : r' = r
    · subst heq
      cases hself.symm.trans hd
      cases c with
      | scope b' p' => exact h.scopes r' b' p' hr' hc
      | _ => cases hscope
    · rw [get?_set_ne c' heq] at hd
      exact h.scopes r' b p hr' hd
  · intro r' ctx attrs hr' hd
    by_cases heq : r' = r
    · subst heq
      cases hself.symm.trans hd
      exact hcontext
    · rw [get?_set_ne c' heq] at hd
      exact h.contexts r' ctx attrs hr' hd

end Scoped

end Store

/-- Runs keep scopes as the variables of contexts. -/
def Discipline.scoping : Discipline where
  Stage := Scoping
  custody i :=
    { inv := fun s => s.Scoped i
      held := Value.Within i.good
      outer := i.Outer
      exposes := fun _ => True
      immediate := fun v hv => Value.within_immediate hv
      held_of_outer := fun _ hv => hv.within
      replaceable := by
        rintro _ w ⟨r, rfl, hr⟩ hscalar
        cases hscalar
      part := fun s r c v hs hr hc hv => hs.enclosed.fields r c (Value.within_ref.1 hr) hc v hv
      captured := fun s r c hs hr hc => by
        cases c with
        | context ctx attrs => exact hs.contexts r ctx attrs (Value.within_ref.1 hr) hc
        | _ => trivial
      stack := fun s r v attrs hs hr _ hc => hs.enclosed.stack r v attrs (Value.within_ref.1 hr) id hc
      binding := fun s scope key v hs hscope hv => hs.enclosed.lookup? hscope hv
      set := fun s r c c' hs hr hc _ hwrite hfields hcontext =>
        hs.of_set hc (hs.enclosed.set (Value.within_ref.1 hr) hc hwrite hfields) hwrite.scope?_eq hwrite.isSome_entries? hcontext
      setStack := fun s r v attrs w hs hr _ hc hw =>
        hs.of_set hc (hs.enclosed.setStack (Value.within_ref.1 hr) hc hw) rfl rfl trivial }
  fault i e := ∀ frames, e.stack = some frames → ∀ f ∈ frames, f.name.Within i.good
  plain i e he frames hframes := by
    rw [Raised.stack_of_isPlain he] at hframes
    cases hframes
  le := Scoping.Le
  refl _ := ⟨fun _ => id, fun _ => id⟩
  trans h h' := h.trans h'
  mono h hv := hv.mono h.1
  outer_mono h hv := hv.mono h
  exposed _ h := h
  alloc i s c hs hc hcontext := by
    cases hscope : c.scope? with
    | none => exact ⟨i.add s.next, i.le_add _, hs.alloc hc hcontext hscope, fun _ => Value.within_ref.2 (.inr rfl)⟩
    | some bp => exact ⟨i, ⟨fun _ => id, fun _ => id⟩, hs.alloc_out c, by rintro ⟨⟩⟩
  scopes i s v hs hv := by
    have hdict := hs.alloc (c := .dict []) (by simp [Cell.contents, Cell.parts, Entries.parts]) trivial rfl
    have hle := i.le_add s.next
    have hscope := hdict.allocScope (b := .ref s.next) (p := v) (Value.within_ref.2 (.inr rfl))
      (s.isSome_mapping?_allocDict []) (hv.imp_right (·.mono hle))
    exact ⟨_, hle.trans (Scoping.le_addScope _ _), hscope, ⟨_, rfl, .inr rfl⟩⟩

/-! ## Reading -/

namespace Store

variable {s : Store} {i : Scoping} {v : Value} {segment : Segment}

/-- The objects of the first store are in the second as they were. -/
def Grows (s s' : Store) : Prop := s.size ≤ s'.size ∧ ∀ r, r.index < s.size → s'.get? r = s.get? r

theorem Grows.trans {t u : Store} (hst : s.Grows t) (htu : t.Grows u) : s.Grows u :=
  ⟨Nat.le_trans hst.1 htu.1, fun r hr => (htu.2 r (Nat.lt_of_lt_of_le hr hst.1)).trans (hst.2 r hr)⟩

end Store

/-! ## Runs -/

/-- The object takes part in the running of scripts: a function made by a script, a context, an evaluator, a path or a
segment of one. -/
def Cell.isInternal : Cell → Bool
  | .closure .. | .context .. | .engine .. | .path _ | .nameSegment _ | .indexSegment _ => true
  | _ => false

/-- The writes of a moment go through no object that takes part in the running of scripts. -/
def Moment.SparesInternals (m : Moment) : Prop :=
  ∀ path v ctx, m.task = .write path v ctx → ∀ u ∈ m.visits, ∀ c, u.store.cell? u.container = some c →
    c.isInternal = false

/-- A scope has a dictionary as its bindings and a scope as its parent, if any; a context has a scope, a function has a
context, and nothing stands in for what contexts and evaluators do. -/
def Cell.ScopedIn (s : Store) : Cell → Prop
  | .scope b p => (s.mapping? b).isSome = true ∧ (p = .null ∨ (s.scope? p).isSome = true)
  | .context ctx attrs => (s.scope? ctx.scope).isSome = true ∧ attrs.lookup "derive" = none
  | .closure f _ => (s.context? f.context).isSome = true
  | .engine _ attrs => attrs.lookup Host.Method.evaluate.label = none ∧ attrs.lookup Host.Method.invoke.label = none
  | _ => True

instance (s : Store) (c : Cell) : Decidable (c.ScopedIn s) :=
  match c with
  | .scope b p => inferInstanceAs (Decidable ((s.mapping? b).isSome = true ∧ (p = .null ∨ (s.scope? p).isSome = true)))
  | .context ctx attrs => inferInstanceAs (Decidable ((s.scope? ctx.scope).isSome = true ∧ attrs.lookup "derive" = none))
  | .closure f _ => inferInstanceAs (Decidable ((s.context? f.context).isSome = true))
  | .engine _ attrs =>
    inferInstanceAs (Decidable (attrs.lookup Host.Method.evaluate.label = none ∧
      attrs.lookup Host.Method.invoke.label = none))
  | .list .. | .tuple _ | .dict _ | .frozen _ | .raw _ | .function .. | .object .. | .method .. | .path _
  | .nameSegment _ | .indexSegment _ => inferInstanceAs (Decidable True)

/-- The objects of a store that take part in the running of scripts are in order. -/
structure Store.WellScoped (s : Store) : Prop where
  closed : s.Closed
  cells : ∀ r c, s.get? r = some c → c.ScopedIn s

instance (s : Store) : Decidable s.WellScoped :=
  decidable_of_iff (s.Closed ∧ ∀ c ∈ s.cells.toList, c.ScopedIn s) <| by
    constructor
    · rintro ⟨hclosed, hcells⟩
      exact ⟨hclosed, fun r c hc => hcells c (Array.mem_toList_iff.2 (Array.mem_of_getElem? hc))⟩
    · rintro ⟨hclosed, hcells⟩
      refine ⟨hclosed, fun c hc => ?_⟩
      obtain ⟨k, hk⟩ := Array.getElem?_of_mem (Array.mem_toList_iff.1 hc)
      exact hcells ⟨k⟩ c hk

/-- All objects of a store, with all its scopes. -/
def Scoping.all (s : Store) : Scoping where
  good r := r.index < s.size
  chain r := (s.scope? (.ref r)).isSome = true
  good_of_chain r hr := by
    rw [Store.scope?_eq] at hr
    cases hc : s.get? r with
    | none => simp [Store.cell?, hc] at hr
    | some c => exact Store.index_lt_of_get? hc

namespace Store

variable {s : Store} {v : Value}

theorem outer_all (h : (s.scope? v).isSome = true) : (Scoping.all s).Outer v := by
  cases v with
  | ref r => exact ⟨r, rfl, h⟩
  | _ => cases h

theorem WellScoped.all (h : s.WellScoped) : s.Scoped (.all s) where
  enclosed := {
    there := fun _ hr => hr
    fields := fun r c _ hc v hv => h.closed r c hc v (Cell.fields_subset_contents hv)
    parent := fun r b p _ hc => h.closed r _ hc p (by simp [Cell.contents])
    stack := fun r v attrs _ _ hc => h.closed r _ hc v List.mem_cons_self }
  scopes r b p _ hc := by
    change (s.scope? (.ref r)).isSome = true
    rw [scope?_eq, cell?, hc]
    rfl
  chains r hr := by
    obtain ⟨⟨b, p⟩, hscope⟩ := Option.isSome_iff_exists.1 hr
    have hc : s.get? r = some (.scope b p) := by
      unfold scope? at hscope
      split at hscope <;> cases hscope
      assumption
    obtain ⟨hb, hp⟩ := h.cells r _ hc
    exact ⟨b, p, hscope, hb, hp.imp_right outer_all⟩
  contexts r ctx attrs _ hc := outer_all (h.cells r _ hc).1

/-- A new dictionary in place of null. -/
theorem Scoped.orDict {i : Scoping} (h : s.Scoped i) (hv : v.Within i.good) :
    ∃ j, i.Le j ∧ (if v = .null then s.allocDict [] else (v, s)).2.Scoped j ∧
      (if v = .null then s.allocDict [] else (v, s)).1.Within j.good ∧
      s.Keeps (if v = .null then s.allocDict [] else (v, s)).2 ∧
      (v = .null ∨ (s.mapping? v).isSome = true →
        ((if v = .null then s.allocDict [] else (v, s)).2.mapping?
          (if v = .null then s.allocDict [] else (v, s)).1).isSome = true) := by
  split
  · exact ⟨i.add s.next, i.le_add _, h.alloc (by simp [Cell.contents, Cell.parts, Entries.parts]) trivial rfl,
      Value.within_ref.2 (.inr rfl), s.keeps_alloc _, fun _ => s.isSome_mapping?_allocDict []⟩
  · rename_i hne
    refine ⟨i, ⟨fun _ => id, fun _ => id⟩, h, hv, ⟨Nat.le_refl _, fun r c hc => ⟨c, hc, rfl, rfl⟩⟩, fun hmapping => ?_⟩
    exact hmapping.resolve_left hne

/-- A new context over some variables. -/
theorem Scoped.contextFor {i : Scoping} {this vars : Value} (h : s.Scoped i) (hthis : this.Within i.good)
    (hvars : vars.Within i.good) (hmapping : vars = .null ∨ (s.mapping? vars).isSome = true) :
    ∃ j, i.Le j ∧ (s.contextFor this vars .null).2.Scoped j ∧ (s.contextFor this vars .null).1.this.Within j.good ∧
      j.Outer (s.contextFor this vars .null).1.scope := by
  obtain ⟨j₁, hle₁, hs₁, hthis₁, hkeeps₁, -⟩ := h.orDict hthis
  obtain ⟨j₂, hle₂, hs₂, hvars₂, -, hmapping₂⟩ := hs₁.orDict (hvars.mono hle₁.1)
  have hscope := hs₂.allocScope hvars₂ (hmapping₂ (hmapping.imp_right hkeeps₁.isSome_mapping?)) (.inl rfl)
  refine ⟨_, hle₁.trans (hle₂.trans (j₂.le_addScope _)), hscope, ?_, ⟨_, rfl, .inr rfl⟩⟩
  exact hthis₁.mono (hle₂.trans (j₂.le_addScope _)).1

end Store

namespace Moment

variable {m m' : Moment}

theorem SparesInternals.lawful (h : m.SparesInternals) : Discipline.scoping.Lawful m where
  permits i hs _ := by
    refine Discipline.later_self hs ⟨fun _ _ _ _ _ => trivial, fun path v ctx htask => ⟨fun _ _ _ _ => trivial, ?_⟩⟩
    intro u hu ctx' attrs hcell _
    exact absurd (h path v ctx htask u (List.mem_of_getLast? hu) _ hcell) (by simp [Cell.isInternal])
  exposes _ _ _ _ _ _ _ _ _ := trivial

end Moment

end ListScript
