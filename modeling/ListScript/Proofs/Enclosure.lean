import ListScript.Proofs.Ward

/-!
# Objects that lead only to each other

A set of objects is enclosed in a store if all that can be read off its objects leads to objects of the set again
(`Store.Enclosed`); only the lists of active calls of some evaluators may be kept back. What a run gets hold of is
enclosed from the start, and every step keeps it so: a new object joins the set or stays out of it, and the objects of
the set are changed to refer to each other. An object outside of the set can be changed at will.
-/

namespace ListScript

/-- A value refers to no object, or to one of a set. -/
def Value.Within (good : Ref → Prop) (v : Value) : Prop := ∀ r, v = .ref r → good r

namespace Value

variable {good good' : Ref → Prop} {v : Value}

theorem within_immediate (h : ∀ r, v ≠ .ref r) : v.Within good := fun r hr => absurd hr (h r)

theorem within_ref {r : Ref} : (ref r).Within good ↔ good r := by
  constructor
  · exact fun h => h r rfl
  · rintro h r' ⟨⟩
    exact h

theorem Within.mono (h : v.Within good) (hgood : ∀ r, good r → good' r) : v.Within good' :=
  fun r hr => hgood r (h r hr)

end Value

namespace Store

/-- The objects of a set lead only to each other, but for the lists of active calls of evaluators that keep theirs
back. -/
structure Enclosed (s : Store) (back good : Ref → Prop) : Prop where
  there : ∀ r, good r → r.index < s.size
  fields : ∀ r c, good r → s.get? r = some c → ∀ v ∈ c.fields, v.Within good
  parent : ∀ r b p, good r → s.get? r = some (.scope b p) → p.Within good
  stack : ∀ r v attrs, good r → ¬ back r → s.get? r = some (.engine v attrs) → v.Within good

namespace Enclosed

variable {s : Store} {back good : Ref → Prop} {v w : Value} {c c' : Cell} {r : Ref}

theorem cell? (h : s.Enclosed back good) (hv : v.Within good) (hc : s.cell? v = some c) : ∀ w ∈ c.fields, w.Within good := by
  cases v with
  | ref r => exact h.fields r c (Value.within_ref.1 hv) hc
  | _ => cases hc

theorem scope? {b p : Value} (h : s.Enclosed back good) (hv : v.Within good) (hscope : s.scope? v = some (b, p)) :
    b.Within good ∧ p.Within good := by
  rw [Store.scope?_eq] at hscope
  obtain ⟨c, hc, hbp⟩ := Option.bind_eq_some_iff.1 hscope
  cases c with
  | scope bindings parent =>
    cases hbp
    refine ⟨h.cell? hv hc b (by simp [Cell.fields, Cell.parts]), ?_⟩
    cases v with
    | ref r => exact h.parent r b p (Value.within_ref.1 hv) hc
    | _ => cases hc
  | _ => cases hbp

theorem hiddenAttribute? {name : String} (h : s.Enclosed back good) (hv : v.Within good) (hname : name ≠ "call_stack")
    (hw : s.hiddenAttribute? v name = some w) : w.Within good := by
  obtain ⟨c, hc, hstored⟩ := Option.bind_eq_some_iff.1 hw
  rcases Cell.storedAttribute?_cases hstored with hpart | ⟨rfl, -⟩
  · exact h.cell? hv hc w hpart
  · exact absurd rfl hname

theorem bindingsOf {b : Value} (h : s.Enclosed back good) (hv : v.Within good) (hb : s.bindingsOf v = .ok b) :
    b.Within good := by
  obtain ⟨p, hscope⟩ | ⟨-, hattr⟩ := bindingsOf_eq_ok_iff.1 hb
  · exact (h.scope? hv hscope).1
  · exact h.hiddenAttribute? hv (by decide) hattr

theorem parentOf {p : Value} (h : s.Enclosed back good) (hv : v.Within good) (hp : s.parentOf v = .ok p) :
    p.Within good := by
  obtain ⟨b, hscope⟩ | ⟨-, hattr⟩ := parentOf_eq_ok_iff.1 hp
  · exact (h.scope? hv hscope).2
  · exact h.hiddenAttribute? hv (by decide) hattr

/-- A name leads from a scope of the set to a value of the set. -/
theorem lookup? (h : s.Enclosed back good) {key x : Value} (hv : v.Within good) (hx : s.lookup? v key = .ok (some x)) :
    x.Within good := by
  obtain ⟨_, b, hd, hb, hvalue⟩ := exists_link_of_lookup? (fun _ _ hc hp => h.parentOf hc hp) hv hx
  obtain ⟨c, hc, hmem⟩ := mem_of_valueAt? hvalue
  exact h.cell? (h.bindingsOf hd hb) hc x hmem

/-- A store that has the same objects in the set. -/
theorem congr {s' : Store} (h : s.Enclosed back good) (hget : ∀ r, good r → s'.get? r = s.get? r)
    (hsize : s.size ≤ s'.size) : s'.Enclosed back good where
  there r hr := Nat.lt_of_lt_of_le (h.there r hr) hsize
  fields r c hr hc := h.fields r c hr (hget r hr ▸ hc)
  parent r b p hr hc := h.parent r b p hr (hget r hr ▸ hc)
  stack r v attrs hr hback hc := h.stack r v attrs hr hback (hget r hr ▸ hc)

/-- A new object outside of the set. -/
theorem alloc_out (h : s.Enclosed back good) (c : Cell) : (s.alloc c).2.Enclosed back good :=
  h.congr (fun r hr => get?_alloc_lt c (h.there r hr)) (by simp)

/-- A change of an object outside of the set. -/
theorem set_out (h : s.Enclosed back good) (hr : ¬ good r) (c : Cell) : (s.set r c).Enclosed back good :=
  h.congr (fun r' hr' => get?_set_ne c (by rintro rfl; exact hr hr')) (by simp)

/-- A new object of the set. -/
theorem alloc (h : s.Enclosed back good) (hc : ∀ v ∈ c.contents, v.Within good) :
    (s.alloc c).2.Enclosed back fun r => good r ∨ r = s.next := by
  have hmono : ∀ {v : Value}, v.Within good → v.Within fun r => good r ∨ r = s.next := fun hv => hv.mono fun _ => .inl
  have hnew : (s.alloc c).2.get? s.next = some c := s.get?_alloc_self c
  refine ⟨?_, ?_, ?_, ?_⟩
  · rintro r (hr | rfl)
    · exact Nat.lt_of_lt_of_le (h.there r hr) (by simp)
    · exact index_lt_of_get? hnew
  · rintro r d (hr | rfl) hd v hv
    · rw [get?_alloc_lt c (h.there r hr)] at hd
      exact hmono (h.fields r d hr hd v hv)
    · cases hnew.symm.trans hd
      exact hmono (hc v (Cell.fields_subset_contents hv))
  · rintro r b p (hr | rfl) hd
    · rw [get?_alloc_lt c (h.there r hr)] at hd
      exact hmono (h.parent r b p hr hd)
    · cases hnew.symm.trans hd
      exact hmono (hc p (by simp [Cell.contents]))
  · rintro r v attrs (hr | rfl) hback hd
    · rw [get?_alloc_lt c (h.there r hr)] at hd
      exact hmono (h.stack r v attrs hr hback hd)
    · cases hnew.symm.trans hd
      exact hmono (hc v List.mem_cons_self)

/-- A change of an object of the set. -/
theorem set (h : s.Enclosed back good) (hr : good r) (hc : s.get? r = some c) (hwrite : c.Rewrites c')
    (hfields : ∀ v ∈ c'.fields, v.Within good) : (s.set r c').Enclosed back good := by
  have hself := get?_set_self c' (index_lt_of_get? hc)
  refine ⟨fun r' hr' => by simpa using h.there r' hr', ?_, ?_, ?_⟩
  · intro r' d hr' hd
    by_cases heq : r' = r
    · subst heq
      cases hself.symm.trans hd
      exact hfields
    · rw [get?_set_ne c' heq] at hd
      exact h.fields r' d hr' hd
  · intro r' b p hr' hd
    by_cases heq : r' = r
    · subst heq
      cases hself.symm.trans hd
      exact absurd rfl (hwrite.ne_scope b p)
    · rw [get?_set_ne c' heq] at hd
      exact h.parent r' b p hr' hd
  · intro r' v attrs hr' hback hd
    by_cases heq : r' = r
    · subst heq
      cases hself.symm.trans hd
      obtain ⟨attrs', rfl⟩ := hwrite.engine
      exact h.stack r' v attrs' hr' hback hc
    · rw [get?_set_ne c' heq] at hd
      exact h.stack r' v attrs hr' hback hd

/-- Another list of active calls for an evaluator of the set. -/
theorem setStack {attrs : Attributes} (h : s.Enclosed back good) (hr : good r) (hc : s.get? r = some (.engine v attrs))
    (hw : w.Within good) : (s.set r (.engine w attrs)).Enclosed back good := by
  have hself := get?_set_self (.engine w attrs) (index_lt_of_get? hc)
  refine ⟨fun r' hr' => by simpa using h.there r' hr', ?_, ?_, ?_⟩
  · intro r' d hr' hd
    by_cases heq : r' = r
    · subst heq
      cases hself.symm.trans hd
      exact h.fields r' (.engine v attrs) hr' hc
    · rw [get?_set_ne _ heq] at hd
      exact h.fields r' d hr' hd
  · intro r' b p hr' hd
    by_cases heq : r' = r
    · subst heq
      cases hself.symm.trans hd
    · rw [get?_set_ne _ heq] at hd
      exact h.parent r' b p hr' hd
  · intro r' u attrs' hr' hback hd
    by_cases heq : r' = r
    · subst heq
      cases hself.symm.trans hd
      exact hw
    · rw [get?_set_ne _ heq] at hd
      exact h.stack r' u attrs' hr' hback hd

end Enclosed

end Store

end ListScript
