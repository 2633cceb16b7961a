import ListScript.Proofs.Parts
import ListScript.Proofs.Plain
import ListScript.Proofs.WriteThenRead

/-!
# Objects that only grow

What may become of the objects of a store: a dictionary keeps its keys, in their order and spelling, and gets others
after them; a list gets no shorter, if it is one of those that have to stay `long`; a scope keeps its bindings and its
parent (`Store.Expands`). Reading at a path and writing at a path let objects grow in this way, whether they succeed or
not (`Store.expands_read`, `Store.expands_assign`).
-/

namespace ListScript

/-! ## One object -/

/-- What an object may become. A list has to stay at least as long as it is if `long` says so. -/
def Cell.Expands (long : Prop) : Cell → Cell → Prop
  | .dict entries, c => ∃ entries', c = .dict entries' ∧ entries.keys <+: Entries.keys entries'
  | .list items flavor, c => ∃ items', c = .list items' flavor ∧ (long → items.length ≤ items'.length)
  | .scope bindings parent, c => c = .scope bindings parent
  | _, _ => True

namespace Cell

variable {long : Prop} {c c' c'' : Cell}

theorem Expands.refl (c : Cell) : c.Expands long c := by
  cases c with
  | dict entries => exact ⟨entries, rfl, List.prefix_rfl⟩
  | list items flavor => exact ⟨items, rfl, fun _ => Nat.le_refl _⟩
  | scope => rfl
  | _ => trivial

theorem Expands.trans (h : c.Expands long c') (h' : c'.Expands long c'') : c.Expands long c'' := by
  cases c with
  | dict entries =>
    obtain ⟨entries', rfl, hkeys⟩ := h
    obtain ⟨entries'', rfl, hkeys'⟩ := h'
    exact ⟨entries'', rfl, hkeys.trans hkeys'⟩
  | list items flavor =>
    obtain ⟨items', rfl, hlength⟩ := h
    obtain ⟨items'', rfl, hlength'⟩ := h'
    exact ⟨items'', rfl, fun hlong => Nat.le_trans (hlength hlong) (hlength' hlong)⟩
  | scope =>
    cases h
    exact h'
  | _ => trivial

theorem Expands.mono {long' : Prop} (h : c.Expands long c') (hlong : long' → long) : c.Expands long' c' := by
  cases c with
  | list items flavor =>
    obtain ⟨items', rfl, hlength⟩ := h
    exact ⟨items', rfl, fun h => hlength (hlong h)⟩
  | _ => exact h

theorem expands_list {items items' : List Value} {flavor : Flavor} (h : long → items.length ≤ items'.length) :
    (list items flavor).Expands long (.list items' flavor) := ⟨items', rfl, h⟩

theorem expands_withAttribute? {name : String} {v : Value} (h : Store.withAttribute? c name v = some c') :
    c.Expands long c' := by
  cases c with
  | dict | list | scope => cases h
  | _ => trivial

theorem length_setElement {items items' : List Value} {n : Nat} {v : Value} (h : Store.setElement items n v = .ok items') :
    items.length ≤ items'.length := by
  obtain ⟨-, rfl⟩ | ⟨-, rfl⟩ := setElement_cases h
  · simp
  · simp only [List.length_append]
    omega

/-- Setting a slot adds to an object at most. -/
theorem expands_setField? {segment : Segment} {v : Value} (h : c.setField? segment v = some c') : c.Expands long c' := by
  obtain ⟨entries, rfl, rfl⟩ | ⟨items, items', flavor, n, rfl, rfl, hset, rfl⟩ | ⟨items, attrs, n, rfl, -, -, rfl⟩ |
    ⟨text, rfl, -, hattr⟩ := setField?_cases h
  · refine ⟨_, rfl, ?_⟩
    obtain ⟨hit, key, heq, -⟩ := Entries.setSegment_eq_put entries segment v
    rw [heq]
    exact Entries.keys_isPrefix_put hit key v entries
  · exact expands_list fun _ => length_setElement hset
  · trivial
  · exact expands_withAttribute? hattr

end Cell

/-! ## All objects -/

namespace Store

variable {long : Ref → Prop} {s s' s'' : Store} {r : Ref} {c c' : Cell} {v w x key : Value} {segment : Segment}

/-- Every object is still there, and has become what it may. -/
def Expands (long : Ref → Prop) (s s' : Store) : Prop :=
  ∀ r c, s.get? r = some c → ∃ c', s'.get? r = some c' ∧ c.Expands (long r) c'

theorem Expands.refl (s : Store) : s.Expands long s := fun _ c hc => ⟨c, hc, .refl c⟩

theorem Expands.trans (h : s.Expands long s') (h' : s'.Expands long s'') : s.Expands long s'' := by
  intro r c hc
  obtain ⟨c', hc', hexpands⟩ := h r c hc
  obtain ⟨c'', hc'', hexpands'⟩ := h' r c' hc'
  exact ⟨c'', hc'', hexpands.trans hexpands'⟩

theorem Expands.mono {long' : Ref → Prop} (h : s.Expands long s') (hlong : ∀ r, long' r → long r) : s.Expands long' s' := by
  intro r c hc
  obtain ⟨c', hc', hexpands⟩ := h r c hc
  exact ⟨c', hc', hexpands.mono (hlong r)⟩

theorem expands_alloc (s : Store) (c : Cell) : s.Expands long (s.alloc c).2 := by
  intro r d hd
  rw [get?_alloc_lt c (index_lt_of_get? hd)]
  exact ⟨d, hd, .refl d⟩

theorem expands_set (hc : s.get? r = some c) (h : c.Expands (long r) c') : s.Expands long (s.set r c') := by
  intro r' d hd
  by_cases heq : r' = r
  · subst heq
    cases hd.symm.trans hc
    exact ⟨c', get?_set_self c' (index_lt_of_get? hc), h⟩
  · rw [get?_set_ne c' heq]
    exact ⟨d, hd, .refl d⟩

/-! ### Changes -/

theorem expands_setEntry (h : s.setEntry v key w = .ok s') : s.Expands long s' := by
  unfold setEntry at h
  split at h
  · rename_i r entries hentries
    obtain ⟨_, -, h⟩ := bind_eq_ok.1 h
    cases h
    unfold dict? at hentries
    split at hentries <;> cases hentries
    rename_i hc
    exact expands_set hc ⟨_, rfl, Entries.keys_isPrefix_put _ _ _ _⟩
  · cases h

theorem expands_bind (h : s.bind v key w = .ok s') : s.Expands long s' := by
  unfold bind at h
  split at h
  · cases h
  · split at h
    · exact expands_setEntry h
    · cases h

theorem expands_bindParameters {names args : List Value} (h : s.bindParameters v names args = .ok s') :
    s.Expands long s' := by
  induction names generalizing s args with
  | nil =>
    cases h
    exact .refl _
  | cons name names ih =>
    obtain ⟨t, hbind, h⟩ := bind_eq_ok.1 h
    exact (expands_bind hbind).trans (ih h)

theorem expands_setAttribute {name : String} (h : s.setAttribute v name w = .ok s') : s.Expands long s' := by
  obtain ⟨r, c, c', -, hc, -, hattr, rfl⟩ := setAttribute_cases h
  exact expands_set hc (Cell.expands_withAttribute? hattr)

theorem expands_writeField (h : s.writeField v segment w = .ok s') : s.Expands long s' := by
  obtain ⟨r, c, c', -, hc, hset, rfl, -⟩ := writeField_cases h
  exact expands_set hc (Cell.expands_setField? hset)

theorem expands_allocClosure (params body : Value) (ctx : Context) (engine : Ref) :
    s.Expands long (s.allocClosure params body ctx engine).2 := (s.expands_alloc _).trans (expands_alloc _ _)

theorem expands_allocEmptyScope (v : Value) :
    s.Expands long (s.allocEmptyScope v).2 := (s.expands_alloc _).trans (expands_alloc _ _)

/-! ### Paths -/

/-- Reading a segment makes a new object for a method, and nothing else. -/
theorem expands_readField (h : s.readField v segment = .ok (x, s')) : s.Expands long s' := by
  by_cases hlead : x.leadsOn = true
  · obtain ⟨rfl, -⟩ | ⟨m, rfl, -⟩ := readField_cases h hlead
    · exact .refl _
    · exact s.expands_alloc _
  · rw [readField_store h (by simpa using hlead)]
    exact .refl s

theorem expands_readBelow {segments : List Segment} (h : s.readBelow v segments = .ok (x, s')) : s.Expands long s' := by
  induction segments generalizing s v with
  | nil =>
    cases h
    exact .refl _
  | cons segment rest ih =>
    rw [readBelow] at h
    split at h
    · cases h
      exact .refl _
    · obtain ⟨⟨w, t⟩, hread, h⟩ := bind_eq_ok.1 h
      exact (expands_readField hread).trans (ih h)

theorem expands_read {path : Path} {ctx : Context} (h : s.read path ctx = .ok (x, s')) :
    s.Expands long s' := expands_readBelow h

theorem expands_assignBelow (rest : List Segment) : s.Expands long (s.assignBelow v w segment rest).1 := by
  induction rest generalizing s v segment with
  | nil =>
    rw [assignBelow]
    cases hwrite : s.writeField v segment w with
    | ok t => exact expands_writeField hwrite
    | error e => exact .refl s
  | cons below rest ih =>
    rw [assignBelow]
    cases hread : s.readField v segment with
    | error e => exact .refl s
    | ok found =>
      obtain ⟨child, t⟩ := found
      have hst : s.Expands long t := expands_readField hread
      dsimp only
      split
      · obtain ⟨cell, -, hfresh⟩ := allocFor_eq t below
        have hsu : s.Expands long (t.alloc cell).2 := hst.trans (t.expands_alloc cell)
        simp only [hfresh]
        cases hwrite : (t.alloc cell).2.writeField v segment (.ref (t.alloc cell).1) with
        | ok u => exact hsu.trans ((expands_writeField hwrite).trans ih)
        | error e => exact hsu
      · exact hst.trans ih

/-- A write at a path lets objects grow, even if it is refused on its way. -/
theorem expands_assign (s : Store) (path : Path) (w : Value) (ctx : Context) :
    s.Expands long (s.assign path w ctx).1 := by
  unfold assign
  split
  · exact .refl s
  · split
    · exact .refl s
    · dsimp only
      split
      · exact .refl s
      · exact expands_assignBelow _

end Store

end ListScript
