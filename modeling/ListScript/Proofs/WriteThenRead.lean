import ListScript.Proofs.Field

/-!
# What is written at a path is read back from it

A write follows a path through containers that may be shared in any way and may contain each other, and it puts new
containers where it meets null or a scalar. Afterwards the same path leads to the value, unless the write has cut the
path it followed. That happens in two ways only: the value goes to a container that the path had used before
(`Store.Separate` excludes it), or a name that the path found in an outer scope gets bound in a nearer one
(`Store.Unshadowed` excludes it). The second way needs no common container at the end: see
`not_read_assign_of_separate`. A path starts from an object that its context holds. A context is itself an object that
paths lead to, so a write can also move the start of the path.

- `Store.slot_assignBelow`: a slot that leads a path on keeps its value, unless it belongs to the last container;
- `read_assign`: what is written is read back.
-/

namespace ListScript

/-- A container that a write comes to: the store at that time, the container, and the segment followed or set. -/
structure Visit where
  store : Store
  container : Value
  segment : Segment

namespace Store

/-- The containers that a write below `container` comes to, in order. The last one takes the value. -/
def visits (s : Store) (container : Value) : Segment → List Segment → List Visit
  | segment, [] => [⟨s, container, segment⟩]
  | segment, below :: rest =>
    ⟨s, container, segment⟩ ::
      match s.readField container segment with
      | .error _ => []
      | .ok (child, s) =>
        if child = .null || child.isScalar then
          let (fresh, s) := s.allocFor below
          match s.writeField container segment fresh with
          | .ok s => s.visits fresh below rest
          | .error _ => []
        else s.visits child below rest

/-- The containers that a write at a path comes to. -/
def route (s : Store) (p : Path) (ctx : Context) : List Visit :=
  match p.segments with
  | [] => []
  | segment :: rest => s.visits (ctx.rootValue p.root) segment rest

/-- The links of a chain of scopes: `c` itself and its parents. -/
inductive Outward (s : Store) : Value → Value → Prop
  | self (c : Value) : Outward s c c
  | parent {c p a : Value} : s.parentOf c = .ok p → Outward s p a → Outward s c a

/-- The places in which something is looked for below a container: its own storage and, if it is a scope, the links of
its chain and their bindings. -/
inductive Searches (s : Store) : Value → Value → Prop
  | own (c : Value) : Searches s c (s.storage c)
  | link {c a : Value} : (s.scope? c).isSome = true → s.Outward c a → Searches s c (s.storage a)
  | bindings {c a b : Value} : (s.scope? c).isSome = true → s.Outward c a → s.bindingsOf a = .ok b → Searches s c b

/-- A link of a chain does not bind a key. -/
def Misses (s : Store) (key link : Value) : Prop := ∃ b, s.bindingsOf link = .ok b ∧ s.valueAt? b key = .ok none

/-- The look-up of `key` from a scope misses it in a link of the chain. -/
inductive LooksPast (s : Store) (key link : Value) : Value → Prop
  | here : s.Misses key link → LooksPast s key link link
  | outer {c p : Value} : s.Misses key c → s.parentOf c = .ok p → LooksPast s key link p → LooksPast s key link c

/-- The last container visited keeps its entries in a place that nothing is looked for in below the earlier ones. -/
def Separate (s : Store) (visits : List Visit) : Prop :=
  ∀ final, visits.getLast? = some final → ∀ u ∈ visits.dropLast, ∀ place, s.Searches u.container place →
    place ≠ s.storage final.container

/-- A name that led on from an earlier scope is missed in `s` wherever its look-up missed it. -/
def Unshadowed (s : Store) (visits : List Visit) : Prop :=
  ∀ u ∈ visits.dropLast, (u.store.scope? u.container).isSome = true →
    ∀ x, u.store.lookup? u.container (.text u.segment.keyText) = .ok (some x) → x.leadsOn = true →
      ∀ link, u.store.LooksPast (.text u.segment.keyText) link u.container → s.Misses (.text u.segment.keyText) link

/-- Paths of a root start in `s'` where they started in `s`. -/
def Anchored (s s' : Store) (context : Value) (root : Root) : Prop :=
  ∀ ctx ctx', s.context? context = some ctx → s'.context? context = some ctx' → ctx'.rootValue root = ctx.rootValue root

/-! ## Steps of a write -/

section Steps

variable {s s' : Store} {c v x : Value} {segment below : Segment} {rest : List Segment}

/-- A new container is a new list or dictionary at the end of the store. -/
theorem allocFor_eq (s : Store) (segment : Segment) :
    ∃ cell : Cell, cell.scope? = none ∧ s.allocFor segment = (.ref (s.alloc cell).1, (s.alloc cell).2) := by
  cases segment with
  | name text => exact ⟨.dict [], rfl, rfl⟩
  | index n => exact ⟨.list [] .plain, rfl, rfl⟩

theorem scope?_alloc {cell : Cell} (h : cell.scope? = none) (s : Store) (c : Value) :
    (s.alloc cell).2.scope? c = s.scope? c := by
  cases c with
  | ref r =>
    rw [scope?_eq, scope?_eq, cell?, cell?]
    by_cases hr : r.index < s.size
    · rw [get?_alloc_lt cell hr]
    · have hnone : s.get? r = none := Array.getElem?_eq_none (Nat.le_of_not_lt hr)
      by_cases hnext : r = (s.alloc cell).1
      · rw [hnone, hnext, get?_alloc_self]
        exact h
      · have hbound : (s.alloc cell).2.size ≤ r.index := by
          have : r.index ≠ s.size := fun e => hnext (by cases r; simp_all [alloc, next])
          rw [size_alloc]
          omega
        have hnone' : (s.alloc cell).2.get? r = none := Array.getElem?_eq_none hbound
        rw [hnone, hnone']
  | _ => rfl

theorem slot_alloc {other : Segment} (cell : Cell) (h : s.slot c other = some x) :
    (s.alloc cell).2.slot c other = some x := by
  obtain ⟨d, hd, hx⟩ := Option.bind_eq_some_iff.1 h
  cases c with
  | ref r => rw [slot, cell?, get?_alloc_lt cell (index_lt_of_get? hd)]; exact h
  | _ => cases hd

theorem hiddenAttribute?_alloc {name : String} (cell : Cell) (h : s.hiddenAttribute? c name = some x) :
    (s.alloc cell).2.hiddenAttribute? c name = some x := by
  obtain ⟨d, hd, hx⟩ := Option.bind_eq_some_iff.1 h
  cases c with
  | ref r => rw [hiddenAttribute?, cell?, get?_alloc_lt cell (index_lt_of_get? hd)]; exact h
  | _ => cases hd

/-- Nothing is found below a method. -/
theorem readField_method {self : Value} {m : Host.Method} (h : s.cell? c = some (.method self m)) :
    s.readField c segment = .ok (.null, s) := by
  cases c with
  | ref r =>
    cases segment with
    | index n => simp [readField, scope?, mapping?, readItem, h, Except.map]
    | name text =>
      have hattr : s.attribute? (.ref r) text = .ok none := by
        simp [attribute?, h, isTrapped, storedAttribute?, methodsOf, Host.Method.named?]
      simp only [readField, scope?, mapping?, h, Option.isSome_none, Bool.false_eq_true, if_false, hattr]
      split <;> rfl
  | _ => cases h

/-- Nothing can be written below a method. -/
theorem assignBelow_method {self : Value} {m : Host.Method} (h : s.cell? c = some (.method self m)) :
    (s.assignBelow c v segment rest).2 ≠ none := by
  have hrefuse : ∀ (t t' : Store) (y : Value), t.cell? c = some (.method self m) →
      t.writeField c segment y ≠ .ok t' := by
    intro t t' y ht hw
    obtain ⟨r, cell, cell', rfl, hc, hset, _⟩ := writeField_cases_of_not_scope (by simp [scope?, ht]) hw
    rw [show t.get? r = _ from ht] at hc
    cases hc
    cases segment <;> simp [Cell.setField?, withAttribute?] at hset
  cases rest with
  | nil =>
    rw [assignBelow]
    split
    · rename_i t hw; exact absurd hw (hrefuse s t v h)
    · simp
  | cons below rest =>
    obtain ⟨cell, _, halloc⟩ := allocFor_eq s below
    have hkept : (s.alloc cell).2.cell? c = some (.method self m) := by
      cases c with
      | ref r => rw [cell?, get?_alloc_lt cell (index_lt_of_get? h)]; exact h
      | _ => cases h
    rw [assignBelow, readField_method h]
    simp only [halloc, decide_true, Bool.true_or, if_true]
    split
    · rename_i t hw; exact absurd hw (hrefuse _ t _ hkept)
    · simp

/-- The two ways in which a write that succeeds goes on from a container that is not the last: down to what it finds
there, or to a new container that it puts there. -/
theorem assignBelow_cons_cases (h : s.assignBelow c v segment (below :: rest) = (s', none)) :
    (∃ child, child.leadsOn = true ∧ s.Finds c segment child ∧ s.assignBelow child v below rest = (s', none) ∧
      s.visits c segment (below :: rest) = ⟨s, c, segment⟩ :: s.visits child below rest) ∨
    (∃ old cell fresh t, old.leadsOn = false ∧ s.readField c segment = .ok (old, s) ∧ cell.scope? = none ∧
      fresh = .ref (s.alloc cell).1 ∧ (s.alloc cell).2.writeField c segment fresh = .ok t ∧
      t.assignBelow fresh v below rest = (s', none) ∧
      s.visits c segment (below :: rest) = ⟨s, c, segment⟩ :: t.visits fresh below rest) := by
  rw [assignBelow] at h
  rw [visits]
  cases hread : s.readField c segment with
  | error e => rw [hread] at h; cases h
  | ok found =>
    obtain ⟨child, t⟩ := found
    simp only [hread] at h
    by_cases hchild : (child = .null || child.isScalar) = true
    · have hlead : child.leadsOn = false := by simp [Value.leadsOn, hchild]
      obtain rfl := readField_store hread hlead
      obtain ⟨cell, hcell, halloc⟩ := allocFor_eq t below
      simp only [hchild, if_true, halloc] at h ⊢
      cases hw : (t.alloc cell).2.writeField c segment (.ref (t.alloc cell).1) with
      | error e => rw [hw] at h; cases h
      | ok u =>
        rw [hw] at h
        exact .inr ⟨child, cell, _, u, hlead, rfl, hcell, rfl, hw, h, rfl⟩
    · have hlead : child.leadsOn = true := by simp [Value.leadsOn, hchild]
      simp only [hchild, Bool.false_eq_true, if_false] at h ⊢
      obtain ⟨rfl, hfinds⟩ | ⟨m, rfl, rfl⟩ := readField_cases hread hlead
      · exact .inl ⟨child, hlead, hfinds, h, rfl⟩
      · have hm : (s.alloc (.method c m)).2.cell? (.ref (s.alloc (.method c m)).1) = some (.method c m) :=
          get?_alloc_self s (.method c m)
        exact absurd (by rw [h]) (assignBelow_method hm)

end Steps

/-! ## What a write leaves -/

theorem visits_ne_nil (s : Store) (c : Value) (segment : Segment) (rest : List Segment) :
    s.visits c segment rest ≠ [] := by
  cases rest <;> simp [visits]

theorem keeps_assignBelow {v : Value} {rest : List Segment} :
    ∀ {s s' : Store} {c : Value} {segment : Segment}, s.assignBelow c v segment rest = (s', none) → s.Keeps s' := by
  induction rest with
  | nil =>
    intro s s' c segment h
    rw [assignBelow] at h
    split at h
    · rename_i t hw; cases h; exact keeps_writeField hw
    · cases h
  | cons below rest ih =>
    intro s s' c segment h
    obtain ⟨child, _, _, hrest, _⟩ | ⟨old, cell, fresh, t, _, _, _, _, hw, hrest, _⟩ := assignBelow_cons_cases h
    · exact ih hrest
    · exact (keeps_alloc s cell).trans ((keeps_writeField hw).trans (ih hrest))

/-- Putting a new container where a segment does not lead on leaves every slot that does lead on. -/
theorem slot_writeField_of_leadsOn {s t : Store} {c old fresh d x : Value} {segment other : Segment} {cell : Cell}
    (hread : s.readField c segment = .ok (old, s)) (hold : old.leadsOn = false) (hcell : cell.scope? = none)
    (hw : (s.alloc cell).2.writeField c segment fresh = .ok t) (hx : s.slot d other = some x)
    (hlead : x.leadsOn = true) : t.slot d other = some x := by
  have hx' := slot_alloc cell hx
  by_cases hd : (s.alloc cell).2.storage c = d
  · obtain ⟨r, obj, obj', hr, hobj, hset, rfl, hdict⟩ := writeField_cases hw
    obtain rfl : d = .ref r := hd.symm.trans hr
    obtain ⟨obj₀, hobj₀, hfield⟩ := Option.bind_eq_some_iff.1 hx
    obtain rfl : obj₀ = obj := by
      rw [get?_alloc_lt cell (index_lt_of_get? hobj₀)] at hobj
      exact Option.some.inj (hobj₀.symm.trans hobj)
    -- the segment reads `old`, which does not lead on, so it has another slot than `other`
    have hne : obj₀.field? ((s.alloc cell).2.ownSegment c segment) ≠ some x := by
      intro hsame
      rw [ownSegment, scope?_alloc hcell] at hsame
      rw [storage, scope?_alloc hcell] at hd
      have hfinds : s.Finds c segment x := by
        cases hscope : s.scope? c with
        | none =>
          obtain rfl : c = .ref r := by simpa [hscope] using hd
          exact .inl ⟨hscope, by simpa [slot, hobj₀, hscope] using hsame⟩
        | some bp =>
          obtain ⟨b, p⟩ := bp
          obtain rfl : b = .ref r := by simpa [hscope] using hd
          have hmap : (s.mapping? (.ref r)).isSome = true := by
            rw [mapping?_eq, hobj₀]
            exact hdict (by rw [scope?_alloc hcell, hscope]; rfl)
          have hslot : s.slot (.ref r) (.name segment.keyText) = some x := by
            simpa [slot, hobj₀, hscope] using hsame
          have hown := ownerWithin_own s.size (bindingsOf_scope hscope) (valueAt?_of_slot hmap hslot)
          exact .inr ⟨by rw [hscope]; rfl, lookup?_eq_ok_some.2 ⟨c, hown⟩⟩
      rw [readField_of_finds hfinds] at hread
      cases hread
      rw [hold] at hlead
      cases hlead
    rw [slot, cell?, get?_set_self obj' (index_lt_of_get? hobj)]
    exact Cell.field?_setField?_of_ne hset hfield hne
  · rw [slot_writeField_of_ne other hd hw]
    exact hx'

/-- A slot that leads on keeps its value, unless it belongs to the last container. -/
theorem slot_assignBelow {v d x : Value} {other : Segment} (hlead : x.leadsOn = true) {rest : List Segment} :
    ∀ {s s' : Store} {c : Value} {segment : Segment}, s.assignBelow c v segment rest = (s', none) →
      s.slot d other = some x →
      (∀ final, (s.visits c segment rest).getLast? = some final → d ≠ s'.storage final.container) →
      s'.slot d other = some x := by
  induction rest with
  | nil =>
    intro s s' c segment h hx hfinal
    rw [assignBelow] at h
    split at h
    · rename_i hw
      cases h
      obtain ⟨cell, hc⟩ := exists_cell_of_writeField hw
      have hstorage : s'.storage c = s.storage c := by rw [storage, storage, (keeps_writeField hw).scope?_eq hc]
      have hd := hfinal ⟨s, c, segment⟩ rfl
      rw [slot_writeField_of_ne other (by rw [← hstorage]; exact hd.symm) hw]
      exact hx
    · cases h
  | cons below rest ih =>
    intro s s' c segment h hx hfinal
    obtain ⟨child, _, _, hrest, hvisits⟩ | ⟨old, cell, fresh, t, hold, hread, hcell, _, hw, hrest, hvisits⟩ :=
      assignBelow_cons_cases h
    · rw [hvisits, List.getLast?_cons_of_ne_nil (visits_ne_nil _ _ _ _)] at hfinal
      exact ih hrest hx hfinal
    · rw [hvisits, List.getLast?_cons_of_ne_nil (visits_ne_nil _ _ _ _)] at hfinal
      exact ih hrest (slot_writeField_of_leadsOn hread hold hcell hw hx hlead) hfinal

/-- No write sets an attribute that paths cannot name. -/
theorem hiddenAttribute?_writeField {s t : Store} {c y d x : Value} {segment : Segment} {name : String}
    (hname : isPrivate name = true) (hx : s.hiddenAttribute? d name = some x) (hw : s.writeField c segment y = .ok t) :
    t.hiddenAttribute? d name = some x := by
  obtain ⟨r, obj, obj', _, hobj, hset, rfl, _⟩ := writeField_cases hw
  obtain ⟨cell, hd, hstored⟩ := Option.bind_eq_some_iff.1 hx
  cases d with
  | ref d =>
    by_cases hdr : d = r
    · subst hdr
      obtain rfl : cell = obj := Option.some.inj (hd.symm.trans hobj)
      rw [hiddenAttribute?, cell?, get?_set_self obj' (index_lt_of_get? hobj), Option.bind_some,
        Cell.storedAttribute?_setField? hname hset, hstored]
    · rw [hiddenAttribute?, cell?, get?_set_ne obj' hdr]
      exact hx
  | _ => cases hd

theorem hiddenAttribute?_assignBelow {v d x : Value} {name : String} (hname : isPrivate name = true)
    {rest : List Segment} : ∀ {s s' : Store} {c : Value} {segment : Segment},
      s.assignBelow c v segment rest = (s', none) → s.hiddenAttribute? d name = some x →
      s'.hiddenAttribute? d name = some x := by
  induction rest with
  | nil =>
    intro s s' c segment h hx
    rw [assignBelow] at h
    split at h
    · rename_i t hw; cases h; exact hiddenAttribute?_writeField hname hx hw
    · cases h
  | cons below rest ih =>
    intro s s' c segment h hx
    obtain ⟨child, _, _, hrest, _⟩ | ⟨old, cell, fresh, t, _, _, _, _, hw, hrest, _⟩ := assignBelow_cons_cases h
    · exact ih hrest hx
    · exact ih hrest (hiddenAttribute?_writeField hname (hiddenAttribute?_alloc cell hx) hw)

theorem exists_context_iff {s : Store} {r : Ref} :
    (∃ ctx, s.context? (.ref r) = some ctx) ↔ ∃ ctx attrs, s.get? r = some (.context ctx attrs) := by
  unfold context?
  rw [cell?]
  cases s.get? r with
  | none => simp
  | some cell => cases cell <;> simp

/-- A context stays one. -/
theorem exists_context_of_writeField {s t : Store} {c y : Value} {segment : Segment} {r : Ref}
    (h : ∃ ctx, s.context? (.ref r) = some ctx) (hw : s.writeField c segment y = .ok t) :
    ∃ ctx, t.context? (.ref r) = some ctx := by
  obtain ⟨r', obj, obj', _, hobj, hset, rfl, _⟩ := writeField_cases hw
  rw [exists_context_iff] at h ⊢
  obtain ⟨ctx, attrs, hctx⟩ := h
  by_cases hr : r = r'
  · subst hr
    cases hctx.symm.trans hobj
    obtain ⟨ctx', attrs', rfl⟩ := Cell.exists_context_of_setField? hset
    exact ⟨ctx', attrs', get?_set_self _ (index_lt_of_get? hobj)⟩
  · exact ⟨ctx, attrs, by rw [get?_set_ne obj' hr]; exact hctx⟩

theorem exists_context_of_assignBelow {v : Value} {r : Ref} {rest : List Segment} :
    ∀ {s s' : Store} {c : Value} {segment : Segment}, s.assignBelow c v segment rest = (s', none) →
      (∃ ctx, s.context? (.ref r) = some ctx) → ∃ ctx, s'.context? (.ref r) = some ctx := by
  induction rest with
  | nil =>
    intro s s' c segment h hctx
    rw [assignBelow] at h
    split at h
    · rename_i t hw; cases h; exact exists_context_of_writeField hctx hw
    · cases h
  | cons below rest ih =>
    intro s s' c segment h hctx
    obtain ⟨child, _, _, hrest, _⟩ | ⟨old, cell, fresh, t, _, _, _, _, hw, hrest, _⟩ := assignBelow_cons_cases h
    · exact ih hrest hctx
    · refine ih hrest (exists_context_of_writeField ?_ hw)
      rw [exists_context_iff] at hctx ⊢
      obtain ⟨ctx, attrs, hr⟩ := hctx
      exact ⟨ctx, attrs, by rw [get?_alloc_lt cell (index_lt_of_get? hr)]; exact hr⟩

/-! ## Reading back -/

theorem separate_cons {s : Store} {u : Visit} {us : List Visit} (hne : us ≠ []) (h : s.Separate (u :: us)) :
    (∀ final, us.getLast? = some final → ∀ place, s.Searches u.container place → place ≠ s.storage final.container) ∧
      s.Separate us := by
  rw [Separate, List.getLast?_cons_of_ne_nil hne, List.dropLast_cons_of_ne_nil hne] at h
  exact ⟨fun final hf => h final hf u List.mem_cons_self,
    fun final hf w hw => h final hf w (List.mem_cons_of_mem _ hw)⟩

theorem unshadowed_cons {s : Store} {u : Visit} {us : List Visit} (hne : us ≠ []) (h : s.Unshadowed (u :: us)) :
    ((u.store.scope? u.container).isSome = true →
      ∀ x, u.store.lookup? u.container (.text u.segment.keyText) = .ok (some x) → x.leadsOn = true →
        ∀ link, u.store.LooksPast (.text u.segment.keyText) link u.container →
          s.Misses (.text u.segment.keyText) link) ∧ s.Unshadowed us := by
  rw [Unshadowed, List.dropLast_cons_of_ne_nil hne] at h
  exact ⟨h u List.mem_cons_self, fun w hw => h w (List.mem_cons_of_mem _ hw)⟩

/-- A mapping is an object, so a path leads on to it. -/
theorem leadsOn_of_isSome_mapping? {s : Store} {b : Value} (h : (s.mapping? b).isSome = true) : b.leadsOn = true := by
  cases b with
  | ref r => rfl
  | _ => cases h

/-- What stands in for a scope keeps its bindings in a slot. -/
theorem slot_bindings_iff {s : Store} {c b : Value} (hmap : s.mapping? c = none) :
    s.slot c (.name "bindings") = some b ↔ s.hiddenAttribute? c "bindings" = some b := by
  unfold slot hiddenAttribute?
  rw [mapping?_eq] at hmap
  cases hc : s.cell? c with
  | none => rfl
  | some cell =>
    rw [hc] at hmap
    have htrap : isTrapped cell "bindings" = false := by
      unfold isTrapped
      split <;> rfl
    rw [Option.bind_some, Option.bind_some, Cell.field?_name hmap, htrap]
    rfl

theorem mapping?_of_hiddenAttribute? {s : Store} {c b : Value} {name : String}
    (h : s.hiddenAttribute? c name = some b) : s.mapping? c = none := by
  obtain ⟨cell, hc, hstored⟩ := Option.bind_eq_some_iff.1 h
  rw [mapping?_eq, hc]
  cases cell <;> first | rfl | cases hstored

section Transport

variable {s s' : Store} (hkeep : s.Keeps s') {storage : Value}
  (hslot : ∀ d other x, x.leadsOn = true → s.slot d other = some x → d ≠ storage → s'.slot d other = some x)
  (hparent : ∀ c p, s.hiddenAttribute? c "_parent" = some p → s'.hiddenAttribute? c "_parent" = some p)

include hkeep hparent in
/-- Parents stay: those of scopes, and those of other objects because no path names the attribute. -/
theorem parentOf_of_keeps {c p : Value} (h : s.parentOf c = .ok p) : s'.parentOf c = .ok p := by
  rw [parentOf_eq_ok_iff] at h ⊢
  obtain ⟨b, hscope⟩ | ⟨hscope, hattr⟩ := h
  · exact .inl ⟨b, hkeep.scope?_some hscope⟩
  · obtain ⟨cell, hc, _⟩ := Option.bind_eq_some_iff.1 hattr
    exact .inr ⟨by rw [hkeep.scope?_eq hc, hscope], hparent c p hattr⟩

include hkeep hslot in
/-- A link keeps its bindings, unless they are an attribute of the last container. -/
theorem bindingsOf_of_keeps {c b : Value} (h : s.bindingsOf c = .ok b) (hmap : (s.mapping? b).isSome = true)
    (hsep : s'.storage c ≠ storage) : s'.bindingsOf c = .ok b := by
  rw [bindingsOf_eq_ok_iff] at h ⊢
  obtain ⟨p, hscope⟩ | ⟨hscope, hattr⟩ := h
  · exact .inl ⟨p, hkeep.scope?_some hscope⟩
  · obtain ⟨cell, hc, _⟩ := Option.bind_eq_some_iff.1 hattr
    have hscope' : s'.scope? c = none := by rw [hkeep.scope?_eq hc, hscope]
    have hnone : s.mapping? c = none := mapping?_of_hiddenAttribute? hattr
    have hnone' : s'.mapping? c = none := by
      rw [← Option.not_isSome_iff_eq_none, hkeep.isSome_mapping?_eq hc, hnone]
      simp
    have hne : c ≠ storage := by simpa [Store.storage, hscope'] using hsep
    have hkept := hslot c _ b (leadsOn_of_isSome_mapping? hmap) ((slot_bindings_iff hnone).2 hattr) hne
    exact .inr ⟨hscope', (slot_bindings_iff hnone').1 hkept⟩

include hkeep hslot hparent

/-- A look-up that succeeds ends at the same link as before if that link's binding is left and no link before it has
got the key. -/
theorem ownerWithin_of_keeps {t : String} {x : Value} (hlead : x.leadsOn = true) {n : Nat} : ∀ {c o : Value},
    s.ownerWithin (.text t) n c = .ok (some (o, x)) →
    (∀ a, s'.Outward c a → s'.storage a ≠ storage ∧ ∀ b, s'.bindingsOf a = .ok b → b ≠ storage) →
    (∀ link, s.LooksPast (.text t) link c → s'.Misses (.text t) link) →
    s'.ownerWithin (.text t) n c = .ok (some (o, x)) := by
  induction n with
  | zero => intro c o h; cases h
  | succ n ih =>
    intro c o h hsep hpast
    obtain ⟨b, hb, ⟨hx, rfl⟩ | ⟨hmiss, p, hp, houter⟩⟩ := ownerWithin_cases h
    · obtain ⟨hmap, hslotb⟩ := slot_of_valueAt? hx
      obtain ⟨hown, hbindings⟩ := hsep o (.self o)
      have hb' := bindingsOf_of_keeps hkeep hslot hb hmap hown
      have hkept := hslot b _ x hlead hslotb (hbindings b hb')
      exact ownerWithin_own n hb' (valueAt?_of_slot (hkeep.isSome_mapping? hmap) hkept)
    · obtain ⟨b', hb', hmiss'⟩ := hpast c (.here ⟨b, hb, hmiss⟩)
      have hp' := parentOf_of_keeps hkeep hparent hp
      rw [ownerWithin_outer n hb' hmiss' hp']
      exact ih houter (fun a ha => hsep a (.parent hp' ha))
        (fun link hlink => hpast link (.outer ⟨b, hb, hmiss⟩ hp hlink))

/-- What is held below a container is still held there if the slot it is in is left and its name is not shadowed. -/
theorem finds_of_keeps {c x : Value} {segment : Segment} (hlead : x.leadsOn = true) (h : s.Finds c segment x)
    (hsep : ∀ place, s'.Searches c place → place ≠ storage)
    (hpast : (s.scope? c).isSome = true → s.lookup? c (.text segment.keyText) = .ok (some x) →
      ∀ link, s.LooksPast (.text segment.keyText) link c → s'.Misses (.text segment.keyText) link) :
    s'.Finds c segment x := by
  obtain ⟨hscope, hx⟩ | ⟨hscope, hx⟩ := h
  · obtain ⟨cell, hc, _⟩ := Option.bind_eq_some_iff.1 hx
    have hscope' : s'.scope? c = none := by rw [hkeep.scope?_eq hc, hscope]
    have hne : c ≠ storage := by simpa [Store.storage, hscope'] using hsep _ (.own c)
    exact .inl ⟨hscope', hslot c segment x hlead hx hne⟩
  · obtain ⟨⟨b, p⟩, hbp⟩ := Option.isSome_iff_exists.1 hscope
    have hscope' : (s'.scope? c).isSome = true := by rw [hkeep.scope?_some hbp]; rfl
    obtain ⟨o, ho⟩ := lookup?_eq_ok_some.1 hx
    have hlinks : ∀ a, s'.Outward c a → s'.storage a ≠ storage ∧ ∀ b, s'.bindingsOf a = .ok b → b ≠ storage :=
      fun a ha => ⟨hsep _ (.link hscope' ha), fun b hb => hsep b (.bindings hscope' ha hb)⟩
    have ho' := ownerWithin_of_keeps hkeep hslot hparent hlead ho hlinks (hpast hscope hx)
    refine .inr ⟨hscope', lookup?_eq_ok_some.2 ⟨o, ?_⟩⟩
    exact ownerWithin_le (Nat.succ_le_succ hkeep.1) ho'

end Transport

theorem readBelow_of_finds {s : Store} {c x v : Value} {segment : Segment} {rest : List Segment}
    (h : s.Finds c segment x) (hrest : s.readBelow x rest = .ok (v, s)) :
    s.readBelow c (segment :: rest) = .ok (v, s) := by
  have hc : c ≠ .null := by
    rintro rfl
    obtain ⟨_, hx⟩ | ⟨hx, _⟩ := h <;> cases hx
  rw [readBelow, if_neg hc, readField_of_finds h]
  exact hrest

/-- A step that leads to `x` before the rest of the write still leads to `x` after it. -/
theorem finds_assignBelow {s s' : Store} {c x y v : Value} {segment below : Segment} {rest : List Segment}
    (hlead : x.leadsOn = true) (hfinds : s.Finds c segment x) (hrest : s.assignBelow y v below rest = (s', none))
    (hsep : ∀ final, (s.visits y below rest).getLast? = some final → ∀ place, s'.Searches c place →
      place ≠ s'.storage final.container)
    (hpast : (s.scope? c).isSome = true → s.lookup? c (.text segment.keyText) = .ok (some x) →
      ∀ link, s.LooksPast (.text segment.keyText) link c → s'.Misses (.text segment.keyText) link) :
    s'.Finds c segment x := by
  obtain ⟨final, hfinal⟩ : ∃ final, (s.visits y below rest).getLast? = some final :=
    ⟨_, List.getLast?_eq_some_getLast (visits_ne_nil _ _ _ _)⟩
  refine finds_of_keeps (keeps_assignBelow hrest) (fun d other z hz hd hne => ?_)
    (fun _ _ => hiddenAttribute?_assignBelow rfl hrest) hlead hfinds (hsep final hfinal) hpast
  refine slot_assignBelow hz hrest hd fun final' hfinal' => ?_
  rw [hfinal] at hfinal'
  cases hfinal'
  exact hne

/-- What is written below a container is read back, if the write cuts none of the steps it has followed. -/
theorem readBelow_assignBelow {v : Value} {rest : List Segment} :
    ∀ {s s' : Store} {c : Value} {segment : Segment}, s.assignBelow c v segment rest = (s', none) →
      s'.Separate (s.visits c segment rest) → s'.Unshadowed (s.visits c segment rest) →
      s'.readBelow c (segment :: rest) = .ok (v, s') := by
  induction rest with
  | nil =>
    intro s s' c segment h _ _
    rw [assignBelow] at h
    split at h
    · rename_i hw
      cases h
      exact readBelow_of_finds (finds_writeField hw) rfl
    · cases h
  | cons below rest ih =>
    intro s s' c segment h hsep hun
    obtain ⟨child, hlead, hfinds, hrest, hvisits⟩ |
      ⟨old, cell, fresh, t, hold, hread, hcell, hfresh, hw, hrest, hvisits⟩ := assignBelow_cons_cases h
    · rw [hvisits] at hsep hun
      obtain ⟨hsep₁, hsep⟩ := separate_cons (visits_ne_nil _ _ _ _) hsep
      obtain ⟨hun₁, hun⟩ := unshadowed_cons (visits_ne_nil _ _ _ _) hun
      have hfinds' := finds_assignBelow hlead hfinds hrest hsep₁ (fun hc hl => hun₁ hc child hl hlead)
      exact readBelow_of_finds hfinds' (ih hrest hsep hun)
    · rw [hvisits] at hsep hun
      obtain ⟨hsep₁, hsep⟩ := separate_cons (visits_ne_nil _ _ _ _) hsep
      obtain ⟨_, hun⟩ := unshadowed_cons (visits_ne_nil _ _ _ _) hun
      have hlead : fresh.leadsOn = true := by rw [hfresh]; rfl
      -- the new container stands in the scope's own bindings, so its look-up goes past nothing
      have hpast : (t.scope? c).isSome = true → ∀ link, ¬ t.LooksPast (.text segment.keyText) link c := by
        intro hscope link hlink
        obtain ⟨⟨b, p⟩, hbp⟩ := Option.isSome_iff_exists.1 hscope
        have hmiss : t.Misses (.text segment.keyText) c := by
          cases hlink with
          | here hmiss => exact hmiss
          | outer hmiss => exact hmiss
        obtain ⟨b', hb', hnone⟩ := hmiss
        rw [bindingsOf_scope hbp] at hb'
        cases hb'
        obtain ⟨obj, hc⟩ := exists_cell_of_writeField hw
        rw [(keeps_writeField hw).scope?_eq hc] at hbp
        rw [valueAt?_writeField hbp hw] at hnone
        cases hnone
      have hfinds' := finds_assignBelow hlead (finds_writeField hw) hrest hsep₁
        (fun hscope _ link hlink => absurd hlink (hpast hscope link))
      exact readBelow_of_finds hfinds' (ih hrest hsep hun)

/-- A write that succeeds starts from the context object or the variables and has a segment to follow. -/
theorem assign_cases {s s' : Store} {p : Path} {v : Value} {ctx : Context} (h : s.assign p v ctx = (s', none)) :
    ∃ segment rest, p.segments = segment :: rest ∧ p.root ≠ .lastValue ∧ ctx.rootValue p.root ≠ .null ∧
      s.assignBelow (ctx.rootValue p.root) v segment rest = (s', none) := by
  unfold assign at h
  by_cases hroot : p.root = .lastValue
  · simp [hroot] at h
  · cases hp : p.segments with
    | nil => simp [hroot, hp] at h
    | cons segment rest =>
      by_cases hnull : ctx.rootValue p.root = .null
      · simp [hroot, hp, hnull] at h
      · exact ⟨segment, rest, rfl, hroot, hnull, by simpa [hroot, hp, hnull] using h⟩

end Store

/-- **What is written at a path is read back from it**, the very value and without a change of the store, for every mix
of containers and however they are shared: the last container is separate from the earlier ones, no name that the path
found in an outer scope gets bound in a nearer one, and the context still holds what the path starts from. -/
theorem read_assign {s s' : Store} {r : Ref} {ctx : Context} {p : Path} {v : Value}
    (hctx : s.context? (.ref r) = some ctx) (h : s.assign p v ctx = (s', none)) (hsep : s'.Separate (s.route p ctx))
    (hun : s'.Unshadowed (s.route p ctx)) (hroot : s.Anchored s' (.ref r) p.root) :
    ∃ ctx', s'.context? (.ref r) = some ctx' ∧ s'.read p ctx' = .ok (v, s') := by
  obtain ⟨segment, rest, hp, _, _, hbelow⟩ := Store.assign_cases h
  obtain ⟨ctx', hctx'⟩ := Store.exists_context_of_assignBelow hbelow ⟨ctx, hctx⟩
  simp only [Store.route, hp] at hsep hun
  refine ⟨ctx', hctx', ?_⟩
  rw [Store.read, hp, hroot ctx ctx' hctx hctx']
  exact Store.readBelow_assignBelow hbelow hsep hun

/-! ## A name that gets shadowed -/

namespace Shadowing

/-- A scope with a parent: the variable `a` of the parent holds a dictionary whose `b` is the inner bindings. The last
object is a context with the inner scope as variables. -/
def store : Store :=
  ⟨#[.dict [], .dict [(.text "b", .ref ⟨0⟩)], .dict [(.text "a", .ref ⟨1⟩)], .scope (.ref ⟨2⟩) .null,
    .scope (.ref ⟨0⟩) (.ref ⟨3⟩), .context ⟨.null, .ref ⟨4⟩, .null⟩ []]⟩

/-- The context. -/
def context : Context := ⟨.null, .ref ⟨4⟩, .null⟩

/-- The store after a write of 1 below `a.b`, by way of a new dictionary at `name` in the inner bindings. -/
def after (name : String) : Store :=
  ⟨#[.dict [(.text name, .ref ⟨6⟩)], .dict [(.text "b", .ref ⟨0⟩)], .dict [(.text "a", .ref ⟨1⟩)],
    .scope (.ref ⟨2⟩) .null, .scope (.ref ⟨0⟩) (.ref ⟨3⟩), .context ⟨.null, .ref ⟨4⟩, .null⟩ [],
    .dict [(.text "c", .int 1)]]⟩

/-- The path `a.b.name.c`. -/
def path (name : String) : Path :=
  ⟨.scope, [.name "a", .name "b", .name name, .name "c"], "a.b." ++ name ++ ".c"⟩

/-- The links outward from the inner scope. -/
theorem outward_mem {name : String} {c a : Value} (h : (after name).Outward c a) :
    c ∈ [.ref ⟨3⟩, .ref ⟨4⟩, .null] → a ∈ [Value.ref ⟨3⟩, .ref ⟨4⟩, .null] := by
  induction h with
  | self c => exact id
  | @parent c p a hparent _ ih =>
    intro hc
    simp only [List.mem_cons, List.not_mem_nil, or_false] at hc
    obtain rfl | rfl | rfl := hc <;> cases hparent
    · exact ih (by simp)
    · exact ih (by simp)

/-- The new dictionary is separate from all that the path has used before it. -/
theorem separate {name : String} {us : List Visit}
    (h : us.map Visit.container = [.ref ⟨4⟩, .ref ⟨1⟩, .ref ⟨0⟩, .ref ⟨6⟩]) : (after name).Separate us := by
  intro final hfinal u hu place hplace
  have hcontainer : final.container = .ref ⟨6⟩ := by
    have hlast := List.getLast?_map (f := Visit.container) (l := us)
    rw [h, hfinal] at hlast
    exact (Option.some.inj hlast).symm
  have hmem : u.container ∈ [Value.ref ⟨4⟩, .ref ⟨1⟩, .ref ⟨0⟩] := by
    have hdrop := List.map_dropLast (f := Visit.container) (l := us)
    rw [h] at hdrop
    have : u.container ∈ us.dropLast.map Visit.container := List.mem_map_of_mem hu
    rw [hdrop] at this
    exact this
  have hstorage : (after name).storage (.ref ⟨6⟩) = .ref ⟨6⟩ := rfl
  rw [hcontainer, hstorage]
  generalize u.container = c at hplace hmem
  simp only [List.mem_cons, List.not_mem_nil, or_false] at hmem
  -- of the three containers only the first is a scope
  have hinner : ((after name).scope? c).isSome = true → c = .ref ⟨4⟩ := by
    rintro hscope
    obtain rfl | rfl | rfl := hmem
    · rfl
    · cases hscope
    · cases hscope
  cases hplace with
  | own => obtain rfl | rfl | rfl := hmem <;> simp [Store.storage, Store.scope?, Store.cell?, Store.get?, after]
  | link hscope hout =>
    have ha := outward_mem hout (by simp [hinner hscope])
    simp only [List.mem_cons, List.not_mem_nil, or_false] at ha
    obtain rfl | rfl | rfl := ha <;> simp [Store.storage, Store.scope?, Store.cell?, Store.get?, after]
  | bindings hscope hout hb =>
    have ha := outward_mem hout (by simp [hinner hscope])
    simp only [List.mem_cons, List.not_mem_nil, or_false] at ha
    obtain rfl | rfl | rfl := ha <;> cases hb <;> simp

theorem route_d : store.route (path "d") context =
    [⟨store, .ref ⟨4⟩, .name "a"⟩, ⟨store, .ref ⟨1⟩, .name "b"⟩, ⟨store, .ref ⟨0⟩, .name "d"⟩,
      ⟨(after "d").set ⟨6⟩ (.dict []), .ref ⟨6⟩, .name "c"⟩] := by
  rfl

/-- The look-up of `a` goes past the inner scope only. -/
theorem looksPast_a {link : Value} (h : store.LooksPast (.text "a") link (.ref ⟨4⟩)) : link = .ref ⟨4⟩ := by
  cases h with
  | here => rfl
  | outer _ hparent h =>
    cases hparent
    have hfound : ¬ store.Misses (.text "a") (.ref ⟨3⟩) := by
      rintro ⟨b, hb, hmiss⟩
      cases hb
      cases hmiss
    cases h with
    | here hmiss => exact absurd hmiss hfound
    | outer hmiss => exact absurd hmiss hfound

/-- The new name `d` is none that the path has looked up. -/
theorem unshadowed_d : (after "d").Unshadowed (store.route (path "d") context) := by
  rw [route_d]
  intro u hu hscope x hx hlead link hlink
  simp only [List.dropLast, List.mem_cons, List.not_mem_nil, or_false] at hu
  obtain rfl | rfl | rfl := hu
  · obtain rfl := looksPast_a hlink
    exact ⟨.ref ⟨0⟩, rfl, rfl⟩
  · cases hscope
  · cases hscope

/-- The context is none of the objects that change. -/
theorem anchored (name : String) : store.Anchored (after name) (.ref ⟨5⟩) .scope := by
  intro ctx ctx' hctx hctx'
  cases hctx
  cases hctx'
  rfl

end Shadowing

open Shadowing in
/-- A new container in the bindings of a scope that the path has used, under a name that the path has not looked up. -/
theorem read_assign_new_name :
    store.assign (path "d") (.int 1) context = (after "d", none) ∧
      ∃ ctx, (after "d").context? (.ref ⟨5⟩) = some ctx ∧ (after "d").read (path "d") ctx = .ok (.int 1, after "d") := by
  have h : store.assign (path "d") (.int 1) context = (after "d", none) := rfl
  exact ⟨h, read_assign rfl h (separate (by rw [route_d]; rfl)) unshadowed_d (anchored "d")⟩

/-! ## A context that is on the path -/

namespace Anchoring

/-- A function `f` among the variables that it captured itself, in the context that is in use. The last object is
empty. -/
def store : Store :=
  ⟨#[.dict [(.text "f", .ref ⟨3⟩)], .scope (.ref ⟨0⟩) .null, .context ⟨.null, .ref ⟨1⟩, .null⟩ [],
    .closure ⟨.null, .null, .ref ⟨2⟩, .null⟩ [], .dict []]⟩

/-- The captured context. -/
def context : Context := ⟨.null, .ref ⟨1⟩, .null⟩

/-- The store after the empty object has become the captured variables. -/
def after : Store := store.set ⟨2⟩ (.context ⟨.null, .ref ⟨4⟩, .null⟩ [])

/-- The path `f.closure.variables`. -/
def path : Path := ⟨.scope, [.name "f", .name "closure", .name "variables"], "f.closure.variables"⟩

theorem route_eq : store.route path context =
    [⟨store, .ref ⟨1⟩, .name "f"⟩, ⟨store, .ref ⟨3⟩, .name "closure"⟩, ⟨store, .ref ⟨2⟩, .name "variables"⟩] := by
  rfl

/-- The links outward from the variables. -/
theorem outward_mem {c a : Value} (h : after.Outward c a) : c ∈ [.ref ⟨1⟩, .null] → a ∈ [Value.ref ⟨1⟩, .null] := by
  induction h with
  | self c => exact id
  | @parent c p a hparent _ ih =>
    intro hc
    simp only [List.mem_cons, List.not_mem_nil, or_false] at hc
    obtain rfl | rfl := hc <;> cases hparent
    exact ih (by simp)

theorem separate : after.Separate (store.route path context) := by
  rw [route_eq]
  intro final hfinal u hu place hplace
  obtain rfl : (⟨store, .ref ⟨2⟩, .name "variables"⟩ : Visit) = final := Option.some.inj hfinal
  have hstorage : after.storage (.ref ⟨2⟩) = .ref ⟨2⟩ := rfl
  rw [hstorage]
  simp only [List.dropLast, List.mem_cons, List.not_mem_nil, or_false] at hu
  obtain rfl | rfl := hu
  · cases hplace with
    | own => simp [Store.storage, Store.scope?, Store.cell?, Store.get?, Store.set, after, store]
    | link hscope hout =>
      have ha := outward_mem hout (by simp)
      simp only [List.mem_cons, List.not_mem_nil, or_false] at ha
      obtain rfl | rfl := ha <;> simp [Store.storage, Store.scope?, Store.cell?, Store.get?, Store.set, after, store]
    | bindings hscope hout hb =>
      have ha := outward_mem hout (by simp)
      simp only [List.mem_cons, List.not_mem_nil, or_false] at ha
      obtain rfl | rfl := ha <;> cases hb
      simp
  · cases hplace with
    | own => simp [Store.storage, Store.scope?, Store.cell?, Store.get?, Store.set, after, store]
    | link hscope => cases hscope
    | bindings hscope => cases hscope

/-- Nothing is missed on the way. -/
theorem unshadowed : after.Unshadowed (store.route path context) := by
  rw [route_eq]
  intro u hu hscope x hx hlead link hlink
  simp only [List.dropLast, List.mem_cons, List.not_mem_nil, or_false] at hu
  obtain rfl | rfl := hu
  · have hfound : ¬ store.Misses (.text "f") (.ref ⟨1⟩) := by
      rintro ⟨b, hb, hmiss⟩
      cases hb
      cases hmiss
    cases hlink with
    | here hmiss => exact absurd hmiss hfound
    | outer hmiss => exact absurd hmiss hfound
  · cases hscope

end Anchoring

/-- Separate containers alone are not enough. The write at `a.b.a.c` binds `a` in the inner scope, and the path then
leads into the new dictionary. The write at `f.closure.variables` to the context in use makes the path start elsewhere. -/
theorem not_read_assign_of_separate :
    (¬ ∀ (s s' : Store) (r : Ref) (ctx : Context) (text : String) (p : Path) (v : Value), Path.parse text = .ok p →
      s.context? (.ref r) = some ctx → s.assign p v ctx = (s', none) → s'.Separate (s.route p ctx) →
      s.Anchored s' (.ref r) p.root → ∃ ctx' t, s'.context? (.ref r) = some ctx' ∧ s'.read p ctx' = .ok (v, t)) ∧
    ¬ ∀ (s s' : Store) (r : Ref) (ctx : Context) (text : String) (p : Path) (v : Value), Path.parse text = .ok p →
      s.context? (.ref r) = some ctx → s.assign p v ctx = (s', none) → s'.Separate (s.route p ctx) →
      s'.Unshadowed (s.route p ctx) → ∃ ctx' t, s'.context? (.ref r) = some ctx' ∧ s'.read p ctx' = .ok (v, t) := by
  constructor
  · intro hall
    have hparse : Path.parse "a.b.a.c" = .ok (Shadowing.path "a") := by
      simp [Path.parse, Path.scan, Path.inName]
      rfl
    have hassign : Shadowing.store.assign (Shadowing.path "a") (.int 1) Shadowing.context = (Shadowing.after "a", none) :=
      rfl
    have hroute : (Shadowing.store.route (Shadowing.path "a") Shadowing.context).map Visit.container =
        [.ref ⟨4⟩, .ref ⟨1⟩, .ref ⟨0⟩, .ref ⟨6⟩] := rfl
    have hread : (Shadowing.after "a").read (Shadowing.path "a") Shadowing.context =
        .ok (.null, Shadowing.after "a") := rfl
    obtain ⟨ctx, t, hctx, ht⟩ := hall _ _ ⟨5⟩ _ _ _ _ hparse rfl hassign (Shadowing.separate hroute)
      (Shadowing.anchored "a")
    cases hctx
    cases ht.symm.trans hread
  · intro hall
    have hparse : Path.parse "f.closure.variables" = .ok Anchoring.path := by
      simp [Path.parse, Path.scan, Path.inName]
      rfl
    have hassign : Anchoring.store.assign Anchoring.path (.ref ⟨4⟩) Anchoring.context = (Anchoring.after, none) := rfl
    have hread : Anchoring.after.read Anchoring.path ⟨.null, .ref ⟨4⟩, .null⟩ = .ok (.null, Anchoring.after) := rfl
    obtain ⟨ctx, t, hctx, ht⟩ := hall _ _ ⟨2⟩ _ _ _ _ hparse rfl hassign Anchoring.separate Anchoring.unshadowed
    cases hctx
    cases ht.symm.trans hread

end ListScript
