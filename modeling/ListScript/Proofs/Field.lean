import ListScript.Proofs.Plain
import ListScript.Proofs.Slot

/-!
# Reading and writing one segment

What `Store.readField` and `Store.writeField` do, said through the slots of single objects.

- a write sets one slot of one object, the container's storage (`Store.writeField_cases`);
- what leads a path on (it is neither null nor a scalar) is held in a slot of the container or on the chain of a scope,
  or is a method that was bound anew (`Store.readField_cases`);
- a write is read back (`Store.finds_writeField`, `Store.readField_of_finds`).
-/

namespace ListScript

/-- Whether a path goes on below a value instead of replacing it. -/
def Value.leadsOn (v : Value) : Bool := !(v = .null || v.isScalar)

namespace Store

/-! ## Objects that keep their kind -/

/-- The slot of a value that a segment selects. -/
def slot (s : Store) (v : Value) (segment : Segment) : Option Value := (s.cell? v).bind (·.field? segment)

/-- Where a container keeps its entries: a scope in its bindings, any other container in itself. -/
def storage (s : Store) (c : Value) : Value := ((s.scope? c).map Prod.fst).getD c

/-- Every object of the first store is in the second: a scope as it was, a dictionary as a dictionary. -/
def Keeps (s s' : Store) : Prop :=
  s.size ≤ s'.size ∧ ∀ r c, s.get? r = some c →
    ∃ c', s'.get? r = some c' ∧ c'.scope? = c.scope? ∧ c'.entries?.isSome = c.entries?.isSome

theorem scope?_eq (s : Store) (v : Value) : s.scope? v = (s.cell? v).bind Cell.scope? := by
  unfold scope?
  cases s.cell? v with
  | none => rfl
  | some c => cases c <;> rfl

theorem mapping?_eq (s : Store) (v : Value) : s.mapping? v = (s.cell? v).bind Cell.entries? := by
  unfold mapping?
  cases s.cell? v with
  | none => rfl
  | some c => cases c <;> rfl

theorem index_lt_of_get? {s : Store} {r : Ref} {c : Cell} (h : s.get? r = some c) : r.index < s.size :=
  (Array.getElem?_eq_some_iff.1 h).1

theorem Keeps.trans {s t u : Store} (hst : s.Keeps t) (htu : t.Keeps u) : s.Keeps u := by
  refine ⟨Nat.le_trans hst.1 htu.1, fun r c hc => ?_⟩
  obtain ⟨c', hc', hscope, hentries⟩ := hst.2 r c hc
  obtain ⟨c'', hc'', hscope', hentries'⟩ := htu.2 r c' hc'
  exact ⟨c'', hc'', hscope'.trans hscope, hentries'.trans hentries⟩

theorem keeps_alloc (s : Store) (c : Cell) : s.Keeps (s.alloc c).2 := by
  refine ⟨by simp, fun r c' hc' => ⟨c', ?_, rfl, rfl⟩⟩
  rw [get?_alloc_lt c (index_lt_of_get? hc')]
  exact hc'

theorem keeps_set {s : Store} {r : Ref} {c c' : Cell} (hc : s.get? r = some c) (hscope : c'.scope? = c.scope?)
    (hentries : c'.entries?.isSome = c.entries?.isSome) : s.Keeps (s.set r c') := by
  refine ⟨by simp, fun r' d hd => ?_⟩
  by_cases h : r' = r
  · subst h
    rw [hc] at hd
    cases hd
    exact ⟨c', get?_set_self c' (index_lt_of_get? hc), hscope, hentries⟩
  · exact ⟨d, by rw [get?_set_ne c' h]; exact hd, rfl, rfl⟩

/-- An object that was there is a scope as before. -/
theorem Keeps.scope?_eq {s s' : Store} (h : s.Keeps s') {v : Value} {c : Cell} (hc : s.cell? v = some c) :
    s'.scope? v = s.scope? v := by
  cases v with
  | ref r =>
    obtain ⟨c', hc', hscope, _⟩ := h.2 r c hc
    have hr : s.get? r = some c := hc
    simpa [Store.scope?_eq, cell?, hc', hr] using hscope
  | _ => cases hc

theorem Keeps.scope?_some {s s' : Store} (h : s.Keeps s') {v b p : Value} (hv : s.scope? v = some (b, p)) :
    s'.scope? v = some (b, p) := by
  have hv' := hv
  rw [Store.scope?_eq] at hv'
  obtain ⟨c, hc, _⟩ := Option.bind_eq_some_iff.1 hv'
  rw [h.scope?_eq hc, hv]

/-- An object that was there is a dictionary if it was one before. -/
theorem Keeps.isSome_mapping?_eq {s s' : Store} (h : s.Keeps s') {v : Value} {c : Cell} (hc : s.cell? v = some c) :
    (s'.mapping? v).isSome = (s.mapping? v).isSome := by
  cases v with
  | ref r =>
    obtain ⟨c', hc', _, hentries⟩ := h.2 r c hc
    rw [mapping?_eq, mapping?_eq, cell?, cell?, hc', show s.get? r = some c from hc, Option.bind_some, Option.bind_some,
      hentries]
  | _ => cases hc

theorem Keeps.isSome_mapping? {s s' : Store} (h : s.Keeps s') {v : Value} (hv : (s.mapping? v).isSome = true) :
    (s'.mapping? v).isSome = true := by
  obtain ⟨_, hmap⟩ := Option.isSome_iff_exists.1 hv
  rw [mapping?_eq] at hmap
  obtain ⟨c, hc, _⟩ := Option.bind_eq_some_iff.1 hmap
  rw [h.isSome_mapping?_eq hc, hv]

/-! ## Texts as keys -/

theorem checkHashable_text (s : Store) (t : String) : s.checkHashable (.text t) = .ok () := rfl

/-- A text is found as a key by its content, whatever its flavor. -/
theorem sameKey_of_text? (s : Store) {key : Value} {name : String} (hkey : key.text? = some name) :
    s.sameKey key = Value.immediateEq (.text name) := by
  cases key with
  | str text flavor =>
    cases hkey
    funext k
    have hequal : s.equal (.str name flavor) k = (Value.text name).immediateEq k := by cases k <;> rfl
    have hclosure : s.isClosure (.str name flavor) = false := rfl
    simp only [sameKey, hequal, hclosure, Bool.not_false, Bool.true_and, Bool.or_eq_right_iff_imp, beq_iff_eq]
    rintro rfl
    exact Value.immediateEq_text_iff.2 rfl
  | _ => cases hkey

theorem sameKey_text (s : Store) (t : String) : s.sameKey (.text t) = Value.immediateEq (.text t) :=
  s.sameKey_of_text? rfl

theorem valueAt?_text {s : Store} {b : Value} {entries : Entries} (h : s.mapping? b = some entries) (t : String) :
    s.valueAt? b (.text t) = .ok (entries.atSegment (.name t)) := by
  rw [valueAt?, h, sameKey_text]
  rfl

/-- The slots of a dictionary are its entries. -/
theorem slot_of_mapping? {s : Store} {c : Value} {entries : Entries} (h : s.mapping? c = some entries) (segment : Segment) :
    s.slot c segment = entries.atSegment segment := by
  rw [mapping?_eq] at h
  obtain ⟨cell, hc, he⟩ := Option.bind_eq_some_iff.1 h
  rw [slot, hc, Option.bind_some]
  cases cell <;> cases he <;> rfl

/-- A binding that is found stands in a slot of the bindings. -/
theorem slot_of_valueAt? {s : Store} {b x : Value} {t : String} (h : s.valueAt? b (.text t) = .ok (some x)) :
    (s.mapping? b).isSome = true ∧ s.slot b (.name t) = some x := by
  cases hm : s.mapping? b with
  | none =>
    rw [valueAt?, hm] at h
    exact absurd h valueElsewhere?_ne_some
  | some entries =>
    rw [valueAt?_text hm] at h
    injection h with h
    exact ⟨rfl, (slot_of_mapping? hm _).trans h⟩

theorem valueAt?_of_slot {s : Store} {b x : Value} {t : String} (hm : (s.mapping? b).isSome = true)
    (hx : s.slot b (.name t) = some x) : s.valueAt? b (.text t) = .ok (some x) := by
  obtain ⟨entries, he⟩ := Option.isSome_iff_exists.1 hm
  rw [valueAt?_text he, ← hx, slot_of_mapping? he]

/-! ## Writing -/

/-- The segment by which the storage of a container has the slot: a scope binds texts only. -/
def ownSegment (s : Store) (c : Value) (segment : Segment) : Segment :=
  if (s.scope? c).isSome then .name segment.keyText else segment

theorem setEntry_text_cases {s s' : Store} {b v : Value} {t : String} (h : s.setEntry b (.text t) v = .ok s') :
    ∃ r entries, b = .ref r ∧ s.get? r = some (.dict entries) ∧
      s' = s.set r (.dict (entries.setSegment (.name t) v)) := by
  unfold setEntry at h
  split at h
  · rename_i r entries hd
    rw [checkHashable_text, sameKey_text] at h
    cases h
    unfold dict? at hd
    split at hd
    · rename_i hc
      cases hd
      exact ⟨r, entries, rfl, hc, rfl⟩
    · cases hd
  · cases h

theorem writeItem_cases {s s' : Store} {c v : Value} {n : Nat} (h : s.writeItem c n v = .ok s') :
    ∃ r cell cell', c = .ref r ∧ s.get? r = some cell ∧ cell.setField? (.index n) v = some cell' ∧
      s' = s.set r cell' := by
  unfold writeItem at h
  split at h
  · rename_i r items attrs hc
    by_cases h13 : n = 13
    · simp [h13] at h
    · by_cases h14 : n = 14
      · simp [h14] at h
      · simp only [h13, h14, if_false] at h
        cases h
        exact ⟨r, _, _, rfl, hc, by simp [Cell.setField?, h13, h14], rfl⟩
  · cases h

theorem setAttribute_cases {s s' : Store} {c v : Value} {name : String} (h : s.setAttribute c name v = .ok s') :
    ∃ r cell cell', c = .ref r ∧ s.get? r = some cell ∧ isTrapped cell name = false ∧
      withAttribute? cell name v = some cell' ∧ s' = s.set r cell' := by
  unfold setAttribute at h
  split at h
  · rename_i r cell hc
    split at h
    · cases h
    · rename_i htrap
      split at h
      · rename_i cell' hw
        cases h
        exact ⟨r, cell, cell', rfl, hc, Bool.eq_false_iff.2 htrap, hw, rfl⟩
      · cases h
  · cases h

theorem setField?_of_withAttribute? {c c' : Cell} {name : String} {v : Value} (hopen : isPrivate name = false)
    (htrap : isTrapped c name = false) (h : withAttribute? c name v = some c') :
    c.setField? (.name name) v = some c' := by
  cases c with
  | dict entries => cases h
  | object cls attrs => cases cls <;> simpa [Cell.setField?, hopen, htrap] using h
  | _ => simpa [Cell.setField?, hopen, htrap] using h

/-- A write to a container that is no scope sets a slot of it. -/
theorem writeField_cases_of_not_scope {s s' : Store} {c v : Value} {segment : Segment} (hscope : s.scope? c = none)
    (h : s.writeField c segment v = .ok s') :
    ∃ r cell cell', c = .ref r ∧ s.get? r = some cell ∧ cell.setField? segment v = some cell' ∧ s' = s.set r cell' := by
  unfold writeField at h
  rw [hscope] at h
  simp only [Option.isSome_none, Bool.false_eq_true, if_false] at h
  split at h
  · rename_i r entries hc
    cases h
    exact ⟨r, _, _, rfl, hc, rfl, rfl⟩
  · rename_i r items flavor hc
    cases segment with
    | name text => cases h
    | index n =>
      cases hs : setElement items n v with
      | error e => simp only [hs] at h; cases h
      | ok items' =>
        simp only [hs] at h
        cases h
        exact ⟨r, _, .list items' flavor, rfl, hc, by simp [Cell.setField?, hs], rfl⟩
  · split at h
    · generalize s.print _ = shown at h
      cases shown <;> cases h
    · cases segment with
      | index n => exact writeItem_cases h
      | name text =>
        cases hp : isPrivate text with
        | true => simp [hp] at h
        | false =>
          simp only [hp, Bool.false_eq_true, if_false] at h
          obtain ⟨r, cell, cell', rfl, hc, htrap, hw, rfl⟩ := setAttribute_cases h
          exact ⟨r, cell, cell', rfl, hc, setField?_of_withAttribute? hp htrap hw, rfl⟩

/-- A write sets one slot of the storage of the container. -/
theorem writeField_cases {s s' : Store} {c v : Value} {segment : Segment}
    (h : s.writeField c segment v = .ok s') :
    ∃ r cell cell', s.storage c = .ref r ∧ s.get? r = some cell ∧
      cell.setField? (s.ownSegment c segment) v = some cell' ∧ s' = s.set r cell' ∧
      ((s.scope? c).isSome = true → cell.entries?.isSome = true) := by
  cases hscope : s.scope? c with
  | none =>
    obtain ⟨r, cell, cell', rfl, hc, hset, rfl⟩ := writeField_cases_of_not_scope hscope h
    refine ⟨r, cell, cell', by simp [storage, hscope], hc, by simpa [ownSegment, hscope] using hset, rfl, ?_⟩
    intro e
    cases e
  | some bp =>
    obtain ⟨b, p⟩ := bp
    have hbind : s.setEntry b (.text segment.keyText) v = .ok s' := by
      simpa [writeField, hscope, bind, Value.isText, Value.text, Value.text?] using h
    obtain ⟨r, entries, rfl, hc, rfl⟩ := setEntry_text_cases hbind
    refine ⟨r, _, _, by simp [storage, hscope], hc, ?_, rfl, fun _ => rfl⟩
    simp [ownSegment, hscope, Cell.setField?]

theorem keeps_writeField {s s' : Store} {c v : Value} {segment : Segment} (h : s.writeField c segment v = .ok s') :
    s.Keeps s' := by
  obtain ⟨r, cell, cell', _, hc, hset, rfl, _⟩ := writeField_cases h
  obtain ⟨hscope, hscope', hentries⟩ := Cell.setField?_kind hset
  exact keeps_set hc (hscope'.trans hscope.symm) hentries

/-- A write leaves the slots of every other object. -/
theorem slot_writeField_of_ne {s s' : Store} {c v d : Value} {segment : Segment} (other : Segment)
    (hd : s.storage c ≠ d) (h : s.writeField c segment v = .ok s') : s'.slot d other = s.slot d other := by
  obtain ⟨r, cell, cell', hr, hc, hset, rfl, _⟩ := writeField_cases h
  cases d with
  | ref r' =>
    have hne : r' ≠ r := fun e => hd (by rw [hr, e])
    simp only [slot, cell?, get?_set_ne cell' hne]
  | _ => rfl

/-! ## Reading -/

/-- A value is held below a container, so that reading it makes no new object: in a slot of the container, or in the
bindings of a scope or of one around it. -/
def Finds (s : Store) (c : Value) (segment : Segment) (x : Value) : Prop :=
  (s.scope? c = none ∧ s.slot c segment = some x) ∨
  ((s.scope? c).isSome = true ∧ s.lookup? c (.text segment.keyText) = .ok (some x))

theorem readField_scope {s : Store} {c b p : Value} (segment : Segment) (h : s.scope? c = some (b, p)) :
    s.readField c segment = (s.lookup? c (.text segment.keyText)).map fun found => (found.getD .null, s) := by
  simp only [readField, h, Option.isSome_some, if_true]
  cases s.lookup? c (.text segment.keyText) <;> rfl

/-- What leads on is not read in place of something that is missing. -/
theorem eq_some_of_getD_null {found : Option Value} {x : Value} (h : found.getD .null = x) (hx : x.leadsOn = true) :
    found = some x := by
  cases found with
  | none => cases h; cases hx
  | some y => exact congrArg some h

/-- Reading an item is reading a slot, except that the item may be refused. -/
theorem readItem_leadsOn {s : Store} {c x : Value} {n : Nat} (hmap : s.mapping? c = none)
    (h : s.readItem c n = .ok x) (hx : x.leadsOn = true) : s.slot c (.index n) = some x := by
  have hget : ∀ o : Option Value, o.getD .null = x → o = some x := fun _ ho => eq_some_of_getD_null ho hx
  unfold readItem at h
  split at h
  · cases h
    rename_i text flavor
    cases hc : text.toList[n]? <;> simp [hc, Value.leadsOn, Value.text, Value.isScalar] at hx
  · cases h
    rename_i content
    cases hc : content[n]? <;> simp [hc, Value.leadsOn, Value.isScalar] at hx
  · split at h
    · rename_i hc; cases h; rw [slot, hc]; exact hget _ rfl
    · rename_i hc; cases h; rw [slot, hc]; exact hget _ rfl
    · rename_i hc
      split at h
      · cases h
      · rename_i hn; cases h; rw [slot, hc]; simpa [Cell.field?, hn] using hget _ rfl
    · cases h; cases hx

/-- The ways in which an attribute is read. -/
theorem attribute?_cases {s : Store} {c : Value} {text : String} {reading : Reading}
    (h : s.attribute? c text = .ok (some reading)) :
    (∃ n, reading = .stored (.int n)) ∨
    (∃ cell w, s.cell? c = some cell ∧ isTrapped cell text = false ∧ storedAttribute? cell text = some w ∧
      reading = .stored w) ∨
    (∃ m, reading = .method m) := by
  have hnumber : ∀ n : Int, attribute?.numberPart text n = some reading → ∃ n, reading = .stored (.int n) := by
    intro n hn
    unfold attribute?.numberPart at hn
    split at hn <;> cases hn <;> exact ⟨_, rfl⟩
  have hmethod : ∀ o : Option Host.Method, o.map Reading.method = some reading → ∃ m, reading = .method m := by
    intro o ho
    obtain ⟨m, _, rfl⟩ := Option.map_eq_some_iff.1 ho
    exact ⟨m, rfl⟩
  unfold attribute? at h
  split at h
  · injection h with h; exact .inl (hnumber _ h)
  · injection h with h; exact .inl (hnumber _ h)
  · split at h
    · rename_i cell hc
      split at h
      · split at h <;> cases h
      · rename_i htrap
        split at h
        · rename_i w hw
          cases h
          exact .inr (.inl ⟨cell, w, hc, Bool.eq_false_iff.2 htrap, hw, rfl⟩)
        · injection h with h; exact .inr (.inr (hmethod _ h))
    · injection h with h; exact .inr (.inr (hmethod _ h))

/-- An attribute that leads on is in a slot, or is a method. -/
theorem attribute?_leadsOn {s : Store} {c : Value} {text : String} {reading : Reading} (hmap : s.mapping? c = none)
    (hopen : isPrivate text = false) (h : s.attribute? c text = .ok (some reading)) :
    (∃ x, reading = .stored x ∧ (x.leadsOn = true → s.slot c (.name text) = some x)) ∨ ∃ m, reading = .method m := by
  obtain ⟨n, rfl⟩ | ⟨cell, w, hc, htrap, hw, rfl⟩ | hmethod := attribute?_cases h
  · exact .inl ⟨.int n, rfl, by rintro ⟨⟩⟩
  · refine .inl ⟨w, rfl, fun _ => ?_⟩
    have hdict : cell.entries? = none := by rw [mapping?_eq, hc] at hmap; exact hmap
    rw [slot, hc, Option.bind_some, Cell.field?_name hdict, hopen, htrap]
    exact hw
  · exact .inr hmethod

/-- A value that leads on is held below the container, or is a method that was bound anew. -/
theorem readField_cases {s t : Store} {c x : Value} {segment : Segment} (h : s.readField c segment = .ok (x, t))
    (hx : x.leadsOn = true) :
    (t = s ∧ s.Finds c segment x) ∨ (∃ m, t = (s.alloc (.method c m)).2 ∧ x = .ref (s.alloc (.method c m)).1) := by
  cases hscope : s.scope? c with
  | some bp =>
    rw [readField_scope segment hscope] at h
    cases hl : s.lookup? c (.text segment.keyText) with
    | error e => rw [hl] at h; cases h
    | ok found =>
      rw [hl] at h
      cases h
      exact .inl ⟨rfl, .inr ⟨by rw [hscope]; rfl, hl.trans (congrArg _ (eq_some_of_getD_null rfl hx))⟩⟩
  | none =>
    unfold readField at h
    simp only [hscope, Option.isSome_none, Bool.false_eq_true, if_false] at h
    cases hmap : s.mapping? c with
    | some entries =>
      rw [hmap] at h
      cases h
      refine .inl ⟨rfl, .inl ⟨hscope, ?_⟩⟩
      rw [slot_of_mapping? hmap]
      exact eq_some_of_getD_null rfl hx
    | none =>
      rw [hmap] at h
      cases segment with
      | index n =>
        cases hi : s.readItem c n with
        | error e => simp only [hi] at h; cases h
        | ok y =>
          simp only [hi] at h
          cases h
          exact .inl ⟨rfl, .inl ⟨hscope, readItem_leadsOn hmap hi hx⟩⟩
      | name text =>
        cases hp : isPrivate text with
        | true => simp only [hp, if_true] at h; cases h; cases hx
        | false =>
          simp only [hp, Bool.false_eq_true, if_false] at h
          cases ha : s.attribute? c text with
          | error e => rw [ha] at h; cases h
          | ok found =>
            rw [ha] at h
            cases found with
            | none => cases h; cases hx
            | some reading =>
              obtain ⟨w, rfl, hslot⟩ | ⟨m, rfl⟩ := attribute?_leadsOn hmap hp ha <;> cases h
              · exact .inl ⟨rfl, .inl ⟨hscope, hslot hx⟩⟩
              · exact .inr ⟨m, rfl, rfl⟩

/-- What does not lead on is read without a change of the store. -/
theorem readField_store {s t : Store} {c x : Value} {segment : Segment} (h : s.readField c segment = .ok (x, t))
    (hx : x.leadsOn = false) : t = s := by
  unfold readField at h
  split at h
  · generalize s.lookup? _ _ = found at h
    cases found <;> cases h
    rfl
  · split at h
    · cases h; rfl
    · cases segment with
      | index n =>
        simp only at h
        generalize s.readItem c n = item at h
        cases item <;> cases h
        rfl
      | name text =>
        simp only at h
        split at h
        · cases h; rfl
        · generalize s.attribute? c text = found at h
          cases found with
          | error e => cases h
          | ok found =>
            cases found with
            | none => cases h; rfl
            | some reading =>
              cases reading with
              | stored w => cases h; rfl
              | method m => cases h; cases hx

/-- What stands in a slot of a container that is no scope is read from it. -/
theorem readField_of_slot {s : Store} {c x : Value} {segment : Segment} (hscope : s.scope? c = none)
    (hx : s.slot c segment = some x) : s.readField c segment = .ok (x, s) := by
  obtain ⟨cell, hc, hf⟩ := Option.bind_eq_some_iff.1 hx
  cases c with
  | ref r =>
    simp only [readField, hscope, Option.isSome_none, Bool.false_eq_true, if_false]
    cases hmap : s.mapping? (.ref r) with
    | some entries =>
      rw [mapping?_eq, hc] at hmap
      have hfield : cell.field? segment = entries.atSegment segment := by
        cases cell <;> cases hmap <;> rfl
      simp [← hfield, hf]
    | none =>
      have hdict : cell.entries? = none := by rw [mapping?_eq, hc] at hmap; exact hmap
      cases segment with
      | index n =>
        unfold Cell.field? at hf
        split at hf <;> simp_all [readItem, Except.map, Cell.entries?]
      | name text =>
        rw [Cell.field?_name hdict] at hf
        split at hf
        · cases hf
        · rename_i hopen
          simp only [Bool.or_eq_true, not_or, Bool.not_eq_true] at hopen
          have hattr : s.attribute? (.ref r) text = .ok (some (.stored x)) := by
            simp [attribute?, hc, hopen.2, hf]
          simp only [hopen.1, hattr, Bool.false_eq_true, if_false]
          rfl
  | _ => cases hc

/-- What is held below a container is read from it. -/
theorem readField_of_finds {s : Store} {c x : Value} {segment : Segment} (h : s.Finds c segment x) :
    s.readField c segment = .ok (x, s) := by
  obtain ⟨hscope, hx⟩ | ⟨hscope, hx⟩ := h
  · exact readField_of_slot hscope hx
  · obtain ⟨⟨b, p⟩, hbp⟩ := Option.isSome_iff_exists.1 hscope
    rw [readField_scope segment hbp, hx]
    rfl

/-! ## Chains of scopes -/

@[simp] theorem bindingsOf_scope {s : Store} {c b p : Value} (hc : s.scope? c = some (b, p)) : s.bindingsOf c = .ok b := by
  simp only [bindingsOf, hc]

@[simp] theorem parentOf_scope {s : Store} {c b p : Value} (hc : s.scope? c = some (b, p)) : s.parentOf c = .ok p := by
  simp only [parentOf, hc]

theorem needHidden_eq_ok_iff {s : Store} {c x : Value} {name : String} :
    s.needHidden c name = .ok x ↔ s.hiddenAttribute? c name = some x := by
  unfold needHidden
  cases s.hiddenAttribute? c name <;> simp

/-- The bindings of a scope are a part of it, those of any other object an attribute. -/
theorem bindingsOf_eq_ok_iff {s : Store} {c b : Value} : s.bindingsOf c = .ok b ↔
    (∃ p, s.scope? c = some (b, p)) ∨ (s.scope? c = none ∧ s.hiddenAttribute? c "bindings" = some b) := by
  unfold bindingsOf
  cases s.scope? c with
  | some bp => simp [Prod.ext_iff]
  | none => simp [needHidden_eq_ok_iff]

/-- The parent of a scope is a part of it, that of any other object an attribute. -/
theorem parentOf_eq_ok_iff {s : Store} {c p : Value} : s.parentOf c = .ok p ↔
    (∃ b, s.scope? c = some (b, p)) ∨ (s.scope? c = none ∧ s.hiddenAttribute? c "_parent" = some p) := by
  unfold parentOf
  cases s.scope? c with
  | some bp => simp [Prod.ext_iff]
  | none => simp [needHidden_eq_ok_iff]

/-- What has bindings is an object. -/
theorem ne_null_of_bindingsOf {s : Store} {c b : Value} (hb : s.bindingsOf c = .ok b) : c ≠ .null := by
  rintro rfl
  cases hb

theorem ownerWithin_own {s : Store} {key c b x : Value} (n : Nat) (hb : s.bindingsOf c = .ok b)
    (hx : s.valueAt? b key = .ok (some x)) : s.ownerWithin key (n + 1) c = .ok (some (c, x)) := by
  rw [ownerWithin.eq_3 _ _ _ _ (ne_null_of_bindingsOf hb), hb]
  change (s.valueAt? b key >>= _) = _
  rw [hx]
  rfl

theorem ownerWithin_outer {s : Store} {key c b p : Value} (n : Nat) (hb : s.bindingsOf c = .ok b)
    (hx : s.valueAt? b key = .ok none) (hp : s.parentOf c = .ok p) :
    s.ownerWithin key (n + 1) c = s.ownerWithin key n p := by
  rw [ownerWithin.eq_3 _ _ _ _ (ne_null_of_bindingsOf hb), hb]
  change (s.valueAt? b key >>= _) = _
  rw [hx]
  change (s.parentOf c >>= _) = _
  rw [hp]
  rfl

/-- A lookup that succeeds finds the key in the bindings of what it starts from, or misses it there and succeeds at the
parent. -/
theorem ownerWithin_cases {s : Store} {key c o x : Value} {n : Nat}
    (h : s.ownerWithin key (n + 1) c = .ok (some (o, x))) :
    ∃ b, s.bindingsOf c = .ok b ∧ ((s.valueAt? b key = .ok (some x) ∧ o = c) ∨
      (s.valueAt? b key = .ok none ∧ ∃ p, s.parentOf c = .ok p ∧ s.ownerWithin key n p = .ok (some (o, x)))) := by
  by_cases hnull : c = .null
  · subst hnull
    cases h
  rw [ownerWithin.eq_3 _ _ _ _ hnull] at h
  obtain ⟨b, hb, h⟩ := bind_eq_ok.1 h
  obtain ⟨found, hfound, h⟩ := bind_eq_ok.1 h
  refine ⟨b, hb, ?_⟩
  cases found with
  | some y =>
    cases h
    exact .inl ⟨hfound, rfl⟩
  | none =>
    obtain ⟨p, hp, h⟩ := bind_eq_ok.1 h
    exact .inr ⟨hfound, p, hp, h⟩

/-- A lookup that succeeds does so within any longer bound. -/
theorem ownerWithin_le {s : Store} {key o x : Value} {m n : Nat} (hmn : m ≤ n) :
    ∀ {c : Value}, s.ownerWithin key m c = .ok (some (o, x)) → s.ownerWithin key n c = .ok (some (o, x)) := by
  induction m generalizing n with
  | zero => intro c h; cases h
  | succ m ih =>
    intro c h
    obtain ⟨k, rfl⟩ : ∃ k, n = k + 1 := ⟨n - 1, by omega⟩
    obtain ⟨b, hb, ⟨hx, rfl⟩ | ⟨hmiss, p, hp, houter⟩⟩ := ownerWithin_cases h
    · exact ownerWithin_own k hb hx
    · rw [ownerWithin_outer k hb hmiss hp]
      exact ih (by omega) houter

/-- A value that is found along a chain is the value of the key in the bindings of a link of it. All links have what
passes from a link to its parent. -/
theorem exists_link_of_ownerWithin {s : Store} {P : Value → Prop} {key o x : Value} {n : Nat}
    (hparent : ∀ c p, P c → s.parentOf c = .ok p → P p) :
    ∀ {c : Value}, P c → s.ownerWithin key n c = .ok (some (o, x)) →
      ∃ d b, P d ∧ s.bindingsOf d = .ok b ∧ s.valueAt? b key = .ok (some x) := by
  induction n with
  | zero => intro c _ h; cases h
  | succ n ih =>
    intro c hc h
    obtain ⟨b, hb, ⟨hx, rfl⟩ | ⟨hmiss, p, hp, houter⟩⟩ := ownerWithin_cases h
    · exact ⟨_, b, hc, hb, hx⟩
    · exact ih (hparent c p hc hp) houter

theorem lookup?_eq_ok_some {s : Store} {c key x : Value} :
    s.lookup? c key = .ok (some x) ↔ ∃ o, s.owner? c key = .ok (some (o, x)) := by
  unfold lookup?
  constructor
  · intro h
    cases ho : s.owner? c key with
    | error e => rw [ho] at h; cases h
    | ok found =>
      rw [ho] at h
      cases found with
      | none => cases h
      | some y => cases h; exact ⟨y.1, rfl⟩
  · rintro ⟨o, ho⟩
    rw [ho]
    rfl

theorem exists_link_of_lookup? {s : Store} {P : Value → Prop} {c key x : Value}
    (hparent : ∀ c p, P c → s.parentOf c = .ok p → P p) (hc : P c) (hx : s.lookup? c key = .ok (some x)) :
    ∃ d b, P d ∧ s.bindingsOf d = .ok b ∧ s.valueAt? b key = .ok (some x) := by
  obtain ⟨o, ho⟩ := lookup?_eq_ok_some.1 hx
  exact exists_link_of_ownerWithin hparent hc ho

theorem exists_valueAt?_of_lookup? {s : Store} {c key x : Value} (hx : s.lookup? c key = .ok (some x)) :
    ∃ b, s.valueAt? b key = .ok (some x) := by
  obtain ⟨_, b, -, -, hb⟩ := exists_link_of_lookup? (P := fun _ => True) (fun _ _ _ _ => trivial) trivial hx
  exact ⟨b, hb⟩

/-! ## Writing and reading -/

/-- The slot that a write sets holds the value. -/
theorem slot_writeField {s s' : Store} {c v : Value} {segment : Segment} (h : s.writeField c segment v = .ok s') :
    s'.slot (s.storage c) (s.ownSegment c segment) = some v := by
  obtain ⟨r, cell, cell', hr, hc, hset, rfl, _⟩ := writeField_cases h
  rw [hr, slot, cell?, get?_set_self cell' (index_lt_of_get? hc)]
  exact Cell.field?_setField? hset

/-- A container that takes a write is an object of the store. -/
theorem exists_cell_of_writeField {s s' : Store} {c v : Value} {segment : Segment}
    (h : s.writeField c segment v = .ok s') : ∃ cell, s.cell? c = some cell := by
  cases hscope : s.scope? c with
  | none =>
    obtain ⟨r, cell, cell', rfl, hc, _⟩ := writeField_cases_of_not_scope hscope h
    exact ⟨cell, hc⟩
  | some bp =>
    rw [scope?_eq] at hscope
    obtain ⟨cell, hc, _⟩ := Option.bind_eq_some_iff.1 hscope
    exact ⟨cell, hc⟩

/-- A write to a scope binds the text of the segment in the scope itself. -/
theorem valueAt?_writeField {s s' : Store} {c v b p : Value} {segment : Segment} (hscope : s.scope? c = some (b, p))
    (h : s.writeField c segment v = .ok s') : s'.valueAt? b (.text segment.keyText) = .ok (some v) := by
  have hslot : s'.slot b (.name segment.keyText) = some v := by
    simpa [storage, ownSegment, hscope] using slot_writeField h
  refine valueAt?_of_slot ?_ hslot
  obtain ⟨r, dict, dict', hr, hd, hset, rfl, hdict⟩ := writeField_cases h
  have hb : b = .ref r := by simpa [storage, hscope] using hr
  rw [mapping?_eq, hb, cell?, get?_set_self dict' (index_lt_of_get? hd), Option.bind_some,
    (Cell.setField?_kind hset).2.2]
  exact hdict (by rw [hscope]; rfl)

/-- What is written is held below the container. -/
theorem finds_writeField {s s' : Store} {c v : Value} {segment : Segment}
    (h : s.writeField c segment v = .ok s') : s'.Finds c segment v := by
  have hkeep := keeps_writeField h
  cases hscope : s.scope? c with
  | none =>
    obtain ⟨cell, hc⟩ := exists_cell_of_writeField h
    refine .inl ⟨by rw [hkeep.scope?_eq hc, hscope], ?_⟩
    simpa [storage, ownSegment, hscope] using slot_writeField h
  | some bp =>
    have hscope' := hkeep.scope?_some hscope
    have hown := ownerWithin_own s'.size (bindingsOf_scope hscope') (valueAt?_writeField hscope h)
    exact .inr ⟨by rw [hscope']; rfl, lookup?_eq_ok_some.2 ⟨c, hown⟩⟩

end Store

end ListScript
