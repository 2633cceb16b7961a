import ListScript.Access.Write

/-!
# The slots of an object

A segment selects a slot of the object it is applied to: an entry, an element, an item or an attribute. `Cell.field?` is
what the slot holds and `Cell.setField?` the object with the slot set, for one object on its own, without the scopes
around it and without methods. The reader and the writer are two separate case analyses; here they are shown to choose
the same slot.

- what is set is found again (`Cell.field?_setField?`);
- segments that find different values have different slots, so setting one leaves the other as it is
  (`Cell.field?_setField?_of_ne`).
-/

namespace ListScript

/-! ## Keys -/

namespace Value

/-- A floating-point number equals at most one integer. -/
theorem eqInt_unique {d : Double} {m n : Int} (hm : d.eqInt m = true) (hn : d.eqInt n = true) : m = n := by
  unfold Double.eqInt at hm hn
  split at hm
  · rename_i negative c q hd
    simp only [hd, beq_iff_eq] at hm hn
    have hpos : (Nat.pow 2 (-q).toNat : Int) ≠ 0 := by exact_mod_cast Nat.ne_of_gt (Nat.pow_pos (by decide))
    exact Int.eq_of_mul_eq_mul_right hpos (hm.symm.trans hn)
  · cases hm

/-- No key equals two integers. -/
theorem int_key_unique {m n : Int} {k : Value} (hm : (Value.int m).immediateEq k = true)
    (hn : (Value.int n).immediateEq k = true) : m = n := by
  cases k <;> simp only [immediateEq, beq_iff_eq, Bool.false_eq_true] at hm hn
  · exact hm.symm.trans hn
  · exact hm.trans hn.symm
  · exact eqInt_unique hm hn

/-- A key equals a text if it has the same content. -/
theorem immediateEq_text_iff {name : String} {k : Value} : (text name).immediateEq k = true ↔ k.text? = some name := by
  cases k <;> simp [text, immediateEq, text?]
  exact eq_comm

/-- No key equals two texts. -/
theorem text_key_unique {t u : String} {k : Value} (ht : (Value.text t).immediateEq k = true)
    (hu : (Value.text u).immediateEq k = true) : t = u :=
  Option.some.inj ((immediateEq_text_iff.1 ht).symm.trans (immediateEq_text_iff.1 hu))

/-- No key equals both a text and an integer. -/
theorem text_key_ne_int {t : String} {n : Int} {k : Value} (ht : (Value.text t).immediateEq k = true) :
    (Value.int n).immediateEq k = false := by
  cases k <;> simp_all [text, immediateEq]

theorem text_immediateEq_self (t : String) : (Value.text t).immediateEq (.text t) = true := immediateEq_text_iff.2 rfl

theorem int_immediateEq_self (n : Int) : (Value.int n).immediateEq (.int n) = true := by
  simp [immediateEq]

end Value

/-- Numbers with the same decimal form are equal. -/
theorem integerText_injective {m n : Nat} (h : integerText m = integerText n) : m = n := by
  have key : ∀ k : Nat, integerText k = String.ofList (Nat.toDigits 10 k) := fun k => by
    simp [integerText, decimalDigits]
  rw [key, key, String.ofList_inj] at h
  rw [← Nat.ofDigitChars_ten_toDigits (n := m), h, Nat.ofDigitChars_ten_toDigits]

/-! ## Entries of dictionaries -/

namespace Entries

theorem isSome_find? (hit : Value → Bool) (entries : Entries) : (find? hit entries).isSome = entries.keys.any hit := by
  induction entries with
  | nil => rfl
  | cons e rest ih =>
    obtain ⟨k, w⟩ := e
    rw [find?]
    simp only [keys, List.map_cons, List.any_cons] at ih ⊢
    cases hit k <;> simp [ih]

/-- Putting a key that `hit'` does not see leaves what `hit'` finds. -/
theorem find?_put_of_disjoint {hit hit' : Value → Bool} {key : Value} (v : Value)
    (hkey : hit' key = false) (hdis : ∀ k, hit k = true → hit' k = false) (entries : Entries) :
    find? hit' (put hit key v entries) = find? hit' entries := by
  induction entries with
  | nil => simp [put, find?, hkey]
  | cons e rest ih =>
    obtain ⟨k, w⟩ := e
    by_cases hk : hit k = true
    · simp [put, find?, hk, hdis k hk]
    · simp [put, find?, hk, ih]

theorem find?_int_put_text (t : String) (n : Int) (v : Value) (entries : Entries) :
    find? (Value.immediateEq (.int n)) (put (Value.immediateEq (.text t)) (.text t) v entries) =
      find? (Value.immediateEq (.int n)) entries :=
  find?_put_of_disjoint v rfl (fun _ hk => Value.text_key_ne_int hk) entries

theorem find?_text_put_int (t : String) (n : Int) (v : Value) (entries : Entries) :
    find? (Value.immediateEq (.text t)) (put (Value.immediateEq (.int n)) (.int n) v entries) =
      find? (Value.immediateEq (.text t)) entries := by
  refine find?_put_of_disjoint v rfl (fun k hk => Bool.eq_false_iff.2 fun ht => ?_) entries
  rw [Value.text_key_ne_int ht] at hk
  cases hk

theorem find?_text_put_text {t u : String} (h : t ≠ u) (v : Value) (entries : Entries) :
    find? (Value.immediateEq (.text u)) (put (Value.immediateEq (.text t)) (.text t) v entries) =
      find? (Value.immediateEq (.text u)) entries := by
  have hdis : ∀ k, (Value.text t).immediateEq k = true → (Value.text u).immediateEq k = false :=
    fun _ ht => Bool.eq_false_iff.2 fun hu => h (Value.text_key_unique ht hu)
  exact find?_put_of_disjoint v (hdis _ (Value.text_immediateEq_self t)) hdis entries

theorem find?_int_put_int {m n : Int} (h : m ≠ n) (v : Value) (entries : Entries) :
    find? (Value.immediateEq (.int n)) (put (Value.immediateEq (.int m)) (.int m) v entries) =
      find? (Value.immediateEq (.int n)) entries := by
  have hdis : ∀ k, (Value.int m).immediateEq k = true → (Value.int n).immediateEq k = false :=
    fun _ hm => Bool.eq_false_iff.2 fun hn => h (Value.int_key_unique hm hn)
  exact find?_put_of_disjoint v (hdis _ (Value.int_immediateEq_self m)) hdis entries

/-- An index goes to the integer key if it is there. -/
theorem setSegment_index_of_int {entries : Entries} {n : Nat} (v : Value)
    (h : (find? (Value.immediateEq (.int n)) entries).isSome = true) :
    entries.setSegment (.index n) v = put (Value.immediateEq (.int n)) (.int n) v entries := by
  simp only [setSegment, h, if_true]

/-- An index goes to the key with its decimal form if the integer key is not there. -/
theorem setSegment_index_of_text {entries : Entries} {n : Nat} (v : Value)
    (h : find? (Value.immediateEq (.int n)) entries = none) :
    entries.setSegment (.index n) v =
      put (Value.immediateEq (.text (integerText n))) (.text (integerText n)) v entries := by
  simp [setSegment, h]

/-- What a segment set is found by that segment. -/
theorem atSegment_setSegment (entries : Entries) (segment : Segment) (v : Value) :
    (entries.setSegment segment v).atSegment segment = some v := by
  cases segment with
  | name t => exact find?_put v (Value.text_immediateEq_self t) entries
  | index n =>
    cases hn : find? (Value.immediateEq (.int n)) entries with
    | some w =>
      rw [setSegment_index_of_int v (by rw [hn]; rfl), atSegment, find?_put v (Value.int_immediateEq_self n)]
    | none =>
      rw [setSegment_index_of_text v hn, atSegment, find?_int_put_text, hn]
      exact find?_put v (Value.text_immediateEq_self _) entries

/-- A segment that finds something else than `segment` does is not disturbed by setting `segment`. -/
theorem atSegment_setSegment_of_ne {entries : Entries} {segment other : Segment} {x : Value} (v : Value)
    (hx : entries.atSegment other = some x) (hne : entries.atSegment segment ≠ some x) :
    (entries.setSegment segment v).atSegment other = some x := by
  cases segment with
  | name t =>
    cases other with
    | name u =>
      have htu : t ≠ u := fun e => hne (e ▸ hx)
      exact (find?_text_put_text htu v entries).trans hx
    | index m =>
      rw [setSegment, atSegment, find?_int_put_text]
      rw [atSegment] at hx
      cases hm : find? (Value.immediateEq (.int m)) entries with
      | some y => rw [hm] at hx; exact hx
      | none =>
        rw [hm] at hx
        have htm : t ≠ integerText m := fun e => hne (by rw [e]; exact hx)
        exact (find?_text_put_text htm v entries).trans hx
  | index n =>
    cases hn : find? (Value.immediateEq (.int n)) entries with
    | some w =>
      rw [setSegment_index_of_int v (by rw [hn]; rfl)]
      cases other with
      | name u => exact (find?_text_put_int u n v entries).trans hx
      | index m =>
        have hnm : (n : Int) ≠ m := fun e => hne (by rw [Int.ofNat_inj.1 e]; exact hx)
        rw [atSegment, find?_int_put_int hnm, find?_text_put_int]
        exact hx
    | none =>
      rw [setSegment_index_of_text v hn]
      rw [atSegment, hn] at hne
      cases other with
      | name u =>
        have hnu : integerText n ≠ u := fun e => hne (by rw [e]; exact hx)
        exact (find?_text_put_text hnu v entries).trans hx
      | index m =>
        have hnm : integerText n ≠ integerText m := fun e => hne (by
          rw [integerText_injective e] at hn ⊢
          rw [atSegment, hn] at hx
          exact hx)
        rw [atSegment, find?_int_put_text, find?_text_put_text hnm]
        exact hx

end Entries

/-! ## Attributes and items -/

namespace Attributes

theorem lookup_put_ne {name other : String} (h : name ≠ other) (attrs : Attributes) (v : Value) :
    (attrs.put name v).lookup other = attrs.lookup other := by
  induction attrs with
  | nil => simp [put, List.lookup_cons, beq_eq_false_iff_ne.2 (Ne.symm h)]
  | cons a rest ih =>
    obtain ⟨n, w⟩ := a
    by_cases hn : n = name
    · simp [put, hn, List.lookup_cons, beq_eq_false_iff_ne.2 (Ne.symm h)]
    · simp [put, hn, List.lookup_cons, ih]

end Attributes

namespace Store

theorem lookup_putItem_self (v : Value) (items : List (Int × Value)) (n : Int) :
    (writeItem.putItem v items n).lookup n = some v := by
  induction items with
  | nil => simp [writeItem.putItem]
  | cons e rest ih =>
    obtain ⟨k, w⟩ := e
    by_cases hk : k = n
    · simp [writeItem.putItem, hk]
    · simp [writeItem.putItem, hk, List.lookup_cons, beq_eq_false_iff_ne.2 (Ne.symm hk), ih]

theorem lookup_putItem_ne {m n : Int} (h : n ≠ m) (v : Value) (items : List (Int × Value)) :
    (writeItem.putItem v items n).lookup m = items.lookup m := by
  induction items with
  | nil => simp [writeItem.putItem, List.lookup_cons, beq_eq_false_iff_ne.2 (Ne.symm h)]
  | cons e rest ih =>
    obtain ⟨k, w⟩ := e
    by_cases hk : k = n
    · simp [writeItem.putItem, hk, List.lookup_cons, beq_eq_false_iff_ne.2 (Ne.symm h)]
    · simp [writeItem.putItem, hk, List.lookup_cons, ih]

/-- An attribute that was set is stored. -/
theorem storedAttribute?_withAttribute? {c c' : Cell} {name : String} {v : Value}
    (h : withAttribute? c name v = some c') : storedAttribute? c' name = some v := by
  cases c with
  | function f attrs | object cls attrs => cases h; exact Attributes.lookup_put_self attrs name v
  | raw payload | closure f attrs | context ctx attrs | engine stack attrs =>
    simp only [withAttribute?] at h
    split at h <;> cases h <;> simp_all [storedAttribute?, Attributes.lookup_put_self]
  | _ => cases h

/-- Setting an attribute leaves those of other names. -/
theorem storedAttribute?_withAttribute?_ne {c c' : Cell} {name other : String} {v : Value} (hne : name ≠ other)
    (h : withAttribute? c name v = some c') : storedAttribute? c' other = storedAttribute? c other := by
  cases c with
  | function f attrs | object cls attrs => cases h; exact Attributes.lookup_put_ne hne attrs v
  | raw payload | closure f attrs | context ctx attrs | engine stack attrs =>
    simp only [withAttribute?] at h
    split at h <;> cases h <;> simp only [storedAttribute?] <;> split <;>
      simp_all [Attributes.lookup_put_ne hne]
  | _ => cases h

end Store

/-! ## One object -/

namespace Cell

/-- What a segment finds in an object itself. -/
def field? (c : Cell) (segment : Segment) : Option Value :=
  match c, segment with
  | .dict entries, _ | .frozen entries, _ => entries.atSegment segment
  | .list items _, .index n | .tuple items, .index n => items[n]?
  | .object (.box items) _, .index n => if n = 13 then none else items.lookup (n : Int)
  | c, .name text => if isPrivate text || Store.isTrapped c text then none else Store.storedAttribute? c text
  | _, .index _ => none

/-- The object with a slot of its own set, if it has such a slot. -/
def setField? (c : Cell) (segment : Segment) (v : Value) : Option Cell :=
  match c, segment with
  | .dict entries, _ => some (.dict (entries.setSegment segment v))
  | .list items flavor, .index n =>
    match Store.setElement items n v with
    | .ok items => some (.list items flavor)
    | .error _ => none
  | .object (.box items) attrs, .index n =>
    if n = 13 || n = 14 then none else some (.object (.box (Store.writeItem.putItem v items n)) attrs)
  | c, .name text => if isPrivate text || Store.isTrapped c text then none else Store.withAttribute? c text v
  | _, .index _ => none

/-- The bindings and the parent of a scope. -/
def scope? : Cell → Option (Value × Value)
  | .scope bindings parent => some (bindings, parent)
  | _ => none

/-- The entries of a dictionary of either kind. -/
def entries? : Cell → Option Entries
  | .dict entries | .frozen entries => some entries
  | _ => none

/-- What setting an attribute leaves: the object is no dictionary, no scope, and a trap only if it was one. -/
theorem withAttribute?_kind {c c' : Cell} {name : String} {v : Value} (h : Store.withAttribute? c name v = some c') :
    c.entries? = none ∧ c'.entries? = none ∧ c.scope? = none ∧ c'.scope? = none ∧
      ∀ other, Store.isTrapped c' other = Store.isTrapped c other := by
  cases c with
  | function f attrs => cases h; exact ⟨rfl, rfl, rfl, rfl, fun _ => rfl⟩
  | object cls attrs => cases h; exact ⟨rfl, rfl, rfl, rfl, fun _ => by cases cls <;> rfl⟩
  | raw payload | closure f attrs | context ctx attrs | engine stack attrs =>
    simp only [Store.withAttribute?] at h
    split at h <;> cases h <;> exact ⟨rfl, rfl, rfl, rfl, fun _ => rfl⟩
  | _ => cases h

/-- An element that is set is one of the list, or comes after the padding. -/
theorem setElement_cases {items items' : List Value} {n : Nat} {v : Value} (h : Store.setElement items n v = .ok items') :
    (n < items.length ∧ items' = items.set n v) ∨
      (items.length ≤ n ∧ items' = items ++ List.replicate (n - items.length) .null ++ [v]) := by
  unfold Store.setElement at h
  split at h
  · cases h
    exact .inl ⟨‹_›, rfl⟩
  · split at h
    · cases h
    · split at h
      · cases h
      · cases h
        exact .inr ⟨Nat.le_of_not_lt ‹_›, rfl⟩

theorem getElem?_setElement {items items' : List Value} {n : Nat} {v : Value}
    (h : Store.setElement items n v = .ok items') : items'[n]? = some v := by
  obtain ⟨hlt, rfl⟩ | ⟨hle, rfl⟩ := setElement_cases h
  · exact List.getElem?_set_self hlt
  · have hlen : (items ++ List.replicate (n - items.length) Value.null).length = n := by simp; omega
    rw [List.getElem?_append_right (by omega), hlen]
    simp

theorem getElem?_setElement_ne {items items' : List Value} {m n : Nat} {v x : Value} (hne : n ≠ m)
    (hx : items[m]? = some x) (h : Store.setElement items n v = .ok items') : items'[m]? = some x := by
  have hm : m < items.length := (List.getElem?_eq_some_iff.1 hx).1
  obtain ⟨-, rfl⟩ | ⟨-, rfl⟩ := setElement_cases h
  · rw [List.getElem?_set_ne hne]
    exact hx
  · rw [List.append_assoc, List.getElem?_append_left hm]
    exact hx

theorem field?_name {c : Cell} (h : c.entries? = none) (text : String) :
    c.field? (.name text) =
      if isPrivate text || Store.isTrapped c text then none else Store.storedAttribute? c text := by
  cases c with
  | dict entries | frozen entries => cases h
  | object cls attrs => cases cls <;> rfl
  | _ => rfl

/-- The ways in which a slot is set. -/
theorem setField?_cases {c c' : Cell} {segment : Segment} {v : Value} (h : c.setField? segment v = some c') :
    (∃ entries, c = .dict entries ∧ c' = .dict (entries.setSegment segment v)) ∨
    (∃ items items' flavor n, c = .list items flavor ∧ segment = .index n ∧ Store.setElement items n v = .ok items' ∧
      c' = .list items' flavor) ∨
    (∃ items attrs n, c = .object (.box items) attrs ∧ segment = .index n ∧ n ≠ 13 ∧
      c' = .object (.box (Store.writeItem.putItem v items n)) attrs) ∨
    (∃ text, segment = .name text ∧ (isPrivate text || Store.isTrapped c text) = false ∧
      Store.withAttribute? c text v = some c') := by
  unfold setField? at h
  split at h
  · cases h; exact .inl ⟨_, rfl, rfl⟩
  · split at h
    · cases h; exact .inr (.inl ⟨_, _, _, _, rfl, rfl, ‹_›, rfl⟩)
    · cases h
  · split at h
    · cases h
    · cases h
      refine .inr (.inr (.inl ⟨_, _, _, rfl, rfl, fun e => ?_, rfl⟩))
      simp_all
  · split at h
    · cases h
    · rename_i hopen
      exact .inr (.inr (.inr ⟨_, rfl, Bool.eq_false_iff.2 hopen, h⟩))
  · cases h

/-- What is set is found again. -/
theorem field?_setField? {c c' : Cell} {segment : Segment} {v : Value} (h : c.setField? segment v = some c') :
    c'.field? segment = some v := by
  obtain ⟨entries, rfl, rfl⟩ | ⟨items, items', flavor, n, rfl, rfl, hs, rfl⟩ | ⟨items, attrs, n, rfl, rfl, hn, rfl⟩ |
    ⟨text, rfl, hopen, hw⟩ := setField?_cases h
  · exact Entries.atSegment_setSegment entries segment v
  · exact getElem?_setElement hs
  · simp [field?, hn, Store.lookup_putItem_self]
  · obtain ⟨_, hdict, _, _, htrap⟩ := withAttribute?_kind hw
    rw [field?_name hdict, htrap, hopen]
    exact Store.storedAttribute?_withAttribute? hw

/-- A segment that finds something else than `segment` does is not disturbed by setting `segment`. -/
theorem field?_setField?_of_ne {c c' : Cell} {segment other : Segment} {v x : Value}
    (h : c.setField? segment v = some c') (hx : c.field? other = some x) (hne : c.field? segment ≠ some x) :
    c'.field? other = some x := by
  have hseg : segment ≠ other := fun e => hne (e ▸ hx)
  obtain ⟨entries, rfl, rfl⟩ | ⟨items, items', flavor, n, rfl, rfl, hs, rfl⟩ | ⟨items, attrs, n, rfl, rfl, hn, rfl⟩ |
    ⟨text, rfl, hopen, hw⟩ := setField?_cases h
  · exact Entries.atSegment_setSegment_of_ne v hx hne
  · cases other with
    | index m => exact getElem?_setElement_ne (fun e => hseg (e ▸ rfl)) hx hs
    | name text => simp [field?, Store.storedAttribute?] at hx
  · cases other with
    | index m =>
      have hnm : (n : Int) ≠ m := fun e => hseg (by rw [Int.ofNat_inj.1 e])
      simp only [field?, Store.lookup_putItem_ne hnm]
      exact hx
    | name text => exact hx
  · obtain ⟨hdict, hdict', _, _, htrap⟩ := withAttribute?_kind hw
    cases other with
    | name text' =>
      have htext : text ≠ text' := fun e => hseg (e ▸ rfl)
      rw [field?_name hdict', htrap, Store.storedAttribute?_withAttribute?_ne htext hw, ← field?_name hdict]
      exact hx
    | index m =>
      -- only a box has both attributes and items
      cases c with
      | object cls attrs => cases hw; cases cls <;> exact hx
      | _ => simp_all [field?, Store.withAttribute?]

/-- Setting a slot makes no scope, and a dictionary stays one. -/
theorem setField?_kind {c c' : Cell} {segment : Segment} {v : Value} (h : c.setField? segment v = some c') :
    c.scope? = none ∧ c'.scope? = none ∧ c'.entries?.isSome = c.entries?.isSome := by
  obtain ⟨entries, rfl, rfl⟩ | ⟨items, items', flavor, n, rfl, rfl, hs, rfl⟩ | ⟨items, attrs, n, rfl, rfl, hn, rfl⟩ |
    ⟨text, rfl, hopen, hw⟩ := setField?_cases h
  · exact ⟨rfl, rfl, rfl⟩
  · exact ⟨rfl, rfl, rfl⟩
  · exact ⟨rfl, rfl, rfl⟩
  · obtain ⟨hdict, hdict', hscope, hscope', _⟩ := withAttribute?_kind hw
    exact ⟨hscope, hscope', by rw [hdict, hdict']⟩

/-- A context stays a context. -/
theorem exists_context_of_setField? {ctx : Context} {attrs : Attributes} {c' : Cell} {segment : Segment} {v : Value}
    (h : (Cell.context ctx attrs).setField? segment v = some c') : ∃ ctx' attrs', c' = .context ctx' attrs' := by
  obtain ⟨_, hc, _⟩ | ⟨_, _, _, _, hc, _⟩ | ⟨_, _, _, hc, _⟩ | ⟨text, _, _, hw⟩ := setField?_cases h
  · cases hc
  · cases hc
  · cases hc
  · unfold Store.withAttribute? at hw
    dsimp only at hw
    split at hw <;> exact ⟨_, _, (Option.some.inj hw).symm⟩

/-- Setting a slot leaves the attributes that no segment selects. -/
theorem storedAttribute?_setField? {c c' : Cell} {segment : Segment} {v : Value} {name : String}
    (hname : isPrivate name = true) (h : c.setField? segment v = some c') :
    Store.storedAttribute? c' name = Store.storedAttribute? c name := by
  obtain ⟨entries, rfl, rfl⟩ | ⟨items, items', flavor, n, rfl, rfl, hs, rfl⟩ | ⟨items, attrs, n, rfl, rfl, hn, rfl⟩ |
    ⟨text, rfl, hopen, hw⟩ := setField?_cases h
  · rfl
  · rfl
  · rfl
  · have hne : text ≠ name := by
      rintro rfl
      simp [hname] at hopen
    exact Store.storedAttribute?_withAttribute?_ne hne hw

end Cell

end ListScript
