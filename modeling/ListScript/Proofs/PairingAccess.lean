import ListScript.Proofs.PairingText

/-!
# Paths and calls side by side

Following a path leads to counterparts (`Paired.both_read`), and writing counterparts by the same path keeps two stores
paired, whether the write succeeds or is refused (`Paired.assigned_assign`). No path leads to a hidden attribute. The
same goes for what is read as a script or an expression, and for the stack of active calls.
-/

namespace ListScript

/-- Writes one segment below a value that is neither a scope nor a dictionary nor a list. -/
def Store.writeOther (s : Store) (owner : Value) (segment : Segment) (v : Value) : Except Raised Store :=
  if owner = .null || owner.isScalar then do
    let shown ← s.print owner
    .error (.about owner (.fieldOfScalar segment.keyLiteral shown))
  else
    match segment with
    | .index n => s.writeItem owner n v
    | .name text =>
      if isPrivate text then .error (.about owner (.privateAttribute (Text.literal text)))
      else s.setAttribute owner text v

theorem Store.writeField_eq_writeOther {s : Store} {owner : Value} (hscope : (s.scope? owner).isSome = false)
    (hdict : s.dict? owner = none) (hlist : s.list? owner = none) (segment : Segment) (v : Value) :
    s.writeField owner segment v = s.writeOther owner segment v := by
  unfold writeField
  rw [if_neg (by simp [hscope])]
  split
  · simp_all [dict?]
  · simp_all [list?]
  · rfl

namespace Pairing

variable {p : Pairing} {s s' : Store} {v w key : Value}

theorem within_int (n : Int) : (Value.int n).Within p.good := Value.within_immediate (by simp)

variable (p) in
def reading : Reading → Reading
  | .stored v => .stored (p.value v)
  | .method m => .method m

variable (p) in
/-- What reading an attribute finds, and what it finds in the counterpart. -/
abbrev Readings : Option Reading → Option Reading → Prop :=
  Of (Option.map p.reading) fun o => ∀ v, o = some (.stored v) → v.Within p.good

variable (p) in
/-- A value with a store, and its counterpart. -/
def Grown (x y : Value × Store) : Prop := p.Val x.1 y.1 ∧ p.Paired x.2 y.2

theorem atSegment_entries (es : Entries) (segment : Segment) :
    (p.entries es).atSegment segment = (es.atSegment segment).map p.value := by
  have hfind : ∀ k : Value, p.value k = k →
      Entries.find? k.immediateEq (p.entries es) = (Entries.find? k.immediateEq es).map p.value := by
    intro k hk
    refine find?_entries fun u _ => ?_
    have := immediateEq_value (p := p) k u
    rwa [hk] at this
  cases segment with
  | name text => exact hfind (.text text) rfl
  | index n =>
    simp only [Entries.atSegment, hfind (.int n) rfl, hfind (.text (integerText n)) rfl]
    cases Entries.find? (Value.immediateEq (.int n)) es <;> rfl

theorem setSegment_entries (es : Entries) (segment : Segment) (v : Value) :
    (p.entries es).setSegment segment (p.value v) = p.entries (es.setSegment segment v) := by
  have hhit : ∀ k : Value, p.value k = k → ∀ u ∈ es.keys, k.immediateEq (p.value u) = k.immediateEq u := by
    intro k hk u _
    have := immediateEq_value (p := p) k u
    rwa [hk] at this
  cases segment with
  | name text => exact put_entries (.text text) v (hhit _ rfl)
  | index n =>
    simp only [Entries.setSegment, find?_entries (hhit (.int n) rfl), Option.isSome_map]
    split
    · exact put_entries (.int n) v (hhit _ rfl)
    · exact put_entries (.text (integerText n)) v (hhit _ rfl)

theorem within_setSegment {es : Entries} (segment : Segment) (hw : w.Within p.good) (hes : ∀ u ∈ es.parts, u.Within p.good) :
    ∀ u ∈ (es.setSegment segment w).parts, u.Within p.good := by
  obtain ⟨hit, key, hput, hkey⟩ := es.setSegment_eq_put segment w
  rw [hput]
  exact Paired.within_put (fun r hr => absurd hr (hkey r)) hw hes

theorem putItem_map (v : Value) (items : List (Int × Value)) (n : Int) :
    Store.writeItem.putItem (p.value v) (items.map fun e => (e.1, p.value e.2)) n =
      (Store.writeItem.putItem v items n).map fun e => (e.1, p.value e.2) := by
  induction items with
  | nil => rfl
  | cons e rest ih =>
    obtain ⟨k, u⟩ := e
    simp only [List.map_cons, Store.writeItem.putItem]
    split
    · rfl
    · rw [ih]
      rfl

/-- Values of which each is a new one or was there before. -/
theorem within_of_mem {vs ws : List Value} (h : ∀ u ∈ ws, u = w ∨ u ∈ vs) (hw : w.Within p.good)
    (hvs : ∀ u ∈ vs, u.Within p.good) : ∀ u ∈ ws, u.Within p.good := by
  intro u hu
  rcases h u hu with rfl | hu
  · exact hw
  · exact hvs u hu

namespace Paired

/-! ## Reading -/

theorem both_attribute? {name : String} (hname : p.hidden name = false) (h : p.Paired s s') (hv : v.Within p.good) :
    p.Both p.Readings (s.attribute? v name) (s'.attribute? (p.value v) name) := by
  have hnumber : ∀ n : Int, p.Both p.Readings (.ok (Store.attribute?.numberPart name n)) (.ok (Store.attribute?.numberPart name n)) := by
    intro n
    refine .ok ⟨?_, fun v hv => ?_⟩
    · unfold Store.attribute?.numberPart
      split <;> rfl
    · unfold Store.attribute?.numberPart at hv
      split at hv <;> cases hv <;> exact within_int _
  have hmethods : p.Both p.Readings (.ok ((Host.Method.named? (s.methodsOf v) name).map .method))
      (.ok ((Host.Method.named? (s'.methodsOf (p.value v)) name).map .method)) := by
    rw [h.methodsOf_value hv]
    refine .ok ⟨?_, ?_⟩
    · rw [Option.map_map]
      rfl
    · intro w hw
      obtain ⟨m, -, hm⟩ := Option.map_eq_some_iff.1 hw
      cases hm
  cases v with
  | bool b => exact hnumber _
  | int n => exact hnumber n
  | ref r =>
    have hr := Value.within_ref.1 hv
    simp only [value_ref] at hmethods ⊢
    simp only [Store.attribute?, Store.cell?, h.get?_move r hr]
    cases hc : s.get? r with
    | none => exact hmethods
    | some c =>
      have htrapped : Store.isTrapped (p.cell r c) name = Store.isTrapped c name := by
        cases c with
        | object cls attrs => cases cls <;> rfl
        | _ => rfl
      simp only [Option.map_some, htrapped, storedAttribute?_cell hname]
      split
      · split
        · exact both_fail _
        · exact .ok ⟨rfl, by simp⟩
      · cases hstored : Store.storedAttribute? c name with
        | none => exact hmethods
        | some w =>
          refine .ok ⟨rfl, ?_⟩
          rintro _ ⟨⟩
          exact h.closed r c hr hc w (Cell.mem_contents_of_storedAttribute? hstored)
  | _ => exact hmethods

theorem grown_materialize (h : p.Paired s s') (hv : v.Within p.good) {reading : Reading}
    (hreading : ∀ w, reading = .stored w → w.Within p.good) :
    p.Grown (s.materialize v reading) (s'.materialize (p.value v) (p.reading reading)) := by
  cases reading with
  | stored w => exact ⟨⟨rfl, hreading w rfl⟩, h⟩
  | method m =>
    refine ⟨⟨congrArg Value.ref h.next, Value.within_ref.2 h.good_next⟩, h.alloc ?_ rfl rfl⟩
    simpa [Cell.contents, Cell.parts] using hv

theorem both_readItem (h : p.Paired s s') (hv : v.Within p.good) (n : Nat) :
    p.Both p.Val (s.readItem v n) (s'.readItem (p.value v) n) := by
  have hindex : ∀ {items : List Value}, (∀ u ∈ items, u.Within p.good) →
      p.Both p.Val (.ok ((items[n]?).getD .null)) (.ok (((items.map p.value)[n]?).getD .null)) := by
    intro items hitems
    rw [List.getElem?_map, getD_null]
    exact .ok ⟨rfl, within_getD fun u hu => hitems u (List.mem_of_getElem? hu)⟩
  cases v with
  | str t flavor =>
    refine .ok ⟨?_, within_getD fun u hu => ?_⟩
    · cases t.toList[n]? <;> rfl
    · obtain ⟨c, -, rfl⟩ := Option.map_eq_some_iff.1 hu
      exact within_text _
  | bytes bs =>
    refine .ok ⟨?_, within_getD fun u hu => ?_⟩
    · cases bs[n]? <;> rfl
    · obtain ⟨b, -, rfl⟩ := Option.map_eq_some_iff.1 hu
      exact within_int _
  | ref r =>
    rcases h.cell?_cases hv with ⟨hc, hc'⟩ | ⟨r, c, -, -, hc, hc', hwithin⟩
    · rw [value_ref] at hc' ⊢
      simp only [Store.readItem, hc, hc']
      exact .ok ⟨rfl, within_null⟩
    · rw [value_ref] at hc' ⊢
      simp only [Store.readItem, hc, hc']
      cases c with
      | list | tuple => exact hindex hwithin
      | object cls attrs =>
        cases cls with
        | box items =>
          simp only [cell, cls]
          refine both_ite Iff.rfl (fun _ => both_fail _) fun _ => ?_
          rw [lookup_map, getD_null]
          refine .ok ⟨rfl, within_getD fun u hu => hwithin u ?_⟩
          exact List.mem_append_left _ (mem_of_lookup hu)
        | _ => exact .ok ⟨rfl, within_null⟩
      | _ => exact .ok ⟨rfl, within_null⟩
  | _ => exact .ok ⟨rfl, within_null⟩

theorem both_readField (h : p.Paired s s') (hv : v.Within p.good) (segment : Segment) :
    p.Both p.Grown (s.readField v segment) (s'.readField (p.value v) segment) := by
  unfold Store.readField
  refine both_ite (by rw [h.scope?_value hv, Option.isSome_map]) (fun _ => ?_) fun _ => ?_
  · refine (h.both_lookup? (within_text segment.keyText) hv).bind fun found found' hfound => ?_
    exact .ok ⟨hfound.getD, h⟩
  · rw [h.mapping?_value hv]
    cases hes : s.mapping? v with
    | some es =>
      refine .ok ⟨⟨?_, within_getD fun u hu => ?_⟩, h⟩
      · simp only [atSegment_entries, getD_null]
      · refine h.within_mapping? hv hes u ?_
        cases segment with
        | name text => exact Entries.mem_of_find? hu
        | index n =>
          simp only [Entries.atSegment] at hu
          split at hu
          · cases hu
            exact Entries.mem_of_find? ‹_›
          · exact Entries.mem_of_find? hu
    | none =>
      cases segment with
      | index n => exact (h.both_readItem hv n).map fun _ _ hw => ⟨hw, h⟩
      | name text =>
        refine both_ite Iff.rfl (fun _ => .ok ⟨⟨rfl, within_null⟩, h⟩) fun hprivate => ?_
        refine (both_attribute? (hidden_eq_false (by simpa using hprivate)) h hv).bind ?_
        rintro found _ ⟨rfl, hfound⟩
        cases found with
        | none => exact .ok ⟨⟨rfl, within_null⟩, h⟩
        | some reading => exact .ok (h.grown_materialize hv fun w hw => hfound w (congrArg some hw))

theorem both_readBelow (segments : List Segment) : ∀ {s s' : Store} {v : Value}, p.Paired s s' → v.Within p.good →
    p.Both p.Grown (s.readBelow v segments) (s'.readBelow (p.value v) segments) := by
  induction segments with
  | nil => exact fun h hv => .ok ⟨⟨rfl, hv⟩, h⟩
  | cons segment rest ih =>
    intro s s' v h hv
    unfold Store.readBelow
    refine both_ite value_eq_null (fun _ => .ok ⟨⟨rfl, within_null⟩, h⟩) fun _ => ?_
    refine (h.both_readField hv segment).bind ?_
    rintro ⟨w, t⟩ ⟨_, t'⟩ ⟨⟨rfl, hw⟩, ht⟩
    exact ih ht hw

variable (p) in
/-- What a context refers to has a counterpart. -/
def ContextWithin (ctx : Context) : Prop := ctx.this.Within p.good ∧ ctx.scope.Within p.good ∧ ctx.last.Within p.good

theorem rootValue_context (ctx : Context) (root : Root) : (p.context ctx).rootValue root = p.value (ctx.rootValue root) := by
  cases root <;> rfl

theorem ContextWithin.root {ctx : Context} (h : ContextWithin p ctx) (root : Root) : (ctx.rootValue root).Within p.good := by
  cases root
  · exact h.1
  · exact h.2.2
  · exact h.2.1

theorem both_read (h : p.Paired s s') {ctx : Context} (hctx : ContextWithin p ctx) (path : Path) :
    p.Both p.Grown (s.read path ctx) (s'.read path (p.context ctx)) := by
  unfold Store.read
  rw [rootValue_context]
  exact both_readBelow path.segments h (hctx.root _)

/-! ## Writing -/

variable (p) in
/-- How a write ends in the two stores. -/
def Assigned (x y : Store × Option Raised) : Prop :=
  p.Paired x.1 y.1 ∧ ((x.2 = none ∧ y.2 = none) ∨ ∃ e e', x.2 = some e ∧ y.2 = some e' ∧ p.Errors e e')

theorem both_setElement {items : List Value} (hitems : ∀ u ∈ items, u.Within p.good) (n : Nat) (hw : w.Within p.good) :
    p.Both p.Vals (Store.setElement items n w) (Store.setElement (items.map p.value) n (p.value w)) := by
  unfold Store.setElement
  simp only [List.length_map]
  refine both_ite Iff.rfl (fun _ => .ok ⟨by simp only [List.map_set], fun u hu => ?_⟩) fun _ => ?_
  · rcases List.mem_or_eq_of_mem_set hu with hu | rfl
    · exact hitems u hu
    · exact hw
  · refine both_ite Iff.rfl (fun _ => both_fail _) fun _ => ?_
    refine both_ite Iff.rfl (fun _ => both_fail _) fun _ => .ok ⟨by simp [value], ?_⟩
    simp only [List.forall_mem_append]
    refine ⟨⟨hitems, fun u hu => ?_⟩, by simpa using hw⟩
    rw [List.eq_of_mem_replicate hu]
    exact within_null

theorem both_writeItem (h : p.Paired s s') (hv : v.Within p.good) (n : Nat) (hw : w.Within p.good) :
    p.Both p.Paired (s.writeItem v n w) (s'.writeItem (p.value v) n (p.value w)) := by
  have hrefuse : p.Both p.Paired
      (.error (.about v (.indexRefused n (s.typeName v) (Cause.noItemAssignment (s.typeName v)).message)))
      (.error (.about (p.value v) (.indexRefused n (s'.typeName (p.value v)) (Cause.noItemAssignment (s'.typeName (p.value v))).message))) := by
    rw [h.typeName_value hv]
    exact both_fail_about v _
  unfold Store.writeItem
  rcases h.cell?_cases hv with ⟨hc, hc'⟩ | ⟨r, c, rfl, hr, hc, hc', hwithin⟩
  · simp only [hc, hc']
    cases v <;> exact hrefuse
  · rw [value_ref] at hc' hrefuse ⊢
    simp only [hc, hc']
    cases c with
    | object cls attrs =>
      cases cls with
      | box items =>
        simp only [Cell.contents, Cell.parts, List.forall_mem_append] at hwithin
        simp only [cell, Pairing.cls]
        refine both_ite Iff.rfl (fun _ => both_fail _) fun _ => ?_
        refine both_ite Iff.rfl (fun _ => both_fail_about (.ref r) _) fun _ => .ok (h.set hr ?_ ?_ ?_)
        · simp only [Cell.contents, Cell.parts, List.forall_mem_append]
          exact ⟨within_of_mem (fun u => mem_putItem) hw hwithin.1, hwithin.2⟩
        · intro d hd
          cases hc.symm.trans hd
          rfl
        · simp only [cell, Pairing.cls, putItem_map]
      | _ => exact hrefuse
    | _ => exact hrefuse

theorem both_setAttribute {name : String} (hname : p.hidden name = false) (h : p.Paired s s') (hv : v.Within p.good)
    (hw : w.Within p.good) : p.Both p.Paired (s.setAttribute v name w) (s'.setAttribute (p.value v) name (p.value w)) := by
  unfold Store.setAttribute
  rcases h.cell?_cases hv with ⟨hc, hc'⟩ | ⟨r, c, rfl, hr, hc, hc', hwithin⟩
  · simp only [hc, hc', h.typeName_value hv]
    cases v <;> exact both_fail _
  · have htrapped : Store.isTrapped (p.cell r c) name = Store.isTrapped c name := by
      cases c with
      | object cls attrs => cases cls <;> rfl
      | _ => rfl
    rw [value_ref] at hc' ⊢
    simp only [hc, hc', htrapped, typeName_cell, withAttribute?_cell hname]
    refine both_ite Iff.rfl (fun _ => both_fail _) fun _ => ?_
    cases hset : Store.withAttribute? c name w with
    | none => exact both_fail _
    | some c' =>
      refine .ok (h.set hr (within_of_mem (fun u => Cell.mem_contents_of_withAttribute? hset) hw hwithin) (fun d hd => ?_) rfl)
      cases hc.symm.trans hd
      exact attributesOf_withAttribute? hname hset

theorem both_writeOther (h : p.Paired s s') (hv : v.Within p.good) (segment : Segment) (hw : w.Within p.good) :
    p.Both p.Paired (s.writeOther v segment w) (s'.writeOther (p.value v) segment (p.value w)) := by
  unfold Store.writeOther
  refine both_ite (by simp) (fun _ => ?_) fun _ => ?_
  · refine (h.both_print hv).bind ?_
    rintro shown _ rfl
    exact both_fail_about v _
  · cases segment with
    | index n => exact h.both_writeItem hv n hw
    | name text =>
      refine both_ite Iff.rfl (fun _ => both_fail_about v _) fun hprivate => ?_
      exact both_setAttribute (hidden_eq_false (by simpa using hprivate)) h hv hw

theorem both_writeField (h : p.Paired s s') (hv : v.Within p.good) (segment : Segment) (hw : w.Within p.good) :
    p.Both p.Paired (s.writeField v segment w) (s'.writeField (p.value v) segment (p.value w)) := by
  have hsome : (s'.scope? (p.value v)).isSome = (s.scope? v).isSome := by rw [h.scope?_value hv, Option.isSome_map]
  cases hscope : (s.scope? v).isSome with
  | true =>
    unfold Store.writeField
    rw [if_pos hscope, if_pos (hsome.trans hscope)]
    exact h.both_bind hv (within_text _) hw
  | false =>
    have hother (hdict : s.dict? v = none) (hlist : s.list? v = none) :
        p.Both p.Paired (s.writeField v segment w) (s'.writeField (p.value v) segment (p.value w)) := by
      rw [Store.writeField_eq_writeOther hscope hdict hlist, Store.writeField_eq_writeOther (hsome.trans hscope)]
      · exact h.both_writeOther hv segment hw
      · rw [h.dict?_value hv, hdict]
        rfl
      · rw [h.list?_value hv, hlist]
        rfl
    have hno : ¬ (s.scope? v).isSome = true := by simp [hscope]
    have hno' : ¬ (s'.scope? (p.value v)).isSome = true := by simp [hsome, hscope]
    rcases h.cell?_cases hv with ⟨hc, hc'⟩ | ⟨r, c, rfl, hr, hc, hc', hwithin⟩
    · exact hother (by rw [Store.dict?, hc]) (by rw [Store.list?, hc])
    · cases c with
      | dict es =>
        unfold Store.writeField
        rw [if_neg hno, if_neg hno']
        rw [value_ref] at hc' ⊢
        simp only [hc, hc', cell, setSegment_entries]
        exact .ok (h.set_dict hr (within_setSegment segment hw hwithin) hc)
      | list items flavor =>
        unfold Store.writeField
        rw [if_neg hno, if_neg hno']
        rw [value_ref] at hc' ⊢
        simp only [hc, hc', cell]
        cases segment with
        | name text => exact .error ⟨rfl, by rintro _ ⟨⟩⟩
        | index n =>
          refine (both_setElement hwithin n hw).map ?_
          rintro items' _ ⟨rfl, hitems'⟩
          refine h.set hr hitems' (fun d hd => ?_) rfl
          cases hc.symm.trans hd
          rfl
      | _ => exact hother (by rw [Store.dict?, hc]) (by rw [Store.list?, hc])

theorem grown_allocFor (h : p.Paired s s') (segment : Segment) : p.Grown (s.allocFor segment) (s'.allocFor segment) := by
  unfold Store.allocFor
  split
  · exact @allocList p s s' h [] (by simp)
  · exact @allocDict p s s' h [] (by simp [Entries.parts])

theorem assigned_assignBelow (hw : w.Within p.good) (rest : List Segment) : ∀ {s s' : Store} {v : Value} (segment : Segment),
    p.Paired s s' → v.Within p.good →
    Assigned p (s.assignBelow v w segment rest) (s'.assignBelow (p.value v) (p.value w) segment rest) := by
  induction rest with
  | nil =>
    intro s s' v segment h hv
    unfold Store.assignBelow
    have hwrite := h.both_writeField hv segment hw
    cases hx : s.writeField v segment w <;> cases hx' : s'.writeField (p.value v) segment (p.value w) <;>
      rw [hx, hx'] at hwrite <;> cases hwrite
    · exact ⟨h, .inr ⟨_, _, rfl, rfl, ‹_›⟩⟩
    · exact ⟨‹_›, .inl ⟨rfl, rfl⟩⟩
  | cons below rest ih =>
    intro s s' v segment h hv
    unfold Store.assignBelow
    have hfield := h.both_readField hv segment
    cases hx : s.readField v segment <;> cases hx' : s'.readField (p.value v) segment <;> rw [hx, hx'] at hfield <;>
      cases hfield
    · exact ⟨h, .inr ⟨_, _, rfl, rfl, ‹_›⟩⟩
    · rename_i x x' hgrown
      obtain ⟨child, t⟩ := x
      obtain ⟨child', t'⟩ := x'
      obtain ⟨⟨heq, hchild⟩, ht⟩ := hgrown
      dsimp only at heq hchild ht
      subst heq
      dsimp only
      by_cases hreplace : (child = .null || child.isScalar) = true
      · rw [if_pos hreplace, if_pos (by simpa using hreplace)]
        obtain ⟨⟨heq, hfresh⟩, hu⟩ := ht.grown_allocFor below
        rw [heq]
        have hwrite := hu.both_writeField hv segment hfresh
        cases hy : (t.allocFor below).2.writeField v segment (t.allocFor below).1 <;>
          cases hy' : (t'.allocFor below).2.writeField (p.value v) segment (p.value (t.allocFor below).1) <;>
          rw [hy, hy'] at hwrite <;> cases hwrite
        · exact ⟨hu, .inr ⟨_, _, rfl, rfl, ‹_›⟩⟩
        · exact ih below ‹_› hfresh
      · rw [if_neg hreplace, if_neg (by simpa using hreplace)]
        exact ih below ht hchild

theorem assigned_assign (h : p.Paired s s') (path : Path) (hw : w.Within p.good) {ctx : Context} (hctx : ContextWithin p ctx) :
    Assigned p (s.assign path w ctx) (s'.assign path (p.value w) (p.context ctx)) := by
  have hrefuse : ∀ cause : String → Cause, Assigned p (s, some ⟨cause (Text.literal path.text), .path path, none⟩)
      (s', some ⟨cause (Text.literal path.text), .path path, none⟩) :=
    fun cause => ⟨h, .inr ⟨_, _, rfl, rfl, rfl, by rintro _ ⟨⟩⟩⟩
  unfold Store.assign
  dsimp only
  split
  · exact hrefuse _
  · cases path.segments with
    | nil => exact hrefuse _
    | cons segment rest =>
      dsimp only
      rw [rootValue_context]
      by_cases hnull : ctx.rootValue path.root = .null
      · rw [if_pos hnull, if_pos (value_eq_null.2 hnull)]
        exact hrefuse _
      · rw [if_neg hnull, if_neg fun heq => hnull (value_eq_null.1 heq)]
        exact assigned_assignBelow hw rest segment h (hctx.root _)

end Paired

end Pairing

end ListScript
