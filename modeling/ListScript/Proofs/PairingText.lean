import ListScript.Proofs.PairingLookup

/-!
# Texts of counterparts

A value and its counterpart have the same texts, printed and inspected (`Paired.both_print`, `Paired.both_inspect`): the
addresses of objects and the hidden attributes of host objects do not show in them. So neither do they in messages and
traces, and a text spells the same path wherever it is read (`Paired.both_pathOf`).
-/

namespace ListScript.Pairing

variable {p : Pairing} {s s' : Store} {v w : Value}

theorem both_printInteger (n : Int) : p.Both Eq (Store.printInteger n) (Store.printInteger n) := by
  unfold Store.printInteger
  split
  · exact .ok rfl
  · exact both_fail _

/-- Texts that a descent gives for the values in an object. -/
def Shows (p : Pairing) (vs : List Value) (shown shown' : Value → Except Raised String) : Prop :=
  ∀ v ∈ vs, p.Both Eq (shown v) (shown' (p.value v))

theorem both_text {x x' : Except Raised String} (h : p.Both Eq x x') (f : String → String) : p.Both Eq (x.map f) (x'.map f) :=
  h.map fun _ _ heq => congrArg f heq

theorem both_inspectItems {shown shown' : Value → Except Raised String} {items : List Value}
    (h : p.Shows items shown shown') :
    p.Both Eq (Store.inspectItems shown items) (Store.inspectItems shown' (items.map p.value)) :=
  (both_mapM_eq h).map fun _ _ heq => congrArg _ heq

theorem both_inspectEntries {shown shown' : Value → Except Raised String} {es : Entries} (h : p.Shows es.parts shown shown') :
    p.Both Eq (Store.inspectEntries shown es) (Store.inspectEntries shown' (p.entries es)) := by
  refine (both_mapM_eq fun e he => ?_ : p.Both Eq _ _).bind fun texts _ heq => .ok (by rw [heq])
  refine (h e.1 (List.mem_flatMap.2 ⟨e, he, by simp⟩)).bind ?_
  rintro key _ rfl
  refine (h e.2 (List.mem_flatMap.2 ⟨e, he, by simp⟩)).bind ?_
  rintro text _ rfl
  exact .ok rfl

theorem both_inspectContext {shown shown' : Value → Except Raised String} {ctx : Context}
    (h : p.Shows [ctx.this, ctx.scope, ctx.last] shown shown') :
    p.Both Eq (Store.inspectContext shown ctx) (Store.inspectContext shown' (p.context ctx)) := by
  refine (h ctx.this (by simp)).bind ?_
  rintro this _ rfl
  refine (h ctx.scope (by simp)).bind ?_
  rintro vars _ rfl
  refine (h ctx.last (by simp)).bind ?_
  rintro last _ rfl
  exact .ok rfl

namespace Paired

theorem methodName_value (h : p.Paired s s') (hv : v.Within p.good) (m : Host.Method) :
    s'.methodName (p.value v) m = s.methodName v m := by
  simp only [Store.methodName, h.typeName_value hv]

theorem both_textsFrom (h : p.Paired s s') {items : List Value} (hitems : ∀ v ∈ items, v.Within p.good) :
    ∀ position, p.Both Eq (s.textsFrom position items) (s'.textsFrom position (items.map p.value)) := by
  induction items with
  | nil => exact fun _ => .ok rfl
  | cons v rest ih =>
    intro position
    rw [List.forall_mem_cons] at hitems
    have htype := h.typeName_value hitems.1
    cases v with
    | str t flavor => exact (ih hitems.2 (position + 1)).map fun _ _ heq => congrArg _ heq
    | _ =>
      simp only [List.map_cons, value] at htype ⊢
      simp only [Store.textsFrom, htype]
      exact both_fail _

theorem both_joinedKeys (h : p.Paired s s') (hv : v.Within p.good) :
    p.Both Eq (s.joinedKeys v) (s'.joinedKeys (p.value v)) := by
  unfold Store.joinedKeys
  rw [h.mapping?_value hv]
  cases hes : s.mapping? v with
  | none => exact .ok rfl
  | some es =>
    simp only [Option.map_some, Option.getD_some, keys_entries]
    refine (h.both_textsFrom (fun k hk => ?_) 0).map fun _ _ heq => congrArg _ heq
    exact h.within_mapping? hv hes k (Entries.mem_of_mem_keys hk)

theorem both_inspectScope (h : p.Paired s s') (hv : v.Within p.good) (hw : w.Within p.good) :
    p.Both Eq (s.inspectScope v w) (s'.inspectScope (p.value v) (p.value w)) := by
  unfold Store.inspectScope
  rw [h.isTrue_value hw]
  exact both_text (h.both_joinedKeys hv) _

theorem printCallable_value (h : p.Paired s s') (r : Ref) (cls : Host.Class) {attrs : Attributes}
    (hattrs : ∀ v ∈ attrs.map Prod.snd, v.Within p.good) :
    s'.printCallable (p.cls cls) (p.veiled (p.veil r) attrs) = s.printCallable cls attrs := by
  have hwithin : ∀ name, ((attrs.lookup name).getD .null).Within p.good := fun name =>
    within_getD fun v hv => hattrs v (mem_of_lookup hv)
  simp only [Store.printCallable, lookup_veiled (p.open_names "__qualname__" (by simp)),
    lookup_veiled (p.open_names "__name__" (by simp)), getD_null, h.isTrue_value (hwithin _), label_cls]
  by_cases hfull : s.isTrue ((attrs.lookup "__qualname__").getD .null) = true
  · rw [if_pos hfull, if_pos hfull]
    cases (attrs.lookup "__qualname__").getD .null <;> rfl
  · rw [if_neg hfull, if_neg hfull]
    cases (attrs.lookup "__name__").getD .null <;> rfl

theorem isBlock_value (h : p.Paired s s') {items : List Value} (hitems : ∀ v ∈ items, v.Within p.good) :
    s'.isBlock (items.map p.value) = s.isBlock items := by
  unfold Store.isBlock
  rw [List.length_map]
  refine congrArg _ (all_map_eq fun v hv => ?_)
  rw [h.list?_value (hitems v hv)]
  cases s.list? v with
  | none => rfl
  | some elements =>
    cases elements with
    | nil => rfl
    | cons head _ => exact isText_value head

theorem both_printList (h : p.Paired s s') {items : List Value} (hitems : ∀ v ∈ items, v.Within p.good) (width level : Int)
    {shown shown' : Int → Value → Except Raised String} (hshown : ∀ level, p.Shows items (shown level) (shown' level)) :
    p.Both Eq (s.printList width level shown items) (s'.printList width level shown' (items.map p.value)) := by
  unfold Store.printList
  rw [h.isBlock_value hitems]
  split
  · exact (both_mapM_eq (hshown _)).bind fun lines _ heq => .ok (by rw [heq])
  · exact (both_mapM_eq (hshown _)).bind fun texts _ heq => .ok (by rw [heq])

theorem both_printClosure (h : p.Paired s s') {f : Closure} (hparams : f.params.Within p.good) (hbody : f.body.Within p.good)
    (width level : Int) {shown shown' : Int → Value → Except Raised String}
    (hshown : ∀ level v, v.Within p.good → p.Both Eq (shown level v) (shown' level (p.value v))) :
    p.Both Eq (s.printClosure width level shown f) (s'.printClosure width level shown' (p.closure f)) := by
  refine (h.both_elements hparams).bind ?_
  rintro params _ ⟨rfl, hparams⟩
  refine (h.both_printList hparams width level fun level v hv => hshown level v (hparams v hv)).bind ?_
  rintro names _ rfl
  refine (hshown level f.body hbody).bind ?_
  rintro body _ rfl
  exact .ok rfl

theorem both_textWith (h : p.Paired s s') (hv : v.Within p.good) {shown shown' : Value → Except Raised String}
    (hshown : p.Both Eq (shown v) (shown' (p.value v))) :
    p.Both Eq (s.textWith shown v) (s'.textWith shown' (p.value v)) := by
  cases v with
  | str t flavor => exact .ok rfl
  | ref r =>
    rcases h.cell?_cases hv with ⟨hc, hc'⟩ | ⟨r, c, -, -, hc, hc', -⟩
    · rw [value_ref] at hc' hshown ⊢
      simp only [Store.textWith, hc, hc']
      exact hshown
    · rw [value_ref] at hc' hshown ⊢
      simp only [Store.textWith, hc, hc']
      cases c with
      | path path => exact .ok rfl
      | _ => exact hshown
  | _ => exact hshown

theorem both_printEntries (h : p.Paired s s') {es : Entries} (hes : ∀ v ∈ es.parts, v.Within p.good)
    {inspected inspected' shown shown' : Value → Except Raised String} (hinspected : p.Shows es.parts inspected inspected')
    (hshown : p.Shows es.parts shown shown') :
    p.Both Eq (s.printEntries inspected shown es) (s'.printEntries inspected' shown' (p.entries es)) := by
  refine (both_mapM_eq fun e he => ?_ : p.Both Eq _ _).bind fun texts _ heq => .ok (by rw [heq])
  have hkey : e.1 ∈ es.parts := List.mem_flatMap.2 ⟨e, he, by simp⟩
  refine (h.both_textWith (hes _ hkey) (hinspected _ hkey)).bind ?_
  rintro key _ rfl
  refine (hshown e.2 (List.mem_flatMap.2 ⟨e, he, by simp⟩)).bind ?_
  rintro text _ rfl
  exact .ok rfl

section Within

variable {n : Nat} (h : p.Paired s s')
variable (hi : ∀ {v : Value}, v.Within p.good → p.Both Eq (s.inspectWithin n v) (s'.inspectWithin n (p.value v)))
variable (hp : ∀ (width level : Int) {v : Value}, v.Within p.good →
  p.Both Eq (s.printWithin n width level v) (s'.printWithin n width level (p.value v)))

include h hi hp

theorem both_inspectWithin_succ (hv : v.Within p.good) :
    p.Both Eq (s.inspectWithin (n + 1) v) (s'.inspectWithin (n + 1) (p.value v)) := by
  cases v with
  | int m => exact both_printInteger m
  | ref r =>
    have hr := Value.within_ref.1 hv
    have hshow : ∀ {vs : List Value}, (∀ v ∈ vs, v.Within p.good) → p.Shows vs (s.inspectWithin n) (s'.inspectWithin n) :=
      fun hvs v hv => hi (hvs v hv)
    simp only [value_ref, Store.inspectWithin, h.get?_move r hr]
    cases hc : s.get? r with
    | none => exact .ok rfl
    | some c =>
      have hwithin := h.closed r c hr hc
      cases c with
      | list items flavor => exact both_text (both_inspectItems (hshow hwithin)) _
      | tuple items =>
        simp only [Option.map_some, cell, List.length_map]
        exact both_text (both_inspectItems (hshow hwithin)) _
      | dict es => exact both_inspectEntries (hshow hwithin)
      | frozen es => exact both_text (both_inspectEntries (hshow hwithin)) _
      | raw payload => exact both_text (hi (hwithin payload (by simp [Cell.contents, Cell.parts]))) _
      | scope b q =>
        exact h.both_inspectScope (hwithin b (by simp [Cell.contents])) (hwithin q (by simp [Cell.contents]))
      | closure f attrs =>
        exact h.both_printClosure (hwithin f.params (by simp [Cell.contents, Cell.parts]))
          (hwithin f.body (by simp [Cell.contents, Cell.parts])) _ _ fun level v hv => hp _ level hv
      | context ctx attrs =>
        refine both_inspectContext (hshow fun v hv => hwithin v ?_)
        exact List.mem_append_left _ hv
      | object cls attrs =>
        simp only [Option.map_some, cell, label_cls]
        exact .ok rfl
      | method self m =>
        have hself := hwithin self (by simp [Cell.contents, Cell.parts])
        simp only [Option.map_some, cell, h.typeName_value hself, h.methodName_value hself]
        split
        · exact .ok rfl
        · exact both_text (hi hself) _
      | _ => exact .ok rfl
  | _ => exact .ok rfl

theorem both_printWithin_succ (width level : Int) (hv : v.Within p.good) :
    p.Both Eq (s.printWithin (n + 1) width level v) (s'.printWithin (n + 1) width level (p.value v)) := by
  cases v with
  | int m => exact both_printInteger m
  | ref r =>
    have hr := Value.within_ref.1 hv
    have hshow : ∀ {vs : List Value}, (∀ v ∈ vs, v.Within p.good) → ∀ level,
        p.Shows vs (s.printWithin n width level) (s'.printWithin n width level) :=
      fun hvs level v hv => hp width level (hvs v hv)
    have hinspect : ∀ {vs : List Value}, (∀ v ∈ vs, v.Within p.good) →
        p.Shows vs (s.inspectWithin n) (s'.inspectWithin n) := fun hvs v hv => hi (hvs v hv)
    simp only [value_ref, Store.printWithin, h.get?_move r hr]
    cases hc : s.get? r with
    | none => exact .ok rfl
    | some c =>
      have hwithin := h.closed r c hr hc
      cases c with
      | list items flavor => exact h.both_printList hwithin width level (hshow hwithin)
      | tuple items => exact h.both_printList hwithin width level (hshow hwithin)
      | dict es => exact h.both_printEntries hwithin (hinspect hwithin) (hshow hwithin level)
      | frozen es => exact h.both_printEntries hwithin (hinspect hwithin) (hshow hwithin level)
      | raw payload => exact both_text (hp width level (hwithin payload (by simp [Cell.contents, Cell.parts]))) _
      | scope b q => exact both_text (h.both_joinedKeys (hwithin b (by simp [Cell.contents]))) _
      | closure f attrs =>
        exact h.both_printClosure (hwithin f.params (by simp [Cell.contents, Cell.parts]))
          (hwithin f.body (by simp [Cell.contents, Cell.parts])) _ _ fun level v hv => hp _ level hv
      | context ctx attrs =>
        refine both_inspectContext (hinspect fun v hv => hwithin v ?_)
        exact List.mem_append_left _ hv
      | object cls attrs =>
        have hattrs : ∀ v ∈ attrs.map Prod.snd, v.Within p.good := fun v hv => hwithin v (List.mem_append_right _ hv)
        simp only [Option.map_some, cell, h.printCallable_value r cls hattrs, isCallable_cls, label_cls]
        exact .ok rfl
      | method self m =>
        simp only [Option.map_some, cell, h.methodName_value (hwithin self (by simp [Cell.contents, Cell.parts]))]
        exact .ok rfl
      | _ => exact .ok rfl
  | _ => exact .ok rfl

end Within

/-- The two texts of a value, nested to any depth. -/
theorem both_within (h : p.Paired s s') (n : Nat) :
    (∀ {v : Value}, v.Within p.good → p.Both Eq (s.inspectWithin n v) (s'.inspectWithin n (p.value v))) ∧
    ∀ (width level : Int) {v : Value}, v.Within p.good →
      p.Both Eq (s.printWithin n width level v) (s'.printWithin n width level (p.value v)) := by
  induction n with
  | zero => exact ⟨fun _ => both_fail _, fun _ _ _ _ => both_fail _⟩
  | succ n ih =>
    obtain ⟨hi, hp⟩ := ih
    exact ⟨h.both_inspectWithin_succ hi hp, fun width level _ => h.both_printWithin_succ hi hp width level⟩

theorem both_inspect (h : p.Paired s s') (hv : v.Within p.good) : p.Both Eq (s.inspect v) (s'.inspect (p.value v)) := by
  unfold Store.inspect Store.depthBound
  rw [h.extent_value hv]
  exact (h.both_within _).1 hv

theorem both_print (h : p.Paired s s') (hv : v.Within p.good) : p.Both Eq (s.print v) (s'.print (p.value v)) := by
  unfold Store.print Store.printAt Store.depthBound
  rw [h.extent_value hv]
  exact (h.both_within _).2 _ _ hv

theorem both_plainText (h : p.Paired s s') (hv : v.Within p.good) :
    p.Both Eq (s.plainText v) (s'.plainText (p.value v)) :=
  h.both_textWith hv (h.both_inspect hv)

/-- A text spells the same path wherever it is read. -/
theorem both_pathOf (h : p.Paired s s') (hv : v.Within p.good) : p.Both Eq (s.pathOf v) (s'.pathOf (p.value v)) := by
  refine (h.both_checkHashable hv).bind fun _ _ _ => ?_
  simp only [text?_value]
  cases Path.parse (v.text?.getD "") with
  | ok path => exact .ok rfl
  | error fault =>
    refine (h.both_inspect hv).bind ?_
    rintro shown _ rfl
    split
    · exact both_fail_about v _
    · exact both_fail _

end Paired

end ListScript.Pairing
