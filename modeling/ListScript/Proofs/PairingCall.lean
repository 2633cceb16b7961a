import ListScript.Proofs.Discipline
import ListScript.Proofs.PairingAccess

/-!
# Expressions and calls side by side

Counterparts are read as scripts and expressions of the same form (`Paired.both_script`, `Paired.both_command`), and
refused with the same messages. The lists of active calls of two evaluators grow and shrink together, and what is
recorded of them corresponds (`Paired.both_frames`).
-/

namespace ListScript.Pairing

variable {p : Pairing} {s s' : Store} {v w expression tag : Value} {engine : Ref}

variable (p) in
def form : Script → Script
  | .single v => .single (p.value v)
  | .sequence v => .sequence (p.value v)

variable (p) in
def command : Command → Command
  | .call target args => .call (p.value target) (args.map p.value)
  | .get target => .get (p.value target)
  | .lambda params body => .lambda (p.value params) (p.value body)
  | .set receiver source => .set (p.value receiver) (p.value source)
  | .value payload => .value (p.value payload)

variable (p) in
/-- Two scripts of the same form. -/
abbrev Forms : Script → Script → Prop :=
  Of p.form fun | .single v | .sequence v => v.Within p.good

variable (p) in
/-- Two expressions of the same form. -/
abbrev Commands : Command → Command → Prop := Of p.command fun c => ∀ v ∈ c.parts, v.Within p.good

variable (p) in
/-- What is recorded of two calls. -/
abbrev Frames : List Frame → List Frame → Prop :=
  Of (List.map p.frame) fun frames => ∀ f ∈ frames, f.name.Within p.good ∧ f.args.Within p.good

@[simp] theorem label_command (c : Command) : (p.command c).label = c.label := by cases c <;> rfl

namespace Paired

/-! ## Reading scripts -/

theorem both_script (h : p.Paired s s') (hv : v.Within p.good) : p.Both p.Forms (s.script v) (s'.script (p.value v)) := by
  unfold Store.script
  rw [h.list?_value hv]
  cases hitems : s.list? v with
  | none =>
    refine (h.both_print hv).bind ?_
    rintro shown _ rfl
    exact both_fail_about v _
  | some items =>
    have hsingle : s'.isSingle (items.map p.value) = s.isSingle items := by
      cases items with
      | nil => rfl
      | cons head rest => rw [List.map_cons, Store.isSingle, Store.isSingle, h.isList_value (h.within_list? hv hitems _ List.mem_cons_self)]
    refine .ok ?_
    rw [hsingle]
    cases s.isSingle items <;> exact ⟨rfl, hv⟩

theorem both_refuse {α β : Type} {R : α → β → Prop} (h : p.Paired s s') (hv : v.Within p.good) (cause : String → Cause) :
    p.Both R (s.refuse v cause) (s'.refuse (p.value v) cause) := by
  refine (h.both_print hv).bind ?_
  rintro shown _ rfl
  exact both_fail_about v _

theorem both_checkArity (h : p.Paired s s') (hv : v.Within p.good) (name : String) (given least most : Nat) :
    p.Both Eq (s.checkArity v name given least most) (s'.checkArity (p.value v) name given least most) := by
  unfold Store.checkArity
  refine both_ite Iff.rfl (fun _ => h.both_refuse hv _) fun _ => ?_
  exact both_ite Iff.rfl (fun _ => h.both_refuse hv _) fun _ => .ok rfl

theorem isNameList_value (h : p.Paired s s') (hv : v.Within p.good) : s'.isNameList (p.value v) = s.isNameList v := by
  unfold Store.isNameList
  rw [h.list?_value hv]
  cases s.list? v with
  | none => rfl
  | some items => simp [Function.comp_def]

theorem both_commandOf (h : p.Paired s s') (he : expression.Within p.good) (ht : tag.Within p.good) {params : List Value}
    (hparams : ∀ u ∈ params, u.Within p.good) :
    p.Both p.Commands (s.commandOf expression tag params) (s'.commandOf (p.value expression) (p.value tag) (params.map p.value)) := by
  have hparam : ∀ i : Nat, ((params[i]?).getD .null).Within p.good :=
    fun i => within_getD fun u hu => hparams u (List.mem_of_getElem? hu)
  have hparam' : ∀ i : Nat, ((params.map p.value)[i]?).getD .null = p.value ((params[i]?).getD .null) := by
    intro i
    rw [List.getElem?_map, getD_null]
  unfold Store.commandOf
  simp only [text?_value, List.length_map, hparam', isText_value, h.isNameList_value (hparam _)]
  split
  · refine (h.both_checkArity he _ _ _ _).bind fun _ _ _ => ?_
    rw [List.getElem?_map]
    cases hargs : params[1]? with
    | none => exact .ok ⟨rfl, by simpa [Command.parts] using hparam 0⟩
    | some args =>
      have hwithin := hparams args (List.mem_of_getElem? hargs)
      refine both_ite (by rw [h.isList_value hwithin]) (fun _ => .ok ⟨rfl, ?_⟩) fun _ => h.both_refuse he _
      simpa [Command.parts] using ⟨hparam 0, hwithin⟩
  · refine (h.both_checkArity he _ _ _ _).bind fun _ _ _ => ?_
    exact .ok ⟨rfl, by simpa [Command.parts] using hparam 0⟩
  · refine (h.both_checkArity he _ _ _ _).bind fun _ _ _ => ?_
    refine both_ite Iff.rfl (fun _ => .ok ⟨rfl, ?_⟩) fun _ => h.both_refuse he _
    simpa [Command.parts] using ⟨hparam 0, hparam 1⟩
  · refine (h.both_checkArity he _ _ _ _).bind fun _ _ _ => ?_
    refine both_ite Iff.rfl (fun _ => .ok ⟨rfl, ?_⟩) fun _ => h.both_refuse he _
    simpa [Command.parts] using ⟨hparam 0, hparam 1⟩
  · refine (h.both_checkArity he _ _ _ _).bind fun _ _ _ => ?_
    exact .ok ⟨rfl, by simpa [Command.parts] using hparam 0⟩
  · refine (h.both_print ht).bind ?_
    rintro shown _ rfl
    exact h.both_refuse he _

theorem both_command (h : p.Paired s s') (he : expression.Within p.good) :
    p.Both p.Commands (s.command expression) (s'.command (p.value expression)) := by
  unfold Store.command
  rw [h.list?_value he]
  cases hitems : s.list? expression with
  | none => exact h.both_refuse he _
  | some items =>
    cases items with
    | nil => exact h.both_refuse he _
    | cons tag params =>
      have hwithin := h.within_list? he hitems
      rw [List.forall_mem_cons] at hwithin
      exact h.both_commandOf he hwithin.1 hwithin.2

/-! ## Functions made by scripts -/

theorem both_needAttribute {name : String} (hname : p.hidden name = false) (h : p.Paired s s') (hv : v.Within p.good) :
    p.Both p.Val (s.needAttribute v name) (s'.needAttribute (p.value v) name) := by
  refine (both_attribute? hname h hv).bind ?_
  rintro found _ ⟨rfl, hfound⟩
  rw [h.typeName_value hv]
  cases found with
  | none => exact both_fail _
  | some reading =>
    cases reading with
    | stored w => exact .ok ⟨rfl, hfound w rfl⟩
    | method m => exact both_fail _

theorem both_bindParameters {scope : Value} (hscope : scope.Within p.good) {names : List Value} : ∀ {s s' : Store} {args : List Value},
    p.Paired s s' → (∀ u ∈ names, u.Within p.good) → (∀ u ∈ args, u.Within p.good) →
    p.Both p.Paired (s.bindParameters scope names args)
      (s'.bindParameters (p.value scope) (names.map p.value) (args.map p.value)) := by
  induction names with
  | nil => exact fun h _ _ => .ok h
  | cons name names ih =>
    intro s s' args h hnames hargs
    rw [List.forall_mem_cons] at hnames
    have hhead : (args.map p.value).head?.getD .null = p.value (args.head?.getD .null) := by
      rw [List.head?_map, getD_null]
    rw [List.map_cons, Store.bindParameters, Store.bindParameters, hhead, ← List.map_tail]
    refine (h.both_bind hscope hnames.1 (within_getD fun u hu => hargs u (List.mem_of_mem_head? hu))).bind ?_
    intro t t' ht
    exact ih ht hnames.2 fun u hu => hargs u (List.mem_of_mem_tail hu)

theorem engine?_value (h : p.Paired s s') (hv : v.Within p.good) :
    s'.engine? (p.value v) = (s.engine? v).map p.move ∧ ∀ r ∈ s.engine? v, p.good r := by
  unfold Store.engine?
  rcases h.cell?_cases hv with ⟨hc, hc'⟩ | ⟨r, c, rfl, hr, hc, hc', -⟩ <;> rw [hc, hc']
  · cases v <;> exact ⟨rfl, by simp⟩
  · cases c with
    | engine =>
      refine ⟨rfl, ?_⟩
      rintro _ ⟨⟩
      exact hr
    | _ => exact ⟨rfl, by simp⟩

variable (p) in
/-- A context and its counterpart. -/
abbrev Contexts : Context → Context → Prop := Of p.context (ContextWithin p)

theorem context?_value (h : p.Paired s s') (hv : v.Within p.good) :
    s'.context? (p.value v) = (s.context? v).map p.context ∧ ∀ ctx ∈ s.context? v, ContextWithin p ctx := by
  unfold Store.context?
  rcases h.cell?_cases hv with ⟨hc, hc'⟩ | ⟨r, c, -, -, hc, hc', hwithin⟩ <;> rw [hc, hc']
  · exact ⟨rfl, by simp⟩
  · cases c with
    | context ctx attrs =>
      simp only [Cell.contents, Cell.parts, List.forall_mem_append, List.forall_mem_cons] at hwithin
      refine ⟨rfl, ?_⟩
      rintro _ ⟨⟩
      exact ⟨hwithin.1.1, hwithin.1.2.1, hwithin.1.2.2.1⟩
    | _ => exact ⟨rfl, by simp⟩

theorem grown_allocClosure (h : p.Paired s s') (hv : v.Within p.good) (hw : w.Within p.good) {ctx : Context}
    (hctx : ContextWithin p ctx) (hengine : p.good engine) :
    p.Grown (s.allocClosure v w ctx engine) (s'.allocClosure (p.value v) (p.value w) (p.context ctx) (p.move engine)) := by
  have hcontext : p.Paired (s.alloc (.context ctx [])).2 (s'.alloc (.context (p.context ctx) [])).2 :=
    h.alloc (by simpa [Cell.contents, Cell.parts, ContextWithin] using hctx) rfl rfl
  unfold Store.allocClosure
  refine ⟨⟨congrArg Value.ref hcontext.next, Value.within_ref.2 hcontext.good_next⟩, hcontext.alloc ?_ rfl ?_⟩
  · simpa [Cell.contents, Cell.parts, Store.alloc] using
      ⟨hv, hw, Value.within_ref.2 h.good_next, Value.within_ref.2 hengine⟩
  · simp only [cell, closure, value_ref, Store.alloc, h.next]
    rfl

theorem acceptsReceiver_value (h : p.Paired s s') (hv : v.Within p.good) :
    s'.acceptsReceiver (p.value v) = s.acceptsReceiver v := by
  unfold Store.acceptsReceiver
  rcases h.cell?_cases hv with ⟨hc, hc'⟩ | ⟨r, c, -, -, hc, hc', hwithin⟩ <;> simp only [hc, hc']
  cases c with
  | object cls attrs =>
    have hfunc : p.hidden "__func__" = false := p.open_names _ (by simp)
    have haccepts : p.hidden "_script_accepts_this" = false := p.open_names _ (by simp)
    have howner : ((attrs.lookup "__func__").map p.value).getD (p.value v) = p.value ((attrs.lookup "__func__").getD v) := by
      cases attrs.lookup "__func__" <;> rfl
    have hcls : (p.cls cls).takesReceiver = cls.takesReceiver := by cases cls <;> rfl
    have howner' : ((attrs.lookup "__func__").getD v).Within p.good := by
      cases hlookup : attrs.lookup "__func__" with
      | none => exact hv
      | some u => exact hwithin u (List.mem_append_right _ (mem_of_lookup hlookup))
    simp only [cell, lookup_veiled hfunc, howner, h.hiddenAttribute?_value haccepts howner', hcls]
    cases s.hiddenAttribute? ((attrs.lookup "__func__").getD v) "_script_accepts_this" with
    | none => rfl
    | some u => cases u <;> rfl
  | _ => rfl

/-! ## Active calls -/

theorem stackOf_move (h : p.Paired s s') (hengine : p.good engine) :
    s'.stackOf (p.move engine) = p.value (s.stackOf engine) ∧ (s.stackOf engine).Within p.good := by
  unfold Store.stackOf
  rw [h.get?_move engine hengine]
  cases hc : s.get? engine with
  | none => exact ⟨rfl, within_null⟩
  | some c =>
    cases c with
    | engine stack attrs => exact ⟨rfl, h.closed engine _ hengine hc stack List.mem_cons_self⟩
    | _ => exact ⟨rfl, within_null⟩

theorem both_updateStack (h : p.Paired s s') (hengine : p.good engine) (operation : String)
    {f f' : List Value → Except Raised (List Value)}
    (hf : ∀ items, (∀ u ∈ items, u.Within p.good) → p.Both p.Vals (f items) (f' (items.map p.value))) :
    p.Both p.Paired (s.updateStack engine operation f) (s'.updateStack (p.move engine) operation f') := by
  obtain ⟨hstack, hwithin⟩ := h.stackOf_move hengine
  unfold Store.updateStack
  simp only [hstack, h.typeName_value hwithin]
  rcases h.cell?_cases hwithin with ⟨hc, hc'⟩ | ⟨r, c, heq, hr, hc, hc', hcontents⟩
  · rw [hc, hc']
    cases s.stackOf engine <;> exact both_fail _
  · rw [hc, hc', heq]
    cases c with
    | list items flavor =>
      refine (hf items hcontents).map ?_
      rintro items' _ ⟨rfl, hitems'⟩
      refine h.set hr hitems' (fun d hd => ?_) rfl
      rw [heq] at hc
      cases hc.symm.trans hd
      rfl
    | _ => exact both_fail _

theorem both_pushFrame (h : p.Paired s s') (hengine : p.good engine) (hv : v.Within p.good) (hw : w.Within p.good) :
    p.Both p.Paired (s.pushFrame engine v w) (s'.pushFrame (p.move engine) (p.value v) (p.value w)) := by
  obtain ⟨⟨-, hframe⟩, hpaired⟩ := @allocDict p s s' h [(.text "name", v), (.text "args", w)]
    (by simpa [Entries.parts] using ⟨within_text _, hv, within_text _, hw⟩)
  unfold Store.pushFrame
  refine hpaired.both_updateStack hengine "append" fun items hitems => ?_
  refine .ok ⟨?_, ?_⟩
  · simpa [entries] using h.next
  · simp only [List.forall_mem_append, List.forall_mem_cons]
    exact ⟨hitems, hframe, by simp⟩

theorem both_popFrame (h : p.Paired s s') (hengine : p.good engine) :
    p.Both p.Paired (s.popFrame engine) (s'.popFrame (p.move engine)) := by
  obtain ⟨hstack, hwithin⟩ := h.stackOf_move hengine
  unfold Store.popFrame
  rw [hstack, h.dict?_value hwithin, Option.isSome_map]
  refine both_ite Iff.rfl (fun _ => both_fail _) fun _ => h.both_updateStack hengine "pop" fun items hitems => ?_
  refine both_ite (by simp) (fun _ => both_fail _) fun _ => .ok ⟨by rw [List.map_dropLast], fun u hu => ?_⟩
  exact hitems u (List.dropLast_subset _ hu)

theorem both_frameOf (h : p.Paired s s') (hv : v.Within p.good) :
    p.Both (Of p.frame fun f => f.name.Within p.good ∧ f.args.Within p.good) (s.frameOf v) (s'.frameOf (p.value v)) := by
  refine (h.both_copiedEntries hv).bind ?_
  rintro es _ ⟨rfl, hes⟩
  have hfield : ∀ name : String,
      (Entries.find? (s'.sameKey (.text name)) (p.entries es)).getD .null =
        p.value ((Entries.find? (s.sameKey (.text name)) es).getD .null) := by
    intro name
    rw [← getD_null, ← find?_entries]
    exact fun k hk => h.sameKey_value (within_text name) (hes k (Entries.mem_of_mem_keys hk))
  have hwithin : ∀ name : String, ((Entries.find? (s.sameKey (.text name)) es).getD .null).Within p.good :=
    fun name => within_getD fun u hu => hes u (Entries.mem_of_find? hu)
  exact .ok ⟨congrArg₂ Frame.mk (hfield "name") (hfield "args"), hwithin _, hwithin _⟩

theorem both_frames (h : p.Paired s s') (hengine : p.good engine) :
    p.Both p.Frames (s.frames engine) (s'.frames (p.move engine)) := by
  obtain ⟨hstack, hwithin⟩ := h.stackOf_move hengine
  unfold Store.frames
  rw [hstack]
  refine (h.both_elements hwithin).bind ?_
  rintro items _ ⟨rfl, hitems⟩
  exact both_mapM fun u hu => h.both_frameOf (hitems u hu)

end Paired

end ListScript.Pairing
