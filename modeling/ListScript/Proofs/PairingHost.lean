import ListScript.Host.Methods
import ListScript.Proofs.PairingEffect

/-!
# The host side by side

The functions and methods of the host do the same with counterparts (`mirrors_function`, `mirrors_method`), provided that
the values they call back do.
-/

namespace ListScript.Pairing

variable {p : Pairing} {s s' : Store} {v w : Value} {r : Ref}

/-! ## The functions of the host -/

section Functions

open Host

variable {args : List Value} {this : Option Value} {f list : Value}

@[simp] theorem arg_map (args : List Value) (i : Nat) : arg (args.map p.value) i = p.value (arg args i) := by
  rw [arg, arg, List.getElem?_map, getD_null]

theorem within_arg (hargs : ∀ u ∈ args, u.Within p.good) (i : Nat) : (arg args i).Within p.good :=
  within_getD fun u hu => hargs u (List.mem_of_getElem? hu)

theorem within_drop (hargs : ∀ u ∈ args, u.Within p.good) (n : Nat) : ∀ u ∈ args.drop n, u.Within p.good :=
  fun u hu => hargs u (List.mem_of_mem_drop hu)

theorem mirrors_newList (hargs : ∀ u ∈ args, u.Within p.good) :
    p.Mirrors p.Val (newList args) (newList (args.map p.value)) :=
  mirrors_extend fun _ _ h => h.allocList hargs

theorem mirrors_integerArg (name : String) (v : Value) : p.Mirrors Eq (integerArg name v) (integerArg name (p.value v)) := by
  cases v with
  | int n => exact mirrors_pure rfl
  | _ => exact mirrors_fault _ _

theorem mirrors_needCallable (name : String) (hv : v.Within p.good) :
    p.Mirrors Eq (needCallable name v) (needCallable name (p.value v)) :=
  mirrors_store.bind fun _ _ h =>
    mirrors_ite (by rw [h.isCallable_value hv]) (fun _ => mirrors_pure rfl) fun _ => mirrors_fault _ _

theorem mirrors_needList (name : String) (hv : v.Within p.good) :
    p.Mirrors Eq (needList name v) (needList name (p.value v)) :=
  mirrors_store.bind fun _ _ h =>
    mirrors_ite (by rw [h.isList_value hv]) (fun _ => mirrors_pure rfl) fun _ => mirrors_fault _ _

theorem mirrors_sum (name : String) (args : List Value) : p.Mirrors Eq (sum name args) (sum name (args.map p.value)) := by
  induction args with
  | nil => exact mirrors_pure rfl
  | cons v rest ih => exact (mirrors_integerArg name v).same fun n => ih.same fun m => mirrors_pure rfl

theorem mirrors_joined (args : List Value) : p.Mirrors Eq (joined args) (joined (args.map p.value)) := by
  induction args with
  | nil => exact mirrors_pure rfl
  | cons v rest ih =>
    cases v with
    | str t flavor => exact ih.same fun _ => mirrors_pure rfl
    | _ => exact mirrors_fault _ _

theorem alternating_map : ∀ args : List Value, alternating (args.map p.value) = p.entries (alternating args)
  | [] => rfl
  | [_] => rfl
  | k :: v :: rest => congrArg ((p.value k, p.value v) :: ·) (alternating_map rest)

theorem within_alternating : ∀ {args : List Value}, (∀ u ∈ args, u.Within p.good) →
    ∀ u ∈ (alternating args).parts, u.Within p.good
  | [], _ => by simp [alternating, Entries.parts]
  | [k], h => by simpa [alternating, Entries.parts] using ⟨h k List.mem_cons_self, within_null⟩
  | k :: v :: rest, h => by
    simp only [List.forall_mem_cons] at h
    have hrest := within_alternating h.2.2
    simp only [alternating, Entries.parts, List.flatMap_cons, List.forall_mem_append, List.forall_mem_cons] at hrest ⊢
    exact ⟨⟨h.1, h.2.1, by simp⟩, hrest⟩

variable (p) in
/-- Two ways to call values that mirror each other. -/
def Calls (call call' : Callback) : Prop :=
  ∀ g args, g.Within p.good → (∀ u ∈ args, u.Within p.good) →
    p.Mirrors p.Val (call g args) (call' (p.value g) (args.map p.value))

section Loops

variable {call call' : Callback}

theorem mirrors_mapFrom (hcall : p.Calls call call') (hf : f.Within p.good) (hlist : list.Within p.good) (fuel : Nat) :
    ∀ (i : Nat) (done : List Value), (∀ u ∈ done, u.Within p.good) →
      p.Mirrors p.Vals (mapFrom call f list fuel i done)
        (mapFrom call' (p.value f) (p.value list) fuel i (done.map p.value)) := by
  induction fuel with
  | zero => exact fun _ _ _ => mirrors_exhaust
  | succ fuel ih =>
    intro i done hdone
    refine (mirrors_element? hlist i).bind ?_
    rintro found _ ⟨rfl, hfound⟩
    cases found with
    | none => exact mirrors_pure ⟨List.map_reverse.symm, fun u hu => hdone u (List.mem_reverse.1 hu)⟩
    | some x =>
      refine (hcall f [x] hf (by simpa using hfound)).val fun y hy => ?_
      exact ih (i + 1) (y :: done) (List.forall_mem_cons.2 ⟨hy, hdone⟩)

theorem mirrors_foldFrom (hcall : p.Calls call call') (hf : f.Within p.good) (hlist : list.Within p.good) (fuel : Nat) :
    ∀ (i : Nat) (acc : Value), acc.Within p.good →
      p.Mirrors p.Val (foldFrom call f list fuel i acc) (foldFrom call' (p.value f) (p.value list) fuel i (p.value acc)) := by
  induction fuel with
  | zero => exact fun _ _ _ => mirrors_exhaust
  | succ fuel ih =>
    intro i acc hacc
    refine (mirrors_element? hlist i).bind ?_
    rintro found _ ⟨rfl, hfound⟩
    cases found with
    | none => exact mirrors_value hacc
    | some x => exact (hcall f [acc, x] hf (by simpa using ⟨hacc, hfound x rfl⟩)).val fun y hy => ih (i + 1) y hy

theorem mirrors_timesFrom (hcall : p.Calls call call') (hf : f.Within p.good) (n : Nat) :
    ∀ (i : Int) (done : List Value), (∀ u ∈ done, u.Within p.good) →
      p.Mirrors p.Vals (timesFrom call f n i done) (timesFrom call' (p.value f) n i (done.map p.value)) := by
  induction n with
  | zero => exact fun _ _ hdone => mirrors_pure ⟨List.map_reverse.symm, fun u hu => hdone u (List.mem_reverse.1 hu)⟩
  | succ n ih =>
    intro i done hdone
    refine (hcall f [.int i] hf (by simpa using within_int i)).val fun y hy => ?_
    exact ih (i + 1) (y :: done) (List.forall_mem_cons.2 ⟨hy, hdone⟩)

theorem mirrors_callChecked (hcall : p.Calls call call') (name : String) (hf : f.Within p.good)
    (hargs : ∀ u ∈ args, u.Within p.good) :
    p.Mirrors p.Val (callChecked call name f args) (callChecked call' name (p.value f) (args.map p.value)) :=
  (mirrors_needCallable name hf).same fun _ => hcall f args hf hargs

end Loops

theorem mirrors_pushAll (name : String) (hlist : list.Within p.good) (hargs : ∀ u ∈ args, u.Within p.good) :
    p.Mirrors Eq (pushAll name list args) (pushAll name (p.value list) (args.map p.value)) := by
  refine (mirrors_needList name hlist).same fun _ => mirrors_change fun s s' h => ?_
  rcases h.cell?_cases hlist with ⟨hc, hc'⟩ | ⟨r, c, rfl, hr, hc, hc', hwithin⟩
  · rw [hc, hc']
    cases list <;> exact .ok h
  · rw [value_ref] at hc' ⊢
    rw [hc, hc']
    cases c with
    | list old flavor =>
      refine .ok (h.set hr (List.forall_mem_append.2 ⟨hwithin, hargs⟩) (fun d hd => ?_) ?_)
      · cases hc.symm.trans hd
        rfl
      · simp only [cell, List.map_append]
    | _ => exact .ok h

theorem mirrors_kindOf (hv : v.Within p.good) : p.Mirrors Eq (kindOf v) (kindOf (p.value v)) := by
  refine mirrors_store.bind fun s s' h => ?_
  refine mirrors_ite (by rw [h.isTrue_value hv]) (fun _ => mirrors_pure rfl) fun _ => ?_
  refine (mirrors_ask fun s s' h => h.both_checkHashable hv).same fun _ => ?_
  rw [text?_value]
  cases v.text?.bind fun name => Kind.raisable.find? fun k => k.label == name with
  | some k => exact mirrors_pure rfl
  | none => exact (mirrors_ask fun s s' h => h.both_inspect hv).same fun shown => mirrors_raise (errors_of _)

theorem mirrors_errorText (hv : v.Within p.good) : p.Mirrors Eq (errorText v) (errorText (p.value v)) := by
  have hprint : p.Mirrors Eq (Effect.ask (·.print v)) (Effect.ask (·.print (p.value v))) :=
    mirrors_ask fun s s' h => h.both_print hv
  cases v with
  | null | str => exact mirrors_pure rfl
  | _ => exact hprint

variable (p) in
/-- A record of calls that an error may bring. -/
abbrev Records : Option (List Frame) → Option (List Frame) → Prop :=
  Of (Option.map (List.map p.frame)) fun o => ∀ frames, o = some frames → ∀ f ∈ frames, f.name.Within p.good ∧ f.args.Within p.good

theorem mirrors_ownStack (kind : Kind) : p.Mirrors p.Records (ownStack kind) (ownStack kind) := by
  cases kind with
  | preset =>
    refine (@mirrors_newList p [.int 1, .int 2] (by simp [within_int])).val fun inner hinner => ?_
    refine (@mirrors_newList p [.text "x", inner] (by simp [within_text, hinner])).val fun args hargs => ?_
    refine mirrors_pure ⟨rfl, ?_⟩
    rintro _ ⟨⟩
    simp [within_text, within_null, hargs]
  | bare => exact mirrors_pure ⟨rfl, by rintro _ ⟨⟩; simp⟩
  | _ => exact mirrors_pure ⟨rfl, by rintro _ ⟨⟩⟩

theorem mirrors_failAs (kind : Kind) (text : String) : p.Mirrors p.Val (failAs kind text) (failAs kind text) := by
  refine (mirrors_ownStack kind).bind ?_
  rintro stack _ ⟨rfl, hstack⟩
  exact mirrors_raise ⟨rfl, hstack⟩

theorem mirrors_failWith (hv : v.Within p.good) (hw : w.Within p.good) :
    p.Mirrors p.Val (failWith v w) (failWith (p.value v) (p.value w)) :=
  (mirrors_kindOf hv).same fun kind => (mirrors_errorText hw).same fun text => mirrors_failAs kind text

theorem mirrors_report {e e' : Raised} (h : p.Errors e e') : p.Mirrors p.Val (report e) (report e') := by
  obtain ⟨rfl, hframes⟩ := h
  have hdict : ∀ stack : Value, stack.Within p.good → p.Mirrors p.Val
      (Effect.extend (·.allocDict [(.text "kind", .text e.kind.label), (.text "message", .text e.message), (.text "stack", stack)]))
      (Effect.extend (·.allocDict
        [(.text "kind", .text e.kind.label), (.text "message", .text e.message), (.text "stack", p.value stack)])) :=
    fun stack hstack => mirrors_extend fun _ _ h => h.allocDict (by simp [Entries.parts, within_text, hstack])
  obtain ⟨cause, subject, stack⟩ := e
  cases stack with
  | none => exact mirrors_null.val hdict
  | some frames =>
    have hnames : (frames.map p.frame).map Frame.name = (frames.map Frame.name).map p.value := by
      simp [Function.comp_def, frame]
    have hnew : p.Mirrors p.Val (newList (frames.map Frame.name)) (newList ((frames.map p.frame).map Frame.name)) := by
      rw [hnames]
      refine mirrors_newList fun u hu => ?_
      obtain ⟨f, hf, rfl⟩ := List.mem_map.1 hu
      exact (hframes frames rfl f hf).1
    exact hnew.val hdict

theorem mirrors_needReceiver (name : String) (hthis : ∀ v ∈ this, v.Within p.good) :
    p.Mirrors p.Val (needReceiver name this) (needReceiver name (this.map p.value)) := by
  cases this with
  | none => exact mirrors_raise (errors_of _)
  | some v => exact mirrors_value (hthis v rfl)

theorem identical_value {s s' : Store} (h : p.Paired s s') (hv : v.Within p.good) (hw : w.Within p.good) :
    identical s' (p.value v) (p.value w) = identical s v w := by
  have htuple : ∀ {r : Ref}, p.good r → isEmptyTuple s' (.ref (p.move r)) = isEmptyTuple s (.ref r) := by
    intro r hr
    simp only [isEmptyTuple, Store.cell?, h.get?_move r hr]
    cases s.get? r with
    | none => rfl
    | some c =>
      cases c with
      | tuple items => cases items <;> rfl
      | _ => rfl
  cases v with
  | ref r =>
    cases w with
    | ref r' =>
      have hmove : (p.move r == p.move r') = (r == r') := by
        rw [Bool.eq_iff_iff, beq_iff_eq, beq_iff_eq]
        exact ⟨p.injective, congrArg _⟩
      simp only [value_ref, identical, hmove, htuple (Value.within_ref.1 hv), htuple (Value.within_ref.1 hw)]
    | _ => rfl
  | root => cases w <;> rfl
  | _ => rfl

/-! ### Functions that are given by their code -/

section Codes

open Paired

variable {got : List Value} {m : Memory} {α α' : Type} {R : α → α' → Prop} {ctx : Context}

theorem value_bare (v : Value) : p.value v.bare = v.bare := by
  cases v with
  | float d => exact congrArg Value.float (double_of_tag rfl)
  | _ => rfl

theorem bare_value (v : Value) : (p.value v).bare = v.bare := by cases v <;> rfl

theorem value_term (t : Term) (got : List Value) : t.value (got.map p.value) = p.value (t.value got) := by
  cases t with
  | got i => simp only [Term.value, List.getElem?_map, getD_null]
  | literal v => exact (value_bare v).symm

theorem map_value_term (items : List Term) (got : List Value) :
    items.map (·.value (got.map p.value)) = (items.map (·.value got)).map p.value := by
  simp only [List.map_map, Function.comp_def, value_term]

theorem within_term (hgot : ∀ u ∈ got, u.Within p.good) (t : Term) : (t.value got).Within p.good := by
  cases t with
  | got i => exact within_getD fun u hu => hgot u (List.mem_of_getElem? hu)
  | literal v => exact Value.within_immediate (by cases v <;> simp [Term.value, Value.bare])

theorem within_terms (hgot : ∀ u ∈ got, u.Within p.good) (items : List Term) :
    ∀ u ∈ items.map (·.value got), u.Within p.good := by
  intro u hu
  obtain ⟨t, -, rfl⟩ := List.mem_map.1 hu
  exact within_term hgot t

theorem idxOf_value (got : List Value) (v : Value) : (got.map p.value).idxOf (p.value v) = got.idxOf v := by
  induction got with
  | nil => rfl
  | cons w got ih => simp only [List.map_cons, List.idxOf_cons, value_beq, ih]

/-- A function can tell the same of counterparts. -/
theorem view_value (h : p.Paired s s') (got : List Value) (hv : v.Within p.good) :
    Memory.view s' (got.map p.value) (p.value v) = Memory.view s got v := by
  simp only [Memory.view, bare_value, idxOf_value, h.typeName_value hv, h.isCallable_value hv]

variable (p) in
/-- What a function has got and learnt, and the same with counterparts. -/
def memory (m : Memory) : Memory := ⟨m.got.map p.value, m.caught.map p.raised, m.seen⟩

variable (p) in
abbrev Memories : Memory → Memory → Prop :=
  Of p.memory fun m => (∀ u ∈ m.got, u.Within p.good) ∧ ∀ e ∈ m.caught, p.Errors e (p.raised e)

theorem mirrors_add {m m' : Memory} (hm : p.Memories m m') (hargs : ∀ u ∈ args, u.Within p.good) :
    p.Mirrors p.Memories (m.add args) (m'.add (args.map p.value)) := by
  obtain ⟨rfl, hgot, hcaught⟩ := hm
  refine mirrors_store.bind fun s s' h => mirrors_pure ⟨?_, List.forall_mem_append.2 ⟨hgot, hargs⟩, hcaught⟩
  have hviews : (args.map p.value).map (Memory.view s' (m.got.map p.value ++ args.map p.value)) =
      args.map (Memory.view s (m.got ++ args)) := by
    rw [← List.map_append, List.map_map]
    exact List.map_congr_left fun v hv => view_value h _ (hargs v hv)
  simp only [memory, hviews, List.map_append]

theorem memories_addError {m m' : Memory} (hm : p.Memories m m') {e e' : Raised} (he : p.Errors e e') :
    p.Memories (m.addError e) (m'.addError e') := by
  obtain ⟨rfl, hgot, hcaught⟩ := hm
  obtain ⟨rfl, hframes⟩ := he
  refine ⟨?_, hgot, List.forall_mem_append.2 ⟨hcaught, by simpa using ⟨rfl, hframes⟩⟩⟩
  simp only [memory, Memory.addError, List.map_append, List.map_cons, List.map_nil]
  rfl

theorem mirrors_ofCall {own : List Value} (hown : ∀ u ∈ own, u.Within p.good) (hargs : ∀ u ∈ args, u.Within p.good)
    (hthis : ∀ v ∈ this, v.Within p.good) :
    p.Mirrors p.Memories (Memory.ofCall own args this)
      (Memory.ofCall (own.map p.value) (args.map p.value) (this.map p.value)) := by
  have hempty : p.Memories ⟨[], [], []⟩ ⟨[], [], []⟩ := ⟨rfl, by simp⟩
  have hreceiver : (this.map p.value).toList = this.toList.map p.value := by cases this <;> rfl
  refine (mirrors_add hempty hown).bind fun m m' hm => ?_
  rw [hreceiver]
  exact (mirrors_add hm fun v hv => hthis v (Option.mem_toList.1 hv)).bind fun m m' hm => mirrors_add hm hargs

theorem mirrors_rethrow {m m' : Memory} (hm : p.Memories m m') (i : Nat) :
    p.Mirrors p.Val (m.rethrow i) (m'.rethrow i) := by
  obtain ⟨rfl, -, hcaught⟩ := hm
  simp only [Memory.rethrow, memory, List.getElem?_map]
  cases he : m.caught[i]? with
  | none => exact mirrors_fault _ _
  | some e => exact mirrors_raise (hcaught e (List.mem_of_getElem? he))

theorem mirrors_readAt (path : Path) (hctx : ContextWithin p ctx) :
    p.Mirrors p.Val (readAt path ctx) (readAt path (p.context ctx)) :=
  mirrors_askGrowing fun _ _ h => h.both_read hctx path

theorem mirrors_writeAt (path : Path) (hv : v.Within p.good) (hctx : ContextWithin p ctx) :
    p.Mirrors p.Val (writeAt path v ctx) (writeAt path (p.value v) (p.context ctx)) := by
  intro st st' hst
  obtain ⟨hstore, hfault⟩ := hst.store.assigned_assign path hv hctx
  unfold writeAt
  rcases hx : st.store.assign path v ctx with ⟨t, fault⟩
  rcases hx' : st'.store.assign path (p.value v) (p.context ctx) with ⟨t', fault'⟩
  simp only [hx, hx'] at hstore hfault ⊢
  rcases hfault with ⟨rfl, rfl⟩ | ⟨e, e', rfl, rfl, he⟩
  · exact .value ⟨rfl, hv⟩ (hst.with_store hstore)
  · exact .raised he (hst.with_store hstore)

theorem mirrors_ownContext (hv : v.Within p.good) :
    p.Mirrors (Contexts p) (ownContext v) (ownContext (p.value v)) := by
  have hscope : p.Mirrors p.Val (Effect.extend (·.allocEmptyScope .null)) (Effect.extend (·.allocEmptyScope .null)) :=
    mirrors_extend fun _ _ h => h.allocEmptyScope within_null
  exact hscope.val fun scope hscope => mirrors_pure ⟨rfl, hv, hscope, within_null⟩

theorem mirrors_tried {act : Effect α} {act' : Effect α'} (caught : Bool) (h : p.Mirrors R act act') :
    p.Mirrors (p.Both R) (tried caught act) (tried caught act') :=
  mirrors_ite Iff.rfl (fun _ => h.attempt) fun _ => h.bind fun _ _ ha => mirrors_pure (.ok ha)

theorem mirrors_newCell {c : Cell} (hc : c.contents = []) (hattrs : c.attributesOf p.hidden = [])
    (hcell : ∀ r, c = p.cell r c) : p.Mirrors p.Val (newCell c) (newCell c) := by
  refine mirrors_extend fun s s' h => ?_
  have halloc := @Paired.alloc p s s' c c h (by simp [hc]) hattrs (hcell _)
  exact ⟨⟨congrArg Value.ref h.next, Value.within_ref.2 h.good_next⟩, halloc⟩

variable {call call' : Callback}

/-- One value, as a list. -/
theorem mirrors_one {act act' : Effect Value} (h : p.Mirrors p.Val act act') :
    p.Mirrors p.Vals (do return [← act]) (do return [← act']) :=
  h.val fun _ hv => mirrors_pure ⟨rfl, by simpa using hv⟩

theorem mirrors_act (hcall : p.Calls call call') (hgot : ∀ u ∈ got, u.Within p.good) (a : Act Code) :
    p.Mirrors p.Vals (a.perform call got) (a.perform call' (got.map p.value)) := by
  have hterm := within_term hgot
  have hterms := within_terms hgot
  unfold Act.perform
  cases a with
  | makeList items =>
    dsimp only
    rw [map_value_term]
    exact mirrors_one (mirrors_newList (hterms items))
  | makeDict items =>
    dsimp only
    rw [map_value_term, alternating_map]
    refine (mirrors_ask fun s s' h => @Paired.both_entriesOf p s s' h _ (within_alternating (hterms items)) []
      (by simp [Entries.parts])).bind ?_
    rintro es _ ⟨rfl, hes⟩
    exact mirrors_one (mirrors_extend fun _ _ h => h.allocDict hes)
  | makeFunction code => exact mirrors_one (mirrors_newCell rfl rfl fun _ => rfl)
  | makeObject label code methods => exact mirrors_one (mirrors_newCell rfl rfl fun _ => rfl)
  | iterate v =>
    dsimp only
    rw [value_term]
    exact mirrors_ask fun s s' h => h.both_elements (hterm v)
  | entries v =>
    dsimp only
    rw [value_term]
    refine (mirrors_ask fun s s' h => h.both_copiedEntries (hterm v)).bind ?_
    rintro es _ ⟨rfl, hes⟩
    exact mirrors_pure ⟨parts_entries es, hes⟩
  | print v =>
    dsimp only
    rw [value_term]
    exact (mirrors_ask fun s s' h => h.both_print (hterm v)).same fun t => mirrors_one (mirrors_text t)
  | read v segments =>
    dsimp only
    rw [value_term]
    refine (mirrors_ownContext (hterm v)).bind ?_
    rintro ctx _ ⟨rfl, hctx⟩
    exact mirrors_one (mirrors_readAt _ hctx)
  | write v segments w =>
    dsimp only
    rw [value_term, value_term]
    refine (mirrors_ownContext (hterm v)).bind ?_
    rintro ctx _ ⟨rfl, hctx⟩
    exact mirrors_one (mirrors_writeAt _ (hterm w) hctx)
  | call f args =>
    dsimp only
    rw [value_term, map_value_term]
    exact mirrors_one (hcall _ _ (hterm f) (hterms args))

theorem mirrors_playFrom (hcall : p.Calls call call') (code : Code) (n : Nat) : ∀ {m m' : Memory}, p.Memories m m' →
    p.Mirrors p.Val (code.playFrom call n m) (code.playFrom call' n m') := by
  induction n with
  | zero => intro m m' _; exact mirrors_exhaust
  | succ n ih =>
    intro m m' hm
    have hseen : m'.seen = m.seen := by rw [hm.1]; rfl
    have hvalues : m'.got = m.got.map p.value := by rw [hm.1]; rfl
    have hgot := hm.2.1
    unfold Code.playFrom
    rw [hseen]
    cases code.next m.seen with
    | finish v =>
      dsimp only
      rw [hvalues, value_term]
      exact mirrors_value (within_term hgot v)
    | fail kind text => exact mirrors_failAs kind text
    | rethrow i => exact mirrors_rethrow hm i
    | act a caught =>
      dsimp only
      rw [hvalues]
      refine (mirrors_tried caught (mirrors_act hcall hgot a)).bind fun outcome outcome' houtcome => ?_
      cases houtcome with
      | ok h =>
        obtain ⟨rfl, hvalues⟩ := h
        exact (mirrors_add hm hvalues).bind fun _ _ hm => ih hm
      | error he => exact ih (memories_addError hm he)

/-- A function that is given by its code does the same with counterparts. -/
theorem mirrors_play (hcall : p.Calls call call') (fuel : Nat) (code : Code) {own : List Value}
    (hown : ∀ u ∈ own, u.Within p.good) (hargs : ∀ u ∈ args, u.Within p.good) (hthis : ∀ v ∈ this, v.Within p.good) :
    p.Mirrors p.Val (code.play call fuel own args this)
      (code.play call' fuel (own.map p.value) (args.map p.value) (this.map p.value)) :=
  (mirrors_ofCall hown hargs hthis).bind fun _ _ hm => mirrors_playFrom hcall code fuel hm

end Codes

/-- The functions of the host do the same with counterparts. -/
theorem mirrors_function {call call' : Callback} (hcall : p.Calls call call') (fuel : Nat) (f : Function)
    (hargs : ∀ u ∈ args, u.Within p.good) (hthis : ∀ v ∈ this, v.Within p.good) :
    p.Mirrors p.Val (f.perform call fuel args this) (f.perform call' fuel (args.map p.value) (this.map p.value)) := by
  have hfirst := within_arg hargs 0
  have hsecond := within_arg hargs 1
  have hthird := within_arg hargs 2
  unfold Function.perform
  simp only [arg_map, ← List.map_drop]
  cases f with
  | identity | firstParameter => exact mirrors_value hfirst
  | makeList => exact mirrors_newList hargs
  | count =>
    rw [List.length_map]
    exact mirrors_int _
  | add => exact (mirrors_sum "add" args).same fun n => mirrors_int n
  | subtract | multiply =>
    exact (mirrors_integerArg _ _).same fun n => (mirrors_integerArg _ _).same fun m => mirrors_int _
  | lessThan => exact (mirrors_integerArg _ _).same fun n => (mirrors_integerArg _ _).same fun m => mirrors_bool _
  | equals =>
    refine mirrors_store.bind fun s s' h => ?_
    rw [h.equal_value hfirst hsecond]
    exact mirrors_bool _
  | same =>
    refine mirrors_store.bind fun s s' h => ?_
    rw [identical_value h hfirst hsecond]
    exact mirrors_bool _
  | concat => exact (mirrors_joined args).same fun t => mirrors_text t
  | makeDict =>
    have hentries : p.Mirrors p.Table (Effect.ask (·.entriesOf [] (alternating args)))
        (Effect.ask (·.entriesOf [] (alternating (args.map p.value)))) := by
      rw [alternating_map]
      exact mirrors_ask fun s s' h => @Paired.both_entriesOf p s s' h _ (within_alternating hargs) [] (by simp [Entries.parts])
    refine hentries.bind ?_
    rintro es _ ⟨rfl, hes⟩
    exact mirrors_extend fun _ _ h => h.allocDict hes
  | choose =>
    have hpick : (if p.value (arg args 0) = .bool true then p.value (arg args 1) else p.value (arg args 2)) =
        p.value (if arg args 0 = .bool true then arg args 1 else arg args 2) := by
      have hbool : p.value (arg args 0) = .bool true ↔ arg args 0 = .bool true := value_eq_iff_of_immediate (by simp) (by simp)
      rw [apply_ite p.value]
      exact if_congr hbool rfl rfl
    have hwithin : (if arg args 0 = .bool true then arg args 1 else arg args 2).Within p.good := by
      split
      · exact hsecond
      · exact hthird
    simp only [hpick]
    refine mirrors_store.bind fun s s' h => ?_
    exact mirrors_ite (by rw [h.isCallable_value hwithin]) (fun _ => hcall _ [] hwithin (by simp)) fun _ => mirrors_value hwithin
  | apply => exact mirrors_callChecked hcall _ hfirst (within_drop hargs 1)
  | mapList =>
    refine (mirrors_needCallable _ hfirst).same fun _ => (mirrors_needList _ hsecond).same fun _ => ?_
    refine (mirrors_mapFrom hcall hfirst hsecond fuel 0 [] (by simp)).bind ?_
    rintro vs _ ⟨rfl, hvs⟩
    exact mirrors_newList hvs
  | fold =>
    refine (mirrors_needCallable _ hfirst).same fun _ => (mirrors_needList _ hthird).same fun _ => ?_
    exact mirrors_foldFrom hcall hfirst hthird fuel 0 _ hsecond
  | times =>
    refine (mirrors_integerArg _ _).same fun n => (mirrors_needCallable _ hsecond).same fun _ => ?_
    refine (mirrors_timesFrom hcall hsecond n.toNat 0 [] (by simp)).bind ?_
    rintro vs _ ⟨rfl, hvs⟩
    exact mirrors_newList hvs
  | push => exact (mirrors_pushAll _ hfirst (within_drop hargs 1)).same fun _ => mirrors_value hfirst
  | pushThenFail => exact (mirrors_pushAll _ hfirst (within_drop hargs 1)).same fun _ => mirrors_fault _ _
  | fail => exact mirrors_failWith hfirst hsecond
  | guarded =>
    refine (mirrors_callChecked hcall _ hfirst (within_drop hargs 1)).attempt.bind fun x x' hx => ?_
    cases hx with
    | ok h => exact mirrors_pure h
    | error h => exact mirrors_report h
  | wrap =>
    refine (mirrors_callChecked hcall _ hfirst (within_drop hargs 1)).attempt.bind fun x x' hx => ?_
    cases hx with
    | ok h => exact mirrors_pure h
    | error h =>
      obtain ⟨rfl, -⟩ := h
      exact mirrors_fault _ _
  | display => exact (mirrors_ask fun s s' h => h.both_print hfirst).same fun t => mirrors_text t
  | receiver => exact mirrors_needReceiver _ hthis
  | receiverAndArgs =>
    refine (mirrors_needReceiver _ hthis).val fun owner howner => (mirrors_newList hargs).val fun list hlist => ?_
    exact @mirrors_newList p [owner, list] (by simp [howner, hlist])
  | optionalReceiver =>
    cases this with
    | none => exact mirrors_text "default"
    | some v => exact mirrors_value (hthis v rfl)
  | anyKeyword => exact @mirrors_newList p [] (by simp)
  | receiverGet =>
    refine (mirrors_needReceiver _ hthis).val fun owner howner => mirrors_store.bind fun s s' h => ?_
    refine mirrors_ite (by rw [h.dict?_value howner, Option.isSome_map]) (fun _ => ?_) fun _ => mirrors_null
    exact (mirrors_ask fun s s' h => h.both_valueAt? howner hfirst).bind fun found found' hfound => mirrors_pure hfound.getD
  | receiverSet =>
    refine (mirrors_needReceiver _ hthis).val fun owner howner => mirrors_store.bind fun s s' h => ?_
    refine mirrors_ite (by rw [h.dict?_value howner, Option.isSome_map]) (fun _ => ?_) fun _ => mirrors_fault _ _
    exact (mirrors_change fun s s' h => h.both_setEntry howner hfirst hsecond).same fun _ => mirrors_value howner
  | increment => exact (mirrors_integerArg _ _).same fun n => mirrors_int _
  | unmarked => exact mirrors_text "fake"
  | other code => exact mirrors_play hcall fuel code (by simp) hargs hthis

end Functions

/-! ## Methods -/

section Methods

open Host

variable {args : List Value} {this : Option Value} {self : Value}

theorem mirrors_needCount (wording : Nat → String) (args : List Value) (n : Nat) :
    p.Mirrors Eq (needCount wording args n) (needCount wording (args.map p.value) n) := by
  unfold needCount
  rw [List.length_map]
  exact mirrors_ite Iff.rfl (fun _ => mirrors_pure rfl) fun _ => mirrors_fault _ _

theorem mirrors_positionArg (hv : v.Within p.good) : p.Mirrors Eq (positionArg v) (positionArg (p.value v)) := by
  have hrefuse : ∀ wording : String → String, p.Mirrors (@Eq Int)
      (Effect.store >>= fun s => fault .badType (wording (s.typeName v)))
      (Effect.store >>= fun s => fault .badType (wording (s.typeName (p.value v)))) := by
    refine fun wording => mirrors_store.bind fun s s' h => ?_
    rw [h.typeName_value hv]
    exact mirrors_fault _ _
  cases v with
  | int n => exact mirrors_ite Iff.rfl (fun _ => mirrors_pure rfl) fun _ => mirrors_raise (errors_of _)
  | bool b => exact mirrors_pure rfl
  | _ => exact hrefuse fun type => "'" ++ type ++ "' object cannot be interpreted as an integer"

theorem mirrors_setItems (hv : v.Within p.good) {items : List Value} (hitems : ∀ u ∈ items, u.Within p.good) :
    p.Mirrors Eq (setItems v items) (setItems (p.value v) (items.map p.value)) := by
  refine mirrors_change fun s s' h => ?_
  rcases h.cell?_cases hv with ⟨hc, hc'⟩ | ⟨r, c, rfl, hr, hc, hc', -⟩
  · rw [hc, hc']
    cases v <;> exact .ok h
  · rw [value_ref] at hc' ⊢
    rw [hc, hc']
    cases c with
    | list old flavor =>
      refine .ok (h.set hr hitems (fun d hd => ?_) rfl)
      cases hc.symm.trans hd
      rfl
    | _ => exact .ok h

theorem mirrors_popPosition (hargs : ∀ u ∈ args, u.Within p.good) :
    p.Mirrors Eq (popPosition args) (popPosition (args.map p.value)) := by
  unfold popPosition
  rw [arg_map]
  exact mirrors_ite (by simp) (fun _ => mirrors_pure rfl) fun _ => mirrors_positionArg (within_arg hargs 0)

theorem mirrors_performOnList (hself : self.Within p.good) (m : Method) (hargs : ∀ u ∈ args, u.Within p.good) :
    p.Mirrors p.Val (performOnList self m args) (performOnList (p.value self) m (args.map p.value)) := by
  have hfirst := within_arg hargs 0
  unfold performOnList
  refine mirrors_store.bind fun s s' h => ?_
  have hlist : (s'.list? (p.value self)).getD [] = ((s.list? self).getD []).map p.value := by
    rw [h.list?_value hself]
    cases s.list? self <;> rfl
  have hitems : ∀ u ∈ (s.list? self).getD [], u.Within p.good := by
    cases hfound : s.list? self with
    | none => simp
    | some items => exact h.within_list? hself hfound
  refine mirrors_store.bind fun t t' ht => ?_
  simp only [hlist, ht.methodName_value hself, arg_map]
  generalize (s.list? self).getD [] = items at hitems
  have hset : ∀ {items : List Value}, (∀ u ∈ items, u.Within p.good) → ∀ {w : Value}, w.Within p.good → p.Mirrors p.Val
      (setItems self items >>= fun _ => pure w) (setItems (p.value self) (items.map p.value) >>= fun _ => pure (p.value w)) :=
    fun hitems _ hw => (mirrors_setItems hself hitems).same fun _ => mirrors_value hw
  cases m with
  | append =>
    refine (mirrors_needCount _ args 1).same fun _ => ?_
    have happend := @hset (items ++ [arg args 0]) (List.forall_mem_append.2 ⟨hitems, by simpa using hfirst⟩) _ within_null
    rwa [List.map_append] at happend
  | pop =>
    refine mirrors_ite (by simp) (fun _ => by rw [List.length_map]; exact mirrors_fault _ _) fun _ => ?_
    refine (mirrors_popPosition hargs).same fun i => ?_
    simp only [List.length_map, List.isEmpty_map]
    refine mirrors_ite Iff.rfl (fun _ => mirrors_raise (errors_of _)) fun _ => ?_
    refine mirrors_ite Iff.rfl (fun _ => mirrors_fault _ _) fun _ => ?_
    rw [List.eraseIdx_map]
    exact hset (fun u hu => hitems u (List.mem_of_mem_eraseIdx hu)) (within_arg hitems _)
  | insert =>
    refine (mirrors_needCount _ args 2).same fun _ => (mirrors_positionArg hfirst).same fun i => ?_
    simp only [List.length_map, ← List.map_take, ← List.map_drop, ← List.map_cons, ← List.map_append]
    refine hset (List.forall_mem_append.2 ⟨fun u hu => hitems u (List.mem_of_mem_take hu), ?_⟩) within_null
    exact List.forall_mem_cons.2 ⟨within_arg hargs 1, fun u hu => hitems u (List.mem_of_mem_drop hu)⟩
  | extend =>
    refine (mirrors_needCount _ args 1).same fun _ => ?_
    refine (mirrors_ask fun s s' h => h.both_traverse hfirst).bind fun more more' hmore => ?_
    rw [hmore.items.1, ← List.map_append]
    refine (mirrors_setItems hself (List.forall_mem_append.2 ⟨hitems, hmore.items.2⟩)).same fun _ => ?_
    exact (mirrors_ofExcept hmore.result).bind fun _ _ _ => mirrors_null
  | reverse =>
    refine (mirrors_needCount _ args 0).same fun _ => ?_
    rw [← List.map_reverse]
    exact hset (fun u hu => hitems u (List.mem_reverse.1 hu)) within_null
  | clear => exact (mirrors_needCount _ args 0).same fun _ => @hset [] (by simp) _ within_null
  | copy => exact (mirrors_needCount _ args 0).same fun _ => mirrors_newList hitems
  | _ => exact mirrors_null

theorem mirrors_boundArg (v : Value) : p.Mirrors Eq (boundArg v) (boundArg (p.value v)) := by
  cases v with
  | null | int | bool => exact mirrors_pure rfl
  | _ => exact mirrors_fault _ _

theorem mirrors_startsWithOne (piece : Option String) {items : List Value} (hitems : ∀ u ∈ items, u.Within p.good) :
    p.Mirrors Eq (startsWithOne piece items) (startsWithOne piece (items.map p.value)) := by
  induction items with
  | nil => exact mirrors_pure rfl
  | cons v rest ih =>
    rw [List.forall_mem_cons] at hitems
    have hrefuse : p.Mirrors (@Eq Bool)
        (Effect.store >>= fun s => fault .badType ("tuple for startswith must only contain str, not " ++ s.typeName v))
        (Effect.store >>= fun s => fault .badType ("tuple for startswith must only contain str, not " ++ s.typeName (p.value v))) := by
      refine mirrors_store.bind fun s s' h => ?_
      rw [h.typeName_value hitems.1]
      exact mirrors_fault _ _
    cases v with
    | str t flavor => exact mirrors_ite Iff.rfl (fun _ => mirrors_pure rfl) fun _ => ih hitems.2
    | _ => exact hrefuse

theorem mirrors_performOnText (hself : self.Within p.good) (text : String) (m : Method) (hargs : ∀ u ∈ args, u.Within p.good) :
    p.Mirrors p.Val (performOnText self text m args) (performOnText (p.value self) text m (args.map p.value)) := by
  unfold performOnText
  refine mirrors_store.bind fun s s' h => ?_
  simp only [h.methodName_value hself, arg_map]
  cases m with
  | upper | lower => exact (mirrors_needCount _ args 0).same fun _ => mirrors_text _
  | startsWith =>
    have hfirst := within_arg hargs 0
    refine mirrors_ite (by simp) (fun _ => mirrors_fault _ _) fun _ => ?_
    rw [List.length_map]
    refine mirrors_ite Iff.rfl (fun _ => mirrors_fault _ _) fun _ => ?_
    refine (mirrors_boundArg _).same fun start => (mirrors_boundArg _).same fun stop => mirrors_store.bind fun t t' ht => ?_
    generalize arg args 0 = v at hfirst
    have hrefuse : p.Mirrors p.Val
        (Effect.store >>= fun s => fault .badType ("startswith first arg must be str or a tuple of str, not " ++ s.typeName v))
        (Effect.store >>= fun s =>
          fault .badType ("startswith first arg must be str or a tuple of str, not " ++ s.typeName (p.value v))) := by
      refine mirrors_store.bind fun s s' h => ?_
      rw [h.typeName_value hfirst]
      exact mirrors_fault _ _
    rcases ht.cell?_cases hfirst with ⟨hc, hc'⟩ | ⟨r, c, rfl, -, hc, hc', hwithin⟩ <;> rw [hc, hc']
    · cases v with
      | str t flavor => exact mirrors_bool _
      | _ => exact hrefuse
    · cases c with
      | tuple items => exact (mirrors_startsWithOne _ hwithin).same fun b => mirrors_bool b
      | _ => exact hrefuse
  | _ => exact mirrors_null

variable (p) in
/-- The state of a future and its counterpart. -/
abbrev Futures : Option Value × List Value → Option Value × List Value → Prop :=
  Of (fun x => (x.1.map p.value, x.2.map p.value)) fun x => (∀ v ∈ x.1, v.Within p.good) ∧ ∀ v ∈ x.2, v.Within p.good

theorem mirrors_futureState (hself : self.Within p.good) : p.Mirrors p.Futures (futureState self) (futureState (p.value self)) := by
  refine mirrors_store.bind fun s s' h => ?_
  have hnone : p.Mirrors p.Futures (pure (none, [])) (pure (none, [])) := mirrors_pure ⟨rfl, by simp, by simp⟩
  rcases h.cell?_cases hself with ⟨hc, hc'⟩ | ⟨r, c, -, -, hc, hc', hwithin⟩ <;> rw [hc, hc']
  · exact hnone
  · cases c with
    | object cls attrs =>
      cases cls with
      | future result waiting =>
        simp only [Cell.contents, Cell.parts, Class.parts, List.forall_mem_append] at hwithin
        exact mirrors_pure ⟨rfl, fun v hv => hwithin.1.1 v (by simpa using hv), hwithin.1.2⟩
      | _ => exact hnone
    | _ => exact hnone

theorem mirrors_setFuture (hself : self.Within p.good) {result : Option Value} {waiting : List Value}
    (hresult : ∀ v ∈ result, v.Within p.good) (hwaiting : ∀ v ∈ waiting, v.Within p.good) :
    p.Mirrors Eq (setFuture self result waiting)
      (setFuture (p.value self) (result.map p.value) (waiting.map p.value)) := by
  refine mirrors_change fun s s' h => ?_
  rcases h.cell?_cases hself with ⟨hc, hc'⟩ | ⟨r, c, rfl, hr, hc, hc', hwithin⟩
  · rw [hc, hc']
    cases self <;> exact .ok h
  · rw [value_ref] at hc' ⊢
    rw [hc, hc']
    cases c with
    | object cls attrs =>
      cases cls with
      | future result₀ waiting₀ =>
        simp only [Cell.contents, Cell.parts, Class.parts, List.forall_mem_append] at hwithin
        refine .ok (h.set hr ?_ (fun d hd => ?_) rfl)
        · simp only [Cell.contents, Cell.parts, Class.parts, List.forall_mem_append]
          exact ⟨⟨fun v hv => hresult v (by simpa using hv), hwaiting⟩, hwithin.2⟩
        · cases hc.symm.trans hd
          rfl
      | _ => exact .ok h
    | _ => exact .ok h

section Callbacks

variable {call call' : Callback}

theorem mirrors_notifyAll (hcall : p.Calls call call') (hself : self.Within p.good) {waiting : List Value}
    (hwaiting : ∀ v ∈ waiting, v.Within p.good) :
    p.Mirrors Eq (notifyAll call self waiting) (notifyAll call' (p.value self) (waiting.map p.value)) := by
  induction waiting with
  | nil => exact mirrors_pure rfl
  | cons f rest ih =>
    rw [List.forall_mem_cons] at hwaiting
    exact (hcall f [self] hwaiting.1 (by simpa using hself)).val fun _ _ => ih hwaiting.2

theorem mirrors_performOnFuture (hcall : p.Calls call call') (hself : self.Within p.good) (m : Method)
    (hargs : ∀ u ∈ args, u.Within p.good) :
    p.Mirrors p.Val (performOnFuture call self m args) (performOnFuture call' (p.value self) m (args.map p.value)) := by
  have hfirst := within_arg hargs 0
  unfold performOnFuture
  simp only [arg_map]
  refine (mirrors_futureState hself).bind ?_
  rintro ⟨result, waiting⟩ _ ⟨rfl, hresult, hwaiting⟩
  cases m with
  | addDoneCallback =>
    cases result with
    | none =>
      have hset := @mirrors_setFuture p self hself none (waiting ++ [arg args 0]) hresult
        (List.forall_mem_append.2 ⟨hwaiting, by simpa using hfirst⟩)
      rw [List.map_append] at hset
      exact hset.same fun _ => mirrors_null
    | some v => exact (hcall (arg args 0) [self] hfirst (by simpa using hself)).val fun _ _ => mirrors_null
  | setResult =>
    cases result with
    | none =>
      have hset := @mirrors_setFuture p self hself (some (arg args 0)) waiting (by simpa using hfirst) hwaiting
      exact hset.same fun _ => (mirrors_notifyAll hcall hself hwaiting).same fun _ => mirrors_null
    | some v => exact mirrors_fault _ _
  | result =>
    cases result with
    | none => exact mirrors_fault _ _
    | some v => exact mirrors_value (hresult v rfl)
  | _ => cases result <;> exact mirrors_null

end Callbacks

theorem double_ofRatio (negative : Bool) (num den : Nat) :
    p.double (Double.ofRatio negative num den) = Double.ofRatio negative num den := by
  refine double_of_tag ?_
  unfold Double.ofRatio Double.assemble
  dsimp only
  split
  · rfl
  · split <;> split <;> first | rfl | (split <;> rfl)

theorem double_ofInt? {n : Int} {d : Double} (h : Double.ofInt? n = some d) : p.double d = d := by
  unfold Double.ofInt? at h
  dsimp only at h
  split at h
  · cases h
  · cases h
    exact double_ofRatio _ _ _

theorem add?_double (d : Double) {a : Double} (ha : p.double a = a) : (p.double d).add? a = (d.add? a).map p.double := by
  unfold Double.add?
  rw [decode_double]
  split
  · rfl
  · rfl
  · split <;> rfl
  · rfl
  · rw [Option.map_some, ha]
  · simp only [Option.map_some, double_ofRatio]

theorem onFloat?_double (c : Change) (d : Double) {a : Double} (ha : p.double a = a) :
    c.onFloat? (p.double d) a = (c.onFloat? d a).map p.double := by
  cases c with
  | gain => exact add?_double d ha
  | loss => exact add?_double d (congrArg Double.neg ha)

theorem mirrors_allocNan : p.Mirrors p.Val (Effect.extend (·.allocNan) >>= fun d => pure (.float d))
    (Effect.extend (·.allocNan) >>= fun d => pure (.float d)) := by
  have hnan : p.Mirrors (fun d d' => d' = p.double d) (Effect.extend (·.allocNan)) (Effect.extend (·.allocNan)) := by
    refine mirrors_extend fun s s' h => ⟨?_, h.alloc (by simp [Cell.contents, Cell.parts]) rfl rfl⟩
    exact congrArg (fun r : Ref => Double.nan r.index) h.next
  refine hnan.bind ?_
  rintro d _ rfl
  exact mirrors_value (Value.within_immediate (by simp))

theorem mirrors_change_apply (c : Change) (hv : v.Within p.good) (amount : Int) :
    p.Mirrors p.Val (c.apply v amount) (c.apply (p.value v) amount) := by
  have hrefuse : p.Mirrors p.Val (Effect.store >>= fun s => fault .badType (c.refusal s v))
      (Effect.store >>= fun s => fault .badType (c.refusal s (p.value v))) := by
    refine mirrors_store.bind fun s s' h => ?_
    have hrefusal : c.refusal s' (p.value v) = c.refusal s v := by
      unfold Change.refusal
      rw [h.typeName_value hv]
      rcases h.cell?_cases hv with ⟨hc, hc'⟩ | ⟨r, d, heq, -, hc, hc', -⟩ <;> rw [hc, hc']
      · cases c <;> cases v <;> rfl
      · subst heq
        cases c <;> cases d <;> rfl
    rw [hrefusal]
    exact mirrors_fault _ _
  cases v with
  | int n => exact mirrors_int _
  | bool b => exact mirrors_int _
  | float d =>
    unfold Change.apply
    simp only [value]
    cases ha : Double.ofInt? amount with
    | none => exact mirrors_raise (errors_of _)
    | some a =>
      dsimp only
      rw [onFloat?_double c d (double_ofInt? ha)]
      cases c.onFloat? d a with
      | some result => exact mirrors_value (Value.within_immediate (by simp))
      | none => exact mirrors_allocNan
  | _ => exact hrefuse

theorem mirrors_changeHitPoints (hself : self.Within p.good) (c : Change) (amount : Int) :
    p.Mirrors p.Val (changeHitPoints self c amount) (changeHitPoints (p.value self) c amount) := by
  have hhp : p.hidden "hp" = false := hidden_eq_false (by decide)
  refine mirrors_store.bind fun s s' h => ?_
  have hpoints : ((s'.hiddenAttribute? (p.value self) "hp").getD .null) =
      p.value ((s.hiddenAttribute? self "hp").getD .null) := by
    rw [← getD_null, h.hiddenAttribute?_value hhp hself]
  have hwithin : ((s.hiddenAttribute? self "hp").getD .null).Within p.good :=
    within_getD fun u hu => h.within_hiddenAttribute? hself hu
  simp only [hpoints]
  refine (mirrors_change_apply c hwithin amount).val fun result hresult => ?_
  refine (mirrors_change fun s s' h => ?_).same fun _ => mirrors_value hresult
  refine both_ite (by rw [h.isObject_value hself]) (fun _ => Paired.both_setAttribute hhp h hself hresult) fun _ => ?_
  rw [h.typeName_value hself]
  exact both_fail _

theorem mirrors_performOnHero (hself : self.Within p.good) (m : Method) (hargs : ∀ u ∈ args, u.Within p.good)
    (hthis : ∀ v ∈ this, v.Within p.good) :
    p.Mirrors p.Val (performOnHero self m args this) (performOnHero (p.value self) m (args.map p.value) (this.map p.value)) := by
  have hfirst := within_arg hargs 0
  unfold performOnHero
  refine mirrors_store.bind fun s s' h => ?_
  simp only [h.methodName_value hself, arg_map]
  cases m with
  | takeDamage | heal => exact (mirrors_integerArg _ _).same fun n => mirrors_changeHitPoints hself _ n
  | whoami => exact mirrors_needReceiver _ hthis
  | me => exact mirrors_value hself
  | boom => exact (mirrors_ask fun s s' h => h.both_print hfirst).same fun shown => mirrors_fault _ _
  | secret | notExposed => exact mirrors_text _
  | whisper =>
    refine (mirrors_needReceiver _ hthis).val fun owner howner => (mirrors_newList hargs).val fun list hlist => ?_
    rw [value_beq]
    exact @mirrors_newList p [.bool (self == owner), list] (by simpa using ⟨Value.within_immediate (by simp), hlist⟩)
  | _ => exact mirrors_null

/-- The methods of objects do the same with counterparts. -/
theorem mirrors_performOnObject {call call' : Callback} (hcall : p.Calls call call') (fuel : Nat)
    (hself : self.Within p.good) (cls : Host.Class) (m : Method) (hargs : ∀ u ∈ args, u.Within p.good)
    (hthis : ∀ v ∈ this, v.Within p.good) :
    p.Mirrors p.Val (performOnObject call fuel self cls m args this)
      (performOnObject call' fuel (p.value self) (p.cls cls) m (args.map p.value) (this.map p.value)) := by
  have hnamed : (p.cls cls).methodNamed? m.label = cls.methodNamed? m.label := by cases cls <;> rfl
  unfold performOnObject
  rw [hnamed]
  cases cls.methodNamed? m.label with
  | none => exact mirrors_performOnHero hself m hargs hthis
  | some code => exact @mirrors_play p args this _ _ hcall fuel code [self] (by simpa using hself) hargs hthis

/-- The methods of values do the same with counterparts. -/
theorem mirrors_method {call call' : Callback} (hcall : p.Calls call call') (fuel : Nat) (hself : self.Within p.good)
    (m : Method) (hargs : ∀ u ∈ args, u.Within p.good) (hthis : ∀ v ∈ this, v.Within p.good) :
    p.Mirrors p.Val (m.perform call fuel self args this)
      (m.perform call' fuel (p.value self) (args.map p.value) (this.map p.value)) := by
  refine mirrors_store.bind fun s s' h => ?_
  have hhero := mirrors_performOnHero hself m hargs hthis
  rcases h.cell?_cases hself with ⟨hc, hc'⟩ | ⟨r, c, heq, -, hc, hc', -⟩
  · rw [hc, hc']
    cases self with
    | str text flavor => exact mirrors_performOnText hself text m hargs
    | _ => exact hhero
  · rw [hc, hc']
    subst heq
    cases c with
    | list => exact mirrors_performOnList hself m hargs
    | object cls attrs =>
      cases cls with
      | future => exact mirrors_performOnFuture hcall hself m hargs
      | _ => exact mirrors_performOnObject hcall fuel hself _ m hargs hthis
    | _ => exact hhero

/-- Callable objects do the same with counterparts. -/
theorem mirrors_class {call call' : Callback} (hcall : p.Calls call call') (fuel : Nat) (hself : self.Within p.good)
    (cls : Host.Class) (hargs : ∀ u ∈ args, u.Within p.good) (hthis : ∀ v ∈ this, v.Within p.good) :
    p.Mirrors p.Val (cls.perform call fuel self args this)
      ((p.cls cls).perform call' fuel (p.value self) (args.map p.value) (this.map p.value)) := by
  cases cls with
  | callable =>
    cases this with
    | none => exact mirrors_newList hargs
    | some owner => exact mirrors_raise (errors_of _)
  | callableThis =>
    cases this with
    | none => exact mirrors_raise (errors_of _)
    | some owner =>
      refine (mirrors_newList hargs).val fun list hlist => ?_
      exact @mirrors_newList p [owner, list] (by simpa using ⟨hthis owner rfl, hlist⟩)
  | other label code methods =>
    cases code with
    | none => exact mirrors_raise (errors_of _)
    | some code => exact @mirrors_play p args this _ _ hcall fuel code [self] (by simpa using hself) hargs hthis
  | _ => exact mirrors_raise (errors_of _)

end Methods

end ListScript.Pairing
