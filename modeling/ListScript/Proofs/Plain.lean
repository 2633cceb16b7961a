import ListScript.Interpreter

/-!
# Plain errors

An error takes a record of the active calls when it leaves a call; before that it has none. The questions that reading
scripts, looking up names and printing put to a store end in errors of the language or in one of a few native errors,
and none of them brings a record along: they are plain. `Ends E x Q` says of a result `x` which errors it can have,
together with what its value satisfies; the rules for it follow the structure of `Except`.

- `plain_print`, `plain_inspect`: printing, which goes through values nested in any way;
- `plain_lookup?`, `plain_pathOf`: the other questions that have no value of interest.
-/

namespace ListScript

/-- The errors that values of the host's language raise by themselves when they are read, written or printed. -/
def Cause.isNative : Cause → Bool
  | path _ (.badDigits _) | path _ (.tooManyDigits _) | integerTooLong | paddingTooLong | noMemory | tooDeep => true
  | noAttribute .. | noSetter .. | noItemAssignment _ | unhashable _ | notIterable _ | notAContainer _ => true
  | notAPart _ | notInBytes _ | textAsIndex .. | joinNeedsText .. | scopeKeyNotText _ | missingBinding _ | missingEntry _ => true
  | host .badValue text => text == "unlucky" || text == "bad attribute"
  | _ => false

/-- An error of the language or a native one, without a record of calls. -/
def Raised.isPlain (e : Raised) : Bool := e.stack.isNone && (e.kind.isScript || e.cause.isNative)

theorem Raised.stack_of_isPlain {e : Raised} (h : e.isPlain = true) : e.stack = none := by
  simp only [isPlain, Bool.and_eq_true, Option.isNone_iff_eq_none] at h
  exact h.1

/-- The value of a result satisfies `Q`, and its error satisfies `E`. -/
structure Ends {α : Type} (E : Raised → Prop) (x : Except Raised α) (Q : α → Prop) : Prop where
  value : ∀ a, x = .ok a → Q a
  error : ∀ e, x = .error e → E e

/-- The value of a result satisfies `Q`, and its error has no record of calls. -/
abbrev Yields {α : Type} (x : Except Raised α) (Q : α → Prop) : Prop := Ends (fun e => e.stack = none) x Q

/-- The value of a result satisfies `Q`, and its error is plain. -/
abbrev Gives {α : Type} (x : Except Raised α) (Q : α → Prop) : Prop := Ends (fun e => e.isPlain = true) x Q

/-- The error of a result is plain. -/
abbrev Plain {α : Type} (x : Except Raised α) : Prop := Gives x fun _ => True

section Rules

variable {α β : Type} {E : Raised → Prop} {x : Except Raised α} {Q : α → Prop} {R : β → Prop}

theorem ends_ok {a : α} (h : Q a) : Ends E (.ok a) Q := by
  constructor
  · rintro b ⟨⟩
    exact h
  · rintro e ⟨⟩

theorem ends_error {e : Raised} (h : E e) : Ends E (.error e) Q := by
  constructor
  · rintro a ⟨⟩
  · rintro e' ⟨⟩
    exact h

theorem plain_ok (a : α) : Plain (.ok a) := ends_ok trivial

theorem Ends.mono {Q' : α → Prop} (h : Ends E x Q) (hq : ∀ a, Q a → Q' a) : Ends E x Q' :=
  ⟨fun a ha => hq a (h.value a ha), h.error⟩

theorem Ends.plain (h : Gives x Q) : Plain x := h.mono fun _ _ => trivial

theorem Ends.yields (h : Gives x Q) : Yields x Q :=
  ⟨h.value, fun e he => Raised.stack_of_isPlain (h.error e he)⟩

/-- What follows a result may depend on how it came about. -/
theorem Ends.andThen {f : α → Except Raised β} (h : Ends E x Q) (hf : ∀ a, x = .ok a → Q a → Ends E (f a) R) :
    Ends E (x >>= f) R := by
  cases x with
  | ok a => exact hf a rfl (h.value a rfl)
  | error e => exact ends_error (h.error e rfl)

theorem Ends.bind {f : α → Except Raised β} (h : Ends E x Q) (hf : ∀ a, Q a → Ends E (f a) R) : Ends E (x >>= f) R :=
  h.andThen fun a _ ha => hf a ha

theorem Ends.map {f : α → β} (h : Ends E x Q) (hf : ∀ a, Q a → R (f a)) : Ends E (x.map f) R := by
  cases x with
  | ok a => exact ends_ok (hf a (h.value a rfl))
  | error e => exact ends_error (h.error e rfl)

theorem Ends.plain_map (h : Gives x Q) (f : α → β) : Plain (x.map f) :=
  h.map fun _ _ => trivial

theorem ends_mapM {f : α → Except Raised β} {xs : List α} (h : ∀ a ∈ xs, Ends E (f a) R) :
    Ends E (xs.mapM f) fun ys => ∀ y ∈ ys, R y := by
  induction xs with
  | nil => exact ends_ok (by simp)
  | cons a xs ih =>
    rw [List.mapM_cons]
    refine (h a List.mem_cons_self).bind fun b hb => ?_
    refine (ih fun a' ha' => h a' (List.mem_cons_of_mem _ ha')).bind fun bs hbs => ends_ok ?_
    intro y hy
    rcases List.mem_cons.1 hy with rfl | hy
    · exact hb
    · exact hbs y hy

theorem plain_mapM {f : α → Except Raised β} (h : ∀ a, Plain (f a)) (xs : List α) : Plain (xs.mapM f) :=
  (ends_mapM fun a _ => h a).plain

theorem bind_eq_ok {f : α → Except Raised β} {b : β} : (x >>= f) = .ok b ↔ ∃ a, x = .ok a ∧ f a = .ok b := by
  cases x with
  | ok a =>
    constructor
    · exact fun h => ⟨a, rfl, h⟩
    · rintro ⟨_, ⟨⟩, h⟩
      exact h
  | error e =>
    constructor
    · rintro ⟨⟩
    · rintro ⟨_, ⟨⟩, _⟩

end Rules

/-- A result is a value. -/
def Succeeds {α : Type} (x : Except Raised α) : Prop := ∃ a, x = .ok a

section Succeeds

variable {α β : Type} {x : Except Raised α}

theorem succeeds_ok (a : α) : Succeeds (.ok a) := ⟨a, rfl⟩

theorem Succeeds.bind {f : α → Except Raised β} (h : Succeeds x) (hf : ∀ a, x = .ok a → Succeeds (f a)) :
    Succeeds (x >>= f) := by
  obtain ⟨a, rfl⟩ := h
  exact hf a rfl

theorem Succeeds.map (h : Succeeds x) (f : α → β) : Succeeds (x.map f) := by
  obtain ⟨a, rfl⟩ := h
  exact ⟨f a, rfl⟩

/-- One of two results goes into what follows. -/
theorem succeeds_ite_bind {c : Prop} [Decidable c] {x y : Except Raised α} {f : α → Except Raised β} {Q : α → Prop}
    (h : c → ∃ a, x = .ok a ∧ Q a) (h' : ¬ c → ∃ a, y = .ok a ∧ Q a) (hf : ∀ a, Q a → Succeeds (f a)) :
    Succeeds (if c then x >>= f else y >>= f) := by
  split
  · obtain ⟨a, rfl, ha⟩ := h ‹_›
    exact hf a ha
  · obtain ⟨a, rfl, ha⟩ := h' ‹_›
    exact hf a ha

theorem succeeds_mapM {f : α → Except Raised β} {items : List α} (h : ∀ a ∈ items, Succeeds (f a)) :
    Succeeds (items.mapM f) := by
  induction items with
  | nil => exact ⟨[], rfl⟩
  | cons a rest ih =>
    rw [List.mapM_cons]
    refine (h a List.mem_cons_self).bind fun b _ => ?_
    refine (ih fun a' ha' => h a' (List.mem_cons_of_mem _ ha')).bind fun bs _ => ?_
    exact succeeds_ok _

end Succeeds

namespace Store

variable (s : Store)

/-! ## Keys and texts -/

theorem plain_checkHashable (v : Value) : Plain (s.checkHashable v) := by
  unfold checkHashable
  split
  · exact ends_error rfl
  · exact plain_ok _

theorem plain_textsFrom (vs : List Value) : ∀ position, Plain (s.textsFrom position vs) := by
  induction vs with
  | nil => intro position; exact plain_ok _
  | cons v vs ih =>
    intro position
    cases v with
    | str t flavor => exact (ih (position + 1)).plain_map _
    | _ => exact ends_error rfl

theorem plain_joinedKeys (bindings : Value) : Plain (s.joinedKeys bindings) :=
  (s.plain_textsFrom _ 0).plain_map _

theorem plain_printInteger (n : Int) : Plain (printInteger n) := by
  unfold printInteger
  generalize hasIntegerText n = short
  cases short with
  | false => exact ends_error rfl
  | true => exact ends_ok trivial

/-! ## Going through values -/

theorem plain_valueElsewhere? (container key : Value) : Plain (s.valueElsewhere? container key) := by
  have hamong : ∀ label items, Plain (valueElsewhere?.among s key label items) := by
    intro label items
    unfold valueElsewhere?.among
    split
    · exact ends_error rfl
    · exact plain_ok _
  unfold valueElsewhere?
  split
  · split
    · exact ends_error rfl
    · exact plain_ok _
  · exact ends_error rfl
  · exact ends_error rfl
  · exact hamong _ _
  · exact hamong _ _
  · exact ends_error rfl

/-- Nothing but a dictionary has a value for a key. -/
theorem valueElsewhere?_ne_some {s : Store} {b key x : Value} : s.valueElsewhere? b key ≠ .ok (some x) := by
  have hamong : ∀ label items, valueElsewhere?.among s key label items ≠ .ok (some x) := by
    intro label items
    unfold valueElsewhere?.among
    split <;> simp
  unfold valueElsewhere?
  split
  · split <;> simp
  · simp
  · simp
  · exact hamong _ _
  · exact hamong _ _
  · simp

theorem plain_valueAt? (dictionary key : Value) : Plain (s.valueAt? dictionary key) := by
  unfold valueAt?
  split
  · exact s.plain_valueElsewhere? dictionary key
  · exact (s.plain_checkHashable key).bind fun _ _ => plain_ok _

theorem plain_needHidden (v : Value) (name : String) : Plain (s.needHidden v name) := by
  unfold needHidden
  split
  · exact plain_ok _
  · exact ends_error rfl

theorem plain_bindingsOf (v : Value) : Plain (s.bindingsOf v) := by
  unfold bindingsOf
  split
  · exact plain_ok _
  · exact s.plain_needHidden v "bindings"

theorem plain_parentOf (v : Value) : Plain (s.parentOf v) := by
  unfold parentOf
  split
  · exact plain_ok _
  · exact s.plain_needHidden v "_parent"

theorem plain_ownerWithin (key : Value) : ∀ fuel scope, Plain (s.ownerWithin key fuel scope) := by
  intro fuel
  induction fuel with
  | zero => intro scope; exact plain_ok _
  | succ fuel ih =>
    intro scope
    by_cases hnull : scope = .null
    · subst hnull
      exact plain_ok _
    · rw [ownerWithin.eq_3 _ _ _ _ hnull]
      refine (s.plain_bindingsOf scope).bind fun bindings _ => (s.plain_valueAt? bindings key).bind fun found _ => ?_
      cases found with
      | none => exact (s.plain_parentOf scope).bind fun parent _ => ih parent
      | some v => exact plain_ok _

theorem plain_lookup? (scope key : Value) : Plain (s.lookup? scope key) :=
  (s.plain_ownerWithin key _ scope).plain_map _

end Store

/-- The elements of a traversal satisfy `Q`, and its error is plain. -/
def Traversal.All (t : Traversal) (Q : Value → Prop) : Prop :=
  (∀ v ∈ t.items, Q v) ∧ ∀ e, t.fault = some e → e.isPlain = true

namespace Traversal

variable {Q : Value → Prop}

theorem all_failing {e : Raised} (h : e.isPlain = true) : (failing e).All Q := by
  refine ⟨by simp [failing], ?_⟩
  intro e' he
  cases he
  exact h

theorem All.cons {t : Traversal} {v : Value} (h : t.All Q) (hv : Q v) : (t.cons v).All Q := by
  refine ⟨?_, h.2⟩
  intro w hw
  rcases List.mem_cons.1 hw with rfl | hw
  · exact hv
  · exact h.1 w hw

theorem All.result {t : Traversal} (h : t.All Q) :
    Gives t.result fun items => ∀ v ∈ items, Q v := by
  unfold Traversal.result
  split
  · exact ends_ok h.1
  · rename_i e he
    exact ends_error (h.2 e he)

end Traversal

namespace Store

section Traversals

variable {s : Store} {Q : Value → Prop}

theorem all_boxFrom {items : List (Int × Value)} (h : ∀ n v, items.lookup n = some v → Q v) :
    ∀ left i, (boxFrom items left i).All Q := by
  intro left
  induction left with
  | zero => intro i; exact Traversal.all_failing rfl
  | succ left ih =>
    intro i
    unfold boxFrom
    split
    · rename_i v hv
      exact (ih (i + 1)).cons (h _ v hv)
    · exact Traversal.all_failing rfl

theorem all_scopeFrom {scope : Value} (h : ∀ key v, s.lookup? scope key = .ok (some v) → Q v) :
    ∀ fuel i, (s.scopeFrom scope fuel i).All Q := by
  intro fuel
  induction fuel with
  | zero => intro i; exact Traversal.all_failing rfl
  | succ fuel ih =>
    intro i
    have hplain := s.plain_lookup? scope (.int i)
    unfold scopeFrom
    split
    · rename_i v hv
      exact (ih (i + 1)).cons (h _ v hv)
    · exact Traversal.all_failing rfl
    · rename_i e he
      exact Traversal.all_failing (hplain.error e he)

/-- Going through a value meets its elements, its bindings or its items. -/
theorem all_traverse? {v : Value} {t : Traversal} (hel : ∀ items, s.elements? v = some items → ∀ w ∈ items, Q w)
    (hscope : ∀ key w, s.lookup? v key = .ok (some w) → Q w)
    (hbox : ∀ items attrs n w, s.cell? v = some (.object (.box items) attrs) → items.lookup n = some w → Q w)
    (h : s.traverse? v = some t) : t.All Q := by
  unfold traverse? at h
  split at h
  · rename_i items hitems
    cases h
    exact ⟨hel items hitems, by simp⟩
  · split at h
    · cases h
      exact all_scopeFrom hscope _ _
    · rename_i items attrs hcell
      cases h
      exact all_boxFrom (fun n w => hbox items attrs n w hcell) _ _
    · cases h

end Traversals

variable (s : Store)

theorem plain_traverse (v : Value) : Gives (s.traverse v) fun t => t.All fun _ => True := by
  unfold traverse
  split
  · rename_i t ht
    refine ends_ok (all_traverse? ?_ ?_ ?_ ht) <;> intros <;> trivial
  · exact ends_error rfl

theorem plain_elements (v : Value) : Plain (s.elements v) :=
  (s.plain_traverse v).bind fun _ ht => ht.result.plain

/-! ## Printing -/

section Printing

variable {s : Store} {shown : Int → Value → Except Raised String} {inspected printed : Value → Except Raised String}

theorem plain_printList (width level : Int) (h : ∀ level v, Plain (shown level v)) (items : List Value) :
    Plain (s.printList width level shown items) := by
  unfold printList
  split
  · exact (plain_mapM (h _) items).bind fun _ _ => plain_ok _
  · exact (plain_mapM (h _) items).bind fun _ _ => plain_ok _

theorem plain_printClosure (width level : Int) (h : ∀ level v, Plain (shown level v)) (f : Closure) :
    Plain (s.printClosure width level shown f) := by
  refine (s.plain_elements f.params).bind fun params _ => ?_
  refine (plain_printList width level h params).bind fun names _ => ?_
  exact (h level f.body).bind fun _ _ => plain_ok _

theorem plain_inspectItems (h : ∀ v, Plain (inspected v)) (items : List Value) : Plain (inspectItems inspected items) :=
  (plain_mapM h items).plain_map _

theorem plain_inspectEntries (h : ∀ v, Plain (inspected v)) (entries : Entries) :
    Plain (inspectEntries inspected entries) := by
  refine (plain_mapM (fun e => ?_) entries).bind fun _ _ => plain_ok _
  exact (h e.1).bind fun _ _ => (h e.2).bind fun _ _ => plain_ok _

theorem plain_inspectContext (h : ∀ v, Plain (inspected v)) (ctx : Context) : Plain (inspectContext inspected ctx) :=
  (h ctx.this).bind fun _ _ => (h ctx.scope).bind fun _ _ => (h ctx.last).bind fun _ _ => plain_ok _

theorem plain_textWith (h : ∀ v, Plain (inspected v)) (v : Value) : Plain (s.textWith inspected v) := by
  unfold textWith
  split
  · exact plain_ok _
  · exact plain_ok _
  · exact h _

theorem plain_printEntries (h : ∀ v, Plain (inspected v)) (h' : ∀ v, Plain (printed v)) (entries : Entries) :
    Plain (s.printEntries inspected printed entries) := by
  refine (plain_mapM (fun e => ?_) entries).bind fun _ _ => plain_ok _
  exact (plain_textWith h e.1).bind fun _ _ => (h' e.2).bind fun _ _ => plain_ok _

end Printing

section Within

variable {fuel : Nat} (hi : ∀ v, Plain (s.inspectWithin fuel v))
variable (hp : ∀ width level v, Plain (s.printWithin fuel width level v))

include hi hp

theorem plain_inspectWithin_succ (v : Value) : Plain (s.inspectWithin (fuel + 1) v) := by
  cases v with
  | int n =>
    rw [inspectWithin]
    exact plain_printInteger n
  | ref r =>
    simp only [inspectWithin]
    cases s.get? r with
    | none => exact plain_ok _
    | some c =>
      cases c with
      | list items => exact (plain_inspectItems hi items).plain_map _
      | tuple items => exact (plain_inspectItems hi items).plain_map _
      | dict entries => exact plain_inspectEntries hi entries
      | frozen entries => exact (plain_inspectEntries hi entries).plain_map _
      | raw payload => exact (hi payload).plain_map _
      | scope bindings => exact (s.plain_joinedKeys bindings).plain_map _
      | closure f => exact plain_printClosure _ _ (hp _) f
      | context ctx => exact plain_inspectContext hi ctx
      | method self =>
        dsimp only
        split
        · exact plain_ok _
        · exact (hi self).plain_map _
      | _ => exact plain_ok _
  | _ => exact plain_ok _

theorem plain_printWithin_succ (width level : Int) (v : Value) : Plain (s.printWithin (fuel + 1) width level v) := by
  cases v with
  | int n =>
    rw [printWithin]
    exact plain_printInteger n
  | ref r =>
    simp only [printWithin]
    cases s.get? r with
    | none => exact plain_ok _
    | some c =>
      cases c with
      | list items | tuple items => exact plain_printList width level (hp width) items
      | dict entries | frozen entries => exact plain_printEntries hi (hp width level) entries
      | raw payload => exact (hp width level payload).plain_map _
      | scope bindings => exact (s.plain_joinedKeys bindings).plain_map _
      | closure f => exact plain_printClosure _ _ (hp width) f
      | context ctx => exact plain_inspectContext hi ctx
      | _ => exact plain_ok _
  | _ => exact plain_ok _

end Within

/-- The two forms of a value, nested to any depth. -/
theorem plain_within (fuel : Nat) :
    (∀ v, Plain (s.inspectWithin fuel v)) ∧ ∀ width level v, Plain (s.printWithin fuel width level v) := by
  induction fuel with
  | zero => exact ⟨fun _ => ends_error rfl, fun _ _ _ => ends_error rfl⟩
  | succ fuel ih =>
    obtain ⟨hi, hp⟩ := ih
    exact ⟨s.plain_inspectWithin_succ hi hp, s.plain_printWithin_succ hi hp⟩

theorem plain_inspect (v : Value) : Plain (s.inspect v) := (s.plain_within _).1 v

theorem plain_print (v : Value) : Plain (s.print v) := (s.plain_within _).2 _ _ v

/-- A text is printed as it is. -/
theorem plainText_of_text? (s : Store) {v : Value} {text : String} (h : v.text? = some text) : s.plainText v = .ok text := by
  cases v with
  | str t flavor =>
    cases h
    rfl
  | _ => cases h

theorem plain_plainText (v : Value) : Plain (s.plainText v) := plain_textWith s.plain_inspect v

theorem plain_pathOf (v : Value) : Plain (s.pathOf v) := by
  refine (s.plain_checkHashable v).bind fun _ _ => ?_
  simp only
  split
  · exact plain_ok _
  · rename_i fault _
    refine (s.plain_inspect v).bind fun shown _ => ends_error ?_
    cases fault <;> rfl

end Store

end ListScript
