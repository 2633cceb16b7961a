import Mathlib.Data.Fintype.Pigeonhole
import ListScript.Proofs.PairingDepth

/-!
# Results side by side

Two results are paired if both are values, and these counterparts, or both are errors, and these counterparts
(`Pairing.Both`). What is found under a key in a dictionary or in a chain of scopes, and what there is to go through in
a value, is paired with what is found in the counterparts.

A chain of scopes is followed for as many steps as the store has objects. More steps would find nothing more, for a
chain that does not end by then is a circle (`Store.ownerWithin_eq`).
-/

namespace ListScript

/-! ## Chains of scopes -/

namespace Store

variable {s : Store} {key v w : Value}

/-- What a key has in the bindings of an object on a chain of scopes, if that much can be told. -/
def boundAt (s : Store) (key scope : Value) : Except Raised (Option Value) := do s.valueAt? (← s.bindingsOf scope) key

/-- The object at which the search for a key goes on from an object. -/
def onward (s : Store) (key scope : Value) : Option Value :=
  match s.boundAt key scope with
  | .ok none => (s.parentOf scope).toOption
  | _ => none

/-- The object at which the search for a key is after some steps, if it has not ended. -/
def climb (s : Store) (key : Value) : Nat → Value → Option Value
  | 0, v => some v
  | n + 1, v => (s.onward key v).bind (s.climb key n)

theorem ownerWithin_succ (hne : v ≠ .null) (n : Nat) :
    s.ownerWithin key (n + 1) v = s.boundAt key v >>= fun
      | some w => .ok (some (v, w))
      | none => s.parentOf v >>= s.ownerWithin key n := by
  rw [ownerWithin, boundAt]
  · cases s.bindingsOf v with
    | error e => rfl
    | ok bindings =>
      change s.valueAt? bindings key >>= _ = s.valueAt? bindings key >>= _
      refine congrArg _ (funext fun found => ?_)
      cases found <;> rfl
  · exact hne

theorem ownerWithin_of_onward_some (h : s.onward key v = some w) (n : Nat) :
    s.ownerWithin key (n + 1) v = s.ownerWithin key n w := by
  have hne : v ≠ .null := by
    rintro rfl
    cases h
  rw [ownerWithin_succ hne]
  unfold onward at h
  split at h
  · rename_i hbound
    rw [hbound]
    change s.parentOf v >>= s.ownerWithin key n = _
    cases hparent : s.parentOf v with
    | error e => rw [hparent] at h; cases h
    | ok parent => rw [hparent] at h; cases h; rfl
  · cases h

theorem ownerWithin_of_onward_none (h : s.onward key v = none) (n : Nat) :
    s.ownerWithin key (n + 1) v = s.ownerWithin key 1 v := by
  by_cases hne : v = .null
  · rw [hne, ownerWithin, ownerWithin]
  · rw [ownerWithin_succ hne, ownerWithin_succ hne]
    unfold onward at h
    cases hbound : s.boundAt key v with
    | error e => rfl
    | ok found =>
      rw [hbound] at h
      cases found with
      | some w => rfl
      | none =>
        change s.parentOf v >>= s.ownerWithin key n = s.parentOf v >>= s.ownerWithin key 0
        cases hparent : s.parentOf v with
        | error e => rfl
        | ok parent => rw [hparent] at h; cases h

theorem ownerWithin_of_climb_none {n : Nat} (h : s.climb key n v = none) (k : Nat) :
    s.ownerWithin key (n + k) v = s.ownerWithin key n v := by
  induction n generalizing v with
  | zero => cases h
  | succ n ih =>
    rw [Nat.add_right_comm]
    cases hon : s.onward key v with
    | none => rw [ownerWithin_of_onward_none hon (n + k), ownerWithin_of_onward_none hon n]
    | some w =>
      rw [climb, hon] at h
      rw [ownerWithin_of_onward_some hon, ownerWithin_of_onward_some hon, ih h]

theorem ownerWithin_of_climb_some {n : Nat} (h : (s.climb key n v).isSome = true) : s.ownerWithin key n v = .ok none := by
  induction n generalizing v with
  | zero => rfl
  | succ n ih =>
    rw [climb] at h
    cases hon : s.onward key v with
    | none => rw [hon] at h; cases h
    | some w =>
      rw [hon] at h
      rw [ownerWithin_of_onward_some hon, ih h]

theorem climb_add (i j : Nat) (v : Value) : s.climb key (i + j) v = (s.climb key i v).bind (s.climb key j) := by
  induction i generalizing v with
  | zero => rw [Nat.zero_add]; rfl
  | succ i ih =>
    rw [Nat.add_right_comm, climb, climb]
    cases s.onward key v with
    | none => rfl
    | some w => exact ih w

/-- A search that goes on is at an object of the store. -/
theorem index_of_climb {i n : Nat} (h : (s.climb key n v).isSome = true) (hi : i < n) :
    ∃ r, s.climb key i v = some (.ref r) ∧ r.index < s.size := by
  obtain ⟨j, rfl⟩ : ∃ j, n = i + (j + 1) := ⟨n - i - 1, by omega⟩
  rw [climb_add] at h
  cases hclimb : s.climb key i v with
  | none => rw [hclimb] at h; cases h
  | some w =>
    rw [hclimb] at h
    cases w with
    | ref r =>
      refine ⟨r, rfl, ?_⟩
      cases hc : s.get? r with
      | none =>
        have hnone : s.onward key (.ref r) = none := by
          simp only [onward, boundAt, bindingsOf, needHidden, hiddenAttribute?, scope?, cell?, hc]
          rfl
        simp [climb, hnone] at h
      | some c => exact index_lt_of_get? hc
    | _ => cases h

/-- A search that goes on for more steps than there are objects goes on forever. -/
theorem climb_of_size_lt (h : (s.climb key (s.size + 1) v).isSome = true) (n : Nat) : (s.climb key n v).isSome = true := by
  choose f hf hlt using fun i : Fin (s.size + 1) => index_of_climb h i.isLt
  obtain ⟨i, j, hne, heq⟩ := Fintype.exists_ne_map_eq_of_card_lt (fun i => (⟨(f i).index, hlt i⟩ : Fin s.size)) (by simp)
  have hsame : s.climb key i v = s.climb key j v := by
    rw [hf, hf, show f i = f j from congrArg Ref.mk (congrArg Fin.val heq)]
  -- the search is at the same object twice, so it comes there again and again
  have hback : ∀ i j : Nat, i < j → j < s.size + 1 → s.climb key i v = s.climb key j v → (s.climb key n v).isSome = true := by
    intro i j hij hj hsame
    induction n using Nat.strongRecOn with
    | ind n ih =>
      by_cases hn : n < s.size + 1
      · obtain ⟨r, hr, -⟩ := index_of_climb h hn
        rw [hr]
        rfl
      · obtain ⟨k, rfl⟩ : ∃ k, n = j + k := ⟨n - j, by omega⟩
        rw [climb_add, ← hsame, ← climb_add]
        exact ih (i + k) (by omega)
  rcases Nat.lt_or_gt_of_ne (fun heq => hne (Fin.ext heq)) with hlt' | hlt'
  · exact hback i j hlt' j.isLt hsame
  · exact hback j i hlt' i.isLt hsame.symm

/-- The owner of a key in a chain of scopes is found in as many steps as there are objects, or not at all. -/
theorem ownerWithin_eq (s : Store) (key v : Value) (k : Nat) :
    s.ownerWithin key (s.size + 1 + k) v = s.owner? v key := by
  unfold owner?
  cases h : s.climb key (s.size + 1) v with
  | none => exact ownerWithin_of_climb_none h k
  | some w =>
    have hsome : (s.climb key (s.size + 1) v).isSome = true := by
      rw [h]
      rfl
    rw [ownerWithin_of_climb_some hsome, ownerWithin_of_climb_some (climb_of_size_lt hsome _)]

end Store

namespace Pairing

variable (p : Pairing)

/-! ## Results -/

def frame (f : Frame) : Frame := ⟨p.value f.name, p.value f.args⟩

def subject : Subject → Subject
  | .value v => .value (p.value v)
  | x => x

/-- The counterpart of an error. -/
def raised (e : Raised) : Raised := ⟨e.cause, p.subject e.subject, e.stack.map (List.map p.frame)⟩

/-- An error and its counterpart. -/
def Errors (e e' : Raised) : Prop :=
  e' = p.raised e ∧ ∀ frames, e.stack = some frames → ∀ f ∈ frames, f.name.Within p.good ∧ f.args.Within p.good

/-- Two results side by side. -/
inductive Both {α β : Type} (R : α → β → Prop) : Except Raised α → Except Raised β → Prop
  | ok {a : α} {b : β} (h : R a b) : Both R (.ok a) (.ok b)
  | error {e e' : Raised} (h : p.Errors e e') : Both R (.error e) (.error e')

/-- What is the image of something with a property. -/
def Of {α β : Type} (g : α → β) (P : α → Prop) (a : α) (b : β) : Prop := b = g a ∧ P a

/-- A value and its counterpart. -/
abbrev Val : Value → Value → Prop := Of p.value (Value.Within p.good)

abbrev Vals : List Value → List Value → Prop := Of (List.map p.value) fun vs => ∀ v ∈ vs, v.Within p.good

abbrev Found : Option Value → Option Value → Prop := Of (Option.map p.value) fun o => ∀ v ∈ o, v.Within p.good

abbrev Table : Entries → Entries → Prop := Of p.entries fun es => ∀ v ∈ es.parts, v.Within p.good

variable {p} {s s' : Store} {v w key : Value}

theorem errors_of (cause : Cause) : p.Errors (.of cause) (.of cause) := ⟨rfl, by rintro _ ⟨⟩⟩

theorem errors_about (v : Value) (cause : Cause) : p.Errors (.about v cause) (.about (p.value v) cause) :=
  ⟨rfl, by rintro _ ⟨⟩⟩

section Rules

variable {α α' β β' : Type} {R : α → α' → Prop} {Q : β → β' → Prop} {x : Except Raised α} {x' : Except Raised α'}

theorem both_fail (cause : Cause) : p.Both R (.error (.of cause)) (.error (.of cause)) := .error (errors_of cause)

theorem both_fail_about (v : Value) (cause : Cause) :
    p.Both R (.error (.about v cause)) (.error (.about (p.value v) cause)) :=
  .error (errors_about v cause)

theorem Both.bind {f : α → Except Raised β} {f' : α' → Except Raised β'} (h : p.Both R x x')
    (hf : ∀ a a', R a a' → p.Both Q (f a) (f' a')) : p.Both Q (x >>= f) (x' >>= f') := by
  cases h with
  | ok h => exact hf _ _ h
  | error h => exact .error h

theorem Both.map {f : α → β} {f' : α' → β'} (h : p.Both R x x') (hf : ∀ a a', R a a' → Q (f a) (f' a')) :
    p.Both Q (x.map f) (x'.map f') := by
  cases h with
  | ok h => exact .ok (hf _ _ h)
  | error h => exact .error h

theorem both_ite {c c' : Prop} [Decidable c] [Decidable c'] {y : Except Raised α} {y' : Except Raised α'} (hc : c' ↔ c)
    (h : c → p.Both R x x') (h' : ¬ c → p.Both R y y') : p.Both R (if c then x else y) (if c' then x' else y') := by
  by_cases hyes : c
  · rw [if_pos hyes, if_pos (hc.2 hyes)]
    exact h hyes
  · rw [if_neg hyes, if_neg fun hno => hyes (hc.1 hno)]
    exact h' hyes

theorem both_mapM {g : α → α'} {k : β → β'} {P : β → Prop} {f : α → Except Raised β} {f' : α' → Except Raised β'}
    {xs : List α} (h : ∀ a ∈ xs, p.Both (Of k P) (f a) (f' (g a))) :
    p.Both (Of (List.map k) fun ys => ∀ y ∈ ys, P y) (xs.mapM f) ((xs.map g).mapM f') := by
  induction xs with
  | nil => exact .ok ⟨rfl, by simp⟩
  | cons a xs ih =>
    rw [List.forall_mem_cons] at h
    rw [List.map_cons, List.mapM_cons, List.mapM_cons]
    refine h.1.bind ?_
    rintro b _ ⟨rfl, hb⟩
    refine (ih h.2).bind ?_
    rintro bs _ ⟨rfl, hbs⟩
    exact .ok ⟨rfl, List.forall_mem_cons.2 ⟨hb, hbs⟩⟩

theorem both_mapM_eq {g : α → α'} {f : α → Except Raised β} {f' : α' → Except Raised β} {xs : List α}
    (h : ∀ a ∈ xs, p.Both Eq (f a) (f' (g a))) : p.Both Eq (xs.mapM f) ((xs.map g).mapM f') := by
  induction xs with
  | nil => exact .ok rfl
  | cons a xs ih =>
    rw [List.forall_mem_cons] at h
    rw [List.map_cons, List.mapM_cons, List.mapM_cons]
    refine h.1.bind ?_
    rintro b _ rfl
    refine (ih h.2).bind ?_
    rintro bs _ rfl
    exact .ok rfl

end Rules

theorem found_none : p.Found none none := ⟨rfl, by simp⟩

theorem found_some (hv : v.Within p.good) : p.Found (some v) (some (p.value v)) := ⟨rfl, by simpa using hv⟩

theorem Found.getD {o o' : Option Value} (h : p.Found o o') : p.Val (o.getD .null) (o'.getD .null) := by
  obtain ⟨rfl, h⟩ := h
  exact ⟨getD_null o, within_getD h⟩

namespace Paired

/-! ## Dictionaries -/

theorem both_checkHashable (h : p.Paired s s') (hv : v.Within p.good) :
    p.Both Eq (s.checkHashable v) (s'.checkHashable (p.value v)) := by
  rw [h.checkHashable_value hv]
  unfold Store.checkHashable
  split
  · exact both_fail _
  · exact .ok rfl

theorem both_among (h : p.Paired s s') (hkey : key.Within p.good) (label : String) {items : List Value}
    (hitems : ∀ w ∈ items, w.Within p.good) :
    p.Both p.Found (Store.valueElsewhere?.among s key label items)
      (Store.valueElsewhere?.among s' (p.value key) label (items.map p.value)) := by
  have hany : (items.map p.value).any (s'.alike (p.value key)) = items.any (s.alike key) := by
    rw [List.any_map]
    induction items with
    | nil => rfl
    | cons w rest ih =>
      rw [List.forall_mem_cons] at hitems
      rw [List.any_cons, List.any_cons, Function.comp_apply, h.alike_value hkey hitems.1, ih hitems.2]
  unfold Store.valueElsewhere?.among
  rw [hany, h.typeName_value hkey]
  split
  · exact both_fail _
  · exact .ok found_none

theorem both_valueElsewhere? (h : p.Paired s s') (hv : v.Within p.good) (hkey : key.Within p.good) :
    p.Both p.Found (s.valueElsewhere? v key) (s'.valueElsewhere? (p.value v) (p.value key)) := by
  have hkeyType := h.typeName_value hkey
  unfold Store.valueElsewhere?
  cases v with
  | str t flavor =>
    cases key with
    | str part flavor' =>
      simp only [value]
      split
      · exact both_fail _
      · exact .ok found_none
    | _ =>
      simp only [value] at hkeyType ⊢
      rw [hkeyType]
      exact both_fail _
  | bytes bs =>
    cases key with
    | str part flavor =>
      simp only [value] at hkeyType ⊢
      rw [hkeyType]
      exact both_fail _
    | _ => exact both_fail _
  | ref r =>
    have htype := h.typeName_value hv
    rw [value_ref] at htype ⊢
    have hmove := h.get?_move r (Value.within_ref.1 hv)
    simp only [Store.cell?, htype]
    cases hc : s.get? r with
    | none =>
      rw [hmove, hc]
      exact both_fail _
    | some c =>
      rw [hmove, hc]
      have hwithin := h.closed r c (Value.within_ref.1 hv) hc
      cases c with
      | list | tuple => exact h.both_among hkey _ hwithin
      | _ => exact both_fail _
  | _ => exact both_fail _

theorem both_valueAt? (h : p.Paired s s') (hv : v.Within p.good) (hkey : key.Within p.good) :
    p.Both p.Found (s.valueAt? v key) (s'.valueAt? (p.value v) (p.value key)) := by
  unfold Store.valueAt?
  rw [h.mapping?_value hv]
  cases hes : s.mapping? v with
  | none => exact h.both_valueElsewhere? hv hkey
  | some es =>
    have hwithin := h.within_mapping? hv hes
    refine (h.both_checkHashable hkey).bind fun _ _ _ => .ok ⟨?_, fun w hw => hwithin w (Entries.mem_of_find? hw)⟩
    exact find?_entries fun k hk => h.sameKey_value hkey (hwithin k (Entries.mem_of_mem_keys hk))

/-- Both stores replace the entries of a dictionary. -/
theorem set_dict (h : p.Paired s s') {r : Ref} (hr : p.good r) {es es₀ : Entries} (hes : ∀ w ∈ es.parts, w.Within p.good)
    (hr' : s.get? r = some (.dict es₀)) : p.Paired (s.set r (.dict es)) (s'.set (p.move r) (.dict (p.entries es))) := by
  refine h.set hr hes (fun d hd => ?_) rfl
  cases hr'.symm.trans hd
  rfl

theorem within_put {hit : Value → Bool} {es : Entries} (hkey : key.Within p.good) (hw : w.Within p.good)
    (hes : ∀ u ∈ es.parts, u.Within p.good) : ∀ u ∈ (es.put hit key w).parts, u.Within p.good := by
  intro u hu
  rcases Entries.mem_parts_put hu with rfl | rfl | hu
  · exact hkey
  · exact hw
  · exact hes u hu

theorem both_setEntry (h : p.Paired s s') (hv : v.Within p.good) (hkey : key.Within p.good) (hw : w.Within p.good) :
    p.Both p.Paired (s.setEntry v key w) (s'.setEntry (p.value v) (p.value key) (p.value w)) := by
  have herror : p.Both p.Paired
      (.error (.of (if s.isList v then .textAsIndex "list" (s.typeName key) else .noItemAssignment (s.typeName v))))
      (.error (.of (if s'.isList (p.value v) then .textAsIndex "list" (s'.typeName (p.value key))
        else .noItemAssignment (s'.typeName (p.value v))))) := by
    rw [h.isList_value hv, h.typeName_value hv, h.typeName_value hkey]
    exact both_fail _
  unfold Store.setEntry
  rcases h.cell?_cases hv with ⟨hc, hc'⟩ | ⟨r, c, rfl, hr, hc, hc', hwithin⟩
  · simp only [Store.dict?, hc, hc']
    cases v <;> exact herror
  · rw [value_ref] at hc' ⊢
    simp only [Store.dict?, hc, hc']
    cases c with
    | dict es =>
      refine (h.both_checkHashable hkey).bind fun _ _ _ => .ok ?_
      rw [put_entries key w fun k hk => h.sameKey_value hkey (hwithin k (Entries.mem_of_mem_keys hk))]
      exact h.set_dict hr (within_put hkey hw hwithin) hc
    | _ => exact herror

theorem both_entriesOf (h : p.Paired s s') {es : Entries} (hes : ∀ u ∈ es.parts, u.Within p.good) :
    ∀ {done : Entries}, (∀ u ∈ done.parts, u.Within p.good) →
      p.Both p.Table (s.entriesOf done es) (s'.entriesOf (p.entries done) (p.entries es)) := by
  induction es with
  | nil => exact fun hdone => .ok ⟨rfl, hdone⟩
  | cons e rest ih =>
    intro done hdone
    simp only [Entries.parts, List.flatMap_cons, List.forall_mem_append, List.forall_mem_cons] at hes ih
    obtain ⟨⟨hkey, hw, -⟩, hrest⟩ := hes
    refine (h.both_checkHashable hkey).bind fun _ _ _ => ?_
    change p.Both p.Table _ (s'.entriesOf (Entries.put (s'.sameKey (p.value e.1)) (p.value e.1) (p.value e.2) (p.entries done))
      (p.entries rest))
    rw [put_entries e.1 e.2 fun k hk => h.sameKey_value hkey (hdone k (Entries.mem_of_mem_keys hk))]
    exact ih hrest (within_put hkey hw hdone)

/-! ## Scopes -/

/-- A scope that binds a key and the value bound there. -/
abbrev Owner (p : Pairing) : Option (Value × Value) → Option (Value × Value) → Prop :=
  Of (Option.map (Prod.map p.value p.value)) fun o => ∀ x ∈ o, x.1.Within p.good ∧ x.2.Within p.good

/-- A hidden attribute that is not one of those that are not compared. -/
theorem both_needHidden (h : p.Paired s s') (hv : v.Within p.good) {name : String} (hname : p.hidden name = false) :
    p.Both p.Val (s.needHidden v name) (s'.needHidden (p.value v) name) := by
  unfold Store.needHidden
  rw [h.hiddenAttribute?_value hname hv, h.typeName_value hv]
  cases hw : s.hiddenAttribute? v name with
  | none => exact both_fail _
  | some w => exact .ok ⟨rfl, h.within_hiddenAttribute? hv hw⟩

theorem both_bindingsOf (h : p.Paired s s') (hv : v.Within p.good) :
    p.Both p.Val (s.bindingsOf v) (s'.bindingsOf (p.value v)) := by
  have hopen : p.hidden "bindings" = false := hidden_eq_false (by decide)
  unfold Store.bindingsOf
  rw [h.scope?_value hv]
  cases hbp : s.scope? v with
  | none => exact h.both_needHidden hv hopen
  | some bp => exact .ok ⟨rfl, (h.within_scope? hv hbp).1⟩

theorem both_parentOf (h : p.Paired s s') (hv : v.Within p.good) :
    p.Both p.Val (s.parentOf v) (s'.parentOf (p.value v)) := by
  unfold Store.parentOf
  rw [h.scope?_value hv]
  cases hbp : s.scope? v with
  | none => exact h.both_needHidden hv (p.open_names _ (by simp))
  | some bp => exact .ok ⟨rfl, (h.within_scope? hv hbp).2⟩

theorem both_ownerWithin (h : p.Paired s s') (hkey : key.Within p.good) (n : Nat) : ∀ {scope : Value}, scope.Within p.good →
    p.Both (Owner p) (s.ownerWithin key n scope) (s'.ownerWithin (p.value key) n (p.value scope)) := by
  induction n with
  | zero => exact fun _ => .ok ⟨rfl, by simp⟩
  | succ n ih =>
    intro scope hscope
    by_cases hnull : scope = .null
    · subst hnull
      exact .ok ⟨rfl, by simp⟩
    · have hnull' : p.value scope ≠ .null := fun heq => hnull (value_eq_null.1 heq)
      rw [Store.ownerWithin_succ hnull, Store.ownerWithin_succ hnull']
      have hbound : p.Both p.Found (s.boundAt key scope) (s'.boundAt (p.value key) (p.value scope)) := by
        refine (h.both_bindingsOf hscope).bind ?_
        rintro b _ ⟨rfl, hb⟩
        exact h.both_valueAt? hb hkey
      refine hbound.bind ?_
      rintro found _ ⟨rfl, hfound⟩
      cases found with
      | none =>
        refine (h.both_parentOf hscope).bind ?_
        rintro q _ ⟨rfl, hq⟩
        exact ih hq
      | some w =>
        refine .ok ⟨rfl, ?_⟩
        rintro _ ⟨⟩
        exact ⟨hscope, hfound w rfl⟩

theorem both_owner? (h : p.Paired s s') (hkey : key.Within p.good) (hv : v.Within p.good) :
    p.Both (Owner p) (s.owner? v key) (s'.owner? (p.value v) (p.value key)) := by
  have hboth := h.both_ownerWithin hkey (s.size + 1 + p.gap) hv
  rwa [Store.ownerWithin_eq, Nat.add_right_comm, ← h.size] at hboth

theorem both_lookup? (h : p.Paired s s') (hkey : key.Within p.good) (hv : v.Within p.good) :
    p.Both p.Found (s.lookup? v key) (s'.lookup? (p.value v) (p.value key)) := by
  refine (h.both_owner? hkey hv).map ?_
  rintro o _ ⟨rfl, ho⟩
  cases o with
  | none => exact found_none
  | some x => exact found_some (ho x rfl).2

theorem both_bind (h : p.Paired s s') (hv : v.Within p.good) (hkey : key.Within p.good) (hw : w.Within p.good) :
    p.Both p.Paired (s.bind v key w) (s'.bind (p.value v) (p.value key) (p.value w)) := by
  unfold Store.bind
  rw [h.scope?_value hv]
  cases hbp : s.scope? v with
  | none =>
    rw [h.typeName_value hv]
    exact both_fail _
  | some bp =>
    obtain ⟨b, q⟩ := bp
    rw [h.typeLabel_value hkey]
    exact both_ite (by simp) (fun _ => h.both_setEntry (h.within_scope? hv hbp).1 hkey hw) fun _ => both_fail _

/-- Both stores add a dictionary. -/
theorem allocDict (h : p.Paired s s') {es : Entries} (hes : ∀ u ∈ es.parts, u.Within p.good) :
    p.Val (s.allocDict es).1 (s'.allocDict (p.entries es)).1 ∧
      p.Paired (s.allocDict es).2 (s'.allocDict (p.entries es)).2 :=
  ⟨⟨congrArg Value.ref h.next, Value.within_ref.2 h.good_next⟩, h.alloc hes rfl rfl⟩

theorem allocList (h : p.Paired s s') {items : List Value} (hitems : ∀ u ∈ items, u.Within p.good) :
    p.Val (s.allocList items).1 (s'.allocList (items.map p.value)).1 ∧
      p.Paired (s.allocList items).2 (s'.allocList (items.map p.value)).2 :=
  ⟨⟨congrArg Value.ref h.next, Value.within_ref.2 h.good_next⟩, h.alloc hitems rfl rfl⟩

theorem allocScope (h : p.Paired s s') (hv : v.Within p.good) (hw : w.Within p.good) :
    p.Val (s.allocScope v w).1 (s'.allocScope (p.value v) (p.value w)).1 ∧
      p.Paired (s.allocScope v w).2 (s'.allocScope (p.value v) (p.value w)).2 :=
  ⟨⟨congrArg Value.ref h.next, Value.within_ref.2 h.good_next⟩,
    h.alloc (by simpa [Cell.contents] using ⟨hw, hv⟩) rfl rfl⟩

theorem allocEmptyScope (h : p.Paired s s') (hv : v.Within p.good) :
    p.Val (s.allocEmptyScope v).1 (s'.allocEmptyScope (p.value v)).1 ∧
      p.Paired (s.allocEmptyScope v).2 (s'.allocEmptyScope (p.value v)).2 := by
  obtain ⟨⟨heq, hwithin⟩, hpaired⟩ := @allocDict p s s' h [] (by simp [Entries.parts])
  have hscope := hpaired.allocScope hv hwithin
  rw [← heq] at hscope
  exact hscope

/-! ## Going through values -/

/-- A traversal and its counterpart. -/
structure Traversals (p : Pairing) (t t' : Traversal) : Prop where
  items : p.Vals t.items t'.items
  fault : (t.fault = none ∧ t'.fault = none) ∨ ∃ e e', t.fault = some e ∧ t'.fault = some e' ∧ p.Errors e e'

theorem Traversals.result {t t' : Traversal} (h : Traversals p t t') : p.Both p.Vals t.result t'.result := by
  unfold Traversal.result
  rcases h.fault with ⟨hnone, hnone'⟩ | ⟨e, e', hsome, hsome', herror⟩
  · rw [hnone, hnone']
    exact .ok h.items
  · rw [hsome, hsome']
    exact .error herror

theorem Traversals.cons {t t' : Traversal} (h : Traversals p t t') (hv : v.Within p.good) :
    Traversals p (t.cons v) (t'.cons (p.value v)) where
  items := ⟨by rw [Traversal.cons, h.items.1]; rfl, List.forall_mem_cons.2 ⟨hv, h.items.2⟩⟩
  fault := h.fault

theorem traversals_failing {e e' : Raised} (h : p.Errors e e') : Traversals p (.failing e) (.failing e') where
  items := ⟨rfl, by simp [Traversal.failing]⟩
  fault := .inr ⟨e, e', rfl, rfl, h⟩

theorem traversals_boxFrom {items : List (Int × Value)} (hitems : ∀ v ∈ items.map Prod.snd, v.Within p.good) (left : Nat) :
    ∀ i, Traversals p (Store.boxFrom items left i) (Store.boxFrom (items.map fun e => (e.1, p.value e.2)) left i) := by
  induction left with
  | zero => exact fun i => traversals_failing (errors_of _)
  | succ left ih =>
    intro i
    rw [Store.boxFrom, Store.boxFrom, lookup_map]
    cases hfound : items.lookup (i : Int) with
    | none => exact traversals_failing (errors_of _)
    | some v => exact (ih (i + 1)).cons (hitems v (mem_of_lookup hfound))

theorem traversals_scopeFrom (h : p.Paired s s') (hv : v.Within p.good) (fuel : Nat) :
    ∀ i, Traversals p (s.scopeFrom v fuel i) (s'.scopeFrom (p.value v) fuel i) := by
  induction fuel with
  | zero => exact fun i => traversals_failing (errors_of _)
  | succ fuel ih =>
    intro i
    have hlookup : p.Both p.Found (s.lookup? v (.int i)) (s'.lookup? (p.value v) (.int i)) :=
      @both_lookup? p s s' v (.int i) h (Value.within_immediate (by simp)) hv
    rw [Store.scopeFrom, Store.scopeFrom]
    cases hx : s.lookup? v (.int i) <;> cases hx' : s'.lookup? (p.value v) (.int i) <;> rw [hx, hx'] at hlookup <;>
      cases hlookup
    · exact traversals_failing ‹_›
    · rename_i o o' ho
      obtain ⟨rfl, hwithin⟩ := ho
      cases o with
      | none => exact traversals_failing (errors_of _)
      | some w => exact (ih (i + 1)).cons (hwithin w rfl)

theorem traverse?_value (h : p.Paired s s') (hv : v.Within p.good) :
    (s.traverse? v = none ∧ s'.traverse? (p.value v) = none) ∨
      ∃ t t', s.traverse? v = some t ∧ s'.traverse? (p.value v) = some t' ∧ Traversals p t t' := by
  obtain ⟨helements, hwithin⟩ := h.elements?_value hv
  unfold Store.traverse?
  rw [helements]
  cases hitems : s.elements? v with
  | some items => exact .inr ⟨_, _, rfl, rfl, ⟨⟨rfl, hwithin items hitems⟩, .inl ⟨rfl, rfl⟩⟩⟩
  | none =>
    rcases h.cell?_cases hv with ⟨hc, hc'⟩ | ⟨r, c, -, -, hc, hc', hcontents⟩ <;> simp only [Option.map_none, hc, hc']
    · exact .inl ⟨trivial, trivial⟩
    · cases c with
      | scope b q =>
        refine .inr ⟨_, _, rfl, rfl, ?_⟩
        rw [h.entriesInside_value hv]
        exact h.traversals_scopeFrom hv _ 0
      | object cls attrs =>
        cases cls with
        | box items =>
          refine .inr ⟨_, _, rfl, rfl, traversals_boxFrom (fun w hw => hcontents w ?_) 13 0⟩
          exact List.mem_append_left _ hw
        | _ => exact .inl ⟨rfl, rfl⟩
      | _ => exact .inl ⟨rfl, rfl⟩

theorem both_traverse (h : p.Paired s s') (hv : v.Within p.good) :
    p.Both (Traversals p) (s.traverse v) (s'.traverse (p.value v)) := by
  unfold Store.traverse
  rcases h.traverse?_value hv with ⟨ht, ht'⟩ | ⟨t, t', ht, ht', htraversals⟩
  · rw [ht, ht', h.typeName_value hv]
    exact both_fail _
  · rw [ht, ht']
    exact .ok htraversals

theorem both_elements (h : p.Paired s s') (hv : v.Within p.good) : p.Both p.Vals (s.elements v) (s'.elements (p.value v)) :=
  (h.both_traverse hv).bind fun _ _ ht => ht.result

theorem both_sizedElements (h : p.Paired s s') (hv : v.Within p.good) :
    p.Both p.Vals (s.sizedElements v) (s'.sizedElements (p.value v)) := by
  obtain ⟨helements, hwithin⟩ := h.elements?_value hv
  unfold Store.sizedElements
  rw [helements, h.typeName_value hv]
  cases hitems : s.elements? v with
  | none => exact both_fail _
  | some items => exact .ok ⟨rfl, hwithin items hitems⟩

/-- An entry and its counterpart. -/
abbrev Entry (p : Pairing) : Value × Value → Value × Value → Prop :=
  Of (fun e => (p.value e.1, p.value e.2)) fun e => e.1.Within p.good ∧ e.2.Within p.good

theorem both_entryOf (h : p.Paired s s') (hv : v.Within p.good) (position : Nat) :
    p.Both (Entry p) (s.entryOf position v) (s'.entryOf position (p.value v)) := by
  unfold Store.entryOf
  rcases h.traverse?_value hv with ⟨ht, ht'⟩ | ⟨t, t', ht, ht', htraversals⟩
  · rw [ht, ht']
    exact both_fail _
  · rw [ht, ht']
    refine htraversals.result.bind ?_
    rintro items _ ⟨rfl, hitems⟩
    match items with
    | [] => exact both_fail _
    | [_] => exact both_fail _
    | [k, w] =>
      simp only [List.forall_mem_cons] at hitems
      exact .ok ⟨rfl, hitems.1, hitems.2.1⟩
    | _ :: _ :: _ :: rest =>
      simp only [List.map_cons, List.length_cons, List.length_map]
      exact both_fail _

theorem both_copiedEntries (h : p.Paired s s') (hv : v.Within p.good) :
    p.Both p.Table (s.copiedEntries v) (s'.copiedEntries (p.value v)) := by
  have hdictionary : ((s'.scope? (p.value v)).map Prod.fst).getD (p.value v) =
      p.value (((s.scope? v).map Prod.fst).getD v) ∧ (((s.scope? v).map Prod.fst).getD v).Within p.good := by
    rw [h.scope?_value hv]
    cases hbp : s.scope? v with
    | none => exact ⟨rfl, hv⟩
    | some bp => exact ⟨rfl, (h.within_scope? hv hbp).1⟩
  unfold Store.copiedEntries
  dsimp only
  rw [hdictionary.1, h.mapping?_value hdictionary.2]
  cases hes : s.mapping? (((s.scope? v).map Prod.fst).getD v) with
  | some es => exact .ok ⟨rfl, h.within_mapping? hdictionary.2 hes⟩
  | none =>
    refine (h.both_elements hv).bind ?_
    rintro items _ ⟨rfl, hitems⟩
    have hzip : (items.map p.value).zipIdx = items.zipIdx.map fun x => (p.value x.1, x.2) := by
      rw [List.zipIdx_map]
      rfl
    rw [hzip]
    refine (both_mapM fun x hx => ?_ : p.Both (Of (List.map fun e => (p.value e.1, p.value e.2))
      fun es => ∀ e ∈ es, e.1.Within p.good ∧ e.2.Within p.good) _ _).bind ?_
    · exact h.both_entryOf (hitems x.1 (List.fst_mem_of_mem_zipIdx hx)) x.2
    · rintro es _ ⟨rfl, hes⟩
      refine @both_entriesOf p s s' h es (fun u hu => ?_) [] (by simp [Entries.parts])
      obtain ⟨e, he, hu⟩ := List.mem_flatMap.1 hu
      simp only [List.mem_cons, List.not_mem_nil, or_false] at hu
      rcases hu with rfl | rfl
      · exact (hes e he).1
      · exact (hes e he).2

end Paired

end Pairing

end ListScript
