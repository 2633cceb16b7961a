import ListScript.Proofs.PairingRun
import ListScript.Proofs.Unreached

/-!
# Invocations of one function

Applying a function to arguments depends on the objects that can be reached from the function and the arguments, and on
nothing else in a state. So an invocation that leaves those as they are, and what can be reached from its own arguments,
is not noticed by a later one, which then ends as it would have without it, up to the addresses of the objects that it
makes (`invocations_apart`).

It is not enough that an invocation leaves alone what the function has captured, for literal data in its body is handed
out as it is, and can be changed, and so can the list of active calls of its evaluator (`not_invocations_apart`).
-/

namespace ListScript

/-- The counterpart of an address if `gap` objects come in before those from `base` on. -/
def Ref.shift (base gap : Nat) (r : Ref) : Ref := if r.index < base then r else ⟨r.index + gap⟩

namespace Store

/-- A value is of a store if what it refers to is there; what is not a number goes by the address of an object, too. -/
def Holds (s : Store) : Value → Prop
  | .ref r => r.index < s.size
  | .float d => d.tag < s.size
  | _ => True

instance (s : Store) (v : Value) : Decidable (s.Holds v) :=
  match v with
  | .ref r => inferInstanceAs (Decidable (r.index < s.size))
  | .float d => inferInstanceAs (Decidable (d.tag < s.size))
  | .null | .bool _ | .int _ | .str .. | .bytes _ | .root _ => inferInstanceAs (Decidable True)

/-- All that is in objects is of the store. -/
def Sound (s : Store) : Prop := ∀ c ∈ s.cells, ∀ v ∈ c.contents, s.Holds v

instance (s : Store) : Decidable s.Sound := inferInstanceAs (Decidable (∀ c ∈ s.cells, ∀ v ∈ c.contents, s.Holds v))

/-- All that can be reached from some values is the same in another store. -/
def Preserves (s : Store) (roots : List Value) (t : Store) : Prop := ∀ r, s.Reaches roots r → t.get? r = s.get? r

variable {s t : Store} {roots : List Value} {r : Ref}

theorem Sound.holds {c : Cell} (h : s.Sound) (hc : s.get? r = some c) : ∀ v ∈ c.contents, s.Holds v :=
  h c (Array.mem_of_getElem? hc)

/-- What can be reached is there. -/
theorem Reaches.index_lt (h : s.Reaches roots r) (hs : s.Sound) (hroots : ∀ v ∈ roots, s.Holds v) : r.index < s.size := by
  cases h with
  | root hr => exact hroots _ hr
  | inside _ hc hr => exact hs.holds hc _ hr

end Store

/-- Two runs, one from a store and one from a later store with `gap` more objects, end in the same way but for the
addresses of the objects made meanwhile: what could be reached from the roots in the store stands for itself, and objects
that were not in it stand for those that are `gap` further on. -/
def Outcome.Renames (s : Store) (roots : List Value) (gap : Nat) (out out' : Outcome Value) : Prop :=
  ∃ p : Pairing, (∀ r, p.good r ↔ s.Reaches roots r ∨ s.size ≤ r.index) ∧ (∀ r, p.move r = r.shift s.size gap) ∧
    (∀ name, p.hidden name = false) ∧ p.Outcomes p.Val out out'

section Renewal

/-- What can be reached in a store stands for itself, and later objects for those `gap` further on. -/
def renewal (s : Store) (hpos : 0 < s.size) (roots : List Value) (gap : Nat) (tracing : Bool) (lines lines' : Array String) :
    Pairing where
  good r := s.Reaches roots r ∨ s.size ≤ r.index
  move r := r.shift s.size gap
  hidden _ := false
  kept _ := []
  veil _ := []
  base := s.size
  gap := gap
  tracing := tracing
  lines := lines
  lines' := lines'
  injective {r r'} h := by
    obtain ⟨i⟩ := r
    obtain ⟨j⟩ := r'
    simp only [Ref.shift] at h
    split at h <;> split at h <;> simp only [Ref.mk.injEq] at h ⊢ <;> omega
  move_zero := if_pos hpos
  move_new r hr := by rw [Ref.shift, if_neg (Nat.not_lt.2 hr)]
  good_new _ hr := .inr hr
  kept_new _ _ := rfl
  private_of_hidden _ h := by cases h
  open_names _ _ := rfl

variable {s t : Store} {hpos : 0 < s.size} {roots : List Value} {gap : Nat} {tracing : Bool} {lines lines' : Array String}

theorem value_renewal {v : Value} (h : s.Holds v) : (renewal s hpos roots gap tracing lines lines').value v = v := by
  cases v with
  | ref r => exact congrArg Value.ref (if_pos h)
  | float d =>
    have hmove : Ref.shift s.size gap ⟨d.tag⟩ = ⟨d.tag⟩ := if_pos h
    simp only [Pairing.value, Pairing.double, renewal, hmove]
  | _ => rfl

theorem paired_renewal (hs : s.Sound) (hroots : ∀ v ∈ roots, s.Holds v) (hpreserves : s.Preserves roots t)
    (hsize : t.size = s.size + gap) : (renewal s hpos roots gap tracing lines lines').Paired s t where
  get?_move r hr := by
    rcases hr with hr | hr
    · have hmove : (renewal s hpos roots gap tracing lines lines').move r = r := if_pos (hr.index_lt hs hroots)
      rw [hmove, hpreserves r hr]
      cases hc : s.get? r with
      | none => rfl
      | some c =>
        have hcell : (renewal s hpos roots gap tracing lines lines').cell r c = c := by
          refine Pairing.cell_of_fixed (fun v hv => value_renewal (hs.holds hc v hv)) ?_
          cases c <;> simp [Cell.attributesOf, renewal]
        rw [Option.map_some, hcell]
    · have hmove := (renewal s hpos roots gap tracing lines lines').move_new r hr
      have hnone : s.get? r = none := Array.getElem?_eq_none hr
      rw [hnone]
      refine Array.getElem?_eq_none ?_
      change t.size ≤ _
      rw [hmove, hsize]
      exact Nat.add_le_add_right hr gap
  closed r c hr hc v hv := by
    rcases hr with hr | hr
    · rintro r' rfl
      exact .inl (.inside hr hc hv)
    · exact absurd (Store.index_lt_of_get? hc) (Nat.not_lt.2 hr)
  kept r c _ _ := by cases c <;> simp [Cell.attributesOf, renewal]
  base := Nat.le_refl _
  size := hsize

theorem within_renewal {v : Value} (h : v ∈ roots) : v.Within (renewal s hpos roots gap tracing lines lines').good := by
  rintro r rfl
  exact .inl (.root h)

end Renewal

section Invocations

variable {f : Value} {a b : List Value} {fuel fuel₀ : Nat} {st st₁ : State}

/-- Two states in which the same can be reached from a function and its arguments. -/
theorem outcomes_renewal (hpos : 0 < st.store.size) {gap : Nat} (hs : st.store.Sound) (hroots : ∀ v ∈ f :: a, st.store.Holds v)
    (hpreserves : st.store.Preserves (f :: a) st₁.store) (hsize : st₁.store.size = st.store.size + gap)
    (htracing : st₁.tracing = st.tracing) :
    (renewal st.store hpos (f :: a) gap st.tracing st.trace st₁.trace).Outcomes
      (renewal st.store hpos (f :: a) gap st.tracing st.trace st₁.trace).Val
      (apply fuel f a none st) (apply fuel f a none st₁) := by
  have happly := (@Pairing.mirrors_run (renewal st.store hpos (f :: a) gap st.tracing st.trace st₁.trace) fuel).2.2.2 f a none
    (within_renewal List.mem_cons_self) (fun u hu => within_renewal (List.mem_cons_of_mem _ hu)) (by simp)
  rw [List.forall_mem_cons] at hroots
  have hargs : a.map (renewal st.store hpos (f :: a) gap st.tracing st.trace st₁.trace).value = a :=
    Pairing.map_of_fixed fun v hv => value_renewal (hroots.2 v hv)
  rw [value_renewal hroots.1, hargs] at happly
  refine happly st st₁ ⟨paired_renewal hs (List.forall_mem_cons.2 hroots) hpreserves hsize, rfl, htracing, #[], ?_, ?_⟩
  · exact Array.append_empty.symm
  · exact Array.append_empty.symm

/-- An invocation adds objects and takes none away, and leaves tracing on or off. -/
theorem size_le_of_apply (hpos : 0 < st.store.size) (hs : st.store.Sound) (hroots : ∀ v ∈ f :: b, st.store.Holds v)
    (hrun : (apply fuel f b none st).state? = some st₁) :
    st.store.size ≤ st₁.store.size ∧ st₁.tracing = st.tracing := by
  have hout := @outcomes_renewal f b fuel st st hpos 0 hs hroots (fun _ _ => rfl) rfl rfl
  generalize apply fuel f b none st = out at hout hrun
  cases hout with
  | value _ hst | raised _ hst =>
    cases hrun
    exact ⟨hst.store.base, hst.tracing⟩
  | exhausted => cases hrun

/-- An invocation that changes nothing that can be reached from a function, from its arguments or from those of a second
invocation is not noticed by the latter: that ends as it does without the first one, up to the addresses of new objects. -/
theorem invocations_apart (hs : st.store.Sound) (hf : st.store.isClosure f = true) (ha : ∀ v ∈ a, st.store.Holds v)
    (hb : ∀ v ∈ b, st.store.Holds v) (hrun : (apply fuel₀ f b none st).state? = some st₁)
    (hpreserves : st.store.Preserves (f :: (a ++ b)) st₁.store) :
    Outcome.Renames st.store (f :: a) (st₁.store.size - st.store.size) (apply fuel f a none st) (apply fuel f a none st₁) := by
  have hholds : st.store.Holds f := by
    cases f with
    | ref r =>
      cases hc : st.store.get? r with
      | none => simp [Store.isClosure, Store.cell?, hc] at hf
      | some c => exact Store.index_lt_of_get? hc
    | _ => trivial
  have hpos : 0 < st.store.size := by
    cases f with
    | ref r => exact Nat.lt_of_le_of_lt (Nat.zero_le _) hholds
    | _ => cases hf
  have hpreserves' : st.store.Preserves (f :: a) st₁.store :=
    fun r hr => hpreserves r (hr.mono (List.cons_subset_cons f (List.subset_append_left a b)))
  obtain ⟨hle, htracing⟩ := size_le_of_apply hpos hs (List.forall_mem_cons.2 ⟨hholds, hb⟩) hrun
  have hsize : st₁.store.size = st.store.size + (st₁.store.size - st.store.size) := (Nat.add_sub_cancel' hle).symm
  exact ⟨renewal st.store hpos (f :: a) _ st.tracing st.trace st₁.trace, fun _ => Iff.rfl, fun _ => rfl, fun _ => rfl,
    outcomes_renewal hpos hs (List.forall_mem_cons.2 ⟨hholds, ha⟩) hpreserves' hsize htracing⟩

/-- A function (object 8) with parameters and a body, made in a context (object 5) whose object and variables are empty.
Further objects come after. -/
def oneFunction (params body : List Value) (further : List Cell) : State where
  store := ⟨⟨.list [] .plain :: .engine (.ref ⟨0⟩) [] :: .dict [] :: .dict [] :: .scope (.ref ⟨3⟩) .null ::
    .context ⟨.ref ⟨2⟩, .ref ⟨4⟩, .null⟩ [] :: .list params .plain :: .list body .plain ::
    .closure ⟨.ref ⟨6⟩, .ref ⟨7⟩, .ref ⟨5⟩, .ref ⟨1⟩⟩ [] :: further⟩⟩
  tracing := false
  trace := #[]

/-- A function that keeps its argument in a variable of its own and gives it back. -/
def keepsArgument : State :=
  oneFunction [.text "x"] [.ref ⟨9⟩, .ref ⟨11⟩]
    [.list [.text "set", .text "local", .ref ⟨10⟩] .plain, .list [.text "get", .text "x"] .plain,
      .list [.text "get", .text "local"] .plain]

/-- The state after applying the function. -/
def State.afterApply (st : State) (args : List Value) : State := ((apply 9 (.ref ⟨8⟩) args none st).state?).getD st

theorem state?_afterApply {st : State} {args : List Value} (h : ((apply 9 (.ref ⟨8⟩) args none st).state?).isSome = true) :
    (apply 9 (.ref ⟨8⟩) args none st).state? = some (st.afterApply args) := by
  obtain ⟨st₁, hst₁⟩ := Option.isSome_iff_exists.1 h
  rw [State.afterApply, hst₁]
  rfl

/-- Whether two objects are the same data, with code of scripts and no code of the host. -/
def Cell.agrees : Cell → Cell → Bool
  | .list items flavor, .list items' flavor' => decide (items = items' ∧ flavor = flavor')
  | .dict entries, .dict entries' => decide (entries = entries')
  | .scope bindings parent, .scope bindings' parent' => decide (bindings = bindings' ∧ parent = parent')
  | .closure parts attrs, .closure parts' attrs' => decide (parts = parts' ∧ attrs = attrs')
  | .context ctx attrs, .context ctx' attrs' => decide (ctx = ctx' ∧ attrs = attrs')
  | .engine stack attrs, .engine stack' attrs' => decide (stack = stack' ∧ attrs = attrs')
  | _, _ => false

theorem Cell.eq_of_agrees {c d : Cell} (h : c.agrees d = true) : c = d := by
  cases c <;> cases d <;> simp_all [agrees]

/-- Whether two states have the same data at an address. -/
def State.agreesAt (st st' : State) (r : Ref) : Bool :=
  match st.store.get? r, st'.store.get? r with
  | some c, some d => c.agrees d
  | _, _ => false

theorem State.get?_of_agreesAt {st st' : State} {r : Ref} (h : st.agreesAt st' r = true) :
    st.store.get? r = st'.store.get? r := by
  unfold agreesAt at h
  split at h
  · rename_i hc hd
    rw [hc, hd, Cell.eq_of_agrees h]
  · cases h

/-- Applied to one value and then to another, it gives the second as if it had not been given the first. -/
theorem invocations_apart_local :
    (apply 9 (.ref ⟨8⟩) [.int 1] none keepsArgument).state? = some (keepsArgument.afterApply [.int 1]) ∧
      keepsArgument.store.Preserves [.ref ⟨8⟩, .int 2, .int 1] (keepsArgument.afterApply [.int 1]).store ∧
      Outcome.Renames keepsArgument.store [.ref ⟨8⟩, .int 2]
        ((keepsArgument.afterApply [.int 1]).store.size - keepsArgument.store.size)
        (apply 9 (.ref ⟨8⟩) [.int 2] none keepsArgument)
        (apply 9 (.ref ⟨8⟩) [.int 2] none (keepsArgument.afterApply [.int 1])) := by
  have hs : keepsArgument.store.Sound := by decide
  have hrun : (apply 9 (.ref ⟨8⟩) [.int 1] none keepsArgument).state? = some (keepsArgument.afterApply [.int 1]) :=
    state?_afterApply (by decide +kernel)
  have hsame : ∀ i < keepsArgument.store.size, (keepsArgument.afterApply [.int 1]).agreesAt keepsArgument ⟨i⟩ = true := by
    decide +kernel
  have hpreserves : keepsArgument.store.Preserves [.ref ⟨8⟩, .int 2, .int 1] (keepsArgument.afterApply [.int 1]).store :=
    fun r hr => State.get?_of_agreesAt (hsame r.index (hr.index_lt hs (by decide)))
  exact ⟨hrun, hpreserves, invocations_apart hs (by decide) (by decide) (by decide) hrun hpreserves⟩

/-- A function that adds its argument to a list that is literal data in its body, and gives the first element. -/
def keepsLiteral : State :=
  oneFunction [.text "x"] [.ref ⟨9⟩, .ref ⟨12⟩, .ref ⟨15⟩]
    [.list [.text "set", .text "l", .ref ⟨10⟩] .plain, .list [.text "value", .ref ⟨11⟩] .plain, .list [] .plain,
      .list [.text "call", .text "l.append", .ref ⟨13⟩] .plain, .list [.ref ⟨14⟩] .plain,
      .list [.text "get", .text "x"] .plain, .list [.text "get", .text "l[0]"] .plain]

/-- A function that calls another one and then takes away the list of active calls of the evaluator. -/
def dropsStack : State :=
  oneFunction [] [.ref ⟨9⟩, .ref ⟨12⟩, .ref ⟨13⟩]
    [.list [.text "set", .text "h", .ref ⟨10⟩] .plain, .list [.text "lambda", .ref ⟨11⟩, .ref ⟨11⟩] .plain,
      .list [] .plain, .list [.text "call", .text "h"] .plain,
      .list [.text "set", .text "h.evaluator.call_stack", .null] .plain]

/-- From the context of the function only the object and the variables can be reached. -/
theorem mem_of_reaches_context {params body roots : List Value} {further : List Cell} {r : Ref}
    (h : (oneFunction params body further).store.Reaches roots r) (hroots : ∀ v ∈ roots, ∀ r ∈ v.ref?, r = ⟨5⟩) :
    r ∈ [⟨2⟩, ⟨3⟩, ⟨4⟩, ⟨5⟩] := by
  refine h.mem (fun v hv r hr => ?_) ?_
  · rw [hroots v hv r hr]
    decide
  · simp [oneFunction, Store.get?, Cell.contents, Cell.parts, Entries.parts, Value.ref?]

/-- An invocation can change how the next one ends though it changes nothing that can be reached from the context of the
function or from the arguments: by what it does to a literal in the body, and by what it does to the evaluator. -/
theorem not_invocations_apart :
    (keepsLiteral.store.Preserves [.ref ⟨5⟩, .int 2, .int 1] (keepsLiteral.afterApply [.int 1]).store ∧
      (apply 9 (.ref ⟨8⟩) [.int 2] none keepsLiteral).value? = some (.int 2) ∧
      (apply 9 (.ref ⟨8⟩) [.int 2] none (keepsLiteral.afterApply [.int 1])).value? = some (.int 1)) ∧
    (dropsStack.store.Preserves [.ref ⟨5⟩] (dropsStack.afterApply []).store ∧
      (apply 9 (.ref ⟨8⟩) [] none dropsStack).value? = some .null ∧
      (apply 9 (.ref ⟨8⟩) [] none (dropsStack.afterApply [])).error?.map Raised.kind = some .missingAttribute) := by
  have hliteral : ∀ r ∈ [⟨2⟩, ⟨3⟩, ⟨4⟩, ⟨5⟩], (keepsLiteral.afterApply [.int 1]).agreesAt keepsLiteral r = true := by
    decide +kernel
  have hstack : ∀ r ∈ [⟨2⟩, ⟨3⟩, ⟨4⟩, ⟨5⟩], (dropsStack.afterApply []).agreesAt dropsStack r = true := by decide +kernel
  refine ⟨⟨fun r hr => ?_, by decide +kernel, by decide +kernel⟩, fun r hr => ?_, by decide +kernel, by decide +kernel⟩
  · exact State.get?_of_agreesAt (hliteral r (mem_of_reaches_context hr (by decide)))
  · exact State.get?_of_agreesAt (hstack r (mem_of_reaches_context hr (by decide)))

end Invocations

end ListScript
