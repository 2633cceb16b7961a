import ListScript.Proofs.PairingRun
import ListScript.Proofs.Tasks

/-!
# Private attributes do not show

An attribute of a host object is concealed if its name begins with exactly one underscore; the two such names that the
interpreter asks for itself are left out (`isConcealed`). Two states are told apart up to concealed attributes by their
masks, in which those are null (`State.masked`). A run sees no more of a state than its mask, and leaves all concealed
attributes as they are (`execute_conceals`). The proof pairs each object of the first state with the one of the same
address in the second.

The attribute `_parent` shows once a script makes a host object the parent of a scope (`not_execute_conceals_parent`).
-/

namespace ListScript

/-- Whether attributes of a name are concealed. -/
def isConcealed (name : String) : Bool :=
  name.toList.head? == some '_' && name.toList[1]? != some '_' && name != "_parent" && name != "_script_accepts_this"

/-- Attributes with null in place of what is concealed. -/
def Attributes.masked (attrs : Attributes) : Attributes := attrs.map fun a => if isConcealed a.1 then (a.1, .null) else a

/-- An object with null in place of what is concealed. -/
def Cell.masked : Cell → Cell
  | .function f attrs => .function f attrs.masked
  | .object cls attrs => .object cls attrs.masked
  | c => c

namespace Store

/-- The objects with null in place of what is concealed. -/
def masked (s : Store) : Store := ⟨s.cells.map Cell.masked⟩

/-- The concealed attributes of an object. -/
def concealed (s : Store) (r : Ref) : Attributes := ((s.get? r).map (Cell.attributesOf isConcealed)).getD []

theorem get?_masked (s : Store) (r : Ref) : s.masked.get? r = (s.get? r).map Cell.masked := Array.getElem?_map ..

theorem ext_get? {s s' : Store} (h : ∀ r, s.get? r = s'.get? r) : s = s' := by
  obtain ⟨cells⟩ := s
  obtain ⟨cells'⟩ := s'
  exact congrArg mk (Array.ext_getElem? fun i => h ⟨i⟩)

end Store

/-- A state with null in place of what is concealed. -/
def State.masked (st : State) : State := { st with store := st.store.masked }

/-- The end of a run with null in place of what is concealed. -/
def Outcome.masked {α : Type} : Outcome α → Outcome α
  | .value a st => .value a st.masked
  | .raised e st => .raised e st.masked
  | .exhausted => .exhausted

/-! ## The pairing of two states -/

section Pairing

/-- Each object of a store with the one of the same address in another. -/
def concealing (s s' : Store) (tracing : Bool) (trace : Array String) : Pairing where
  good _ := True
  move r := r
  hidden := isConcealed
  kept := s.concealed
  veil r := (s'.concealed r).map Prod.snd
  base := s.size
  gap := 0
  tracing := tracing
  lines := trace
  lines' := trace
  injective h := h
  move_zero := rfl
  move_new _ _ := rfl
  good_new _ _ := trivial
  kept_new r hr := by
    have hnone : s.get? r = none := Array.getElem?_eq_none hr
    rw [Store.concealed, hnone]
    rfl
  private_of_hidden name h := by
    simp only [isConcealed, Bool.and_eq_true] at h
    exact h.1.1.1
  open_names := by decide

variable {s s' t t' : Store} {tracing : Bool} {trace : Array String}

theorem value_concealing (v : Value) : (concealing s s' tracing trace).value v = v := by cases v <;> rfl

theorem within_concealing (v : Value) : v.Within (concealing s s' tracing trace).good := fun _ _ => trivial

theorem raised_concealing (e : Raised) : (concealing s s' tracing trace).raised e = e := by
  have hframe : (concealing s s' tracing trace).frame = id := funext fun f => by
    simp only [Pairing.frame, value_concealing]
    rfl
  obtain ⟨cause, subject, stack⟩ := e
  simp only [Pairing.raised, hframe, List.map_id_fun, Option.map_id_fun, id]
  cases subject <;> simp only [Pairing.subject, value_concealing]

/-- Attributes that differ in what is concealed only are each other's counterparts. -/
theorem veiled_of_masked {attrs attrs' : Attributes} (h : attrs.masked = attrs'.masked) :
    (concealing s s' tracing trace).veiled ((attrs'.filter fun a => isConcealed a.1).map Prod.snd) attrs = attrs' := by
  induction attrs generalizing attrs' with
  | nil =>
    cases attrs' with
    | nil => rfl
    | cons _ _ => cases h
  | cons a rest ih =>
    obtain ⟨name, v⟩ := a
    cases attrs' with
    | nil => cases h
    | cons a' rest' =>
      obtain ⟨name', v'⟩ := a'
      simp only [Attributes.masked, List.map_cons, List.cons.injEq] at h
      obtain ⟨hhead, htail⟩ := h
      obtain rfl : name = name' := by
        split at hhead <;> split at hhead <;> exact congrArg Prod.fst hhead
      cases hname : isConcealed name with
      | true =>
        have hhidden : (concealing s s' tracing trace).hidden name = true := hname
        simp only [List.filter_cons, hname, if_true, List.map_cons, Pairing.veiled, hhidden, List.head?_cons,
          Option.getD_some, List.tail_cons, ih htail]
      | false =>
        have hhidden : (concealing s s' tracing trace).hidden name = false := hname
        simp only [hname, Bool.false_eq_true, if_false] at hhead
        simp only [List.filter_cons, hname, Bool.false_eq_true, if_false, Pairing.veiled, hhidden, value_concealing, hhead,
          ih htail]

/-- What is not concealed of the counterpart of attributes is what is not concealed of them. -/
theorem masked_veiled (veil : List Value) (attrs : Attributes) :
    ((concealing s s' tracing trace).veiled veil attrs).masked = attrs.masked := by
  induction attrs generalizing veil with
  | nil => rfl
  | cons a rest ih =>
    obtain ⟨name, v⟩ := a
    simp only [Attributes.masked] at ih ⊢
    cases hname : isConcealed name with
    | true =>
      have hhidden : (concealing s s' tracing trace).hidden name = true := hname
      simp only [Pairing.veiled, hhidden, if_true, List.map_cons, hname, ih]
    | false =>
      have hhidden : (concealing s s' tracing trace).hidden name = false := hname
      simp only [Pairing.veiled, hhidden, Bool.false_eq_true, if_false, List.map_cons, hname, value_concealing, ih]

theorem cls_concealing (c : Host.Class) : (concealing s s' tracing trace).cls c = c :=
  Pairing.cls_of_fixed fun v _ => value_concealing v

theorem cell_concealing {r : Ref} {c : Cell} (h : c.attributesOf isConcealed = []) :
    (concealing s s' tracing trace).cell r c = c :=
  Pairing.cell_of_fixed (fun v _ => value_concealing v) h

/-- Objects that differ in what is concealed only are each other's counterparts. -/
theorem cell_of_masked {r : Ref} {c c' : Cell} (hc' : s'.get? r = some c') (h : c.masked = c'.masked) :
    (concealing s s' tracing trace).cell r c = c' := by
  have hveil : (concealing s s' tracing trace).veil r = (c'.attributesOf isConcealed).map Prod.snd := by
    simp [concealing, Store.concealed, hc']
  cases c with
  | function f attrs =>
    cases c' with
    | function f' attrs' =>
      obtain ⟨rfl, hattrs⟩ := Cell.function.inj h
      rw [Pairing.cell, hveil]
      exact congrArg _ (veiled_of_masked hattrs)
    | _ => cases h
  | object cls attrs =>
    cases c' with
    | object cls' attrs' =>
      obtain ⟨rfl, hattrs⟩ := Cell.object.inj h
      rw [Pairing.cell, cls_concealing, hveil]
      exact congrArg _ (veiled_of_masked hattrs)
    | _ => cases h
  | _ =>
    rw [cell_concealing rfl]
    cases c' <;> cases h
    rfl

theorem masked_cell (r : Ref) (c : Cell) : ((concealing s s' tracing trace).cell r c).masked = c.masked := by
  cases c with
  | function f attrs => exact congrArg (Cell.function f) (masked_veiled _ attrs)
  | object cls attrs =>
    rw [Pairing.cell, cls_concealing]
    exact congrArg (Cell.object cls) (masked_veiled _ attrs)
  | _ => rw [cell_concealing rfl]

/-- Two stores with the same mask are paired. -/
theorem paired_of_masked (h : s.masked = s'.masked) : (concealing s s' tracing trace).Paired s s' where
  get?_move r _ := by
    have hcell : (s.get? r).map Cell.masked = (s'.get? r).map Cell.masked := by
      rw [← Store.get?_masked, h, Store.get?_masked]
    cases hc : s.get? r <;> cases hc' : s'.get? r <;> rw [hc, hc'] at hcell
    · exact hc'
    · cases hcell
    · cases hcell
    · exact hc'.trans (congrArg some (cell_of_masked hc' (Option.some.inj hcell)).symm)
  closed _ _ _ _ v _ := within_concealing v
  kept r c _ hc := by simp [concealing, Store.concealed, hc]
  base := Nat.le_refl _
  size := by
    have hsize : s.masked.size = s'.masked.size := congrArg Store.size h
    simp only [Store.masked, Store.size, Array.size_map] at hsize
    exact hsize.symm

/-- Two stores that are paired have the same mask. -/
theorem masked_of_paired (h : (concealing s s' tracing trace).Paired t t') : t.masked = t'.masked := by
  refine Store.ext_get? fun r => ?_
  have hmove : t'.get? r = (t.get? r).map ((concealing s s' tracing trace).cell r) := h.get?_move r trivial
  rw [Store.get?_masked, Store.get?_masked, hmove, Option.map_map]
  exact congrArg (Option.map · _) (funext fun c => (masked_cell r c).symm)

/-- What is concealed in a paired store is what was at the start. -/
theorem concealed_of_paired (h : (concealing s s' tracing trace).Paired t t') (r : Ref) : t.concealed r = s.concealed r := by
  unfold Store.concealed
  cases hc : t.get? r with
  | some c =>
    have hkept := h.kept r c trivial hc
    exact hkept
  | none =>
    have hle : t.size ≤ r.index := Array.getElem?_eq_none_iff.1 hc
    have hnone : s.get? r = none := Array.getElem?_eq_none (Nat.le_trans h.base hle)
    rw [hnone]

end Pairing

/-! ## Runs -/

section Runs

variable {st st' : State}

theorem states_of_masked (h : st.masked = st'.masked) : (concealing st.store st'.store st.tracing st.trace).States st st' where
  store := paired_of_masked (congrArg State.store h)
  tracing := rfl
  tracing' := (congrArg State.tracing h).symm
  lines := ⟨#[], (Array.append_empty).symm, (congrArg State.trace h).symm.trans (Array.append_empty).symm⟩

theorem masked_of_states {s s' : Store} {tracing : Bool} {trace : Array String} (h : (concealing s s' tracing trace).States st st') :
    st.masked = st'.masked := by
  obtain ⟨lines, hlines, hlines'⟩ := h.lines
  simp only [State.masked, masked_of_paired h.store, h.tracing, h.tracing', hlines, hlines']
  rfl

variable (st st') in
theorem outcomes_execute (fuel : Nat) (engine : Ref) (script this vars : Value) (h : st.masked = st'.masked) :
    (concealing st.store st'.store st.tracing st.trace).Outcomes (concealing st.store st'.store st.tracing st.trace).Val
      (execute fuel engine script this vars st) (execute fuel engine script this vars st') := by
  have hrun := @Pairing.mirrors_execute (concealing st.store st'.store st.tracing st.trace) engine fuel script this vars trivial
    (within_concealing _) (within_concealing _) (within_concealing _)
  simp only [value_concealing] at hrun
  exact hrun st st' (states_of_masked h)

/-- A run on one of two states with the same mask leaves what is concealed as it was. -/
theorem concealed_execute (fuel : Nat) (engine : Ref) (script this vars : Value) (h : st.masked = st'.masked) {st₁ : State}
    (hrun : (execute fuel engine script this vars st).state? = some st₁) (r : Ref) :
    st₁.store.concealed r = st.store.concealed r := by
  have hout := outcomes_execute st st' fuel engine script this vars h
  generalize execute fuel engine script this vars st = out at hout hrun
  generalize execute fuel engine script this vars st' = out' at hout
  cases hout with
  | value _ hst | raised _ hst =>
    cases hrun
    exact concealed_of_paired hst.store r
  | exhausted => cases hrun

/-- A run shows nothing of what is concealed: from two states that differ in that only it ends in the same way, in states
that again differ in that only, and what is concealed in each of them is what was at the start. -/
theorem execute_conceals (fuel : Nat) (engine : Ref) (script this vars : Value) (st st' : State)
    (h : st.masked = st'.masked) :
    (execute fuel engine script this vars st).masked = (execute fuel engine script this vars st').masked ∧
      (∀ st₁, (execute fuel engine script this vars st).state? = some st₁ →
        ∀ r, st₁.store.concealed r = st.store.concealed r) ∧
      ∀ st₁, (execute fuel engine script this vars st').state? = some st₁ →
        ∀ r, st₁.store.concealed r = st'.store.concealed r := by
  refine ⟨?_, fun st₁ hrun => concealed_execute fuel engine script this vars h hrun,
    fun st₁ hrun => concealed_execute fuel engine script this vars h.symm hrun⟩
  have hout := outcomes_execute st st' fuel engine script this vars h
  generalize execute fuel engine script this vars st = out at hout ⊢
  generalize execute fuel engine script this vars st' = out' at hout ⊢
  cases hout with
  | value hv hst =>
    obtain ⟨rfl, -⟩ := hv
    rw [value_concealing, Outcome.masked, Outcome.masked, masked_of_states hst]
  | raised he hst =>
    obtain ⟨rfl, -⟩ := he
    rw [raised_concealing, Outcome.masked, Outcome.masked, masked_of_states hst]
  | exhausted => rfl

/-- A host object with a concealed attribute, and a script that copies the attribute to one that is not. -/
def secretHolder (secret : Value) : State where
  store := ⟨#[.list [] .plain, .engine (.ref ⟨0⟩) [], .object .plain [("_secret", secret)],
    .list [.text "set", .text "this.shown", .ref ⟨4⟩] .plain, .list [.text "get", .text "this._secret"] .plain]⟩
  tracing := false
  trace := #[]

/-- The copy does not depend on the attribute, which stays what it was. -/
theorem execute_conceals_secret :
    (secretHolder (.int 1)).masked = (secretHolder (.int 2)).masked ∧
      (execute 4 ⟨1⟩ (.ref ⟨3⟩) (.ref ⟨2⟩) .null (secretHolder (.int 1))).masked =
        (execute 4 ⟨1⟩ (.ref ⟨3⟩) (.ref ⟨2⟩) .null (secretHolder (.int 2))).masked ∧
      ∃ st, (execute 4 ⟨1⟩ (.ref ⟨3⟩) (.ref ⟨2⟩) .null (secretHolder (.int 2))).state? = some st ∧
        st.store.concealed ⟨2⟩ = [("_secret", .int 2)] := by
  have hmasked : (secretHolder (.int 1)).masked = (secretHolder (.int 2)).masked := by
    simp [secretHolder, State.masked, Store.masked, Cell.masked, Attributes.masked, isConcealed]
  obtain ⟨hsame, -, hkept⟩ := execute_conceals 4 ⟨1⟩ (.ref ⟨3⟩) (.ref ⟨2⟩) .null _ _ hmasked
  refine ⟨hmasked, hsame, ?_⟩
  have hends : (execute 4 ⟨1⟩ (.ref ⟨3⟩) (.ref ⟨2⟩) .null (secretHolder (.int 2))).state?.isSome = true := by decide +kernel
  obtain ⟨st, hst⟩ := Option.isSome_iff_exists.1 hends
  exact ⟨st, hst, hkept st hst ⟨2⟩⟩

/-- A host object that looks like a scope, and a script that gives it to a function as its variables and then calls the
function, which asks for a name. -/
def scopeLike (parent : Value) : State where
  store := ⟨#[.list [] .plain, .engine (.ref ⟨0⟩) [], .dict [], .object .plain [("bindings", .ref ⟨2⟩), ("_parent", parent)],
    .list [.ref ⟨5⟩, .ref ⟨6⟩, .ref ⟨7⟩] .plain, .list [.text "set", .text "f", .ref ⟨8⟩] .plain,
    .list [.text "set", .text "f.closure.variables", .ref ⟨9⟩] .plain, .list [.text "call", .text "f"] .plain,
    .list [.text "lambda", .ref ⟨10⟩, .ref ⟨11⟩] .plain, .list [.text "get", .text "this"] .plain, .list [] .plain,
    .list [.text "get", .text "x"] .plain]⟩
  tracing := false
  trace := #[]

/-- In a chain of scopes the attribute `_parent` of a host object is looked up, and shows. -/
theorem not_execute_conceals_parent :
    (execute 9 ⟨1⟩ (.ref ⟨4⟩) (.ref ⟨3⟩) .null (scopeLike .null)).value? = some .null ∧
      (execute 9 ⟨1⟩ (.ref ⟨4⟩) (.ref ⟨3⟩) .null (scopeLike (.int 5))).error?.map Raised.kind = some .missingAttribute := by
  decide +kernel

end Runs

end ListScript
