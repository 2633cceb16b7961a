import Mathlib.Logic.Relation
import ListScript.Proofs.Inside
import ListScript.Proofs.Parts
import ListScript.Proofs.Plain

/-!
# Values that have a text

Printing goes down through the values inside a value and can fail in three ways: at an integer with too many digits, at
a scope with a key that is not a text, and at a script function whose parameters cannot be gone through. `isLegible`
rules them out at one value, `textParts` are the values that printing goes on to, and a value is `Printable` when the
descent is legible throughout and ends. Such a value has both of its texts (`Printable.print`, `Printable.inspect`):
a descent without cycles meets each object once, so that the bound on the depth is never reached.
-/

namespace ListScript

namespace Store

variable (s : Store)

/-- The values whose texts go into the text of a value. -/
def textParts (v : Value) : List Value :=
  match s.cell? v with
  | some (.list items _) | some (.tuple items) => items
  | some (.dict entries) | some (.frozen entries) => entries.parts
  | some (.raw payload) => [payload]
  | some (.closure f _) => (s.elements f.params).toOption.getD [] ++ [f.body]
  | some (.context ctx _) => [ctx.this, ctx.scope, ctx.last]
  | some (.method self _) => [self]
  | _ => []

/-- Whether a value itself leaves its text alone, whatever is inside it. -/
def isLegible (v : Value) : Bool :=
  match v, s.cell? v with
  | .int n, _ => hasIntegerText n
  | _, some (.scope bindings _) => (Entries.keys ((s.mapping? bindings).getD [])).all Value.isText
  | _, some (.closure f _) => (s.elements f.params).isOk
  | _, _ => true

/-- A value is printable if it is legible and all the values that its text is made of are printable. -/
inductive Printable : Value → Prop
  | intro {v : Value} : s.isLegible v = true → (∀ w ∈ s.textParts v, Printable w) → Printable v

/-- The text of the second value goes into that of the first. -/
def Shows (v w : Value) : Prop := w ∈ s.textParts v

end Store

namespace Store

variable {s : Store}

/-! ## Texts from the texts of the parts -/

section Parts

variable {shown : Int → Value → Except Raised String} {inspected printed : Value → Except Raised String}

theorem succeeds_textsFrom {keys : List Value} (h : keys.all Value.isText = true) (position : Nat) :
    Succeeds (s.textsFrom position keys) := by
  induction keys generalizing position with
  | nil => exact succeeds_ok _
  | cons key rest ih =>
    rw [List.all_cons, Bool.and_eq_true] at h
    cases key with
    | str t flavor => exact (ih h.2 (position + 1)).map _
    | _ => cases h.1

theorem succeeds_printList {items : List Value} (width level : Int)
    (h : ∀ level, ∀ w ∈ items, Succeeds (shown level w)) : Succeeds (s.printList width level shown items) := by
  unfold printList
  split
  · exact (succeeds_mapM (h _)).bind fun _ _ => succeeds_ok _
  · exact (succeeds_mapM (h _)).bind fun _ _ => succeeds_ok _

theorem succeeds_printClosure {f : Closure} {params : List Value} (width level : Int)
    (hparams : s.elements f.params = .ok params) (h : ∀ level, ∀ w ∈ params ++ [f.body], Succeeds (shown level w)) :
    Succeeds (s.printClosure width level shown f) := by
  unfold printClosure
  rw [hparams]
  refine (succeeds_printList width level fun level w hw => h level w (List.mem_append_left _ hw)).bind fun _ _ => ?_
  exact (h level f.body (by simp)).bind fun _ _ => succeeds_ok _

theorem succeeds_inspectItems {items : List Value} (h : ∀ w ∈ items, Succeeds (inspected w)) :
    Succeeds (inspectItems inspected items) :=
  (succeeds_mapM h).map _

theorem Entries.succeeds_entry {entries : Entries} (h : ∀ w ∈ entries.parts, Succeeds (inspected w))
    {e : Value × Value} (he : e ∈ entries) : Succeeds (inspected e.1) ∧ Succeeds (inspected e.2) := by
  have hmem : ∀ w ∈ [e.1, e.2], w ∈ entries.parts := fun w hw => List.mem_flatMap.2 ⟨e, he, hw⟩
  exact ⟨h _ (hmem _ (by simp)), h _ (hmem _ (by simp))⟩

theorem succeeds_inspectEntries {entries : Entries} (h : ∀ w ∈ entries.parts, Succeeds (inspected w)) :
    Succeeds (inspectEntries inspected entries) := by
  refine (succeeds_mapM fun e he => ?_).bind fun _ _ => succeeds_ok _
  obtain ⟨hkey, hvalue⟩ := Entries.succeeds_entry h he
  exact hkey.bind fun _ _ => hvalue.bind fun _ _ => succeeds_ok _

theorem succeeds_textWith {v : Value} (h : Succeeds (inspected v)) : Succeeds (s.textWith inspected v) := by
  unfold textWith
  split
  · exact succeeds_ok _
  · exact succeeds_ok _
  · exact h

theorem succeeds_printEntries {entries : Entries} (h : ∀ w ∈ entries.parts, Succeeds (inspected w))
    (h' : ∀ w ∈ entries.parts, Succeeds (printed w)) : Succeeds (s.printEntries inspected printed entries) := by
  refine (succeeds_mapM fun e he => ?_).bind fun _ _ => succeeds_ok _
  have hkey := (Entries.succeeds_entry h he).1
  have hvalue := (Entries.succeeds_entry h' he).2
  exact (succeeds_textWith hkey).bind fun _ _ => hvalue.bind fun _ _ => succeeds_ok _

theorem succeeds_inspectContext {ctx : Context} (h : ∀ w ∈ [ctx.this, ctx.scope, ctx.last], Succeeds (inspected w)) :
    Succeeds (inspectContext inspected ctx) := by
  refine (h _ (by simp)).bind fun _ _ => (h ctx.scope (by simp)).bind fun _ _ => ?_
  exact (h ctx.last (by simp)).bind fun _ _ => succeeds_ok _

end Parts

/-! ## One level -/

/-- The two texts of a value exist, given `fuel` levels of nesting. -/
def TextsWithin (s : Store) (fuel : Nat) (v : Value) : Prop :=
  Succeeds (s.inspectWithin fuel v) ∧ ∀ width level, Succeeds (s.printWithin fuel width level v)

theorem succeeds_printInteger {n : Int} (h : hasIntegerText n = true) : Succeeds (printInteger n) := by
  simp [printInteger, h, succeeds_ok]

theorem elements_of_isLegible {v : Value} {f : Closure} {attrs : Attributes} (hc : s.cell? v = some (.closure f attrs))
    (h : s.isLegible v = true) : ∃ params, s.elements f.params = .ok params := by
  cases v with
  | ref r =>
    simp only [isLegible, hc] at h
    cases hparams : s.elements f.params with
    | ok params => exact ⟨params, rfl⟩
    | error e => rw [hparams] at h; cases h
  | _ => cases hc

/-- A legible value has its texts one level above those of its parts. -/
theorem textsWithin_succ {fuel : Nat} {v : Value} (h : s.isLegible v = true)
    (hparts : ∀ w ∈ s.textParts v, s.TextsWithin fuel w) : s.TextsWithin (fuel + 1) v := by
  have hi : ∀ w ∈ s.textParts v, Succeeds (s.inspectWithin fuel w) := fun w hw => (hparts w hw).1
  have hp : ∀ width level, ∀ w ∈ s.textParts v, Succeeds (s.printWithin fuel width level w) :=
    fun width level w hw => (hparts w hw).2 width level
  cases v with
  | int n => exact ⟨succeeds_printInteger h, fun _ _ => succeeds_printInteger h⟩
  | ref r =>
    unfold TextsWithin
    simp only [inspectWithin, printWithin]
    cases hc : s.get? r with
    | none => exact ⟨succeeds_ok _, fun _ _ => succeeds_ok _⟩
    | some c =>
      have hcell : s.cell? (.ref r) = some c := hc
      simp only [textParts, hcell] at hi hp
      cases c with
      | list items flavor =>
        exact ⟨(succeeds_inspectItems hi).map _, fun width level => succeeds_printList width level (hp width)⟩
      | tuple items =>
        exact ⟨(succeeds_inspectItems hi).map _, fun width level => succeeds_printList width level (hp width)⟩
      | dict entries =>
        exact ⟨succeeds_inspectEntries hi, fun width level => succeeds_printEntries hi (hp width level)⟩
      | frozen entries =>
        exact ⟨(succeeds_inspectEntries hi).map _, fun width level => succeeds_printEntries hi (hp width level)⟩
      | raw payload =>
        exact ⟨(hi payload (by simp)).map _, fun width level => (hp width level payload (by simp)).map _⟩
      | scope bindings parent =>
        simp only [isLegible, hcell] at h
        have hkeys : Succeeds (s.joinedKeys bindings) := (succeeds_textsFrom h 0).map _
        exact ⟨hkeys.map _, fun _ _ => hkeys.map _⟩
      | closure f attrs =>
        obtain ⟨params, hparams⟩ := elements_of_isLegible hcell h
        simp only [hparams, Except.toOption, Option.getD_some] at hp
        exact ⟨succeeds_printClosure _ _ hparams (hp _), fun width level => succeeds_printClosure _ _ hparams (hp width)⟩
      | context ctx attrs => exact ⟨succeeds_inspectContext hi, fun _ _ => succeeds_inspectContext hi⟩
      | method self m =>
        refine ⟨?_, fun _ _ => succeeds_ok _⟩
        change Succeeds (if m.isBuiltIn then _ else _)
        split
        · exact succeeds_ok _
        · exact (hi self (by simp)).map _
      | _ => exact ⟨succeeds_ok _, fun _ _ => succeeds_ok _⟩
  | _ => exact ⟨succeeds_ok _, fun _ _ => succeeds_ok _⟩

/-! ## The whole descent -/

open Relation

theorem fault_boxFrom {items : List (Int × Value)} (left i : Nat) : (boxFrom items left i).fault ≠ none := by
  induction left generalizing i with
  | zero => simp [boxFrom, Traversal.failing]
  | succ left ih =>
    unfold boxFrom
    split
    · exact ih (i + 1)
    · simp [Traversal.failing]

theorem fault_scopeFrom {scope : Value} (fuel i : Nat) : (s.scopeFrom scope fuel i).fault ≠ none := by
  induction fuel generalizing i with
  | zero => simp [scopeFrom, Traversal.failing]
  | succ fuel ih =>
    unfold scopeFrom
    split
    · exact ih (i + 1)
    · simp [Traversal.failing]
    · simp [Traversal.failing]

/-- The text of a printable value does not go into itself. -/
theorem Printable.irrefl {v : Value} (h : s.Printable v) : ¬ TransGen s.Shows v v := by
  induction h with
  | @intro v _ _ ih =>
    intro hcycle
    obtain ⟨w, hvw, hwv⟩ := TransGen.head'_iff.1 hcycle
    exact ih w hvw (TransGen.tail' hwv hvw)

/-- The elements that a script function takes its parameters from are inside it. -/
theorem elements_subset_inner {v : Value} {items : List Value} (h : s.elements v = .ok items) {r : Ref}
    (hr : .ref r ∈ items) : ∃ c, s.cell? v = some c ∧ .ref r ∈ c.inner := by
  have hsized : s.elements? v = some items := by
    unfold elements traverse traverse? at h
    cases hitems : s.elements? v with
    | some found =>
      rw [hitems] at h
      exact congrArg some (Except.ok.inj h)
    | none =>
      -- a scope or a box is gone through until an item is missing
      exfalso
      rw [hitems] at h
      dsimp only at h
      split at h
      · rename_i t ht
        have hfault : t.fault ≠ none := by
          split at ht
          · cases ht
            exact fault_scopeFrom _ _
          · cases ht
            exact fault_boxFrom _ _
          · cases ht
        change t.result = _ at h
        unfold Traversal.result at h
        split at h
        · rename_i hnone
          exact hfault hnone
        · cases h
      · cases h
  unfold elements? at hsized
  split at hsized
  · cases hsized
    obtain ⟨_, _, hc⟩ := List.mem_map.1 hr
    cases hc
  · cases hsized
    obtain ⟨_, _, hc⟩ := List.mem_map.1 hr
    cases hc
  · split at hsized <;> cases hsized <;> refine ⟨_, ‹_›, ?_⟩
    · exact hr
    · exact hr
    · exact Entries.mem_of_mem_keys hr
    · exact Entries.mem_of_mem_keys hr
  · cases hsized

/-- Printing does not leave the objects inside a value. -/
theorem mem_inside_of_shows {v : Value} {r r' : Ref} (h : r ∈ s.inside v) (hshows : s.Shows (.ref r) (.ref r'))
    (hr' : s.has r' = true) : r' ∈ s.inside v := by
  unfold Shows textParts at hshows
  cases hc : s.cell? (.ref r) with
  | none => rw [hc] at hshows; cases hshows
  | some c =>
    rw [hc] at hshows
    have hget : s.get? r = some c := hc
    cases c with
    | closure f attrs =>
      rcases List.mem_append.1 hshows with hshows | hshows
      · cases helements : s.elements f.params with
        | error e => rw [helements] at hshows; cases hshows
        | ok items =>
          rw [helements] at hshows
          obtain ⟨d, hd, hmem⟩ := elements_subset_inner helements hshows
          cases hparams : f.params with
          | ref p =>
            rw [hparams] at hd
            have hp : s.has p = true := decide_eq_true (Array.getElem?_eq_some_iff.1 hd).1
            refine mem_inside_of_inner (mem_inside_of_inner h hget ?_ hp) hd hmem hr'
            simp [Cell.inner, hparams]
          | _ => rw [hparams] at hd; cases hd
      · refine mem_inside_of_inner h hget ?_ hr'
        rw [List.mem_singleton] at hshows
        simp [Cell.inner, ← hshows]
    | list | tuple | dict | frozen | raw | context | method => exact mem_inside_of_inner h hget hshows hr'
    | _ => cases hshows

/-- The descent into a printable value. A property that a legible value has at a level if its parts have it one level
below holds of a printable value within as many levels as there are objects that the descent has not met, and one more.
The invariant is the trail of the objects met so far, each of which shows the value at hand. -/
theorem Printable.descend {P : Nat → Value → Prop}
    (hstep : ∀ {fuel : Nat} {v : Value}, s.isLegible v = true → (∀ w ∈ s.textParts v, P fuel w) → P (fuel + 1) v)
    {v : Value} (h : s.Printable v) {whole : Value} : ∀ {trail : List Ref} {fuel : Nat},
    trail.Nodup → (∀ r ∈ trail, r ∈ s.inside whole ∧ TransGen s.Shows (.ref r) v) →
    (∀ r, v = .ref r → s.has r = true → r ∈ s.inside whole) → s.extent whole < fuel + trail.length → P fuel v := by
  induction h with
  | @intro v hlegible hparts ih =>
    intro trail fuel hnodup htrail hinside hfuel
    have hlength : trail.length ≤ s.extent whole :=
      (List.Nodup.subperm hnodup fun r hr => (htrail r hr).1).length_le
    obtain ⟨fuel, rfl⟩ : ∃ n, fuel = n + 1 := ⟨fuel - 1, by omega⟩
    refine hstep hlegible fun w hw => ?_
    cases v with
    | ref r =>
      cases hc : s.get? r with
      | none => simp [textParts, cell?, hc] at hw
      | some c =>
        have hnew : r ∉ trail := fun hr => Printable.irrefl ⟨hlegible, hparts⟩ (htrail r hr).2
        have hr : r ∈ s.inside whole := hinside r rfl (decide_eq_true (Array.getElem?_eq_some_iff.1 hc).1)
        refine ih w hw (List.nodup_cons.2 ⟨hnew, hnodup⟩) ?_ ?_ (by simp only [List.length_cons]; omega)
        · intro r' hr'
          rcases List.mem_cons.1 hr' with rfl | hr'
          · exact ⟨hr, .single hw⟩
          · exact ⟨(htrail r' hr').1, (htrail r' hr').2.tail hw⟩
        · rintro r' rfl hr'
          exact mem_inside_of_shows hr hw hr'
    | _ => cases hw

/-- A property that passes from the parts of a legible value to the value holds of a printable value, given more levels
than there are objects inside. -/
theorem Printable.of_extent_lt {P : Nat → Value → Prop}
    (hstep : ∀ {fuel : Nat} {v : Value}, s.isLegible v = true → (∀ w ∈ s.textParts v, P fuel w) → P (fuel + 1) v)
    {v : Value} (h : s.Printable v) {fuel : Nat} (hfuel : s.extent v < fuel) : P fuel v := by
  refine @Printable.descend s P hstep v h v [] fuel List.nodup_nil (by simp) ?_ (by simpa using hfuel)
  rintro r rfl hr
  exact mem_inside_self hr

theorem Printable.texts {v : Value} (h : s.Printable v) : s.TextsWithin (s.depthBound v) v :=
  @Printable.of_extent_lt s (fun fuel v => s.TextsWithin fuel v) textsWithin_succ v h _ (by simp [depthBound])

theorem Printable.inspect {v : Value} (h : s.Printable v) : Succeeds (s.inspect v) := h.texts.1

theorem Printable.print {v : Value} (h : s.Printable v) : Succeeds (s.print v) := h.texts.2 _ _

theorem Printable.plainText {v : Value} (h : s.Printable v) : Succeeds (s.plainText v) := succeeds_textWith h.inspect

end Store

end ListScript
