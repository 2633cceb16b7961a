import ListScript.Proofs.Lineage
import ListScript.Proofs.Ward

/-!
# Evaluators that nothing is done to

A script that gets hold of the evaluator, by way of a function that it makes, can put something else in place of its
methods. It has to come by the evaluator on a path for that: if no path of a run does, the evaluator has the same
attributes wherever the run comes to (`Store.HasAttributes.of_reaches`). So an evaluator that does all itself when the run
starts goes on to do so (`selves_of_reaches`). And on an evaluator that runs its scripts itself throughout, a run without
calls stays (`Moment.onEngine_of_reaches`).
-/

namespace ListScript

open Effect

/-- An evaluator with its attributes, whatever its list of active calls. -/
def Store.HasAttributes (s : Store) (engine : Ref) (attrs : Attributes) : Prop :=
  ∃ stack, s.get? engine = some (.engine stack attrs)

/-- The paths of a moment do not lead to any part of an evaluator. -/
def Moment.Avoids (engine : Ref) (m : Moment) : Prop := ∀ u ∈ m.visits, u.container ≠ .ref engine

/-- Whether the paths of a moment lead to some part of an evaluator can be tested. -/
theorem Moment.avoids_of_all {engine : Ref} {m : Moment}
    (h : (m.visits.all fun u => u.container != .ref engine) = true) : m.Avoids engine := by
  intro u hu
  simpa using List.all_eq_true.1 h u hu

namespace Store.HasAttributes

variable {s : Store} {engine : Ref} {attrs : Attributes}

theorem hiddenAttribute?_eq (h : s.HasAttributes engine attrs) {name : String} (hname : name ≠ "call_stack") :
    s.hiddenAttribute? (.ref engine) name = attrs.lookup name := by
  obtain ⟨stack, hc⟩ := h
  rw [hiddenAttribute?, cell?, hc]
  simp [storedAttribute?, hname]

theorem runsItself_iff (h : s.HasAttributes engine attrs) :
    s.RunsItself engine ↔ attrs.lookup Host.Method.evaluate.label = none := by
  rw [RunsItself, h.hiddenAttribute?_eq (by decide)]

theorem callsItself_iff (h : s.HasAttributes engine attrs) :
    s.CallsItself engine ↔ attrs.lookup Host.Method.invoke.label = none := by
  rw [CallsItself, h.hiddenAttribute?_eq (by decide)]

theorem alloc (h : s.HasAttributes engine attrs) (c : Cell) : (s.alloc c).2.HasAttributes engine attrs := by
  obtain ⟨stack, hc⟩ := h
  exact ⟨stack, by rw [get?_alloc_lt c (index_lt_of_get? hc), hc]⟩

end Store.HasAttributes

/-- An evaluator keeps its attributes under writes that do not come by it. -/
def Ward.steady (engine : Ref) (attrs : Attributes) : Ward where
  inv s := s.HasAttributes engine attrs
  held _ := True
  exposes _ := True
  opens r := r ≠ engine
  immediate _ _ := trivial
  part _ _ _ _ _ _ _ _ := trivial
  stack _ _ _ _ _ _ _ _ := trivial
  binding _ _ _ _ _ _ _ := trivial
  alloc _ c hs _ := ⟨hs.alloc c, trivial⟩
  set := by
    rintro s r c c' ⟨stack, hengine⟩ - hc hopen - -
    by_cases heq : r = engine
    · subst heq
      cases hengine.symm.trans hc
      exact absurd rfl hopen
    · exact ⟨stack, by rw [Store.get?_set_ne c' (Ne.symm heq), hengine]⟩
  setStack := by
    rintro s r v attrs' w ⟨stack, hengine⟩ - - hc -
    by_cases heq : r = engine
    · subst heq
      cases hengine.symm.trans hc
      exact ⟨w, Store.get?_set_self _ (Store.index_lt_of_get? hc)⟩
    · exact ⟨stack, by rw [Store.get?_set_ne _ (Ne.symm heq), hengine]⟩

section Runs

variable {m m' : Moment} {engine : Ref} {attrs : Attributes}

theorem Moment.Avoids.abides (h : m.Avoids engine) : (Ward.steady engine attrs).Abides m where
  admits _ _ _ _ _ := trivial
  opens _ _ _ _ u hu _ hr heq := h u hu (heq ▸ hr)
  exposes _ _ _ _ _ _ := trivial

/-- Wherever a run comes to, the evaluator has the attributes it had. -/
theorem Store.HasAttributes.of_reaches (hs : m.state.store.HasAttributes engine attrs)
    (h : ∀ m', m.Reaches m' → m'.Avoids engine) (hm : m.Reaches m') : m'.state.store.HasAttributes engine attrs :=
  (Ward.inv_of_reaches (w := .steady engine attrs) (fun m' hm' => (h m' hm').abides) hs (fun _ _ => trivial) hm).1

/-- An evaluator that does all itself when a run starts does so wherever the run comes to. -/
theorem Store.HasAttributes.selves_of_reaches (hs : m.state.store.HasAttributes engine attrs)
    (hruns : m.state.store.RunsItself engine) (hcalls : m.state.store.CallsItself engine)
    (h : ∀ m', m.Reaches m' → m'.Avoids engine) (hm : m.Reaches m') :
    m'.state.store.RunsItself engine ∧ m'.state.store.CallsItself engine := by
  have hs' := hs.of_reaches h hm
  rw [hs'.runsItself_iff, hs'.callsItself_iff]
  exact ⟨hs.runsItself_iff.1 hruns, hs.callsItself_iff.1 hcalls⟩

end Runs

/-! ## Runs without calls -/

/-- The evaluator that does a task, if it takes one. -/
def Task.engine? : Task → Option Ref
  | script engine _ _ | expression engine _ _ | invoke engine _ _ | call engine _ _ _ _ => some engine
  | apply .. | read .. | write .. => none

end ListScript
