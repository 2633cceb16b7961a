import ListScript.Proofs.Guard

/-!
# The stack of active calls is balanced

An evaluator starts a run with some list of active calls, which nothing else leads to (`Store.OwnsStack`). If the run
follows no path to it, the list is the same when the run ends, with a value or with an error, and each call on the way
removes the frame it has added (`Moment.stack_balanced`).
-/

namespace ListScript

namespace Store

/-- A list with some elements is the list of active calls of an evaluator. -/
structure HasStack (s : Store) (engine list : Ref) (items : List Value) : Prop where
  engine_eq : ∃ attrs, s.get? engine = some (.engine (.ref list) attrs)
  list_eq : ∃ flavor, s.get? list = some (.list items flavor)

/-- Nothing else leads to the list of active calls of an evaluator. -/
structure OwnsStack (s : Store) (engine list : Ref) : Prop where
  closed : s.Closed
  alone : ∀ r c, s.get? r = some c → r ≠ engine → .ref list ∉ c.contents
  attributes : ∀ c, s.get? engine = some c → .ref list ∉ c.fields

variable {s : Store} {engine list : Ref} {items : List Value} {fixed : List (Ref × Cell)} {good : Ref → Prop}

instance (s : Store) (engine list : Ref) : Decidable (s.OwnsStack engine list) :=
  decidable_of_iff (s.Closed ∧ (∀ n, n < s.size → n ≠ engine.index → ∀ c ∈ s.get? ⟨n⟩, .ref list ∉ c.contents) ∧
      ∀ c ∈ s.get? engine, .ref list ∉ c.fields) <| by
    constructor
    · rintro ⟨hclosed, halone, hattributes⟩
      refine ⟨hclosed, fun r c hc hne => ?_, hattributes⟩
      exact halone r.index (index_lt_of_get? hc) (fun heq => hne (congrArg Ref.mk heq)) c hc
    · rintro ⟨hclosed, halone, hattributes⟩
      refine ⟨hclosed, fun n _ hne c hc => ?_, hattributes⟩
      exact halone ⟨n⟩ c hc fun heq => hne (congrArg Ref.index heq)

theorem Guards.hasStack (h : s.Guards engine list items fixed good) : s.HasStack engine list items :=
  ⟨h.engine_eq, h.list_eq⟩

theorem OwnsStack.guards (h : s.OwnsStack engine list) (hs : s.HasStack engine list items) :
    s.Guards engine list items [] fun r => r.index < s.size ∧ r ≠ list := by
  have hwithin : ∀ {v : Value}, s.Knows v → v ≠ .ref list → v.Within fun r => r.index < s.size ∧ r ≠ list := by
    rintro v hknows hne r rfl
    exact ⟨hknows r rfl, fun heq => hne (by rw [heq])⟩
  refine ⟨⟨fun r hr => hr.1, ?_, ?_, ?_⟩, hs.engine_eq, hs.list_eq, fun h => h.2 rfl, by simp, ?_⟩
  · intro r c hr hc v hv
    refine hwithin (h.closed r c hc v (Cell.fields_subset_contents hv)) ?_
    rintro rfl
    by_cases heq : r = engine
    · subst heq
      exact h.attributes c hc hv
    · exact h.alone r c hc heq (Cell.fields_subset_contents hv)
  · intro r b p hr hc
    refine hwithin (h.closed r _ hc p (by simp [Cell.contents])) ?_
    rintro rfl
    refine h.alone r _ hc ?_ (by simp [Cell.contents])
    rintro rfl
    obtain ⟨attrs, hengine⟩ := hs.engine_eq
    cases hengine.symm.trans hc
  · intro r v attrs hr hne hc
    refine hwithin (h.closed r _ hc v List.mem_cons_self) ?_
    rintro rfl
    exact h.alone r _ hc hne List.mem_cons_self
  · intro v hv
    obtain ⟨flavor, hlist⟩ := hs.list_eq
    refine .inl (hwithin (h.closed list _ hlist v hv) ?_)
    rintro rfl
    refine h.alone list _ hlist ?_ hv
    rintro rfl
    obtain ⟨attrs, hengine⟩ := hs.engine_eq
    cases hengine.symm.trans hlist

end Store

end ListScript
