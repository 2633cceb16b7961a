import Mathlib.Data.List.Nodup
import Mathlib.Data.List.Perm.Subperm
import ListScript.Store.Nesting

/-!
# The objects inside a value

`Store.inside` gathers the objects inside a value in rounds, each adding what the objects so far are made of. There are
no more rounds than objects, so the list is complete: with an object it has all that the object is made of
(`mem_inside_of_innerRefs`), and it has each object once (`nodup_inside`). More rounds would add nothing
(`spread_eq_spread`), so that the list depends on the objects inside the value alone and not on the size of the store.
-/

namespace ListScript.Store

variable {s : Store} {r r' : Ref} {seen more : List Ref}

/-- As many different objects as there are in a store. -/
theorem length_le_size {trail : List Ref} (hnodup : trail.Nodup) (hin : ∀ r ∈ trail, s.has r = true) :
    trail.length ≤ s.size := by
  have hindex : (trail.map Ref.index).Nodup :=
    List.Nodup.map (fun r r' h => congrArg Ref.mk h) hnodup
  have hsub : trail.map Ref.index ⊆ List.range s.size := by
    intro i hi
    obtain ⟨r, hr, rfl⟩ := List.mem_map.1 hi
    exact List.mem_range.2 (of_decide_eq_true (hin r hr))
  simpa using (List.Nodup.subperm hindex hsub).length_le

/-! ## One round -/

theorem addNew_cons (seen : List Ref) (r : Ref) (more : List Ref) :
    addNew seen (r :: more) = addNew (if seen.contains r then seen else seen ++ [r]) more :=
  rfl

theorem mem_addNew : r ∈ addNew seen more ↔ r ∈ seen ∨ r ∈ more := by
  induction more generalizing seen with
  | nil => simp [addNew]
  | cons r' more ih =>
    rw [addNew_cons, ih]
    by_cases h : r' ∈ seen
    · simp only [List.contains_iff_mem.2 h, if_true, List.mem_cons]
      grind
    · have hnew : seen.contains r' = false := by simpa using h
      simp only [hnew, Bool.false_eq_true, if_false, List.mem_append, List.mem_cons, List.not_mem_nil, or_false]
      tauto

theorem nodup_addNew (h : seen.Nodup) : (addNew seen more).Nodup := by
  induction more generalizing seen with
  | nil => exact h
  | cons r more ih =>
    rw [addNew_cons]
    split
    · exact ih h
    · rename_i hr
      refine ih (List.nodup_append.2 ⟨h, List.nodup_singleton r, ?_⟩)
      rintro r' hr' _ hmem rfl
      rw [List.mem_singleton] at hmem
      subst hmem
      exact hr (List.contains_iff_mem.2 hr')

theorem length_le_addNew : seen.length ≤ (addNew seen more).length := by
  induction more generalizing seen with
  | nil => exact Nat.le_refl _
  | cons r more ih =>
    rw [addNew_cons]
    refine Nat.le_trans ?_ ih
    split <;> simp

/-- A round that adds nothing has nothing to add. -/
theorem addNew_eq_self_iff : (addNew seen more).length = seen.length ↔ ∀ r ∈ more, r ∈ seen := by
  induction more generalizing seen with
  | nil => simp [addNew]
  | cons r more ih =>
    rw [addNew_cons, List.forall_mem_cons]
    by_cases h : r ∈ seen
    · simp only [List.contains_iff_mem.2 h, if_true, ih, h, true_and]
    · have hnew : seen.contains r = false := by simpa using h
      simp only [hnew, Bool.false_eq_true, if_false, h, false_and, iff_false]
      have hle := @length_le_addNew (seen ++ [r]) more
      simp only [List.length_append, List.length_singleton] at hle
      omega

/-! ## All rounds -/

/-- A list of different objects of a store. -/
structure Gathered (s : Store) (seen : List Ref) : Prop where
  nodup : seen.Nodup
  has : ∀ r ∈ seen, s.has r = true

theorem has_of_mem_innerRefs (h : r' ∈ s.innerRefs r) : s.has r' = true := by
  unfold innerRefs at h
  split at h
  · exact (List.mem_filter.1 h).2
  · cases h

theorem Gathered.round (h : s.Gathered seen) : s.Gathered (addNew seen (seen.flatMap s.innerRefs)) := by
  refine ⟨nodup_addNew h.nodup, fun r hr => ?_⟩
  rcases mem_addNew.1 hr with hr | hr
  · exact h.has r hr
  · obtain ⟨_, _, hinner⟩ := List.mem_flatMap.1 hr
    exact has_of_mem_innerRefs hinner

/-- A list with as many objects as the store has them all. -/
theorem Gathered.mem_of_size_le (h : s.Gathered seen) (hsize : s.size ≤ seen.length) (hr : s.has r = true) : r ∈ seen := by
  by_contra hnot
  have hmore : s.Gathered (r :: seen) :=
    ⟨List.nodup_cons.2 ⟨hnot, h.nodup⟩, List.forall_mem_cons.2 ⟨hr, h.has⟩⟩
  have := length_le_size hmore.nodup hmore.has
  simp only [List.length_cons] at this
  omega

/-- A list that has with an object all that the object is made of. -/
def Saturated (s : Store) (seen : List Ref) : Prop := ∀ r ∈ seen.flatMap s.innerRefs, r ∈ seen

theorem Gathered.saturated_of_size_le (h : s.Gathered seen) (hsize : s.size ≤ seen.length) : s.Saturated seen := by
  intro r hr
  obtain ⟨_, _, hinner⟩ := List.mem_flatMap.1 hr
  exact h.mem_of_size_le hsize (has_of_mem_innerRefs hinner)

theorem spread_of_saturated (h : s.Saturated seen) (fuel : Nat) : s.spread fuel seen = seen := by
  cases fuel with
  | zero => rfl
  | succ fuel =>
    rw [spread]
    exact if_pos (addNew_eq_self_iff.2 h)

/-- With a round for each object that is missing, the list is complete in the end, and more rounds change nothing. -/
theorem Gathered.spread {fuel : Nat} (h : s.Gathered seen) (hfuel : s.size ≤ seen.length + fuel) :
    s.Gathered (s.spread fuel seen) ∧ s.Saturated (s.spread fuel seen) ∧ s.spread (fuel + 1) seen = s.spread fuel seen := by
  induction fuel generalizing seen with
  | zero =>
    have hsat := h.saturated_of_size_le hfuel
    exact ⟨h, hsat, spread_of_saturated hsat 1⟩
  | succ fuel ih =>
    by_cases hsat : s.Saturated seen
    · rw [spread_of_saturated hsat, spread_of_saturated hsat]
      exact ⟨h, hsat, rfl⟩
    · have hgrows : (addNew seen (seen.flatMap s.innerRefs)).length ≠ seen.length := fun heq =>
        hsat (addNew_eq_self_iff.1 heq)
      have hlonger := @length_le_addNew seen (seen.flatMap s.innerRefs)
      have hnext : ∀ n, s.spread (n + 1) seen = s.spread n (addNew seen (seen.flatMap s.innerRefs)) := by
        intro n
        rw [Store.spread]
        exact if_neg hgrows
      rw [hnext, hnext]
      exact ih h.round (by omega)

theorem spread_eq_spread {fuel n : Nat} (h : s.Gathered seen) (hfuel : s.size ≤ seen.length + fuel) :
    s.spread (fuel + n) seen = s.spread fuel seen := by
  induction n with
  | zero => rfl
  | succ n ih => rw [← Nat.add_assoc, (h.spread (by omega)).2.2, ih]

theorem mem_spread_of_mem {fuel : Nat} (h : r ∈ seen) : r ∈ s.spread fuel seen := by
  induction fuel generalizing seen with
  | zero => exact h
  | succ fuel ih =>
    rw [spread]
    split
    · exact h
    · exact ih (mem_addNew.2 (.inl h))

/-! ## Values -/

variable {v w : Value}

theorem gathered_seed (s : Store) (v : Value) : s.Gathered (v.ref?.toList.filter s.has) := by
  refine ⟨List.Nodup.filter _ ?_, fun r hr => (List.mem_filter.1 hr).2⟩
  cases v.ref? <;> simp

theorem gathered_inside (s : Store) (v : Value) : s.Gathered (s.inside v) :=
  ((gathered_seed s v).spread (by omega)).1

theorem nodup_inside (s : Store) (v : Value) : (s.inside v).Nodup := (gathered_inside s v).nodup

theorem mem_inside_self (h : s.has r = true) : r ∈ s.inside (.ref r) :=
  mem_spread_of_mem (List.mem_filter.2 ⟨by simp [Value.ref?], h⟩)

/-- With an object there is inside a value all that the object is made of. -/
theorem mem_inside_of_innerRefs (h : r ∈ s.inside v) (h' : r' ∈ s.innerRefs r) : r' ∈ s.inside v :=
  ((gathered_seed s v).spread (by omega)).2.1 r' (List.mem_flatMap.2 ⟨r, h, h'⟩)

theorem mem_inside_of_inner {c : Cell} (h : r ∈ s.inside v) (hc : s.get? r = some c) (hw : .ref r' ∈ c.inner)
    (hr' : s.has r' = true) : r' ∈ s.inside v := by
  refine mem_inside_of_innerRefs h ?_
  simp only [innerRefs, hc]
  exact List.mem_filter.2 ⟨List.mem_filterMap.2 ⟨.ref r', hw, rfl⟩, hr'⟩

end ListScript.Store
