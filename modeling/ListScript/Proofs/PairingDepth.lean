import ListScript.Proofs.Inside
import ListScript.Proofs.Pairing

/-!
# Going down into counterparts

The objects inside a value have as their counterparts those inside the counterpart of the value
(`Paired.inside_value`), in whatever store there are more objects besides. So descents that are bounded by their number
give the same on both sides: which values can be keys (`Paired.checkHashable_value`), which are equal
(`Paired.equal_value`) and which are the same key of a dictionary (`Paired.sameKey_value`).
-/

namespace ListScript

theorem Cell.inner_subset_contents {c : Cell} {v : Value} (h : v ∈ c.inner) : v ∈ c.contents := by
  cases c with
  | closure f attrs | context ctx attrs =>
    simp only [inner, contents, parts, List.mem_append, List.mem_cons, List.not_mem_nil, or_false] at h ⊢
    tauto
  | engine | function | object | path | nameSegment | indexSegment => cases h
  | _ => exact h

namespace Pairing

variable {p : Pairing} {s s' : Store} {v w key : Value} {r : Ref}

theorem ref?_value (v : Value) : (p.value v).ref? = v.ref?.map p.move := by cases v <;> rfl

theorem addNew_map (seen more : List Ref) :
    Store.addNew (seen.map p.move) (more.map p.move) = (Store.addNew seen more).map p.move := by
  induction more generalizing seen with
  | nil => rfl
  | cons r more ih =>
    rw [List.map_cons, Store.addNew_cons, Store.addNew_cons]
    have hmem : (seen.map p.move).contains (p.move r) = seen.contains r := by
      rw [Bool.eq_iff_iff, List.contains_iff_mem, List.contains_iff_mem]
      constructor
      · intro h
        obtain ⟨r', hr', heq⟩ := List.mem_map.1 h
        exact p.injective heq ▸ hr'
      · exact List.mem_map_of_mem
    rw [hmem]
    split
    · exact ih seen
    · rw [← ih, List.map_append]
      rfl

namespace Paired

theorem has_move (h : p.Paired s s') (hr : p.good r) : s'.has (p.move r) = s.has r := by
  have hsome : ∀ (t : Store) (k : Ref), t.has k = (t.get? k).isSome := by
    intro t k
    by_cases hlt : k.index < t.cells.size <;> simp [Store.has, Store.get?, Store.size, hlt]
  rw [hsome, hsome, h.get?_move r hr, Option.isSome_map]

theorem innerRefs_move (h : p.Paired s s') (hr : p.good r) :
    s'.innerRefs (p.move r) = (s.innerRefs r).map p.move ∧ ∀ r' ∈ s.innerRefs r, p.good r' := by
  simp only [Store.innerRefs, h.get?_move r hr]
  cases hc : s.get? r with
  | none => exact ⟨rfl, by simp⟩
  | some c =>
    have hgood : ∀ r' ∈ c.inner.filterMap Value.ref?, p.good r' := by
      intro r' hr'
      obtain ⟨v, hv, hv'⟩ := List.mem_filterMap.1 hr'
      refine h.closed r c hr hc v (Cell.inner_subset_contents hv) r' ?_
      cases v <;> cases hv'
      rfl
    refine ⟨?_, fun r' hr' => hgood r' (List.mem_filter.1 hr').1⟩
    have hrefs : (p.cell r c).inner.filterMap Value.ref? = (c.inner.filterMap Value.ref?).map p.move := by
      rw [inner_cell, List.filterMap_map, List.map_filterMap]
      exact congrArg₂ _ (funext ref?_value) rfl
    simp only [Option.map_some, hrefs, List.filter_map]
    congr 1
    exact List.filter_congr fun r' hr' => h.has_move (hgood r' hr')

theorem spread_map (h : p.Paired s s') (n : Nat) : ∀ {seen : List Ref}, (∀ r ∈ seen, p.good r) →
    s'.spread n (seen.map p.move) = (s.spread n seen).map p.move ∧ ∀ r ∈ s.spread n seen, p.good r := by
  induction n with
  | zero => exact fun hseen => ⟨rfl, hseen⟩
  | succ n ih =>
    intro seen hseen
    have hinner : (seen.map p.move).flatMap s'.innerRefs = (seen.flatMap s.innerRefs).map p.move := by
      rw [List.flatMap_map, List.map_flatMap]
      exact List.flatMap_congr fun r hr => (h.innerRefs_move (hseen r hr)).1
    simp only [Store.spread, hinner, addNew_map, List.length_map]
    split
    · exact ⟨rfl, hseen⟩
    · refine ih fun r hr => ?_
      rcases Store.mem_addNew.1 hr with hr | hr
      · exact hseen r hr
      · obtain ⟨r', hr', hinner⟩ := List.mem_flatMap.1 hr
        exact (h.innerRefs_move (hseen r' hr')).2 r hinner

/-- The objects inside a value, and inside its counterpart. -/
theorem inside_value (h : p.Paired s s') (hv : v.Within p.good) :
    s'.inside (p.value v) = (s.inside v).map p.move ∧ ∀ r ∈ s.inside v, p.good r := by
  have hgood : ∀ r ∈ v.ref?.toList, p.good r := by
    intro r hr
    refine hv r ?_
    cases v <;> simp_all [Value.ref?]
  have hseed : (p.value v).ref?.toList.filter s'.has = (v.ref?.toList.filter s.has).map p.move := by
    have hlist : (p.value v).ref?.toList = v.ref?.toList.map p.move := by
      rw [ref?_value]
      cases v.ref? <;> rfl
    rw [hlist, List.filter_map]
    exact congrArg _ (List.filter_congr fun r hr => h.has_move (hgood r hr))
  have hseen : ∀ r ∈ v.ref?.toList.filter s.has, p.good r := fun r hr => hgood r (List.mem_filter.1 hr).1
  refine ⟨?_, (h.spread_map s.size hseen).2⟩
  rw [Store.inside, hseed, h.size, (h.spread_map _ hseen).1,
    Store.spread_eq_spread (Store.gathered_seed s v) (Nat.le_add_left _ _)]
  rfl

theorem extent_value (h : p.Paired s s') (hv : v.Within p.good) : s'.extent (p.value v) = s.extent v := by
  rw [Store.extent, (h.inside_value hv).1, List.length_map]
  rfl

theorem entriesInside_value (h : p.Paired s s') (hv : v.Within p.good) :
    s'.entriesInside (p.value v) = s.entriesInside v := by
  obtain ⟨heq, hgood⟩ := h.inside_value hv
  rw [Store.entriesInside, heq, Store.entriesInside]
  clear heq
  generalize s.inside v = seen at hgood ⊢
  induction seen with
  | nil => rfl
  | cons r rest ih =>
    rw [List.forall_mem_cons] at hgood
    have hcount : s'.entryCount (p.move r) = s.entryCount r := by
      simp only [Store.entryCount, h.get?_move r hgood.1]
      rcases s.get? r with _ | c
      · rfl
      · cases c <;> simp [cell, entries]
    simp only [List.map_cons, List.foldr_cons, hcount]
    exact congrArg _ (ih hgood.2)

/-! ## Keys -/

theorem unhashableIn_value (h : p.Paired s s') (n : Nat) : ∀ {v : Value}, v.Within p.good →
    s'.unhashableIn n (p.value v) = s.unhashableIn n v := by
  induction n with
  | zero => exact fun _ => rfl
  | succ n ih =>
    intro v hv
    have htype := h.typeName_value hv
    rcases h.cell?_cases hv with ⟨hc, hc'⟩ | ⟨r, c, -, -, hc, hc', hwithin⟩ <;> simp only [Store.unhashableIn, hc, hc']
    cases c with
    | tuple items =>
      have hitems : ∀ w ∈ items, s'.unhashableIn n (p.value w) = s.unhashableIn n w := fun w hw => ih (hwithin w hw)
      simp only [cell]
      clear hwithin hc hc'
      induction items with
      | nil => rfl
      | cons w rest ih' =>
        rw [List.forall_mem_cons] at hitems
        simp only [List.map_cons, List.findSome?_cons, hitems.1, ih' hitems.2]
    | list | dict | frozen | raw | context => exact congrArg some htype
    | _ => rfl

theorem checkHashable_value (h : p.Paired s s') (hv : v.Within p.good) :
    s'.checkHashable (p.value v) = s.checkHashable v := by
  simp only [Store.checkHashable, Store.unhashable?, h.extent_value hv, h.unhashableIn_value _ hv]

/-! ## Equality -/

theorem equalLists_value {eq eq' : Value → Value → Bool} {xs ys : List Value}
    (h : ∀ x ∈ xs, ∀ y ∈ ys, eq' (p.value x) (p.value y) = eq x y) :
    Store.equalLists eq' (xs.map p.value) (ys.map p.value) = Store.equalLists eq xs ys := by
  induction xs generalizing ys with
  | nil => cases ys <;> rfl
  | cons x xs ih =>
    cases ys with
    | nil => rfl
    | cons y ys =>
      simp only [List.map_cons, Store.equalLists, h x List.mem_cons_self y List.mem_cons_self]
      rw [ih fun x hx y hy => h x (List.mem_cons_of_mem _ hx) y (List.mem_cons_of_mem _ hy)]

theorem all_map_eq {α β : Type} {f : α → Bool} {f' : β → Bool} {g : α → β} {xs : List α} (h : ∀ a ∈ xs, f' (g a) = f a) :
    (xs.map g).all f' = xs.all f := by
  induction xs with
  | nil => rfl
  | cons a rest ih =>
    rw [List.forall_mem_cons] at h
    rw [List.map_cons, List.all_cons, List.all_cons, h.1, ih h.2]

theorem equalEntries_value {eq eq' : Value → Value → Bool} {xs ys : Entries}
    (h : ∀ x ∈ xs.parts, ∀ y ∈ ys.parts, eq' (p.value x) (p.value y) = eq x y) :
    Store.equalEntries eq' (p.entries xs) (p.entries ys) = Store.equalEntries eq xs ys := by
  unfold Store.equalEntries
  refine congrArg₂ (· && ·) (by simp [entries]) (all_map_eq fun e he => ?_)
  have hk : e.1 ∈ xs.parts := List.mem_flatMap.2 ⟨e, he, by simp⟩
  have hv : e.2 ∈ xs.parts := List.mem_flatMap.2 ⟨e, he, by simp⟩
  have hfind : Entries.find? (eq' (p.value e.1)) (p.entries ys) = (Entries.find? (eq e.1) ys).map p.value :=
    find?_entries fun k hk' => h e.1 hk k (Entries.mem_of_mem_keys hk')
  simp only [hfind]
  cases hw : Entries.find? (eq e.1) ys with
  | none => rfl
  | some w => exact h e.2 hv w (Entries.mem_of_find? hw)

theorem equalCells_value {eq eq' ins ins' : Value → Value → Bool} {c d : Cell} (r k : Ref)
    (heq : ∀ x ∈ c.contents, ∀ y ∈ d.contents, eq' (p.value x) (p.value y) = eq x y)
    (hins : ∀ x ∈ c.contents, ∀ y ∈ d.contents, ins' (p.value x) (p.value y) = ins x y) :
    Store.equalCells eq' ins' (p.cell r c) (p.cell k d) = Store.equalCells eq ins c d := by
  cases c <;> cases d
  case list.list | tuple.tuple => exact equalLists_value hins
  case dict.dict | dict.frozen | frozen.dict | frozen.frozen => exact equalEntries_value hins
  case raw.raw => exact heq _ List.mem_cons_self _ List.mem_cons_self
  case closure.closure =>
    simp only [cell, Store.equalCells, closure]
    rw [heq _ (by simp [Cell.contents, Cell.parts]) _ (by simp [Cell.contents, Cell.parts]),
      heq _ (by simp [Cell.contents, Cell.parts]) _ (by simp [Cell.contents, Cell.parts])]
  case context.context =>
    simp only [cell, Store.equalCells, context]
    rw [hins _ (by simp [Cell.contents, Cell.parts]) _ (by simp [Cell.contents, Cell.parts]),
      hins _ (by simp [Cell.contents, Cell.parts]) _ (by simp [Cell.contents, Cell.parts]),
      hins _ (by simp [Cell.contents, Cell.parts]) _ (by simp [Cell.contents, Cell.parts])]
  case method.method =>
    simp only [cell, Store.equalCells, value_beq]
  all_goals rfl

theorem equalWithin_value (h : p.Paired s s') (n : Nat) : ∀ {v w : Value}, v.Within p.good → w.Within p.good →
    s'.equalWithin n (p.value v) (p.value w) = s.equalWithin n v w := by
  induction n with
  | zero => exact fun _ _ => rfl
  | succ n ih =>
    intro v w hv hw
    by_cases hrefs : ∃ r k, v = .ref r ∧ w = .ref k
    · obtain ⟨r, k, rfl, rfl⟩ := hrefs
      have hr := Value.within_ref.1 hv
      have hk := Value.within_ref.1 hw
      have hsame : (p.move r == p.move k) = (r == k) := by
        rw [Bool.eq_iff_iff, beq_iff_eq, beq_iff_eq]
        exact ⟨p.injective, congrArg _⟩
      simp only [value, Store.equalWithin, h.get?_move r hr, h.get?_move k hk]
      cases hc : s.get? r with
      | none => exact hsame
      | some c =>
        cases hd : s.get? k with
        | none => exact hsame
        | some d =>
          have heq : ∀ x ∈ c.contents, ∀ y ∈ d.contents, s'.equalWithin n (p.value x) (p.value y) = s.equalWithin n x y :=
            fun x hx y hy => ih (h.closed r c hr hc x hx) (h.closed k d hk hd y hy)
          have hins : ∀ x ∈ c.contents, ∀ y ∈ d.contents,
              (p.value x == p.value y || s'.equalWithin n (p.value x) (p.value y)) = (x == y || s.equalWithin n x y) :=
            fun x hx y hy => congrArg₂ (· || ·) (value_beq x y) (heq x hx y hy)
          have hcells := @equalCells_value p (s.equalWithin n) (s'.equalWithin n) (fun x y => x == y || s.equalWithin n x y)
            (fun x y => x == y || s'.equalWithin n x y) c d r k heq hins
          have hidentity : Store.equalWithin.comparedByIdentity (p.cell r c) = Store.equalWithin.comparedByIdentity c := by
            cases c <;> rfl
          simp only [Option.map_some, hsame, hidentity]
          exact congrArg (· || _) hcells
    · have himmediate : ∀ (t : Store) {a b : Value}, (¬ ∃ r k, a = .ref r ∧ b = .ref k) →
          t.equalWithin (n + 1) a b = a.immediateEq b := by
        intro t a b hab
        cases a <;> cases b <;> first | rfl | exact absurd ⟨_, _, rfl, rfl⟩ hab
      rw [himmediate s hrefs, himmediate s' ?_, immediateEq_value]
      rintro ⟨r, k, hr, hk⟩
      cases v <;> cases hr
      cases w <;> cases hk
      exact hrefs ⟨_, _, rfl, rfl⟩

theorem equal_value (h : p.Paired s s') (hv : v.Within p.good) (hw : w.Within p.good) :
    s'.equal (p.value v) (p.value w) = s.equal v w := by
  simp only [Store.equal, h.extent_value hv, h.extent_value hw, h.equalWithin_value _ hv hw]

theorem alike_value (h : p.Paired s s') (hv : v.Within p.good) (hw : w.Within p.good) :
    s'.alike (p.value v) (p.value w) = s.alike v w := by
  simp only [Store.alike, value_beq, h.equal_value hv hw]

theorem sameKey_value (h : p.Paired s s') (hv : v.Within p.good) (hw : w.Within p.good) :
    s'.sameKey (p.value v) (p.value w) = s.sameKey v w := by
  simp only [Store.sameKey, value_beq, h.isClosure_value hv, h.equal_value hv hw]

end Paired

end Pairing

end ListScript
