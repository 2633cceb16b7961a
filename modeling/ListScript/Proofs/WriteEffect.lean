import ListScript.Proofs.Growth
import ListScript.Proofs.PathScan

/-!
# What a write at a path changes

A write that succeeds sets one slot of one object that was there before, and adds new containers below it if the path
leaves what was there (`assign_effect`). Up to that slot the path goes through containers that it finds
(`Store.Leads`); from there on each container is new and holds one entry (`Store.HoldsChain`).

A write that is refused has changed no object that was there, with one exception (`unchanged_of_assign_error`): the new
containers are put in before the rest of the path is followed, and among them a list may be asked for a position that no
list can have, because no number counts so many elements or no memory holds them.

- `Store.TooLong`: how a list is refused a position;
- `Cell.sets_of_setField?`: setting a slot changes nothing else in the object;
- `Store.assignBelow_container`: what a write does below a new container.
-/

namespace ListScript

/-! ## One slot of one object -/

/-- A table before and after the value of one key was set: a key that is there keeps its place and its spelling, a key
that is not comes at the end. -/
inductive SetIn {κ : Type} (hit : κ → Bool) (key : κ) (v : Value) : List (κ × Value) → List (κ × Value) → Prop
  | present (before after : List (κ × Value)) (k : κ) (old : Value) : (∀ e ∈ before, hit e.1 = false) → hit k = true →
      SetIn hit key v (before ++ (k, old) :: after) (before ++ (k, v) :: after)
  | absent (table : List (κ × Value)) : (∀ e ∈ table, hit e.1 = false) → SetIn hit key v table (table ++ [(key, v)])

/-- The key by which a dictionary has the slot of a segment: an index goes by its number if that is a key of the
dictionary, and else, like a name, by its text. -/
def Entries.keyFor (entries : Entries) : Segment → Value
  | .name text => .text text
  | .index n => if entries.keys.any (Value.immediateEq (.int n)) then .int n else .text (integerText n)

/-- An object before and after one of its slots was set. -/
inductive Cell.Sets (segment : Segment) (v : Value) : Cell → Cell → Prop
  | entry (entries entries' : Entries) :
      SetIn (Value.immediateEq (entries.keyFor segment)) (entries.keyFor segment) v entries entries' →
      Sets segment v (.dict entries) (.dict entries')
  | element (items : List Value) (flavor : Flavor) (n : Nat) : segment = .index n → n < items.length →
      Sets segment v (.list items flavor) (.list (items.set n v) flavor)
  | padded (items : List Value) (flavor : Flavor) (n : Nat) : segment = .index n → items.length ≤ n →
      Sets segment v (.list items flavor)
        (.list (items ++ List.replicate (n - items.length) .null ++ [v]) flavor)
  | item (items items' : List (Int × Value)) (attrs : Attributes) (n : Nat) : segment = .index n →
      SetIn (· == (n : Int)) (n : Int) v items items' →
      Sets segment v (.object (.box items) attrs) (.object (.box items') attrs)
  | attribute (c c' : Cell) (name : String) : segment = .name name → isPrivate name = false →
      Store.withAttribute? c name v = some c' → Sets segment v c c'

section Slots

variable {v : Value}

theorem SetIn.cons {κ : Type} {hit : κ → Bool} {key k : κ} {w : Value} {table table' : List (κ × Value)}
    (hk : hit k = false) (h : SetIn hit key v table table') : SetIn hit key v ((k, w) :: table) ((k, w) :: table') := by
  cases h with
  | present before after k' old hbefore hk' =>
    refine .present ((k, w) :: before) after k' old (fun e he => ?_) hk'
    rcases List.mem_cons.1 he with rfl | he
    · exact hk
    · exact hbefore e he
  | absent table htable =>
    refine .absent ((k, w) :: table) fun e he => ?_
    rcases List.mem_cons.1 he with rfl | he
    · exact hk
    · exact htable e he

theorem Entries.setIn_put (hit : Value → Bool) (key : Value) (v : Value) (entries : Entries) :
    SetIn hit key v entries (entries.put hit key v) := by
  induction entries with
  | nil => exact .absent [] (by simp)
  | cons e rest ih =>
    obtain ⟨k, w⟩ := e
    rw [put]
    split
    · rename_i hk
      exact .present [] rest k w (by simp) hk
    · rename_i hk
      exact ih.cons (Bool.eq_false_iff.2 hk)

theorem setIn_putItem (v : Value) (items : List (Int × Value)) (n : Int) :
    SetIn (· == n) n v items (Store.writeItem.putItem v items n) := by
  induction items with
  | nil => exact .absent [] (by simp)
  | cons e rest ih =>
    obtain ⟨k, w⟩ := e
    rw [Store.writeItem.putItem]
    split
    · rename_i hk
      exact .present [] rest k w (by simp) hk
    · rename_i hk
      exact ih.cons (Bool.eq_false_iff.2 hk)

theorem Entries.setSegment_eq_put_keyFor (entries : Entries) (segment : Segment) (v : Value) :
    entries.setSegment segment v =
      entries.put (Value.immediateEq (entries.keyFor segment)) (entries.keyFor segment) v := by
  cases segment with
  | name text => rfl
  | index n =>
    rw [setSegment, isSome_find?, keyFor]
    split <;> rfl

/-- Setting a slot changes nothing else in the object. -/
theorem Cell.sets_of_setField? {c c' : Cell} {segment : Segment} (h : c.setField? segment v = some c') :
    c.Sets segment v c' := by
  obtain ⟨entries, rfl, rfl⟩ | ⟨items, items', flavor, n, rfl, rfl, hs, rfl⟩ | ⟨items, attrs, n, rfl, rfl, hn, rfl⟩ |
    ⟨text, rfl, hopen, hw⟩ := setField?_cases h
  · rw [Entries.setSegment_eq_put_keyFor]
    exact .entry _ _ (Entries.setIn_put _ _ v entries)
  · obtain ⟨hlt, rfl⟩ | ⟨hle, rfl⟩ := setElement_cases hs
    · exact .element items flavor n rfl hlt
    · exact .padded items flavor n rfl hle
  · exact .item items _ attrs n rfl (setIn_putItem v items n)
  · exact .attribute c c' text rfl (Bool.or_eq_false_iff.1 hopen).1 hw

/-- What a slot holds is in the object. -/
theorem Cell.mem_contents_of_field? {c : Cell} {segment : Segment} (h : c.field? segment = some v) : v ∈ c.contents := by
  have hattribute : ∀ text, Store.storedAttribute? c text = some v → v ∈ c.contents := by
    intro text hv
    rcases storedAttribute?_cases hv with hv | ⟨-, attrs, rfl⟩
    · exact fields_subset_contents hv
    · exact List.mem_cons_self
  unfold field? at h
  split at h
  · exact Entries.mem_of_atSegment h
  · exact Entries.mem_of_atSegment h
  · exact List.mem_of_getElem? h
  · exact List.mem_of_getElem? h
  · split at h
    · cases h
    · exact List.mem_append_left _ (mem_of_lookup h)
  · split at h
    · cases h
    · exact hattribute _ h
  · cases h

end Slots

/-! ## New containers -/

namespace Segment

/-- The empty container that is made for a segment. -/
def container : Segment → Cell
  | name _ => .dict []
  | index _ => .list [] .plain

/-- The container made for a segment, with one entry: a list is as long as the index asks for. -/
def holding (segment : Segment) (v : Value) : Cell :=
  match segment with
  | name text => .dict [(.text text, v)]
  | index n => .list (List.replicate n .null ++ [v]) .plain

theorem scope?_container (segment : Segment) : segment.container.scope? = none := by
  cases segment <;> rfl

end Segment

namespace Store

/-- From an address on there is a chain of containers made for segments, each holding the next one and nothing else, and
the last one the value. -/
def HoldsChain (s : Store) (v : Value) (n : Nat) : Segment → List Segment → Prop
  | segment, [] => s.get? ⟨n⟩ = some (segment.holding v)
  | segment, below :: rest =>
    s.get? ⟨n⟩ = some (segment.holding (.ref ⟨n + 1⟩)) ∧ s.HoldsChain v (n + 1) below rest

/-- Following segments through what is there comes to a container, with some segments left. -/
inductive Leads (s : Store) : Value → List Segment → Value → List Segment → Prop
  | here (c : Value) (segments : List Segment) : Leads s c segments c segments
  | on {c child d : Value} {segment : Segment} {rest left : List Segment} : s.readField c segment = .ok (child, s) →
      child.leadsOn = true → Leads s child rest d left → Leads s c (segment :: rest) d left

/-- Of all that was there, one slot alone is different in a second store: the one that a segment selects in a container,
which for a scope is in its own bindings. -/
def SetsOnly (s s' : Store) (c : Value) (segment : Segment) (v : Value) : Prop :=
  ∃ r cell cell', s.storage c = .ref r ∧ s.get? r = some cell ∧ s'.get? r = some cell' ∧
    cell.Sets (s.ownSegment c segment) v cell' ∧ ∀ r', r' ≠ r → r'.index < s.size → s'.get? r' = s.get? r'

/-- Every object is in a second store as it was. -/
def Persists (s s' : Store) : Prop := ∀ r c, s.get? r = some c → s'.get? r = some c

variable {s s' t : Store} {c v x : Value} {segment below : Segment} {rest : List Segment}

theorem Persists.refl (s : Store) : s.Persists s := fun _ _ h => h

theorem Persists.trans (h : s.Persists t) (h' : t.Persists s') : s.Persists s' := fun r c hc => h' r c (h r c hc)

theorem persists_alloc (s : Store) (cell : Cell) : s.Persists (s.alloc cell).2 := by
  intro r c hc
  rw [get?_alloc_lt cell (index_lt_of_get? hc)]
  exact hc

theorem persists_readField (h : s.readField c segment = .ok (x, t)) : s.Persists t := by
  cases hx : x.leadsOn with
  | true =>
    obtain ⟨rfl, -⟩ | ⟨m, rfl, -⟩ := readField_cases h hx
    · exact .refl _
    · exact persists_alloc s _
  | false =>
    obtain rfl := readField_store h hx
    exact .refl _

theorem allocFor_container (s : Store) (segment : Segment) :
    s.allocFor segment = (.ref ⟨s.size⟩, (s.alloc segment.container).2) := by
  cases segment <;> rfl

/-- A new object is the last one, and it stays as it is when another one is set. -/
theorem fresh_set_alloc {r : Ref} (cell cell' : Cell) (hr : r ≠ ⟨s.size⟩) :
    ((s.alloc cell).2.set r cell').size = s.size + 1 ∧ ((s.alloc cell).2.set r cell').get? ⟨s.size⟩ = some cell := by
  rw [size_set, size_alloc, get?_set_ne _ hr.symm]
  exact ⟨rfl, get?_alloc_self s cell⟩

/-- Nothing is found in a new container. -/
theorem readField_container {r : Ref} (h : s.get? r = some segment.container) :
    s.readField (.ref r) segment = .ok (.null, s) := by
  cases segment with
  | name text =>
    have hcell : s.cell? (.ref r) = some (.dict []) := h
    simp [readField, scope?, mapping?, hcell, Entries.atSegment, Entries.find?]
  | index n =>
    have hcell : s.cell? (.ref r) = some (.list [] .plain) := h
    simp [readField, scope?, mapping?, readItem, hcell, Except.map]

/-- The ways in which a list is refused an element at a position that would make it too long. -/
inductive TooLong (n : Nat) : Raised → Prop
  | uncounted : maxCount < n + 1 → TooLong n (.of .paddingTooLong)
  | unheld : maxLength < n + 1 → n + 1 ≤ maxCount → TooLong n (.of .noMemory)

/-- A new container takes an entry, unless it is a list and has to be longer than a list can be. -/
theorem writeField_container {r : Ref} (v : Value) (h : s.get? r = some segment.container) :
    s.writeField (.ref r) segment v = .ok (s.set r (segment.holding v)) ∨
      ∃ e n, s.writeField (.ref r) segment v = .error e ∧ segment = .index n ∧ TooLong n e := by
  cases segment with
  | name text =>
    have hcell : s.cell? (.ref r) = some (.dict []) := h
    left
    simp [writeField, scope?, hcell, Entries.setSegment, Entries.put, Segment.holding]
  | index n =>
    have hcell : s.cell? (.ref r) = some (.list [] .plain) := h
    by_cases hcount : maxCount < n + 1
    · exact .inr ⟨_, n, by simp [writeField, scope?, hcell, setElement, hcount, Except.map], rfl, .uncounted hcount⟩
    by_cases hlength : maxLength < n + 1
    · exact .inr ⟨_, n, by simp [writeField, scope?, hcell, setElement, hcount, hlength, Except.map], rfl,
        .unheld hlength (Nat.not_lt.1 hcount)⟩
    · left
      simp [writeField, scope?, hcell, setElement, hcount, hlength, Except.map, Segment.holding]

/-- Below a new container a write makes a chain of containers and leaves all older objects alone; it is refused only if a
list would have to be too long. -/
theorem assignBelow_container (v : Value) (rest : List Segment) : ∀ {s : Store} {segment : Segment} {n : Nat},
    s.size = n + 1 → s.get? ⟨n⟩ = some segment.container →
      (∀ r : Ref, r.index < n → (s.assignBelow (.ref ⟨n⟩) v segment rest).1.get? r = s.get? r) ∧
      (((s.assignBelow (.ref ⟨n⟩) v segment rest).2 = none ∧
          (s.assignBelow (.ref ⟨n⟩) v segment rest).1.HoldsChain v n segment rest ∧
          (s.assignBelow (.ref ⟨n⟩) v segment rest).1.size = n + 1 + rest.length) ∨
        ∃ e i, (s.assignBelow (.ref ⟨n⟩) v segment rest).2 = some e ∧ .index i ∈ segment :: rest ∧ TooLong i e) := by
  induction rest with
  | nil =>
    intro s segment n hsize hcell
    rw [assignBelow]
    obtain hw | ⟨e, i, hw, rfl, hlong⟩ := writeField_container v hcell <;> rw [hw]
    · refine ⟨fun r hr => get?_set_ne _ fun heq => ?_, .inl ⟨rfl, ?_, ?_⟩⟩
      · exact absurd (congrArg Ref.index heq) (Nat.ne_of_lt hr)
      · exact get?_set_self _ (index_lt_of_get? hcell)
      · rw [size_set, hsize, List.length_nil]
    · exact ⟨fun _ _ => rfl, .inr ⟨e, i, rfl, List.mem_cons_self, hlong⟩⟩
  | cons below rest ih =>
    intro s segment n hsize hcell
    have hkept : ∀ r : Ref, r.index < s.size → (s.alloc below.container).2.get? r = s.get? r :=
      fun r hr => get?_alloc_lt _ hr
    have hcell' : (s.alloc below.container).2.get? ⟨n⟩ = some segment.container := by
      rw [hkept ⟨n⟩ (index_lt_of_get? hcell), hcell]
    rw [assignBelow, readField_container hcell]
    simp only [allocFor_container, hsize, decide_true, Bool.true_or, if_true]
    obtain hw | ⟨e, i, hw, rfl, hlong⟩ := writeField_container (.ref ⟨n + 1⟩) hcell' <;> rw [hw]
    · have hne : (⟨n⟩ : Ref) ≠ ⟨s.size⟩ := by simp [hsize]
      obtain ⟨htsize, hfresh⟩ := fresh_set_alloc below.container (segment.holding (.ref ⟨n + 1⟩)) hne
      rw [hsize] at htsize hfresh
      generalize ht : (s.alloc below.container).2.set ⟨n⟩ (segment.holding (.ref ⟨n + 1⟩)) = t at htsize hfresh
      have hself : t.get? ⟨n⟩ = some (segment.holding (.ref ⟨n + 1⟩)) := by
        rw [← ht, get?_set_self _ (index_lt_of_get? hcell')]
      have hother : ∀ r : Ref, r ≠ ⟨n⟩ → t.get? r = (s.alloc below.container).2.get? r := by
        intro r hr
        rw [← ht, get?_set_ne _ hr]
      obtain ⟨hleft, hend⟩ := ih htsize hfresh
      refine ⟨fun r hr => ?_, ?_⟩
      · rw [hleft r (Nat.lt_succ_of_lt hr), hother r fun heq => absurd (congrArg Ref.index heq) (Nat.ne_of_lt hr)]
        exact hkept r (by omega)
      · obtain ⟨hnone, hchain, hgrown⟩ | ⟨e, i, herror, hi, hlong⟩ := hend
        · refine .inl ⟨hnone, ⟨?_, hchain⟩, ?_⟩
          · rw [hleft ⟨n⟩ (Nat.lt_succ_self n), hself]
          · rw [hgrown, List.length_cons]
            omega
        · exact .inr ⟨e, i, herror, List.mem_cons_of_mem _ hi, hlong⟩
    · exact ⟨fun r hr => hkept r (by omega), .inr ⟨e, i, rfl, List.mem_cons_self, hlong⟩⟩

/-! ## Writes that are refused -/

/-- A write below a container that is refused has changed nothing that was there, unless a list would have to be too
long. -/
theorem persists_assignBelow {e : Raised} {rest : List Segment} : ∀ {s s' : Store} {c : Value} {segment : Segment},
    s.assignBelow c v segment rest = (s', some e) →
      s.Persists s' ∨ ∃ i, .index i ∈ segment :: rest ∧ TooLong i e := by
  induction rest with
  | nil =>
    intro s s' c segment h
    rw [assignBelow] at h
    split at h <;> cases h
    exact .inl (.refl _)
  | cons below rest ih =>
    intro s s' c segment h
    have hbelow : ∀ {t : Store} {d : Value}, s.Persists t → t.assignBelow d v below rest = (s', some e) →
        s.Persists s' ∨ ∃ i, .index i ∈ segment :: below :: rest ∧ TooLong i e := by
      intro t d hst hd
      obtain hkept | ⟨i, hi, hlong⟩ := ih hd
      · exact .inl (hst.trans hkept)
      · exact .inr ⟨i, List.mem_cons_of_mem _ hi, hlong⟩
    rw [assignBelow] at h
    cases hread : s.readField c segment with
    | error e' =>
      rw [hread] at h
      cases h
      exact .inl (.refl _)
    | ok found =>
      obtain ⟨child, t⟩ := found
      have hst := persists_readField hread
      simp only [hread] at h
      split at h
      · rename_i hchild
        simp only [allocFor_container] at h
        obtain rfl := readField_store hread (by simp [Value.leadsOn, hchild])
        split at h
        · rename_i u hw
          obtain ⟨r, cell, cell', -, hcell, -, rfl, -⟩ := writeField_cases hw
          by_cases hr : r = ⟨t.size⟩
          · -- the container is the new one itself, so that nothing that was there has been set
            refine hbelow (fun r' c' hc' => ?_) h
            have hne : r' ≠ r := by
              rintro rfl
              exact absurd (index_lt_of_get? hc') (by rw [hr]; exact Nat.lt_irrefl _)
            rw [get?_set_ne _ hne]
            exact persists_alloc t _ r' c' hc'
          · -- the container was there before: below the new one nothing but a list can refuse
            obtain ⟨hsize, hfresh⟩ := fresh_set_alloc below.container cell' hr
            obtain ⟨-, ⟨hnone, -⟩ | ⟨e', i, herror, hi, hlong⟩⟩ := assignBelow_container v rest hsize hfresh
            · rw [h] at hnone
              cases hnone
            · rw [h] at herror
              cases herror
              exact .inr ⟨i, List.mem_cons_of_mem _ hi, hlong⟩
        · cases h
          exact .inl (persists_alloc t _)
      · exact hbelow hst h

end Store

/-- **A write at a path that is refused leaves every object as it was**, with one exception: the errors that a list would
have to be longer than lists can be, for an index of the path. -/
theorem unchanged_of_assign_error {s s' : Store} {p : Path} {v : Value} {ctx : Context} {e : Raised}
    (h : s.assign p v ctx = (s', some e)) :
    s.Persists s' ∨ ∃ n, .index n ∈ p.segments ∧ Store.TooLong n e := by
  unfold Store.assign at h
  split at h
  · cases h
    exact .inl (.refl _)
  · cases hp : p.segments with
    | nil =>
      rw [hp] at h
      cases h
      exact .inl (.refl _)
    | cons segment rest =>
      simp only [hp] at h
      split at h
      · cases h
        exact .inl (.refl _)
      · exact Store.persists_assignBelow h

namespace Overlong

/-- An empty dictionary. -/
def store : Store := ⟨#[.dict []]⟩

/-- The dictionary as context object. -/
def context : Context := ⟨.ref ⟨0⟩, .null, .null⟩

/-- The paths that spell `this.a[n]`. -/
def path (n : Nat) (digits : String) : Path := ⟨.this, [.name "a", .index n], "this.a[" ++ digits ++ "]"⟩

/-- The dictionary with a new list in it. -/
def after : Store := ⟨#[.dict [(.text "a", .ref ⟨1⟩)], .list [] .plain]⟩

theorem parse_path {n : Nat} (digits : String) (hne : digits.toList ≠ [])
    (hbare : ∀ c ∈ digits.toList, Path.inBare c = true)
    (hn : (Path.Piece.bare digits.toList).decode = .ok (.index n)) :
    Path.parse ("this.a[" ++ digits ++ "]") = .ok (path n digits) := by
  have hthis : (Path.Piece.name "this".toList).Spelled true "this".toList :=
    .first (by decide) (List.all_eq_true.1 rfl)
  have hkey : (Path.Piece.name ['a']).Spelled false ".a".toList := .later (by decide) (List.all_eq_true.1 rfl)
  have hscan := Path.scan_path hthis (.cons hkey (.cons (.bare hne hbare) .nil))
  have htext : ("this.a[" ++ digits ++ "]").toList =
      "this".toList ++ (".a".toList ++ ('[' :: digits.toList ++ [']'] ++ [])) := by
    simp
  have hdecode : [Path.Piece.name "this".toList, .name ['a'], .bare digits.toList].mapM Path.Piece.decode =
      .ok [.name "this", .name "a", .index n] := by
    simp only [List.mapM_cons, List.mapM_nil, hn]
    rfl
  rw [Path.parse_eq_map (by simp), htext, hscan, hdecode]
  rfl

theorem parse_uncounted : Path.parse "this.a[9223372036854775807]" = .ok (path 0x7fffffffffffffff "9223372036854775807") :=
  parse_path "9223372036854775807" (by decide) (List.all_eq_true.1 rfl) rfl

theorem parse_unheld : Path.parse "this.a[1152921504606846976]" = .ok (path 0x1000000000000000 "1152921504606846976") :=
  parse_path "1152921504606846976" (by decide) (List.all_eq_true.1 rfl) rfl

end Overlong

open Overlong in
/-- A list that would have to be too long stays where it was put, without elements. -/
theorem unchanged_of_assign_error_overlong :
    store.assign (path 0x7fffffffffffffff "9223372036854775807") .null context =
        (after, some (.of .paddingTooLong)) ∧ ¬ store.Persists after ∧
      (store.Persists after ∨ ∃ n, .index n ∈ (path 0x7fffffffffffffff "9223372036854775807").segments ∧
        Store.TooLong n (.of .paddingTooLong)) := by
  have h : store.assign (path 0x7fffffffffffffff "9223372036854775807") .null context =
      (after, some (.of .paddingTooLong)) := rfl
  refine ⟨h, fun hkept => ?_, unchanged_of_assign_error h⟩
  cases hkept ⟨0⟩ (.dict []) rfl

open Overlong in
/-- The exception is about the length of the list and not about the index: a new list with an element at the largest index
of the range is one longer than the range. And a list may be refused memory within the range. -/
theorem not_unchanged_of_assign_error :
    (¬ ∀ (s s' : Store) (text : String) (p : Path) (v : Value) (ctx : Context) (e : Raised), Path.parse text = .ok p →
      s.assign p v ctx = (s', some e) → s.Persists s' ∨ e.cause.kind = .memory ∨
        (e = .of .paddingTooLong ∧ ∃ n, .index n ∈ p.segments ∧ Store.maxCount < n)) ∧
    ¬ ∀ (s s' : Store) (text : String) (p : Path) (v : Value) (ctx : Context) (e : Raised), Path.parse text = .ok p →
      s.assign p v ctx = (s', some e) → s.Persists s' ∨ e = .of .paddingTooLong := by
  have hchanged : ¬ store.Persists after := by
    intro hkept
    cases hkept ⟨0⟩ (.dict []) rfl
  constructor
  · intro hall
    have h : store.assign (path 0x7fffffffffffffff "9223372036854775807") .null context =
        (after, some (.of .paddingTooLong)) := rfl
    obtain hkept | hkind | ⟨-, n, hn, hlong⟩ := hall _ _ _ _ _ _ _ parse_uncounted h
    · exact hchanged hkept
    · cases hkind
    · obtain rfl : n = Store.maxCount := by simpa [path, Store.maxCount] using hn
      exact Nat.lt_irrefl _ hlong
  · intro hall
    have h : store.assign (path 0x1000000000000000 "1152921504606846976") .null context =
        (after, some (.of .noMemory)) := rfl
    obtain hkept | he := hall _ _ _ _ _ _ _ parse_unheld h
    · exact hchanged hkept
    · cases he

/-! ## Writes that succeed -/

namespace Store

variable {s s' t : Store} {c v x : Value} {segment below : Segment} {rest : List Segment}

/-- What a write changes if it comes to a container and the segments left there: it sets the slot of the last segment; or,
if there are more segments and null or a scalar is found, it puts a chain of new containers there. -/
def WritesFrom (s s' : Store) (c : Value) (segment : Segment) (v : Value) : List Segment → Prop
  | [] => s.SetsOnly s' c segment v ∧ s'.size = s.size
  | below :: rest =>
    (∃ old, s.readField c segment = .ok (old, s) ∧ (old = .null ∨ old.isScalar = true)) ∧
      s.SetsOnly s' c segment (.ref ⟨s.size⟩) ∧ s'.HoldsChain v s.size below rest ∧
      s'.size = s.size + (below :: rest).length

/-- What is found below a container is there. -/
theorem Closed.knows_of_finds (hclosed : s.Closed) (h : s.Finds c segment x) : s.Knows x := by
  have hcell : ∀ d cell, s.cell? d = some cell → x ∈ cell.contents → s.Knows x := by
    intro d cell hd hx
    cases d with
    | ref r => exact hclosed r cell hd x hx
    | _ => cases hd
  obtain ⟨-, hx⟩ | ⟨-, hx⟩ := h
  · obtain ⟨cell, hc, hf⟩ := Option.bind_eq_some_iff.1 hx
    exact hcell c cell hc (Cell.mem_contents_of_field? hf)
  · obtain ⟨b, hb⟩ := exists_valueAt?_of_lookup? hx
    obtain ⟨cell, hc, hmem⟩ := mem_of_valueAt? hb
    exact hcell b cell hc (Cell.fields_subset_contents hmem)

/-- The bindings of a scope are there. -/
theorem Closed.knows_of_scope? {b p : Value} (hclosed : s.Closed) (h : s.scope? c = some (b, p)) : s.Knows b := by
  rw [scope?_eq] at h
  obtain ⟨cell, hc, hscope⟩ := Option.bind_eq_some_iff.1 h
  cases c with
  | ref r =>
    refine hclosed r cell hc b ?_
    cases cell <;> cases hscope
    exact List.mem_cons_self
  | _ => cases hc

theorem Closed.knows_storage (hclosed : s.Closed) (hc : s.Knows c) : s.Knows (s.storage c) := by
  unfold storage
  cases h : s.scope? c with
  | none => exact hc
  | some bp => exact hclosed.knows_of_scope? h

theorem storage_alloc {cell : Cell} (h : cell.scope? = none) (s : Store) (c : Value) :
    (s.alloc cell).2.storage c = s.storage c := by
  rw [storage, storage, scope?_alloc h]

/-- One write to a container sets one slot. -/
theorem setsOnly_writeField (h : s.writeField c segment v = .ok s') : s.SetsOnly s' c segment v := by
  obtain ⟨r, cell, cell', hr, hc, hset, rfl, -⟩ := writeField_cases h
  exact ⟨r, cell, cell', hr, hc, get?_set_self cell' (index_lt_of_get? hc), Cell.sets_of_setField? hset,
    fun r' hne _ => get?_set_ne cell' hne⟩

/-- A new container put into a container that was there before: one slot is set, and the rest of the path goes on in the
new container alone. -/
theorem setsOnly_attach (hclosed : s.Closed) (hc : s.Knows c)
    (hw : (s.alloc below.container).2.writeField c segment (.ref ⟨s.size⟩) = .ok t)
    (h : t.assignBelow (.ref ⟨s.size⟩) v below rest = (s', none)) :
    s.SetsOnly s' c segment (.ref ⟨s.size⟩) ∧ s'.HoldsChain v s.size below rest ∧
      s'.size = s.size + (below :: rest).length := by
  obtain ⟨r, cell, cell', hr, hcell, hset, rfl, -⟩ := writeField_cases hw
  rw [storage_alloc below.scope?_container] at hr
  rw [ownSegment, scope?_alloc below.scope?_container] at hset
  have hlt : r.index < s.size := hclosed.knows_storage hc r hr
  have hne : r ≠ ⟨s.size⟩ := by
    rintro rfl
    exact Nat.lt_irrefl _ hlt
  obtain ⟨hsize, hfresh⟩ := fresh_set_alloc below.container cell' hne
  have hbelow := assignBelow_container v rest hsize hfresh
  rw [h] at hbelow
  obtain ⟨hkept, ⟨-, hchain, hgrown⟩ | ⟨e, i, herror, -⟩⟩ := hbelow
  · refine ⟨⟨r, cell, cell', hr, ?_, ?_, Cell.sets_of_setField? hset, ?_⟩, hchain, ?_⟩
    · rwa [get?_alloc_lt _ hlt] at hcell
    · rw [hkept r hlt, get?_set_self _ (index_lt_of_get? hcell)]
    · intro r' hr' hlt'
      rw [hkept r' hlt', get?_set_ne _ hr', get?_alloc_lt _ hlt']
    · rw [hgrown, List.length_cons]
      omega
  · cases herror

/-- A write below a container that succeeds goes on through what is there, and changes one slot. -/
theorem writesFrom_assignBelow {v : Value} {rest : List Segment} : ∀ {s s' : Store} {c : Value} {segment : Segment},
    s.Closed → s.Knows c → s.assignBelow c v segment rest = (s', none) →
      ∃ d last left, s.Leads c (segment :: rest) d (last :: left) ∧ s.WritesFrom s' d last v left ∧
        ∃ u ∈ s.visits c segment rest, u.container = d := by
  induction rest with
  | nil =>
    intro s s' c segment hclosed hc h
    rw [assignBelow] at h
    split at h
    · rename_i t hw
      cases h
      obtain ⟨r, cell, cell', -, -, -, hset, -⟩ := writeField_cases hw
      refine ⟨c, segment, [], .here _ _, ⟨setsOnly_writeField hw, ?_⟩, _, List.mem_singleton_self _, rfl⟩
      rw [hset, size_set]
    · cases h
  | cons below rest ih =>
    intro s s' c segment hclosed hc h
    rw [assignBelow] at h
    rw [visits]
    cases hread : s.readField c segment with
    | error e =>
      rw [hread] at h
      cases h
    | ok found =>
      obtain ⟨child, t⟩ := found
      simp only [hread] at h ⊢
      by_cases hchild : (child = .null || child.isScalar) = true
      · obtain rfl := readField_store hread (by simp [Value.leadsOn, hchild])
        simp only [hchild, if_true, allocFor_container] at h
        split at h
        · rename_i u hw
          refine ⟨c, segment, below :: rest, .here _ _, ⟨⟨child, hread, ?_⟩, setsOnly_attach hclosed hc hw h⟩, _,
            List.mem_cons_self, rfl⟩
          simpa using hchild
        · cases h
      · have hlead : child.leadsOn = true := by simp [Value.leadsOn, hchild]
        simp only [hchild, Bool.false_eq_true, if_false] at h ⊢
        obtain ⟨rfl, hfinds⟩ | ⟨m, rfl, rfl⟩ := readField_cases hread hlead
        · obtain ⟨d, last, left, hleads, hwrites, u, hu, hud⟩ := ih hclosed (hclosed.knows_of_finds hfinds) h
          exact ⟨d, last, left, .on hread hlead hleads, hwrites, u, List.mem_cons_of_mem _ hu, hud⟩
        · have hm : (s.alloc (.method c m)).2.cell? (.ref (s.alloc (.method c m)).1) = some (.method c m) :=
            get?_alloc_self s (.method c m)
          exact absurd (by rw [h]) (assignBelow_method hm)

/-- If one slot of a container is set, only the storage of that container changes. -/
theorem SetsOnly.eq_storage {b : Value} (h : s.SetsOnly s' c segment v) (hb : s.Knows b) (hne : s'.cell? b ≠ s.cell? b) :
    s.storage c = b := by
  obtain ⟨r, _, _, hr, -, -, -, hframe⟩ := h
  cases b with
  | ref r' =>
    by_cases heq : r' = r
    · rw [hr, heq]
    · exact absurd (hframe r' heq (hb r' rfl)) hne
  | _ => exact absurd rfl hne

theorem WritesFrom.setsOnly {left : List Segment} (h : s.WritesFrom s' c segment v left) :
    ∃ w, s.SetsOnly s' c segment w := by
  cases left with
  | nil => exact ⟨v, h.1⟩
  | cons below rest => exact ⟨_, h.2.1⟩

end Store

/-- **A write at a path that succeeds changes one slot of what was there.** The path goes through containers that are
there for as long as what it finds is neither null nor a scalar. If it comes to the container of its last segment in this
way, the slot of that segment now holds the value. If not, the slot at which it ended now holds a chain of new
containers, one for each segment left, each holding nothing but the next one, and the last the value. So bindings change
only if they, or a scope that has them, are a container on the path, and the keys of a dictionary keep their order. -/
theorem assign_effect {s s' : Store} {p : Path} {v : Value} {ctx : Context} (hclosed : s.Closed)
    (hroot : s.Knows (ctx.rootValue p.root)) (h : s.assign p v ctx = (s', none)) :
    (∃ c segment rest, s.Leads (ctx.rootValue p.root) p.segments c (segment :: rest) ∧
      s.WritesFrom s' c segment v rest) ∧
    (∀ scope b parent, s.scope? scope = some (b, parent) → s'.cell? b ≠ s.cell? b →
      ∃ u ∈ s.route p ctx, u.container = b ∨ ∃ parent', s.scope? u.container = some (b, parent')) ∧
    ∀ r entries, s.get? r = some (.dict entries) →
      ∃ entries', s'.get? r = some (.dict entries') ∧ entries.keys <+: Entries.keys entries' := by
  obtain ⟨segment, rest, hp, -, -, hbelow⟩ := Store.assign_cases h
  obtain ⟨c, last, left, hleads, hwrites, u, hu, rfl⟩ := Store.writesFrom_assignBelow hclosed hroot hbelow
  refine ⟨⟨u.container, last, left, by rw [hp]; exact hleads, hwrites⟩, ?_, ?_⟩
  · intro scope b parent hscope hne
    obtain ⟨w, hsets⟩ := hwrites.setsOnly
    have hstorage := hsets.eq_storage (hclosed.knows_of_scope? hscope) hne
    refine ⟨u, by simpa [Store.route, hp] using hu, ?_⟩
    unfold Store.storage at hstorage
    cases hc : s.scope? u.container with
    | none => exact .inl (by simpa [hc] using hstorage)
    | some bp => exact .inr ⟨bp.2, by rw [hc] at hstorage; rw [← hstorage]; rfl⟩
  · intro r entries hr
    have hgrown : s.Expands (fun _ => True) (s.assign p v ctx).1 := s.expands_assign p v ctx
    have hexpands := hgrown r _ hr
    rw [h] at hexpands
    obtain ⟨c', hc', entries', rfl, hkeys⟩ := hexpands
    exact ⟨entries', hc', hkeys⟩

namespace Outer

/-- A scope without bindings of its own; its parent binds `a` to a number. -/
def store : Store :=
  ⟨#[.dict [(.text "a", .int 5)], .scope (.ref ⟨0⟩) .null, .dict [], .scope (.ref ⟨2⟩) (.ref ⟨1⟩)]⟩

/-- The inner scope as variables. -/
def context : Context := ⟨.null, .ref ⟨3⟩, .null⟩

/-- The path `a.b[1]`. -/
def path : Path := ⟨.scope, [.name "a", .name "b", .index 1], "a.b[1]"⟩

/-- The store with a new `a` in the inner scope. -/
def after : Store :=
  ⟨#[.dict [(.text "a", .int 5)], .scope (.ref ⟨0⟩) .null, .dict [(.text "a", .ref ⟨4⟩)],
    .scope (.ref ⟨2⟩) (.ref ⟨1⟩), .dict [(.text "b", .ref ⟨5⟩)], .list [.null, .bool true] .plain]⟩

end Outer

open Outer in
/-- A number found in an outer scope is not replaced there: the new containers are bound in the inner scope. -/
theorem assign_effect_outer_number :
    (store.Closed ∧ store.Knows (context.rootValue path.root) ∧ store.assign path (.bool true) context = (after, none)) ∧
      (∃ c segment rest, store.Leads (context.rootValue path.root) path.segments c (segment :: rest) ∧
        store.WritesFrom after c segment (.bool true) rest) ∧
      after.get? ⟨0⟩ = store.get? ⟨0⟩ := by
  have h : store.assign path (.bool true) context = (after, none) := rfl
  exact ⟨⟨by decide, by decide, h⟩, (assign_effect (by decide) (by decide) h).1, rfl⟩

namespace SharedBindings

/-- Two scopes with one dictionary as their bindings. -/
def store : Store := ⟨#[.dict [], .scope (.ref ⟨0⟩) .null, .scope (.ref ⟨0⟩) .null]⟩

/-- The second scope as variables. -/
def context : Context := ⟨.null, .ref ⟨2⟩, .null⟩

/-- The path `x`. -/
def path : Path := ⟨.scope, [.name "x"], "x"⟩

/-- The store with `x` bound. -/
def after : Store := ⟨#[.dict [(.text "x", .int 1)], .scope (.ref ⟨0⟩) .null, .scope (.ref ⟨0⟩) .null]⟩

end SharedBindings

open SharedBindings in
/-- The bindings of a scope change without it or them being on the path, if another scope that is on the path has the
same bindings. -/
theorem not_assign_leaves_other_scopes :
    ¬ ∀ (s s' : Store) (text : String) (p : Path) (v : Value) (ctx : Context), Path.parse text = .ok p → s.Closed →
      s.Knows (ctx.rootValue p.root) → s.assign p v ctx = (s', none) →
      ∀ scope b parent, s.scope? scope = some (b, parent) → s'.cell? b ≠ s.cell? b →
        ∃ u ∈ s.route p ctx, u.container = scope ∨ u.container = b := by
  intro hall
  have hparse : Path.parse "x" = .ok path := by
    simp [Path.parse, Path.scan]
    rfl
  have hassign : store.assign path (.int 1) context = (after, none) := rfl
  have hchanged : after.cell? (.ref ⟨0⟩) ≠ store.cell? (.ref ⟨0⟩) := by rintro ⟨⟩
  obtain ⟨u, hu, hcontainer⟩ :=
    hall _ _ _ _ _ _ hparse (by decide) (by decide) hassign (.ref ⟨1⟩) (.ref ⟨0⟩) .null rfl hchanged
  have hroute : store.route path context = [⟨store, .ref ⟨2⟩, .name "x"⟩] := rfl
  rw [hroute, List.mem_singleton] at hu
  subst hu
  rcases hcontainer with h | h <;> cases h

end ListScript
