import ListScript.Proofs.DistinctNames
import ListScript.Proofs.PairingLookup
import ListScript.Proofs.WriteEffect

/-!
# The function and the receiver of a method call

A call whose target is a path follows the path twice: all of it for the function, and all but its last segment for the
receiver. In between nothing can change but that the first walk may have bound a method, which is one more object. The
second walk comes to the same object nevertheless (`readBelow_again`), so that function and receiver belong together:
the function is what the last segment finds on the receiver (`read_parent_of_methodAt`).

The reason is that a new object disturbs no reading. What a segment finds is a value or a method to be bound
(`Store.reading`), and that is found in the store with one more method as well (`reading_alloc`).
-/

namespace ListScript

namespace Path

variable {path parent : Path}

theorem exists_last_of_parent (h : path.parent = some parent) :
    ∃ last, path.segments.getLast? = some last ∧ path.segments = parent.segments ++ [last] ∧ parent.root = path.root := by
  unfold Path.parent at h
  split at h
  · cases h
  · rename_i hsegments
    cases h
    have hne : path.segments ≠ [] := by
      rintro hnil
      simp [hnil] at hsegments
    exact ⟨path.segments.getLast hne, List.getLast?_eq_some_getLast hne, (List.dropLast_concat_getLast hne).symm, rfl⟩

/-- A path has a parent if there is a segment below the object, and if there are two below the variables. -/
theorem isSome_parent_iff :
    path.parent.isSome = true ↔ path.segments ≠ [] ∧ (path.root = .scope → 2 ≤ path.segments.length) := by
  unfold Path.parent
  cases hsegments : path.segments with
  | nil => simp
  | cons first rest => cases rest <;> simp

end Path

namespace Store

variable {s t : Store} {c v w : Value} {segment : Segment} {segments : List Segment} {found : Reading}

/-! ## Readings -/

/-- What a segment finds below a container. -/
def reading (s : Store) (container : Value) (segment : Segment) : Except Raised Reading :=
  if (s.scope? container).isSome then do
    let found ← s.lookup? container (.text segment.keyText)
    return .stored (found.getD .null)
  else
    match s.mapping? container with
    | some entries => .ok (.stored ((Entries.atSegment entries segment).getD .null))
    | none =>
      match segment with
      | .index n => (s.readItem container n).map .stored
      | .name text =>
        if isPrivate text then .ok (.stored .null)
        else do
          let found ← s.attribute? container text
          return found.getD (.stored .null)

/-- Reading a segment binds what it finds to the container. -/
theorem readField_eq (s : Store) (c : Value) (segment : Segment) :
    s.readField c segment = (s.reading c segment).map (s.materialize c) := by
  unfold readField reading
  split
  · cases s.lookup? c (.text segment.keyText) <;> rfl
  · cases s.mapping? c with
    | some entries => rfl
    | none =>
      cases segment with
      | index n =>
        dsimp only
        cases s.readItem c n <;> rfl
      | name text =>
        dsimp only
        split
        · rfl
        · cases s.attribute? c text with
          | error e => rfl
          | ok found => cases found <;> rfl

theorem readField_eq_ok (h : s.readField c segment = .ok (v, t)) :
    ∃ found, s.reading c segment = .ok found ∧ s.materialize c found = (v, t) := by
  rw [readField_eq] at h
  cases hfound : s.reading c segment with
  | error e => rw [hfound] at h; cases h
  | ok found =>
    rw [hfound] at h
    exact ⟨found, rfl, by injection h⟩

/-- What a segment finds below a container that is no scope depends on the container alone. -/
theorem reading_congr (hcell : t.cell? c = s.cell? c) (hscope : s.scope? c = none) :
    t.reading c segment = s.reading c segment := by
  have hscope' : t.scope? c = none := by rw [scope?_eq, hcell, ← scope?_eq, hscope]
  have hmapping : t.mapping? c = s.mapping? c := by rw [mapping?_eq, hcell, ← mapping?_eq]
  have hitem : ∀ n, t.readItem c n = s.readItem c n := by
    intro n
    cases c <;> simp only [readItem, hcell]
  have hattribute : ∀ text, t.attribute? c text = s.attribute? c text := by
    intro text
    cases c <;> simp only [attribute?, methodsOf, hcell]
  simp only [reading, hscope, hscope', hmapping, hitem, hattribute, Option.isSome_none, Bool.false_eq_true, if_false]

/-- Nothing is found below a reference that leads nowhere. -/
theorem reading_dangling {r : Ref} (h : s.get? r = none) : s.reading (.ref r) segment = .ok (.stored .null) := by
  have hcell : s.cell? (.ref r) = none := h
  cases segment with
  | index n => simp [reading, scope?, mapping?, readItem, hcell, Except.map]
  | name text =>
    have hattribute : s.attribute? (.ref r) text = .ok none := by
      simp [attribute?, methodsOf, Host.Method.named?, hcell]
    simp only [reading, scope?, mapping?, hcell, Option.isSome_none, Bool.false_eq_true, if_false, hattribute]
    split <;> rfl

/-! ## Readings in a store with more objects -/

theorem cell?_alloc_self (s : Store) (cell : Cell) : (s.alloc cell).2.cell? (.ref (s.alloc cell).1) = some cell :=
  s.get?_alloc_self cell

theorem Persists.cell?_eq (h : s.Persists t) {cell : Cell} (hc : s.cell? c = some cell) : t.cell? c = some cell := by
  cases c with
  | ref r => exact h r cell hc
  | _ => cases hc

theorem valueAt?_of_persists (h : s.Persists t) {b : Value} {key : String} {found : Option Value}
    (hfound : s.valueAt? b (.text key) = .ok found) : t.valueAt? b (.text key) = .ok found := by
  cases b with
  | ref r =>
    cases hc : s.cell? (.ref r) with
    | none => simp [valueAt?, mapping?, valueElsewhere?, hc] at hfound
    | some cell =>
      have hmapping : t.mapping? (.ref r) = s.mapping? (.ref r) := by
        rw [mapping?_eq, mapping?_eq, hc, h.cell?_eq hc]
      cases hentries : s.mapping? (.ref r) with
      | none =>
        have htype : t.typeName (.text key) = s.typeName (.text key) := rfl
        rw [valueAt?, hentries] at hfound
        rw [valueAt?, hmapping, hentries, ← hfound]
        simp only [valueElsewhere?, valueElsewhere?.among, hc, h.cell?_eq hc, alike_text, htype] at hfound ⊢
        cases cell with
        | list items flavor => rfl
        | tuple items => rfl
        | _ => cases hfound -- an error
      | some entries =>
        rw [valueAt?_text hentries] at hfound
        rw [valueAt?_text (hmapping.trans hentries), hfound]
  | _ => exact hfound -- what is found does not depend on the store

/-- What stands behind a reference that something is found at stays there. -/
theorem hiddenAttribute?_of_persists (h : s.Persists t) {name : String} (hw : s.hiddenAttribute? c name = some w) :
    t.hiddenAttribute? c name = some w := by
  obtain ⟨cell, hc, hcell⟩ := Option.bind_eq_some_iff.1 hw
  rw [hiddenAttribute?, h.cell?_eq hc]
  exact hcell

theorem needHidden_of_persists (h : s.Persists t) {name : String} (hw : s.needHidden c name = .ok w) :
    t.needHidden c name = .ok w := by
  unfold needHidden at hw ⊢
  cases hfound : s.hiddenAttribute? c name with
  | none => rw [hfound] at hw; cases hw
  | some w' =>
    rw [hfound] at hw
    rw [hiddenAttribute?_of_persists h hfound]
    exact hw

theorem bindingsOf_of_persists (h : s.Persists t) {b : Value} (hb : s.bindingsOf c = .ok b) : t.bindingsOf c = .ok b := by
  cases hc : s.cell? c with
  | none => simp [bindingsOf, scope?, needHidden, hiddenAttribute?, hc] at hb
  | some cell =>
    have hscope : t.scope? c = s.scope? c := by rw [scope?_eq, h.cell?_eq hc, scope?_eq, hc]
    rw [bindingsOf, hscope]
    rw [bindingsOf] at hb
    cases hs : s.scope? c with
    | some bp => rw [hs] at hb; exact hb
    | none => rw [hs] at hb; exact needHidden_of_persists h hb

theorem parentOf_of_persists (h : s.Persists t) {p : Value} (hp : s.parentOf c = .ok p) : t.parentOf c = .ok p := by
  cases hc : s.cell? c with
  | none => simp [parentOf, scope?, needHidden, hiddenAttribute?, hc] at hp
  | some cell =>
    have hscope : t.scope? c = s.scope? c := by rw [scope?_eq, h.cell?_eq hc, scope?_eq, hc]
    rw [parentOf, hscope]
    rw [parentOf] at hp
    cases hs : s.scope? c with
    | some bp => rw [hs] at hp; exact hp
    | none => rw [hs] at hp; exact needHidden_of_persists h hp

theorem ownerWithin_of_persists (h : s.Persists t) {key : String} {found : Option (Value × Value)} {n : Nat} :
    ∀ {c : Value}, s.ownerWithin (.text key) n c = .ok found → t.ownerWithin (.text key) n c = .ok found := by
  induction n with
  | zero => exact id
  | succ n ih =>
    intro c hfound
    by_cases hne : c = .null
    · subst hne
      exact hfound
    rw [ownerWithin_succ hne] at hfound ⊢
    obtain ⟨own, hbound, hfound⟩ := bind_eq_ok.1 hfound
    obtain ⟨b, hb, hvalue⟩ := bind_eq_ok.1 hbound
    have hbound' : t.boundAt (.text key) c = .ok own :=
      bind_eq_ok.2 ⟨b, bindingsOf_of_persists h hb, valueAt?_of_persists h hvalue⟩
    refine bind_eq_ok.2 ⟨own, hbound', ?_⟩
    cases own with
    | some x => exact hfound
    | none =>
      obtain ⟨p, hp, hfound⟩ := bind_eq_ok.1 hfound
      exact bind_eq_ok.2 ⟨p, parentOf_of_persists h hp, ih hfound⟩

/-- A name that is looked up in a scope is found there with one more object: a chain that does not end in as many steps
as there are objects has no end, and another step finds nothing more. -/
theorem lookup?_alloc (cell : Cell) {key : String} {found : Option Value} (h : s.lookup? c (.text key) = .ok found) :
    (s.alloc cell).2.lookup? c (.text key) = .ok found := by
  unfold lookup? at h ⊢
  cases howner : s.owner? c (.text key) with
  | error e => rw [howner] at h; cases h
  | ok owner =>
    have hmore : s.ownerWithin (.text key) (s.size + 1 + 1) c = .ok owner := (s.ownerWithin_eq _ _ 1).trans howner
    rw [owner?, size_alloc, ownerWithin_of_persists (s.persists_alloc cell) hmore]
    rw [howner] at h
    exact h

/-- What a segment finds is found in a store with one more method. -/
theorem reading_alloc (owner : Value) (m : Host.Method) (h : s.reading c segment = .ok found) :
    (s.alloc (.method owner m)).2.reading c segment = .ok found := by
  have hkept : (s.alloc (.method owner m)).2.scope? c = s.scope? c := scope?_alloc rfl s c
  cases hscope : s.scope? c with
  | some bp =>
    simp only [reading, hkept, hscope, Option.isSome_some, if_true] at h ⊢
    obtain ⟨bound, hbound, h⟩ := bind_eq_ok.1 h
    exact bind_eq_ok.2 ⟨bound, lookup?_alloc _ hbound, h⟩
  | none =>
    by_cases hnext : c = .ref s.next
    · subst hnext
      have hnone : s.get? s.next = none := Array.getElem?_eq_none (Nat.le_refl _)
      rw [reading_dangling hnone] at h
      have hnull : (s.alloc (.method owner m)).2.readField (.ref s.next) segment = .ok (.null, _) :=
        readField_method (s.cell?_alloc_self (.method owner m))
      obtain ⟨nothing, hnothing, hnull⟩ := readField_eq_ok hnull
      rw [hnothing, ← h]
      cases nothing with
      | stored w => cases hnull; rfl
      | method m' => cases hnull
    · have hcell : (s.alloc (.method owner m)).2.cell? c = s.cell? c := by
        cases c with
        | ref r => exact (Pairing.Paired.get?_alloc s _ r).trans (if_neg fun heq => hnext (congrArg _ heq))
        | _ => rfl
      rw [reading_congr hcell hscope, h]

/-! ## Following a path again -/

theorem readBelow_null (s : Store) (segments : List Segment) : s.readBelow .null segments = .ok (.null, s) := by
  cases segments with
  | nil => rfl
  | cons segment rest => rw [readBelow, if_pos rfl]

theorem readBelow_cons (s : Store) (hne : c ≠ .null) (rest : List Segment) :
    s.readBelow c (segment :: rest) = s.readField c segment >>= fun p => p.2.readBelow p.1 rest := by
  rw [readBelow, if_neg hne]

theorem readBelow_append (s : Store) (c : Value) (xs ys : List Segment) :
    s.readBelow c (xs ++ ys) = s.readBelow c xs >>= fun p => p.2.readBelow p.1 ys := by
  induction xs generalizing s c with
  | nil => rfl
  | cons segment xs ih =>
    by_cases hne : c = .null
    · subst hne
      rw [readBelow_null, readBelow_null]
      exact (readBelow_null s ys).symm
    · rw [List.cons_append, readBelow_cons s hne, readBelow_cons s hne]
      cases s.readField c segment with
      | error e => rfl
      | ok found => exact ih found.2 found.1

/-- Only null is found by following a path below a method. -/
theorem readBelow_method {self : Value} {m : Host.Method} (h : s.cell? c = some (.method self m)) :
    s.readBelow c segments = .ok (if segments = [] then c else .null, s) := by
  cases segments with
  | nil => rfl
  | cons segment rest =>
    have hne : c ≠ .null := by rintro rfl; cases h
    rw [readBelow_cons s hne, readField_method h, if_neg (List.cons_ne_nil _ _)]
    exact readBelow_null s rest

/-- A path can be followed again. Either it has bound no method; then it comes to the same value again, even if there is
one more method by then. Or it has; then it has come to that method or to null, and will do so again. -/
theorem readBelow_again : ∀ {c : Value}, s.readBelow c segments = .ok (v, t) →
    (t = s ∧ ∀ owner m,
      (s.alloc (.method owner m)).2.readBelow c segments = .ok (v, (s.alloc (.method owner m)).2)) ∨
    (∃ owner m, t = (s.alloc (.method owner m)).2 ∧ (v = .null ∨ v = .ref s.next) ∧
      ∃ v' t', t.readBelow c segments = .ok (v', t') ∧ t.Persists t') := by
  induction segments with
  | nil =>
    intro c h
    cases h
    exact .inl ⟨rfl, fun _ _ => rfl⟩
  | cons segment rest ih =>
    intro c h
    by_cases hne : c = .null
    · subst hne
      rw [readBelow_null] at h
      cases h
      exact .inl ⟨rfl, fun _ _ => readBelow_null _ _⟩
    rw [readBelow_cons s hne] at h
    obtain ⟨⟨w, u⟩, hfield, hrest⟩ := bind_eq_ok.1 h
    obtain ⟨found, hfound, hbound⟩ := readField_eq_ok hfield
    -- the segment finds the same in a store with one more method
    have hagain : ∀ owner m, (s.alloc (.method owner m)).2.readBelow c (segment :: rest) =
        ((s.alloc (.method owner m)).2.materialize c found).2.readBelow
          ((s.alloc (.method owner m)).2.materialize c found).1 rest := by
      intro owner m
      rw [readBelow_cons _ hne, readField_eq, reading_alloc owner m hfound]
      rfl
    cases found with
    | stored x =>
      cases hbound
      rcases ih hrest with ⟨rfl, hsame⟩ | ⟨owner, m, rfl, hv, v', t', hmore, hkept⟩
      · exact .inl ⟨rfl, fun owner m => (hagain owner m).trans (hsame owner m)⟩
      · exact .inr ⟨owner, m, rfl, hv, v', t', (hagain owner m).trans hmore, hkept⟩
    | method m =>
      cases hbound
      change (s.alloc (.method c m)).2.readBelow (.ref (s.alloc (.method c m)).1) rest = .ok (v, t) at hrest
      rw [readBelow_method (s.cell?_alloc_self (.method c m))] at hrest
      obtain ⟨rfl, rfl⟩ := Prod.mk.inj (Except.ok.inj hrest)
      refine .inr ⟨c, m, rfl, ?_, _, _, (hagain c m).trans (readBelow_method (cell?_alloc_self _ _)), ?_⟩
      · split
        · exact .inr rfl
        · exact .inl rfl
      · exact persists_alloc _ _

/-! ## Methods -/

/-- What a path calls. The path without its last segment leads to the receiver, on which the last segment finds the
function; there is none on null. If there is no such path, the whole path leads to the function, and the receiver is the
object of the context. -/
def methodAt (s : Store) (path : Path) (ctx : Context) : Except Raised (Value × Value × Store) :=
  match path.parent, path.segments.getLast? with
  | some parent, some last => do
    let (receiver, s) ← s.read parent ctx
    if receiver = .null then return (.null, .null, s)
    let (f, s) ← s.readField receiver last
    return (f, receiver, s)
  | _, _ => do
    let (f, s) ← s.read path ctx
    return (f, ctx.this, s)

/-! ## The two walks of a call -/

section Walks

variable {path parent : Path} {ctx : Context} {f receiver : Value}

theorem read_of_parent {last : Segment} (hroot : parent.root = path.root)
    (hsegments : path.segments = parent.segments ++ [last]) (s : Store) (ctx : Context) :
    s.read path ctx = s.read parent ctx >>= fun p => p.2.readBelow p.1 [last] := by
  rw [read, read, hroot, hsegments, readBelow_append]

theorem readBelow_last (s : Store) (hne : c ≠ .null) (last : Segment) : s.readBelow c [last] = s.readField c last := by
  rw [readBelow_cons s hne]
  cases s.readField c last <;> rfl

/-- The first walk finds the function. -/
theorem read_eq_methodAt (s : Store) (path : Path) (ctx : Context) :
    s.read path ctx = (s.methodAt path ctx).map fun found => (found.1, found.2.2) := by
  cases hparent : path.parent with
  | none =>
    simp only [methodAt, hparent]
    cases s.read path ctx <;> rfl
  | some parent =>
    obtain ⟨last, hlast, hsegments, hroot⟩ := Path.exists_last_of_parent hparent
    rw [read_of_parent hroot hsegments]
    simp only [methodAt, hparent, hlast]
    cases s.read parent ctx with
    | error e => rfl
    | ok found =>
      obtain ⟨receiver, u⟩ := found
      change u.readBelow receiver [last] = Except.map _ (if receiver = .null then _ else _)
      by_cases hnull : receiver = .null
      · rw [if_pos hnull, hnull, readBelow_null]
        rfl
      · rw [if_neg hnull, readBelow_last u hnull]
        cases u.readField receiver last <;> rfl

/-- The second walk finds the receiver. It never fails, and if there is a function, the walk comes to the receiver of the
rule and binds no method. -/
theorem read_parent_of_methodAt (hparent : path.parent = some parent) (h : s.methodAt path ctx = .ok (f, receiver, t)) :
    ∃ receiver' t', t.read parent ctx = .ok (receiver', t') ∧ t.Persists t' ∧
      (f ≠ .null → receiver' = receiver ∧ t' = t) := by
  obtain ⟨last, hlast, hsegments, hroot⟩ := Path.exists_last_of_parent hparent
  simp only [methodAt, hparent, hlast] at h
  obtain ⟨⟨owner, u⟩, hread, h⟩ := bind_eq_ok.1 h
  have hagain := readBelow_again hread
  by_cases hnull : owner = .null
  · simp only [hnull, if_true] at h
    cases h
    rcases hagain with ⟨rfl, -⟩ | ⟨_, _, -, -, v', t', hmore, hkept⟩
    · exact ⟨owner, t, hread, .refl t, fun hf => absurd rfl hf⟩
    · exact ⟨v', t', hmore, hkept, fun hf => absurd rfl hf⟩
  · simp only [hnull, if_false] at h
    obtain ⟨⟨g, u'⟩, hfield, h⟩ := bind_eq_ok.1 h
    cases h
    rcases hagain with ⟨rfl, hsame⟩ | ⟨self, m, rfl, hv, v', t', hmore, hkept⟩
    · -- the function is a method that is bound now, or it was there before
      obtain ⟨found, -, hbound⟩ := readField_eq_ok hfield
      cases found with
      | stored w =>
        cases hbound
        exact ⟨receiver, _, hread, .refl _, fun _ => ⟨rfl, rfl⟩⟩
      | method m =>
        cases hbound
        exact ⟨receiver, _, hsame receiver m, .refl _, fun _ => ⟨rfl, rfl⟩⟩
    · -- nothing is found below a method
      obtain rfl := hv.resolve_left hnull
      have hnone : (s.alloc (.method self m)).2.readField (.ref s.next) last = .ok (.null, _) :=
        readField_method (s.cell?_alloc_self (.method self m))
      obtain ⟨rfl, rfl⟩ := Prod.mk.inj (Except.ok.inj (hfield.symm.trans hnone))
      exact ⟨v', t', hmore, hkept, fun hf => absurd rfl hf⟩

theorem persists_readBelow (h : s.readBelow c segments = .ok (v, t)) : s.Persists t := by
  rcases readBelow_again h with ⟨rfl, -⟩ | ⟨owner, m, rfl, -⟩
  · exact .refl _
  · exact persists_alloc _ _

end Walks

end Store

end ListScript
