import ListScript.Proofs.Plain
import ListScript.Proofs.Slot

/-!
# What objects hold, and how they change

`Cell.parts` are the values that can be read off an object, `Cell.contents` also the parent of a scope, which can only
be looked into, and `Cell.fields` all parts but the list of active calls of an evaluator. `Cell.Rewrites` lists all that
a run does to an object: elements of a list are replaced, an entry of a dictionary, an item of a box or an attribute is
set, a future moves on. Scopes, tuples, methods and paths stay as they are; that an evaluator gets another list of
active calls is not among the rewrites.

The rest says what reads and writes make of the parts: what is found in an object is one of its parts, and what is put
into it is the only new one.
-/

namespace ListScript

/-- The values in the hidden state of a host object. -/
def Host.Class.parts : Host.Class → List Value
  | .box items => items.map Prod.snd
  | .future result waiting => result.toList ++ waiting
  | _ => []

namespace Cell

/-- The values that can be read off an object. -/
def parts : Cell → List Value
  | .list items _ | .tuple items => items
  | .dict entries | .frozen entries => entries.parts
  | .raw payload => [payload]
  | .scope bindings _ => [bindings]
  | .closure f attrs => [f.params, f.body, f.context, f.engine] ++ attrs.map Prod.snd
  | .context ctx attrs => [ctx.this, ctx.scope, ctx.last] ++ attrs.map Prod.snd
  | .engine stack attrs => stack :: attrs.map Prod.snd
  | .function _ attrs => attrs.map Prod.snd
  | .object cls attrs => cls.parts ++ attrs.map Prod.snd
  | .method self _ => [self]
  | .path _ | .nameSegment _ | .indexSegment _ => []

/-- All values in an object. -/
def contents : Cell → List Value
  | .scope bindings parent => [bindings, parent]
  | c => c.parts

/-- The values that can be read off an object, without the list of active calls of an evaluator. -/
def fields : Cell → List Value
  | .engine _ attrs => attrs.map Prod.snd
  | c => c.parts

/-- What a run can do to an object, other than giving an evaluator another list of active calls. -/
inductive Rewrites : Cell → Cell → Prop
  | items (old new : List Value) (flavor : Flavor) : Rewrites (.list old flavor) (.list new flavor)
  | entry (hit : Value → Bool) (key value : Value) (entries : Entries) :
      Rewrites (.dict entries) (.dict (entries.put hit key value))
  | item (items : List (Int × Value)) (n : Int) (v : Value) (attrs : Attributes) :
      Rewrites (.object (.box items) attrs) (.object (.box (Store.writeItem.putItem v items n)) attrs)
  | future (result result' : Option Value) (waiting waiting' : List Value) (attrs : Attributes) :
      Rewrites (.object (.future result waiting) attrs) (.object (.future result' waiting') attrs)
  | named {c c' : Cell} {name : String} {v : Value} : Store.withAttribute? c name v = some c' →
      (∀ stack attrs, c = .engine stack attrs → name ≠ "call_stack") → Rewrites c c'

theorem fields_subset_parts {c : Cell} {v : Value} (h : v ∈ c.fields) : v ∈ c.parts := by
  cases c with
  | engine stack attrs => exact List.mem_cons_of_mem _ h
  | _ => exact h

theorem parts_subset_contents {c : Cell} {v : Value} (h : v ∈ c.parts) : v ∈ c.contents := by
  cases c with
  | scope bindings parent => exact List.mem_cons.2 (.inl (List.mem_singleton.1 h))
  | _ => exact h

theorem fields_subset_contents {c : Cell} {v : Value} (h : v ∈ c.fields) : v ∈ c.contents :=
  parts_subset_contents (fields_subset_parts h)

end Cell

/-! ## Entries and attributes -/

section Tables

variable {v w key value : Value}

theorem mem_of_lookup {κ : Type} [BEq κ] {table : List (κ × Value)} {k : κ} (h : table.lookup k = some v) :
    v ∈ table.map Prod.snd := by
  induction table with
  | nil => cases h
  | cons e rest ih =>
    rw [List.lookup_cons] at h
    split at h
    · cases h
      exact List.mem_cons_self
    · exact List.mem_cons_of_mem _ (ih h)

theorem Entries.mem_of_find? {hit : Value → Bool} {entries : Entries} (h : find? hit entries = some v) :
    v ∈ entries.parts := by
  induction entries with
  | nil => cases h
  | cons e rest ih =>
    rw [find?] at h
    split at h
    · cases h
      simp [parts]
    · have := ih h
      simp only [parts, List.flatMap_cons, List.mem_append] at this ⊢
      exact .inr this

theorem Entries.mem_of_mem_keys {entries : Entries} (h : v ∈ entries.keys) : v ∈ entries.parts := by
  obtain ⟨e, he, rfl⟩ := List.mem_map.1 h
  exact List.mem_flatMap.2 ⟨e, he, List.mem_cons_self⟩

theorem Entries.mem_of_atSegment {entries : Entries} {segment : Segment} (h : entries.atSegment segment = some v) :
    v ∈ entries.parts := by
  cases segment with
  | name text => exact mem_of_find? h
  | index n =>
    simp only [atSegment] at h
    split at h
    · rename_i found hfound
      cases h
      exact mem_of_find? hfound
    · exact mem_of_find? h

theorem Entries.mem_parts_put {hit : Value → Bool} {entries : Entries} (h : w ∈ (entries.put hit key value).parts) :
    w = key ∨ w = value ∨ w ∈ entries.parts := by
  induction entries with
  | nil => simpa [put, parts] using h
  | cons e rest ih =>
    obtain ⟨k, x⟩ := e
    rw [put] at h
    split at h
    · simp only [parts, List.flatMap_cons, List.mem_append, List.mem_cons, List.not_mem_nil, or_false] at h ⊢
      grind
    · simp only [parts, List.flatMap_cons, List.mem_append, List.mem_cons, List.not_mem_nil, or_false] at h ih ⊢
      grind

theorem Attributes.mem_put {attrs : Attributes} {name : String} (h : w ∈ (attrs.put name v).map Prod.snd) :
    w = v ∨ w ∈ attrs.map Prod.snd := by
  induction attrs with
  | nil => simpa [put] using h
  | cons e rest ih =>
    obtain ⟨n, x⟩ := e
    rw [put] at h
    split at h <;> simp only [List.map_cons, List.mem_cons] at h ⊢ <;> grind

theorem mem_putItem {items : List (Int × Value)} {n : Int}
    (h : w ∈ (Store.writeItem.putItem v items n).map Prod.snd) : w = v ∨ w ∈ items.map Prod.snd := by
  induction items with
  | nil => simpa [Store.writeItem.putItem] using h
  | cons e rest ih =>
    obtain ⟨k, x⟩ := e
    rw [Store.writeItem.putItem] at h
    split at h <;> simp only [List.map_cons, List.mem_cons] at h ⊢ <;> grind

theorem mem_setElement {items items' : List Value} {n : Nat} (h : Store.setElement items n v = .ok items')
    (hw : w ∈ items') : w = v ∨ w = .null ∨ w ∈ items := by
  obtain ⟨-, rfl⟩ | ⟨-, rfl⟩ := Cell.setElement_cases h
  · obtain h | rfl := List.mem_or_eq_of_mem_set hw
    · exact .inr (.inr h)
    · exact .inl rfl
  · simp only [List.append_assoc, List.mem_append, List.mem_replicate, List.mem_cons, List.not_mem_nil,
      or_false] at hw
    grind

/-- A dictionary with a segment set differs in one entry. -/
theorem Entries.setSegment_eq_put (entries : Entries) (segment : Segment) (v : Value) :
    ∃ hit key, entries.setSegment segment v = entries.put hit key v ∧ ∀ r, key ≠ .ref r := by
  cases segment with
  | name text => exact ⟨_, _, rfl, by simp [Value.text]⟩
  | index n =>
    simp only [setSegment]
    split
    · exact ⟨_, _, rfl, by simp⟩
    · exact ⟨_, _, rfl, by simp [Value.text]⟩

end Tables

/-! ## Attributes of objects -/

namespace Cell

variable {c c' : Cell} {name : String} {v w : Value}

/-- What an attribute has is a field of the object, or its list of active calls. -/
theorem storedAttribute?_cases (h : Store.storedAttribute? c name = some w) :
    w ∈ c.fields ∨ name = "call_stack" ∧ ∃ attrs, c = .engine w attrs := by
  cases c with
  | raw payload =>
    simp only [Store.storedAttribute?] at h
    split at h <;> cases h
    exact .inl List.mem_cons_self
  | closure f attrs =>
    unfold Store.storedAttribute? at h
    simp only at h
    left
    split at h <;> first | (cases h; simp [fields, parts]) | exact List.mem_append_right _ (mem_of_lookup h)
  | context ctx attrs =>
    unfold Store.storedAttribute? at h
    simp only at h
    left
    split at h <;> first | (cases h; simp [fields, parts]) | exact List.mem_append_right _ (mem_of_lookup h)
  | engine stack attrs =>
    simp only [Store.storedAttribute?] at h
    split at h
    · rename_i hname
      cases h
      exact .inr ⟨by simpa using hname, attrs, rfl⟩
    · exact .inl (mem_of_lookup h)
  | function f attrs => exact .inl (mem_of_lookup h)
  | object cls attrs => exact .inl (List.mem_append_right _ (mem_of_lookup h))
  | _ => cases h

theorem mem_contents_of_storedAttribute? (h : Store.storedAttribute? c name = some w) : w ∈ c.contents := by
  rcases storedAttribute?_cases h with hfield | ⟨-, attrs, rfl⟩
  · exact fields_subset_contents hfield
  · exact List.mem_cons_self

/-- Setting an attribute puts the value among the fields and adds nothing else. -/
theorem mem_fields_of_withAttribute? (h : Store.withAttribute? c name v = some c') (hw : w ∈ c'.fields) :
    w = v ∨ w ∈ c.fields := by
  cases c with
  | raw payload =>
    simp only [Store.withAttribute?] at h
    split at h <;> cases h
    exact .inl (List.mem_singleton.1 hw)
  | closure f attrs =>
    unfold Store.withAttribute? at h
    simp only at h
    have hput := @Attributes.mem_put v w attrs name
    split at h <;> cases h <;> simp only [fields, parts, List.mem_append, List.mem_cons, List.not_mem_nil] at hw ⊢ <;>
      grind
  | context ctx attrs =>
    unfold Store.withAttribute? at h
    simp only at h
    have hput := @Attributes.mem_put v w attrs name
    split at h <;> cases h <;> simp only [fields, parts, List.mem_append, List.mem_cons, List.not_mem_nil] at hw ⊢ <;>
      grind
  | engine stack attrs =>
    simp only [Store.withAttribute?] at h
    split at h <;> cases h
    · exact .inr hw
    · exact Attributes.mem_put hw
  | function f attrs =>
    cases h
    exact Attributes.mem_put hw
  | object cls attrs =>
    cases h
    have hput := @Attributes.mem_put v w attrs name
    simp only [fields, parts, List.mem_append] at hw ⊢
    grind
  | _ => cases h

/-- An evaluator keeps its list of active calls when another attribute is set. -/
theorem withAttribute?_engine {stack : Value} {attrs : Attributes} (hname : name ≠ "call_stack")
    (h : Store.withAttribute? (.engine stack attrs) name v = some c') : ∃ attrs', c' = .engine stack attrs' := by
  have hne : (name == "call_stack") = false := by simpa using hname
  simp only [Store.withAttribute?, hne] at h
  exact ⟨_, (Option.some.inj h).symm⟩

/-- A context gets other variables only by the attribute of that name. -/
theorem withAttribute?_context {ctx' : Context} {attrs' : Attributes}
    (h : Store.withAttribute? c name v = some (.context ctx' attrs')) :
    ∃ ctx attrs, c = .context ctx attrs ∧ (ctx'.scope = ctx.scope ∨ name = "variables" ∧ ctx'.scope = v) := by
  cases c with
  | context ctx attrs =>
    refine ⟨ctx, attrs, rfl, ?_⟩
    unfold Store.withAttribute? at h
    simp only at h
    split at h <;> cases h
    · exact .inl rfl
    · exact .inr ⟨rfl, rfl⟩
    · exact .inl rfl
    · exact .inl rfl
  | function | object => cases h
  | raw | closure | engine =>
    simp only [Store.withAttribute?] at h
    split at h <;> cases h
  | _ => cases h

/-- No change makes an object a scope. -/
theorem Rewrites.ne_scope (h : c.Rewrites c') (bindings parent : Value) : c' ≠ .scope bindings parent := by
  rintro rfl
  cases h with
  | named h _ =>
    cases c with
    | function | object => cases h
    | raw | closure | context | engine =>
      simp only [Store.withAttribute?] at h
      split at h <;> cases h
    | _ => cases h

/-- Scopes are not changed. -/
theorem Rewrites.scope?_eq (h : c.Rewrites c') : c'.scope? = c.scope? := by
  cases h with
  | named h _ =>
    obtain ⟨-, -, hc, hc', -⟩ := withAttribute?_kind h
    rw [hc, hc']
  | _ => rfl

/-- A dictionary stays a dictionary. -/
theorem Rewrites.isSome_entries? (h : c.Rewrites c') : c'.entries?.isSome = c.entries?.isSome := by
  cases h with
  | named h _ =>
    obtain ⟨hc, hc', -⟩ := withAttribute?_kind h
    rw [hc, hc']
  | _ => rfl

/-- An evaluator keeps its list of active calls. -/
theorem Rewrites.engine {stack : Value} {attrs : Attributes} (h : c.Rewrites (.engine stack attrs)) :
    ∃ attrs', c = .engine stack attrs' := by
  cases h with
  | named h hname =>
    cases c with
    | function | object => cases h
    | raw | closure | context =>
      simp only [Store.withAttribute?] at h
      split at h <;> cases h
    | engine stack' attrs' =>
      obtain ⟨_, heq⟩ := withAttribute?_engine (hname stack' attrs' rfl) h
      cases heq
      exact ⟨attrs', rfl⟩
    | _ => cases h

/-- A change keeps the parent of a scope and the active calls of an evaluator; all else is a field. -/
theorem Rewrites.mem_contents (h : c.Rewrites c') (hv : v ∈ c'.contents) : v ∈ c'.fields ∨ v ∈ c.contents := by
  cases c' with
  | scope bindings parent => exact absurd rfl (h.ne_scope bindings parent)
  | engine stack attrs =>
    obtain ⟨attrs', rfl⟩ := h.engine
    rcases List.mem_cons.1 hv with rfl | hv
    · exact .inr List.mem_cons_self
    · exact .inl hv
  | _ => exact .inl hv

/-- Setting an attribute puts the value into the object and adds nothing else. -/
theorem mem_contents_of_withAttribute? (h : Store.withAttribute? c name v = some c') (hw : w ∈ c'.contents) :
    w = v ∨ w ∈ c.contents := by
  by_cases hstack : ∃ stack attrs, c = .engine stack attrs ∧ name = "call_stack"
  · obtain ⟨stack, attrs, rfl, rfl⟩ := hstack
    cases h
    exact (List.mem_cons.1 hw).imp_right (List.mem_cons_of_mem _)
  · have hrewrites : c.Rewrites c' := .named h fun stack attrs hc hname => hstack ⟨stack, attrs, hc, hname⟩
    rcases hrewrites.mem_contents hw with hw | hw
    · exact (mem_fields_of_withAttribute? h hw).imp_right fields_subset_contents
    · exact .inr hw

/-- What is read off an object after a change is a field or could be read off it before. -/
theorem Rewrites.mem_parts (h : c.Rewrites c') (hv : v ∈ c'.parts) : v ∈ c'.fields ∨ v ∈ c.parts := by
  cases c' with
  | engine stack attrs =>
    obtain ⟨attrs', rfl⟩ := h.engine
    rcases List.mem_cons.1 hv with rfl | hv
    · exact .inr List.mem_cons_self
    · exact .inl hv
  | _ => exact .inl hv

theorem Rewrites.contents_eq (h : c.Rewrites c') : c'.contents = c'.parts := by
  cases c' with
  | scope bindings parent => exact absurd rfl (h.ne_scope bindings parent)
  | _ => rfl

theorem Rewrites.of_engine {stack : Value} {attrs : Attributes} (h : (Cell.engine stack attrs).Rewrites c') :
    ∃ attrs', c' = .engine stack attrs' := by
  cases h with
  | named h hname => exact withAttribute?_engine (hname stack attrs rfl) h

/-- A list stays a list. -/
theorem Rewrites.list {items : List Value} {flavor : Flavor} (h : (Cell.list items flavor).Rewrites c') :
    ∃ items', c' = .list items' flavor := by
  cases h with
  | items old new => exact ⟨new, rfl⟩
  | named h _ => cases h

end Cell

/-! ## Values of keys -/

namespace Store

variable {s : Store} {b key v : Value}

/-- The value of a key is among the entries of the dictionary that has it. -/
theorem mem_entries_of_valueAt? (h : s.valueAt? b key = .ok (some v)) :
    ∃ entries, (s.cell? b = some (.dict entries) ∨ s.cell? b = some (.frozen entries)) ∧ v ∈ entries.parts := by
  unfold valueAt? at h
  split at h
  · -- a sequence has no value for a key, it only refuses it
    exact absurd h valueElsewhere?_ne_some
  · rename_i entries hentries
    cases hhash : s.checkHashable key with
    | error e => rw [hhash] at h; cases h
    | ok u =>
      rw [hhash] at h
      have hfind : Entries.find? (s.sameKey key) entries = some v := Except.ok.inj h
      refine ⟨entries, ?_, Entries.mem_of_find? hfind⟩
      unfold mapping? at hentries
      split at hentries <;> cases hentries
      · exact .inl ‹_›
      · exact .inr ‹_›

/-- The value of a key is a field of the dictionary that has it. -/
theorem mem_of_valueAt? (h : s.valueAt? b key = .ok (some v)) : ∃ c, s.cell? b = some c ∧ v ∈ c.fields := by
  obtain ⟨entries, hc | hc, hmem⟩ := mem_entries_of_valueAt? h
  · exact ⟨_, hc, hmem⟩
  · exact ⟨_, hc, hmem⟩

/-! ## References that lead somewhere -/

/-- A value refers to no object that is not there. -/
def Knows (s : Store) (v : Value) : Prop := ∀ r, v = .ref r → r.index < s.size

/-- No object refers to one that is not there. -/
def Closed (s : Store) : Prop := ∀ r c, s.get? r = some c → ∀ v ∈ c.contents, s.Knows v

instance (s : Store) (v : Value) : Decidable (s.Knows v) :=
  decidable_of_iff (∀ r ∈ v.ref?, r.index < s.size) <| by
    cases v <;> simp [Knows, Value.ref?]

instance (s : Store) : Decidable s.Closed :=
  decidable_of_iff (∀ c ∈ s.cells.toList, ∀ v ∈ c.contents, s.Knows v) <| by
    constructor
    · intro h r c hc
      exact h c (Array.mem_toList_iff.2 (Array.mem_of_getElem? hc))
    · intro h c hc
      obtain ⟨k, hk⟩ := Array.getElem?_of_mem (Array.mem_toList_iff.1 hc)
      exact h ⟨k⟩ c hk

end Store

end ListScript
