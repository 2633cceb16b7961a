import Mathlib.Logic.Relation
import ListScript.Access.Binding
import ListScript.Proofs.Field
import ListScript.Proofs.Plain

/-!
# Forests of scopes

Scopes that are made one after the other, each over a dictionary of its own and below none or one that was there before,
form a forest, whatever is set and deleted in them afterwards (`Forest.Grown`). From each scope a finite chain of parents
leads to a scope without one (`Store.Chain`), and a name is looked up as the first scope of the chain that binds it says
(`Store.nearest?`).

- `Store.Chain.ownerWithin`: the search for a name goes through the chain and ends;
- `Store.Alters`: what setting or deleting a name in a scope changes, and from where it is seen (`Store.Sees`);
- `Forest.Grown.sound`: what every operation keeps.
-/

namespace ListScript

open Relation

/-! ## Texts as keys of a dictionary -/

namespace Entries

/-- The texts among the keys. -/
def texts (entries : Entries) : List String := entries.keys.filterMap Value.text?

section Texts

variable {hit : Value → Bool} {name : String} {key value : Value} {entries : Entries}

theorem find?_text_eq_none_iff : find? (Value.immediateEq (.text name)) entries = none ↔ name ∉ texts entries := by
  rw [← Option.not_isSome_iff_eq_none, isSome_find?, texts, List.mem_filterMap, List.any_eq_true]
  simp only [Value.immediateEq_text_iff]

/-- A key that is not there goes to the end. -/
theorem put_of_find?_none (h : find? hit entries = none) : put hit key value entries = entries ++ [(key, value)] := by
  induction entries with
  | nil => rfl
  | cons e rest ih =>
    obtain ⟨k, v⟩ := e
    rw [find?] at h
    by_cases hk : hit k = true
    · rw [if_pos hk] at h
      cases h
    · rw [if_neg hk] at h
      rw [put, if_neg hk, ih h]
      rfl

/-- A key that is there keeps its place and its spelling. -/
theorem keys_put_of_isSome (h : (find? hit entries).isSome = true) : keys (put hit key value entries) = keys entries := by
  induction entries with
  | nil => cases h
  | cons e rest ih =>
    obtain ⟨k, v⟩ := e
    by_cases hk : hit k = true
    · simp [put, keys, hk]
    · rw [find?, if_neg hk] at h
      rw [put, if_neg hk]
      exact congrArg (k :: ·) (ih h)

theorem drop_append_of_find?_none (h : find? hit entries = none) (hkey : hit key = true) :
    drop hit (entries ++ [(key, value)]) = entries := by
  induction entries with
  | nil => simp [drop, hkey]
  | cons e rest ih =>
    obtain ⟨k, v⟩ := e
    rw [find?] at h
    by_cases hk : hit k = true
    · rw [if_pos hk] at h
      cases h
    · rw [if_neg hk] at h
      rw [List.cons_append, drop, if_neg hk, ih h]

/-- A key that was put where none was is dropped without a trace. -/
theorem drop_put (h : find? hit entries = none) (hkey : hit key = true) : drop hit (put hit key value entries) = entries := by
  rw [put_of_find?_none h, drop_append_of_find?_none h hkey]

theorem drop_sublist (hit : Value → Bool) (entries : Entries) : (drop hit entries).Sublist entries := by
  induction entries with
  | nil => exact List.Sublist.refl _
  | cons e rest ih =>
    obtain ⟨k, v⟩ := e
    rw [drop]
    split
    · exact List.sublist_cons_self _ _
    · exact ih.cons_cons _

/-- Dropping a key leaves what is found by others. -/
theorem find?_drop_of_disjoint {hit' : Value → Bool} (hdis : ∀ k, hit k = true → hit' k = false) (entries : Entries) :
    find? hit' (drop hit entries) = find? hit' entries := by
  induction entries with
  | nil => rfl
  | cons e rest ih =>
    obtain ⟨k, v⟩ := e
    by_cases hk : hit k = true
    · simp [drop, find?, hk, hdis k hk]
    · simp [drop, find?, hk, ih]

theorem nodup_texts_drop (h : (texts entries).Nodup) (hit : Value → Bool) : (texts (drop hit entries)).Nodup :=
  h.sublist (((drop_sublist hit entries).map Prod.fst).filterMap Value.text?)

/-- Putting a text keeps the texts apart. -/
theorem nodup_texts_put (h : (texts entries).Nodup) (hkey : key.text? = some name) (value : Value) :
    (texts (put (Value.immediateEq (.text name)) key value entries)).Nodup := by
  cases hfound : find? (Value.immediateEq (.text name)) entries with
  | some v =>
    rw [texts, keys_put_of_isSome (by rw [hfound]; rfl)]
    exact h
  | none =>
    have hnew : name ∉ texts entries := find?_text_eq_none_iff.1 hfound
    have htexts : texts (entries ++ [(key, value)]) = texts entries ++ [name] := by
      simp [texts, keys, hkey]
    rw [put_of_find?_none hfound, htexts]
    exact List.nodup_append.2 ⟨h, by simp, by grind⟩

/-- Where the texts are apart, a text that is dropped is there no more. -/
theorem find?_drop_self (h : (texts entries).Nodup) :
    find? (Value.immediateEq (.text name)) (drop (Value.immediateEq (.text name)) entries) = none := by
  induction entries with
  | nil => rfl
  | cons e rest ih =>
    obtain ⟨k, v⟩ := e
    have hrest : (texts rest).Nodup := h.sublist ((List.sublist_cons_self _ _).filterMap Value.text?)
    by_cases hk : (Value.text name).immediateEq k = true
    · have htexts : texts ((k, v) :: rest) = name :: texts rest := by
        simp [texts, keys, Value.immediateEq_text_iff.1 hk]
      rw [drop, if_pos hk, find?_text_eq_none_iff]
      rw [htexts] at h
      exact (List.nodup_cons.1 h).1
    · rw [drop, if_neg hk, find?, if_neg hk, ih hrest]

end Texts

end Entries

/-! ## Chains of scopes -/

namespace Store

/-- What is bound in a scope itself. -/
def ownBindings (s : Store) (scope : Ref) : Entries :=
  match s.scope? (.ref scope) with
  | some (bindings, _) => (s.dict? bindings).getD []
  | none => []

/-- The value that a scope itself binds a name to. -/
def own? (s : Store) (name : String) (scope : Ref) : Option Value :=
  Entries.find? (Value.immediateEq (.text name)) (s.ownBindings scope)

/-- One scope is directly below another. -/
def Below (s : Store) (scope parent : Ref) : Prop := ∃ bindings, s.scope? (.ref scope) = some (bindings, .ref parent)

/-- The scopes from one on, each before its parent; the last one has none. -/
inductive Chain (s : Store) : Value → List Ref → Prop
  | done : Chain s .null []
  | next {scope : Ref} {bindings parent : Value} {rest : List Ref} :
      s.scope? (.ref scope) = some (bindings, parent) → Chain s parent rest → Chain s (.ref scope) (scope :: rest)

/-- The first scope of some that binds a name itself, and the value it binds it to. -/
def nearest? (s : Store) (name : String) (scopes : List Ref) : Option (Value × Value) :=
  scopes.findSome? fun scope => (s.own? name scope).map fun v => (.ref scope, v)

/-- A name is looked up in `scope` from `other`: this is `scope` itself, or below it with no binding of the name nearer
than there. -/
def Sees (s : Store) (name : String) (other scope : Ref) : Prop :=
  ∃ before after, s.Chain (.ref other) (before ++ scope :: after) ∧ ∀ r ∈ before, s.own? name r = none

/-- One scope gets or loses a binding of a name, and nothing else changes: not what is bound in the other scopes, not what
other names are bound to, and not what the name is bound to where that scope is not seen from. -/
structure Alters (s s' : Store) (scopes : List Ref) (scope : Ref) (name : String) : Prop where
  bindings : ∀ other ∈ scopes, other ≠ scope → s'.ownBindings other = s.ownBindings other
  own : ∀ n ≠ name, s'.own? n scope = s.own? n scope
  names : ∀ other ∈ scopes, ∀ key n, key.text? = some n → n ≠ name →
    s'.owner? (.ref other) key = s.owner? (.ref other) key
  unseen : ∀ other ∈ scopes, ¬ s.Sees name other scope → ∀ key, key.text? = some name →
    s'.owner? (.ref other) key = s.owner? (.ref other) key

/-- The object is a scope over a dictionary in which no text is twice a key. -/
structure IsScope (s : Store) (scope bindings : Ref) (entries : Entries) (parent : Value) : Prop where
  scope : s.get? scope = some (.scope (.ref bindings) parent)
  bindings : s.get? bindings = some (.dict entries)
  texts : entries.texts.Nodup

section Chains

variable {s : Store} {v parent key value : Value} {name : String} {scope other bindings : Ref} {entries : Entries}
  {chain chain' before after : List Ref}

theorem IsScope.scope?_eq (h : s.IsScope scope bindings entries parent) :
    s.scope? (.ref scope) = some (.ref bindings, parent) := by
  simp only [scope?, cell?, h.scope]

theorem IsScope.ownBindings_eq (h : s.IsScope scope bindings entries parent) : s.ownBindings scope = entries := by
  simp only [ownBindings, h.scope?_eq, dict?, cell?, h.bindings, Option.getD_some]

theorem checkHashable_of_text? (s : Store) (hkey : key.text? = some name) : s.checkHashable key = .ok () := by
  cases key with
  | str text flavor => rfl
  | _ => cases hkey

theorem IsScope.valueAt?_eq (h : s.IsScope scope bindings entries parent) (hkey : key.text? = some name) :
    s.valueAt? (.ref bindings) key = .ok (s.own? name scope) := by
  have hmap : s.mapping? (.ref bindings) = some entries := by simp only [mapping?, cell?, h.bindings]
  rw [valueAt?, hmap, own?, h.ownBindings_eq]
  simp only [checkHashable_of_text? s hkey, sameKey_of_text? s hkey]
  rfl

theorem Chain.unique (h : s.Chain v chain) (h' : s.Chain v chain') : chain = chain' := by
  induction h generalizing chain' with
  | done =>
    cases h'
    rfl
  | next hscope _ ih =>
    cases h' with
    | next hscope' h' =>
      cases hscope.symm.trans hscope'
      rw [ih h']

/-- From every scope of a chain the rest of it leads on. -/
theorem Chain.rest (h : s.Chain v (before ++ scope :: after)) : s.Chain (.ref scope) (scope :: after) := by
  induction before generalizing v with
  | nil =>
    cases h with
    | next hscope h => exact .next hscope h
  | cons r before ih =>
    cases h with
    | next _ h => exact ih h

/-- No scope is twice in a chain. -/
theorem Chain.nodup (h : s.Chain v chain) : chain.Nodup := by
  induction h with
  | done => exact List.nodup_nil
  | @next scope bindings parent rest hscope hrest ih =>
    refine List.nodup_cons.2 ⟨fun hmem => ?_, ih⟩
    -- a scope that came again would have a chain shorter than its own
    obtain ⟨before, after, rfl⟩ := List.append_of_mem hmem
    have hsame := (Chain.next hscope hrest).unique hrest.rest
    have hlength := congrArg List.length hsame
    simp only [List.length_cons, List.length_append] at hlength
    omega

/-- The chain from a scope goes on with the chain from the scope that it is directly below. -/
theorem Chain.of_below (h : s.Chain (.ref scope) chain) (hbelow : s.Below scope other) :
    ∃ rest, chain = scope :: rest ∧ s.Chain (.ref other) rest := by
  obtain ⟨b, hb⟩ := hbelow
  cases h with
  | next hscope h =>
    cases hb.symm.trans hscope
    exact ⟨_, rfl, h⟩

theorem Chain.mem_self (h : s.Chain (.ref scope) chain) : scope ∈ chain := by
  cases h with
  | next => exact List.mem_cons_self

theorem Chain.mem_of_below (h : s.Chain (.ref scope) chain) (hbelow : TransGen s.Below scope other) :
    other ∈ chain.tail := by
  induction hbelow using TransGen.head_induction_on generalizing chain with
  | single hbelow =>
    obtain ⟨rest, rfl, hrest⟩ := h.of_below hbelow
    exact hrest.mem_self
  | head hbelow _ ih =>
    obtain ⟨rest, rfl, hrest⟩ := h.of_below hbelow
    exact List.mem_of_mem_tail (ih hrest)

/-- A scope from which a chain leads to an end is not below itself. -/
theorem Chain.not_below_self (h : s.Chain (.ref scope) chain) : ¬ TransGen s.Below scope scope := by
  intro hbelow
  have hmem := h.mem_of_below hbelow
  have hnodup := h.nodup
  cases h with
  | next => exact (List.nodup_cons.1 hnodup).1 hmem

/-- The search for a name through a chain ends at the first scope that binds it, whatever amount of fuel there is beyond
the length of the chain. -/
theorem Chain.ownerWithin (h : s.Chain v chain) (hscopes : ∀ r ∈ chain, ∃ b entries p, s.IsScope r b entries p)
    (hkey : key.text? = some name) {n : Nat} (hn : chain.length < n) :
    s.ownerWithin key n v = .ok (s.nearest? name chain) := by
  induction h generalizing n with
  | done =>
    obtain ⟨n, rfl⟩ : ∃ k, n = k + 1 := ⟨n - 1, by omega⟩
    rfl
  | @next scope bindings parent rest hscope _ ih =>
    obtain ⟨n, rfl⟩ : ∃ k, n = k + 1 := ⟨n - 1, by omega⟩
    obtain ⟨b, entries, p, his⟩ := hscopes scope List.mem_cons_self
    have hparts := his.scope?_eq.symm.trans hscope
    cases hparts
    rw [nearest?, List.findSome?_cons]
    cases hown : s.own? name scope with
    | some w => exact ownerWithin_own n (bindingsOf_scope hscope) (by rw [his.valueAt?_eq hkey, hown])
    | none =>
      rw [ownerWithin_outer n (bindingsOf_scope hscope) (by rw [his.valueAt?_eq hkey, hown]) (parentOf_scope hscope)]
      exact ih (fun r hr => hscopes r (List.mem_cons_of_mem _ hr)) (by
        rw [List.length_cons] at hn
        omega)

end Chains

/-! ## Rewriting the bindings of a scope -/

section Rewriting

variable {s s' : Store} {v parent key value : Value} {name : String} {scope other b b' : Ref} {entries entries' : Entries}
  {chain before after : List Ref}

theorem IsScope.ne_bindings (h : s.IsScope scope b entries parent) (h' : s.IsScope other b' entries' v) : other ≠ b := by
  rintro rfl
  cases h.bindings.symm.trans h'.scope

theorem IsScope.keeps_set (h : s.IsScope scope b entries parent) (entries' : Entries) :
    s.Keeps (s.set b (.dict entries')) := Store.keeps_set h.bindings rfl rfl

theorem IsScope.set_self (h : s.IsScope scope b entries parent) (htexts : entries'.texts.Nodup) :
    (s.set b (.dict entries')).IsScope scope b entries' parent where
  scope := by rw [get?_set_ne _ (h.ne_bindings h), h.scope]
  bindings := get?_set_self _ (index_lt_of_get? h.bindings)
  texts := htexts

theorem IsScope.set_ne (h : s.IsScope scope b entries parent) (h' : s.IsScope other b' entries' v) (hne : b' ≠ b)
    (entries'' : Entries) : (s.set b (.dict entries'')).IsScope other b' entries' v where
  scope := by rw [get?_set_ne _ (h.ne_bindings h'), h'.scope]
  bindings := by rw [get?_set_ne _ hne, h'.bindings]
  texts := h'.texts

/-- What replaces the content of an object is replaced by it in turn. -/
theorem set_set_self {c : Cell} (hc : s.get? b = some c) (c' : Cell) : (s.set b c').set b c = s := by
  obtain ⟨hlt, hget⟩ := Array.getElem?_eq_some_iff.1 hc
  obtain ⟨cells⟩ := s
  subst hget
  simp [set, Array.setIfInBounds, hlt]

/-- Binding a name puts it among the bindings of the scope itself. -/
theorem IsScope.bind_eq (h : s.IsScope scope b entries parent) (hkey : key.text? = some name) (value : Value) :
    s.bind (.ref scope) key value = .ok (s.set b (.dict (Entries.put (Value.immediateEq (.text name)) key value entries))) := by
  have hdict : s.dict? (.ref b) = some entries := by simp only [dict?, cell?, h.bindings]
  have htext : key.isText = true := by rw [Value.isText, hkey]; rfl
  rw [bind, h.scope?_eq]
  dsimp only
  rw [if_pos htext]
  simp only [setEntry, hdict, checkHashable_of_text? s hkey, sameKey_of_text? s hkey]
  rfl

theorem IsScope.unbind_eq (h : s.IsScope scope b entries parent) (hkey : key.text? = some name)
    (hown : s.own? name scope ≠ none) :
    s.unbind (.ref scope) key = .ok (s.set b (.dict (Entries.drop (Value.immediateEq (.text name)) entries))) := by
  have hdict : s.dict? (.ref b) = some entries := by simp only [dict?, cell?, h.bindings]
  obtain ⟨w, hw⟩ := Option.ne_none_iff_exists'.1 hown
  rw [unbind, h.scope?_eq]
  dsimp only
  rw [h.valueAt?_eq hkey, hw]
  simp only [dropEntry, hdict, sameKey_of_text? s hkey]
  rfl

/-- A name that the scope itself does not bind is refused. -/
theorem IsScope.unbind_of_own?_none (h : s.IsScope scope b entries parent) (hkey : key.text? = some name)
    (hown : s.own? name scope = none) : s.unbind (.ref scope) key = .error (.of (.missingBinding name)) := by
  rw [unbind, h.scope?_eq]
  dsimp only
  rw [h.valueAt?_eq hkey, hown]
  change (s.plainText key >>= fun text => .error (.of (.missingBinding text))) = _
  rw [plainText_of_text? s hkey]
  rfl

/-- Whatever is unbound, the bindings of the scope lose an entry and nothing else changes. -/
theorem IsScope.unbind_cases (h : s.IsScope scope b entries parent) (hrun : s.unbind (.ref scope) key = .ok s') :
    ∃ hit, s' = s.set b (.dict (Entries.drop hit entries)) := by
  have hdict : s.dict? (.ref b) = some entries := by simp only [dict?, cell?, h.bindings]
  rw [unbind, h.scope?_eq] at hrun
  obtain ⟨found, -, hrun⟩ := bind_eq_ok.1 hrun
  cases found with
  | some w =>
    refine ⟨s.sameKey key, ?_⟩
    cases hrun
    simp only [dropEntry, hdict]
  | none =>
    obtain ⟨text, -, hrun⟩ := bind_eq_ok.1 hrun
    cases hrun

/-- Only texts are bound. -/
theorem text?_of_bind (h : s.IsScope scope b entries parent) (hrun : s.bind (.ref scope) key value = .ok s') :
    ∃ name, key.text? = some name := by
  rw [bind, h.scope?_eq] at hrun
  dsimp only at hrun
  split at hrun
  · rename_i htext
    exact Option.isSome_iff_exists.1 htext
  · cases hrun

theorem Chain.mono (h : s.Chain v chain) (hkeeps : s.Keeps s') : s'.Chain v chain := by
  induction h with
  | done => exact .done
  | next hscope _ ih => exact .next (hkeeps.scope?_some hscope) ih

theorem nearest?_congr (h : ∀ r ∈ chain, s'.own? name r = s.own? name r) : s'.nearest? name chain = s.nearest? name chain := by
  induction chain with
  | nil => rfl
  | cons r rest ih =>
    rw [nearest?, nearest?, List.findSome?_cons, List.findSome?_cons, h r List.mem_cons_self]
    have hrest := ih fun t ht => h t (List.mem_cons_of_mem _ ht)
    rw [nearest?, nearest?] at hrest
    rw [hrest]

theorem nearest?_append : s.nearest? name (before ++ after) = (s.nearest? name before).or (s.nearest? name after) :=
  List.findSome?_append

theorem nearest?_eq_none_iff : s.nearest? name chain = none ↔ ∀ r ∈ chain, s.own? name r = none := by
  simp [nearest?, List.findSome?_eq_none_iff]

/-- After scopes that do not bind a name, a scope decides. -/
theorem nearest?_of_before (h : ∀ r ∈ before, s.own? name r = none) :
    s.nearest? name (before ++ scope :: after) =
      ((s.own? name scope).map fun v => (.ref scope, v)).or (s.nearest? name after) := by
  rw [nearest?_append, nearest?_eq_none_iff.2 h, Option.none_or, nearest?, List.findSome?_cons]
  cases s.own? name scope <;> rfl

end Rewriting

end Store

/-! ## Forests -/

/-- A store and the scopes that were made in it. -/
structure Forest where
  store : Store
  scopes : List Ref

namespace Forest

/-- One operation on scopes that succeeds; one that is refused changes nothing. -/
inductive Step (f : Forest) : Forest → Prop
  /-- a new scope over a dictionary that no other scope is over -/
  | make {parent : Value} {b r : Ref} {entries : Entries} :
      (parent = .null ∨ ∃ p ∈ f.scopes, parent = .ref p) →
      f.store.get? b = some (.dict entries) → entries.texts.Nodup →
      (∀ other ∈ f.scopes, ∀ p, f.store.scope? (.ref other) ≠ some (.ref b, p)) →
      (f.store.allocScope parent (.ref b)).1 = .ref r →
      Step f ⟨(f.store.allocScope parent (.ref b)).2, r :: f.scopes⟩
  /-- a new scope over a new dictionary -/
  | makeEmpty {parent : Value} {r : Ref} :
      (parent = .null ∨ ∃ p ∈ f.scopes, parent = .ref p) →
      (f.store.allocEmptyScope parent).1 = .ref r →
      Step f ⟨(f.store.allocEmptyScope parent).2, r :: f.scopes⟩
  | set {r : Ref} {key value : Value} {s : Store} :
      r ∈ f.scopes → f.store.bind (.ref r) key value = .ok s → Step f ⟨s, f.scopes⟩
  | delete {r : Ref} {key : Value} {s : Store} :
      r ∈ f.scopes → f.store.unbind (.ref r) key = .ok s → Step f ⟨s, f.scopes⟩
  /-- anything else that leaves the scopes and their bindings as they are -/
  | other {s : Store} :
      f.store.size ≤ s.size → (∀ r ∈ f.scopes, s.get? r = f.store.get? r) →
      (∀ r ∈ f.scopes, ∀ b p, f.store.scope? (.ref r) = some (.ref b, p) → s.get? b = f.store.get? b) →
      Step f ⟨s, f.scopes⟩

/-- The forests that come about by operations on scopes, from none. -/
def Grown (f : Forest) : Prop := ∃ s, ReflTransGen Step ⟨s, []⟩ f

/-- What every operation keeps: each scope is over a dictionary of its own and below none or an older one. -/
structure Sound (f : Forest) : Prop where
  isScope : ∀ r ∈ f.scopes, ∃ b entries parent, f.store.IsScope r b entries parent ∧
    (parent = .null ∨ ∃ p ∈ f.scopes, parent = .ref p ∧ p.index < r.index)
  apart : ∀ r ∈ f.scopes, ∀ r' ∈ f.scopes, ∀ b entries entries' p p', f.store.IsScope r b entries p →
    f.store.IsScope r' b entries' p' → r = r'

section Sound

variable {f f' : Forest} {r b : Ref} {v parent key : Value} {name : String} {entries entries' : Entries} {s : Store}
  {chain : List Ref}

/-- A sound forest stays sound when a scope is rewritten and all scopes remain what they were otherwise. -/
theorem Sound.of_isScope (h : f.Sound)
    (hkeep : ∀ r ∈ f.scopes, ∀ b entries p, f.store.IsScope r b entries p → ∃ entries', s.IsScope r b entries' p) :
    Sound ⟨s, f.scopes⟩ where
  isScope r hr := by
    obtain ⟨b, entries, p, his, hp⟩ := h.isScope r hr
    obtain ⟨entries', his'⟩ := hkeep r hr b entries p his
    exact ⟨b, entries', p, his', hp⟩
  apart r hr r' hr' b entries entries' p p' his his' := by
    obtain ⟨c, es, q, hwas, -⟩ := h.isScope r hr
    obtain ⟨c', es', q', hwas', -⟩ := h.isScope r' hr'
    obtain ⟨_, hnow⟩ := hkeep r hr c es q hwas
    obtain ⟨_, hnow'⟩ := hkeep r' hr' c' es' q' hwas'
    cases his.scope.symm.trans hnow.scope
    cases his'.scope.symm.trans hnow'.scope
    exact h.apart r hr r' hr' b es es' p p' hwas hwas'

theorem Sound.set (h : f.Sound) (hr : r ∈ f.scopes) (his : f.store.IsScope r b entries parent)
    (htexts : entries'.texts.Nodup) : Sound ⟨f.store.set b (.dict entries'), f.scopes⟩ := by
  refine h.of_isScope fun r' hr' b' es p his' => ?_
  by_cases hb : b' = b
  · subst hb
    obtain rfl := h.apart r hr r' hr' b' entries es parent p his his'
    cases his.scope.symm.trans his'.scope
    exact ⟨entries', his.set_self htexts⟩
  · exact ⟨es, his.set_ne his' hb entries'⟩

theorem Sound.other (h : f.Sound) (hscopes : ∀ r ∈ f.scopes, s.get? r = f.store.get? r)
    (hbindings : ∀ r ∈ f.scopes, ∀ b p, f.store.scope? (.ref r) = some (.ref b, p) → s.get? b = f.store.get? b) :
    Sound ⟨s, f.scopes⟩ := by
  refine h.of_isScope fun r hr b entries p his => ⟨entries, ?_, ?_, his.texts⟩
  · rw [hscopes r hr, his.scope]
  · rw [hbindings r hr b p his.scope?_eq, his.bindings]

theorem Sound.index_lt (h : f.Sound) (hr : r ∈ f.scopes) : r.index < f.store.size := by
  obtain ⟨b, entries, p, his, -⟩ := h.isScope r hr
  exact Store.index_lt_of_get? his.scope

theorem Sound.alloc (h : f.Sound) (c : Cell) : Sound ⟨(f.store.alloc c).2, f.scopes⟩ := by
  refine h.other (fun r hr => Store.get?_alloc_lt c (h.index_lt hr)) fun r hr b p hscope => ?_
  obtain ⟨b', entries, p', his, -⟩ := h.isScope r hr
  cases his.scope?_eq.symm.trans hscope
  exact Store.get?_alloc_lt c (Store.index_lt_of_get? his.bindings)

/-- A new scope over a dictionary of its own is younger than all others. -/
theorem Sound.make (h : f.Sound) (hparent : parent = .null ∨ ∃ p ∈ f.scopes, parent = .ref p)
    (hb : f.store.get? b = some (.dict entries)) (htexts : entries.texts.Nodup)
    (hown : ∀ other ∈ f.scopes, ∀ p, f.store.scope? (.ref other) ≠ some (.ref b, p)) :
    Sound ⟨(f.store.alloc (.scope (.ref b) parent)).2, f.store.next :: f.scopes⟩ := by
  have hrest := h.alloc (.scope (.ref b) parent)
  have hnew : (f.store.alloc (.scope (.ref b) parent)).2.IsScope f.store.next b entries parent :=
    ⟨Store.get?_alloc_self f.store _, by rw [Store.get?_alloc_lt _ (Store.index_lt_of_get? hb), hb], htexts⟩
  have hapart : ∀ r ∈ f.scopes, ∀ es p, ¬ (f.store.alloc (.scope (.ref b) parent)).2.IsScope r b es p := by
    intro r hr es p his
    refine hown r hr p ?_
    have hscope := his.scope
    rw [Store.get?_alloc_lt _ (h.index_lt hr)] at hscope
    simp only [Store.scope?, Store.cell?, hscope]
  refine ⟨fun r hr => ?_, fun r hr r' hr' c es es' p p' his his' => ?_⟩
  · rcases List.mem_cons.1 hr with rfl | hr
    · refine ⟨b, entries, parent, hnew, hparent.imp_right ?_⟩
      rintro ⟨p, hp, rfl⟩
      exact ⟨p, List.mem_cons_of_mem _ hp, rfl, h.index_lt hp⟩
    · obtain ⟨c, es, p, his, hp⟩ := hrest.isScope r hr
      refine ⟨c, es, p, his, hp.imp_right ?_⟩
      rintro ⟨q, hq, rfl, hlt⟩
      exact ⟨q, List.mem_cons_of_mem _ hq, rfl, hlt⟩
  · rcases List.mem_cons.1 hr with rfl | hr <;> rcases List.mem_cons.1 hr' with rfl | hr'
    · rfl
    · cases hnew.scope.symm.trans his.scope
      exact absurd his' (hapart r' hr' es' p')
    · cases hnew.scope.symm.trans his'.scope
      exact absurd his (hapart r hr es p)
    · exact hrest.apart r hr r' hr' c es es' p p' his his'

/-- Every operation keeps a forest sound. -/
theorem Sound.step (h : f.Sound) (hstep : f.Step f') : f'.Sound := by
  cases hstep with
  | make hparent hb htexts hown hr =>
    cases hr
    exact h.make hparent hb htexts hown
  | @makeEmpty parent r hparent hr =>
    cases hr
    have hdict := h.alloc (.dict [])
    refine hdict.make hparent (Store.get?_alloc_self f.store (.dict [])) List.nodup_nil fun other hother p hscope => ?_
    -- the new dictionary is no scope's bindings, for these were there before
    obtain ⟨c, es, q, his, -⟩ := h.isScope other hother
    have hkept : (f.store.alloc (.dict [])).2.scope? (.ref other) = f.store.scope? (.ref other) := by
      simp only [Store.scope?, Store.cell?, Store.get?_alloc_lt _ (h.index_lt hother)]
    cases his.scope?_eq.symm.trans (hkept.symm.trans hscope)
    exact Nat.lt_irrefl _ (Store.index_lt_of_get? his.bindings)
  | @set r key value s hr hrun =>
    obtain ⟨b, entries, p, his, -⟩ := h.isScope r hr
    obtain ⟨name, hkey⟩ := Store.text?_of_bind his hrun
    cases (his.bind_eq hkey value).symm.trans hrun
    exact h.set hr his (Entries.nodup_texts_put his.texts hkey value)
  | @delete r key s hr hrun =>
    obtain ⟨b, entries, p, his, -⟩ := h.isScope r hr
    obtain ⟨hit, rfl⟩ := his.unbind_cases hrun
    exact h.set hr his (Entries.nodup_texts_drop his.texts hit)
  | other _ hscopes hbindings => exact h.other hscopes hbindings

/-- A forest that came about by operations on scopes is sound. -/
theorem Grown.sound (h : f.Grown) : f.Sound := by
  obtain ⟨s, hsteps⟩ := h
  induction hsteps with
  | refl => exact ⟨fun _ hr => absurd hr List.not_mem_nil, fun _ hr => absurd hr List.not_mem_nil⟩
  | tail _ hstep ih => exact ih.step hstep

/-- From each scope a chain of scopes of the forest leads to an end, and it is no longer than there are objects. -/
theorem Sound.exists_chain (h : f.Sound) (hr : r ∈ f.scopes) :
    ∃ chain, f.store.Chain (.ref r) chain ∧ chain.length ≤ r.index + 1 ∧ ∀ t ∈ chain, t ∈ f.scopes := by
  induction hn : r.index using Nat.strongRecOn generalizing r with
  | ind n ih =>
    subst hn
    obtain ⟨b, entries, parent, his, hparent⟩ := h.isScope r hr
    rcases hparent with rfl | ⟨p, hp, rfl, hlt⟩
    · exact ⟨[r], .next his.scope?_eq .done, by simp, by simpa using hr⟩
    · obtain ⟨chain, hchain, hlength, hmem⟩ := ih p.index hlt hp rfl
      refine ⟨r :: chain, .next his.scope?_eq hchain, ?_, ?_⟩
      · rw [List.length_cons]
        omega
      · rintro t (_ | ⟨_, ht⟩)
        · exact hr
        · exact hmem t ht

/-- The owner of a name is the first scope of the chain that binds it. -/
theorem Sound.owner?_eq (h : f.Sound) (hv : v = .null ∨ ∃ r ∈ f.scopes, v = .ref r) (hchain : f.store.Chain v chain)
    (hkey : key.text? = some name) : f.store.owner? v key = .ok (f.store.nearest? name chain) := by
  have hsize : chain.length ≤ f.store.size ∧ ∀ t ∈ chain, t ∈ f.scopes := by
    rcases hv with rfl | ⟨r, hr, rfl⟩
    · cases hchain
      exact ⟨Nat.zero_le _, fun _ ht => absurd ht List.not_mem_nil⟩
    · obtain ⟨chain', hchain', hlength, hmem⟩ := h.exists_chain hr
      obtain rfl := hchain.unique hchain'
      exact ⟨Nat.le_trans hlength (h.index_lt hr), hmem⟩
  refine hchain.ownerWithin (fun t ht => ?_) hkey (Nat.lt_succ_of_le hsize.1)
  obtain ⟨b, entries, p, his, -⟩ := h.isScope t (hsize.2 t ht)
  exact ⟨b, entries, p, his⟩

/-! ### Rewriting one scope of a forest -/

section Rewriting

variable (h : f.Sound) (hr : r ∈ f.scopes) (his : f.store.IsScope r b entries parent) (htexts : entries'.texts.Nodup)

include h hr his htexts

theorem Sound.ownBindings_set {t : Ref} (ht : t ∈ f.scopes) :
    (f.store.set b (.dict entries')).ownBindings t = if t = r then entries' else f.store.ownBindings t := by
  split
  · rename_i heq
    subst heq
    exact (his.set_self htexts).ownBindings_eq
  · rename_i hne
    obtain ⟨b', es, p, his', -⟩ := h.isScope t ht
    have hb : b' ≠ b := by
      rintro rfl
      exact hne (h.apart t ht r hr b' es entries p parent his' his)
    rw [(his.set_ne his' hb entries').ownBindings_eq, his'.ownBindings_eq]

theorem Sound.own?_set {t : Ref} (ht : t ∈ f.scopes) (name : String) :
    (f.store.set b (.dict entries')).own? name t =
      if t = r then Entries.find? (Value.immediateEq (.text name)) entries' else f.store.own? name t := by
  rw [Store.own?, h.ownBindings_set hr his htexts ht]
  split <;> rfl

/-- A name goes on to be looked up along the same chains. -/
theorem Sound.owner?_set (hv : v = .null ∨ ∃ r ∈ f.scopes, v = .ref r) (hchain : f.store.Chain v chain)
    (hkey : key.text? = some name) : (f.store.set b (.dict entries')).owner? v key =
      .ok ((f.store.set b (.dict entries')).nearest? name chain) :=
  (h.set hr his htexts).owner?_eq hv (hchain.mono (his.keeps_set entries')) hkey

theorem Sound.alters (hnames : ∀ n ≠ name, Entries.find? (Value.immediateEq (.text n)) entries' =
    Entries.find? (Value.immediateEq (.text n)) entries) :
    f.store.Alters (f.store.set b (.dict entries')) f.scopes r name where
  bindings t ht hne := by rw [h.ownBindings_set hr his htexts ht, if_neg hne]
  own n hn := by rw [h.own?_set hr his htexts hr, if_pos rfl, hnames n hn, Store.own?, his.ownBindings_eq]
  names t ht key n hkey hn := by
    obtain ⟨chain, hchain, -, hmem⟩ := h.exists_chain ht
    rw [h.owner?_set hr his htexts (.inr ⟨t, ht, rfl⟩) hchain hkey, h.owner?_eq (.inr ⟨t, ht, rfl⟩) hchain hkey]
    refine congrArg Except.ok (Store.nearest?_congr fun u hu => ?_)
    rw [h.own?_set hr his htexts (hmem u hu)]
    split
    · rename_i heq
      subst heq
      rw [hnames n hn, Store.own?, his.ownBindings_eq]
    · rfl
  unseen t ht hsees key hkey := by
    obtain ⟨chain, hchain, -, hmem⟩ := h.exists_chain ht
    have hother : ∀ u ∈ chain, u ≠ r → (f.store.set b (.dict entries')).own? name u = f.store.own? name u :=
      fun u hu hne => by rw [h.own?_set hr his htexts (hmem u hu), if_neg hne]
    rw [h.owner?_set hr his htexts (.inr ⟨t, ht, rfl⟩) hchain hkey, h.owner?_eq (.inr ⟨t, ht, rfl⟩) hchain hkey]
    by_cases hin : r ∈ chain
    · obtain ⟨before, after, rfl⟩ := List.append_of_mem hin
      have hnot : r ∉ before := fun hmem => (List.nodup_append.1 hchain.nodup).2.2 r hmem r List.mem_cons_self rfl
      -- a scope nearer than `r` binds the name, before and after
      have hnearer : f.store.nearest? name before ≠ none :=
        fun hnone => hsees ⟨before, after, hchain, Store.nearest?_eq_none_iff.1 hnone⟩
      obtain ⟨found, hfound⟩ := Option.ne_none_iff_exists'.1 hnearer
      have hsame : (f.store.set b (.dict entries')).nearest? name before = f.store.nearest? name before :=
        Store.nearest?_congr fun u hu => hother u (List.mem_append_left _ hu) fun heq => hnot (heq ▸ hu)
      rw [Store.nearest?_append, Store.nearest?_append, hsame, hfound]
      rfl
    · exact congrArg Except.ok (Store.nearest?_congr fun u hu => hother u hu fun heq => hin (heq ▸ hu))

/-- Where the rewritten scope is seen, its new binding is found, or what its parent finds if it has none. -/
theorem Sound.owner?_of_sees {t : Ref} (ht : t ∈ f.scopes) (hsees : f.store.Sees name t r)
    (hkey : key.text? = some name) : (f.store.set b (.dict entries')).owner? (.ref t) key =
      match Entries.find? (Value.immediateEq (.text name)) entries' with
      | some w => .ok (some (.ref r, w))
      | none => f.store.owner? parent key := by
  obtain ⟨before, after, hchain, hbefore⟩ := hsees
  obtain ⟨chain', hchain', -, hmem⟩ := h.exists_chain ht
  obtain rfl := hchain'.unique hchain
  have hnodup := List.nodup_append.1 hchain.nodup
  have hnone : ∀ u ∈ before, (f.store.set b (.dict entries')).own? name u = none := by
    intro u hu
    have hne : u ≠ r := hnodup.2.2 u hu r List.mem_cons_self
    rw [h.own?_set hr his htexts (hmem u (List.mem_append_left _ hu)), if_neg hne, hbefore u hu]
  rw [h.owner?_set hr his htexts (.inr ⟨t, ht, rfl⟩) hchain hkey, Store.nearest?_of_before hnone,
    h.own?_set hr his htexts hr, if_pos rfl]
  cases Entries.find? (Value.immediateEq (.text name)) entries' with
  | some w => rfl
  | none =>
    -- the rest of the chain is the chain of the parent
    have hafter : f.store.Chain parent after := by
      cases hchain.rest with
      | next hscope hafter =>
        cases his.scope?_eq.symm.trans hscope
        exact hafter
    have hparent : parent = .null ∨ ∃ p ∈ f.scopes, parent = .ref p := by
      obtain ⟨b', es, p, his', hp⟩ := h.isScope r hr
      cases his.scope.symm.trans his'.scope
      exact hp.imp_right fun ⟨q, hq, heq, _⟩ => ⟨q, hq, heq⟩
    rw [h.owner?_eq hparent hafter hkey]
    refine congrArg Except.ok (Store.nearest?_congr fun u hu => ?_)
    have hne : u ≠ r := fun heq => (List.nodup_cons.1 hnodup.2.1).1 (heq ▸ hu)
    rw [h.own?_set hr his htexts (hmem u (List.mem_append_right _ (List.mem_cons_of_mem _ hu))), if_neg hne]

end Rewriting

/-! ### The operations -/

/-- The four ways to look a name up agree with the nearest binding along the chain, and the search goes no further. -/
theorem Sound.lookups (h : f.Sound) (hr : r ∈ f.scopes) : ∃ chain, f.store.Chain (.ref r) chain ∧
    ∀ key name, key.text? = some name →
      (∀ n, chain.length < n → f.store.ownerWithin key n (.ref r) = .ok (f.store.nearest? name chain)) ∧
      f.store.owner? (.ref r) key = .ok (f.store.nearest? name chain) ∧
      f.store.lookup? (.ref r) key = .ok ((f.store.nearest? name chain).map Prod.snd) ∧
      f.store.binds (.ref r) key = .ok (f.store.nearest? name chain).isSome ∧
      f.store.lookup (.ref r) key =
        match f.store.nearest? name chain with
        | some (_, w) => .ok w
        | none => .error (.of (.missingBinding name)) := by
  obtain ⟨chain, hchain, -, hmem⟩ := h.exists_chain hr
  refine ⟨chain, hchain, fun key name hkey => ?_⟩
  have howner := h.owner?_eq (.inr ⟨r, hr, rfl⟩) hchain hkey
  have hlookup : f.store.lookup? (.ref r) key = .ok ((f.store.nearest? name chain).map Prod.snd) := by
    rw [Store.lookup?, howner]
    rfl
  refine ⟨fun n hn => hchain.ownerWithin (fun t ht => ?_) hkey hn, howner, hlookup, ?_, ?_⟩
  · obtain ⟨b, entries, p, his, -⟩ := h.isScope t (hmem t ht)
    exact ⟨b, entries, p, his⟩
  · have htext : key.isText = true := by rw [Value.isText, hkey]; rfl
    rw [Store.binds, if_pos htext, howner]
    rfl
  · rw [Store.lookup, hlookup]
    cases f.store.nearest? name chain with
    | some found => rfl
    | none =>
      change (f.store.plainText key >>= fun text => .error (.of (.missingBinding text))) = _
      rw [Store.plainText_of_text? f.store hkey]
      rfl

theorem Sound.bind_alters (h : f.Sound) (hr : r ∈ f.scopes) (hkey : key.text? = some name) (value : Value) :
    ∃ s, f.store.bind (.ref r) key value = .ok s ∧ f.store.Alters s f.scopes r name ∧
      ∀ other ∈ f.scopes, f.store.Sees name other r → s.owner? (.ref other) key = .ok (some (.ref r, value)) := by
  obtain ⟨b, entries, parent, his, -⟩ := h.isScope r hr
  have htexts := Entries.nodup_texts_put his.texts hkey value
  have hhit : (Value.text name).immediateEq key = true := Value.immediateEq_text_iff.2 hkey
  refine ⟨_, his.bind_eq hkey value, h.alters hr his htexts fun n hn => ?_, fun other hother hsees => ?_⟩
  · have hdis : ∀ k, (Value.text name).immediateEq k = true → (Value.text n).immediateEq k = false :=
      fun k hk => Bool.eq_false_iff.2 fun hk' => hn (Value.text_key_unique hk' hk)
    exact Entries.find?_put_of_disjoint value (hdis key hhit) hdis entries
  · rw [h.owner?_of_sees hr his htexts hother hsees hkey, Entries.find?_put value hhit]

theorem Sound.unbind_alters (h : f.Sound) (hr : r ∈ f.scopes) (hkey : key.text? = some name)
    (hown : f.store.own? name r ≠ none) :
    ∃ s, f.store.unbind (.ref r) key = .ok s ∧ f.store.Alters s f.scopes r name ∧
      ∀ other ∈ f.scopes, f.store.Sees name other r → ∀ b parent, f.store.scope? (.ref r) = some (b, parent) →
        s.owner? (.ref other) key = f.store.owner? parent key := by
  obtain ⟨b, entries, parent, his, -⟩ := h.isScope r hr
  have htexts := Entries.nodup_texts_drop his.texts (Value.immediateEq (.text name))
  refine ⟨_, his.unbind_eq hkey hown, h.alters hr his htexts fun n hn => ?_, fun other hother hsees b' p hscope => ?_⟩
  · exact Entries.find?_drop_of_disjoint
      (fun k hk => Bool.eq_false_iff.2 fun hk' => hn (Value.text_key_unique hk' hk)) entries
  · cases his.scope?_eq.symm.trans hscope
    rw [h.owner?_of_sees hr his htexts hother hsees hkey, Entries.find?_drop_self his.texts]

/-- What is bound where it was not, and then unbound, leaves the store as it was. -/
theorem Sound.unbind_bind (h : f.Sound) (hr : r ∈ f.scopes) (hkey : key.text? = some name)
    (hown : f.store.own? name r = none) {value : Value} (hrun : f.store.bind (.ref r) key value = .ok s) :
    s.unbind (.ref r) key = .ok f.store := by
  obtain ⟨b, entries, parent, his, -⟩ := h.isScope r hr
  have htexts := Entries.nodup_texts_put his.texts hkey value
  have hhit : (Value.text name).immediateEq key = true := Value.immediateEq_text_iff.2 hkey
  cases (his.bind_eq hkey value).symm.trans hrun
  have hnow := his.set_self htexts
  have hbound : (f.store.set b (.dict (Entries.put (Value.immediateEq (.text name)) key value entries))).own? name r ≠ none := by
    rw [h.own?_set hr his htexts hr, if_pos rfl, Entries.find?_put value hhit]
    simp
  have hmissing : Entries.find? (Value.immediateEq (.text name)) entries = none := by
    rw [Store.own?, his.ownBindings_eq] at hown
    exact hown
  rw [hnow.unbind_eq hkey hbound, Entries.drop_put hmissing hhit, Store.set_set_self his.bindings]

/-- **Scopes look names up by the nearest binding, and never for ever.** However scopes are made, set and deleted in, no
scope is below itself, and from each a finite chain leads to an end. The owner of a name, its value, whether it has one
and the refusal of a name without one are all what the first scope of the chain that binds the name says. A name that is
set in a scope, or deleted from it, is looked up differently only from where that scope is seen: with the new value, or
as the scope's parent looks it up. No other name and no other scope's bindings change. And what is set where it was not
bound, and then deleted, leaves everything as it was. -/
theorem Grown.nearest_binding (hf : f.Grown) :
    (∀ r ∈ f.scopes, ¬ TransGen f.store.Below r r) ∧
    (∀ r ∈ f.scopes, ∃ chain, f.store.Chain (.ref r) chain ∧ ∀ key name, key.text? = some name →
      (∀ n, chain.length < n → f.store.ownerWithin key n (.ref r) = .ok (f.store.nearest? name chain)) ∧
      f.store.owner? (.ref r) key = .ok (f.store.nearest? name chain) ∧
      f.store.lookup? (.ref r) key = .ok ((f.store.nearest? name chain).map Prod.snd) ∧
      f.store.binds (.ref r) key = .ok (f.store.nearest? name chain).isSome ∧
      f.store.lookup (.ref r) key =
        match f.store.nearest? name chain with
        | some (_, w) => .ok w
        | none => .error (.of (.missingBinding name))) ∧
    (∀ r ∈ f.scopes, ∀ key name, key.text? = some name →
      (∀ value, ∃ s, f.store.bind (.ref r) key value = .ok s ∧ f.store.Alters s f.scopes r name ∧
        ∀ other ∈ f.scopes, f.store.Sees name other r → s.owner? (.ref other) key = .ok (some (.ref r, value))) ∧
      (f.store.own? name r ≠ none →
        ∃ s, f.store.unbind (.ref r) key = .ok s ∧ f.store.Alters s f.scopes r name ∧
          ∀ other ∈ f.scopes, f.store.Sees name other r → ∀ b parent, f.store.scope? (.ref r) = some (b, parent) →
            s.owner? (.ref other) key = f.store.owner? parent key) ∧
      (f.store.own? name r = none →
        f.store.unbind (.ref r) key = .error (.of (.missingBinding name)) ∧
        ∀ value s, f.store.bind (.ref r) key value = .ok s → s.unbind (.ref r) key = .ok f.store)) := by
  have hsound := hf.sound
  refine ⟨fun r hr => ?_, fun r hr => hsound.lookups hr, fun r hr key name hkey => ⟨?_, ?_, fun hown => ⟨?_, ?_⟩⟩⟩
  · obtain ⟨chain, hchain, -⟩ := hsound.exists_chain hr
    exact hchain.not_below_self
  · exact fun value => hsound.bind_alters hr hkey value
  · exact fun hown => hsound.unbind_alters hr hkey hown
  · obtain ⟨b, entries, parent, his, -⟩ := hsound.isScope r hr
    exact his.unbind_of_own?_none hkey hown
  · exact fun value s hrun => hsound.unbind_bind hr hkey hown hrun

end Sound

/-- An empty scope below one that binds a name. -/
def nested : Forest :=
  ⟨⟨#[.dict [(.text "x", .int 1)], .scope (.ref ⟨0⟩) .null, .dict [], .scope (.ref ⟨2⟩) (.ref ⟨1⟩)]⟩, [⟨3⟩, ⟨1⟩]⟩

theorem grown_nested : nested.Grown := by
  have hfirst : Step ⟨⟨#[.dict [(.text "x", .int 1)]]⟩, []⟩
      ⟨⟨#[.dict [(.text "x", .int 1)], .scope (.ref ⟨0⟩) .null]⟩, [⟨1⟩]⟩ :=
    .make (.inl rfl) rfl (by decide) (fun _ hother => absurd hother List.not_mem_nil) rfl
  have hsecond : Step ⟨⟨#[.dict [(.text "x", .int 1)], .scope (.ref ⟨0⟩) .null]⟩, [⟨1⟩]⟩ nested :=
    .makeEmpty (.inr ⟨⟨1⟩, List.mem_cons_self, rfl⟩) rfl
  exact ⟨_, .tail (.single hfirst) hsecond⟩

/-- The inner scope sees what is set in the outer one, until it has a binding of its own; that one is deleted without a
trace. -/
theorem nearest_binding_nested : nested.Grown ∧
    (∃ s, nested.store.bind (.ref ⟨1⟩) (.text "x") (.int 2) = .ok s ∧
      s.owner? (.ref ⟨3⟩) (.text "x") = .ok (some (.ref ⟨1⟩, .int 2))) ∧
    (∃ s, nested.store.bind (.ref ⟨3⟩) (.text "x") (.int 3) = .ok s ∧
      s.owner? (.ref ⟨3⟩) (.text "x") = .ok (some (.ref ⟨3⟩, .int 3)) ∧
      s.owner? (.ref ⟨1⟩) (.text "x") = .ok (some (.ref ⟨1⟩, .int 1)) ∧
      s.unbind (.ref ⟨3⟩) (.text "x") = .ok nested.store) := by
  obtain ⟨-, -, hchange⟩ := grown_nested.nearest_binding
  have hchain : nested.store.Chain (.ref ⟨3⟩) [⟨3⟩, ⟨1⟩] := .next rfl (.next rfl .done)
  have houter : nested.store.Chain (.ref ⟨1⟩) [⟨1⟩] := .next rfl .done
  refine ⟨grown_nested, ?_, ?_⟩
  · obtain ⟨s, hs, -, hseen⟩ := (hchange ⟨1⟩ (by decide) (.text "x") "x" rfl).1 (.int 2)
    exact ⟨s, hs, hseen ⟨3⟩ (by decide) ⟨[⟨3⟩], [], hchain, by decide⟩⟩
  · obtain ⟨hset, -, hmissing⟩ := hchange ⟨3⟩ (by decide) (.text "x") "x" rfl
    obtain ⟨s, hs, halters, hseen⟩ := hset (.int 3)
    have hunseen : ¬ nested.store.Sees "x" ⟨1⟩ ⟨3⟩ := by
      rintro ⟨before, after, hother, -⟩
      have hmem : (⟨3⟩ : Ref) ∈ [(⟨1⟩ : Ref)] := houter.unique hother ▸ List.mem_append_right _ List.mem_cons_self
      exact absurd hmem (by decide)
    refine ⟨s, hs, hseen ⟨3⟩ (by decide) ⟨[], [⟨1⟩], hchain, by decide⟩, ?_, (hmissing rfl).2 (.int 3) s hs⟩
    rw [halters.unseen ⟨1⟩ (by decide) hunseen (.text "x") rfl]
    rfl

end Forest

end ListScript
