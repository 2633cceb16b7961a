import ListScript.Proofs.PathGrammar
import ListScript.Proofs.PathSpelling
import ListScript.Proofs.Sequence
import ListScript.Proofs.Silence
import ListScript.Proofs.WriteThenRead

/-!
# Distinct names

A name is a text without dots and brackets that selects no root. What is written under a name is read under that name
alone, be it a variable or a key of the context object (`set_leaves_get`). There is one exception: a name made of digits
is an index, so two names that denote the same number are the same (`not_set_leaves_get`).

- `Path.keyText_ne`: other names are distinct keys;
- `Store.readField_writeField`: what is set under one key of a container is not seen under another.
-/

namespace ListScript

open Effect

/-! ## Names as paths -/

namespace Path

/-- A text that is one name: without dots and brackets, and not the name of a root. -/
structure IsName (text : String) : Prop where
  ne_empty : text ≠ ""
  inName : ∀ c ∈ text.toList, inName c = true
  ne_this : text ≠ "this"
  ne_last : text ≠ "$"

/-- What stands before a name in a path: nothing for a variable, `this.` for a part of the context object. -/
inductive Leading : Root → String → Prop
  | scope : Leading .scope ""
  | this : Leading .this "this."

/-- Two names that are made of digits and denote the same number. -/
def SameNumber (s t : String) : Prop := ∃ n, integer? s.toList = some n ∧ integer? t.toList = some n

variable {s t text pre : String} {root : Root} {segment other : Segment}

theorem integer?_of_segmentOf {cs : List Char} {n : Nat} (h : segmentOf cs = .ok (.index n)) : integer? cs = some n := by
  obtain ⟨seg, hseg, hread⟩ | ⟨fault, hfault, -⟩ := segmentOf_cases cs
  · rw [h] at hseg
    cases hseg
    unfold unquoted? at hread
    split at hread
    · simpa using hread
    · cases hread
  · rw [h] at hfault
    cases hfault

theorem name_of_segmentOf {u : String} (h : segmentOf text.toList = .ok (.name u)) :
    u = text ∧ Text.allDigits text.toList = false := by
  unfold segmentOf at h
  split at h
  · dsimp only at h
    split at h
    · cases h
    · split at h <;> cases h
  · rename_i hdigits
    cases h
    exact ⟨String.ofList_toList, Bool.eq_false_iff.2 hdigits⟩

theorem allDigits_integerText (n : Nat) : Text.allDigits (integerText n).toList = true := by
  have hsign : ¬ ((n : Int) < 0) := by omega
  have htext : (integerText n).toList = decimalDigits n := by simp [integerText, hsign]
  have hne : decimalDigits n ≠ [] := Nat.toDigits_ne_nil
  have hdigit : ∀ c ∈ decimalDigits n, Text.isDigit c = true := fun c hc =>
    isDigit_of_ascii (isDigit_of_mem_decimalDigits hc)
  rw [htext, Text.allDigits]
  simpa [hne] using hdigit

/-- Distinct names are distinct keys, unless they denote the same number. -/
theorem keyText_ne (hne : s ≠ t) (hnumber : ¬ SameNumber s t) (hs : segmentOf s.toList = .ok segment)
    (ht : segmentOf t.toList = .ok other) : segment.keyText ≠ other.keyText := by
  intro hkey
  cases segment with
  | name u =>
    obtain ⟨rfl, hdigits⟩ := name_of_segmentOf hs
    cases other with
    | name w =>
      obtain ⟨rfl, -⟩ := name_of_segmentOf ht
      exact hne hkey
    | index n =>
      rw [show u = integerText n from hkey, allDigits_integerText] at hdigits
      cases hdigits
  | index m =>
    cases other with
    | name w =>
      obtain ⟨rfl, hdigits⟩ := name_of_segmentOf ht
      rw [show w = integerText m from hkey.symm, allDigits_integerText] at hdigits
      cases hdigits
    | index n =>
      obtain rfl := integerText_injective hkey
      exact hnumber ⟨m, integer?_of_segmentOf hs, integer?_of_segmentOf ht⟩

theorem IsName.spelled (h : IsName text) : (Piece.name text.toList).Spelled true text.toList :=
  .first (by simpa using h.ne_empty) h.inName

theorem IsName.row (h : IsName text) : Row [.name text.toList] ('.' :: text.toList) := by
  have hrow := Row.cons (.later (by simpa using h.ne_empty) h.inName) .nil
  rwa [List.append_nil] at hrow

/-- A name is a path of one segment. -/
theorem parse_name (h : IsName text) :
    parse text = (segmentOf text.toList).map fun segment => ⟨.scope, [segment], text⟩ := by
  have hscan := scan_path h.spelled .nil
  rw [List.append_nil] at hscan
  rw [parse_eq_map h.ne_empty, hscan]
  simp only [List.mapM_cons, List.mapM_nil, Piece.decode]
  cases hsegment : segmentOf text.toList with
  | error fault => rfl
  | ok segment =>
    have hthis : segment ≠ .name "this" := by
      rintro rfl
      exact h.ne_this (name_of_segmentOf hsegment).1.symm
    have hlast : segment ≠ .name "$" := by
      rintro rfl
      exact h.ne_last (name_of_segmentOf hsegment).1.symm
    have hrooted := rooted_plain (text.toList.head? == some '[') [] hthis hlast
    simp only [Except.map, bind, Except.bind, pure, Except.pure, hrooted]

/-- A name after `this.` is a path of one segment below the context object. -/
theorem parse_this_name (h : IsName text) :
    parse ("this." ++ text) = (segmentOf text.toList).map fun segment => ⟨.this, [segment], "this." ++ text⟩ := by
  have hthis : (Piece.name "this".toList).Spelled true "this".toList := .first (by decide) (List.all_eq_true.1 rfl)
  have hscan := scan_path hthis h.row
  have htext : ("this." ++ text).toList = "this".toList ++ '.' :: text.toList := by simp
  have hhead : (("this." ++ text).toList.head? == some '[') = false := by rw [htext]; rfl
  have hdecode : Piece.decode (.name "this".toList) = .ok (.name "this") := rfl
  rw [parse_eq_map (by simp), hhead, htext, hscan]
  simp only [List.mapM_cons, List.mapM_nil, hdecode]
  change Except.map _ (Except.bind (.ok _) _) = _
  cases hsegment : segmentOf text.toList <;> simp [Piece.decode, hsegment, Except.map, Except.bind, bind, pure,
    Except.pure, rooted]

theorem Leading.parse (hpre : Leading root pre) (h : IsName text) :
    parse (pre ++ text) = (segmentOf text.toList).map fun segment => ⟨root, [segment], pre ++ text⟩ := by
  cases hpre with
  | scope => rw [String.empty_append]; exact parse_name h
  | this => exact parse_this_name h

end Path

/-! ## Other keys of a container -/

/-- A segment with another key finds in a dictionary what it found before. -/
theorem Entries.atSegment_setSegment_of_keyText {segment other : Segment} (hne : segment.keyText ≠ other.keyText)
    (v : Value) (entries : Entries) : (entries.setSegment segment v).atSegment other = entries.atSegment other := by
  cases segment with
  | name t =>
    cases other with
    | name u => exact find?_text_put_text hne v entries
    | index m =>
      have htm : t ≠ integerText m := hne
      simp only [setSegment, atSegment, find?_int_put_text, find?_text_put_text htm]
  | index n =>
    cases hn : find? (Value.immediateEq (.int n)) entries with
    | some w =>
      rw [setSegment_index_of_int v (by rw [hn]; rfl)]
      cases other with
      | name u => exact find?_text_put_int u n v entries
      | index m =>
        have hnm : (n : Int) ≠ m := fun e => hne (congrArg integerText e)
        rw [atSegment, find?_int_put_int hnm, find?_text_put_int]
        rfl
    | none =>
      rw [setSegment_index_of_text v hn]
      cases other with
      | name u => exact find?_text_put_text hne v entries
      | index m =>
        rw [atSegment, find?_int_put_text, find?_text_put_text (show integerText n ≠ integerText m from hne)]
        rfl

/-- A list that was padded for an index has null where it had no element. -/
theorem Store.getD_setElement {items items' : List Value} {m n : Nat} {v : Value} (hne : n ≠ m)
    (h : setElement items n v = .ok items') : (items'[m]?).getD .null = (items[m]?).getD .null := by
  obtain ⟨-, rfl⟩ | ⟨hle, rfl⟩ := Cell.setElement_cases h
  · rw [List.getElem?_set_ne hne]
  · by_cases hm : m < items.length
    · rw [List.append_assoc, List.getElem?_append_left hm]
    · rw [List.getElem?_eq_none (Nat.le_of_not_lt hm), List.append_assoc,
        List.getElem?_append_right (Nat.le_of_not_lt hm)]
      simp only [List.getElem?_append, List.getElem?_replicate, List.length_replicate]
      clear h
      grind

namespace Store

section Scopes

/-! A scope looks names up in one dictionary after the other. -/

variable {s : Store} {r : Ref} {entries entries' : Entries} {t : String}

theorem alike_text (s : Store) (t : String) : s.alike (.text t) = Value.immediateEq (.text t) := by
  funext k
  have hequal : s.equal (.text t) k = (Value.text t).immediateEq k := by cases k <;> rfl
  simp only [alike, hequal, Bool.or_eq_right_iff_imp, beq_iff_eq]
  rintro rfl
  exact Value.text_immediateEq_self t

theorem typeName_set {c c' : Cell} (hc : s.get? r = some c) (hname : c'.typeName = c.typeName) (v : Value) :
    (s.set r c').typeName v = s.typeName v := by
  cases v with
  | ref r' =>
    by_cases heq : r' = r
    · subst heq
      simp only [typeName, get?_set_self c' (index_lt_of_get? hc), hc, Option.map_some, hname]
    · simp only [typeName, get?_set_ne c' heq]
  | str t flavor => cases flavor <;> rfl
  | _ => rfl

section

variable (hc : s.get? r = some (.dict entries))

include hc

theorem typeName_set_dict (v : Value) : (s.set r (.dict entries')).typeName v = s.typeName v :=
  typeName_set hc (by rfl) v

/-- Entries aside, nothing can be told of an object by which of two dictionaries is there. -/
theorem cell?_set_dict (es : Entries) (v : Value) : (s.set r (.dict es)).cell? v = s.cell? v ∨
    (s.set r (.dict es)).cell? v = some (.dict es) ∧ s.cell? v = some (.dict entries) := by
  cases v with
  | ref r' =>
    by_cases heq : r' = r
    · subst heq
      exact .inr ⟨get?_set_self _ (index_lt_of_get? hc), hc⟩
    · exact .inl (get?_set_ne _ heq)
  | _ => exact .inl rfl

theorem scope?_set_dict (v : Value) : (s.set r (.dict entries')).scope? v = s.scope? v := by
  unfold scope?
  rcases cell?_set_dict hc entries' v with hcell | ⟨hcell, hcell'⟩
  · rw [hcell]
  · rw [hcell, hcell']

theorem hiddenAttribute?_set_dict (v : Value) (name : String) :
    (s.set r (.dict entries')).hiddenAttribute? v name = s.hiddenAttribute? v name := by
  unfold hiddenAttribute?
  rcases cell?_set_dict hc entries' v with hcell | ⟨hcell, hcell'⟩
  · rw [hcell]
  · rw [hcell, hcell']
    rfl

theorem bindingsOf_set_dict (v : Value) : (s.set r (.dict entries')).bindingsOf v = s.bindingsOf v := by
  simp only [bindingsOf, needHidden, scope?_set_dict hc, hiddenAttribute?_set_dict hc, typeName_set_dict hc]

theorem parentOf_set_dict (v : Value) : (s.set r (.dict entries')).parentOf v = s.parentOf v := by
  simp only [parentOf, needHidden, scope?_set_dict hc, hiddenAttribute?_set_dict hc, typeName_set_dict hc]

theorem valueElsewhere?_set_dict (d : Value) :
    (s.set r (.dict entries')).valueElsewhere? d (.text t) = s.valueElsewhere? d (.text t) := by
  unfold valueElsewhere?
  rw [typeName_set_dict hc, typeName_set_dict hc]
  rcases cell?_set_dict hc entries' d with hcell | ⟨hcell, hcell'⟩
  · rw [hcell]
    simp only [valueElsewhere?.among, alike_text, typeName_set_dict hc]
  · rw [hcell, hcell']
    cases d with
    | ref r' => rfl
    | _ => cases hcell'

variable (hsame : entries'.atSegment (.name t) = entries.atSegment (.name t))

include hsame

theorem valueAt?_set_dict (d : Value) : (s.set r (.dict entries')).valueAt? d (.text t) = s.valueAt? d (.text t) := by
  rcases cell?_set_dict hc entries' d with hcell | ⟨hcell, hcell'⟩
  · simp only [valueAt?, mapping?, hcell, valueElsewhere?_set_dict hc, sameKey_text, checkHashable_text]
  · have hmap : (s.set r (.dict entries')).mapping? d = some entries' := by simp only [mapping?, hcell]
    have hmap' : s.mapping? d = some entries := by simp only [mapping?, hcell']
    rw [valueAt?_text hmap, valueAt?_text hmap', hsame]

theorem ownerWithin_set_dict (n : Nat) (c : Value) :
    (s.set r (.dict entries')).ownerWithin (.text t) n c = s.ownerWithin (.text t) n c := by
  induction n generalizing c with
  | zero => rfl
  | succ n ih =>
    by_cases hnull : c = .null
    · subst hnull
      rfl
    · rw [ownerWithin, ownerWithin]
      · simp only [bindingsOf_set_dict hc, parentOf_set_dict hc, valueAt?_set_dict hc hsame, ih]
      · exact hnull
      · exact hnull

end

end Scopes

section Objects

/-! Any other container is one object, of which a write sets one slot. -/

variable {s s' : Store} {r : Ref} {cell cell' : Cell} {v : Value} {segment : Segment} {m : Nat} {u : String}

theorem readField_index (hc : s.get? r = some cell) (hscope : cell.scope? = none) (hdict : cell.entries? = none)
    (m : Nat) : (s.readField (.ref r) (.index m)).map Prod.fst = s.readItem (.ref r) m := by
  rw [readField, scope?_eq, mapping?_eq]
  simp only [cell?, hc, Option.bind_some, hscope, hdict, Option.isSome_none, Bool.false_eq_true, if_false]
  cases s.readItem (.ref r) m <;> rfl

/-- What an object has under a name depends on its attribute of that name and on its methods. -/
theorem readField_name_congr (hc : s.get? r = some cell) (hc' : s'.get? r = some cell') (hsize : s'.size = s.size)
    (hscope : cell.scope? = none ∧ cell'.scope? = none) (hdict : cell.entries? = none ∧ cell'.entries? = none)
    (htrap : isTrapped cell' u = isTrapped cell u) (hstored : storedAttribute? cell' u = storedAttribute? cell u)
    (hmethods : s'.methodsOf (.ref r) = s.methodsOf (.ref r)) :
    (s'.readField (.ref r) (.name u)).map Prod.fst = (s.readField (.ref r) (.name u)).map Prod.fst := by
  have hattribute : s'.attribute? (.ref r) u = s.attribute? (.ref r) u := by
    simp only [attribute?, cell?, hc, hc', htrap, hstored, hmethods]
  rw [readField, readField, scope?_eq, scope?_eq, mapping?_eq, mapping?_eq]
  simp only [cell?, hc, hc', Option.bind_some, hscope, hdict, Option.isSome_none, Bool.false_eq_true, if_false, hattribute]
  split
  · rfl
  · cases s.attribute? (.ref r) u with
    | error e => rfl
    | ok found =>
      cases found with
      | none => rfl
      | some reading =>
        cases reading with
        | stored w => rfl
        | method m =>
          -- the method is bound in a new object, which gets the same address
          have hnext : s'.next = s.next := by rw [next, next, hsize]
          simp only [materialize, alloc, hnext]
          rfl

/-- Setting an attribute leaves the methods and the items of an object. -/
theorem reads_withAttribute? (hc : s.get? r = some cell) (hc' : s'.get? r = some cell')
    (hw : withAttribute? cell u v = some cell') :
    s'.methodsOf (.ref r) = s.methodsOf (.ref r) ∧ ∀ m, s'.readItem (.ref r) m = s.readItem (.ref r) m := by
  simp only [methodsOf, readItem, cell?, hc, hc']
  cases cell with
  | function f attrs => cases hw; exact ⟨rfl, fun _ => rfl⟩
  | object cls attrs => cases hw; cases cls <;> exact ⟨rfl, fun _ => rfl⟩
  | raw payload | closure f attrs | context ctx attrs | engine stack attrs =>
    simp only [withAttribute?] at hw
    split at hw <;> cases hw <;> exact ⟨rfl, fun _ => rfl⟩
  | _ => cases hw

end Objects

variable {s s' : Store} {c v : Value} {segment other : Segment}

/-- What a segment finds below a container does not depend on what is set under another key. -/
theorem readField_writeField (hne : segment.keyText ≠ other.keyText) (h : s.writeField c segment v = .ok s') :
    (s'.readField c other).map Prod.fst = (s.readField c other).map Prod.fst := by
  have hsize : s'.size = s.size := by
    obtain ⟨r, cell, cell', -, -, -, rfl, -⟩ := writeField_cases h
    exact size_set s r cell'
  cases hscope : s.scope? c with
  | some bp =>
    obtain ⟨b, p⟩ := bp
    have hbind : s.setEntry b (.text segment.keyText) v = .ok s' := by
      simpa [writeField, hscope, bind, Value.isText, Value.text, Value.text?] using h
    have hscope' := (keeps_writeField h).scope?_some hscope
    obtain ⟨r, entries, rfl, hc, rfl⟩ := setEntry_text_cases hbind
    have hsame : (entries.setSegment (.name segment.keyText) v).atSegment (.name other.keyText) =
        entries.atSegment (.name other.keyText) := Entries.find?_text_put_text hne v entries
    simp only [readField, hscope, hscope', Option.isSome_some, if_true, lookup?, owner?, size_set,
      ownerWithin_set_dict hc hsame]
    cases s.ownerWithin (.text other.keyText) (s.size + 1) c <;> rfl
  | none =>
    obtain ⟨r, cell, cell', rfl, hc, hset, rfl⟩ := writeField_cases_of_not_scope hscope h
    have hc' : (s.set r cell').get? r = some cell' := get?_set_self cell' (index_lt_of_get? hc)
    obtain ⟨entries, rfl, rfl⟩ | ⟨items, items', flavor, n, rfl, rfl, hs, rfl⟩ |
      ⟨items, attrs, n, rfl, rfl, -, rfl⟩ | ⟨text, rfl, -, hw⟩ := Cell.setField?_cases hset
    · simp only [readField, scope?, mapping?, cell?, hc, hc', Option.isSome_none, Bool.false_eq_true, if_false,
        Entries.atSegment_setSegment_of_keyText hne]
      rfl
    · cases other with
      | name u =>
        refine readField_name_congr hc hc' hsize ⟨rfl, rfl⟩ ⟨rfl, rfl⟩ rfl rfl ?_
        simp only [methodsOf, cell?, hc, hc']
      | index m =>
        have hnm : n ≠ m := fun e => hne (by rw [e])
        rw [readField_index hc rfl rfl, readField_index hc' rfl rfl]
        simp only [readItem, cell?, hc, hc', getD_setElement hnm hs]
    · cases other with
      | name u =>
        refine readField_name_congr hc hc' hsize ⟨rfl, rfl⟩ ⟨rfl, rfl⟩ rfl rfl ?_
        simp only [methodsOf, cell?, hc, hc']
        rfl
      | index m =>
        have hnm : (n : Int) ≠ m := fun e => hne (congrArg integerText e)
        rw [readField_index hc rfl rfl, readField_index hc' rfl rfl]
        simp only [readItem, cell?, hc, hc', lookup_putItem_ne hnm]
    · obtain ⟨hdict, hdict', hplain, hplain', htrap⟩ := Cell.withAttribute?_kind hw
      obtain ⟨hmethods, hitems⟩ := reads_withAttribute? hc hc' hw
      cases other with
      | name u =>
        refine readField_name_congr hc hc' hsize ⟨hplain, hplain'⟩ ⟨hdict, hdict'⟩ (htrap u)
          (storedAttribute?_withAttribute?_ne hne hw) hmethods
      | index m =>
        rw [readField_index hc hplain hdict, readField_index hc' hplain' hdict', hitems]

/-- The object at the path of a text. -/
def fetch (s : Store) (name : Value) (ctx : Context) : Except Raised (Value × Store) := do
  let path ← s.pathOf name
  s.read path ctx

/-- A path is read from a text whatever the objects are. -/
theorem pathOf_text {name : Value} (hname : name.isText = true) (s t : Store) : s.pathOf name = t.pathOf name := by
  cases name with
  | str text flavor => rfl
  | _ => cases hname

theorem parse_of_pathOf {s : Store} {name : Value} {text : String} {path : Path} (hname : name.text? = some text)
    (h : s.pathOf name = .ok path) : Path.parse text = .ok path := by
  cases name with
  | str text' flavor =>
    cases hname
    obtain ⟨_, -, h⟩ := bind_eq_ok.1 h
    dsimp only [Value.text?, Option.getD] at h
    split at h
    · rename_i hparse
      cases h
      exact hparse
    · obtain ⟨_, -, h⟩ := bind_eq_ok.1 h
      cases h
  | _ => cases hname

theorem pathOf_of_parse {name : Value} {text : String} {path : Path} (hname : name.text? = some text)
    (h : Path.parse text = .ok path) (s : Store) : s.pathOf name = .ok path := by
  cases name with
  | str text' flavor =>
    cases hname
    refine bind_eq_ok.2 ⟨(), rfl, ?_⟩
    dsimp only [Value.text?, Option.getD]
    rw [h]
    rfl
  | _ => cases hname

/-- A write at a path of one segment is one write to the object that the path starts from. -/
theorem writeField_of_assign {s s' : Store} {v : Value} {ctx : Context} {root : Root} {segment : Segment} {text : String}
    (h : s.assign ⟨root, [segment], text⟩ v ctx = (s', none)) :
    s.writeField (ctx.rootValue root) segment v = .ok s' := by
  obtain ⟨first, rest, hsegments, -, -, hbelow⟩ := assign_cases h
  cases hsegments
  rw [assignBelow] at hbelow
  split at hbelow
  · rename_i t hwrite
    obtain rfl := (Prod.mk.inj hbelow).1
    exact hwrite
  · cases (Prod.mk.inj hbelow).2

theorem readBelow_singleton (s : Store) (c : Value) (segment : Segment) :
    (s.readBelow c [segment]).map Prod.fst = if c = .null then .ok .null else (s.readField c segment).map Prod.fst := by
  rw [readBelow]
  split
  · rfl
  · cases s.readField c segment <;> rfl

/-- A write at a name is not seen at the names that are other keys. -/
theorem fetch_writeField {s s' : Store} {name v : Value} {ctx : Context} {root : Root} {segment : Segment}
    {text : String} {found : Except Path.Fault Segment} (hname : name.text? = some text)
    (hparse : Path.parse text = found.map fun segment => ⟨root, [segment], text⟩)
    (hother : ∀ other, found = .ok other → segment.keyText ≠ other.keyText)
    (hwrite : s.writeField (ctx.rootValue root) segment v = .ok s') :
    (s'.fetch name ctx).map Prod.fst = (s.fetch name ctx).map Prod.fst := by
  have htext : name.isText = true := by rw [Value.isText, hname]; rfl
  unfold fetch
  rw [pathOf_text htext s' s]
  cases hpath : s.pathOf name with
  | error e => rfl
  | ok path =>
    have hfound := (parse_of_pathOf hname hpath).symm.trans hparse
    cases found with
    | error fault => cases hfound
    | ok other =>
      cases hfound
      change (s'.readBelow (ctx.rootValue root) [other]).map Prod.fst =
        (s.readBelow (ctx.rootValue root) [other]).map Prod.fst
      rw [readBelow_singleton, readBelow_singleton, readField_writeField (hother other rfl) hwrite]

end Store

/-! ## Expressions that read and write -/

namespace Store

/-- Whether a script is the expression that reads at the path of a text. -/
def IsGet (s : Store) (script name : Value) : Prop := ∃ tag, tag.text? = some "get" ∧ s.list? script = some [tag, name]

/-- Whether a script is the expression that writes the value of a source at the path of a text. -/
def IsSet (s : Store) (script name source : Value) : Prop :=
  ∃ tag, tag.text? = some "set" ∧ s.list? script = some [tag, name, source]

end Store

/-- How a script answers in a state: with a value or with an error. -/
def Answers (engine : Ref) (script : Value) (ctx : Context) (st : State) : Except Raised Value → Prop
  | .ok v => ∃ st', Evaluates engine script ctx st (.value v st')
  | .error e => ∃ st', Evaluates engine script ctx st (.raised e st')

/-- The value of a value source, and the state once it is there: a literal stands for itself, a list is run as a script.
The trace may be longer when the script starts. -/
def SourceGives (engine : Ref) (source : Value) (ctx : Context) (st : State) (v : Value) (st' : State) : Prop :=
  if st.store.isLiteral source then v = st.store.unwrap source ∧ st' = st
  else ∃ trace, Evaluates engine source ctx { st with trace } (.value v st')

section Expressions

variable {engine : Ref} {e name source v : Value} {ctx : Context} {st st' : State}

theorem Store.IsGet.command {s : Store} (h : s.IsGet e name) : s.command e = .ok (.get name) := by
  obtain ⟨tag, htag, h⟩ := h
  simp only [Store.command, h, Store.commandOf, htag]
  rfl

theorem Store.IsSet.command {s : Store} (h : s.IsSet e name source) (hname : name.isText = true) :
    s.command e = .ok (.set name source) := by
  obtain ⟨tag, htag, h⟩ := h
  simp only [Store.command, h, Store.commandOf, htag]
  exact if_pos hname

/-- An expression with a text in front is a script of one expression, for the evaluator that is found to run it. -/
theorem evaluates_of_tag {tag : Value} {word : String} {items : List Value} (htag : tag.text? = some word)
    (h : st.store.list? e = some (tag :: items)) (out : Outcome Value) :
    Evaluates engine e ctx st out ↔
      (∃ runner, evaluatorOf engine st = .value runner st ∧ Computes runner e ctx st out) ∨
        ∃ err, evaluatorOf engine st = .raised err st ∧ out = .raised err st := by
  have hform : st.store.script e = .ok (.single e) := by
    refine script_single h ?_
    cases tag <;> cases htag
    rfl
  constructor
  · rintro ⟨hne, fuel, rfl⟩
    cases fuel with
    | zero => rw [runScript] at hne; exact absurd rfl hne
    | succ fuel =>
      obtain ⟨runner, hrunner, -⟩ | ⟨err, herr, -⟩ | hnone := looks_evaluatorOf engine st
      · rw [runScript_by fuel e ctx hrunner hform] at hne ⊢
        exact .inl ⟨runner, hrunner, hne, fuel, rfl⟩
      · rw [runScript, bind_of_raised herr]
        exact .inr ⟨err, herr, rfl⟩
      · refine absurd ?_ hne
        rw [runScript]
        change Effect.bind _ _ st = _
        unfold Effect.bind
        rw [hnone]
  · rintro (⟨runner, hrunner, hne, fuel, hrun⟩ | ⟨err, herr, rfl⟩)
    · exact ⟨hne, fuel + 1, (runScript_by fuel e ctx hrunner hform).trans hrun⟩
    · exact ⟨by simp, 1, by rw [runScript, bind_of_raised herr]⟩

/-- An expression that reads writes its entry before it reads. -/
theorem runExpression_get (h : st.store.IsGet e name) (fuel : Nat) :
    runExpression fuel engine e ctx st =
      evalGet (runScript fuel engine) e name ctx (st.traced (evalEntry st.store e (.get name))) := by
  rw [← Logged.run_expression, (Logged.expression_accepted fuel engine ctx h.command).1]
  exact congrFun (Logged.run_get fuel engine ctx e name) _

/-- An expression that writes writes its entry before it runs its source. -/
theorem runExpression_set (h : st.store.IsSet e name source) (hname : name.isText = true) (fuel : Nat) :
    runExpression fuel engine e ctx st =
      (evalSource (runScript fuel engine) source ctx >>= fun v => ask (·.pathOf name) >>= fun path => writeAt path v ctx)
        (st.traced (evalEntry st.store e (.set name source))) := by
  rw [← Logged.run_expression, (Logged.expression_accepted fuel engine ctx (h.command hname)).1]
  simp only [Logged.command, Logged.run_bind, Logged.run_source, Logged.run_lift, Logged.run_start, Task.run]

/-- Reading at a text runs no other expression. -/
theorem runExpression_get_text (h : st.store.IsGet e name) (hname : name.isText = true) (fuel : Nat) :
    runExpression fuel engine e ctx st = askGrowing (·.fetch name ctx) (st.traced (evalEntry st.store e (.get name))) := by
  rw [runExpression_get h]
  generalize st.traced (evalEntry st.store e (.get name)) = st₁
  have htarget : evalTarget (runScript fuel engine) name ctx st₁ = .value name st₁ := by
    rw [evalTarget, if_pos hname]
    rfl
  rw [evalGet, bind_of_value htarget, if_pos hname]
  cases hpath : st₁.store.pathOf name with
  | error err =>
    have hask : ask (·.pathOf name) st₁ = .raised err st₁ := by simp only [ask, hpath]
    rw [bind_of_raised hask]
    simp only [askGrowing, Store.fetch, hpath, bind, Except.bind]
  | ok path =>
    have hask : ask (·.pathOf name) st₁ = .value path st₁ := by simp only [ask, hpath]
    rw [bind_of_value hask]
    simp only [readAt, askGrowing, Store.fetch, hpath, bind, Except.bind]

theorem answers_iff {answer : Except Raised Value} :
    Answers engine e ctx st answer ↔ ∃ st', Evaluates engine e ctx st (Effect.ofExcept answer st') := by
  cases answer <;> exact Iff.rfl

/-- Reading answers with what is found at the path, if an evaluator is found to read it. -/
theorem answers_get {answer : Except Raised Value} (h : st.store.IsGet e name) (hname : name.isText = true) :
    Answers engine e ctx st answer ↔
      (∃ runner, evaluatorOf engine st = .value runner st ∧ (st.store.fetch name ctx).map Prod.fst = answer) ∨
        ∃ err, evaluatorOf engine st = .raised err st ∧ answer = .error err := by
  have hrun : ∀ runner fuel, runExpression fuel runner e ctx st =
      askGrowing (·.fetch name ctx) (st.traced (evalEntry st.store e (.get name))) :=
    fun runner => runExpression_get_text h hname
  simp only [askGrowing, State.store_traced] at hrun
  have hcomputes : ∀ runner, (∃ st', Computes runner e ctx st (Effect.ofExcept answer st')) ↔
      (st.store.fetch name ctx).map Prod.fst = answer := by
    intro runner
    cases answer <;> simp only [Effect.ofExcept, Computes, hrun] <;> cases st.store.fetch name ctx <;>
      simp [Except.map, pure, Effect.pure, raise]
  obtain ⟨tag, htag, hlist⟩ := h
  rw [answers_iff]
  constructor
  · rintro ⟨st', hevaluates⟩
    obtain ⟨runner, hrunner, hend⟩ | ⟨err, herr, hend⟩ := (evaluates_of_tag htag hlist _).1 hevaluates
    · exact .inl ⟨runner, hrunner, (hcomputes runner).1 ⟨st', hend⟩⟩
    · cases answer with
      | ok v => cases hend
      | error err' => cases hend; exact .inr ⟨err, herr, rfl⟩
  · rintro (⟨runner, hrunner, hfetch⟩ | ⟨err, herr, rfl⟩)
    · obtain ⟨st', hend⟩ := (hcomputes runner).2 hfetch
      exact ⟨st', (evaluates_of_tag htag hlist _).2 (.inl ⟨runner, hrunner, hend⟩)⟩
    · exact ⟨st, (evaluates_of_tag htag hlist _).2 (.inr ⟨err, herr, rfl⟩)⟩

/-- An evaluator that runs its scripts itself answers with what is found at the path. -/
theorem answers_get_self {answer : Except Raised Value} (hself : st.store.RunsItself engine)
    (h : st.store.IsGet e name) (hname : name.isText = true) :
    Answers engine e ctx st answer ↔ (st.store.fetch name ctx).map Prod.fst = answer := by
  simp [answers_get h hname, evaluatorOf_self hself]

/-- Writing gives the value of the source, after the write of that value at the path. -/
theorem assign_of_evaluates_set (h : st.store.IsSet e name source) (hname : name.isText = true)
    (hrun : Evaluates engine e ctx st (.value v st')) :
    ∃ runner st₁ path, evaluatorOf engine st = .value runner st ∧ SourceGives runner source ctx st v st₁ ∧
      st₁.store.pathOf name = .ok path ∧ st₁.store.assign path v ctx = (st'.store, none) := by
  obtain ⟨tag, htag, hlist⟩ := h
  obtain ⟨runner, hrunner, -, fuel, hfuel⟩ | ⟨_, -, ⟨⟩⟩ := (evaluates_of_tag htag hlist _).1 hrun
  rw [runExpression_set ⟨tag, htag, hlist⟩ hname] at hfuel
  generalize evalEntry st.store e (.set name source) = entry at hfuel
  obtain ⟨w, st₁, hsource, hfuel⟩ := bind_eq_value.1 hfuel
  obtain ⟨path, st₂, hasked, hwrite⟩ := bind_eq_value.1 hfuel
  obtain ⟨hpath, rfl⟩ := ask_eq_value.1 hasked
  obtain ⟨rfl, hassign⟩ : w = v ∧ st₁.store.assign path w ctx = (st'.store, none) := by
    unfold writeAt at hwrite
    cases hassign : st₁.store.assign path w ctx with
    | mk store error =>
      rw [hassign] at hwrite
      cases error <;> cases hwrite
      exact ⟨rfl, rfl⟩
  have hkept := st.store_traced entry
  have htraced : st.traced entry = { st with trace := (st.traced entry).trace } := by
    unfold State.traced
    split <;> rfl
  refine ⟨runner, ?_⟩
  obtain ⟨s, st₂, hs, hsource'⟩ := bind_eq_value.1 hsource
  cases hs
  rw [hkept] at hsource'
  split at hsource'
  · rename_i hliteral
    obtain ⟨rfl, rfl⟩ := pure_eq_value.1 hsource'
    rw [hkept] at hpath hassign
    exact ⟨st, path, hrunner, by rw [SourceGives, if_pos hliteral]; exact ⟨rfl, rfl⟩, hpath, hassign⟩
  · rename_i hliteral
    refine ⟨st₁, path, hrunner, ?_, hpath, hassign⟩
    rw [SourceGives, if_neg hliteral]
    rw [htraced] at hsource'
    exact ⟨_, by simp, fuel, hsource'⟩

/-- A literal is written without running any other expression. -/
theorem evaluates_set_literal {path : Path} {s : Store} (hself : st.store.RunsItself engine)
    (h : st.store.IsSet e name source) (hname : name.isText = true)
    (hliteral : st.store.isLiteral source = true) (hpath : st.store.pathOf name = .ok path)
    (hassign : st.store.assign path (st.store.unwrap source) ctx = (s, none)) :
    ∃ st', st'.store = s ∧ Evaluates engine e ctx st (.value (st.store.unwrap source) st') := by
  generalize hentry : evalEntry st.store e (.set name source) = entry
  have hkept := st.store_traced entry
  have hsource : evalSource (runScript 0 engine) source ctx (st.traced entry) =
      .value (st.store.unwrap source) (st.traced entry) := by
    have hstore : Effect.store (st.traced entry) = .value st.store (st.traced entry) := by rw [← hkept]; rfl
    rw [evalSource, bind_of_value hstore, if_pos hliteral]
    rfl
  have hask : ask (·.pathOf name) (st.traced entry) = .value path (st.traced entry) := by
    simp only [ask, hkept, hpath]
  obtain ⟨tag, htag, hlist⟩ := h
  refine ⟨{ st.traced entry with store := s }, rfl,
    (evaluates_of_tag htag hlist _).2 (.inl ⟨engine, evaluatorOf_self hself, by simp, 0, ?_⟩)⟩
  rw [runExpression_set ⟨tag, htag, hlist⟩ hname, hentry, bind_of_value hsource, bind_of_value hask, writeAt, hkept, hassign]

end Expressions

/-- What names are looked up in: scopes and dictionaries. -/
def Store.IsTable (s : Store) (v : Value) : Prop := (s.scope? v).isSome = true ∨ (s.dict? v).isSome = true

instance (s : Store) (v : Value) : Decidable (s.IsTable v) :=
  inferInstanceAs (Decidable ((s.scope? v).isSome = true ∨ (s.dict? v).isSome = true))

theorem Store.isTable_iff {s : Store} {v : Value} : s.IsTable v ↔
    (∃ r c, v = .ref r ∧ s.get? r = some c ∧ ∃ bindings parent, c = .scope bindings parent) ∨
      ∃ r c, v = .ref r ∧ s.get? r = some c ∧ ∃ entries, c = .dict entries := by
  cases v with
  | ref r =>
    cases hc : s.get? r with
    | none => simp [IsTable, scope?, dict?, cell?, hc]
    | some c => cases c <;> simp [IsTable, scope?, dict?, cell?, hc]
  | _ => simp [IsTable, scope?, dict?, cell?]

/-- A table is still one when the value of a source is there. -/
theorem SourceGives.isTable {engine : Ref} {source v w : Value} {ctx : Context} {st st' : State}
    (h : SourceGives engine source ctx st v st') (hw : st.store.IsTable w) : st'.store.IsTable w := by
  unfold SourceGives at h
  split at h
  · rw [h.2]
    exact hw
  · obtain ⟨trace, -, fuel, hrun⟩ := h
    have hst : Outcome.state? (runScript fuel engine source ctx { st with trace }) = some st' := congrArg Outcome.state? hrun
    rw [Store.isTable_iff] at hw ⊢
    obtain ⟨r, c, rfl, hc, hscope⟩ | ⟨r, c, rfl, hc, hdict⟩ := hw
    · obtain ⟨c', hc', hscope'⟩ := exists_of_state? (m := ⟨fuel, .script engine source ctx, { st with trace }⟩)
        Ward.lasting_scope hst hc hscope
      exact .inl ⟨r, c', rfl, hc', hscope'⟩
    · obtain ⟨c', hc', hdict'⟩ := exists_of_state? (m := ⟨fuel, .script engine source ctx, { st with trace }⟩)
        Ward.lasting_dict hst hc hdict
      exact .inr ⟨r, c', rfl, hc', hdict'⟩

/-- A name in a scope or in a dictionary is set in a dictionary. -/
theorem Store.writeField_table {s s' : Store} {c v : Value} {segment : Segment} (htable : s.IsTable c)
    (h : s.writeField c segment v = .ok s') :
    ∃ r entries entries', s.get? r = some (.dict entries) ∧ s' = s.set r (.dict entries') := by
  cases hscope : s.scope? c with
  | some bp =>
    obtain ⟨b, p⟩ := bp
    have hbind : s.setEntry b (.text segment.keyText) v = .ok s' := by
      simpa [writeField, hscope, bind, Value.isText, Value.text, Value.text?] using h
    obtain ⟨r, entries, rfl, hc, rfl⟩ := setEntry_text_cases hbind
    exact ⟨r, entries, _, hc, rfl⟩
  | none =>
    obtain ⟨r, cell, cell', rfl, hc, hset, rfl⟩ := writeField_cases_of_not_scope hscope h
    have hdict : (s.dict? (.ref r)).isSome = true := htable.resolve_left (by rw [hscope]; decide)
    cases cell with
    | dict entries => cases hset; exact ⟨r, entries, _, hc, rfl⟩
    | _ => simp [dict?, cell?, hc] at hdict

/-- Which evaluator runs scripts does not depend on what is in a dictionary. -/
theorem Store.runner?_set_dict {s : Store} {r : Ref} {entries entries' : Entries} (hc : s.get? r = some (.dict entries))
    (engine : Ref) : (s.set r (.dict entries')).runner? engine = s.runner? engine := by
  have hengine : ∀ v, (s.set r (.dict entries')).engine? v = s.engine? v := by
    intro v
    unfold engine?
    rcases cell?_set_dict hc entries' v with hcell | ⟨hcell, hcell'⟩
    · rw [hcell]
    · rw [hcell, hcell']
      cases v <;> rfl
  have hcallable : ∀ v, (s.set r (.dict entries')).isCallable v = s.isCallable v := by
    intro v
    unfold isCallable
    rcases cell?_set_dict hc entries' v with hcell | ⟨hcell, hcell'⟩
    · rw [hcell]
    · rw [hcell, hcell']
  unfold runner?
  rw [hiddenAttribute?_set_dict hc]
  cases s.hiddenAttribute? (.ref engine) Host.Method.evaluate.label with
  | none => rfl
  | some f =>
    dsimp only
    rw [hcallable, typeName_set_dict hc]
    rcases cell?_set_dict hc entries' f with hcell | ⟨hcell, hcell'⟩
    · simp only [hcell, hengine]
    · rw [hcell, hcell']

/-- **Distinct names are distinct variables and distinct keys**, unless they are made of digits that denote the same
number: what a script reads at one is what it read there before something was written at the other, if the names are
looked up in a scope or in a dictionary. If a script computes the value that is written, before means after that
script. -/
theorem set_leaves_get {engine : Ref} {ctx : Context} {root : Root} {pre s t : String} (hpre : Path.Leading root pre)
    (hs : Path.IsName s) (ht : Path.IsName t) (hne : s ≠ t) (hnumber : ¬ Path.SameNumber s t) {st st' : State}
    {setter name source v : Value} (hset : st.store.IsSet setter name source) (hname : name.text? = some (pre ++ s))
    (htable : st.store.IsTable (ctx.rootValue root)) (hrun : Evaluates engine setter ctx st (.value v st')) :
    ∃ runner st₁, evaluatorOf engine st = .value runner st ∧ SourceGives runner source ctx st v st₁ ∧
      ∀ getter getter' name', st₁.store.IsGet getter name' → st'.store.IsGet getter' name' →
        name'.text? = some (pre ++ t) → ∀ answer,
          Answers engine getter' ctx st' answer ↔ Answers engine getter ctx st₁ answer := by
  have htext : ∀ {w : Value} {text : String}, w.text? = some text → w.isText = true := by
    intro w text hw
    rw [Value.isText, hw]
    rfl
  obtain ⟨runner, st₁, path, hrunner, hsource, hpath, hassign⟩ := assign_of_evaluates_set hset (htext hname) hrun
  refine ⟨runner, st₁, hrunner, hsource, ?_⟩
  intro getter getter' name' hget hget' hname' answer
  rw [answers_get hget (htext hname'), answers_get hget' (htext hname')]
  -- the write goes to one segment below the root
  have hparse := (Store.parse_of_pathOf hname hpath).symm.trans (hpre.parse hs)
  cases hsegment : Path.segmentOf s.toList with
  | error fault =>
    rw [hsegment] at hparse
    cases hparse
  | ok segment =>
    rw [hsegment] at hparse
    cases hparse
    have hwrite := Store.writeField_of_assign hassign
    have hother : ∀ other, Path.segmentOf t.toList = .ok other → segment.keyText ≠ other.keyText :=
      fun _ => Path.keyText_ne hne hnumber hsegment
    obtain ⟨r, entries, entries', hdict, hstore⟩ := Store.writeField_table (hsource.isTable htable) hwrite
    have hsame : st'.store.runner? engine = st₁.store.runner? engine := by
      rw [hstore]
      exact Store.runner?_set_dict hdict engine
    obtain ⟨hvalue, hraised⟩ := evaluatorOf_congr hsame
    simp only [Store.fetch_writeField hname' (hpre.parse ht) hother hwrite, hvalue, hraised]

/-! ## Names made of digits -/

namespace Digits

/-- Variables without a binding, an expression that writes at a name, and one that reads at a name. -/
def state (setName getName : String) : State where
  store := ⟨#[.dict [], .scope (.ref ⟨0⟩) .null, .list [.text "set", .text setName, .bool true] .plain,
    .list [.text "get", .text getName] .plain, .list [] .plain, .engine (.ref ⟨4⟩) []]⟩
  tracing := false
  trace := #[]

/-- The variables as context. -/
def context : Context := ⟨.null, .ref ⟨1⟩, .null⟩

/-- The objects after a write at an index. -/
def bound (setName getName : String) (n : Nat) : Store :=
  ⟨#[.dict [(.text (integerText n), .bool true)], .scope (.ref ⟨0⟩) .null,
    .list [.text "set", .text setName, .bool true] .plain, .list [.text "get", .text getName] .plain, .list [] .plain,
    .engine (.ref ⟨4⟩) []]⟩

theorem evaluates_bound {s t : String} {n : Nat} (hs : Path.IsName s) (h : Path.segmentOf s.toList = .ok (.index n)) :
    ∃ st', st'.store = bound s t n ∧ Evaluates ⟨5⟩ (.ref ⟨2⟩) context (state s t) (.value (.bool true) st') := by
  have hparse : Path.parse s = .ok ⟨.scope, [.index n], s⟩ := by rw [Path.parse_name hs, h]; rfl
  have hset : (state s t).store.IsSet (.ref ⟨2⟩) (.text s) (.bool true) := ⟨_, rfl, rfl⟩
  have hself : (state s t).store.RunsItself ⟨5⟩ := rfl
  exact evaluates_set_literal hself hset rfl rfl (Store.pathOf_of_parse rfl hparse _) rfl

theorem answers_of_read {t : String} (segment : Segment) {st : State} {v : Value} (hself : st.store.RunsItself ⟨5⟩)
    (ht : Path.IsName t) (h : Path.segmentOf t.toList = .ok segment) (hget : st.store.IsGet (.ref ⟨3⟩) (.text t))
    (hread : st.store.read ⟨.scope, [segment], t⟩ context = .ok (v, st.store)) :
    Answers ⟨5⟩ (.ref ⟨3⟩) context st (.ok v) := by
  have hparse : Path.parse t = .ok ⟨.scope, [segment], t⟩ := by rw [Path.parse_name ht, h]; rfl
  rw [answers_get_self hself hget rfl, Store.fetch, Store.pathOf_of_parse rfl hparse]
  change (st.store.read _ _).map _ = _
  rw [hread]
  rfl

theorem isName_ten : Path.IsName "10" := ⟨by decide, List.all_eq_true.1 rfl, by decide, by decide⟩

theorem isName_one : Path.IsName "1" := ⟨by decide, List.all_eq_true.1 rfl, by decide, by decide⟩

theorem isName_zero_one : Path.IsName "01" := ⟨by decide, List.all_eq_true.1 rfl, by decide, by decide⟩

end Digits

open Digits in
/-- The variables `10` and `1`. -/
theorem set_leaves_get_ten :
    (Path.Leading .scope "" ∧ Path.IsName "10" ∧ Path.IsName "1" ∧ "10" ≠ "1" ∧ ¬ Path.SameNumber "10" "1" ∧
      (state "10" "1").store.IsSet (.ref ⟨2⟩) (.text "10") (.bool true) ∧
      (state "10" "1").store.IsTable (context.rootValue .scope)) ∧
    ∃ st', Evaluates ⟨5⟩ (.ref ⟨2⟩) context (state "10" "1") (.value (.bool true) st') ∧
      Answers ⟨5⟩ (.ref ⟨3⟩) context st' (.ok .null) := by
  have hnumber : ¬ Path.SameNumber "10" "1" := by
    rintro ⟨n, hten, hone⟩
    have hten' : Path.integer? "10".toList = some 10 := rfl
    have hone' : Path.integer? "1".toList = some 1 := rfl
    rw [hten'] at hten
    rw [hone'] at hone
    cases hten.trans hone.symm
  have hset : (state "10" "1").store.IsSet (.ref ⟨2⟩) (.text "10") (.bool true) := ⟨_, rfl, rfl⟩
  have hget : (state "10" "1").store.IsGet (.ref ⟨3⟩) (.text "1") := ⟨_, rfl, rfl⟩
  obtain ⟨st', hstore, hrun⟩ := evaluates_bound (t := "1") isName_ten rfl
  have htable : (state "10" "1").store.IsTable (context.rootValue .scope) := .inl rfl
  obtain ⟨runner, st₁, -, hsource, hleft⟩ :=
    set_leaves_get .scope isName_ten isName_one (by decide) hnumber hset rfl htable hrun
  obtain ⟨-, rfl⟩ : _ ∧ st₁ = state "10" "1" := hsource
  have hget' : st'.store.IsGet (.ref ⟨3⟩) (.text "1") := by rw [hstore]; exact ⟨_, rfl, rfl⟩
  refine ⟨⟨.scope, isName_ten, isName_one, by decide, hnumber, hset, htable⟩, st', hrun, ?_⟩
  exact (hleft _ _ _ hget hget' rfl _).2 (answers_of_read (.index 1) rfl isName_one rfl hget rfl)

open Digits in
/-- The names `1` and `01` are one variable. -/
theorem not_set_leaves_get :
    ¬ ∀ (engine : Ref) (ctx : Context) (root : Root) (pre s t : String), Path.Leading root pre → Path.IsName s →
      Path.IsName t → s ≠ t → ∀ (st st' : State) (setter getter name name' source v : Value),
      st.store.IsSet setter name source → st.store.isLiteral source = true → name.text? = some (pre ++ s) →
      st.store.IsTable (ctx.rootValue root) → Evaluates engine setter ctx st (.value v st') →
      st.store.IsGet getter name' → st'.store.IsGet getter name' → name'.text? = some (pre ++ t) →
      ∀ answer, Answers engine getter ctx st' answer ↔ Answers engine getter ctx st answer := by
  intro hall
  obtain ⟨st', hstore, hrun⟩ := evaluates_bound (t := "01") isName_one rfl
  have hget : (state "1" "01").store.IsGet (.ref ⟨3⟩) (.text "01") := ⟨_, rfl, rfl⟩
  have hget' : st'.store.IsGet (.ref ⟨3⟩) (.text "01") := by rw [hstore]; exact ⟨_, rfl, rfl⟩
  have hafter : Answers ⟨5⟩ (.ref ⟨3⟩) context st' (.ok (.bool true)) :=
    answers_of_read (.index 1) (by rw [hstore]; rfl) isName_zero_one rfl hget' (by rw [hstore]; rfl)
  have hbefore := (hall _ _ _ _ _ _ .scope isName_one isName_zero_one (by decide) _ _ _ _ _ _ _ _ ⟨_, rfl, rfl⟩ rfl rfl
    (.inl rfl) hrun hget hget' rfl _).1 hafter
  have hread : Answers ⟨5⟩ (.ref ⟨3⟩) context (state "1" "01") (.ok .null) :=
    answers_of_read (.index 1) rfl isName_zero_one rfl hget rfl
  have hself : (state "1" "01").store.RunsItself ⟨5⟩ := rfl
  rw [answers_get_self hself hget rfl] at hbefore hread
  cases hbefore.symm.trans hread

end ListScript
