import Mathlib.Data.List.Forall2
import ListScript.Proofs.JsonGrammar
import ListScript.Proofs.PrintedText

/-!
# Printed values are JSON texts

A value of the store stands for a JSON document if it is built from null, booleans, integers with a decimal form, texts,
lists and dictionaries whose keys are texts (`Store.Denotes`). Its printed form is a text of that document, whatever the
width of indentation and the level (`Store.printAt_reads_back`). The proof goes along the grammar: what is printed for a
part of a document spells the part, and without the white space outside of strings it is the compact text of the part
(`Json.LaidOut`); the two layouts of a list only differ in the white space between its elements (`Json.LaidOut.joined`).

An integer with too many digits has no printed form (`Store.not_printAt_long_integer`).
-/

namespace ListScript

namespace Json

/-! ## White space outside of strings -/

/-- A text without the white space outside of its strings. The flag says whether it starts inside of a string. -/
def unspaced : Bool → List Char → List Char
  | _, [] => []
  | true, '\\' :: c :: cs => '\\' :: c :: unspaced true cs
  | inside, c :: cs =>
    if !inside && isSpace c then unspaced inside cs else c :: unspaced (inside != (c == '"')) cs

section Unspaced

variable {c : Char} {w cs rest : List Char}

@[simp] theorem unspaced_open (cs : List Char) : unspaced false ('"' :: cs) = '"' :: unspaced true cs := by
  simp [unspaced, isSpace]

@[simp] theorem unspaced_close (cs : List Char) : unspaced true ('"' :: cs) = '"' :: unspaced false cs := by
  simp [unspaced]

@[simp] theorem unspaced_escape (c : Char) (cs : List Char) :
    unspaced true ('\\' :: c :: cs) = '\\' :: c :: unspaced true cs := by
  simp [unspaced]

theorem unspaced_plain (hquote : c ≠ '"') (hslash : c ≠ '\\') (cs : List Char) :
    unspaced true (c :: cs) = c :: unspaced true cs := by
  have hfalse : (c == '"') = false := by simpa using hquote
  cases cs <;> simp [unspaced, hfalse, hslash]

theorem unspaced_token (hspace : isSpace c = false) (hquote : c ≠ '"') (cs : List Char) :
    unspaced false (c :: cs) = c :: unspaced false cs := by
  have hfalse : (c == '"') = false := by simpa using hquote
  simp [unspaced, hspace, hfalse]

theorem unspaced_blank (h : Blank w) (cs : List Char) : unspaced false (w ++ cs) = unspaced false cs := by
  induction w with
  | nil => rfl
  | cons c w ih =>
    obtain ⟨hc, hw⟩ := List.forall_mem_cons.1 h
    rw [List.cons_append, unspaced]
    · simp [hc, ih hw]
    · simp

theorem unspaced_tokens (h : ∀ c ∈ cs, isSpace c = false ∧ c ≠ '"') (rest : List Char) :
    unspaced false (cs ++ rest) = cs ++ unspaced false rest := by
  induction cs with
  | nil => rfl
  | cons c cs ih =>
    obtain ⟨hc, hcs⟩ := List.forall_mem_cons.1 h
    rw [List.cons_append, unspaced_token hc.1 hc.2, ih hcs, List.cons_append]

theorem unspaced_word (h : (cs.all fun c => !isSpace c && c != '"') = true) (rest : List Char) :
    unspaced false (cs ++ rest) = cs ++ unspaced false rest := unspaced_tokens (by simpa using h) rest

end Unspaced

/-! ## Tokens as they are printed -/

section Tokens

/-- The hexadecimal digits of the control characters. -/
theorem hexFour?_control : ∀ n < 0x20,
    hexFour? (Text.hexDigit (n / 16 / 16 / 16 % 16)) (Text.hexDigit (n / 16 / 16 % 16)) (Text.hexDigit (n / 16 % 16))
      (Text.hexDigit (n % 16)) = some n := by
  decide

theorem hexDigit_ne : ∀ n < 16, Text.hexDigit n ≠ '"' ∧ Text.hexDigit n ≠ '\\' := by decide

theorem unspaced_hexDigit (n : Nat) (rest : List Char) :
    unspaced true (Text.hexDigit (n % 16) :: rest) = Text.hexDigit (n % 16) :: unspaced true rest := by
  obtain ⟨hquote, hslash⟩ := hexDigit_ne (n % 16) (by omega)
  exact unspaced_plain hquote hslash rest

theorem escapeJson_cases (c : Char) :
    (∃ e, (e, c) ∈ escapes ∧ Text.escapeJson c = ['\\', e]) ∨
    (c.toNat < 0x20 ∧ Text.escapeJson c = '\\' :: 'u' :: Text.hexDigits 4 c.toNat) ∨
    (0x20 ≤ c.toNat ∧ c ≠ '"' ∧ c ≠ '\\' ∧ Text.escapeJson c = [c]) := by
  -- as a computation, for quantified over characters it would be decided by going through all of them
  have htable : (['"', '\\', '\n', '\r', '\t', '\x08', '\x0c'].all fun c =>
      escapes.any fun p => p.2 == c && Text.escapeJson c == ['\\', p.1]) = true := by decide
  by_cases hc : c ∈ ['"', '\\', '\n', '\r', '\t', '\x08', '\x0c']
  · obtain ⟨⟨e, d⟩, he, hd⟩ := List.any_eq_true.1 (List.all_eq_true.1 htable c hc)
    obtain ⟨rfl, heq⟩ : d = c ∧ Text.escapeJson c = ['\\', e] := by simpa using hd
    exact .inl ⟨e, he, heq⟩
  · simp only [List.mem_cons, List.not_mem_nil, or_false, not_or] at hc
    obtain ⟨h₁, h₂, h₃, h₄, h₅, h₆, h₇⟩ := hc
    have heq : Text.escapeJson c = if c.toNat < 0x20 then '\\' :: 'u' :: Text.hexDigits 4 c.toNat else [c] := by
      rw [Text.escapeJson, if_neg h₁, if_neg h₂, if_neg h₃, if_neg h₄, if_neg h₅, if_neg h₆, if_neg h₇]
    by_cases hcontrol : c.toNat < 0x20
    · exact .inr (.inl ⟨hcontrol, heq.trans (if_pos hcontrol)⟩)
    · exact .inr (.inr ⟨by omega, h₁, h₂, heq.trans (if_neg hcontrol)⟩)

/-- A character of a string as it is printed. -/
theorem spellsChar_escapeJson (c : Char) :
    SpellsChar c (Text.escapeJson c) ∧
      ∀ rest, unspaced true (Text.escapeJson c ++ rest) = Text.escapeJson c ++ unspaced true rest := by
  rcases escapeJson_cases c with ⟨e, he, heq⟩ | ⟨hcontrol, heq⟩ | ⟨hlow, hquote, hslash, heq⟩
  · rw [heq]
    exact ⟨.letter he, fun rest => unspaced_escape e rest⟩
  · have hchar := SpellsChar.unit (hexFour?_control c.toNat hcontrol) (.inl (by omega))
    rw [Char.ofNat_toNat] at hchar
    rw [heq]
    refine ⟨hchar, fun rest => ?_⟩
    simp only [Text.hexDigits, List.nil_append, List.cons_append, unspaced_escape, unspaced_hexDigit]
  · rw [heq]
    exact ⟨.plain hlow hquote hslash, fun rest => unspaced_plain hquote hslash rest⟩

/-- A text as it is printed. -/
theorem spellsText_escapeJson (text : List Char) :
    SpellsText text (text.flatMap Text.escapeJson) ∧
      ∀ rest, unspaced true (text.flatMap Text.escapeJson ++ rest) =
        text.flatMap Text.escapeJson ++ unspaced true rest := by
  induction text with
  | nil => exact ⟨.nil, fun _ => rfl⟩
  | cons c text ih =>
    obtain ⟨hc, hunspaced⟩ := spellsChar_escapeJson c
    rw [List.flatMap_cons]
    exact ⟨.cons hc ih.1, fun rest => by rw [List.append_assoc, hunspaced, ih.2, List.append_assoc]⟩

theorem digitsValue_decimalDigits (n : Nat) : digitsValue (decimalDigits n) = n := Nat.ofDigitChars_ten_toDigits

theorem head?_decimalDigits (n : Nat) (h : (decimalDigits n).head? = some '0') : n = 0 := by
  induction n using Nat.strongRecOn with
  | ind n ih =>
    rw [decimalDigits, Nat.toDigits_eq_if (by omega)] at h
    split at h
    · rename_i hlt
      simp only [List.head?_cons, Option.some.injEq] at h
      have hdigit : ∀ m < 10, Nat.digitChar m = '0' → m = 0 := by decide
      exact hdigit n hlt h
    · rename_i hge
      rw [List.head?_append_of_ne_nil _ Nat.toDigits_ne_nil] at h
      have hzero := ih (n / 10) (by omega) h
      omega

theorem numeral_decimalDigits (n : Nat) : Numeral (decimalDigits n) where
  ne_nil := Nat.toDigits_ne_nil
  digits _ := Path.isDigit_of_mem_decimalDigits
  leading h := by
    rw [head?_decimalDigits n h]
    rfl

/-- An integer as it is printed. -/
theorem spellsInt_integerText (n : Int) :
    SpellsInt n (integerText n).toList ∧
      ∀ rest, unspaced false ((integerText n).toList ++ rest) = (integerText n).toList ++ unspaced false rest := by
  have hnumeral := numeral_decimalDigits n.natAbs
  have hdigits : ∀ c ∈ decimalDigits n.natAbs, isSpace c = false ∧ c ≠ '"' := by
    intro c hc
    refine ⟨isSpace_of_isDigit (hnumeral.digits c hc), ?_⟩
    rintro rfl
    exact absurd (hnumeral.digits _ hc) (by decide)
  by_cases hneg : n < 0
  · have htext : (integerText n).toList = '-' :: decimalDigits n.natAbs := by
      rw [integerText, if_pos hneg, String.toList_append]
      simp
    have hint := SpellsInt.negative hnumeral
    rw [digitsValue_decimalDigits, show -(n.natAbs : Int) = n by omega] at hint
    rw [htext]
    exact ⟨hint, unspaced_tokens (List.forall_mem_cons.2 ⟨by decide, hdigits⟩)⟩
  · have htext : (integerText n).toList = decimalDigits n.natAbs := by
      rw [integerText, if_neg hneg, String.toList_ofList]
    have hint := SpellsInt.positive hnumeral
    rw [digitsValue_decimalDigits, show (n.natAbs : Int) = n by omega] at hint
    rw [htext]
    exact ⟨hint, unspaced_tokens hdigits⟩

end Tokens

/-! ## Documents as they are printed -/

/-- The compact text of a part of a document. -/
def Part.compact : Part → List Char
  | value j | spaced j => j.write.toList
  | items js => [','].intercalate ((writeItems js).map String.toList)
  | member name j => Text.quoteJson name.toList ++ ':' :: j.write.toList
  | members ms => [','].intercalate ((writeMembers ms).map String.toList)

/-- A stretch of a text spells a part of a document, and is its compact text but for the white space outside of
strings. -/
structure LaidOut (p : Part) (cs : List Char) : Prop where
  spells : Spells p cs
  unspaced_append : ∀ rest, unspaced false (cs ++ rest) = p.compact ++ unspaced false rest

namespace LaidOut

variable {j : Json} {js : List Json} {name : String} {ms : List (String × Json)} {w cs ds tail : List Char}

theorem null : LaidOut (.value .null) "null".toList := ⟨.nullWord, unspaced_word (by decide)⟩

theorem bool (b : Bool) : LaidOut (.value (.bool b)) (if b then "true" else "false").toList := by
  cases b
  · exact ⟨.falseWord, unspaced_word (by decide)⟩
  · exact ⟨.trueWord, unspaced_word (by decide)⟩

theorem int (n : Int) : LaidOut (.value (.int n)) (integerText n).toList := by
  obtain ⟨hspells, hunspaced⟩ := spellsInt_integerText n
  exact ⟨.int hspells, fun rest => by rw [hunspaced, Part.compact, write]⟩

theorem unspaced_quoteJson (text rest : List Char) :
    unspaced false (Text.quoteJson text ++ rest) = Text.quoteJson text ++ unspaced false rest := by
  have hunspaced := (spellsText_escapeJson text).2
  simp only [Text.quoteJson, List.cons_append, List.append_assoc, unspaced_open, hunspaced, List.nil_append, unspaced_close]

theorem str (t : String) : LaidOut (.value (.str t)) (Text.jsonString t).toList := by
  have htext : (Text.jsonString t).toList = Text.quoteJson t.toList := by rw [Text.jsonString, String.toList_ofList]
  refine ⟨?_, fun rest => ?_⟩
  · rw [htext]
    exact .str (spellsText_escapeJson t.toList).1
  · rw [htext, unspaced_quoteJson, Part.compact, write, htext]

theorem spaced {w' : List Char} (hw : Blank w) (h : LaidOut (.value j) cs) (hw' : Blank w') :
    LaidOut (.spaced j) (w ++ (cs ++ w')) where
  spells := .spaced hw h.spells hw'
  unspaced_append rest := by
    rw [List.append_assoc, unspaced_blank hw, List.append_assoc, h.unspaced_append, unspaced_blank hw']
    rfl

theorem item (h : LaidOut (.spaced j) cs) : LaidOut (.items [j]) cs where
  spells := .item h.spells
  unspaced_append rest := by
    rw [h.unspaced_append]
    simp [Part.compact, writeItems]

theorem items (h : LaidOut (.spaced j) cs) (h' : LaidOut (.items js) ds) : LaidOut (.items (j :: js)) (cs ++ ',' :: ds) where
  spells := .items h.spells h'.spells
  unspaced_append rest := by
    have hne : (writeItems js).map String.toList ≠ [] := by
      cases js with
      | nil => cases h'.spells
      | cons => simp [writeItems]
    rw [List.append_assoc, h.unspaced_append, List.cons_append, unspaced_token rfl (by decide), h'.unspaced_append]
    simp only [Part.compact, writeItems, List.map_cons, List.intercalate_cons_of_ne_nil hne, List.append_assoc,
      List.cons_append, List.nil_append]

theorem emptyArr : LaidOut (.value (.arr [])) "[]".toList :=
  ⟨.emptyArr blank_nil, unspaced_word (by decide)⟩

theorem arr (h : LaidOut (.items js) cs) : LaidOut (.value (.arr js)) ('[' :: (cs ++ [']'])) where
  spells := .arr h.spells
  unspaced_append rest := by
    rw [List.cons_append, unspaced_token rfl (by decide), List.append_assoc, h.unspaced_append, List.cons_append,
      List.nil_append, unspaced_token rfl (by decide)]
    simp [Part.compact, write, String.toList_intercalate]

theorem member (h : LaidOut (.spaced j) cs) (name : String) :
    LaidOut (.member name j) ((Text.jsonString name).toList ++ ':' :: cs) := by
  rw [Text.jsonString, String.toList_ofList]
  refine ⟨?_, fun rest => ?_⟩
  · have hspells := Spells.member blank_nil (spellsText_escapeJson name.toList).1 blank_nil h.spells
    simpa [Text.quoteJson] using hspells
  · rw [List.append_assoc, unspaced_quoteJson, List.cons_append, unspaced_token rfl (by decide), h.unspaced_append]
    simp [Part.compact]

theorem member_blank (hw : Blank w) (h : LaidOut (.member name j) cs) : LaidOut (.member name j) (w ++ cs) where
  spells := by
    have hspells := h.spells
    cases hspells with
    | member hw' hks hw'' hvalue =>
      rw [← List.append_assoc]
      exact .member (List.forall_mem_append.2 ⟨hw, hw'⟩) hks hw'' hvalue
  unspaced_append rest := by rw [List.append_assoc, unspaced_blank hw, h.unspaced_append]

theorem lastMember (h : LaidOut (.member name j) cs) : LaidOut (.members [(name, j)]) cs where
  spells := .lastMember h.spells
  unspaced_append rest := by
    rw [h.unspaced_append]
    simp [Part.compact, writeMembers, Text.jsonString]

theorem members (h : LaidOut (.member name j) cs) (h' : LaidOut (.members ms) ds) :
    LaidOut (.members ((name, j) :: ms)) (cs ++ ',' :: ds) where
  spells := .members h.spells h'.spells
  unspaced_append rest := by
    have hne : (writeMembers ms).map String.toList ≠ [] := by
      cases ms with
      | nil => cases h'.spells
      | cons => simp [writeMembers]
    rw [List.append_assoc, h.unspaced_append, List.cons_append, unspaced_token rfl (by decide), h'.unspaced_append]
    simp [Part.compact, writeMembers, Text.jsonString, List.intercalate_cons_of_ne_nil hne]

theorem emptyObj : LaidOut (.value (.obj [])) "\x7b\x7d".toList :=
  ⟨.emptyObj blank_nil, unspaced_word (by decide)⟩

theorem obj (h : LaidOut (.members ms) cs) : LaidOut (.value (.obj ms)) ('\x7b' :: (cs ++ ['\x7d'])) where
  spells := .obj h.spells
  unspaced_append rest := by
    rw [List.cons_append, unspaced_token rfl (by decide), List.append_assoc, h.unspaced_append, List.cons_append,
      List.nil_append, unspaced_token rfl (by decide)]
    simp [Part.compact, write, String.toList_intercalate]

/-! ### Lists of parts -/

/-- Elements or members one after the other, with commas between them: white space may come before the first one
(`lead`), after each comma (`gap`) and after the last one (`tail`). -/
theorem joined {α : Type} {P : α → Part} {L : List α → Part}
    (hone : ∀ {a w cs}, Blank w → LaidOut (P a) cs → LaidOut (L [a]) (w ++ (cs ++ tail)))
    (hcons : ∀ {a as w cs ds}, Blank w → LaidOut (P a) cs → LaidOut (L as) ds → LaidOut (L (a :: as)) (w ++ (cs ++ ',' :: ds)))
    {as : List α} {ts : List (List Char)} (h : List.Forall₂ (fun a t => LaidOut (P a) t) as ts) (hne : as ≠ [])
    {lead gap : List Char} (hlead : Blank lead) (hgap : Blank gap) :
    LaidOut (L as) (lead ++ ((',' :: gap).intercalate ts ++ tail)) := by
  induction h generalizing lead with
  | nil => exact absurd rfl hne
  | @cons a t as ts ha has ih =>
    cases has with
    | nil =>
      rw [List.intercalate_singleton]
      exact hone hlead ha
    | cons =>
      rw [List.intercalate_cons_cons]
      simpa using hcons hlead ha (ih (by simp) hgap)

theorem joined_items {ts : List (List Char)} (h : List.Forall₂ (fun j t => LaidOut (.value j) t) js ts) (hne : js ≠ [])
    {lead gap : List Char} (hlead : Blank lead) (hgap : Blank gap) (htail : Blank tail) :
    LaidOut (.items js) (lead ++ ((',' :: gap).intercalate ts ++ tail)) :=
  joined (fun hw ha => item (spaced hw ha htail))
    (fun hw ha has => by simpa using items (spaced hw ha blank_nil) has) h hne hlead hgap

theorem joined_members {ts : List (List Char)} (h : List.Forall₂ (fun m t => LaidOut (.member m.1 m.2) t) ms ts) (hne : ms ≠ [])
    {gap : List Char} (hgap : Blank gap) : LaidOut (.members ms) ((',' :: gap).intercalate ts) := by
  have hjoined : LaidOut (.members ms) ([] ++ ((',' :: gap).intercalate ts ++ [])) :=
    joined (P := fun m : String × Json => .member m.1 m.2) (L := .members)
      (fun hw ha => by simpa using lastMember (member_blank hw ha))
      (fun hw ha has => by simpa using members (member_blank hw ha) has) h hne blank_nil hgap
  simpa using hjoined

end LaidOut

end Json

theorem Value.eq_str_of_text? {v : Value} {t : String} (h : v.text? = some t) : ∃ flavor, v = .str t flavor := by
  cases v with
  | str u flavor =>
    cases h
    exact ⟨flavor, rfl⟩
  | _ => cases h

namespace Store

variable {s : Store} {v v' : Value} {j j' : Json} {r : Ref}

/-! ## Values that stand for documents -/

/-- A value stands for a document. Integers have a decimal form, and a dictionary has texts as keys, each once. -/
inductive Denotes (s : Store) : Value → Json → Prop
  | null : Denotes s .null .null
  | bool (b : Bool) : Denotes s (.bool b) (.bool b)
  | int {n : Int} : hasIntegerText n = true → Denotes s (.int n) (.int n)
  | str (t : String) (flavor : Flavor) : Denotes s (.str t flavor) (.str t)
  | list {r : Ref} {items : List Value} {flavor : Flavor} {js : List Json} : s.get? r = some (.list items flavor) →
      items.length = js.length → (∀ v j, (v, j) ∈ items.zip js → Denotes s v j) → Denotes s (.ref r) (.arr js)
  | dict {r : Ref} {entries : Entries} {ms : List (String × Json)} : s.get? r = some (.dict entries) →
      entries.keys.map Value.text? = ms.map (fun m => some m.1) → (ms.map Prod.fst).Nodup →
      (∀ e m, (e, m) ∈ List.zip entries ms → Denotes s e.2 m.2) → Denotes s (.ref r) (.obj ms)

/-- The entries of a dictionary that stands for an object, and the members. -/
theorem forall₂_entries {entries : Entries} {ms : List (String × Json)} {R : Value → Json → Prop}
    (hkeys : entries.keys.map Value.text? = ms.map (fun m => some m.1))
    (h : ∀ e m, (e, m) ∈ List.zip entries ms → R e.2 m.2) :
    List.Forall₂ (fun e m => e.1.text? = some m.1 ∧ R e.2 m.2) entries ms := by
  induction entries generalizing ms with
  | nil =>
    cases ms with
    | nil => exact .nil
    | cons => cases hkeys
  | cons e entries ih =>
    cases ms with
    | nil => cases hkeys
    | cons m ms =>
      simp only [Entries.keys, List.map_cons, List.cons.injEq] at hkeys
      refine .cons ⟨hkeys.1, h e m (by simp)⟩ (ih hkeys.2 fun e' m' hmem => h e' m' (by simp [hmem]))

theorem exists_mem_zip {α β : Type} {xs : List α} {ys : List β} (hlength : xs.length = ys.length) {x : α} (hx : x ∈ xs) :
    ∃ y, (x, y) ∈ xs.zip ys := by
  obtain ⟨i, hi, rfl⟩ := List.mem_iff_getElem.1 hx
  exact ⟨ys[i], List.mem_iff_getElem.2 ⟨i, by simp; omega, by simp⟩⟩

theorem exists_mem_zip_right {α β : Type} {xs : List α} {ys : List β} (hlength : xs.length = ys.length) {y : β} (hy : y ∈ ys) :
    ∃ x, (x, y) ∈ xs.zip ys := by
  obtain ⟨i, hi, rfl⟩ := List.mem_iff_getElem.1 hy
  exact ⟨xs[i], List.mem_iff_getElem.2 ⟨i, by simp; omega, by simp⟩⟩

theorem length_of_keys {entries : Entries} {ms : List (String × Json)}
    (hkeys : entries.keys.map Value.text? = ms.map (fun m => some m.1)) : entries.length = ms.length := by
  simpa [Entries.keys] using congrArg List.length hkeys

theorem Denotes.of_text? {t : String} (h : v.text? = some t) : s.Denotes v (.str t) := by
  obtain ⟨flavor, rfl⟩ := Value.eq_str_of_text? h
  exact .str t flavor

theorem Denotes.printable (h : s.Denotes v j) : s.Printable v := by
  induction h with
  | null | bool | str => exact .intro rfl (by simp [textParts, cell?])
  | int hn => exact .intro hn (by simp [textParts, cell?])
  | @list r items flavor js hc hlength _ ih =>
    refine .intro (by simp [isLegible, cell?, hc]) fun w hw => ?_
    simp only [textParts, cell?, hc] at hw
    obtain ⟨j, hmem⟩ := exists_mem_zip hlength hw
    exact ih w j hmem
  | @dict r entries ms hc hkeys hnodup _ ih =>
    refine .intro (by simp [isLegible, cell?, hc]) fun w hw => ?_
    simp only [textParts, cell?, hc] at hw
    obtain ⟨e, he, hw⟩ := List.mem_flatMap.1 hw
    simp only [List.mem_cons, List.not_mem_nil, or_false] at hw
    rcases hw with rfl | rfl
    · have htext : e.1.text? ∈ ms.map (fun m => some m.1) := by
        rw [← hkeys, Entries.keys, List.map_map]
        exact List.mem_map.2 ⟨e, he, rfl⟩
      obtain ⟨m, -, hm⟩ := List.mem_map.1 htext
      obtain ⟨flavor, heq⟩ := Value.eq_str_of_text? hm.symm
      rw [heq]
      exact .intro rfl (by simp [textParts, cell?])
    · obtain ⟨m, hmem⟩ := exists_mem_zip (length_of_keys hkeys) he
      exact ih e m hmem

theorem forall₂_of_mapM {α β γ : Type} {f : α → Except Raised β} {R : γ → β → Prop} {xs : List α} {ys : List β} {zs : List γ}
    (h : List.Forall₂ (fun x z => ∀ y, f x = .ok y → R z y) xs zs) (hmap : xs.mapM f = .ok ys) : List.Forall₂ R zs ys := by
  induction h generalizing ys with
  | nil =>
    cases hmap
    exact .nil
  | @cons x z xs zs hx _ ih =>
    rw [List.mapM_cons, bind_eq_ok] at hmap
    obtain ⟨y, hy, hmap⟩ := hmap
    obtain ⟨ys, hys, hmap⟩ := bind_eq_ok.1 hmap
    cases hmap
    exact .cons (hx y hy) (ih hys)

theorem intercalate_map_append {sep p : List Char} {ts : List (List Char)} (hne : ts ≠ []) :
    sep.intercalate (ts.map (p ++ ·)) = p ++ (sep ++ p).intercalate ts := by
  induction ts with
  | nil => exact absurd rfl hne
  | cons t ts ih =>
    cases ts with
    | nil => simp
    | cons u ts =>
      simp only [List.map_cons] at ih ⊢
      rw [List.intercalate_cons_cons, List.intercalate_cons_cons, ih (by simp)]
      simp only [List.append_assoc]

open Json in
theorem laidOut_printList {width level : Int} {shown : Int → Value → Except Raised String} {items : List Value}
    {js : List Json} {text : String}
    (h : ∀ level, List.Forall₂ (fun v j => ∀ t, shown level v = .ok t → LaidOut (.value j) t.toList) items js)
    (hprint : s.printList width level shown items = .ok text) : LaidOut (.value (.arr js)) text.toList := by
  have hblank : ∀ level, Blank (indentation width level).toList := by
    intro level c hc
    rw [indentation, String.toList_ofList] at hc
    rw [List.eq_of_mem_replicate hc]
    rfl
  have hline : ∀ level, Blank ('\n' :: (indentation width level).toList) := fun level =>
    List.forall_mem_cons.2 ⟨rfl, hblank level⟩
  unfold printList at hprint
  split at hprint
  · rename_i hblock
    obtain ⟨lines, hlines, htext⟩ := bind_eq_ok.1 hprint
    have hall := forall₂_of_mapM (R := fun j t => LaidOut (.value j) (String.toList t)) (h (level + 1)) hlines
    have hne : js ≠ [] := by
      rintro rfl
      cases h level
      cases hblock
    have hlines : lines.map String.toList ≠ [] := by
      rintro hnil
      rw [List.map_eq_nil_iff] at hnil
      subst hnil
      cases hall
      exact hne rfl
    have harr := (LaidOut.joined_items (List.forall₂_map_right_iff.2 hall) hne (hline (level + 1)) (hline (level + 1))
      (hline level)).arr
    cases htext
    convert harr using 1
    have hmap : (lines.map (indentation width (level + 1) ++ ·)).map String.toList =
        (lines.map String.toList).map ((indentation width (level + 1)).toList ++ ·) := by
      simp [List.map_map, Function.comp_def]
    simp only [String.toList_append, String.toList_intercalate, hmap, intercalate_map_append hlines]
    simp
  · obtain ⟨texts, htexts, htext⟩ := bind_eq_ok.1 hprint
    have hall := forall₂_of_mapM (R := fun j t => LaidOut (.value j) (String.toList t)) (h level) htexts
    cases htext
    by_cases hne : js = []
    · subst hne
      cases hall
      exact LaidOut.emptyArr
    · have harr := (LaidOut.joined_items (List.forall₂_map_right_iff.2 hall) hne blank_nil blank_space blank_nil).arr
      convert harr using 1
      simp [String.toList_intercalate]

open Json in
theorem laidOut_printEntries {inspected shown : Value → Except Raised String} {entries : Entries}
    {ms : List (String × Json)} {text : String}
    (h : List.Forall₂ (fun e m => e.1.text? = some m.1 ∧ ∀ t, shown e.2 = .ok t → LaidOut (.value m.2) t.toList) entries ms)
    (hprint : s.printEntries inspected shown entries = .ok text) : LaidOut (.value (.obj ms)) text.toList := by
  obtain ⟨texts, htexts, htext⟩ := bind_eq_ok.1 hprint
  have hall : List.Forall₂ (fun m t => LaidOut (.member m.1 m.2) (String.toList t)) ms texts := by
    refine forall₂_of_mapM (h.imp fun e m he t ht => ?_) htexts
    obtain ⟨k, w⟩ := e
    obtain ⟨name, j⟩ := m
    obtain ⟨hkey, hvalue⟩ := he
    obtain ⟨flavor, rfl⟩ := Value.eq_str_of_text? hkey
    obtain ⟨key, hkey, ht⟩ := bind_eq_ok.1 ht
    obtain ⟨value, hshown, ht⟩ := bind_eq_ok.1 ht
    cases hkey
    rw [← Except.ok.inj ht]
    have hmember := LaidOut.member (LaidOut.spaced blank_space (hvalue value hshown) blank_nil) name
    simpa using hmember
  cases htext
  by_cases hne : ms = []
  · subst hne
    cases hall
    exact LaidOut.emptyObj
  · have hobj := (LaidOut.joined_members (List.forall₂_map_right_iff.2 hall) hne blank_space).obj
    convert hobj using 1
    simp [String.toList_intercalate]

theorem exists_succ_of_printWithin {fuel : Nat} {width level : Int} {text : String}
    (h : s.printWithin fuel width level v = .ok text) : ∃ n, fuel = n + 1 := by
  cases fuel with
  | zero => simp only [printWithin, reduceCtorEq] at h
  | succ fuel => exact ⟨fuel, rfl⟩

open Json in
/-- What is printed for a value is a text of the document that it stands for. -/
theorem Denotes.laidOut (h : s.Denotes v j) {fuel : Nat} {width level : Int} {text : String}
    (hprint : s.printWithin fuel width level v = .ok text) : LaidOut (.value j) text.toList := by
  induction h generalizing fuel level text with
  | null =>
    obtain ⟨fuel, rfl⟩ := exists_succ_of_printWithin hprint
    simp only [printWithin, Except.ok.injEq] at hprint
    exact hprint ▸ .null
  | bool b =>
    obtain ⟨fuel, rfl⟩ := exists_succ_of_printWithin hprint
    simp only [printWithin, Except.ok.injEq] at hprint
    exact hprint ▸ .bool b
  | int hn =>
    obtain ⟨fuel, rfl⟩ := exists_succ_of_printWithin hprint
    simp only [printWithin, printInteger, hn, if_true, Except.ok.injEq] at hprint
    exact hprint ▸ .int _
  | str t =>
    obtain ⟨fuel, rfl⟩ := exists_succ_of_printWithin hprint
    simp only [printWithin, Except.ok.injEq] at hprint
    exact hprint ▸ .str t
  | @list r items flavor js hc hlength _ ih =>
    obtain ⟨fuel, rfl⟩ := exists_succ_of_printWithin hprint
    simp only [printWithin, hc] at hprint
    refine laidOut_printList (fun level => ?_) hprint
    exact List.forall₂_iff_zip.2 ⟨hlength, fun {v j} hmem t ht => ih v j hmem ht⟩
  | @dict r entries ms hc hkeys hnodup _ ih =>
    obtain ⟨fuel, rfl⟩ := exists_succ_of_printWithin hprint
    simp only [printWithin, hc] at hprint
    exact laidOut_printEntries (forall₂_entries (R := fun v j => ∀ t, s.printWithin fuel width level v = .ok t →
      LaidOut (.value j) (String.toList t)) hkeys fun e m hmem t ht => ih e m hmem ht) hprint

/-! ## Values that stand for the same document -/

theorem forall₂_of_common {α β γ : Type} {R : α → γ → Prop} {R' : β → γ → Prop} {Q : α → β → Prop} {xs : List α} {ys : List β}
    {zs : List γ} (h : List.Forall₂ R xs zs) (h' : List.Forall₂ R' ys zs)
    (hQ : ∀ x y z, x ∈ xs → R x z → R' y z → Q x y) : List.Forall₂ Q xs ys := by
  induction h generalizing ys with
  | nil =>
    cases h'
    exact .nil
  | @cons x z xs zs hx _ ih =>
    cases h' with
    | cons hy hys =>
      exact .cons (hQ _ _ _ List.mem_cons_self hx hy) (ih hys fun x y z hx => hQ x y z (List.mem_cons_of_mem _ hx))

theorem equalLists_of_forall₂ {eq : Value → Value → Bool} {xs ys : List Value}
    (h : List.Forall₂ (fun x y => eq x y = true) xs ys) : equalLists eq xs ys = true := by
  induction h with
  | nil => rfl
  | cons hxy _ ih => simp [equalLists, hxy, ih]

/-- Texts are equal if and only if they have the same content. -/
theorem same_text_iff {k k' : Value} {t u : String} {fuel : Nat} (hk : k.text? = some t) (hk' : k'.text? = some u)
    (h : t = u → s.equalWithin fuel k k' = true) : (k == k' || s.equalWithin fuel k k') = true ↔ t = u := by
  obtain ⟨flavor, rfl⟩ := Value.eq_str_of_text? hk
  obtain ⟨flavor', rfl⟩ := Value.eq_str_of_text? hk'
  constructor
  · intro heq
    rcases Bool.or_eq_true_iff.1 heq with heq | heq
    · cases eq_of_beq heq
      rfl
    · cases fuel with
      | zero => cases heq
      | succ fuel => simpa [equalWithin, Value.immediateEq] using heq
  · intro htext
    rw [h htext, Bool.or_true]

/-- A dictionary that stands for an object has the value of a member under its name. -/
theorem find?_of_member {entries : Entries} {ms : List (String × Json)}
    (hkeys : entries.keys.map Value.text? = ms.map (fun m => some m.1)) (hnodup : (ms.map Prod.fst).Nodup)
    {e : Value × Value} {m : String × Json} (hmem : (e, m) ∈ List.zip entries ms) {hit : Value → Bool}
    (hhit : ∀ e' t, e' ∈ entries → e'.1.text? = some t → (hit e'.1 = true ↔ t = m.1)) :
    Entries.find? hit entries = some e.2 := by
  induction entries generalizing ms with
  | nil => cases hmem
  | cons e' entries ih =>
    cases ms with
    | nil => cases hkeys
    | cons m' ms =>
      simp only [Entries.keys, List.map_cons, List.cons.injEq] at hkeys
      rw [List.map_cons, List.nodup_cons] at hnodup
      have hhere := hhit e' m'.1 List.mem_cons_self hkeys.1
      rw [List.zip_cons_cons, List.mem_cons] at hmem
      rcases hmem with hmem | hmem
      · cases hmem
        rw [Entries.find?, if_pos (hhere.2 rfl)]
      · have hne : m'.1 ≠ m.1 := fun heq => hnodup.1 (heq ▸ List.mem_map_of_mem (List.of_mem_zip hmem).2)
        rw [Entries.find?, if_neg (fun hsame => hne (hhere.1 hsame))]
        exact ih hkeys.2 hnodup.2 hmem fun e'' t he'' => hhit e'' t (List.mem_cons_of_mem _ he'')

/-- Values that stand for the same document are equal. -/
theorem Denotes.equal (h : s.Denotes v j) (h' : s.Denotes v' j) : s.equal v v' = true := by
  refine @Printable.of_extent_lt s (fun fuel v => ∀ j v', s.Denotes v j → s.Denotes v' j → s.equalWithin fuel v v' = true)
    ?_ v h.printable _ (by omega) j v' h h'
  intro fuel v _ hparts j v' h h'
  have hinside : ∀ w ∈ s.textParts v, ∀ j w', s.Denotes w j → s.Denotes w' j →
      (w == w' || s.equalWithin fuel w w') = true := by
    intro w hw j w' hd hd'
    rw [hparts w hw j w' hd hd', Bool.or_true]
  cases h with
  | null | bool | int | str =>
    cases h'
    simp [equalWithin, Value.immediateEq]
  | @list r items flavor js hc hlength hitems =>
    cases h' with
    | @list r' items' flavor' _ hc' hlength' hitems' =>
      have hall : List.Forall₂ (fun w w' => (w == w' || s.equalWithin fuel w w') = true) items items' := by
        refine forall₂_of_common (List.forall₂_iff_zip.2 ⟨hlength, fun {w j} => hitems w j⟩)
          (List.forall₂_iff_zip.2 ⟨hlength', fun {w j} => hitems' w j⟩) fun w w' j hw => hinside w ?_ j w'
        simpa only [textParts, cell?, hc] using hw
      simp only [equalWithin, hc, hc', equalCells, equalLists_of_forall₂ hall, Bool.true_or]
  | @dict r entries ms hc hkeys hnodup hvalues =>
    cases h' with
    | @dict r' entries' _ hc' hkeys' _ hvalues' =>
      have htexts : ∀ e m, (e, m) ∈ List.zip entries ms → e.1.text? = some m.1 ∧ s.Denotes e.2 m.2 := fun e m hm =>
        (List.forall₂_iff_zip.1 (forall₂_entries hkeys hvalues)).2 hm
      have htexts' : ∀ e m, (e, m) ∈ List.zip entries' ms → e.1.text? = some m.1 ∧ s.Denotes e.2 m.2 := fun e m hm =>
        (List.forall₂_iff_zip.1 (forall₂_entries hkeys' hvalues')).2 hm
      have hlength := length_of_keys hkeys
      have hlength' := length_of_keys hkeys'
      have hsame : equalEntries (fun w w' => w == w' || s.equalWithin fuel w w') entries entries' = true := by
        refine Bool.and_eq_true_iff.2 ⟨by simp [hlength, hlength'], List.all_eq_true.2 fun e he => ?_⟩
        obtain ⟨m, hm⟩ := exists_mem_zip hlength he
        obtain ⟨e', he'⟩ := exists_mem_zip_right hlength' (List.of_mem_zip hm).2
        have hmem : ∀ w ∈ [e.1, e.2], w ∈ s.textParts (.ref r) := by
          intro w hw
          simp only [textParts, cell?, hc]
          exact List.mem_flatMap.2 ⟨e, he, hw⟩
        -- a key of the second dictionary counts as the key if it is the name of the same member
        have hhit : ∀ e'' t, e'' ∈ entries' → e''.1.text? = some t →
            ((e.1 == e''.1 || s.equalWithin fuel e.1 e''.1) = true ↔ t = m.1) := by
          intro e'' t _ ht
          rw [same_text_iff (htexts e m hm).1 ht ?_, eq_comm]
          rintro rfl
          exact hparts e.1 (hmem _ (by simp)) _ e''.1 (.of_text? (htexts e m hm).1) (.of_text? ht)
        dsimp only
        rw [find?_of_member hkeys' hnodup he' hhit]
        exact hinside e.2 (hmem _ (by simp)) m.2 e'.2 (htexts e m hm).2 (htexts' e' m he').2
      simp only [equalWithin, hc, hc', equalCells, hsame, Bool.true_or]

/-! ## Reading back -/

/-- A value that stands for a JSON document is printed, whatever the width of indentation and the level, as a text of that
document and of no other, which is read back as the document; without the white space outside of strings it is the
compact text of the document. So two such values with the same printed text stand for the same document and are equal. -/
theorem printAt_reads_back (h : s.Denotes v j) :
    (∀ width level, ∃ text, s.printAt width level v = .ok text ∧
      Json.TextOf j text ∧ (∀ j', Json.TextOf j' text → j' = j) ∧ Json.read text = some j ∧
      Json.unspaced false text.toList = j.write.toList) ∧
    ∀ v' j' width level width' level' text, s.Denotes v' j' → s.printAt width level v = .ok text →
      s.printAt width' level' v' = .ok text → j' = j ∧ s.equal v v' = true := by
  have htext : ∀ {v j width level text}, s.Denotes v j → s.printAt width level v = .ok text →
      Json.TextOf j text ∧ Json.unspaced false text.toList = j.write.toList := by
    intro v j width level text h hprint
    have hlaid := h.laidOut hprint
    refine ⟨?_, by simpa [Json.unspaced, Json.Part.compact] using hlaid.unspaced_append []⟩
    simpa [Json.TextOf] using Json.Spells.spaced Json.blank_nil hlaid.spells Json.blank_nil
  constructor
  · intro width level
    obtain ⟨text, hprint⟩ := h.printable.texts.2 width level
    obtain ⟨hspells, hcompact⟩ := htext h hprint
    exact ⟨text, hprint, hspells, fun j' h' => h'.unique hspells, Json.read_of_textOf hspells, hcompact⟩
  · intro v' j' width level width' level' text h' hprint hprint'
    obtain rfl := (htext h' hprint').1.unique (htext h hprint).1
    exact ⟨rfl, h.equal h'⟩

/-- A script of two expressions, one of which has a dictionary. -/
def twoExpressions : Store :=
  ⟨#[.list [.ref ⟨1⟩, .ref ⟨2⟩] .plain, .list [.text "value", .ref ⟨3⟩] .plain, .list [.text "say \"hi\"\n", .int (-7)] .plain,
    .dict [(.text "a\\b", .bool true), (.text "", .null)]]⟩

theorem printAt_reads_back_block :
    ∃ text, twoExpressions.printAt 3 (-1) (.ref ⟨0⟩) = .ok text ∧
      Json.read text = some (.arr [.arr [.str "value", .obj [("a\\b", .bool true), ("", .null)]],
        .arr [.str "say \"hi\"\n", .int (-7)]]) := by
  have hdict : twoExpressions.Denotes (.ref ⟨3⟩) (.obj [("a\\b", .bool true), ("", .null)]) := by
    refine .dict rfl (by decide) (by decide) fun e m hmem => ?_
    simp only [List.zip_cons_cons, List.zip_nil_left, List.mem_cons, List.not_mem_nil, or_false] at hmem
    rcases hmem with hmem | hmem <;> cases hmem
    · exact .bool true
    · exact .null
  have hvalue : twoExpressions.Denotes (.ref ⟨1⟩) (.arr [.str "value", .obj [("a\\b", .bool true), ("", .null)]]) := by
    refine .list rfl rfl fun v j hmem => ?_
    simp only [List.zip_cons_cons, List.zip_nil_left, List.mem_cons, List.not_mem_nil, or_false] at hmem
    rcases hmem with hmem | hmem <;> cases hmem
    · exact .str _ _
    · exact hdict
  have hsay : twoExpressions.Denotes (.ref ⟨2⟩) (.arr [.str "say \"hi\"\n", .int (-7)]) := by
    refine .list rfl rfl fun v j hmem => ?_
    simp only [List.zip_cons_cons, List.zip_nil_left, List.mem_cons, List.not_mem_nil, or_false] at hmem
    rcases hmem with hmem | hmem <;> cases hmem
    · exact .str _ _
    · exact .int (by decide +kernel)
  have hscript : twoExpressions.Denotes (.ref ⟨0⟩) (.arr [.arr [.str "value", .obj [("a\\b", .bool true), ("", .null)]],
      .arr [.str "say \"hi\"\n", .int (-7)]]) := by
    refine .list rfl rfl fun v j hmem => ?_
    simp only [List.zip_cons_cons, List.zip_nil_left, List.mem_cons, List.not_mem_nil, or_false] at hmem
    rcases hmem with hmem | hmem <;> cases hmem
    · exact hvalue
    · exact hsay
  obtain ⟨text, hprint, -, -, hread, -⟩ := (printAt_reads_back hscript).1 3 (-1)
  exact ⟨text, hprint, hread⟩

/-- An integer of more than 4300 digits has no printed form. -/
theorem not_printAt_long_integer : ¬ ∃ text, empty.printAt defaultWidth 0 (.int (Int.pow 10 4300)) = .ok text := by
  have hfails : (empty.printAt defaultWidth 0 (.int (Int.pow 10 4300))).isOk = false := by decide +kernel
  rintro ⟨text, hprint⟩
  rw [hprint] at hfails
  cases hfails

end Store

end ListScript
