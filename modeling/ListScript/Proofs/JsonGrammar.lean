import Mathlib.Data.List.DropRight
import ListScript.Json.Reader
import ListScript.Proofs.PathSpelling

/-!
# The grammar of JSON texts

Which texts spell a document, as a relation between the parts of a document and stretches of a text (`Json.Spells`):
white space may stand around the structural characters and nowhere else, a number has no superfluous zeros, and a string
may have any character escaped. The numbers of a document are integers here, so that a number has neither a fraction nor
an exponent.

The reader accepts whatever the grammar spells, and gives the document that it spells (`Json.read_of_textOf`). So a text
spells one document at most.
-/

namespace ListScript.Json

/-! ## Tokens -/

/-- White space between tokens. -/
def Blank (cs : List Char) : Prop := ∀ c ∈ cs, isSpace c = true

theorem blank_nil : Blank [] := by simp [Blank]

theorem blank_space : Blank [' '] := by simp [Blank, isSpace]

/-- The letters after a backslash that stand for a character, and the characters. -/
def escapes : List (Char × Char) :=
  [('"', '"'), ('\\', '\\'), ('/', '/'), ('b', '\x08'), ('f', '\x0c'), ('n', '\n'), ('r', '\r'), ('t', '\t')]

/-- How a character may be written in a string: as it is, by a letter after a backslash, or by its number in hexadecimal
digits, which is split in two if it has more than four of them. -/
inductive SpellsChar : Char → List Char → Prop
  | plain {c : Char} : 0x20 ≤ c.toNat → c ≠ '"' → c ≠ '\\' → SpellsChar c [c]
  | letter {e c : Char} : (e, c) ∈ escapes → SpellsChar c ['\\', e]
  | unit {a b c d : Char} {n : Nat} : hexFour? a b c d = some n → n < 0xd800 ∨ 0xe000 ≤ n →
      SpellsChar (Char.ofNat n) ['\\', 'u', a, b, c, d]
  | pair {a b c d e f g h : Char} {high low : Nat} : hexFour? a b c d = some high → hexFour? e f g h = some low →
      0xd800 ≤ high → high < 0xdc00 → 0xdc00 ≤ low → low < 0xe000 →
      SpellsChar (Char.ofNat (0x10000 + (high - 0xd800) * 0x400 + (low - 0xdc00)))
        ['\\', 'u', a, b, c, d, '\\', 'u', e, f, g, h]

/-- How a text may be written in a string, without the quotes. -/
inductive SpellsText : List Char → List Char → Prop
  | nil : SpellsText [] []
  | cons {c : Char} {text cs rest : List Char} : SpellsChar c cs → SpellsText text rest → SpellsText (c :: text) (cs ++ rest)

/-- The digits of a number: there is one at least, and no zero stands before others. -/
structure Numeral (ds : List Char) : Prop where
  ne_nil : ds ≠ []
  digits : ∀ c ∈ ds, c.isDigit = true
  leading : ds.head? = some '0' → ds = ['0']

/-- How an integer may be written. -/
inductive SpellsInt : Int → List Char → Prop
  | positive {ds : List Char} : Numeral ds → SpellsInt (digitsValue ds) ds
  | negative {ds : List Char} : Numeral ds → SpellsInt (-digitsValue ds) ('-' :: ds)

/-! ## Documents -/

/-- A part of a document that a stretch of a text may spell. -/
inductive Part where
  | value (j : Json)
  /-- a value with the white space around it -/
  | spaced (j : Json)
  /-- the elements of an array that is not empty -/
  | items (js : List Json)
  | member (name : String) (j : Json)
  /-- the members of an object that is not empty -/
  | members (ms : List (String × Json))

/-- A stretch of a text spells a part of a document. -/
inductive Spells : Part → List Char → Prop
  | nullWord : Spells (.value .null) ['n', 'u', 'l', 'l']
  | trueWord : Spells (.value (.bool true)) ['t', 'r', 'u', 'e']
  | falseWord : Spells (.value (.bool false)) ['f', 'a', 'l', 's', 'e']
  | int {n : Int} {cs : List Char} : SpellsInt n cs → Spells (.value (.int n)) cs
  | str {t : String} {cs : List Char} : SpellsText t.toList cs → Spells (.value (.str t)) ('"' :: (cs ++ ['"']))
  | emptyArr {w : List Char} : Blank w → Spells (.value (.arr [])) ('[' :: (w ++ [']']))
  | arr {js : List Json} {cs : List Char} : Spells (.items js) cs → Spells (.value (.arr js)) ('[' :: (cs ++ [']']))
  | emptyObj {w : List Char} : Blank w → Spells (.value (.obj [])) ('\x7b' :: (w ++ ['\x7d']))
  | obj {ms : List (String × Json)} {cs : List Char} : Spells (.members ms) cs →
      Spells (.value (.obj ms)) ('\x7b' :: (cs ++ ['\x7d']))
  | spaced {j : Json} {w cs w' : List Char} : Blank w → Spells (.value j) cs → Blank w' → Spells (.spaced j) (w ++ (cs ++ w'))
  | item {j : Json} {cs : List Char} : Spells (.spaced j) cs → Spells (.items [j]) cs
  | items {j : Json} {js : List Json} {cs ds : List Char} : Spells (.spaced j) cs → Spells (.items js) ds →
      Spells (.items (j :: js)) (cs ++ ',' :: ds)
  | member {name : String} {j : Json} {w ks w' cs : List Char} : Blank w → SpellsText name.toList ks → Blank w' →
      Spells (.spaced j) cs → Spells (.member name j) (w ++ '"' :: (ks ++ '"' :: (w' ++ ':' :: cs)))
  | lastMember {name : String} {j : Json} {cs : List Char} : Spells (.member name j) cs → Spells (.members [(name, j)]) cs
  | members {name : String} {j : Json} {ms : List (String × Json)} {cs ds : List Char} : Spells (.member name j) cs →
      Spells (.members ms) ds → Spells (.members ((name, j) :: ms)) (cs ++ ',' :: ds)

/-- A text spells a document, with white space around it. -/
def TextOf (j : Json) (text : String) : Prop := Spells (.spaced j) text.toList

/-! ## Reading tokens -/

section Tokens

variable {c : Char} {w cs rest done text : List Char}

theorem skip_blank (h : Blank w) (cs : List Char) : skip (w ++ cs) = skip cs := by
  unfold skip
  rw [List.dropWhile_append_of_pos h]

theorem skip_cons (h : isSpace c = false) : skip (c :: cs) = c :: cs := by simp [skip, h]

theorem skip_skip (cs : List Char) : skip (skip cs) = skip cs := List.dropWhile_idempotent isSpace cs

/-- What does not go on a number. -/
def NoDigit (cs : List Char) : Prop := ∀ c ∈ cs.head?, c.isDigit = false

theorem noDigit_cons (h : c.isDigit = false) : NoDigit (c :: cs) := by simpa [NoDigit] using h

theorem noDigit_blank (hw : Blank w) (h : NoDigit rest) : NoDigit (w ++ rest) := by
  cases w with
  | nil => exact h
  | cons c w =>
    refine noDigit_cons ?_
    have hc : isSpace c = true := hw c List.mem_cons_self
    simp only [isSpace, Bool.or_eq_true, beq_iff_eq] at hc
    rcases hc with ((rfl | rfl) | rfl) | rfl <;> rfl

theorem isSpace_of_isDigit (h : c.isDigit = true) : isSpace c = false := by
  by_contra hspace
  have hblank : NoDigit ([c] ++ []) := noDigit_blank (by simpa [Blank] using hspace) (by simp [NoDigit])
  simp [NoDigit, h] at hblank

theorem escaped?_of_mem {e : Char} (h : (e, c) ∈ escapes) : escaped? e = some c ∧ e ≠ 'u' := by
  simp only [escapes, List.mem_cons, Prod.mk.injEq, List.not_mem_nil, or_false] at h
  rcases h with ⟨rfl, rfl⟩ | ⟨rfl, rfl⟩ | ⟨rfl, rfl⟩ | ⟨rfl, rfl⟩ | ⟨rfl, rfl⟩ | ⟨rfl, rfl⟩ | ⟨rfl, rfl⟩ | ⟨rfl, rfl⟩ <;>
    decide

/-- The reader takes a character of a string however it is written. -/
theorem readChars_spelled (h : SpellsChar c cs) (done rest : List Char) :
    readChars done (cs ++ rest) = readChars (c :: done) rest := by
  cases h with
  | plain hlow hquote hslash =>
    rw [List.cons_append, List.nil_append, readChars]
    · rw [if_neg (by omega)]
    all_goals simp_all
  | letter he =>
    obtain ⟨hescaped, hne⟩ := escaped?_of_mem he
    rw [List.cons_append, List.cons_append, List.nil_append, readChars]
    · rw [hescaped]
    all_goals simp_all
  | @unit a b c d n hn hrange =>
    -- the reader looks whether a second number follows that makes the first one half of a character
    have hsingle : ¬ (0xd800 ≤ n ∧ n < 0xdc00) := by omega
    by_cases hnext : ∃ e f g h more, rest = '\\' :: 'u' :: e :: f :: g :: h :: more
    · obtain ⟨e, f, g, h, more, rfl⟩ := hnext
      change readChars done ('\\' :: 'u' :: a :: b :: c :: d :: '\\' :: 'u' :: e :: f :: g :: h :: more) = _
      rw [readChars, hn]
      cases hexFour? e f g h with
      | none => rfl
      | some low =>
        have hcond : (0xd800 ≤ n && n < 0xdc00 && 0xdc00 ≤ low && low < 0xe000) = Bool.false := by
          simp only [Bool.and_eq_false_iff, decide_eq_false_iff_not]
          omega
        simp only [hcond, Bool.false_eq_true, if_false]
    · change readChars done ('\\' :: 'u' :: a :: b :: c :: d :: rest) = _
      rw [readChars, hn]
      exact fun e f g h more heq => hnext ⟨e, f, g, h, more, heq⟩
  | @pair a b c d e f g h high low hhigh hlow h₁ h₂ h₃ h₄ =>
    change readChars done ('\\' :: 'u' :: a :: b :: c :: d :: '\\' :: 'u' :: e :: f :: g :: h :: rest) = _
    rw [readChars, hhigh, hlow]
    simp only [h₁, h₂, h₃, h₄, decide_true, Bool.and_self, if_true]

/-- The reader takes a string up to its closing quote. -/
theorem readChars_text (h : SpellsText text cs) (done rest : List Char) :
    readChars done (cs ++ '"' :: rest) = some (done.reverse ++ text, rest) := by
  induction h generalizing done with
  | nil => simp [readChars]
  | @cons c text cs more hc _ ih =>
    rw [List.append_assoc, readChars_spelled hc, ih, List.reverse_cons, List.append_assoc]
    rfl

theorem takeWhile_digits (h : ∀ c ∈ cs, c.isDigit = true) (hrest : NoDigit rest) :
    (cs ++ rest).takeWhile Char.isDigit = cs ∧ (cs ++ rest).dropWhile Char.isDigit = rest := by
  rw [List.takeWhile_append_of_pos h, List.dropWhile_append_of_pos h]
  cases rest with
  | nil => simp
  | cons c rest =>
    have hc : c.isDigit = false := hrest c (by simp)
    simp [hc]

theorem SpellsInt.head {n : Int} (h : SpellsInt n cs) : ∃ c more, cs = c :: more ∧ (c = '-' ∨ c.isDigit = true) := by
  cases h with
  | positive hds =>
    obtain ⟨d, ds, rfl⟩ := List.exists_cons_of_ne_nil hds.ne_nil
    exact ⟨d, ds, rfl, .inr (hds.digits d List.mem_cons_self)⟩
  | negative hds => exact ⟨'-', _, rfl, .inl rfl⟩

/-- The reader takes a number up to what does not go on it. -/
theorem readInt_spelled {n : Int} (h : SpellsInt n cs) (hrest : NoDigit rest) :
    readInt (cs ++ rest) = some (.int n, rest) := by
  cases h with
  | positive hds =>
    obtain ⟨htake, hdrop⟩ := takeWhile_digits hds.digits hrest
    have hhead : ∀ more, cs ++ rest ≠ '-' :: more := by
      intro more heq
      cases cs with
      | nil => exact hds.ne_nil rfl
      | cons d ds =>
        cases heq
        exact absurd (hds.digits '-' List.mem_cons_self) (by decide)
    unfold readInt
    split
    rename_i negative body hbody
    split at hbody
    · rename_i more heq
      exact absurd heq (hhead more)
    · cases hbody
      simp only [htake, hdrop, List.isEmpty_iff, hds.ne_nil, if_false]
      rfl
  | @negative ds hds =>
    obtain ⟨htake, hdrop⟩ := takeWhile_digits hds.digits hrest
    simp only [List.cons_append, readInt, htake, hdrop, List.isEmpty_iff, hds.ne_nil, if_false]
    rfl

end Tokens

/-! ## Reading documents -/

section Documents

variable {j : Json} {cs rest w : List Char} {fuel : Nat}

theorem readValue_skip (fuel : Nat) (cs : List Char) : readValue fuel (skip cs) = readValue fuel cs := by
  cases fuel with
  | zero => rw [readValue, readValue]
  | succ fuel => rw [readValue, readValue, skip_skip]

theorem readItems_skip (fuel : Nat) (done : List Json) (cs : List Char) :
    readItems fuel done (skip cs) = readItems fuel done cs := by
  cases fuel with
  | zero => rw [readItems, readItems]
  | succ fuel => rw [readItems, readItems, readValue_skip]

theorem readMembers_skip (fuel : Nat) (done : List (String × Json)) (cs : List Char) :
    readMembers fuel done (skip cs) = readMembers fuel done cs := by
  cases fuel with
  | zero => rw [readMembers, readMembers]
  | succ fuel => rw [readMembers, readMembers, skip_skip]

/-- What is no other value is read as a number. -/
theorem readValue_number {c : Char} (hc : c = '-' ∨ c.isDigit = true) (fuel : Nat) (cs : List Char) :
    readValue (fuel + 1) (c :: cs) = readInt (c :: cs) := by
  have hspace : isSpace c = false := by
    rcases hc with rfl | hc
    · rfl
    · exact isSpace_of_isDigit hc
  rw [readValue, skip_cons hspace]
  split
  case h_7 => rfl
  all_goals
    rename_i heq
    cases heq
    rcases hc with hc | hc <;> exact absurd hc (by decide)

/-! ### Arrays and objects, one step at a time -/

theorem readValue_emptyArr (hw : Blank w) (fuel : Nat) (rest : List Char) :
    readValue (fuel + 1) ('[' :: (w ++ ']' :: rest)) = some (.arr [], rest) := by
  rw [readValue, skip_cons rfl]
  simp only [skip_blank hw, skip_cons (show isSpace ']' = false from rfl)]

theorem readValue_arr {c : Char} {more : List Char} (hskip : skip cs = c :: more) (hc : c ≠ ']') (fuel : Nat) :
    readValue (fuel + 1) ('[' :: cs) = readItems fuel [] cs := by
  rw [← readItems_skip, readValue, skip_cons rfl]
  simp only [hskip]
  split
  · rename_i heq
    cases heq
    exact absurd rfl hc
  · rfl

theorem readValue_emptyObj (hw : Blank w) (fuel : Nat) (rest : List Char) :
    readValue (fuel + 1) ('\x7b' :: (w ++ '\x7d' :: rest)) = some (.obj [], rest) := by
  rw [readValue, skip_cons rfl]
  simp only [skip_blank hw, skip_cons (show isSpace '\x7d' = false from rfl)]

theorem readValue_obj {c : Char} {more : List Char} (hskip : skip cs = c :: more) (hc : c ≠ '\x7d') (fuel : Nat) :
    readValue (fuel + 1) ('\x7b' :: cs) = readMembers fuel [] cs := by
  rw [← readMembers_skip, readValue, skip_cons rfl]
  simp only [hskip]
  split
  · rename_i heq
    cases heq
    exact absurd rfl hc
  · rfl

theorem readItems_comma (hread : readValue fuel cs = some (j, w ++ ',' :: rest)) (hw : Blank w) (done : List Json) :
    readItems (fuel + 1) done cs = readItems fuel (j :: done) rest := by
  rw [readItems, hread]
  simp only [skip_blank hw, skip_cons (show isSpace ',' = false from rfl)]

theorem readItems_close (hread : readValue fuel cs = some (j, w ++ ']' :: rest)) (hw : Blank w) (done : List Json) :
    readItems (fuel + 1) done cs = some (.arr (j :: done).reverse, rest) := by
  rw [readItems, hread]
  simp only [skip_blank hw, skip_cons (show isSpace ']' = false from rfl)]

section Members

variable {done : List (String × Json)} {name : String} {ks w' : List Char} (hw : Blank w)
variable (hks : SpellsText name.toList ks) (hw' : Blank w')

include hw hks hw'

theorem readMembers_comma {w'' : List Char} (hread : readValue fuel cs = some (j, w'' ++ ',' :: rest))
    (hw'' : Blank w'') :
    readMembers (fuel + 1) done (w ++ '"' :: (ks ++ '"' :: (w' ++ ':' :: cs))) =
      readMembers fuel ((name, j) :: done) rest := by
  rw [readMembers, skip_blank hw, skip_cons rfl]
  simp only [readChars_text hks, skip_blank hw', skip_cons (show isSpace ':' = false from rfl), hread, skip_blank hw'',
    skip_cons (show isSpace ',' = false from rfl), List.reverse_nil, List.nil_append, String.ofList_toList]

theorem readMembers_close {w'' : List Char} (hread : readValue fuel cs = some (j, w'' ++ '\x7d' :: rest))
    (hw'' : Blank w'') :
    readMembers (fuel + 1) done (w ++ '"' :: (ks ++ '"' :: (w' ++ ':' :: cs))) =
      some (.obj ((name, j) :: done).reverse, rest) := by
  rw [readMembers, skip_blank hw, skip_cons rfl]
  simp only [readChars_text hks, skip_blank hw', skip_cons (show isSpace ':' = false from rfl), hread, skip_blank hw'',
    skip_cons (show isSpace '\x7d' = false from rfl), List.reverse_nil, List.nil_append, String.ofList_toList]

end Members

/-! ### Stretches of a text -/

/-- What is spelled starts with a character that is neither white space nor a closing bracket, after white space. -/
theorem Spells.skip_eq {p : Part} (h : Spells p cs) :
    ∃ c, isSpace c = false ∧ c ≠ ']' ∧ c ≠ '\x7d' ∧ ∀ rest, ∃ more, skip (cs ++ rest) = c :: more := by
  have hhead : ∀ {c : Char} {more : List Char}, isSpace c = false → c ≠ ']' → c ≠ '\x7d' →
      ∃ d, isSpace d = false ∧ d ≠ ']' ∧ d ≠ '\x7d' ∧ ∀ rest, ∃ more', skip (c :: more ++ rest) = d :: more' :=
    fun {c more} hc hbracket hbrace => ⟨c, hc, hbracket, hbrace, fun rest => ⟨more ++ rest, skip_cons hc⟩⟩
  induction h with
  | nullWord | trueWord | falseWord | str | emptyArr | arr | emptyObj | obj => exact hhead rfl (by decide) (by decide)
  | int hn =>
    obtain ⟨c, more, rfl, rfl | hc⟩ := hn.head
    · exact hhead rfl (by decide) (by decide)
    · exact hhead (isSpace_of_isDigit hc) (by rintro rfl; cases hc) (by rintro rfl; cases hc)
  | spaced hw _ _ ih =>
    obtain ⟨c, hc, hbracket, hbrace, hskip⟩ := ih
    refine ⟨c, hc, hbracket, hbrace, fun rest => ?_⟩
    rw [List.append_assoc, skip_blank hw, List.append_assoc]
    exact hskip _
  | item _ ih | lastMember _ ih => exact ih
  | items _ _ ih | members _ _ ih =>
    obtain ⟨c, hc, hbracket, hbrace, hskip⟩ := ih
    refine ⟨c, hc, hbracket, hbrace, fun rest => ?_⟩
    rw [List.append_assoc]
    exact hskip _
  | member hw =>
    refine ⟨'"', rfl, by decide, by decide, fun rest => ?_⟩
    rw [List.append_assoc, skip_blank hw]
    exact ⟨_, skip_cons rfl⟩

/-- The reader takes a part of a document from a stretch of a text, given enough fuel, and what follows is left over. -/
def Part.ReadFrom : Part → List Char → Prop
  | value j, cs => ∀ fuel rest, cs.length < fuel → NoDigit rest → readValue fuel (cs ++ rest) = some (j, rest)
  | spaced j, cs => ∀ fuel rest, cs.length < fuel → NoDigit rest →
      ∃ w, Blank w ∧ readValue fuel (cs ++ rest) = some (j, w ++ rest)
  | items js, cs => ∀ fuel done rest, cs.length + 1 < fuel →
      readItems fuel done (cs ++ ']' :: rest) = some (.arr (done.reverse ++ js), rest)
  | member name j, cs => ∀ fuel done rest, cs.length < fuel →
      readMembers (fuel + 1) done (cs ++ ',' :: rest) = readMembers fuel ((name, j) :: done) rest ∧
      readMembers (fuel + 1) done (cs ++ '\x7d' :: rest) = some (.obj ((name, j) :: done).reverse, rest)
  | members ms, cs => ∀ fuel done rest, cs.length + 1 < fuel →
      readMembers fuel done (cs ++ '\x7d' :: rest) = some (.obj (done.reverse ++ ms), rest)

theorem Spells.readFrom {p : Part} (h : Spells p cs) : p.ReadFrom cs := by
  induction h with
  | nullWord | trueWord | falseWord =>
    intro fuel rest hfuel _
    obtain ⟨fuel, rfl⟩ : ∃ n, fuel = n + 1 := ⟨fuel - 1, by omega⟩
    rw [readValue]
    rfl
  | @int n cs hn =>
    intro fuel rest hfuel hrest
    obtain ⟨fuel, rfl⟩ : ∃ n, fuel = n + 1 := ⟨fuel - 1, by omega⟩
    obtain ⟨c, more, rfl, hc⟩ := hn.head
    rw [List.cons_append, readValue_number hc]
    exact readInt_spelled hn hrest
  | @str t cs ht =>
    intro fuel rest hfuel _
    obtain ⟨fuel, rfl⟩ : ∃ n, fuel = n + 1 := ⟨fuel - 1, by omega⟩
    rw [readValue, List.cons_append, List.append_assoc, List.cons_append, List.nil_append, skip_cons rfl]
    simp only [readChars_text ht]
    simp
  | emptyArr hw =>
    intro fuel rest hfuel _
    obtain ⟨fuel, rfl⟩ : ∃ n, fuel = n + 1 := ⟨fuel - 1, by omega⟩
    rw [List.cons_append, List.append_assoc]
    exact readValue_emptyArr hw fuel rest
  | @arr js cs hitems ih =>
    intro fuel rest hfuel _
    obtain ⟨fuel, rfl⟩ : ∃ n, fuel = n + 1 := ⟨fuel - 1, by omega⟩
    obtain ⟨c, -, hc, -, hskip⟩ := hitems.skip_eq
    obtain ⟨more, hmore⟩ := hskip (']' :: rest)
    rw [List.cons_append, List.append_assoc]
    rw [show [']'] ++ rest = ']' :: rest from rfl, readValue_arr hmore hc]
    exact ih fuel [] rest (by simp at hfuel; omega)
  | emptyObj hw =>
    intro fuel rest hfuel _
    obtain ⟨fuel, rfl⟩ : ∃ n, fuel = n + 1 := ⟨fuel - 1, by omega⟩
    rw [List.cons_append, List.append_assoc]
    exact readValue_emptyObj hw fuel rest
  | @obj ms cs hmembers ih =>
    intro fuel rest hfuel _
    obtain ⟨fuel, rfl⟩ : ∃ n, fuel = n + 1 := ⟨fuel - 1, by omega⟩
    obtain ⟨c, -, -, hc, hskip⟩ := hmembers.skip_eq
    obtain ⟨more, hmore⟩ := hskip ('\x7d' :: rest)
    rw [List.cons_append, List.append_assoc]
    rw [show ['\x7d'] ++ rest = '\x7d' :: rest from rfl, readValue_obj hmore hc]
    exact ih fuel [] rest (by simp at hfuel; omega)
  | @spaced j w cs w' hw hvalue hw' ih =>
    intro fuel rest hfuel hrest
    refine ⟨w', hw', ?_⟩
    rw [← readValue_skip, List.append_assoc, skip_blank hw, readValue_skip, List.append_assoc]
    exact ih fuel (w' ++ rest) (by simp at hfuel; omega) (noDigit_blank hw' hrest)
  | @item j cs _ ih =>
    intro fuel done rest hfuel
    obtain ⟨fuel, rfl⟩ : ∃ n, fuel = n + 1 := ⟨fuel - 1, by omega⟩
    obtain ⟨w, hw, hread⟩ := ih fuel (']' :: rest) (by omega) (noDigit_cons rfl)
    rw [readItems_close hread hw, List.reverse_cons]
  | @items j js cs ds _ _ ih ih' =>
    intro fuel done rest hfuel
    obtain ⟨fuel, rfl⟩ : ∃ n, fuel = n + 1 := ⟨fuel - 1, by omega⟩
    simp only [List.length_append, List.length_cons] at hfuel
    obtain ⟨w, hw, hread⟩ := ih fuel (',' :: (ds ++ ']' :: rest)) (by omega) (noDigit_cons rfl)
    rw [List.append_assoc, List.cons_append, readItems_comma hread hw, ih' fuel (j :: done) rest (by omega),
      List.reverse_cons, List.append_assoc]
    rfl
  | @member name j w ks w' cs hw hks hw' _ ih =>
    intro fuel done rest hfuel
    simp only [List.length_append, List.length_cons] at hfuel
    have hassoc : ∀ more, w ++ '"' :: (ks ++ '"' :: (w' ++ ':' :: cs)) ++ more =
        w ++ '"' :: (ks ++ '"' :: (w' ++ ':' :: (cs ++ more))) := fun more => by simp
    constructor
    · obtain ⟨w'', hw'', hread⟩ := ih fuel (',' :: rest) (by omega) (noDigit_cons rfl)
      rw [hassoc]
      exact readMembers_comma hw hks hw' hread hw''
    · obtain ⟨w'', hw'', hread⟩ := ih fuel ('\x7d' :: rest) (by omega) (noDigit_cons rfl)
      rw [hassoc]
      exact readMembers_close hw hks hw' hread hw''
  | @lastMember name j cs _ ih =>
    intro fuel done rest hfuel
    obtain ⟨fuel, rfl⟩ : ∃ n, fuel = n + 1 := ⟨fuel - 1, by omega⟩
    rw [(ih fuel done rest (by omega)).2, List.reverse_cons]
  | @members name j ms cs ds _ _ ih ih' =>
    intro fuel done rest hfuel
    obtain ⟨fuel, rfl⟩ : ∃ n, fuel = n + 1 := ⟨fuel - 1, by omega⟩
    simp only [List.length_append, List.length_cons] at hfuel
    rw [List.append_assoc, List.cons_append, (ih fuel done _ (by omega)).1, ih' fuel _ rest (by omega), List.reverse_cons,
      List.append_assoc]
    rfl

/-- The reader accepts every text of a document, and gives the document. -/
theorem read_of_textOf {text : String} (h : TextOf j text) : read text = some j := by
  obtain ⟨w, hw, hread⟩ := h.readFrom (text.toList.length + 1) [] (Nat.lt_succ_self _) (by simp [NoDigit])
  rw [List.append_nil, List.append_nil] at hread
  have hskip : skip w = [] := by simpa [skip] using skip_blank hw []
  simp only [read, hread, hskip, List.isEmpty_nil, if_true]

/-- A text spells one document at most. -/
theorem TextOf.unique {j' : Json} {text : String} (h : TextOf j text) (h' : TextOf j' text) : j = j' :=
  Option.some.inj ((read_of_textOf h).symm.trans (read_of_textOf h'))

end Documents

end ListScript.Json
