import ListScript.Error
import ListScript.Proofs.PathScan

/-!
# The grammar of paths

The grammar of texts without backslashes, rule by rule, and what the reader makes of such a text.

    path    := first rest*
    first   := name | bracket
    rest    := '.' name | bracket
    name    := [^.\[\]]+
    bracket := '["' [^"\n]* '"]' | "['" [^'\n]* "']" | '[' [^\]"']+ ']'

`Derives true` is `path` and `Derives false` is `rest*`; a derivation is the list of its pieces. A piece is decoded by
`Piece.segment?`, which fails on digits that are no number.

- `Rule.unique`, `Derives.unique`: a text has at most one derivation;
- `takes_or_refuses`: one step of the scanner takes off the piece that the grammar gives, or there is none and it
  refuses the text; `scan_induction` is the induction along such steps;
- `scan_eq_ok_iff`, `isNumeral_of_scan`: what the scanner accepts, and which error it ends in;
- `parse_grammar`: the same for whole paths, with their roots.
-/

namespace ListScript.Path

/-! ## Derivations -/

/-- The rules `first` (`true`) and `rest` (`false`), with the piece that each gives. -/
inductive Rule : Bool → Piece → List Char → Prop
  | first {text : List Char} : text ≠ [] → (∀ c ∈ text, inName c = true) → Rule true (.name text) text
  | dotted {text : List Char} : text ≠ [] → (∀ c ∈ text, inName c = true) → Rule false (.name text) ('.' :: text)
  | quoted {first : Bool} {q : Char} {text : List Char} : isQuote q → (∀ c ∈ text, c ≠ q ∧ c ≠ '\n') →
      Rule first (.quoted q text) ('[' :: q :: text ++ [q, ']'])
  | bare {first : Bool} {text : List Char} : text ≠ [] → (∀ c ∈ text, inBare c = true) →
      Rule first (.bare text) ('[' :: text ++ [']'])

/-- The derivations of `first rest*` (`true`) and of `rest*` (`false`). -/
inductive Derives : Bool → List Piece → List Char → Prop
  | done : Derives false [] []
  | piece {first : Bool} {p : Piece} {ps : List Piece} {text rest : List Char} : Rule first p text →
      Derives false ps rest → Derives first (p :: ps) (text ++ rest)

/-- The number that a text of digits denotes. -/
def integer? (text : List Char) : Option Nat :=
  if text.length ≤ maxIntegerDigits then Text.readDecimal 0 text else none

/-- The segment of an unquoted piece: an index if it is made of digits, else a name. -/
def unquoted? (text : List Char) : Option Segment :=
  if Text.allDigits text then (integer? text).map .index else some (.name (String.ofList text))

/-- The segment of a piece. -/
def Piece.segment? : Piece → Option Segment
  | .name text => unquoted? text
  | .quoted _ text => some (.name (String.ofList text))
  | .bare text => unquoted? (Text.trim text)

/-- The root that a derivation selects, and the segments below it. -/
def selected (pieces : List Piece) (segs : List Segment) : Root × List Segment :=
  if pieces.head? = some (.name "this".toList) then (.this, segs.tail)
  else if pieces.head? = some (.name "$".toList) then (.lastValue, segs.tail)
  else (.scope, segs)

/-- A piece of digits that are no number stands in a text, and everything up to it follows the grammar. -/
def RefusesNumber (first : Bool) (text : List Char) : Prop :=
  ∃ ps p before after, text = before ++ after ∧ Derives first (ps ++ [p]) before ∧ p.Ends after ∧ p.segment? = none

/-- Whether a fault is about digits that are no number. -/
def Fault.isNumeral : Fault → Bool
  | .badDigits _ | .tooManyDigits _ => true
  | _ => false

theorem kind_path (quoted : String) (fault : Fault) :
    (Cause.path quoted fault).kind = if fault.isNumeral then .badValue else .badPath := by
  cases fault <;> rfl

/-! ## Texts without backslashes -/

theorem quotable_of_forall {q : Char} {text : List Char} (hb : '\\' ∉ text) (h : ∀ c ∈ text, c ≠ q ∧ c ≠ '\n') :
    Quotable q text := by
  induction text with
  | nil => exact .nil
  | cons c text ih =>
    simp only [List.mem_cons, not_or] at hb
    obtain ⟨hcq, hn⟩ := h c List.mem_cons_self
    exact .single (Ne.symm hb.1) hcq hn (ih hb.2 fun d hd => h d (List.mem_cons_of_mem _ hd))

theorem unescape_of_not_mem {text : List Char} (hb : '\\' ∉ text) : unescape text = text := by
  fun_induction unescape text with
  | case1 => rfl
  | case2 c => rfl
  | case3 c d rest h ih => simp_all
  | case4 c d rest h ih =>
    simp only [List.mem_cons, not_or] at hb ih
    rw [ih ⟨hb.2.1, hb.2.2⟩]

theorem Rule.spelled {first : Bool} {p : Piece} {text : List Char} (h : Rule first p text) (hb : '\\' ∉ text) :
    p.Spelled first text := by
  cases h with
  | first hne hall => exact .first hne hall
  | dotted hne hall => exact .later hne hall
  | quoted hq hall =>
    simp only [List.cons_append, List.mem_cons, List.mem_append, not_or] at hb
    exact .quoted hq (quotable_of_forall hb.2.2.1 hall)
  | bare hne hall => exact .bare hne hall

/-- A quoted part without backslashes ends at its first quote. -/
theorem quotedPart_cases {q : Char} {cs part after : List Char} (hb : '\\' ∉ cs)
    (h : quotedPart q cs = some (part, after)) :
    cs = part ++ q :: ']' :: after ∧ ∀ c ∈ part, c ≠ q ∧ c ≠ '\n' := by
  induction cs generalizing part with
  | nil => cases h
  | cons c cs ih =>
    cases cs with
    | nil => cases h
    | cons d rest =>
      simp only [List.mem_cons, not_or] at hb ih
      have hc : (c == '\\') = false := by simpa using Ne.symm hb.1
      simp only [quotedPart, hc, Bool.false_and, Bool.false_eq_true, if_false] at h
      split at h
      · rename_i hq
        split at h
        · rename_i hd
          cases h
          simp_all
        · cases h
      · rename_i hq
        split at h
        · cases h
        · rename_i hn
          obtain ⟨⟨part', after'⟩, hrest, he⟩ := Option.map_eq_some_iff.1 h
          cases he
          obtain ⟨htext, hall⟩ := ih ⟨hb.2.1, hb.2.2⟩ hrest
          refine ⟨by rw [htext]; rfl, ?_⟩
          intro x hx
          cases hx with
          | head => simp_all
          | tail _ hx => exact hall x hx

/-- What a bracket that can be read looks like. -/
theorem bracket_cases {rest after : List Char} {b : Bracket} (hb : '\\' ∉ rest) (h : bracket rest = some (b, after)) :
    ∃ p inner, rest = inner ++ after ∧ ∀ first, Rule first p ('[' :: inner) := by
  cases rest with
  | nil => cases h
  | cons c cs =>
    simp only [List.mem_cons, not_or] at hb
    unfold bracket at h
    simp only at h
    split at h
    · rename_i hq
      obtain ⟨⟨part, after'⟩, hpart, he⟩ := Option.map_eq_some_iff.1 h
      cases he
      obtain ⟨htext, hall⟩ := quotedPart_cases hb.2 hpart
      have hquote : isQuote c := by simpa [isQuote] using hq
      exact ⟨.quoted c part, c :: part ++ [c, ']'], by simp [htext], fun _ => .quoted hquote hall⟩
    · split at h
      · rename_i after' hdrop
        split at h
        · cases h
        · rename_i hne
          cases h
          refine ⟨.bare ((c :: cs).takeWhile inBare), (c :: cs).takeWhile inBare ++ [']'], ?_, fun _ => .bare ?_ ?_⟩
          · rw [List.append_assoc, List.singleton_append, ← hdrop, List.takeWhile_append_dropWhile]
          · simpa using hne
          · exact List.all_eq_true.1 List.all_takeWhile
      · cases h

/-- A bracket of the grammar can be read. -/
theorem Rule.bracket {first : Bool} {p : Piece} {inner : List Char} (h : Rule first p ('[' :: inner))
    (hb : '\\' ∉ inner) (after : List Char) : ∃ b, Path.bracket (inner ++ after) = some (b, after) := by
  cases h.spelled (by simpa using hb) with
  | first _ hall => exact absurd (hall '[' List.mem_cons_self) (by decide)
  | @quoted _ q part hq hpart => exact ⟨.quoted part, by simpa using bracket_quoted hq hpart after⟩
  | @bare _ text hne hall => exact ⟨.bare text, by simpa using bracket_bare hne hall after⟩

/-! ## Uniqueness -/

theorem ends_dropWhile (cs : List Char) (text : List Char) : (Piece.name text).Ends (cs.dropWhile inName) := by
  intro c hc
  have h := List.head?_dropWhile_not inName cs
  rw [Option.mem_def.1 hc] at h
  exact h

/-- Two runs of a class of characters that end before the same text are the same run. -/
theorem run_unique {p : Char → Bool} {text text' after after' : List Char} (h : ∀ c ∈ text, p c = true)
    (h' : ∀ c ∈ text', p c = true) (hends : ∀ c ∈ after.head?, p c = false) (hends' : ∀ c ∈ after'.head?, p c = false)
    (he : text ++ after = text' ++ after') : text = text' ∧ after = after' := by
  have htext : text = text' := by
    rw [← takeWhile_append_of_all h hends, he, takeWhile_append_of_all h' hends']
  exact ⟨htext, List.append_cancel_left (htext ▸ he)⟩

theorem not_name_bracket {text after rest : List Char} (hne : text ≠ []) (hall : ∀ c ∈ text, inName c = true)
    (he : text ++ after = '[' :: rest) : False := by
  cases text with
  | nil => exact hne rfl
  | cons c text =>
    cases he
    exact absurd (hall '[' List.mem_cons_self) (by decide)

theorem not_bare_quoted {q : Char} (hq : isQuote q) {text after rest : List Char} (hne : text ≠ [])
    (hall : ∀ c ∈ text, inBare c = true) (he : text ++ after = q :: rest) : False := by
  cases text with
  | nil => exact hne rfl
  | cons c text =>
    cases he
    have := hall q List.mem_cons_self
    obtain rfl | rfl := hq <;> cases this

theorem quoted_unique {q : Char} (hq : isQuote q) {text text' after after' : List Char} (h : Quotable q text)
    (h' : Quotable q text') (he : text ++ q :: ']' :: after = text' ++ q :: ']' :: after') :
    text = text' ∧ after = after' := by
  have hread := quotedPart_append hq h after
  rw [he, quotedPart_append hq h'] at hread
  cases hread
  exact ⟨rfl, rfl⟩

/-- A text starts with at most one piece. -/
theorem Rule.unique {first : Bool} {p p' : Piece} {text text' after after' : List Char} (h : Rule first p text)
    (h' : Rule first p' text') (hb : '\\' ∉ text ++ after) (he : text ++ after = text' ++ after')
    (hends : p.Ends after) (hends' : p'.Ends after') : p = p' ∧ text = text' ∧ after = after' := by
  have hb' : '\\' ∉ text' ++ after' := he ▸ hb
  cases h with
  | first hne hall =>
    cases h' with
    | first hne' hall' =>
      obtain ⟨rfl, rfl⟩ := run_unique hall hall' hends hends' he
      exact ⟨rfl, rfl, rfl⟩
    | quoted | bare => exact (not_name_bracket hne hall he).elim
  | dotted hne hall =>
    cases h' with
    | dotted hne' hall' =>
      obtain ⟨rfl, rfl⟩ := run_unique hall hall' hends hends' (List.cons.inj he).2
      exact ⟨rfl, rfl, rfl⟩
    | quoted | bare => cases he
  | @quoted _ q text hq hall =>
    cases h' with
    | first hne' hall' => exact (not_name_bracket hne' hall' he.symm).elim
    | dotted => cases he
    | @quoted _ q' text' hq' hall' =>
      simp only [List.cons_append, List.append_assoc, List.nil_append, List.cons.injEq, true_and, List.mem_cons,
        List.mem_append, not_or] at he hb hb'
      obtain ⟨rfl, he⟩ := he
      obtain ⟨rfl, rfl⟩ := quoted_unique hq (quotable_of_forall hb.2.2.1 hall) (quotable_of_forall hb'.2.2.1 hall') he
      exact ⟨rfl, rfl, rfl⟩
    | bare hne' hall' =>
      simp only [List.cons_append, List.append_assoc, List.cons.injEq, true_and] at he
      exact (not_bare_quoted hq hne' hall' he.symm).elim
  | @bare _ text hne hall =>
    cases h' with
    | first hne' hall' => exact (not_name_bracket hne' hall' he.symm).elim
    | dotted => cases he
    | quoted hq' hall' =>
      simp only [List.cons_append, List.append_assoc, List.cons.injEq, true_and] at he
      exact (not_bare_quoted hq' hne hall he).elim
    | @bare _ text' hne' hall' =>
      simp only [List.cons_append, List.append_assoc, List.nil_append, List.cons.injEq, true_and] at he
      obtain ⟨rfl, hafter⟩ := run_unique hall hall' (by simp [inBare]) (by simp [inBare]) he
      exact ⟨rfl, rfl, (List.cons.inj hafter).2⟩

theorem Derives.ends {ps : List Piece} {text : List Char} (h : Derives false ps text) (p : Piece) : p.Ends text := by
  have hhead : ∀ c ∈ text.head?, inName c = false := by
    cases h with
    | done => simp
    | piece hp _ => cases hp <;> simp [inName]
  cases p with
  | name t => exact hhead
  | quoted q part | bare t => trivial

theorem Rule.ne_nil {first : Bool} {p : Piece} {text : List Char} (h : Rule first p text) : text ≠ [] := by
  cases h with
  | first hne _ => exact hne
  | dotted | quoted | bare => simp

/-- A text has at most one derivation. -/
theorem Derives.unique {first : Bool} {ps ps' : List Piece} {text : List Char} (h : Derives first ps text)
    (h' : Derives first ps' text) (hb : '\\' ∉ text) : ps = ps' := by
  induction h generalizing ps' with
  | done =>
    generalize ht : ([] : List Char) = text at h'
    cases h' with
    | done => rfl
    | piece hp _ => exact absurd (List.append_eq_nil_iff.1 ht.symm).1 hp.ne_nil
  | @piece first p ps text rest hp hps ih =>
    generalize ht : text ++ rest = whole at h'
    cases h' with
    | done => exact absurd (List.append_eq_nil_iff.1 ht).1 hp.ne_nil
    | @piece _ p' ps' text' rest' hp' hps' =>
      obtain ⟨rfl, rfl, rfl⟩ := hp.unique hp' hb ht (hps.ends p) (hps'.ends p')
      rw [ih hps' fun hmem => hb (List.mem_append_right _ hmem)]

/-! ## Single steps of the scanner -/

/-- A piece in brackets ends by itself. -/
theorem Rule.ends_bracket {p : Piece} {inner : List Char} (h : Rule false p ('[' :: inner)) (after : List Char) :
    p.Ends after := by
  cases h with
  | quoted | bare => trivial

theorem not_rule_dot {p : Piece} {text after rest : List Char} (h : Rule true p text)
    (he : '.' :: rest = text ++ after) : False := by
  cases h with
  | @first text hne hall =>
    cases text with
    | nil => exact hne rfl
    | cons c text =>
      cases he
      exact absurd (hall '.' List.mem_cons_self) (by decide)
  | quoted | bare => cases he

/-- The scanner takes off the piece that a text starts with. -/
def Takes (offset : Nat) (cs : List Char) : Prop :=
  ∃ p text after, cs = text ++ after ∧ Rule (decide (offset = 0)) p text ∧ p.Ends after ∧
    scan offset cs = following p.decode (offset + text.length) after

/-- A text starts with no piece, and the scanner refuses it. -/
def Refuses (offset : Nat) (cs : List Char) : Prop :=
  (∃ fault, scan offset cs = .error fault ∧ fault.isNumeral = false) ∧
    ∀ p text after, cs = text ++ after → ¬ Rule (decide (offset = 0)) p text

section Steps

variable {offset : Nat} {rest : List Char}

theorem takes_of_rule {p : Piece} {cs text after : List Char} (hb : '\\' ∉ cs) (he : cs = text ++ after)
    (hp : Rule (decide (offset = 0)) p text) (hends : p.Ends after) : Takes offset cs := by
  refine ⟨p, text, after, he, hp, hends, ?_⟩
  rw [he]
  exact scan_append (hp.spelled fun hmem => hb (he ▸ List.mem_append_left _ hmem)) rfl hends

theorem takes_or_refuses_dot (hb : '\\' ∉ '.' :: rest) : Takes offset ('.' :: rest) ∨ Refuses offset ('.' :: rest) := by
  by_cases h0 : offset = 0
  · refine .inr ⟨⟨.emptyName offset, by rw [scan]; simp [h0], rfl⟩, ?_⟩
    intro p text after he hp
    rw [decide_eq_true h0] at hp
    exact not_rule_dot hp he
  · by_cases hempty : rest.takeWhile inName = []
    · refine .inr ⟨⟨.emptyName offset, by rw [scan]; simp [hempty], rfl⟩, ?_⟩
      intro p text after he hp
      rw [decide_eq_false h0] at hp
      cases hp with
      | @dotted text hne hall =>
        have hrest : rest = text ++ after := (List.cons.inj he).2
        rw [hrest, List.takeWhile_append_of_pos hall] at hempty
        exact hne (List.append_eq_nil_iff.1 hempty).1
      | quoted | bare => cases he
    · have hp : Rule (decide (offset = 0)) (.name (rest.takeWhile inName)) ('.' :: rest.takeWhile inName) := by
        rw [decide_eq_false h0]
        exact .dotted hempty (List.all_eq_true.1 List.all_takeWhile)
      refine .inl (takes_of_rule hb ?_ hp (ends_dropWhile rest _))
      rw [List.cons_append, List.takeWhile_append_dropWhile]

theorem takes_or_refuses_bracket (hb : '\\' ∉ '[' :: rest) :
    Takes offset ('[' :: rest) ∨ Refuses offset ('[' :: rest) := by
  have hrest : '\\' ∉ rest := fun hmem => hb (List.mem_cons_of_mem _ hmem)
  cases hbracket : Path.bracket rest with
  | none =>
    refine .inr ⟨⟨.badBracket offset, ?_, rfl⟩, ?_⟩
    · rw [scan]
      simp only [Char.reduceEq, if_false, if_true]
      split
      · rfl
      · rename_i h; rw [hbracket] at h; cases h
    · intro p text after he hp
      cases text with
      | nil => exact hp.ne_nil rfl
      | cons c inner =>
        obtain ⟨rfl, rfl⟩ := List.cons.inj he
        obtain ⟨b, h⟩ := hp.bracket (fun hmem => hrest (List.mem_append_left _ hmem)) after
        exact Option.some_ne_none _ (h.symm.trans hbracket)
  | some found =>
    obtain ⟨b, after⟩ := found
    obtain ⟨p, inner, rfl, hp⟩ := bracket_cases hrest hbracket
    exact .inl (takes_of_rule hb rfl (hp _) ((hp false).ends_bracket after))

theorem takes_or_refuses_char {c : Char} (hdot : c ≠ '.') (hopen : c ≠ '[') (hb : '\\' ∉ c :: rest) :
    Takes offset (c :: rest) ∨ Refuses offset (c :: rest) := by
  by_cases hstart : offset = 0 ∧ c ≠ ']'
  · obtain ⟨h0, hclose⟩ := hstart
    have hc : inName c = true := by simp [inName, hdot, hopen, hclose]
    have hp : Rule (decide (offset = 0)) (.name (c :: rest.takeWhile inName)) (c :: rest.takeWhile inName) := by
      rw [decide_eq_true h0]
      refine .first (List.cons_ne_nil _ _) ?_
      rw [← List.takeWhile_cons_of_pos hc]
      exact List.all_eq_true.1 List.all_takeWhile
    refine .inl (takes_of_rule hb ?_ hp (ends_dropWhile rest _))
    rw [List.cons_append, List.takeWhile_append_dropWhile]
  · refine .inr ⟨⟨.unexpected c offset, ?_, rfl⟩, ?_⟩
    · rw [scan]
      simp only [hdot, hopen, if_false]
      rw [if_pos]
      grind
    · intro p text after he hp
      generalize hfirst : decide (offset = 0) = first at hp
      cases hp with
      | @first text hne hall =>
        cases text with
        | nil => exact hne rfl
        | cons d text =>
          cases he
          have hd := hall c List.mem_cons_self
          refine hstart ⟨by simpa using hfirst, ?_⟩
          rintro rfl
          cases hd
      | dotted => exact hdot (List.cons.inj he).1
      | quoted | bare => exact hopen (List.cons.inj he).1

/-- The scanner takes off the piece that a text starts with, or there is none and it refuses the text. -/
theorem takes_or_refuses {cs : List Char} (offset : Nat) (hne : cs ≠ []) (hb : '\\' ∉ cs) :
    Takes offset cs ∨ Refuses offset cs := by
  cases cs with
  | nil => exact absurd rfl hne
  | cons c rest =>
    by_cases hdot : c = '.'
    · subst hdot
      exact takes_or_refuses_dot hb
    · by_cases hopen : c = '['
      · subst hopen
        exact takes_or_refuses_bracket hb
      · exact takes_or_refuses_char hdot hopen hb

end Steps

/-! ## Decoding -/

/-- A number is read only from decimal digits. -/
theorem takeWhile_of_readDecimal {text : List Char} {acc n : Nat} (h : Text.readDecimal acc text = some n) :
    text.takeWhile (fun c => (Text.decimal? c).isSome) = text := by
  induction text generalizing acc with
  | nil => rfl
  | cons c text ih =>
    obtain ⟨d, hd, hrest⟩ := Option.bind_eq_some_iff.1 h
    rw [List.takeWhile_cons_of_pos (by simp [hd]), ih hrest]

/-- An unquoted piece gives its segment, and an error about its digits if it has none. -/
theorem segmentOf_cases (text : List Char) :
    (∃ seg, segmentOf text = .ok seg ∧ unquoted? text = some seg) ∨
    (∃ fault, segmentOf text = .error fault ∧ unquoted? text = none ∧ fault.isNumeral = true) := by
  unfold segmentOf unquoted? integer?
  by_cases hall : Text.allDigits text = true
  · simp only [hall, if_true]
    have hrun : (text.takeWhile fun c => (Text.decimal? c).isSome).length ≤ text.length :=
      (List.takeWhile_prefix _).length_le
    cases hread : Text.readDecimal 0 text with
    | none => split <;> exact .inr ⟨_, rfl, by simp, rfl⟩
    | some n =>
      rw [takeWhile_of_readDecimal hread]
      by_cases hlong : maxIntegerDigits < text.length
      · rw [if_pos hlong, if_neg (by omega)]
        exact .inr ⟨_, rfl, rfl, rfl⟩
      · rw [if_neg hlong, if_pos (by omega)]
        exact .inl ⟨_, rfl, rfl⟩
  · simp only [hall, if_false, Bool.false_eq_true]
    exact .inl ⟨_, rfl, rfl⟩

/-- A piece gives its segment, and an error about its digits if it has none. -/
theorem Rule.decode_cases {first : Bool} {p : Piece} {text : List Char} (h : Rule first p text) (hb : '\\' ∉ text) :
    (∃ seg, p.decode = .ok seg ∧ p.segment? = some seg) ∨
    (∃ fault, p.decode = .error fault ∧ p.segment? = none ∧ fault.isNumeral = true) := by
  cases h with
  | first | dotted => exact segmentOf_cases _
  | @quoted _ q part hq hall =>
    simp only [List.cons_append, List.mem_cons, List.mem_append, not_or] at hb
    refine .inl ⟨.name (String.ofList part), ?_, rfl⟩
    rw [Piece.decode, unescape_of_not_mem hb.2.2.1]
  | bare => exact segmentOf_cases _

/-! ## Whole texts -/

section Following

variable {piece : Except Fault Segment} {offset : Nat} {after : List Char}

theorem following_eq_ok {segs : List Segment} (h : following piece offset after = .ok segs) :
    ∃ more, scan offset after = .ok more := by
  cases piece with
  | error fault => cases h
  | ok seg =>
    cases hmore : scan offset after with
    | ok more => exact ⟨more, rfl⟩
    | error fault => rw [following, hmore] at h; cases h

theorem following_eq_error {fault : Fault} (h : following piece offset after = .error fault) :
    piece = .error fault ∨ (∃ seg, piece = .ok seg) ∧ scan offset after = .error fault := by
  cases piece with
  | error fault' => cases h; exact .inl rfl
  | ok seg =>
    cases hmore : scan offset after with
    | ok more => rw [following, hmore] at h; cases h
    | error fault' => rw [following, hmore] at h; cases h; exact .inr ⟨⟨seg, rfl⟩, rfl⟩

end Following

/-- A derived text is scanned to the segments of its pieces. -/
theorem Derives.scan {first : Bool} {ps : List Piece} {text : List Char} (h : Derives first ps text) :
    ∀ (offset : Nat), first = decide (offset = 0) → '\\' ∉ text →
      (Path.scan offset text).toOption = ps.mapM Piece.segment? := by
  induction h with
  | done =>
    intro offset _ _
    rw [scan_nil]
    rfl
  | @piece first p ps text rest hp hps ih =>
    intro offset hfirst hb
    simp only [List.mem_append, not_or] at hb
    have hlen := List.length_pos_iff.2 hp.ne_nil
    have hnext : decide (offset + text.length = 0) = false := decide_eq_false (by omega)
    rw [scan_append (hp.spelled hb.1) hfirst (hps.ends p), List.mapM_cons, ← ih _ hnext.symm hb.2]
    obtain ⟨seg, hdecode, hseg⟩ | ⟨fault, hdecode, hseg, _⟩ := hp.decode_cases hb.1
    · rw [hdecode, hseg, following]
      cases Path.scan (offset + text.length) rest <;> rfl
    · rw [hdecode, hseg]
      rfl

/-- Induction along the steps of the scanner. -/
@[elab_as_elim]
theorem scan_induction {motive : Nat → List Char → Prop} (nil : ∀ offset, offset ≠ 0 → motive offset [])
    (piece : ∀ offset p text after, Rule (decide (offset = 0)) p text → p.Ends after → '\\' ∉ text ++ after →
      Path.scan offset (text ++ after) = following p.decode (offset + text.length) after → offset + text.length ≠ 0 →
      motive (offset + text.length) after → motive offset (text ++ after))
    (refused : ∀ offset cs, Refuses offset cs → motive offset cs) :
    ∀ offset cs, (offset = 0 → cs ≠ []) → '\\' ∉ cs → motive offset cs := by
  intro offset cs hne hb
  -- what follows a piece is shorter, for a piece is not empty
  induction hn : cs.length using Nat.strongRecOn generalizing offset cs with
  | ind n ih =>
    by_cases hnil : cs = []
    · subst hnil
      exact nil offset fun h0 => hne h0 rfl
    · obtain ⟨p, text, after, rfl, hp, hends, hscan⟩ | hrefused := takes_or_refuses offset hnil hb
      · have hlen := List.length_pos_iff.2 hp.ne_nil
        have hnext : offset + text.length ≠ 0 := by omega
        have hshort : after.length < n := by rw [← hn, List.length_append]; omega
        have hafter : '\\' ∉ after := fun hmem => hb (List.mem_append_right _ hmem)
        exact piece offset p text after hp hends hb hscan hnext
          (ih _ hshort _ after (fun h0 => absurd h0 hnext) hafter rfl)
      · exact refused offset cs hrefused

/-- A text that can be scanned is derived. -/
theorem derives_of_scan {offset : Nat} {cs : List Char} (hne : offset = 0 → cs ≠ []) (hb : '\\' ∉ cs) :
    ∀ segs, scan offset cs = .ok segs → ∃ ps, Derives (decide (offset = 0)) ps cs := by
  refine scan_induction ?_ ?_ ?_ offset cs hne hb
  · intro offset h0 segs _
    rw [decide_eq_false h0]
    exact ⟨[], .done⟩
  · intro offset p text after hp _ _ hscan hnext ih segs h
    obtain ⟨more, hmore⟩ := following_eq_ok (hscan.symm.trans h)
    obtain ⟨ps, hps⟩ := ih more hmore
    rw [decide_eq_false hnext] at hps
    exact ⟨p :: ps, .piece hp hps⟩
  · rintro offset cs ⟨⟨fault, hscan, _⟩, _⟩ segs h
    rw [hscan] at h
    cases h

/-- The scanner accepts the texts of the grammar whose digits are numbers. -/
theorem scan_eq_ok_iff {cs : List Char} (hne : cs ≠ []) (hb : '\\' ∉ cs) (segs : List Segment) :
    scan 0 cs = .ok segs ↔ ∃ ps, Derives true ps cs ∧ ps.mapM Piece.segment? = some segs := by
  constructor
  · intro h
    obtain ⟨ps, hps⟩ := derives_of_scan (fun _ => hne) hb segs h
    have hsegs := hps.scan 0 rfl hb
    rw [h] at hsegs
    exact ⟨ps, hps, hsegs.symm⟩
  · rintro ⟨ps, hps, hsegs⟩
    have hscan := hps.scan 0 rfl hb
    rw [hsegs] at hscan
    cases h : scan 0 cs with
    | error fault => rw [h] at hscan; cases hscan
    | ok segs' => rw [h] at hscan; cases hscan; rfl

/-! ## Refused numbers -/

theorem Piece.Ends.append {p : Piece} {text : List Char} (h : p.Ends text) (hne : text ≠ []) (after : List Char) :
    p.Ends (text ++ after) := by
  cases p with
  | name t =>
    cases text with
    | nil => exact absurd rfl hne
    | cons c text => exact h
  | quoted | bare => trivial

theorem Derives.ne_nil {first : Bool} {ps : List Piece} {text : List Char} (h : Derives first ps text) (hps : ps ≠ []) :
    text ≠ [] := by
  cases h with
  | done => exact absurd rfl hps
  | piece hp _ => simp [hp.ne_nil]

/-- A refused number is the first piece of a text, or stands behind it. -/
theorem refusesNumber_append {first : Bool} {p : Piece} {text after : List Char} (hp : Rule first p text)
    (hends : p.Ends after) (hb : '\\' ∉ text ++ after) :
    RefusesNumber first (text ++ after) ↔ p.segment? = none ∨ RefusesNumber false after := by
  constructor
  · rintro ⟨ps, q, before, behind, he, hder, hq, hnone⟩
    generalize hps : ps ++ [q] = whole at hder
    cases hder with
    | done => simp at hps
    | @piece _ p' ps' text' rest hp' hps' =>
      rw [List.append_assoc] at he
      cases ps with
      | nil =>
        obtain ⟨rfl, rfl⟩ := List.cons.inj hps
        cases hps' with
        | done =>
          obtain ⟨rfl, _⟩ := hp.unique hp' hb he hends (by simpa using hq)
          exact .inl hnone
      | cons p'' ps =>
        obtain ⟨rfl, rfl⟩ := List.cons.inj hps
        have hrest : rest ≠ [] := hps'.ne_nil (by simp)
        obtain ⟨rfl, rfl, rfl⟩ := hp.unique hp' hb he hends ((hps'.ends _).append hrest behind)
        exact .inr ⟨ps, q, rest, behind, rfl, hps', hq, hnone⟩
  · rintro (hnone | ⟨ps, q, before, behind, rfl, hder, hq, hnone⟩)
    · exact ⟨[], p, text ++ [], after, by simp, .piece hp .done, hends, hnone⟩
    · exact ⟨p :: ps, q, text ++ before, behind, by simp, .piece hp hder, hq, hnone⟩

theorem not_refusesNumber_of_forall {first : Bool} {cs : List Char}
    (h : ∀ p text after, cs = text ++ after → ¬ Rule first p text) : ¬ RefusesNumber first cs := by
  rintro ⟨ps, q, before, behind, rfl, hder, _, _⟩
  generalize hps : ps ++ [q] = whole at hder
  cases hder with
  | done => simp at hps
  | piece hp _ => exact h _ _ _ (List.append_assoc ..) hp

/-- The scanner ends in an error about digits if it meets digits that are no number before anything else to refuse. -/
theorem isNumeral_of_scan {offset : Nat} {cs : List Char} (hne : offset = 0 → cs ≠ []) (hb : '\\' ∉ cs) :
    ∀ fault, scan offset cs = .error fault → (fault.isNumeral = true ↔ RefusesNumber (decide (offset = 0)) cs) := by
  refine scan_induction ?_ ?_ ?_ offset cs hne hb
  · intro offset _ fault h
    rw [scan_nil] at h
    cases h
  · intro offset p text after hp hends hb hscan hnext ih fault h
    rw [refusesNumber_append hp hends hb]
    have htext : '\\' ∉ text := fun hmem => hb (List.mem_append_left _ hmem)
    obtain ⟨seg, hdecode, hseg⟩ | ⟨fault', hdecode, hseg, hnumeral⟩ := hp.decode_cases htext
    · obtain herr | ⟨_, hrest⟩ := following_eq_error (hscan.symm.trans h)
      · rw [hdecode] at herr
        cases herr
      · have hih := ih fault hrest
        rw [decide_eq_false hnext] at hih
        rw [hih, hseg]
        simp
    · obtain herr | ⟨⟨seg, hok⟩, _⟩ := following_eq_error (hscan.symm.trans h)
      · rw [hdecode] at herr
        cases herr
        simp [hnumeral, hseg]
      · rw [hdecode] at hok
        cases hok
  · rintro offset cs ⟨⟨fault', hscan, hother⟩, hno⟩ fault h
    rw [hscan] at h
    cases h
    simp [hother, not_refusesNumber_of_forall hno]

/-! ## Roots -/

theorem unquoted?_eq_name {text : List Char} {t : String} (h : unquoted? text = some (.name t)) : text = t.toList := by
  unfold unquoted? at h
  split at h
  · cases hn : integer? text <;> rw [hn] at h <;> cases h
  · cases h
    exact String.toList_ofList.symm

theorem selected_of_ne {p : Piece} (ps : List Piece) (segs : List Segment) (hthis : p ≠ .name "this".toList)
    (hlast : p ≠ .name "$".toList) : selected (p :: ps) segs = (.scope, segs) := by
  have hthis' : (p :: ps).head? ≠ some (.name "this".toList) := fun h => hthis (Option.some.inj h)
  have hlast' : (p :: ps).head? ≠ some (.name "$".toList) := fun h => hlast (Option.some.inj h)
  rw [selected, if_neg hthis', if_neg hlast']

/-- The reader takes the root that the first piece selects. -/
theorem Derives.rooted {ps : List Piece} {text : List Char} {segs : List Segment} (h : Derives true ps text)
    (hsegs : ps.mapM Piece.segment? = some segs) : Path.rooted (text.head? == some '[') segs = selected ps segs := by
  cases h with
  | @piece _ p ps text rest hp hps =>
    rw [List.mapM_cons] at hsegs
    obtain ⟨seg, hseg, hsegs⟩ := Option.bind_eq_some_iff.1 hsegs
    obtain ⟨more, hmore, hsegs⟩ := Option.bind_eq_some_iff.1 hsegs
    cases hsegs
    cases hp with
    | @first text hne hall =>
      rw [head?_name_append hne hall]
      by_cases hthis : text = "this".toList
      · subst hthis
        cases hseg
        rfl
      · by_cases hlast : text = "$".toList
        · subst hlast
          cases hseg
          rfl
        · rw [selected_of_ne ps _ (by simpa using hthis) (by simpa using hlast)]
          refine rooted_plain false more ?_ ?_
          · rintro rfl
            exact hthis (unquoted?_eq_name hseg)
          · rintro rfl
            exact hlast (unquoted?_eq_name hseg)
    | quoted => exact rooted_bracketed _
    | bare => exact rooted_bracketed _

/-! ## The grammar -/

/-- What the reader makes of a text without backslashes: it accepts the texts of the grammar whose digits are numbers,
each has one derivation, and the path has the root and the segments of that derivation; any other text is refused,
with an error about its value if a number is refused before anything else, and about the path if not. -/
theorem parse_grammar {text : String} (hne : text ≠ "") (hb : '\\' ∉ text.toList) :
    (∀ p, parse text = .ok p ↔ ∃ ps segs, Derives true ps text.toList ∧ ps.mapM Piece.segment? = some segs ∧
      p = ⟨(selected ps segs).1, (selected ps segs).2, text⟩) ∧
    (∀ ps qs, Derives true ps text.toList → Derives true qs text.toList → ps = qs) ∧
    (∀ fault, parse text = .error fault → ∀ quoted,
      (RefusesNumber true text.toList → (Cause.path quoted fault).kind = .badValue) ∧
      (¬ RefusesNumber true text.toList → (Cause.path quoted fault).kind = .badPath)) := by
  have hcs : text.toList ≠ [] := by simpa using hne
  rw [parse_eq_map hne]
  refine ⟨fun p => ⟨?_, ?_⟩, fun ps qs h h' => h.unique h' hb, ?_⟩
  · intro h
    cases hscan : scan 0 text.toList with
    | error fault => rw [hscan] at h; cases h
    | ok segs =>
      obtain ⟨ps, hps, hsegs⟩ := (scan_eq_ok_iff hcs hb segs).1 hscan
      refine ⟨ps, segs, hps, hsegs, ?_⟩
      rw [← hps.rooted hsegs]
      rw [hscan] at h
      exact (Except.ok.inj h).symm
  · rintro ⟨ps, segs, hps, hsegs, rfl⟩
    rw [(scan_eq_ok_iff hcs hb segs).2 ⟨ps, hps, hsegs⟩, ← hps.rooted hsegs]
    rfl
  · intro fault h quoted
    have hscan : scan 0 text.toList = .error fault := by
      cases hscan : scan 0 text.toList with
      | error fault' => rw [hscan] at h; cases h; rfl
      | ok segs => rw [hscan] at h; cases h
    have hnumeral := isNumeral_of_scan (fun _ => hcs) hb fault hscan
    rw [kind_path]
    refine ⟨fun hrefuses => if_pos (hnumeral.2 hrefuses), fun hrefuses => if_neg ?_⟩
    exact fun hfault => hrefuses (hnumeral.1 hfault)

theorem parse_grammar_key_and_index :
    parse "this[\"a.b\"][ 7 ]" = .ok ⟨.this, [.name "a.b", .index 7], "this[\"a.b\"][ 7 ]"⟩ ∧
      ∀ fault quoted, parse "²]" = .error fault → (Cause.path quoted fault).kind = .badValue := by
  have hthis : Rule true (.name "this".toList) "this".toList := .first (by decide) (List.all_eq_true.1 rfl)
  have hkey : Rule false (.quoted '"' "a.b".toList) "[\"a.b\"]".toList := .quoted (.inl rfl) (by simp)
  have hindex : Rule false (.bare " 7 ".toList) "[ 7 ]".toList := .bare (by decide) (List.all_eq_true.1 rfl)
  have hpower : Rule true (.name "²".toList) "²".toList := .first (by decide) (List.all_eq_true.1 rfl)
  have hder := Derives.piece hthis (.piece hkey (.piece hindex .done))
  constructor
  · refine ((parse_grammar (by decide) (by decide)).1 _).2 ?_
    exact ⟨_, [.name "this", .name "a.b", .index 7], hder, by decide, rfl⟩
  · intro fault quoted h
    have hrefuses : RefusesNumber true "²]".toList :=
      ⟨[], .name "²".toList, "²".toList, "]".toList, rfl, .piece hpower .done, by simp [Piece.Ends, inName], by decide⟩
    exact ((parse_grammar (by decide) (by decide)).2.2 fault h quoted).1 hrefuses

end ListScript.Path
