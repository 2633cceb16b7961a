import ListScript.Path.Parser

/-!
# Pieces of a path

The text of a path is a row of pieces: names, quoted brackets and unquoted brackets. `Piece.Spelled` says how a piece is
written, and `scan_append` that the scanner takes exactly one piece off a text that starts with one, whatever follows
it. The only demand on what follows is that it does not go on with a name (`Ends`): a name ends where no further
character of it can stand, a bracket ends by itself.

The quoted part of a bracket is a row of single characters and of pairs of a backslash and a character (`Quotable`).
The scanner tries the pairs first and backtracks, but on such a part it never has to (`quotedPart_append`).
-/

namespace ListScript.Path

/-! ## Quoted parts -/

/-- Whether a character is one of the two quotes. -/
def isQuote (q : Char) : Prop := q = '"' ∨ q = '\x27'

/-- The texts that can stand between quotes `q`: pairs of a backslash and a character, and other characters. -/
inductive Quotable (q : Char) : List Char → Prop
  | nil : Quotable q []
  | pair {d : Char} {rest : List Char} : d ≠ '\n' → Quotable q rest → Quotable q ('\\' :: d :: rest)
  | single {c : Char} {rest : List Char} : c ≠ '\\' → c ≠ q → c ≠ '\n' → Quotable q rest → Quotable q (c :: rest)

theorem isQuote.ne_backslash {q : Char} (h : isQuote q) : q ≠ '\\' := by
  obtain rfl | rfl := h <;> decide

theorem quotedPart_end {q : Char} (hq : isQuote q) (after : List Char) :
    quotedPart q (q :: ']' :: after) = some ([], after) := by
  simp [quotedPart, hq.ne_backslash]

/-- A pair is taken as a pair if the rest can be read. -/
theorem quotedPart_pair {q d : Char} {rest part after : List Char} (hd : d ≠ '\n')
    (h : quotedPart q rest = some (part, after)) :
    quotedPart q ('\\' :: d :: rest) = some ('\\' :: d :: part, after) := by
  simp [quotedPart, hd, h]

theorem quotedPart_single {q c : Char} {rest part after : List Char} (hc : c ≠ '\\') (hcq : c ≠ q) (hn : c ≠ '\n')
    (h : quotedPart q rest = some (part, after)) : quotedPart q (c :: rest) = some (c :: part, after) := by
  cases rest with
  | nil => cases h
  | cons d rest => simp [quotedPart, hc, hcq, hn, h]

/-- A quoted part is read up to its own closing quote, whatever follows the bracket. -/
theorem quotedPart_append {q : Char} (hq : isQuote q) {part : List Char} (h : Quotable q part) (after : List Char) :
    quotedPart q (part ++ q :: ']' :: after) = some (part, after) := by
  induction h with
  | nil => exact quotedPart_end hq after
  | pair hd _ ih => exact quotedPart_pair hd ih
  | single hc hcq hn _ ih => exact quotedPart_single hc hcq hn ih

/-! ## Pieces -/

/-- A piece of the text of a path. -/
inductive Piece where
  | name (text : List Char)
  | quoted (q : Char) (part : List Char)
  | bare (text : List Char)
  deriving DecidableEq

namespace Piece

/-- The segment that a piece stands for. -/
def decode : Piece → Except Fault Segment
  | name text => segmentOf text
  | quoted _ part => .ok (.name (String.ofList (unescape part)))
  | bare text => segmentOf (Text.trim text)

/-- How a piece is written: a name has a dot before it unless it is the first piece of a path. -/
inductive Spelled : Bool → Piece → List Char → Prop
  | first {text : List Char} : text ≠ [] → (∀ c ∈ text, inName c = true) → Spelled true (name text) text
  | later {text : List Char} : text ≠ [] → (∀ c ∈ text, inName c = true) → Spelled false (name text) ('.' :: text)
  | quoted {first : Bool} {q : Char} {part : List Char} : isQuote q → Quotable q part →
      Spelled first (quoted q part) ('[' :: q :: part ++ [q, ']'])
  | bare {first : Bool} {text : List Char} : text ≠ [] → (∀ c ∈ text, inBare c = true) →
      Spelled first (bare text) ('[' :: text ++ [']'])

/-- Whether a piece ends where `after` starts: a name does not go on there. -/
def Ends : Piece → List Char → Prop
  | name _, after => ∀ c ∈ after.head?, inName c = false
  | _, _ => True

end Piece

/-- How later pieces are written, one after the other. -/
inductive Row : List Piece → List Char → Prop
  | nil : Row [] []
  | cons {p : Piece} {ps : List Piece} {text rest : List Char} : p.Spelled false text → Row ps rest →
      Row (p :: ps) (text ++ rest)

/-! ## Single steps of the scanner -/

theorem scan_nil (offset : Nat) : scan offset [] = .ok [] := by rw [scan]

theorem takeWhile_append_of_all {p : Char → Bool} {text after : List Char} (h : ∀ c ∈ text, p c = true)
    (hafter : ∀ c ∈ after.head?, p c = false) : (text ++ after).takeWhile p = text := by
  rw [List.takeWhile_append_of_pos h]
  cases after with
  | nil => simp
  | cons c rest => simp [hafter c rfl]

theorem dropWhile_append_of_all {p : Char → Bool} {text after : List Char} (h : ∀ c ∈ text, p c = true)
    (hafter : ∀ c ∈ after.head?, p c = false) : (text ++ after).dropWhile p = after := by
  rw [List.dropWhile_append_of_pos h]
  cases after with
  | nil => simp
  | cons c rest => simp [hafter c rfl]

/-- The segments of a text that starts with a piece: that of the piece, and those of what follows. -/
def following (piece : Except Fault Segment) (offset : Nat) (after : List Char) : Except Fault (List Segment) := do
  let segment ← piece
  let more ← scan offset after
  return segment :: more

theorem scan_bracket {rest after : List Char} {b : Bracket} (offset : Nat) (h : bracket rest = some (b, after)) :
    scan offset ('[' :: rest) = following b.segment (offset + 1 + (rest.length - after.length)) after := by
  rw [scan]
  simp only [Char.reduceEq, if_false, if_true]
  split
  · rename_i hb; rw [h] at hb; cases hb
  · rename_i hb; rw [h] at hb; cases hb; rfl

theorem bracket_quoted {q : Char} (hq : isQuote q) {part : List Char} (h : Quotable q part) (after : List Char) :
    bracket (q :: part ++ q :: ']' :: after) = some (.quoted part, after) := by
  have hquote : (q == '"' || q == '\x27') = true := by obtain rfl | rfl := hq <;> rfl
  simp [bracket, hquote, quotedPart_append hq h]

theorem bracket_bare {text : List Char} (hne : text ≠ []) (h : ∀ c ∈ text, inBare c = true) (after : List Char) :
    bracket (text ++ ']' :: after) = some (.bare text, after) := by
  have htake : (text ++ ']' :: after).takeWhile inBare = text := takeWhile_append_of_all h (by simp [inBare])
  have hdrop : (text ++ ']' :: after).dropWhile inBare = ']' :: after := dropWhile_append_of_all h (by simp [inBare])
  cases text with
  | nil => exact absurd rfl hne
  | cons c rest =>
    have hc := h c List.mem_cons_self
    simp only [inBare, Bool.not_eq_true', Bool.or_eq_false_iff] at hc
    rw [List.cons_append] at htake hdrop ⊢
    unfold bracket
    simp only [hc.1.2, hc.2, Bool.or_self, Bool.false_eq_true, if_false, hdrop, htake, List.isEmpty_cons]

/-- The scanner takes one piece off a text that starts with it. -/
theorem scan_append {first : Bool} {p : Piece} {text after : List Char} {offset : Nat} (h : p.Spelled first text)
    (hfirst : first = decide (offset = 0)) (hends : p.Ends after) :
    scan offset (text ++ after) = following p.decode (offset + text.length) after := by
  cases h with
  | @first text hne hall =>
    have h0 : offset = 0 := by simpa using hfirst
    cases text with
    | nil => exact absurd rfl hne
    | cons c rest =>
      have hc := hall c List.mem_cons_self
      have hrest : ∀ d ∈ rest, inName d = true := fun d hd => hall d (List.mem_cons_of_mem _ hd)
      simp only [inName, Bool.not_eq_true', Bool.or_eq_false_iff, beq_eq_false_iff_ne] at hc
      rw [List.cons_append, scan]
      have hlen : 0 + 1 + rest.length = 0 + (c :: rest).length := by simp; omega
      simp only [hc.1.1, hc.1.2, hc.2, h0, ne_eq, not_true_eq_false, decide_false, Bool.or_self, Bool.false_eq_true,
        if_false, takeWhile_append_of_all hrest hends, dropWhile_append_of_all hrest hends, hlen]
      rfl
  | @later text hne hall =>
    have h0 : offset ≠ 0 := by simpa using hfirst
    have hempty : text.isEmpty = false := by simpa using hne
    have hlen : offset + 1 + text.length = offset + ('.' :: text).length := by simp; omega
    rw [List.cons_append, scan]
    simp only [h0, if_true, decide_false, Bool.false_or, takeWhile_append_of_all hall hends, hempty,
      dropWhile_append_of_all hall hends, Bool.false_eq_true, if_false, hlen]
    rfl
  | @quoted _ q part hq hpart =>
    have hb := bracket_quoted hq hpart after
    have htext : '[' :: q :: part ++ [q, ']'] ++ after = '[' :: (q :: part ++ q :: ']' :: after) := by simp
    rw [htext, scan_bracket offset hb]
    congr 1
    simp
    omega
  | @bare _ text hne hall =>
    have hb := bracket_bare hne hall after
    have htext : '[' :: text ++ [']'] ++ after = '[' :: (text ++ ']' :: after) := by simp
    rw [htext, scan_bracket offset hb]
    congr 1
    simp
    omega

/-- A row of pieces can end every piece: it starts with a dot or a bracket. -/
theorem Row.ends {ps : List Piece} {text : List Char} (h : Row ps text) (p : Piece) : p.Ends text := by
  have hhead : ∀ c ∈ text.head?, inName c = false := by
    cases h with
    | nil => simp
    | cons hp _ => cases hp <;> simp [inName]
  cases p with
  | name t => exact hhead
  | quoted q part | bare t => trivial

/-- The scanner reads a row of pieces one by one. -/
theorem scan_row {ps : List Piece} {text : List Char} (h : Row ps text) :
    ∀ {offset : Nat}, offset ≠ 0 → scan offset text = ps.mapM Piece.decode := by
  induction h with
  | nil => intro offset _; exact scan_nil offset
  | @cons p ps text rest hp hrow ih =>
    intro offset hoffset
    have hnext : offset + text.length ≠ 0 := by omega
    rw [scan_append hp (by simpa using hoffset) (hrow.ends p), following, ih hnext, List.mapM_cons]

/-- The scanner reads the pieces of a path one by one. -/
theorem scan_path {p : Piece} {ps : List Piece} {text rest : List Char} (hp : p.Spelled true text)
    (hrow : Row ps rest) : scan 0 (text ++ rest) = (p :: ps).mapM Piece.decode := by
  have hnext : 0 + text.length ≠ 0 := by
    cases hp with
    | first hne _ => simpa using hne
    | quoted _ _ | bare _ _ => simp
  rw [scan_append hp rfl (hrow.ends p), following, scan_row hrow hnext, List.mapM_cons]

/-! ## Roots -/

/-- The reader scans a text and takes the root off its segments. -/
theorem parse_eq_map {text : String} (hne : text ≠ "") :
    parse text = (scan 0 text.toList).map fun segs =>
      ⟨(rooted (text.toList.head? == some '[') segs).1, (rooted (text.toList.head? == some '[') segs).2, text⟩ := by
  have hempty : text.isEmpty = false := by simpa using hne
  simp only [parse, hempty]
  cases scan 0 text.toList <;> rfl

theorem rooted_bracketed (segs : List Segment) : rooted true segs = (.scope, segs) := by
  unfold rooted
  split <;> rfl

theorem rooted_plain {seg : Segment} (bracketed : Bool) (segs : List Segment) (hthis : seg ≠ .name "this")
    (hlast : seg ≠ .name "$") : rooted bracketed (seg :: segs) = (.scope, seg :: segs) := by
  unfold rooted
  split
  · rename_i h; cases h; exact absurd rfl hthis
  · rename_i h; cases h; exact absurd rfl hlast
  · rfl

/-- A text that starts with a name does not start with a bracket. -/
theorem head?_name_append {text after : List Char} (hne : text ≠ []) (hall : ∀ c ∈ text, inName c = true) :
    ((text ++ after).head? == some '[') = false := by
  cases text with
  | nil => exact absurd rfl hne
  | cons c text =>
    have hc : inName c = true := hall c List.mem_cons_self
    have hbracket : c ≠ '[' := by rintro rfl; cases hc
    simpa using hbracket

end ListScript.Path
