import ListScript.Proofs.PathScan

/-!
# Every path can be written, and is read back

The spellings of a path. An index is written in brackets or after a dot. A name is written in brackets between either
kind of quotes, with a backslash before each backslash and each such quote, and, if it holds none of the characters
that would end it, without quotes in brackets or after a dot. The text starts with `this`, with `$`, or with the first
segment.

- `unescape_escape`: dropping the backslashes undoes putting them;
- `segmentOf_digits`: the decimal form of a number is read as that number;
- `parse_spelling`: every spelling of a path is read as that path, and every path has a spelling.
-/

namespace ListScript.Path

/-! ## Escaped names -/

/-- A name with a backslash before each backslash and each quote `q`. -/
def escape (q : Char) (text : List Char) : List Char :=
  text.flatMap fun c => if c = '\\' ∨ c = q then ['\\', c] else [c]

theorem quotable_escape (q : Char) {text : List Char} (h : '\n' ∉ text) : Quotable q (escape q text) := by
  induction text with
  | nil => exact .nil
  | cons c text ih =>
    simp only [List.mem_cons, not_or] at h
    have hc : c ≠ '\n' := Ne.symm h.1
    rw [escape, List.flatMap_cons]
    split
    · exact .pair hc (ih h.2)
    · rename_i hplain
      simp only [not_or] at hplain
      exact .single hplain.1 hplain.2 hc (ih h.2)

theorem unescape_pair {d : Char} (h : d ≠ '\n') (rest : List Char) :
    unescape ('\\' :: d :: rest) = d :: unescape rest := by
  simp [unescape, h]

theorem unescape_single {c : Char} (h : c ≠ '\\') (rest : List Char) : unescape (c :: rest) = c :: unescape rest := by
  cases rest with
  | nil => rfl
  | cons d rest => simp [unescape, h]

/-- Dropping the backslashes of an escaped name gives the name. -/
theorem unescape_escape (q : Char) {text : List Char} (h : '\n' ∉ text) : unescape (escape q text) = text := by
  induction text with
  | nil => rfl
  | cons c text ih =>
    simp only [List.mem_cons, not_or] at h
    rw [escape, List.flatMap_cons]
    split
    · rw [List.cons_append, List.cons_append, List.nil_append, unescape_pair (Ne.symm h.1)]
      exact congrArg (c :: ·) (ih h.2)
    · rename_i hplain
      simp only [not_or] at hplain
      rw [List.cons_append, List.nil_append, unescape_single hplain.1]
      exact congrArg (c :: ·) (ih h.2)

/-! ## Decimal numbers -/

section Digits

variable {c : Char}

theorem toNat_of_isDigit (h : c.isDigit = true) : 48 ≤ c.toNat ∧ c.toNat ≤ 57 := by
  simp only [Char.isDigit, Bool.and_eq_true, decide_eq_true_eq, UInt32.le_iff_toNat_le] at h
  exact h

theorem isDigit_of_ascii (h : c.isDigit = true) : Text.isDigit c = true := by
  obtain ⟨hlow, hhigh⟩ := toNat_of_isDigit h
  rw [Text.isDigit, Text.digitRanges, Text.inRanges, if_neg (by omega)]
  simp [hhigh]

theorem decimal?_of_ascii (h : c.isDigit = true) : Text.decimal? c = some (c.toNat - 48) := by
  obtain ⟨hlow, hhigh⟩ := toNat_of_isDigit h
  rw [Text.decimal?, Text.decimalRanges, Text.decimalIn, if_neg (by omega), if_pos hhigh, Nat.mod_eq_of_lt (by omega)]

theorem isBlank_of_ascii (h : c.isDigit = true) : Text.isBlank c = false := by
  obtain ⟨hlow, hhigh⟩ := toNat_of_isDigit h
  simp only [Text.isBlank, Text.blankRanges, Text.inRanges]
  grind

theorem ne_of_isDigit {d : Char} (h : c.isDigit = true) (hd : d.isDigit = false) : c ≠ d := by
  rintro rfl
  rw [h] at hd
  cases hd

theorem inName_of_ascii (h : c.isDigit = true) : inName c = true := by
  simp [inName, ne_of_isDigit h (d := '.') rfl, ne_of_isDigit h (d := '[') rfl, ne_of_isDigit h (d := ']') rfl]

theorem inBare_of_ascii (h : c.isDigit = true) : inBare c = true := by
  simp [inBare, ne_of_isDigit h (d := ']') rfl, ne_of_isDigit h (d := '"') rfl, ne_of_isDigit h (d := '\x27') rfl]

end Digits

theorem isDigit_of_mem_decimalDigits {n : Nat} {c : Char} (h : c ∈ decimalDigits n) : c.isDigit = true :=
  Nat.isDigit_of_mem_toDigits (by omega) (by omega) h

theorem readDecimal_ascii {cs : List Char} (h : ∀ c ∈ cs, c.isDigit = true) :
    ∀ acc, Text.readDecimal acc cs = some (Nat.ofDigitChars 10 cs acc) := by
  induction cs with
  | nil => intro acc; rfl
  | cons c cs ih =>
    intro acc
    rw [Text.readDecimal, decimal?_of_ascii (h c List.mem_cons_self), Option.bind_some,
      ih (fun d hd => h d (List.mem_cons_of_mem _ hd))]
    rfl

theorem trim_of_no_blank {cs : List Char} (h : ∀ c ∈ cs, Text.isBlank c = false) : Text.trim cs = cs := by
  have hdrop : ∀ ds : List Char, (∀ c ∈ ds, Text.isBlank c = false) → ds.dropWhile Text.isBlank = ds := by
    intro ds hds
    cases ds with
    | nil => rfl
    | cons d ds => simp [hds d List.mem_cons_self]
  rw [Text.trim, hdrop cs h, hdrop cs.reverse (fun c hc => h c (List.mem_reverse.1 hc)), List.reverse_reverse]

/-- The decimal form of a number is read as the number. -/
theorem segmentOf_digits {n : Nat} (h : (decimalDigits n).length ≤ maxIntegerDigits) :
    segmentOf (decimalDigits n) = .ok (.index n) := by
  have hdigit : ∀ c ∈ decimalDigits n, c.isDigit = true := fun c => isDigit_of_mem_decimalDigits
  have hne : decimalDigits n ≠ [] := Nat.toDigits_ne_nil
  have hall : Text.allDigits (decimalDigits n) = true := by
    simp only [Text.allDigits, Bool.and_eq_true, Bool.not_eq_true', List.isEmpty_eq_false_iff, List.all_eq_true]
    exact ⟨hne, fun c hc => isDigit_of_ascii (hdigit c hc)⟩
  have hdecimal : ∀ c ∈ decimalDigits n, (Text.decimal? c).isSome = true := fun c hc => by
    rw [decimal?_of_ascii (hdigit c hc)]; rfl
  have hrun := @takeWhile_append_of_all _ _ [] hdecimal (by simp)
  rw [List.append_nil] at hrun
  have hlen : ¬ maxIntegerDigits < (decimalDigits n).length := Nat.not_lt.2 h
  have hvalue : Text.readDecimal 0 (decimalDigits n) = some n := by
    rw [readDecimal_ascii hdigit, decimalDigits, Nat.ofDigitChars_ten_toDigits]
  simp only [segmentOf, hall, if_true, hrun, hlen, if_false, hvalue]

/-! ## Spellings -/

/-- How a segment is written in brackets. -/
inductive Bracketed : Segment → List Char → Prop
  | index (n : Nat) : Bracketed (.index n) ('[' :: decimalDigits n ++ [']'])
  | quoted {q : Char} (t : String) : isQuote q → Bracketed (.name t) ('[' :: q :: escape q t.toList ++ [q, ']'])
  | bare {t : String} : t ≠ "" → Text.trim t.toList = t.toList → (∀ c ∈ t.toList, inBare c = true) →
      Text.allDigits t.toList = false → Bracketed (.name t) ('[' :: t.toList ++ [']'])

/-- How a segment is written without brackets, at the start of a path or after a dot. -/
inductive Plain : Segment → List Char → Prop
  | index (n : Nat) : Plain (.index n) (decimalDigits n)
  | name {t : String} : t ≠ "" → (∀ c ∈ t.toList, inName c = true) → Text.allDigits t.toList = false →
      Plain (.name t) t.toList

/-- How segments are written below a root or another segment. -/
inductive Below : List Segment → List Char → Prop
  | nil : Below [] []
  | bracketed {seg : Segment} {segs : List Segment} {text rest : List Char} : Bracketed seg text → Below segs rest →
      Below (seg :: segs) (text ++ rest)
  | dotted {seg : Segment} {segs : List Segment} {text rest : List Char} : Plain seg text → Below segs rest →
      Below (seg :: segs) ('.' :: text ++ rest)

/-- The spellings of a root and the segments below it. -/
inductive Spelling : Root → List Segment → List Char → Prop
  | this {segs : List Segment} {text : List Char} : Below segs text → Spelling .this segs ("this".toList ++ text)
  | lastValue {segs : List Segment} {text : List Char} : Below segs text → Spelling .lastValue segs ("$".toList ++ text)
  | bracketed {seg : Segment} {segs : List Segment} {text rest : List Char} : Bracketed seg text → Below segs rest →
      Spelling .scope (seg :: segs) (text ++ rest)
  | plain {seg : Segment} {segs : List Segment} {text rest : List Char} : Plain seg text → seg ≠ .name "this" →
      seg ≠ .name "$" → Below segs rest → Spelling .scope (seg :: segs) (text ++ rest)

/-- The segments that have a spelling: an index has at most so many digits, a name has no line break. -/
def Expressible : Segment → Prop
  | .index n => (decimalDigits n).length ≤ maxIntegerDigits
  | .name t => '\n' ∉ t.toList

/-! ## Reading a spelling -/

theorem segmentOf_name {t : String} (h : Text.allDigits t.toList = false) : segmentOf t.toList = .ok (.name t) := by
  simp [segmentOf, h]

/-- A segment in brackets is a piece that stands for it. -/
theorem Bracketed.piece {seg : Segment} {text : List Char} (h : Bracketed seg text) (hseg : Expressible seg) :
    ∃ p : Piece, p.decode = .ok seg ∧ ∀ first, p.Spelled first text := by
  cases h with
  | index n =>
    have hdigit : ∀ c ∈ decimalDigits n, c.isDigit = true := fun c => isDigit_of_mem_decimalDigits
    refine ⟨.bare (decimalDigits n), ?_, fun _ => .bare Nat.toDigits_ne_nil fun c hc => inBare_of_ascii (hdigit c hc)⟩
    rw [Piece.decode, trim_of_no_blank fun c hc => isBlank_of_ascii (hdigit c hc)]
    exact segmentOf_digits hseg
  | @quoted q t hq =>
    refine ⟨.quoted q (escape q t.toList), ?_, fun _ => .quoted hq (quotable_escape q hseg)⟩
    rw [Piece.decode, unescape_escape q hseg, String.ofList_toList]
  | @bare t hne htrim hall hdigits =>
    refine ⟨.bare t.toList, ?_, fun _ => .bare (by simpa using hne) hall⟩
    rw [Piece.decode, htrim]
    exact segmentOf_name hdigits

/-- A segment without brackets is a name that stands for it. -/
theorem Plain.piece {seg : Segment} {text : List Char} (h : Plain seg text) (hseg : Expressible seg) :
    (Piece.name text).decode = .ok seg ∧ text ≠ [] ∧ ∀ c ∈ text, inName c = true := by
  cases h with
  | index n =>
    exact ⟨segmentOf_digits hseg, Nat.toDigits_ne_nil, fun c hc => inName_of_ascii (isDigit_of_mem_decimalDigits hc)⟩
  | @name t hne hall hdigits => exact ⟨segmentOf_name hdigits, by simpa using hne, hall⟩

/-- Segments below a root are a row of pieces that stand for them. -/
theorem Below.pieces {segs : List Segment} {text : List Char} (h : Below segs text) :
    (∀ seg ∈ segs, Expressible seg) → ∃ ps, Row ps text ∧ ps.mapM Piece.decode = .ok segs := by
  induction h with
  | nil => intro _; exact ⟨[], .nil, rfl⟩
  | bracketed hseg _ ih =>
    intro hall
    obtain ⟨p, hp, hspelled⟩ := hseg.piece (hall _ List.mem_cons_self)
    obtain ⟨ps, hrow, hps⟩ := ih fun s hs => hall s (List.mem_cons_of_mem _ hs)
    exact ⟨p :: ps, .cons (hspelled false) hrow, by rw [List.mapM_cons, hp, hps]; rfl⟩
  | @dotted _ _ text _ hseg _ ih =>
    intro hall
    obtain ⟨hp, hne, hin⟩ := hseg.piece (hall _ List.mem_cons_self)
    obtain ⟨ps, hrow, hps⟩ := ih fun s hs => hall s (List.mem_cons_of_mem _ hs)
    exact ⟨.name text :: ps, .cons (.later hne hin) hrow, by rw [List.mapM_cons, hp, hps]; rfl⟩

/-- What the scanner finds in a text that starts with a piece. -/
theorem scan_below {p : Piece} {seg : Segment} {segs : List Segment} {text rest : List Char}
    (hspelled : p.Spelled true text) (hp : p.decode = .ok seg) (h : Below segs rest)
    (hall : ∀ seg ∈ segs, Expressible seg) : scan 0 (text ++ rest) = .ok (seg :: segs) := by
  obtain ⟨ps, hrow, hps⟩ := h.pieces hall
  rw [scan_path hspelled hrow, List.mapM_cons, hp, hps]
  rfl

theorem parse_of_scan {text : List Char} {segs : List Segment} (hne : text ≠ []) (h : scan 0 text = .ok segs) :
    parse (String.ofList text) = .ok ⟨(rooted (text.head? == some '[') segs).1,
      (rooted (text.head? == some '[') segs).2, String.ofList text⟩ := by
  rw [parse_eq_map (by simpa using hne), String.toList_ofList, h]
  rfl

/-- A text that starts with a root name is read as that root. -/
theorem parse_root {name : String} {root : Root} {segs : List Segment} {text : List Char}
    (hname : name.toList ≠ [] ∧ (∀ c ∈ name.toList, inName c = true) ∧ Text.allDigits name.toList = false)
    (hroot : rooted false (.name name :: segs) = (root, segs)) (h : Below segs text)
    (hall : ∀ seg ∈ segs, Expressible seg) :
    parse (String.ofList (name.toList ++ text)) = .ok ⟨root, segs, String.ofList (name.toList ++ text)⟩ := by
  obtain ⟨hne, hin, hdigits⟩ := hname
  have hscan := scan_below (.first hne hin) (segmentOf_name hdigits) h hall
  rw [parse_of_scan (by simp [hne]) hscan, head?_name_append hne hin, hroot]

theorem exists_below (segs : List Segment) : ∃ text, Below segs text := by
  induction segs with
  | nil => exact ⟨[], .nil⟩
  | cons seg segs ih =>
    obtain ⟨text, h⟩ := ih
    cases seg with
    | index n => exact ⟨_, .bracketed (.index n) h⟩
    | name t => exact ⟨_, .bracketed (.quoted t (.inl rfl)) h⟩

/-- Every root with segments below it has a spelling; the variables need a segment. -/
theorem exists_spelling {root : Root} {segs : List Segment} (h : root = .scope → segs ≠ []) :
    ∃ text, Spelling root segs text := by
  cases root with
  | this => exact (exists_below segs).imp' _ fun _ => .this
  | lastValue => exact (exists_below segs).imp' _ fun _ => .lastValue
  | scope =>
    cases segs with
    | nil => exact absurd rfl (h rfl)
    | cons seg segs =>
      obtain ⟨text, hbelow⟩ := exists_below segs
      cases seg with
      | index n => exact ⟨_, .bracketed (.index n) hbelow⟩
      | name t => exact ⟨_, .bracketed (.quoted t (.inl rfl)) hbelow⟩

/-- **Every path can be written, and each of its spellings is read as that path**, whichever spelling is chosen for each
segment and whatever stands next to it. -/
theorem parse_spelling {root : Root} {segs : List Segment} (hroot : root = .scope → segs ≠ [])
    (hall : ∀ seg ∈ segs, Expressible seg) :
    (∃ text, Spelling root segs text) ∧
      ∀ text, Spelling root segs text → parse (String.ofList text) = .ok ⟨root, segs, String.ofList text⟩ := by
  refine ⟨exists_spelling hroot, fun text h => ?_⟩
  cases h with
  | this h => exact parse_root ⟨by decide, List.all_eq_true.1 rfl, rfl⟩ rfl h hall
  | lastValue h => exact parse_root ⟨by decide, List.all_eq_true.1 rfl, rfl⟩ rfl h hall
  | @bracketed seg segs text rest hseg h =>
    obtain ⟨p, hp, hspelled⟩ := hseg.piece (hall seg List.mem_cons_self)
    have hscan := scan_below (hspelled true) hp h fun s hs => hall s (List.mem_cons_of_mem _ hs)
    have hhead : (text ++ rest).head? = some '[' := by cases hseg <;> rfl
    have hne : text ++ rest ≠ [] := by rintro e; rw [e] at hhead; cases hhead
    rw [parse_of_scan hne hscan, hhead, beq_self_eq_true, rooted_bracketed]
  | @plain seg segs text rest hseg hthis hlast h =>
    obtain ⟨hp, hne, hin⟩ := hseg.piece (hall seg List.mem_cons_self)
    have hscan := scan_below (.first hne hin) hp h fun s hs => hall s (List.mem_cons_of_mem _ hs)
    rw [parse_of_scan (by simp [hne]) hscan, rooted_plain _ _ hthis hlast]

/-- A key with a quote, a bracket and a backslash in it, followed by an index and a key with a dot. -/
theorem parse_spelling_awkward_key :
    parse (String.ofList ['[', '"', 'a', '\\', '"', ']', '\\', '\\', '"', ']', '.', '3', '[', '\x27', 'x', '.', 'y',
      '\x27', ']']) = .ok ⟨.scope, [.name "a\"]\\", .index 3, .name "x.y"],
        String.ofList ['[', '"', 'a', '\\', '"', ']', '\\', '\\', '"', ']', '.', '3', '[', '\x27', 'x', '.', 'y',
          '\x27', ']']⟩ := by
  have hall : ∀ seg ∈ [Segment.name "a\"]\\", .index 3, .name "x.y"], Expressible seg := by
    simp only [List.mem_cons, List.not_mem_nil, or_false]
    rintro seg (rfl | rfl | rfl)
    · exact fun h => absurd h (by decide)
    · exact show (decimalDigits 3).length ≤ maxIntegerDigits by decide
    · exact fun h => absurd h (by decide)
  have hread := (@parse_spelling .scope _ (by simp) hall).2
  exact hread _ (.bracketed (.quoted _ (.inl rfl)) (.dotted (.index 3) (.bracketed (.quoted _ (.inr rfl)) .nil)))

end ListScript.Path
