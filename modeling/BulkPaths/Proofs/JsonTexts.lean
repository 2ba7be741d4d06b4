import BulkPaths.Json.Reader
import BulkPaths.Json.Writer
import BulkPaths.Proofs.DecimalTexts
import BulkPaths.Proofs.TextLines

/-!
# JSON text reads back

What is written as JSON is read as the same value, whatever follows it. The writer escapes a
character as one UTF-16 unit or two, and the reader joins what the writer took apart; a number ends
where no digit, point or exponent follows; and the members of a record keep their order, because
they have different names.
-/

namespace BulkPaths.Json

open Text Decimal

variable {c : Char} {cs rest : List Char} {n : Nat}

theorem hexValue?_hexChar : ∀ d : Fin 16, hexValue? (hexChar d) = some d.val := by decide

theorem hexUnit?_hex (hn : n < 0x10000) :
    ∃ a b c d, hex 4 n = [a, b, c, d] ∧ hexUnit? a b c d = some n := by
  refine ⟨_, _, _, _, rfl, ?_⟩
  simp only [hexUnit?, hexValue?_hexChar]
  simp only [Fin.ofNat, Nat.shiftRight_eq_div_pow]
  simp only [Option.pure_def, Option.bind_eq_bind, Option.bind_some, Option.some.injEq]
  omega

/-- Puts a unit before those of a text that was scanned. -/
def prepend (before : List Nat) (scanned : Option (List Nat × List Char)) :
    Option (List Nat × List Char) :=
  scanned.map fun (units, after) => (before ++ units, after)

theorem scanText_escapeUnit (hn : n < 0x10000) (rest : List Char) :
    scanText (escapeUnit n ++ rest) = prepend [n] (scanText rest) := by
  obtain ⟨a, b, c, d, hhex, hunit⟩ := hexUnit?_hex hn
  rw [escapeUnit, hhex]
  simp only [List.cons_append, List.nil_append, scanText, hunit]
  cases scanText rest <;> rfl

theorem char_cases (c : Char) : c.toNat < 0xD800 ∨ 0xDFFF < c.toNat ∧ c.toNat < 0x110000 := c.valid

theorem scanText_units (c : Char) (rest : List Char) :
    scanText ((units c.toNat).flatMap escapeUnit ++ rest) =
      prepend (units c.toNat) (scanText rest) := by
  have hvalid := char_cases c
  unfold units
  split
  case isTrue hn => simpa using scanText_escapeUnit hn rest
  case isFalse hn =>
    simp only [List.flatMap_cons, List.flatMap_nil, List.append_nil, List.append_assoc]
    rw [scanText_escapeUnit (by omega), scanText_escapeUnit (by omega)]
    cases scanText rest <;> rfl

theorem scanText_simple {escaped : Char} (hu : escaped ≠ 'u')
    (hescape : simpleEscape? escaped = some n) (rest : List Char) :
    scanText ('\\' :: escaped :: rest) = prepend [n] (scanText rest) := by
  rw [scanText]
  · rw [hescape]
    cases scanText rest <;> rfl
  · rintro a b c d rest rfl
    exact absurd rfl hu

theorem scanText_plain (hquote : c ≠ '"') (hslash : c ≠ '\\') (hprint : 0x20 ≤ c.toNat)
    (rest : List Char) : scanText (c :: rest) = prepend [c.toNat] (scanText rest) := by
  rw [scanText]
  · rw [if_neg (not_lt.mpr hprint)]
    rfl
  · exact hquote
  · rintro a b d e rest rfl
    exact absurd rfl hslash
  · rintro d rest rfl
    exact absurd rfl hslash

theorem scanText_escape (c : Char) (rest : List Char) :
    scanText (escape c ++ rest) = prepend (units c.toNat) (scanText rest) := by
  have hunits : c.toNat < 0x10000 → units c.toNat = [c.toNat] := fun h => if_pos h
  unfold escape
  split_ifs with hquote hline hreturn htab hback hfeed hprint
  · rcases hquote with rfl | rfl
    · exact scanText_simple (by decide) rfl rest
    · exact scanText_simple (by decide) rfl rest
  · subst hline
    exact scanText_simple (by decide) rfl rest
  · subst hreturn
    exact scanText_simple (by decide) rfl rest
  · subst htab
    exact scanText_simple (by decide) rfl rest
  · rw [hunits (by omega), hback]
    exact scanText_simple (by decide) rfl rest
  · rw [hunits (by omega), hfeed]
    exact scanText_simple (by decide) rfl rest
  · obtain ⟨hnotQuote, hnotSlash⟩ := not_or.mp hquote
    rw [hunits (by omega)]
    exact scanText_plain hnotQuote hnotSlash hprint.1 rest
  · exact scanText_units c rest

theorem joinUnits_units (c : Char) (rest : List Nat) :
    joinUnits (units c.toNat ++ rest) = c :: joinUnits rest := by
  have hvalid := char_cases c
  unfold units
  split
  case isTrue hn =>
    have hsingle : joinUnits.single c.toNat = c := by
      rw [joinUnits.single, if_neg (by omega), Char.ofNat_toNat]
    cases rest with
    | nil => exact congrArg (fun d => [d]) hsingle
    | cons low rest =>
        rw [List.singleton_append, joinUnits, if_neg (by omega), hsingle]
  case isFalse hn =>
    rw [List.cons_append, List.singleton_append, joinUnits, if_pos (by omega)]
    have hsum : 0x10000 + (0xD800 + (c.toNat - 0x10000) / 0x400 - 0xD800) * 0x400 +
        (0xDC00 + (c.toNat - 0x10000) % 0x400 - 0xDC00) = c.toNat := by omega
    rw [hsum, Char.ofNat_toNat]

theorem scanText_quoted (cs rest : List Char) :
    ∃ units, scanText (cs.flatMap escape ++ '"' :: rest) = some (units, rest) ∧
      joinUnits units = cs := by
  induction cs with
  | nil => exact ⟨[], rfl, rfl⟩
  | cons c cs ih =>
      obtain ⟨following, hscan, hjoin⟩ := ih
      refine ⟨units c.toNat ++ following, ?_, ?_⟩
      · rw [List.flatMap_cons, List.append_assoc, scanText_escape, hscan]
        rfl
      · rw [joinUnits_units, hjoin]

section Numbers

variable {whole tail digits : List Char} {negative : Bool}

/-- What comes next does not go on with a number. -/
def EndsNumber (rest : List Char) : Prop :=
  ∀ c, rest.head? = some c → ¬c.isDigit ∧ c ≠ '.' ∧ c ≠ 'e' ∧ c ≠ 'E'

theorem isAsciiDigit_eq : isAsciiDigit = Char.isDigit := rfl

theorem span_digits (hdigits : IsDigits digits) (hrest : ∀ c, rest.head? = some c → ¬c.isDigit) :
    (digits ++ rest).span isAsciiDigit = (digits, rest) := by
  rw [isAsciiDigit_eq]
  exact span_append hdigits hrest

theorem takeWhole?_append (hdigits : IsDigits whole)
    (hleads : whole = ['0'] ∨ whole ≠ [] ∧ whole.head? ≠ some '0')
    (hrest : ∀ c, rest.head? = some c → ¬c.isDigit) :
    takeWhole? (whole ++ rest) = some (whole, rest) := by
  rcases hleads with rfl | ⟨hne, hhead⟩
  · rfl
  · unfold takeWhole?
    split
    case h_1 heq =>
      rw [← List.head?_append_of_ne_nil whole hne, heq] at hhead
      exact absurd rfl hhead
    case h_2 =>
      rw [span_digits hdigits hrest]
      simp [hne]

theorem takeFraction_point (hdigits : IsDigits tail) (hne : tail ≠ [])
    (hrest : ∀ c, rest.head? = some c → ¬c.isDigit) :
    takeFraction ('.' :: (tail ++ rest)) = (tail, rest) := by
  simp only [takeFraction]
  rw [span_digits hdigits hrest]
  simp [hne]

theorem takeFraction_none (hrest : rest.head? ≠ some '.') : takeFraction rest = ([], rest) := by
  unfold takeFraction
  split
  case h_1 => exact absurd rfl hrest
  case h_2 => rfl

theorem takeExponent?_power (hdigits : IsDigits digits) (hne : digits ≠ [])
    (hrest : ∀ c, rest.head? = some c → ¬c.isDigit) :
    takeExponent? ('e' :: Spelling.signChar negative :: (digits ++ rest)) =
      some (withSign negative (digitsValue digits), rest) := by
  have hsign : takeSign (Spelling.signChar negative :: (digits ++ rest)) =
      (negative, digits ++ rest) := by
    cases negative <;> rfl
  simp only [takeExponent?, hsign]
  rw [span_digits hdigits hrest]
  simp [hne]

theorem takeExponent?_none (hsmall : rest.head? ≠ some 'e') (hlarge : rest.head? ≠ some 'E') :
    takeExponent? rest = none := by
  cases rest with
  | nil => rfl
  | cons c rest =>
      have hsmall : c ≠ 'e' := fun h => hsmall (congrArg some h)
      have hlarge : c ≠ 'E' := fun h => hlarge (congrArg some h)
      simp [takeExponent?, hsmall, hlarge]

theorem scanNumber_spelling (s : Spelling) (negative : Bool) (hrest : EndsNumber rest) :
    scanNumber negative (s.chars ++ rest) =
      .ok (.real (Binary64.ofDecimal negative s.digits s.exponent), rest) := by
  have hpower : ∀ c, (s.powerChars ++ rest).head? = some c → ¬c.isDigit ∧ c ≠ '.' := by
    intro c hc
    unfold Spelling.powerChars at hc
    split at hc
    · exact ⟨(hrest c hc).1, (hrest c hc).2.1⟩
    · cases hc
      decide
  have hpoint : ∀ c, (s.pointChars ++ (s.powerChars ++ rest)).head? = some c → ¬c.isDigit := by
    intro c hc
    unfold Spelling.pointChars at hc
    split at hc
    · exact (hpower c hc).1
    · cases hc
      decide
  have hfraction : takeFraction (s.pointChars ++ (s.powerChars ++ rest)) =
      (s.tail, s.powerChars ++ rest) := by
    unfold Spelling.pointChars
    split
    case isTrue hnone =>
      rw [hnone]
      exact takeFraction_none fun hhead => (hpower '.' hhead).2 rfl
    case isFalse hsome =>
      exact takeFraction_point s.digits_tail hsome fun c hc => (hpower c hc).1
  unfold scanNumber Spelling.chars
  rw [List.append_assoc, List.append_assoc, takeWhole?_append s.digits_whole s.leads hpoint]
  dsimp only
  rw [hfraction]
  dsimp only
  unfold Spelling.exponent Spelling.powerValue Spelling.powerChars
  cases hsome : s.power with
  | none =>
      have hnot : takeExponent? rest = none :=
        takeExponent?_none (fun hhead => (hrest 'e' hhead).2.2.1 rfl)
          fun hhead => (hrest 'E' hhead).2.2.2 rfl
      have htail : s.tail.isEmpty = false := by
        simpa using s.pointed.resolve_right (not_not.mpr hsome)
      rw [List.nil_append, hnot, htail, zero_sub]
      rfl
  | some power =>
      obtain ⟨sign, digits⟩ := power
      obtain ⟨hdigits, hne⟩ := s.digits_power sign digits hsome
      rw [List.cons_append, List.cons_append,
        takeExponent?_power hdigits hne fun c hc => (hrest c hc).1]
      rfl

theorem scanNumber_toDigits (negative : Bool) (n : Nat) (hrest : EndsNumber rest) :
    scanNumber negative (Nat.toDigits 10 n ++ rest) =
      if digitLimit < (Nat.toDigits 10 n).length then .error .longNumeral
      else .ok (.int (withSign negative n), rest) := by
  have hleads : Nat.toDigits 10 n = ['0'] ∨
      Nat.toDigits 10 n ≠ [] ∧ (Nat.toDigits 10 n).head? ≠ some '0' := by
    rcases Nat.eq_zero_or_pos n with rfl | hpos
    · exact .inl rfl
    · exact .inr ⟨Nat.toDigits_ne_nil, head?_toDigits hpos⟩
  have hfraction := takeFraction_none fun hhead => (hrest '.' hhead).2.1 rfl
  have hexponent := takeExponent?_none (fun hhead => (hrest 'e' hhead).2.2.1 rfl)
    fun hhead => (hrest 'E' hhead).2.2.2 rfl
  unfold scanNumber
  rw [takeWhole?_append (isDigits_toDigits n) hleads fun c hc => (hrest c hc).1]
  dsimp only
  rw [hfraction]
  dsimp only
  rw [hexponent]
  by_cases hlong : digitLimit < (Nat.toDigits 10 n).length
  · simp only [List.isEmpty_nil, if_true, limited, if_pos hlong]
  · simp only [List.isEmpty_nil, if_true, limited, if_neg hlong, digitsValue_toDigits]

/-- No word begins with a digit, nor with a minus and a digit. -/
theorem scanScalar_signed (negative : Bool) {cs : List Char}
    (hhead : ∃ c, cs.head? = some c ∧ c.isDigit) :
    scanScalar (signChars negative cs) = scanNumber negative cs := by
  obtain ⟨c, hc, hdigit⟩ := hhead
  obtain ⟨rest, rfl⟩ := List.head?_eq_some_iff.mp hc
  have hmem := mem_digits_of_isDigit hdigit
  cases negative <;> fin_cases hmem <;> rfl

theorem scanScalar_toString (n : Int) (hrest : EndsNumber rest) :
    scanScalar ((toString n).toList ++ rest) =
      if digitLimit < (Nat.toDigits 10 n.natAbs).length then .error .longNumeral
      else .ok (.int n, rest) := by
  have hhead := exists_digit_head (isDigits_toDigits n.natAbs) Nat.toDigits_ne_nil rest
  rw [toList_toString_int, signChars_append, scanScalar_signed _ hhead,
    scanNumber_toDigits _ _ hrest, withSign_natAbs]

theorem scanScalar_int {n : Int} (hn : Printable n) (hrest : EndsNumber rest) :
    scanScalar ((toString n).toList ++ rest) = .ok (.int n, rest) := by
  rw [scanScalar_toString n hrest, if_neg (not_lt.mpr hn)]

theorem scanScalar_number (x : Float) (hrest : EndsNumber rest) :
    scanScalar ((number x).toList ++ rest) = .ok (.real x, rest) := by
  unfold number
  split
  case h_1 hshape =>
    rw [Binary64.eq_nan_of_shape hshape]
    rfl
  case h_2 hshape =>
    rw [Binary64.eq_infinity_of_shape hshape]
    rfl
  case h_3 hshape =>
    rw [Binary64.eq_infinity_of_shape hshape]
    rfl
  case h_4 hshape =>
    obtain ⟨s, hchars, hvalue⟩ := exists_spelling_of_shape hshape
    rw [hchars, signChars_append, scanScalar_signed, scanNumber_spelling s _ hrest, hvalue]
    rw [Spelling.chars, List.append_assoc]
    exact exists_digit_head s.digits_whole s.whole_ne_nil _

end Numbers

/-- The values of JSON that are read back: no number has too many digits, the names of a record are
different, and at most `depth` lists and records lie within one another. -/
inductive Fits : Nat → Value → Prop
  | null {depth : Nat} : Fits depth .null
  | bool {depth : Nat} (b : Bool) : Fits depth (.bool b)
  | int {depth : Nat} {n : Int} (short : Printable n) : Fits depth (.int n)
  | real {depth : Nat} (x : Float) : Fits depth (.real x)
  | text {depth : Nat} (s : String) : Fits depth (.text s)
  | list {depth : Nat} {items : List Value} (fit : ∀ item ∈ items, Fits depth item) :
      Fits (depth + 1) (.list items)
  | record {depth : Nat} {fields : Properties} (distinct : (Assoc.keys fields).Nodup)
      (fit : ∀ field ∈ fields, Fits depth field.2) : Fits (depth + 1) (.record fields)

theorem Fits.mono {depth depth' : Nat} {value : Value} (h : Fits depth value)
    (hle : depth ≤ depth') : Fits depth' value := by
  induction h generalizing depth' with
  | null => exact .null
  | bool b => exact .bool b
  | int short => exact .int short
  | real x => exact .real x
  | text s => exact .text s
  | list _ ih =>
      obtain ⟨inner, rfl⟩ := Nat.exists_eq_succ_of_ne_zero (Nat.ne_zero_of_lt hle)
      exact .list fun item hitem => ih item hitem (Nat.le_of_succ_le_succ hle)
  | record distinct _ ih =>
      obtain ⟨inner, rfl⟩ := Nat.exists_eq_succ_of_ne_zero (Nat.ne_zero_of_lt hle)
      exact .record distinct fun field hfield => ih field hfield (Nat.le_of_succ_le_succ hle)

section Values

variable {depth fuel : Nat} {value : Value} {items : List Value} {fields : Properties}

theorem writeItems_eq (items : List Value) : writeItems items = items.map write := by
  induction items with
  | nil => rfl
  | cons item items ih => rw [writeItems, ih, List.map_cons]

def writeField (field : String × Value) : String := quote field.1 ++ ": " ++ write field.2

theorem writeFields_eq (fields : Properties) : writeFields fields = fields.map writeField := by
  induction fields with
  | nil => rfl
  | cons field fields ih => rw [writeFields, ih, List.map_cons, writeField]

theorem commaSeparated_singleton (text : String) :
    (Value.commaSeparated [text]).toList = text.toList := by
  rw [Value.commaSeparated, String.toList_intercalate]
  exact List.intercalate_singleton

theorem commaSeparated_cons (text next : String) (texts : List String) :
    (Value.commaSeparated (text :: next :: texts)).toList =
      text.toList ++ ',' :: ' ' :: (Value.commaSeparated (next :: texts)).toList := by
  simp only [Value.commaSeparated, String.toList_intercalate, List.map_cons,
    List.intercalate_cons_cons, List.append_assoc]
  rfl

/-- A value begins with a character that is no space and ends no list or record. -/
def Opens (cs : List Char) : Prop :=
  ∃ c rest, cs = c :: rest ∧ isSpace c = false ∧ c ≠ ']' ∧ c ≠ '\x7d'

/-- A word or a number begins with a letter of few, with a minus or with a digit. -/
def OpensScalar (cs : List Char) : Prop :=
  ∃ c rest, cs = c :: rest ∧ (c ∈ ['n', 't', 'f', 'N', 'I', '-'] ∨ c.isDigit)

theorem opensScalar_signChars (negative : Bool) (hhead : ∃ c, cs.head? = some c ∧ c.isDigit) :
    OpensScalar (signChars negative cs) := by
  obtain ⟨c, hc, hdigit⟩ := hhead
  obtain ⟨rest, rfl⟩ := List.head?_eq_some_iff.mp hc
  cases negative with
  | true => exact ⟨'-', _, rfl, .inl (by decide)⟩
  | false => exact ⟨c, rest, rfl, .inr hdigit⟩

theorem opensScalar_int (n : Int) : OpensScalar (toString n).toList := by
  rw [toList_toString_int, ← List.append_nil (Nat.toDigits _ _)]
  exact opensScalar_signChars _
    (exists_digit_head (isDigits_toDigits _) Nat.toDigits_ne_nil _)

theorem opensScalar_number (x : Float) : OpensScalar (number x).toList := by
  unfold number
  split
  case h_1 => exact ⟨'N', _, rfl, .inl (by decide)⟩
  case h_2 => exact ⟨'-', _, rfl, .inl (by decide)⟩
  case h_3 => exact ⟨'I', _, rfl, .inl (by decide)⟩
  case h_4 hshape =>
    obtain ⟨s, hchars, _⟩ := exists_spelling_of_shape hshape
    rw [hchars, Spelling.chars]
    exact opensScalar_signChars _ (exists_digit_head s.digits_whole s.whole_ne_nil _)

theorem scalar_opener (h : c ∈ ['n', 't', 'f', 'N', 'I', '-'] ∨ c.isDigit) :
    isSpace c = false ∧ c ∉ ['"', '[', ']', '\x7b', '\x7d'] := by
  rcases h with hletter | hdigit
  · fin_cases hletter <;> decide
  · have hmem := mem_digits_of_isDigit hdigit
    fin_cases hmem <;> decide

theorem OpensScalar.opens (h : OpensScalar cs) : Opens cs := by
  obtain ⟨c, rest, rfl, hc⟩ := h
  obtain ⟨hspace, hplain⟩ := scalar_opener hc
  simp only [List.mem_cons, not_or] at hplain
  exact ⟨c, rest, rfl, hspace, hplain.2.2.1, hplain.2.2.2.2.1⟩

theorem toList_quote (s : String) :
    (quote s).toList = '"' :: (s.toList.flatMap escape ++ ['"']) := by
  rw [quote, String.toList_ofList, List.cons_append]

theorem toList_write_list (items : List Value) :
    (write (.list items)).toList =
      '[' :: ((Value.commaSeparated (items.map write)).toList ++ [']']) := by
  rw [write, writeItems_eq]
  simp [String.toList_append]

theorem toList_write_record (fields : Properties) :
    (write (.record fields)).toList =
      '\x7b' :: ((Value.commaSeparated (fields.map writeField)).toList ++ ['\x7d']) := by
  rw [write, writeFields_eq]
  simp [String.toList_append]

theorem opens_write (value : Value) : Opens (write value).toList := by
  cases value with
  | null => exact ⟨'n', _, rfl, by decide, by decide⟩
  | bool b => cases b <;> exact ⟨_, _, rfl, by decide, by decide⟩
  | int n => exact (opensScalar_int n).opens
  | real x => exact (opensScalar_number x).opens
  | text s =>
      rw [write, toList_quote]
      exact ⟨'"', _, rfl, by decide, by decide⟩
  | uuid u =>
      rw [write, toList_quote]
      exact ⟨'"', _, rfl, by decide, by decide⟩
  | list items =>
      rw [toList_write_list]
      exact ⟨'[', _, rfl, by decide, by decide⟩
  | record fields =>
      rw [toList_write_record]
      exact ⟨'\x7b', _, rfl, by decide, by decide⟩

theorem skipSpace_of_opens (h : Opens cs) (rest : List Char) :
    skipSpace (cs ++ rest) = cs ++ rest := by
  obtain ⟨c, more, rfl, hspace, _⟩ := h
  simp [skipSpace, hspace]

/-- The value is scanned off its text, whatever follows. -/
def Scans (depth : Nat) (value : Value) : Prop :=
  ∀ fuel rest, 2 * (write value).toList.length ≤ fuel → EndsNumber rest →
    scanValue fuel depth ((write value).toList ++ rest) = .ok (value, rest)

theorem endsNumber_cons (hdigit : ¬c.isDigit) (hpoint : c ≠ '.') (hsmall : c ≠ 'e')
    (hlarge : c ≠ 'E') (rest : List Char) : EndsNumber (c :: rest) := by
  rintro d hd
  cases hd
  exact ⟨hdigit, hpoint, hsmall, hlarge⟩

theorem opens_commaSeparated {text : String} (h : Opens text.toList) (texts : List String) :
    Opens (Value.commaSeparated (text :: texts)).toList := by
  obtain ⟨c, more, htext, hc⟩ := h
  cases texts with
  | nil =>
      rw [commaSeparated_singleton]
      exact ⟨c, more, htext, hc⟩
  | cons next texts =>
      rw [commaSeparated_cons, htext]
      exact ⟨c, _, rfl, hc⟩

theorem scanItems_write (hne : items ≠ []) (hitems : ∀ item ∈ items, Scans depth item)
    (hfuel : 2 * (Value.commaSeparated (items.map write)).toList.length + 1 ≤ fuel)
    (rest : List Char) :
    scanItems fuel depth ((Value.commaSeparated (items.map write)).toList ++ ']' :: rest) =
      .ok (items, rest) := by
  induction items generalizing fuel with
  | nil => exact absurd rfl hne
  | cons item items ih =>
      have hitem := hitems item List.mem_cons_self
      obtain ⟨fuel, rfl⟩ : ∃ k, fuel = k + 1 := ⟨fuel - 1, by omega⟩
      cases items with
      | nil =>
          rw [List.map_singleton, commaSeparated_singleton] at hfuel ⊢
          have hscan := hitem fuel (']' :: rest) (by omega)
            (endsNumber_cons (by decide) (by decide) (by decide) (by decide) _)
          rw [scanItems, hscan]
          rfl
      | cons next items =>
          have hnext : Opens (Value.commaSeparated ((next :: items).map write)).toList :=
            opens_commaSeparated (opens_write next) _
          rw [List.map_cons, List.map_cons, commaSeparated_cons, ← List.map_cons] at hfuel ⊢
          simp only [List.length_append, List.length_cons] at hfuel
          have hscan := hitem fuel
            (',' :: ' ' :: (Value.commaSeparated ((next :: items).map write)).toList ++ ']' :: rest)
            (by omega) (endsNumber_cons (by decide) (by decide) (by decide) (by decide) _)
          have hlater := @ih fuel (List.cons_ne_nil _ _)
            (fun later hlater => hitems later (List.mem_cons_of_mem _ hlater)) (by omega)
          rw [List.append_assoc, scanItems, hscan]
          change Except.bind (scanItems fuel depth (skipSpace
            ((Value.commaSeparated ((next :: items).map write)).toList ++ ']' :: rest))) _ = _
          rw [skipSpace_of_opens hnext, hlater]
          rfl

theorem toList_writeField (field : String × Value) (rest : List Char) :
    (writeField field).toList ++ rest = '"' :: (field.1.toList.flatMap escape ++
      '"' :: ':' :: ' ' :: ((write field.2).toList ++ rest)) := by
  simp [writeField, toList_quote, String.toList_append]

theorem opens_writeField (field : String × Value) : Opens (writeField field).toList := by
  have hchars := toList_writeField field []
  rw [List.append_nil] at hchars
  rw [hchars]
  exact ⟨'"', _, rfl, by decide, by decide⟩

/-- A member is scanned off, and what follows says whether the record ends or goes on. -/
theorem scanMembers_field {before : Properties} {field : String × Value}
    (hfield : Scans depth field.2)
    (hnew : field.1 ∉ Assoc.keys before) (hfuel : 2 * (write field.2).toList.length ≤ fuel)
    (hrest : EndsNumber rest) :
    (∀ after, skipSpace rest = '\x7d' :: after →
      scanMembers (fuel + 1) depth before ((writeField field).toList ++ rest) =
        .ok (before ++ [field], after)) ∧
    ∀ after, skipSpace rest = ',' :: after →
      scanMembers (fuel + 1) depth before ((writeField field).toList ++ rest) =
        scanMembers fuel depth (before ++ [field]) (skipSpace after) := by
  obtain ⟨units, hscan, hjoin⟩ := scanText_quoted field.1.toList
    (':' :: ' ' :: ((write field.2).toList ++ rest))
  have hname : String.ofList (joinUnits units) = field.1 := by rw [hjoin, String.ofList_toList]
  have hvalue := hfield fuel rest hfuel hrest
  rw [← skipSpace_of_opens (opens_write field.2) rest] at hvalue
  rw [toList_writeField, scanMembers, hscan]
  change (∀ after, _ →
      Except.bind (scanValue fuel depth (skipSpace ((write field.2).toList ++ rest))) _ = _) ∧
    ∀ after, _ →
      Except.bind (scanValue fuel depth (skipSpace ((write field.2).toList ++ rest))) _ = _
  rw [hvalue]
  dsimp only [Except.bind]
  rw [hname, Assoc.put_of_not_mem _ hnew]
  constructor
  · intro after hafter
    rewrite [hafter]
    rfl
  · intro after hafter
    rewrite [hafter]
    rfl

theorem scanMembers_write {before : Properties} (hne : fields ≠ [])
    (hfields : ∀ field ∈ fields, Scans depth field.2)
    (hdistinct : (Assoc.keys (before ++ fields)).Nodup)
    (hfuel : 2 * (Value.commaSeparated (fields.map writeField)).toList.length ≤ fuel)
    (rest : List Char) :
    scanMembers fuel depth before
        ((Value.commaSeparated (fields.map writeField)).toList ++ '\x7d' :: rest) =
      .ok (before ++ fields, rest) := by
  induction fields generalizing fuel before with
  | nil => exact absurd rfl hne
  | cons field fields ih =>
      have hfield := hfields field List.mem_cons_self
      have hnew : field.1 ∉ Assoc.keys before := by
        rw [Assoc.keys_append, List.nodup_append] at hdistinct
        exact fun hmem => hdistinct.2.2 _ hmem _ List.mem_cons_self rfl
      have hlength : (write field.2).toList.length < (writeField field).toList.length := by
        have hchars := congrArg List.length (toList_writeField field [])
        simp only [List.append_nil, List.length_append, List.length_cons] at hchars
        omega
      cases fields with
      | nil =>
          rw [List.map_singleton, commaSeparated_singleton] at hfuel ⊢
          obtain ⟨fuel, rfl⟩ : ∃ k, fuel = k + 1 := ⟨fuel - 1, by omega⟩
          have hend : EndsNumber ('\x7d' :: rest) :=
            endsNumber_cons (by decide) (by decide) (by decide) (by decide) _
          exact (scanMembers_field hfield hnew (by omega) hend).1 rest rfl
      | cons next fields =>
          have hnext : Opens (Value.commaSeparated ((next :: fields).map writeField)).toList :=
            opens_commaSeparated (opens_writeField next) _
          rw [List.map_cons, List.map_cons, commaSeparated_cons, ← List.map_cons] at hfuel ⊢
          simp only [List.length_append, List.length_cons] at hfuel
          obtain ⟨fuel, rfl⟩ : ∃ k, fuel = k + 1 := ⟨fuel - 1, by omega⟩
          have hlater := @ih fuel (before ++ [field]) (List.cons_ne_nil _ _)
            (fun later hlater => hfields later (List.mem_cons_of_mem _ hlater))
            (by rwa [List.append_cons] at hdistinct) (by omega)
          have hend : EndsNumber (',' :: ' ' ::
              ((Value.commaSeparated ((next :: fields).map writeField)).toList ++
                '\x7d' :: rest)) :=
            endsNumber_cons (by decide) (by decide) (by decide) (by decide) _
          rw [List.append_assoc, List.cons_append, List.cons_append]
          refine ((scanMembers_field hfield hnew (by omega) hend).2 _ rfl).trans ?_
          change scanMembers fuel depth (before ++ [field]) (skipSpace
            ((Value.commaSeparated ((next :: fields).map writeField)).toList ++ '\x7d' :: rest)) = _
          rw [skipSpace_of_opens hnext, hlater, List.append_assoc, List.singleton_append]

theorem scanValue_list (hopens : Opens cs) (rest : List Char) :
    scanValue (fuel + 1) (depth + 1) ('[' :: (cs ++ rest)) =
      (scanItems fuel depth (cs ++ rest)).map fun (items, after) => (.list items, after) := by
  rw [scanValue]
  simp only [Nat.add_one_ne_zero, if_false, Nat.add_sub_cancel]
  rw [skipSpace_of_opens hopens]
  obtain ⟨c, more, rfl, _, hclose, _⟩ := hopens
  split
  case h_1 heq => exact absurd (List.cons.inj heq).1 hclose
  case h_2 => rfl

theorem scanValue_record (hopens : Opens cs) (rest : List Char) :
    scanValue (fuel + 1) (depth + 1) ('\x7b' :: (cs ++ rest)) =
      (scanMembers fuel depth [] (cs ++ rest)).map fun (fields, after) =>
        (.record fields, after) := by
  rw [scanValue]
  simp only [Nat.add_one_ne_zero, if_false, Nat.add_sub_cancel]
  rw [skipSpace_of_opens hopens]
  obtain ⟨c, more, rfl, _, _, hclose⟩ := hopens
  split
  case h_1 heq => exact absurd (List.cons.inj heq).1 hclose
  case h_2 => rfl

theorem Scans.list (hitems : ∀ item ∈ items, Scans depth item) :
    Scans (depth + 1) (.list items) := by
  intro fuel rest hfuel _
  rw [toList_write_list] at hfuel ⊢
  simp only [List.length_cons, List.length_append, List.length_nil] at hfuel
  obtain ⟨fuel, rfl⟩ : ∃ k, fuel = k + 1 := ⟨fuel - 1, by omega⟩
  cases items with
  | nil => rfl
  | cons item items =>
      have hfirst := opens_commaSeparated (opens_write item) (items.map write)
      rw [List.cons_append, List.append_assoc, List.map_cons, scanValue_list hfirst,
        ← List.map_cons, List.singleton_append,
        scanItems_write (List.cons_ne_nil item items) hitems (by omega)]
      rfl

theorem Scans.record (hdistinct : (Assoc.keys fields).Nodup)
    (hfields : ∀ field ∈ fields, Scans depth field.2) : Scans (depth + 1) (.record fields) := by
  intro fuel rest hfuel _
  rw [toList_write_record] at hfuel ⊢
  simp only [List.length_cons, List.length_append, List.length_nil] at hfuel
  obtain ⟨fuel, rfl⟩ : ∃ k, fuel = k + 1 := ⟨fuel - 1, by omega⟩
  cases fields with
  | nil => rfl
  | cons field fields =>
      have hfirst := opens_commaSeparated (opens_writeField field) (fields.map writeField)
      rw [List.cons_append, List.append_assoc, List.map_cons, scanValue_record hfirst,
        ← List.map_cons, List.singleton_append,
        scanMembers_write (List.cons_ne_nil field fields) hfields hdistinct (by omega)]
      rfl

theorem Scans.text (s : String) : Scans depth (.text s) := by
  intro fuel rest hfuel _
  rw [write, toList_quote] at hfuel ⊢
  obtain ⟨fuel, rfl⟩ : ∃ k, fuel = k + 1 := ⟨fuel - 1, by simp at hfuel; omega⟩
  obtain ⟨units, hscan, hjoin⟩ := scanText_quoted s.toList rest
  rw [List.cons_append, List.append_assoc, List.singleton_append, scanValue, hscan]
  simp only [hjoin, String.ofList_toList]

theorem scanValue_of_opensScalar (h : OpensScalar cs) (rest : List Char) :
    scanValue (fuel + 1) depth (cs ++ rest) = scanScalar (cs ++ rest) := by
  obtain ⟨c, more, rfl, hc⟩ := h
  obtain ⟨_, hplain⟩ := scalar_opener hc
  simp only [List.mem_cons, not_or] at hplain
  rw [List.cons_append]
  unfold scanValue
  split
  case h_1 heq => exact absurd (List.cons.inj heq).1 hplain.1
  case h_2 heq => exact absurd (List.cons.inj heq).1 hplain.2.1
  case h_3 heq => exact absurd (List.cons.inj heq).1 hplain.2.2.2.1
  case h_4 => rfl

theorem Scans.scalar (hopens : OpensScalar (write value).toList)
    (hscan : ∀ rest, EndsNumber rest →
      scanScalar ((write value).toList ++ rest) = .ok (value, rest)) : Scans depth value := by
  intro fuel rest hfuel hrest
  have hlength : 0 < (write value).toList.length := by
    obtain ⟨c, more, heq, -⟩ := hopens
    rw [heq]
    exact Nat.succ_pos _
  obtain ⟨fuel, rfl⟩ : ∃ k, fuel = k + 1 := ⟨fuel - 1, by omega⟩
  rw [scanValue_of_opensScalar hopens, hscan rest hrest]

theorem Fits.scans (h : Fits depth value) : Scans depth value := by
  induction h with
  | null => exact .scalar ⟨'n', _, rfl, .inl (by decide)⟩ fun _ _ => rfl
  | bool b =>
      cases b with
      | true => exact .scalar ⟨'t', _, rfl, .inl (by decide)⟩ fun _ _ => rfl
      | false => exact .scalar ⟨'f', _, rfl, .inl (by decide)⟩ fun _ _ => rfl
  | int short => exact .scalar (opensScalar_int _) fun _ => scanScalar_int short
  | real x => exact .scalar (opensScalar_number x) fun _ => scanScalar_number x
  | text s => exact .text s
  | list _ ih => exact .list ih
  | record distinct _ ih => exact .record distinct ih

/-- What is written is read back, with the members of records in their order. -/
theorem readWithin_write (h : Fits depth value) :
    readWithin depth (write value).toList = .ok value := by
  have hscan := h.scans (2 * (write value).toList.length + 2) [] (by omega) nofun
  have hskip := skipSpace_of_opens (opens_write value) []
  rw [List.append_nil] at hscan hskip
  rw [readWithin, hskip, hscan]
  rfl

end Values

end BulkPaths.Json
