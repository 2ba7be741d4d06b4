import BulkPaths.Decimal.Numeral
import BulkPaths.Proofs.DecimalTexts
import BulkPaths.Proofs.TextLines

/-!
# Written numbers read back

The reader of numerals takes more than is ever written: digits of every script, underscores, white
space around. On what is written it gives the number back, and a double is never taken for a whole
number, because its text has a point or an exponent.
-/

namespace BulkPaths.Decimal

open Text

variable {cs rest digits : List Char} {c : Char} {n : Int} {negative : Bool}

theorem isPadding_of_not_blank (h : ¬isBlank c) : ¬isPadding c := by
  simp only [isPadding, Bool.and_eq_true]
  exact fun hpadding => h hpadding.1

theorem unpadded_eq (h : Trimmed cs) : unpadded cs = cs := by
  unfold unpadded
  rw [dropWhile_of_head fun c hc => isPadding_of_not_blank (h.1 c hc), dropWhile_of_head,
    List.reverse_reverse]
  intro c hc
  rw [List.head?_reverse] at hc
  exact isPadding_of_not_blank (h.2 c hc)

theorem isDigit_of_ascii (h : c.isDigit) : Text.isDigit c := by
  rw [Text.isDigit, digit?_of_isDigit h]
  rfl

theorem digitRun?_digits (hdigits : IsDigits cs) (hne : cs ≠ []) : digitRun? cs = some cs := by
  induction cs with
  | nil => exact absurd rfl hne
  | cons c cs ih =>
      have hc := isDigit_of_ascii (hdigits c List.mem_cons_self)
      have hcs : IsDigits cs := fun d hd => hdigits d (List.mem_cons_of_mem _ hd)
      cases cs with
      | nil => simp [digitRun?, hc]
      | cons d cs =>
          have hd : d ≠ '_' := by
            rintro rfl
            exact absurd (hcs '_' List.mem_cons_self) (by decide)
          rw [digitRun?, if_pos hc, ih hcs (List.cons_ne_nil _ _)]
          · rfl
          · exact List.cons_ne_nil _ _
          · rintro rest heq
            exact hd (List.cons.inj heq).1

theorem mem_of_digitRun? (h : digitRun? cs = some digits) :
    ∀ c ∈ cs, Text.isDigit c ∨ c = '_' := by
  fun_induction digitRun? cs generalizing digits with
  | case1 => simp
  | case2 c hc => simp [hc]
  | case3 => cases h
  | case4 c rest hc ih =>
      obtain ⟨more, hmore, -⟩ := Option.map_eq_some_iff.mp h
      simpa [hc] using ih hmore
  | case5 => cases h
  | case6 c rest _ _ hc ih =>
      obtain ⟨more, hmore, -⟩ := Option.map_eq_some_iff.mp h
      simpa [hc] using ih hmore
  | case7 => cases h

theorem takeSign_signChars (hhead : ∃ c, cs.head? = some c ∧ c.isDigit) :
    takeSign (signChars negative cs) = (negative, cs) := by
  obtain ⟨c, hc, hdigit⟩ := hhead
  obtain ⟨rest, rfl⟩ := List.head?_eq_some_iff.mp hc
  have hmem := mem_digits_of_isDigit hdigit
  cases negative with
  | true => rfl
  | false => fin_cases hmem <;> rfl

theorem trimmed_of_numberChars (h : ∀ c ∈ cs, NumberChar c) : Trimmed cs :=
  ⟨fun c hc => (h c (List.mem_of_mem_head? hc)).not_blank,
    fun c hc => (h c (List.mem_of_getLast? hc)).not_blank⟩

theorem trimmed_int (n : Int) : Trimmed (toString n).toList :=
  trimmed_of_numberChars fun _ => numberChar_of_mem_int

theorem takeSign_int (n : Int) :
    takeSign (toString n).toList = (decide (n < 0), Nat.toDigits 10 n.natAbs) := by
  have hhead := exists_digit_head (isDigits_toDigits n.natAbs) Nat.toDigits_ne_nil []
  rw [List.append_nil] at hhead
  rw [toList_toString_int, takeSign_signChars hhead]

theorem readInt_toString (hn : Printable n) : readInt (toString n).toList = .ok n := by
  unfold readInt
  rw [unpadded_eq (trimmed_int n), takeSign_int]
  dsimp only
  rw [digitRun?_digits (isDigits_toDigits _) Nat.toDigits_ne_nil]
  exact limited_natAbs hn

theorem digit?_le (c : Char) : (digit? c).getD 0 ≤ 9 := by
  unfold digit?
  dsimp only
  split_ifs with hascii hdigit
  · rw [Option.getD_some]
    omega
  · exact Nat.zero_le 9
  · cases hfound : digitZeros.find? fun start => start ≤ c.toNat && c.toNat < start + 10 with
    | none => exact Nat.zero_le 9
    | some start =>
        have hrange := List.find?_some hfound
        simp only [Bool.and_eq_true, decide_eq_true_eq] at hrange
        rw [Option.map_some, Option.getD_some]
        omega

theorem digitsValue_lt (cs : List Char) : digitsValue cs < 10 ^ cs.length := by
  induction cs using List.reverseRecOn with
  | nil => exact Nat.one_pos
  | append_singleton cs c ih =>
      have hc := digit?_le c
      rw [digitsValue_append, List.length_append, List.length_singleton, pow_succ]
      have hsingle : digitsValue [c] = (digit? c).getD 0 := by simp [digitsValue]
      rw [hsingle]
      omega

/-- What is read is short enough to be read again. -/
theorem printable_of_limited (h : limited negative digits = .ok n) : Printable n := by
  unfold limited at h
  split at h
  · cases h
  case isFalse hlimit =>
    cases h
    have habs : (withSign negative (digitsValue digits)).natAbs = digitsValue digits := by
      cases negative <;> simp [withSign]
    have hlt : digitsValue digits < 10 ^ digitLimit :=
      (digitsValue_lt digits).trans_le (Nat.pow_le_pow_right (by decide) (not_lt.mp hlimit))
    rw [Printable, habs]
    exact Nat.toDigits_length 10 _ _ (by decide) hlt

theorem printable_of_readInt (h : readInt cs = .ok n) : Printable n := by
  unfold readInt at h
  dsimp only at h
  split at h
  · cases h
  · exact printable_of_limited h

section Doubles

variable {x : Float}

theorem spanRun_digits (hdigits : IsDigits digits)
    (hrest : ∀ c, rest.head? = some c → ¬Text.isDigit c ∧ c ≠ '_') :
    spanRun (digits ++ rest) = (digits, rest) := by
  apply span_append
  · intro c hc
    rw [isDigit_of_ascii (hdigits c hc), Bool.true_or]
  · intro c hc
    simp [hrest c hc]

theorem optionalRun?_digits (hdigits : IsDigits digits) : optionalRun? digits = some digits := by
  unfold optionalRun?
  split
  case isTrue hempty => rw [List.isEmpty_iff.mp hempty]
  case isFalse hne => exact digitRun?_digits hdigits (by simpa using hne)

theorem readExponent?_powerChars (s : Spelling) :
    readExponent? s.powerChars = some s.powerValue := by
  unfold Spelling.powerChars Spelling.powerValue
  cases hpower : s.power with
  | none => rfl
  | some power =>
      obtain ⟨sign, digits⟩ := power
      obtain ⟨hdigits, hne⟩ := s.digits_power sign digits hpower
      have hsign : takeSign (Spelling.signChar sign :: digits) = (sign, digits) := by
        cases sign <;> rfl
      simp only [readExponent?, true_or, if_true, hsign]
      rw [digitRun?_digits hdigits hne]
      rfl

/-- The run of digits after a point, if a point comes next. -/
def pointRun : List Char → List Char × List Char
  | '.' :: rest => spanRun rest
  | rest => ([], rest)

theorem pointRun_none (h : cs.head? ≠ some '.') : pointRun cs = ([], cs) := by
  unfold pointRun
  split
  case h_1 => exact absurd rfl h
  case h_2 => rfl

theorem readMagnitude?_eq (negative : Bool) (cs : List Char) : readMagnitude? negative cs =
    match optionalRun? (spanRun cs).1, optionalRun? (pointRun (spanRun cs).2).1,
      readExponent? (pointRun (spanRun cs).2).2 with
    | some whole, some tail, some exponent =>
      if whole.isEmpty && tail.isEmpty then none
      else some (Binary64.ofDecimal negative (digitsValue (whole ++ tail)) (exponent - tail.length))
    | _, _, _ => none := rfl

theorem readMagnitude?_chars (s : Spelling) (negative : Bool) :
    readMagnitude? negative s.chars =
      some (Binary64.ofDecimal negative s.digits s.exponent) := by
  have hpower : ∀ c, s.powerChars.head? = some c → c = 'e' := by
    intro c hc
    unfold Spelling.powerChars at hc
    split at hc
    · cases hc
    · cases hc
      rfl
  have hwhole : spanRun s.chars = (s.whole, s.pointChars ++ s.powerChars) := by
    apply spanRun_digits s.digits_whole
    intro c hc
    unfold Spelling.pointChars at hc
    split at hc
    · rw [List.nil_append] at hc
      rw [hpower c hc]
      decide
    · cases hc
      decide
  have htail : pointRun (s.pointChars ++ s.powerChars) = (s.tail, s.powerChars) := by
    unfold Spelling.pointChars
    split_ifs with hnone
    · rw [List.nil_append, hnone]
      exact pointRun_none fun hc => absurd (hpower '.' hc) (by decide)
    · apply spanRun_digits s.digits_tail
      intro c hc
      rw [hpower c hc]
      decide
  have hempty : s.whole.isEmpty = false := by simpa using s.whole_ne_nil
  rw [readMagnitude?_eq, hwhole]
  dsimp only
  rw [htail]
  dsimp only
  rw [optionalRun?_digits s.digits_whole, optionalRun?_digits s.digits_tail,
    readExponent?_powerChars]
  dsimp only
  rw [hempty, Bool.false_and]
  rfl

theorem numberChar_of_mem_spelling (s : Spelling) :
    ∀ c ∈ signChars negative s.chars, NumberChar c := fun _ hc =>
  numberChar_of_mem_signChars (fun _ => s.numberChar_of_mem_chars) hc

theorem takeSign_spelling (s : Spelling) :
    takeSign (unpadded (signChars negative s.chars)) = (negative, s.chars) := by
  rw [unpadded_eq (trimmed_of_numberChars (numberChar_of_mem_spelling s))]
  exact takeSign_signChars (exists_digit_head s.digits_whole s.whole_ne_nil _)

theorem toList_text_nan (h : Binary64.shape x = .nan) : (text x).toList = ['n', 'a', 'n'] := by
  simp only [text, write, h]
  rfl

theorem toList_text_infinite (h : Binary64.shape x = .infinite negative) :
    (text x).toList = signChars negative ['i', 'n', 'f'] := by
  simp only [text, write, h, signed]
  exact String.toList_ofList

theorem readFloat?_text (x : Float) : readFloat? (text x).toList = some x := by
  cases hshape : Binary64.shape x with
  | nan =>
      rw [toList_text_nan hshape, Binary64.eq_nan_of_shape hshape]
      rfl
  | infinite negative =>
      rw [toList_text_infinite hshape, Binary64.eq_infinity_of_shape hshape]
      cases negative <;> rfl
  | finite negative m e =>
      obtain ⟨s, hchars, hvalue⟩ := exists_spelling_of_shape hshape
      obtain ⟨c, hc, hdigit⟩ := exists_digit_head s.digits_whole s.whole_ne_nil
        (s.pointChars ++ s.powerChars)
      have hword : ∀ word : List Char, word.head? = some 'i' ∨ word.head? = some 'n' →
          s.chars.map Char.toLower ≠ word := by
        rintro word hhead rfl
        have hmem := mem_digits_of_isDigit hdigit
        rw [List.head?_map, Spelling.chars, hc] at hhead
        fin_cases hmem <;> revert hhead <;> decide
      unfold readFloat?
      rw [hchars, takeSign_spelling]
      dsimp only
      rw [if_neg, if_neg, readMagnitude?_chars, hvalue]
      · exact hword _ (.inr rfl)
      · rintro (heq | heq)
        · exact hword _ (.inl rfl) heq
        · exact hword _ (.inl rfl) heq

/-- The text of a double is no whole number. -/
theorem readInt_text (x : Float) : readInt (text x).toList = .error .malformed := by
  cases hshape : Binary64.shape x with
  | nan =>
      rw [toList_text_nan hshape]
      rfl
  | infinite negative =>
      rw [toList_text_infinite hshape]
      cases negative <;> rfl
  | finite negative m e =>
      obtain ⟨s, hchars, -⟩ := exists_spelling_of_shape hshape
      have hmark : ∃ c ∈ s.chars, c = '.' ∨ c = 'e' := by
        rcases s.pointed with htail | hpower
        · refine ⟨'.', ?_, .inl rfl⟩
          simp [Spelling.chars, Spelling.pointChars, htail]
        · obtain ⟨power, hpower⟩ := Option.ne_none_iff_exists'.mp hpower
          refine ⟨'e', ?_, .inr rfl⟩
          simp [Spelling.chars, Spelling.powerChars, hpower]
      have hnone : digitRun? s.chars = none := by
        cases hrun : digitRun? s.chars with
        | none => rfl
        | some digits =>
            obtain ⟨c, hc, hmark⟩ := hmark
            have hmem := mem_of_digitRun? hrun c hc
            rcases hmark with rfl | rfl
            · exact absurd hmem (by decide)
            · exact absurd hmem (by decide)
      unfold readInt
      rw [hchars, takeSign_spelling]
      dsimp only
      rw [hnone]

end Doubles

end BulkPaths.Decimal
