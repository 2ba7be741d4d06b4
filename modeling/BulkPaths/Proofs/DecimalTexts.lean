import BulkPaths.Proofs.ShortestDigits

/-!
# The texts of numbers

Digits spell the number that they are the digits of. The text of a double is digits with a point or
an exponent, and whoever takes these parts out of it and rounds the decimal that they make has the
double again.
-/

namespace BulkPaths.Decimal

open Binary64 Text

/-- Digits of ASCII only. -/
def IsDigits (cs : List Char) : Prop := ∀ c ∈ cs, c.isDigit

variable {cs ds : List Char} {c : Char} {n k : Nat}

theorem isDigit_iff : c.isDigit ↔ 48 ≤ c.toNat ∧ c.toNat ≤ 57 := by
  rw [Char.isDigit, Bool.and_eq_true, decide_eq_true_eq, decide_eq_true_eq]
  exact Iff.rfl

theorem mem_digits_of_isDigit (h : c.isDigit) :
    c ∈ ['0', '1', '2', '3', '4', '5', '6', '7', '8', '9'] := by
  obtain ⟨hlow, hhigh⟩ := isDigit_iff.mp h
  rw [← Char.ofNat_toNat c]
  generalize c.toNat = k at hlow hhigh
  interval_cases k <;> decide

theorem digit?_of_isDigit (h : c.isDigit) : digit? c = some (c.toNat - 48) := by
  obtain ⟨hlow, hhigh⟩ := isDigit_iff.mp h
  unfold digit?
  dsimp only
  rw [if_pos (by omega), if_pos (by omega)]

theorem IsDigits.append (hcs : IsDigits cs) (hds : IsDigits ds) : IsDigits (cs ++ ds) :=
  fun c hc => (List.mem_append.mp hc).elim (hcs c) (hds c)

theorem exists_digit_head (hdigits : IsDigits cs) (hne : cs ≠ []) (more : List Char) :
    ∃ c, (cs ++ more).head? = some c ∧ c.isDigit := by
  obtain ⟨c, rest, rfl⟩ := List.exists_cons_of_ne_nil hne
  exact ⟨c, rfl, hdigits c List.mem_cons_self⟩

theorem isDigits_zeros (n : Nat) : IsDigits (List.replicate n '0') := by
  intro c hc
  rw [List.eq_of_mem_replicate hc]
  decide

theorem isDigits_toDigits (n : Nat) : IsDigits (Nat.toDigits 10 n) := fun _ hc =>
  Nat.isDigit_of_mem_toDigits (by decide) (by decide) hc

theorem digitsValue_append (cs ds : List Char) :
    digitsValue (cs ++ ds) = digitsValue cs * 10 ^ ds.length + digitsValue ds := by
  suffices hfrom : ∀ n, ds.foldl (fun value c => 10 * value + (digit? c).getD 0) n =
      n * 10 ^ ds.length + digitsValue ds by
    rw [digitsValue, List.foldl_append, hfrom]
    rfl
  induction ds with
  | nil => simp [digitsValue]
  | cons d ds ih =>
      intro n
      rw [digitsValue, List.foldl_cons, List.foldl_cons, ih, ih, List.length_cons, Nat.pow_succ]
      ring

theorem digitsValue_zeros (n : Nat) : digitsValue (List.replicate n '0') = 0 := by
  induction n with
  | zero => rfl
  | succ n ih =>
      rw [List.replicate_succ']
      rw [digitsValue_append, ih]
      rfl

theorem digitsValue_toDigits (n : Nat) : digitsValue (Nat.toDigits 10 n) = n := by
  have hdigits := isDigits_toDigits n
  have hsame : ∀ (cs : List Char) (start : Nat), IsDigits cs →
      cs.foldl (fun value c => 10 * value + (digit? c).getD 0) start =
        Nat.ofDigitChars 10 cs start := by
    intro cs start hcs
    apply List.foldl_ext
    intro value c hc
    rw [digit?_of_isDigit (hcs c hc)]
    rfl
  rw [digitsValue, hsame _ _ hdigits, Nat.ofDigitChars_ten_toDigits]

/-- No number but zero begins with a zero. -/
theorem head?_toDigits (hn : 0 < n) : (Nat.toDigits 10 n).head? ≠ some '0' := by
  induction n using Nat.strong_induction_on with
  | h n ih =>
      rw [Nat.toDigits_eq_if (by decide)]
      split
      case isTrue hless =>
        interval_cases n <;> decide
      case isFalse hlarge =>
        rw [List.head?_append_of_ne_nil _ Nat.toDigits_ne_nil]
        exact ih (n / 10) (by omega) (by omega)

/-- A minus before the characters, if there is to be one. -/
def signChars (negative : Bool) (cs : List Char) : List Char := if negative then '-' :: cs else cs

theorem signChars_append (negative : Bool) (cs rest : List Char) :
    signChars negative cs ++ rest = signChars negative (cs ++ rest) := by
  cases negative <;> rfl

/-- The characters that a finite number is written with. -/
def NumberChar (c : Char) : Prop := c.isDigit ∨ c ∈ ['.', 'e', '+', '-']

theorem NumberChar.not_blank (h : NumberChar c) : ¬isBlank c := by
  rcases h with hdigit | hsign
  · have hmem := mem_digits_of_isDigit hdigit
    fin_cases hmem <;> decide
  · fin_cases hsign <;> decide

theorem NumberChar.not_mark (h : NumberChar c) : c ∉ [',', '"', '#'] := by
  rcases h with hdigit | hsign
  · have hmem := mem_digits_of_isDigit hdigit
    fin_cases hmem <;> decide
  · fin_cases hsign <;> decide

theorem numberChar_of_mem_signChars {negative : Bool} (h : ∀ c ∈ cs, NumberChar c)
    (hc : c ∈ signChars negative cs) : NumberChar c := by
  cases negative with
  | false => exact h c hc
  | true =>
      rcases List.mem_cons.mp hc with rfl | hc
      · exact .inr (by decide)
      · exact h c hc

theorem toList_toString_int (n : Int) :
    (toString n).toList = signChars (n < 0) (Nat.toDigits 10 n.natAbs) := by
  rw [Int.toString_eq_repr, Int.repr_eq_if, signChars]
  rcases lt_or_ge n 0 with hneg | hpos
  · rw [if_neg (not_le.mpr hneg), if_pos (decide_eq_true hneg), Nat.repr_eq_ofList_toDigits,
      show (-n).toNat = n.natAbs by omega]
    simp
  · rw [if_pos hpos, if_neg (by simpa using hpos), Nat.repr_eq_ofList_toDigits,
      show n.toNat = n.natAbs by omega, String.toList_ofList]

theorem toList_toString_int_ne_nil (n : Int) : (toString n).toList ≠ [] := by
  rw [toList_toString_int, signChars]
  split
  · exact List.cons_ne_nil _ _
  · exact Nat.toDigits_ne_nil

theorem numberChar_of_mem_int {n : Int} (hc : c ∈ (toString n).toList) : NumberChar c := by
  rw [toList_toString_int] at hc
  exact numberChar_of_mem_signChars (fun d hd => .inl (isDigits_toDigits _ d hd)) hc

/-- Whole numbers that have no more digits than are read. -/
def Printable (n : Int) : Prop := (Nat.toDigits 10 n.natAbs).length ≤ digitLimit

theorem withSign_natAbs (n : Int) : withSign (n < 0) n.natAbs = n := by
  unfold withSign
  split
  case isTrue hneg =>
    have hneg := of_decide_eq_true hneg
    omega
  case isFalse hpos =>
    have hpos := of_decide_eq_false (Bool.eq_false_iff.mpr hpos)
    omega

theorem limited_natAbs {n : Int} (hn : Printable n) :
    limited (n < 0) (Nat.toDigits 10 n.natAbs) = .ok n := by
  rw [limited, if_neg (not_lt.mpr hn), digitsValue_toDigits, withSign_natAbs]

theorem exists_zeros_of_dropFinalZeros (h : cs.head? ≠ some '0') (hne : cs ≠ []) :
    ∃ zeros, cs = dropFinalZeros cs ++ List.replicate zeros '0' := by
  have hsplit := List.takeWhile_append_dropWhile (p := (· = '0')) (l := cs.reverse)
  have hzeros : cs.reverse.takeWhile (· = '0') =
      List.replicate (cs.reverse.takeWhile (· = '0')).length '0' := by
    refine List.eq_replicate_of_mem fun c hc => ?_
    simpa using List.mem_takeWhile_imp hc
  rw [hzeros] at hsplit
  generalize (cs.reverse.takeWhile (· = '0')).length = zeros at hsplit
  have hcs := congrArg List.reverse hsplit
  rw [List.reverse_append, List.reverse_replicate, List.reverse_reverse] at hcs
  refine ⟨zeros, ?_⟩
  unfold dropFinalZeros
  split
  case h_1 hnone =>
    -- nothing but zeros
    rw [hnone, List.nil_append] at hcs
    cases zeros with
    | zero => exact absurd hcs.symm hne
    | succ zeros =>
        rw [← hcs] at h
        exact absurd rfl h
  case h_2 => exact hcs.symm

namespace Digits

def value (number : Digits) : ℚ :=
  digitsValue number.digits * 10 ^ (number.exponent + 1 - number.digits.length)

/-- The digits of a number that is not zero. -/
structure Proper (number : Digits) : Prop where
  digits : IsDigits number.digits
  nonempty : number.digits ≠ []
  head : number.digits.head? ≠ some '0'

theorem proper_ofScaled (hn : 0 < n) (unit : Int) : (ofScaled n unit).Proper := by
  obtain ⟨zeros, hzeros⟩ := exists_zeros_of_dropFinalZeros (head?_toDigits hn) Nat.toDigits_ne_nil
  have hdigits := isDigits_toDigits n
  have hhead := head?_toDigits hn
  unfold ofScaled digitChars
  dsimp only
  generalize dropFinalZeros (Nat.toDigits 10 n) = kept at hzeros ⊢
  rw [hzeros] at hdigits hhead
  have hne : kept ≠ [] := by
    rintro rfl
    cases zeros with
    | zero => exact Nat.toDigits_ne_nil hzeros
    | succ zeros => exact hhead rfl
  rw [List.head?_append_of_ne_nil _ hne] at hhead
  exact ⟨fun c hc => hdigits c (List.mem_append_left _ hc), hne, hhead⟩

theorem value_ofScaled (hn : 0 < n) (unit : Int) : (ofScaled n unit).value = n * 10 ^ unit := by
  obtain ⟨zeros, hzeros⟩ := exists_zeros_of_dropFinalZeros (head?_toDigits hn) Nat.toDigits_ne_nil
  have hvalue := digitsValue_toDigits n
  have hlength := congrArg List.length hzeros
  unfold value ofScaled digitChars
  dsimp only
  generalize dropFinalZeros (Nat.toDigits 10 n) = kept at hzeros hlength ⊢
  rw [List.length_append, List.length_replicate] at hlength
  rw [hzeros, digitsValue_append, digitsValue_zeros, List.length_replicate, Nat.add_zero] at hvalue
  have hexponent : unit + (Nat.toDigits 10 n).length - 1 + 1 - kept.length = zeros + unit := by
    omega
  rw [hexponent, zpow_add₀ (by norm_num), zpow_natCast, ← mul_assoc]
  congr 1
  exact_mod_cast hvalue

end Digits

/-- The parts of the text of a double: digits, then digits after a point, if there are any, then an
exponent with a sign, if there is one; true is minus. -/
structure Spelling where
  whole : List Char
  tail : List Char
  power : Option (Bool × List Char)
  digits_whole : IsDigits whole
  digits_tail : IsDigits tail
  digits_power : ∀ sign digits, power = some (sign, digits) → IsDigits digits ∧ digits ≠ []
  /-- A zero before the point stands alone. -/
  leads : whole = ['0'] ∨ whole ≠ [] ∧ whole.head? ≠ some '0'
  /-- It is no whole number. -/
  pointed : tail ≠ [] ∨ power ≠ none

namespace Spelling

def pointChars (s : Spelling) : List Char := if s.tail = [] then [] else '.' :: s.tail

def signChar (negative : Bool) : Char := if negative then '-' else '+'

def powerChars (s : Spelling) : List Char :=
  match s.power with
  | none => []
  | some (negative, digits) => 'e' :: signChar negative :: digits

def chars (s : Spelling) : List Char := s.whole ++ (s.pointChars ++ s.powerChars)

def digits (s : Spelling) : Nat := digitsValue (s.whole ++ s.tail)

def powerValue (s : Spelling) : Int :=
  match s.power with
  | none => 0
  | some (negative, digits) => withSign negative (digitsValue digits)

def exponent (s : Spelling) : Int := s.powerValue - s.tail.length

def value (s : Spelling) : ℚ := s.digits * 10 ^ s.exponent

theorem whole_ne_nil (s : Spelling) : s.whole ≠ [] := by
  rcases s.leads with hzero | ⟨hne, _⟩
  · rw [hzero]
    exact List.cons_ne_nil _ _
  · exact hne

theorem numberChar_of_mem_chars (s : Spelling) (hc : c ∈ s.chars) : NumberChar c := by
  rcases List.mem_append.mp hc with hwhole | hrest
  · exact .inl (s.digits_whole c hwhole)
  rcases List.mem_append.mp hrest with hpoint | hpower
  · unfold pointChars at hpoint
    split at hpoint
    · cases hpoint
    · rcases List.mem_cons.mp hpoint with rfl | htail
      · exact .inr (by decide)
      · exact .inl (s.digits_tail c htail)
  · unfold powerChars at hpower
    split at hpower
    case h_1 => cases hpower
    case h_2 negative digits heq =>
      rcases List.mem_cons.mp hpower with rfl | hpower
      · exact .inr (by decide)
      rcases List.mem_cons.mp hpower with rfl | hdigits
      · cases negative <;> exact .inr (by decide)
      · exact .inl ((s.digits_power negative digits heq).1 c hdigits)

end Spelling

namespace Digits

variable {number : Digits}

theorem Proper.head_of_append (h : number.Proper) (more : List Char) :
    number.digits ++ more ≠ [] ∧ (number.digits ++ more).head? ≠ some '0' := by
  refine ⟨List.append_ne_nil_of_left_ne_nil h.nonempty _, ?_⟩
  rw [List.head?_append_of_ne_nil _ h.nonempty]
  exact h.head

/-- Below one there are zeros between the point and the digits. -/
theorem Proper.exists_spelling_small (h : number.Proper) (hsmall : number.exponent < 0) :
    ∃ s : Spelling, shortestLayout.positional number.digits number.exponent = s.chars ∧
      s.value = number.value := by
  let zeros := List.replicate (-number.exponent - 1).toNat '0'
  let s : Spelling :=
    { whole := ['0']
      tail := zeros ++ number.digits
      power := none
      digits_whole := isDigits_zeros 1
      digits_tail := (isDigits_zeros _).append h.digits
      digits_power := by simp
      leads := .inl rfl
      pointed := .inl (List.append_ne_nil_of_right_ne_nil _ h.nonempty) }
  have htail : s.tail ≠ [] := List.append_ne_nil_of_right_ne_nil _ h.nonempty
  have hdigits : s.digits = digitsValue number.digits := by
    have hzero : digitsValue ['0'] = 0 := by decide
    rw [Spelling.digits, digitsValue_append, digitsValue_append, digitsValue_zeros, hzero,
      Nat.zero_mul, Nat.zero_mul, Nat.zero_add, Nat.zero_add]
  have hexponent : s.exponent = number.exponent + 1 - number.digits.length := by
    simp only [Spelling.exponent, Spelling.powerValue, s, zeros, List.length_append,
      List.length_replicate]
    omega
  refine ⟨s, ?_, ?_⟩
  · rw [Layout.positional, if_pos hsmall, Spelling.chars, Spelling.pointChars, if_neg htail]
    simp [s, zeros, Spelling.powerChars]
  · rw [Spelling.value, hdigits, hexponent, value]

/-- A number without digits after the point has a zero there. -/
theorem Proper.exists_spelling_whole (h : number.Proper) {zeros : Nat}
    (hexponent : number.exponent + 1 = number.digits.length + zeros) :
    ∃ s : Spelling, number.digits ++ List.replicate zeros '0' ++ ['.', '0'] = s.chars ∧
      s.value = number.value := by
  let s : Spelling :=
    { whole := number.digits ++ List.replicate zeros '0'
      tail := ['0']
      power := none
      digits_whole := h.digits.append (isDigits_zeros _)
      digits_tail := isDigits_zeros 1
      digits_power := by simp
      leads := .inr (h.head_of_append _)
      pointed := .inl (List.cons_ne_nil _ _) }
  have hdigits : s.digits = digitsValue number.digits * 10 ^ zeros * 10 := by
    have hzero : digitsValue ['0'] = 0 := by decide
    rw [Spelling.digits, digitsValue_append, digitsValue_append, digitsValue_zeros, hzero,
      List.length_replicate]
    rfl
  refine ⟨s, by simp [s, Spelling.chars, Spelling.pointChars, Spelling.powerChars], ?_⟩
  rw [Spelling.value, hdigits, value, hexponent, add_sub_cancel_left, zpow_natCast]
  simp [s, Spelling.exponent, Spelling.powerValue]

theorem Proper.exists_spelling_split (h : number.Proper) {front back : List Char}
    (hdigits : number.digits = front ++ back) (hexponent : number.exponent + 1 = front.length)
    (hfront : front ≠ []) (hback : back ≠ []) :
    ∃ s : Spelling, front ++ '.' :: back = s.chars ∧ s.value = number.value := by
  have hproper := h.digits
  have hhead := h.head
  rw [hdigits] at hproper hhead
  rw [List.head?_append_of_ne_nil _ hfront] at hhead
  let s : Spelling :=
    { whole := front
      tail := back
      power := none
      digits_whole := fun c hc => hproper c (List.mem_append_left _ hc)
      digits_tail := fun c hc => hproper c (List.mem_append_right _ hc)
      digits_power := by simp
      leads := .inr ⟨hfront, hhead⟩
      pointed := .inl hback }
  refine ⟨s, by simp [s, Spelling.chars, Spelling.pointChars, Spelling.powerChars, hback], ?_⟩
  rw [Spelling.value, Spelling.digits, Digits.value, hexponent, hdigits]
  congr 2
  simp [s, Spelling.exponent, Spelling.powerValue]

/-- From one on the point stands among the digits or behind them. -/
theorem Proper.exists_spelling_large (h : number.Proper) (hlarge : 0 ≤ number.exponent) :
    ∃ s : Spelling, shortestLayout.positional number.digits number.exponent = s.chars ∧
      s.value = number.value := by
  rw [Layout.positional, if_neg (not_lt.mpr hlarge)]
  dsimp only
  split
  case h_1 hdrop =>
    have hlength := List.drop_eq_nil_iff.mp hdrop
    rw [List.take_of_length_le hlength, if_pos (show shortestLayout.pointed = true from rfl)]
    exact h.exists_spelling_whole (by omega)
  case h_2 hdrop =>
    have hlength : ¬number.digits.length ≤ number.exponent.toNat + 1 :=
      fun hle => hdrop (List.drop_eq_nil_iff.mpr hle)
    rw [Nat.sub_eq_zero_of_le (by omega), List.replicate_zero, List.append_nil]
    refine h.exists_spelling_split (List.take_append_drop _ _).symm ?_ ?_ hdrop
    · rw [List.length_take]
      omega
    · rw [ne_eq, List.take_eq_nil_iff]
      simp [h.nonempty]

/-- The digits of the exponent, two of them at least. -/
def powerDigits (k : Nat) : List Char :=
  if (digitChars k).length < 2 then '0' :: digitChars k else digitChars k

theorem isDigits_powerDigits (k : Nat) : IsDigits (powerDigits k) ∧ powerDigits k ≠ [] := by
  unfold powerDigits
  split
  case isTrue => exact ⟨(isDigits_zeros 1).append (isDigits_toDigits k), List.cons_ne_nil _ _⟩
  case isFalse => exact ⟨isDigits_toDigits k, Nat.toDigits_ne_nil⟩

theorem digitsValue_powerDigits (k : Nat) : digitsValue (powerDigits k) = k := by
  have hvalue := digitsValue_toDigits k
  unfold powerDigits
  split
  case isTrue =>
    have hzero : digitsValue ['0'] = 0 := by decide
    rw [← List.singleton_append, digitsValue_append, hzero, Nat.zero_mul, Nat.zero_add]
    exact hvalue
  case isFalse => exact hvalue

theorem Proper.exists_spelling_scientific (h : number.Proper) :
    ∃ s : Spelling, scientific number.digits number.exponent = s.chars ∧
      s.value = number.value := by
  obtain ⟨first, rest, hdigits⟩ := List.exists_cons_of_ne_nil h.nonempty
  have hproper := h.digits
  have hhead := h.head
  rw [hdigits] at hproper hhead
  let s : Spelling :=
    { whole := [first]
      tail := rest
      power := some (decide (number.exponent < 0), powerDigits number.exponent.natAbs)
      digits_whole := fun c hc => hproper c (List.mem_of_mem_take (i := 1) hc)
      digits_tail := fun c hc => hproper c (List.mem_cons_of_mem _ hc)
      digits_power := by
        rintro sign digits hpower
        cases hpower
        exact isDigits_powerDigits _
      leads := .inr ⟨List.cons_ne_nil _ _, hhead⟩
      pointed := .inr (Option.some_ne_none _) }
  have hpower : s.powerValue = number.exponent := by
    simp only [Spelling.powerValue, s, withSign, digitsValue_powerDigits, decide_eq_true_eq]
    split <;> omega
  refine ⟨s, ?_, ?_⟩
  · have hchars : s.powerChars =
        'e' :: (if number.exponent < 0 then '-' else '+') ::
          powerDigits number.exponent.natAbs := by
      simp [s, Spelling.powerChars, Spelling.signChar]
    unfold scientific Spelling.chars Spelling.pointChars
    rw [hchars, hdigits]
    cases rest <;> rfl
  · rw [Spelling.value, Spelling.exponent, hpower, value, hdigits]
    congr 2
    rw [List.length_cons]
    push_cast
    ring

/-- How the digits of a double are laid out. -/
theorem Proper.exists_spelling (h : number.Proper) :
    ∃ s : Spelling, shortestLayout.write number = s.chars ∧ s.value = number.value := by
  unfold Layout.write
  split
  case isTrue =>
    rcases lt_or_ge number.exponent 0 with hsmall | hlarge
    · exact h.exists_spelling_small hsmall
    · exact h.exists_spelling_large hlarge
  case isFalse => exact h.exists_spelling_scientific

end Digits

section Reading

variable {num den digits digits' bits m : Nat} {k k' e : Int} {negative : Bool} {x : Float}

theorem infinityBits_le_nearestBits (hden : 0 < den) (hlarge : (2 : ℚ) ^ 1024 ≤ num / den) :
    infinityBits ≤ nearestBits num den := by
  have hnum : 0 < num := by
    by_contra hzero
    rw [Nat.eq_zero_of_not_pos hzero, Nat.cast_zero, zero_div] at hlarge
    exact absurd hlarge (not_le.mpr (by positivity))
  have hscale := scale_exponentFor hnum hden
  have hexponent : 972 ≤ exponentFor num den := by
    have hpow : (2 : ℚ) ^ (1024 : Int) < 2 ^ (53 + exponentFor num den) :=
      lt_of_le_of_lt (by exact_mod_cast hlarge) hscale.below
    rw [zpow_lt_zpow_iff_right₀ one_lt_two] at hpow
    omega
  have hfull : 2 ^ 52 ≤ roundDiv (scaled num den (exponentFor num den)).1
      (scaled num den (exponentFor num den)).2 := by
    have hpos : 0 < (scaled num den (exponentFor num den)).2 := scaled_pos _ hden
    refine le_trans ?_ (div_le_roundDiv _ _)
    rw [Nat.le_div_iff_mul_le hpos]
    have hmul := hscale.full.resolve_left (by omega)
    rw [zpow_add₀ two_ne_zero, ← le_div_iff₀ (by positivity), ← scaled_value,
      le_div_iff₀ (Nat.cast_pos.mpr hpos)] at hmul
    exact_mod_cast hmul
  unfold nearestBits
  rw [if_neg hnum.ne']
  dsimp only
  unfold infinityBits hiddenBit
  omega

theorem nearestBits_eq_zero (hden : 0 < den) (hsmall : (num / den : ℚ) < 2 ^ (-1075 : Int)) :
    nearestBits num den = 0 := by
  rcases Nat.eq_zero_or_pos num with rfl | hnum
  · exact nearestBits_zero den
  · have hscale : Scale (num / den : ℚ) (-1074) :=
      ⟨le_refl _, hsmall.trans (zpow_lt_zpow_right₀ one_lt_two (by decide)), .inl rfl⟩
    have hnear : |(num / den : ℚ) / 2 ^ (-1074 : Int) - (0 : Nat)| < 1 / 2 := by
      refine near_of_mul (by positivity) ?_
      rw [Nat.cast_zero, zero_mul, sub_zero, abs_of_nonneg (by positivity)]
      refine hsmall.trans_eq ?_
      rw [show (-1075 : Int) = -1074 - 1 by norm_num, zpow_sub_one₀ two_ne_zero]
      rfl
    rw [nearestBits_eq hnum hden hscale hnear]
    rfl

theorem ReadsBack.congr (h : ReadsBack bits digits k)
    (heq : (digits' : ℚ) * 10 ^ k' = digits * 10 ^ k) : ReadsBack bits digits' k' := by
  rw [← h]
  apply nearestBits_congr (shifted_pos _ Nat.one_pos) (shifted_pos _ Nat.one_pos)
  rw [shifted_value, shifted_value, Nat.cast_one, div_one, div_one, heq]

theorem two_pow_mul_le_ten_pow (k : Nat) : 2 ^ (3 * k) ≤ 10 ^ k := by
  rw [Nat.pow_mul]
  exact Nat.pow_le_pow_left (by decide) k

theorem two_pow_le_mul_ten_pow (hdigits : 0 < digits) {a k : Nat} (h : a ≤ digits.log2 + 3 * k) :
    2 ^ a ≤ digits * 10 ^ k := by
  calc 2 ^ a ≤ 2 ^ (digits.log2 + 3 * k) := Nat.pow_le_pow_right Nat.two_pos h
    _ = 2 ^ digits.log2 * 2 ^ (3 * k) := Nat.pow_add _ _ _
    _ ≤ digits * 10 ^ k := Nat.mul_le_mul (log2_bounds hdigits).1 (two_pow_mul_le_ten_pow k)

theorem mul_two_pow_lt_ten_pow (hdigits : 0 < digits) {a k : Nat}
    (h : digits.log2 + 1 + a ≤ 3 * k) : digits * 2 ^ a < 10 ^ k := by
  calc digits * 2 ^ a < 2 ^ (digits.log2 + 1) * 2 ^ a :=
        Nat.mul_lt_mul_of_pos_right (log2_bounds hdigits).2 (Nat.two_pow_pos _)
    _ = 2 ^ (digits.log2 + 1 + a) := (Nat.pow_add _ _ _).symm
    _ ≤ 2 ^ (3 * k) := Nat.pow_le_pow_right Nat.two_pos h
    _ ≤ 10 ^ k := two_pow_mul_le_ten_pow k

theorem ReadsBack.pos (h : ReadsBack bits digits k) (hbits : 0 < bits) : 0 < digits := by
  by_contra hzero
  rw [Nat.eq_zero_of_not_pos hzero, ReadsBack] at h
  have hnum : (shifted 0 1 k).1 = 0 := by
    unfold shifted
    split
    · exact Nat.zero_mul _
    · rfl
  rw [hnum, nearestBits_zero] at h
  omega

/-- Where a decimal is decided by its size, rounding would decide the same. -/
theorem ofDecimal_of_readsBack (h : ReadsBack bits digits k) (hfinite : bits < infinityBits) :
    ofDecimal negative digits k = ofMagnitude negative bits := by
  unfold ReadsBack at h
  unfold ofDecimal
  rcases Nat.eq_zero_or_pos digits with rfl | hdigits
  · have hzero : bits = 0 := by
      by_contra hbits
      exact Nat.lt_irrefl 0 (ReadsBack.pos h (Nat.pos_of_ne_zero hbits))
    rw [if_pos rfl, hzero]
  rw [if_neg hdigits.ne']
  rcases lt_or_ge k 0 with hneg | hpos
  · obtain ⟨j, rfl⟩ : ∃ j : Nat, k = -j := ⟨(-k).toNat, by omega⟩
    have hshifted : shifted digits 1 (-j) = (digits, Nat.pow 10 j) := by
      rw [shifted, if_neg (by omega), neg_neg, Int.toNat_natCast, Nat.one_mul]
    rw [hshifted] at h
    rw [if_neg (by omega), neg_neg, Int.toNat_natCast]
    split
    case isTrue hsmall =>
      have hmul := @mul_two_pow_lt_ten_pow digits hdigits 1075 j (by omega)
      have hpos : 0 < Nat.pow 10 j := Nat.pow_pos (by decide)
      have hzero : nearestBits digits (Nat.pow 10 j) = 0 := by
        refine nearestBits_eq_zero hpos ?_
        rw [div_lt_iff₀ (Nat.cast_pos.mpr hpos), zpow_neg, lt_inv_mul_iff₀ (by positivity),
          mul_comm, Nat.pow_eq, zpow_ofNat]
        exact_mod_cast hmul
      rw [← h, hzero]
    case isFalse =>
      simp only [nearest?]
      rw [h, if_pos hfinite, Option.getD_some]
  · lift k to Nat using hpos
    have hshifted : shifted digits 1 k = (digits * Nat.pow 10 k, 1) := by
      rw [shifted, if_pos (by omega), Int.toNat_natCast]
    rw [hshifted] at h
    rw [if_pos (by omega), Int.toNat_natCast, if_neg]
    · simp only [nearest?]
      rw [h, if_pos hfinite, Option.getD_some]
    · intro hlarge
      have hmul := @two_pow_le_mul_ten_pow digits hdigits 1024 k (by omega)
      refine absurd (infinityBits_le_nearestBits Nat.one_pos ?_) (h ▸ not_le.mpr hfinite)
      rw [Nat.cast_one, div_one, Nat.pow_eq]
      exact_mod_cast hmul

/-- A point and a zero after a zero. -/
def Spelling.zero : Spelling where
  whole := ['0']
  tail := ['0']
  power := none
  digits_whole := isDigits_zeros 1
  digits_tail := isDigits_zeros 1
  digits_power := by simp
  leads := .inl rfl
  pointed := .inl (List.cons_ne_nil _ _)

/-- The text of a finite double has parts, and the decimal that they make is rounded to it. -/
theorem exists_spelling_of_shape (h : shape x = .finite negative m e) :
    ∃ s : Spelling, (text x).toList = signChars negative s.chars ∧
      ofDecimal negative s.digits s.exponent = x := by
  have hsigned : ∀ cs, (signed negative cs).toList = signChars negative cs := fun _ =>
    String.toList_ofList
  obtain ⟨hnormal, hrange, hbits⟩ := ofMagnitude_of_shape h
  have hbelow : (e + 1074).toNat * hiddenBit + m < infinityBits := by
    have hfits := hnormal.fits
    unfold infinityBits hiddenBit
    omega
  unfold text write
  rw [h]
  dsimp only
  rw [hsigned]
  split
  case isTrue hzero =>
    subst hzero
    obtain rfl := hnormal.full.resolve_left (by decide)
    exact ⟨.zero, rfl, hbits⟩
  case isFalse hpos =>
    have hpos : 0 < m := Nat.pos_of_ne_zero hpos
    rw [hnormal.nearestBits_fraction]
    have hreads := shortest_readsBack hnormal (fraction_num_pos e hpos) (fraction_pos m e)
      (fraction_value m e)
    generalize shortest ((e + 1074).toNat * hiddenBit + m) (fraction m e).1 (fraction m e).2 =
      found at hreads ⊢
    have hfound : 0 < found.1 := hreads.pos (by omega)
    obtain ⟨s, hchars, hvalue⟩ := (Digits.proper_ofScaled hfound found.2).exists_spelling
    rw [Digits.value_ofScaled hfound] at hvalue
    refine ⟨s, congrArg (signChars negative) hchars, ?_⟩
    rw [ofDecimal_of_readsBack (hreads.congr hvalue) hbelow, hbits]

end Reading

end BulkPaths.Decimal
