import BulkPaths.Proofs.NumeralTexts
import BulkPaths.VertexId

/-!
# Identifiers and their texts

The text of a number or of a universal identifier is read as what it is the text of. A text without
quotes at its start names itself, unless it is a numeral or a universal identifier.
-/

namespace BulkPaths

open Text Decimal

namespace Uuid

theorem hexDigit?_hexChar : ∀ d : Fin 16, hexDigit? (hexChar d) = some d := by decide

theorem mapM_hexDigit? (digits : List (Fin 16)) :
    (digits.map hexChar).mapM hexDigit? = some digits := by
  induction digits with
  | nil => rfl
  | cons d digits ih => simp [List.mapM_cons, hexDigit?_hexChar, ih]

variable {front cs : List Char} {digits more : List (Fin 16)}

theorem readGroups?_last (h : front.mapM hexDigit? = some digits) :
    readGroups? [front.length] front = some digits := by
  rw [readGroups?]
  simp only [List.isEmpty_nil, Bool.not_true, Bool.false_and, Bool.false_eq_true, if_false]
  rw [List.take_length, List.drop_length, h]
  simp [readGroups?]

theorem readGroups?_cons {next : Nat} {sizes : List Nat} (h : front.mapM hexDigit? = some digits)
    (hmore : readGroups? (next :: sizes) cs = some more) :
    readGroups? (front.length :: next :: sizes) (front ++ '-' :: cs) = some (digits ++ more) := by
  rw [readGroups?, List.take_left, List.drop_left, h]
  simp [hmore]

theorem readGroups?_writeGroups {sizes : List Nat} {digits : List (Fin 16)}
    (h : digits.length = sizes.sum) :
    readGroups? sizes (writeGroups sizes digits) = some digits := by
  induction sizes generalizing digits with
  | nil =>
      rw [List.sum_nil, List.length_eq_zero_iff] at h
      rw [h]
      rfl
  | cons size sizes ih =>
      rw [List.sum_cons] at h
      cases sizes with
      | nil =>
          have hread := readGroups?_last (mapM_hexDigit? digits)
          rw [List.length_map, show digits.length = size by simpa using h] at hread
          exact hread
      | cons next sizes =>
          have hfront : (digits.take size).length = size := List.length_take_of_le (by omega)
          have hback : (digits.drop size).length = (next :: sizes).sum := by
            rw [List.length_drop]
            omega
          have hread := readGroups?_cons (mapM_hexDigit? (digits.take size)) (ih hback)
          rw [List.length_map, hfront, List.take_append_drop] at hread
          exact hread

theorem mem_writeGroups {sizes : List Nat} {digits : List (Fin 16)} {c : Char}
    (hc : c ∈ writeGroups sizes digits) : c = '-' ∨ ∃ d, c = hexChar d := by
  fun_induction writeGroups sizes digits with
  | case1 => cases hc
  | case2 size digits =>
      obtain ⟨d, -, rfl⟩ := List.mem_map.mp hc
      exact .inr ⟨d, rfl⟩
  | case3 size sizes digits _ ih =>
      rcases List.mem_append.mp hc with hfront | hback
      · obtain ⟨d, -, rfl⟩ := List.mem_map.mp hfront
        exact .inr ⟨d, rfl⟩
      · rcases List.mem_cons.mp hback with rfl | hback
        · exact .inl rfl
        · exact ih hback

theorem ofChars?_toText (u : Uuid) : ofChars? u.toText.toList = some u := by
  have hsize : u.digits.length = groups.sum := u.size
  rw [toText, String.toList_ofList, ofChars?, readGroups?_writeGroups hsize]
  dsimp only
  rw [dif_pos u.size]

theorem toText_injective : Function.Injective toText := by
  intro u v htext
  have hread := ofChars?_toText u
  rw [htext, ofChars?_toText] at hread
  exact (Option.some.inj hread).symm

/-- The text begins with a digit, and a hyphen stands in it. -/
theorem toText_shape (u : Uuid) :
    (∃ d, u.toText.toList.head? = some (hexChar d)) ∧ '-' ∈ u.toText.toList := by
  obtain ⟨digits, hsize⟩ := u
  cases digits with
  | nil => cases hsize
  | cons d digits =>
      rw [toText, String.toList_ofList]
      exact ⟨⟨d, rfl⟩, List.mem_append_right _ List.mem_cons_self⟩

theorem mem_toText {u : Uuid} {c : Char} (hc : c ∈ u.toText.toList) :
    c = '-' ∨ ∃ d, c = hexChar d := by
  rw [toText, String.toList_ofList] at hc
  exact mem_writeGroups hc

theorem trimmed_toText (u : Uuid) : Trimmed u.toText.toList := by
  have hvisible : ∀ c ∈ u.toText.toList, ¬isBlank c := by
    intro c hc
    rcases mem_toText hc with rfl | ⟨d, rfl⟩
    · decide
    · exact hexChar_not_blank d
  exact ⟨fun c hc => hvisible c (List.mem_of_mem_head? hc),
    fun c hc => hvisible c (List.mem_of_getLast? hc)⟩

end Uuid

namespace VertexId

variable {cs : List Char} {v : VertexId} {n : Int}

theorem unquote?_eq_none (h : cs.head? ≠ some '"') : unquote? cs = none :=
  if_neg fun hquoted => h hquoted.2.1

/-- A text that is not quoted is a numeral, a universal identifier or itself. -/
theorem ofTrimmed_unquoted (hne : cs ≠ []) (hquote : unquote? cs = none) : ofTrimmed cs =
    if isNumeral cs then
      match limited (takeSign cs).1 (takeSign cs).2 with
      | .ok n => .ok (.long n)
      | .error _ => .error .tooLong
    else
      match Uuid.ofChars? cs with
      | some u => .ok (.uuid u)
      | none => .ok (.utf8 (String.ofList cs)) := by
  have hempty : ¬cs.isEmpty := by simpa using hne
  rewrite [ofTrimmed, if_neg hempty, hquote]
  rfl

theorem hexChar_not_mark : ∀ d : Fin 16, hexChar d ∉ ['-', '+', ',', '"', '#'] := by decide

theorem parseChars_long (hn : Printable n) : parseChars (toString n).toList = .ok (.long n) := by
  have hnumeral : isNumeral (toString n).toList := by
    have hall : (Nat.toDigits 10 n.natAbs).all Text.isDigit :=
      List.all_eq_true.mpr fun c hc => isDigit_of_ascii (isDigits_toDigits _ c hc)
    rw [isNumeral, takeSign_int, isUnsigned, hall]
    simp
  have hquote : (toString n).toList.head? ≠ some '"' := fun hc =>
    (numberChar_of_mem_int (List.mem_of_mem_head? hc)).not_mark (by decide)
  rw [parseChars, (trimmed_int n).trim_eq,
    ofTrimmed_unquoted (toList_toString_int_ne_nil n) (unquote?_eq_none hquote), if_pos hnumeral,
    takeSign_int]
  dsimp only
  rw [limited_natAbs hn]

theorem isNumeral_uuid (u : Uuid) : isNumeral u.toText.toList = false := by
  obtain ⟨⟨d, hhead⟩, hhyphen⟩ := u.toText_shape
  have hsign : takeSign u.toText.toList = (false, u.toText.toList) := by
    obtain ⟨rest, hcs⟩ := List.head?_eq_some_iff.mp hhead
    rw [hcs]
    unfold takeSign
    split
    case h_1 heq => exact absurd ((List.cons.inj heq).1 ▸ hexChar_not_mark d) (by decide)
    case h_2 heq => exact absurd ((List.cons.inj heq).1 ▸ hexChar_not_mark d) (by decide)
    case h_3 => rfl
  rw [isNumeral, hsign, isUnsigned, ← Bool.not_eq_true]
  intro hall
  exact absurd (List.all_eq_true.mp (Bool.and_eq_true_iff.mp hall).2 '-' hhyphen) (by decide)

theorem parseChars_uuid (u : Uuid) : parseChars u.toText.toList = .ok (.uuid u) := by
  obtain ⟨⟨d, hhead⟩, -⟩ := u.toText_shape
  rw [parseChars, u.trimmed_toText.trim_eq, ofTrimmed_unquoted, isNumeral_uuid,
    Uuid.ofChars?_toText]
  · rfl
  · intro hnil
    rw [hnil] at hhead
    cases hhead
  · apply unquote?_eq_none
    rw [hhead]
    exact fun heq => absurd (Option.some.inj heq ▸ hexChar_not_mark d) (by decide)

/-- What a text without a quote at its start is read as. -/
theorem parseChars_cases (hquote : (trim cs).head? ≠ some '"') (h : parseChars cs = .ok v) :
    trim cs ≠ [] ∧ ((∃ n, v = .long n ∧ Printable n) ∨ (∃ u, v = .uuid u) ∨
      v = .utf8 (String.ofList (trim cs)) ∧ isNumeral (trim cs) = false ∧
        Uuid.ofChars? (trim cs) = none) := by
  rw [parseChars] at h
  have hne : trim cs ≠ [] := by
    intro hnil
    rw [hnil] at h
    cases h
  rw [ofTrimmed_unquoted hne (unquote?_eq_none hquote)] at h
  refine ⟨hne, ?_⟩
  split at h
  case isTrue =>
    split at h
    case h_1 n hlimited =>
      cases h
      exact .inl ⟨n, rfl, printable_of_limited hlimited⟩
    case h_2 => cases h
  case isFalse hnumeral =>
    split at h
    case h_1 u _ =>
      cases h
      exact .inr (.inl ⟨u, rfl⟩)
    case h_2 hnone =>
      cases h
      exact .inr (.inr ⟨rfl, Bool.eq_false_of_not_eq_true hnumeral, hnone⟩)

theorem dropFinalNewline_eq (h : Trimmed cs) : dropFinalNewline cs = cs :=
  if_neg fun hnewline => h.2 _ hnewline (by decide)

theorem toText_utf8 (htrimmed : Trimmed cs) (hnumeral : isNumeral cs = false)
    (huuid : Uuid.ofChars? cs = none) :
    (toText (.utf8 (String.ofList cs))).toList = cs := by
  have hplain : needsQuotes cs = false := by
    rw [needsQuotes, dropFinalNewline_eq htrimmed, hnumeral, huuid]
    rfl
  rw [toText, String.toList_ofList, hplain]
  exact String.toList_ofList

/-- An identifier that was read from a text without a quote at its start is read from its own text
again. -/
theorem parseChars_toText (hquote : (trim cs).head? ≠ some '"') (h : parseChars cs = .ok v) :
    parseChars v.toText.toList = .ok v := by
  obtain ⟨hne, ⟨n, rfl, hn⟩ | ⟨u, rfl⟩ | ⟨rfl, hnumeral, huuid⟩⟩ := parseChars_cases hquote h
  · exact parseChars_long hn
  · exact parseChars_uuid u
  · have htrimmed := trimmed_trim cs
    rw [toText_utf8 htrimmed hnumeral huuid, parseChars, htrimmed.trim_eq]
    exact h

end VertexId

end BulkPaths
