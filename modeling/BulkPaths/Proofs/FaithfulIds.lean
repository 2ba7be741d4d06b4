import BulkPaths.Proofs.Construction
import BulkPaths.Proofs.IdTexts

/-!
# Identifiers that survive their text

The text of an identifier is meant to be read as the identifier. Whether it needs quotes is decided
on the text as it stands, but the reader trims it first, and takes quotes off. So a text survives if
it could be taken for something else, because it is quoted then, and otherwise only if trimming and
unquoting leave it as it is. Nothing that is read in its place is as long.
-/

namespace BulkPaths

open Text Decimal

namespace Uuid

variable {sizes : List Nat} {cs front : List Char} {digits : List (Fin 16)}

/-- Groups of hexadecimal digits, in either case, with hyphens between them. -/
def Spells (sizes : List Nat) (cs : List Char) : Prop :=
  ∃ parts : List (List Char), parts.map List.length = sizes ∧
    (∀ part ∈ parts, ∀ c ∈ part, (hexDigit? c).isSome) ∧ cs = ['-'].intercalate parts

theorem mapM_hexDigit?_iff : front.mapM hexDigit? = some digits ↔
    List.Forall₂ (fun c d => hexDigit? c = some d) front digits := by
  induction front generalizing digits with
  | nil =>
      rw [List.forall₂_nil_left_iff, eq_comm]
      exact Option.some_inj
  | cons c front ih =>
      simp only [List.mapM_cons, Option.bind_eq_bind, Option.bind_eq_some_iff, Option.pure_def,
        Option.some_inj]
      constructor
      · rintro ⟨d, hd, rest, hrest, rfl⟩
        exact .cons hd (ih.mp hrest)
      · rintro (_ | ⟨hd, hrest⟩)
        exact ⟨_, hd, _, ih.mpr hrest, rfl⟩

theorem length_of_mapM_hexDigit? (h : front.mapM hexDigit? = some digits) :
    digits.length = front.length :=
  (mapM_hexDigit?_iff.mp h).length_eq.symm

theorem exists_mapM_hexDigit? (h : ∀ c ∈ front, (hexDigit? c).isSome) :
    ∃ digits, front.mapM hexDigit? = some digits := by
  induction front with
  | nil => exact ⟨[], rfl⟩
  | cons c front ih =>
      obtain ⟨hc, hfront⟩ := List.forall_mem_cons.mp h
      obtain ⟨d, hd⟩ := Option.isSome_iff_exists.mp hc
      obtain ⟨digits, hdigits⟩ := ih hfront
      exact ⟨d :: digits, mapM_hexDigit?_iff.mpr (.cons hd (mapM_hexDigit?_iff.mp hdigits))⟩

theorem hexDigits_of_mapM (h : front.mapM hexDigit? = some digits) :
    ∀ c ∈ front, (hexDigit? c).isSome := by
  have hall := mapM_hexDigit?_iff.mp h
  clear h
  induction hall with
  | nil => simp
  | cons hd _ ih => exact List.forall_mem_cons.mpr ⟨by rw [hd]; rfl, ih⟩

/-- The digits that are read are no more than the groups have room for, and if they fill them the
text spells them. -/
theorem spells_of_readGroups? (h : readGroups? sizes cs = some digits) :
    digits.length ≤ sizes.sum ∧ (digits.length = sizes.sum → Spells sizes cs) := by
  fun_induction readGroups? sizes cs generalizing digits with
  | case1 =>
      cases h
      exact ⟨Nat.le_refl 0, fun _ => ⟨[], rfl, by simp, rfl⟩⟩
  | case2 => cases h
  | case3 => cases h
  | case5 => cases h
  | case4 size sizes cs rest hyphen hnext front back hback hfront =>
      rename_i ih
      cases h
      obtain ⟨hle, hspells⟩ := ih hback
      have hdigits := hexDigits_of_mapM hfront
      have hlength := length_of_mapM_hexDigit? hfront
      have htake : (cs.take size).length ≤ size := List.length_take_le size cs
      rw [List.length_append, List.sum_cons]
      refine ⟨by omega, fun hfull => ?_⟩
      have hsize : (cs.take size).length = size := by omega
      obtain ⟨parts, hsizes, hparts, htext⟩ := hspells (by omega)
      refine ⟨cs.take size :: parts, by rw [List.map_cons, hsize, hsizes],
        List.forall_mem_cons.mpr ⟨hdigits, hparts⟩, ?_⟩
      cases parts with
      | nil =>
          obtain rfl : [] = sizes := hsizes
          have hrest : cs.drop size = [] := htext
          rw [List.intercalate_singleton]
          conv_lhs => rw [← List.take_append_drop size cs, hrest, List.append_nil]
      | cons part parts =>
          subst hsizes
          have hhead : rest.head? = some '-' := by simpa [hyphen] using hnext
          obtain ⟨tail, htail⟩ := List.head?_eq_some_iff.mp hhead
          have hcut : rest.tail = ['-'].intercalate (part :: parts) := htext
          rw [List.intercalate_cons_cons, ← hcut, htail]
          conv_lhs => rw [← List.take_append_drop size cs, show cs.drop size = rest from rfl, htail]
          simp

theorem readGroups?_of_spells (h : Spells sizes cs) :
    ∃ digits, readGroups? sizes cs = some digits ∧ digits.length = sizes.sum := by
  obtain ⟨parts, rfl, hparts, rfl⟩ := h
  induction parts with
  | nil => exact ⟨[], rfl, rfl⟩
  | cons part parts ih =>
      obtain ⟨hpart, hlater⟩ := List.forall_mem_cons.mp hparts
      obtain ⟨front, hfront⟩ := exists_mapM_hexDigit? hpart
      have hlength := length_of_mapM_hexDigit? hfront
      cases parts with
      | nil =>
          rw [List.intercalate_singleton, List.map_singleton, List.sum_singleton]
          exact ⟨front, readGroups?_last hfront, hlength⟩
      | cons next parts =>
          obtain ⟨digits, hdigits, hsum⟩ := ih hlater
          rw [List.intercalate_cons_cons, List.append_assoc]
          refine ⟨front ++ digits, readGroups?_cons hfront hdigits, ?_⟩
          simp only [List.length_append, List.map_cons, List.sum_cons, hlength, hsum]

theorem isSome_ofChars?_iff : (ofChars? cs).isSome ↔ Spells groups cs := by
  unfold ofChars?
  constructor
  · intro h
    split at h
    case h_1 => cases h
    case h_2 digits hdigits =>
      split at h
      case isTrue hsize => exact (spells_of_readGroups? hdigits).2 hsize
      case isFalse => cases h
  · intro h
    obtain ⟨digits, hdigits, hsum⟩ := readGroups?_of_spells h
    rw [hdigits]
    dsimp only
    rw [dif_pos (show digits.length = 32 from hsum)]
    rfl

/-- Only digits and hyphens stand in the text. -/
theorem mem_of_spells {c : Char} (h : Spells sizes cs) (hc : c ∈ cs) :
    c = '-' ∨ (hexDigit? c).isSome := by
  obtain ⟨parts, -, hparts, rfl⟩ := h
  rcases mem_intercalate hc with hsep | ⟨part, hpart, hc⟩
  · exact .inl hsep
  · exact .inr (hparts part hpart c hc)

end Uuid

namespace VertexId

variable {cs inner : List Char} {s : String} {v w : VertexId}

/-- Digits of any script, with or without a sign. -/
def Numeral (cs : List Char) : Prop :=
  ∃ sign digits, cs = sign ++ digits ∧ sign ∈ [[], ['+'], ['-']] ∧ digits ≠ [] ∧
    ∀ c ∈ digits, Text.isDigit c

/-- A numeral or a universal identifier, also with a newline after it. -/
def Mistakable (cs : List Char) : Prop :=
  ∃ body, (cs = body ∨ cs = body ++ ['\n']) ∧ (Numeral body ∨ Uuid.Spells Uuid.groups body)

/-- Two different quotes stand at the ends. -/
def Quoted (cs : List Char) : Prop :=
  2 ≤ cs.length ∧ cs.head? = some '"' ∧ cs.getLast? = some '"'

/-- Identifiers whose text should be read as the identifier. -/
def Faithful : VertexId → Prop
  | .utf8 s => Mistakable s.toList ∨ Trimmed s.toList ∧ ¬Quoted s.toList
  | _ => True

theorem isNumeral_iff : isNumeral cs ↔ Numeral cs := by
  have hunsigned {digits : List Char} :
      isUnsigned digits ↔ digits ≠ [] ∧ ∀ c ∈ digits, Text.isDigit c := by
    rw [isUnsigned, Bool.and_eq_true, List.all_eq_true]
    simp
  rw [isNumeral, hunsigned]
  constructor
  · intro h
    unfold takeSign at h
    split at h
    case h_1 digits => exact ⟨['-'], digits, rfl, by simp, h⟩
    case h_2 digits => exact ⟨['+'], digits, rfl, by simp, h⟩
    case h_3 => exact ⟨[], cs, rfl, by simp, h⟩
  · rintro ⟨sign, digits, rfl, hsign, hne, hdigits⟩
    have hplain : takeSign digits = (false, digits) := by
      unfold takeSign
      split
      case h_1 => exact absurd (hdigits '-' List.mem_cons_self) (by decide)
      case h_2 => exact absurd (hdigits '+' List.mem_cons_self) (by decide)
      case h_3 => rfl
    simp only [List.mem_cons, List.not_mem_nil, or_false] at hsign
    rcases hsign with rfl | rfl | rfl
    · rw [List.nil_append, hplain]
      exact ⟨hne, hdigits⟩
    · exact ⟨hne, hdigits⟩
    · exact ⟨hne, hdigits⟩

theorem not_newline_mem (h : Numeral cs ∨ Uuid.Spells Uuid.groups cs) : '\n' ∉ cs := by
  intro hmem
  rcases h with ⟨sign, digits, rfl, hsign, -, hdigits⟩ | hspells
  · rcases List.mem_append.mp hmem with hmem | hmem
    · simp only [List.mem_cons, List.not_mem_nil, or_false] at hsign
      rcases hsign with rfl | rfl | rfl <;> exact absurd hmem (by decide)
    · exact absurd (hdigits _ hmem) (by decide)
  · rcases Uuid.mem_of_spells hspells hmem with hhyphen | hdigit
    · exact absurd hhyphen (by decide)
    · exact absurd hdigit (by decide)

theorem needsQuotes_iff : needsQuotes cs ↔ Mistakable cs := by
  have hbody (body : List Char) : (isNumeral body || (Uuid.ofChars? body).isSome) ↔
      Numeral body ∨ Uuid.Spells Uuid.groups body := by
    rw [Bool.or_eq_true, isNumeral_iff, Uuid.isSome_ofChars?_iff]
  rw [needsQuotes, hbody]
  constructor
  · intro h
    refine ⟨dropFinalNewline cs, ?_, h⟩
    unfold dropFinalNewline
    split
    case isTrue hnewline =>
      obtain ⟨front, rfl⟩ := List.getLast?_eq_some_iff.mp hnewline
      rw [List.dropLast_concat]
      exact .inr rfl
    case isFalse => exact .inl rfl
  · rintro ⟨body, rfl | rfl, h⟩
    · have hlast : cs.getLast? ≠ some '\n' := fun hlast =>
        not_newline_mem h (List.mem_of_getLast? hlast)
      rwa [dropFinalNewline, if_neg hlast]
    · rwa [dropFinalNewline, if_pos List.getLast?_concat, List.dropLast_concat]

theorem unquote?_eq_none_iff : unquote? cs = none ↔ ¬Quoted cs := by
  unfold unquote? Quoted
  split <;> simp_all

/-- Both quotes are taken off. -/
theorem length_of_unquote? (h : unquote? cs = some inner) : inner.length + 2 = cs.length := by
  unfold unquote? at h
  split at h
  case isTrue hquoted =>
    cases h
    rw [List.length_dropLast, List.length_tail]
    omega
  case isFalse => cases h

theorem parseChars_quoted (hne : cs ≠ []) :
    parseChars ('"' :: (cs ++ ['"'])) = .ok (.utf8 (String.ofList cs)) := by
  have hlast : ('"' :: (cs ++ ['"'])).getLast? = some '"' := by
    rw [← List.cons_append, List.getLast?_concat]
  have htrimmed : Trimmed ('"' :: (cs ++ ['"'])) := by
    refine ⟨fun c hc => ?_, fun c hc => ?_⟩
    · cases hc
      decide
    · rw [hlast] at hc
      cases hc
      decide
  have hunquote : unquote? ('"' :: (cs ++ ['"'])) = some cs := by
    rw [unquote?, if_pos ⟨by simp, rfl, hlast⟩, List.tail_cons, List.dropLast_concat]
  rw [parseChars, htrimmed.trim_eq, ofTrimmed, if_neg (by simp), hunquote]
  exact if_neg (by simpa using hne)

/-- A text that is read is the trimmed text, or stands between its quotes. -/
theorem ofTrimmed_utf8 (h : ofTrimmed cs = .ok (.utf8 s)) :
    s ≠ "" ∧ (unquote? cs = none ∧ s.toList = cs ∨ unquote? cs = some s.toList) := by
  have hne {cs : List Char} (hcs : ¬cs.isEmpty) : String.ofList cs ≠ "" := by
    simpa using hcs
  unfold ofTrimmed at h
  split at h
  case isTrue => cases h
  case isFalse htext =>
    split at h
    case h_1 inner hquote =>
      split at h
      case isTrue => cases h
      case isFalse hinner =>
        cases h
        exact ⟨hne hinner, .inr (by rw [String.toList_ofList, hquote])⟩
    case h_2 hquote =>
      split at h
      case isTrue =>
        dsimp only at h
        split at h <;> cases h
      case isFalse =>
        split at h
        case h_1 => cases h
        case h_2 =>
          cases h
          exact ⟨hne htext, .inl ⟨hquote, String.toList_ofList⟩⟩

/-- The room that an identifier takes as a text; only texts take any. -/
def bulk : VertexId → Nat
  | .utf8 s => s.toList.length + 1
  | _ => 0

/-- Identifiers that have a text to be read: a number is not too long, a text is not empty. -/
def Legible : VertexId → Prop
  | .long n => Printable n
  | .utf8 s => s ≠ ""
  | .uuid _ => True

theorem legible_of_ofTrimmed (h : ofTrimmed cs = .ok v) : v.Legible := by
  cases v with
  | utf8 s => exact (ofTrimmed_utf8 h).1
  | uuid u => trivial
  | long n =>
      unfold ofTrimmed at h
      split at h
      case isTrue => cases h
      split at h
      case h_1 => split at h <;> cases h
      split at h
      case isTrue =>
        dsimp only at h
        split at h
        case h_1 n hlimited =>
          cases h
          exact printable_of_limited hlimited
        case h_2 => cases h
      case isFalse => split at h <;> cases h

theorem parse_toText_utf8_of_faithful (hne : s ≠ "") (h : (utf8 s).Faithful) :
    parse (utf8 s).toText = .ok (.utf8 s) := by
  have hchars : s.toList ≠ [] := by simpa using hne
  rw [parse, toText]
  split
  case isTrue =>
    have hquoted := parseChars_quoted hchars
    rw [String.ofList_toList] at hquoted
    rw [← hquoted]
    simp
  case isFalse hplain =>
    have hunmistakable := mt needsQuotes_iff.mpr hplain
    obtain ⟨htrimmed, hquote⟩ := h.resolve_left hunmistakable
    have hnumeral : ¬isNumeral s.toList := fun hnumeral =>
      hunmistakable ⟨s.toList, .inl rfl, .inl (isNumeral_iff.mp hnumeral)⟩
    have huuid : Uuid.ofChars? s.toList = none := by
      rw [← Option.not_isSome_iff_eq_none, Uuid.isSome_ofChars?_iff]
      exact fun hspells => hunmistakable ⟨s.toList, .inl rfl, .inr hspells⟩
    rw [parseChars, htrimmed.trim_eq,
      ofTrimmed_unquoted hchars (unquote?_eq_none_iff.mpr hquote), if_neg hnumeral, huuid,
      String.ofList_toList]

/-- What is read in place of a text that is not kept takes less room. -/
theorem bulk_of_parse_utf8 (h : ¬(utf8 s).Faithful) (hread : parse (utf8 s).toText = .ok w) :
    w.bulk < (utf8 s).bulk := by
  obtain ⟨hunmistakable, hchanged⟩ := not_or.mp h
  have hplain : ¬needsQuotes s.toList := mt needsQuotes_iff.mp hunmistakable
  rw [parse, toText, if_neg hplain] at hread
  cases w with
  | long n => exact Nat.succ_pos _
  | uuid u => exact Nat.succ_pos _
  | utf8 t =>
      refine Nat.succ_lt_succ ?_
      have hle := (trim_sublist s.toList).length_le
      rcases (ofTrimmed_utf8 hread).2 with ⟨hquote, htrim⟩ | hinner
      · rw [htrim]
        refine Nat.lt_of_not_le fun hlength => hchanged ?_
        have htrimmed := trimmed_of_length_trim hlength
        rw [htrimmed.trim_eq] at hquote
        exact ⟨htrimmed, unquote?_eq_none_iff.mp hquote⟩
      · have hlength := length_of_unquote? hinner
        omega

theorem parse_toText (hlegible : v.Legible) (h : v.Faithful) : parse v.toText = .ok v := by
  cases v with
  | long n => exact parseChars_long hlegible
  | utf8 s => exact parse_toText_utf8_of_faithful hlegible h
  | uuid u => exact parseChars_uuid u

theorem bulk_of_parse (h : ¬v.Faithful) (hread : parse v.toText = .ok w) : w.bulk < v.bulk := by
  cases v with
  | long n => exact absurd trivial h
  | utf8 s => exact bulk_of_parse_utf8 h hread
  | uuid u => exact absurd trivial h

theorem legible_of_ofValue {raw : Value} (hraw : ofValue raw = .ok v)
    (hshort : ∀ n, v = .long n → Printable n) : v.Legible := by
  cases v with
  | long n => exact hshort n rfl
  | utf8 s => exact fun hempty => (ofValue_eq_ok.mp hraw).2 (congrArg utf8 hempty)
  | uuid u => trivial

/-- **The identifiers that survive their text.** An identifier whose number is not too long is read
from its own text if and only if it is a number, a universal identifier, a text that could be
mistaken for one of the two, or a text that neither trimming nor unquoting would change. From the
text of any other nothing is read or another identifier. -/
theorem parse_toText_iff {raw : Value} (hraw : ofValue raw = .ok v)
    (hshort : ∀ n, v = .long n → Printable n) :
    (parse v.toText = .ok v ↔ v.Faithful) ∧
      (¬v.Faithful → (∃ e, parse v.toText = .error e) ∨ ∃ w ≠ v, parse v.toText = .ok w) := by
  have hchanged {u : VertexId} (h : ¬v.Faithful) (hread : parse v.toText = .ok u) : u ≠ v := by
    rintro rfl
    exact Nat.lt_irrefl _ (bulk_of_parse h hread)
  constructor
  · constructor
    · intro hread
      by_contra h
      exact hchanged h hread rfl
    · exact parse_toText (legible_of_ofValue hraw hshort)
  · intro h
    cases hread : parse v.toText with
    | error e => exact .inl ⟨e, rfl⟩
    | ok w => exact .inr ⟨w, hchanged h hread, rfl⟩

/-- A digit of another script gets quotes also with a newline after it; a space at the start is
lost. -/
theorem parse_toText_seven_padded :
    parse (utf8 "٧\n").toText = .ok (utf8 "٧\n") ∧ parse (utf8 " x").toText ≠ .ok (utf8 " x") := by
  have hdigit : Text.isDigit '٧' := by decide +kernel
  have hseven : (utf8 "٧\n").Faithful :=
    .inl ⟨['٧'], .inr rfl, .inl
      ⟨[], ['٧'], rfl, by decide, by decide, List.forall_mem_singleton.mpr hdigit⟩⟩
  have hpadded : ¬(utf8 " x").Faithful := by
    rw [Faithful, ← needsQuotes_iff]
    rintro (hquotes | ⟨htrimmed, -⟩)
    · exact absurd hquotes (by decide +kernel)
    · exact htrimmed.1 ' ' rfl rfl
  constructor
  · have hraw : ofValue (.text "٧\n") = .ok (utf8 "٧\n") := rfl
    exact (parse_toText_iff hraw nofun).1.mpr hseven
  · have hraw : ofValue (.text " x") = .ok (utf8 " x") := rfl
    exact mt (parse_toText_iff hraw nofun).1.mp hpadded

end VertexId

end BulkPaths
