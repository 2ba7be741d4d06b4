import BulkPaths.Proofs.JsonTexts
import BulkPaths.Proofs.NumeralTexts

/-!
# Texts of JSON without the names of numbers

Numbers that are not finite have names, which JSON proper does not know: they begin with an N or an
I, after a sign perhaps. A name may still be part of a quoted text, so it is what stands outside the
quotes that has to be free of these letters. Where all numbers are finite it is, because the words
of JSON are in lower case.
-/

namespace BulkPaths.Json

open Text Decimal

variable {cs ds : List Char} {value : Value}

/-- What stands outside the quoted texts; a reading may begin inside of one. -/
def outside : Bool → List Char → List Char
  | _, [] => []
  | false, c :: rest => if c = '"' then outside true rest else c :: outside false rest
  | true, '\\' :: _ :: rest => outside true rest
  | true, c :: rest => outside (c != '"') rest

/-- Neither a quote nor a letter that a name of a number begins with. -/
def isPlain (c : Char) : Bool := c != '"' && c != 'N' && c != 'I'

/-- The text leaves its quotes, and names no number outside of them. -/
def Unnamed (cs : List Char) : Prop :=
  ∀ rest, ∃ marks, outside false (cs ++ rest) = marks ++ outside false rest ∧
    'N' ∉ marks ∧ 'I' ∉ marks

/-- No number in the value is infinite or none at all. -/
inductive AllFinite : Value → Prop
  | null : AllFinite .null
  | bool (b : Bool) : AllFinite (.bool b)
  | int (n : Int) : AllFinite (.int n)
  | real {x : Float} (finite : x.isFinite) : AllFinite (.real x)
  | text (s : String) : AllFinite (.text s)
  | uuid (u : Uuid) : AllFinite (.uuid u)
  | list {items : List Value} (items_finite : ∀ item ∈ items, AllFinite item) :
      AllFinite (.list items)
  | record {fields : Properties} (fields_finite : ∀ field ∈ fields, AllFinite field.2) :
      AllFinite (.record fields)

section Quotes

theorem outside_true_cons {c : Char} (hquote : c ≠ '"') (hslash : c ≠ '\\') (rest : List Char) :
    outside true (c :: rest) = outside true rest := by
  rw [outside]
  · rw [bne_iff_ne.mpr hquote]
  · rintro d rest rfl
    exact absurd rfl hslash

theorem outside_true_append (h : ∀ c ∈ cs, c ≠ '"' ∧ c ≠ '\\') (rest : List Char) :
    outside true (cs ++ rest) = outside true rest := by
  induction cs with
  | nil => rfl
  | cons c cs ih =>
      obtain ⟨⟨hquote, hslash⟩, hlater⟩ := List.forall_mem_cons.mp h
      rw [List.cons_append, outside_true_cons hquote hslash, ih hlater]

theorem hexChar_no_quote : ∀ d : Fin 16, hexChar d ≠ '"' ∧ hexChar d ≠ '\\' := by decide

theorem outside_escapeUnit (n : Nat) (rest : List Char) :
    outside true (escapeUnit n ++ rest) = outside true rest := by
  have hhex : ∀ c ∈ hex 4 n, c ≠ '"' ∧ c ≠ '\\' := by
    intro c hc
    obtain ⟨i, -, rfl⟩ := List.mem_map.mp hc
    exact hexChar_no_quote _
  exact outside_true_append hhex rest

theorem outside_escape (c : Char) (rest : List Char) :
    outside true (escape c ++ rest) = outside true rest := by
  unfold escape
  split_ifs with hquote hline hreturn htab hback hfeed hprint
  case pos => rfl
  case pos => rfl
  case pos => rfl
  case pos => rfl
  case pos => rfl
  case pos => rfl
  case pos =>
    obtain ⟨hnotQuote, hnotSlash⟩ := not_or.mp hquote
    exact outside_true_cons hnotQuote hnotSlash rest
  case neg =>
    unfold units
    split
    case isTrue =>
      rw [List.flatMap_singleton]
      exact outside_escapeUnit _ rest
    case isFalse =>
      rw [List.flatMap_cons, List.flatMap_singleton, List.append_assoc, outside_escapeUnit,
        outside_escapeUnit]

/-- A quoted text is passed over. -/
theorem outside_quote (s : String) (rest : List Char) :
    outside false ((quote s).toList ++ rest) = outside false rest := by
  have hinside (cs : List Char) :
      outside true (cs.flatMap escape ++ '"' :: rest) = outside false rest := by
    induction cs with
    | nil => rfl
    | cons c cs ih => rw [List.flatMap_cons, List.append_assoc, outside_escape, ih]
  rw [toList_quote, List.cons_append, outside, if_pos rfl, List.append_assoc]
  exact hinside s.toList

end Quotes

namespace Unnamed

theorem nil : Unnamed [] := fun _ => ⟨[], rfl, List.not_mem_nil, List.not_mem_nil⟩

theorem append (h : Unnamed cs) (h' : Unnamed ds) : Unnamed (cs ++ ds) := by
  intro rest
  obtain ⟨marks, hmarks, hnan, hinfinity⟩ := h (ds ++ rest)
  obtain ⟨marks', hmarks', hnan', hinfinity'⟩ := h' rest
  refine ⟨marks ++ marks', ?_, ?_, ?_⟩
  · rw [List.append_assoc, hmarks, hmarks', List.append_assoc]
  · exact fun hmem => (List.mem_append.mp hmem).elim hnan hnan'
  · exact fun hmem => (List.mem_append.mp hmem).elim hinfinity hinfinity'

theorem quote (s : String) : Unnamed (Json.quote s).toList := fun rest =>
  ⟨[], outside_quote s rest, List.not_mem_nil, List.not_mem_nil⟩

theorem of_plain (h : cs.all isPlain) : Unnamed cs := by
  have hplain := List.all_eq_true.mp h
  intro rest
  refine ⟨cs, ?_, fun hmem => absurd (hplain _ hmem) (by decide),
    fun hmem => absurd (hplain _ hmem) (by decide)⟩
  clear h
  induction cs with
  | nil => rfl
  | cons c cs ih =>
      obtain ⟨hc, hlater⟩ := List.forall_mem_cons.mp hplain
      have hquote : c ≠ '"' := by
        rintro rfl
        exact absurd hc (by decide)
      rw [List.cons_append, outside, if_neg hquote, ih hlater, List.cons_append]

theorem of_numberChars (h : ∀ c ∈ cs, NumberChar c) : Unnamed cs := by
  refine of_plain (List.all_eq_true.mpr fun c hc => ?_)
  rcases h c hc with hdigit | hmark
  · have hmem := mem_digits_of_isDigit hdigit
    fin_cases hmem <;> rfl
  · fin_cases hmark <;> rfl

theorem commaSeparated {texts : List String} (h : ∀ text ∈ texts, Unnamed text.toList) :
    Unnamed (Value.commaSeparated texts).toList := by
  induction texts with
  | nil => exact nil
  | cons text texts ih =>
      obtain ⟨htext, hlater⟩ := List.forall_mem_cons.mp h
      cases texts with
      | nil =>
          rw [commaSeparated_singleton]
          exact htext
      | cons next texts =>
          rw [commaSeparated_cons]
          exact htext.append (@append [',', ' '] _ (of_plain rfl) (ih hlater))

end Unnamed

theorem exists_finite_shape {x : Float} (h : x.isFinite) :
    ∃ negative m e, Binary64.shape x = .finite negative m e := by
  cases hshape : Binary64.shape x with
  | nan =>
      rw [Binary64.eq_nan_of_shape hshape] at h
      exact absurd h Bool.false_ne_true
  | infinite negative =>
      rw [Binary64.eq_infinity_of_shape hshape] at h
      cases negative <;> exact absurd h Bool.false_ne_true
  | finite negative m e => exact ⟨negative, m, e, rfl⟩

theorem unnamed_number {x : Float} (h : x.isFinite) : Unnamed (number x).toList := by
  obtain ⟨negative, m, e, hshape⟩ := exists_finite_shape h
  obtain ⟨s, hchars, -⟩ := exists_spelling_of_shape hshape
  simp only [number, hshape]
  rw [hchars]
  exact .of_numberChars (numberChar_of_mem_spelling s)

theorem unnamed_write (h : AllFinite value) : Unnamed (write value).toList := by
  induction h with
  | null => exact .of_plain rfl
  | bool b => cases b <;> exact .of_plain rfl
  | int n => exact .of_numberChars fun c hc => numberChar_of_mem_int hc
  | real finite => exact unnamed_number finite
  | text s => exact .quote s
  | uuid u => exact .quote u.toText
  | @list items _ ih =>
      rw [toList_write_list]
      refine @Unnamed.append ['['] _ (.of_plain rfl) (.append (.commaSeparated ?_) (.of_plain rfl))
      intro text htext
      obtain ⟨item, hitem, rfl⟩ := List.mem_map.mp htext
      exact ih item hitem
  | @record fields _ ih =>
      rw [toList_write_record]
      refine @Unnamed.append ['\x7b'] _ (.of_plain rfl)
        (.append (.commaSeparated ?_) (.of_plain rfl))
      intro text htext
      obtain ⟨field, hfield, rfl⟩ := List.mem_map.mp htext
      rw [writeField, String.toList_append, String.toList_append]
      exact ((Unnamed.quote field.1).append (.of_plain rfl)).append (ih field hfield)

/-- Outside of quotes no letter of a name of a number is written. -/
theorem unnamed_outside (h : AllFinite value) :
    'N' ∉ outside false (write value).toList ∧ 'I' ∉ outside false (write value).toList := by
  obtain ⟨marks, hmarks, hnames⟩ := unnamed_write h []
  rw [List.append_nil] at hmarks
  rw [hmarks, outside, List.append_nil]
  exact hnames

end BulkPaths.Json
