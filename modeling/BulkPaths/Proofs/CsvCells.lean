import BulkPaths.Format.Csv
import BulkPaths.Proofs.IdTexts
import BulkPaths.Proofs.TextLines

/-!
# What a cell keeps

A cell is trimmed and holds no separator. A value that was read from a cell has a text that is a
cell again and is read as the same value, though it may be another text: numerals lose their signs,
underscores and leading zeros. The same holds of identifiers.
-/

namespace BulkPaths.Csv

open Text Decimal

variable {cs part row : List Char} {c : Char} {value : Value} {v : VertexId}

/-- A text that stands in a row as one cell. -/
structure IsCell (cs : List Char) : Prop where
  plain : ∀ c ∈ cs, c ∉ [',', '\t', '\n', '\r', '"']
  trimmed : Trimmed cs

theorem IsCell.inline (h : IsCell cs) : Inline cs := by
  intro c hc
  have hplain := h.plain c hc
  constructor
  · rintro rfl
    exact hplain (by decide)
  · rintro rfl
    exact hplain (by decide)

theorem IsCell.head?_ne_quote (h : IsCell cs) : cs.head? ≠ some '"' := fun hc =>
  h.plain '"' (List.mem_of_mem_head? hc) (by decide)

/-- Characters that are not blank make a cell, if no comma and no quote is among them. -/
theorem isCell_of_visible (h : ∀ c ∈ cs, ¬isBlank c ∧ c ≠ ',' ∧ c ≠ '"') : IsCell cs where
  plain c hc := by
    obtain ⟨hblank, hcomma, hquote⟩ := h c hc
    intro hmem
    fin_cases hmem
    · exact hcomma rfl
    · exact hblank rfl
    · exact hblank rfl
    · exact hblank rfl
    · exact hquote rfl
  trimmed := ⟨fun c hc => (h c (List.mem_of_mem_head? hc)).1,
    fun c hc => (h c (List.mem_of_getLast? hc)).1⟩

theorem isCell_of_numberChars (h : ∀ c ∈ cs, NumberChar c) : IsCell cs := by
  apply isCell_of_visible
  intro c hc
  have hmark := (h c hc).not_mark
  simp only [List.mem_cons, not_or] at hmark
  exact ⟨(h c hc).not_blank, hmark.1, hmark.2.1⟩

theorem isCell_of_mem_cells (hrow : ∀ c ∈ row, c ∉ ['\n', '\r', '"']) (h : part ∈ cells row) :
    IsCell part := by
  obtain ⟨piece, hpiece, rfl⟩ := List.mem_map.mp h
  refine ⟨?_, trimmed_trim piece⟩
  intro c hc
  obtain ⟨hmem, hcomma⟩ := mem_cutAt hpiece (mem_of_mem_trim hc)
  obtain ⟨d, hd, heq⟩ := List.mem_map.mp hmem
  by_cases htab : d = '\t'
  · rw [if_pos htab] at heq
    exact absurd heq.symm hcomma
  · rw [if_neg htab] at heq
    subst heq
    have hplain := hrow d hd
    simp only [List.mem_cons, not_or] at hplain ⊢
    exact ⟨hcomma, htab, hplain⟩

section Values

theorem toList_text_ne_nil (x : Float) : (text x).toList ≠ [] := by
  intro hnil
  have hread := readFloat?_text x
  rw [hnil] at hread
  cases hread

theorem isCell_text (x : Float) : IsCell (text x).toList := by
  cases hshape : Binary64.shape x with
  | nan =>
      rw [toList_text_nan hshape]
      apply isCell_of_visible
      intro c hc
      fin_cases hc <;> decide
  | infinite negative =>
      rw [toList_text_infinite hshape]
      apply isCell_of_visible
      intro c hc
      have hmem : c ∈ ['-', 'i', 'n', 'f'] := by cases negative <;> simp_all [signChars]
      fin_cases hmem <;> decide
  | finite negative m e =>
      obtain ⟨s, hchars, -⟩ := exists_spelling_of_shape hshape
      rw [hchars]
      exact isCell_of_numberChars (numberChar_of_mem_spelling s)

/-- The text of the value is a cell that is not empty, and the value is read from it. -/
structure Kept (value : Value) : Prop where
  cell : IsCell value.plain.toList
  ne_nil : value.plain.toList ≠ []
  read : cellValue value.plain.toList = value

theorem cellValue_ne_null (cs : List Char) : cellValue cs ≠ .null := by
  unfold cellValue
  split
  · exact nofun
  · split
    · exact nofun
    · exact nofun

theorem Kept.ne_null (h : Kept value) : value ≠ .null := by
  rw [← h.read]
  exact cellValue_ne_null _

/-- What is read from a cell is kept. -/
theorem kept_cellValue (h : IsCell cs) (hne : cs ≠ []) : Kept (cellValue cs) := by
  cases hint : readInt cs with
  | ok n =>
      have hvalue : cellValue cs = .int n := by simp only [cellValue, hint]
      have hread : readInt (toString n).toList = .ok n :=
        readInt_toString (printable_of_readInt hint)
      rw [hvalue]
      exact {
        cell := isCell_of_numberChars fun c hc => numberChar_of_mem_int hc
        ne_nil := toList_toString_int_ne_nil n
        read := by
          change cellValue (toString n).toList = _
          simp only [cellValue, hread] }
  | error e =>
      cases hfloat : readFloat? cs with
      | some x =>
          have hvalue : cellValue cs = .real x := by simp only [cellValue, hint, hfloat]
          rw [hvalue]
          exact {
            cell := isCell_text x
            ne_nil := toList_text_ne_nil x
            read := by
              change cellValue (text x).toList = _
              simp only [cellValue, readInt_text, readFloat?_text] }
      | none =>
          have hvalue : cellValue cs = .text (String.ofList cs) := by
            simp only [cellValue, hint, hfloat]
          have hplain : (Value.text (String.ofList cs)).plain.toList = cs := String.toList_ofList
          rw [hvalue]
          constructor
          · rwa [hplain]
          · rwa [hplain]
          · rw [hplain, hvalue]

end Values

section Ids

/-- The text of the identifier is a cell that is not empty, and the identifier is read from it. -/
structure KeptId (v : VertexId) : Prop where
  cell : IsCell v.toText.toList
  ne_nil : v.toText.toList ≠ []
  read : VertexId.read v.toText = .ok v

theorem parseChars_of_read {token : String} (h : VertexId.read token = .ok v) :
    VertexId.parseChars token.toList = .ok v := by
  unfold VertexId.read VertexId.parse at h
  cases hparse : VertexId.parseChars token.toList with
  | ok u =>
      rw [hparse] at h
      cases h
      rfl
  | error e =>
      rw [hparse] at h
      cases h

/-- What is read from a cell is kept, and only a text that begins with a number sign has a text that
does. -/
theorem keptId_of_read (h : IsCell cs) (hread : VertexId.read (String.ofList cs) = .ok v) :
    KeptId v ∧ (cs.head? ≠ some '#' → v.toText.toList.head? ≠ some '#') := by
  have hparse := parseChars_of_read hread
  rw [String.toList_ofList] at hparse
  have hquote : (trim cs).head? ≠ some '"' := by
    rw [h.trimmed.trim_eq]
    exact h.head?_ne_quote
  have hback : VertexId.read v.toText = .ok v := by
    rw [VertexId.read, VertexId.parse, VertexId.parseChars_toText hquote hparse]
    rfl
  obtain ⟨hne, ⟨n, rfl, -⟩ | ⟨u, rfl⟩ | ⟨rfl, hnumeral, huuid⟩⟩ :=
    VertexId.parseChars_cases hquote hparse
  · have hchars : ∀ c ∈ (toString n).toList, NumberChar c := fun c => numberChar_of_mem_int
    refine ⟨⟨isCell_of_numberChars hchars, toList_toString_int_ne_nil n, hback⟩, fun _ hc => ?_⟩
    exact (hchars '#' (List.mem_of_mem_head? hc)).not_mark (by decide)
  · have hchars : ∀ c ∈ u.toText.toList, ¬isBlank c ∧ c ∉ [',', '"', '#'] := by
      intro c hc
      rcases Uuid.mem_toText hc with rfl | ⟨d, rfl⟩
      · decide
      · have hmark := VertexId.hexChar_not_mark d
        simp only [List.mem_cons, not_or] at hmark ⊢
        exact ⟨hexChar_not_blank d, hmark.2.2⟩
    obtain ⟨⟨d, hhead⟩, -⟩ := u.toText_shape
    refine ⟨⟨isCell_of_visible ?_, ?_, hback⟩, fun _ hc => ?_⟩
    · intro c hc
      obtain ⟨hblank, hmark⟩ := hchars c hc
      simp only [List.mem_cons, not_or] at hmark
      exact ⟨hblank, hmark.1, hmark.2.1⟩
    · intro hnil
      change u.toText.toList = [] at hnil
      rw [hnil] at hhead
      cases hhead
    · exact (hchars '#' (List.mem_of_mem_head? hc)).2 (by decide)
  · have htext := VertexId.toText_utf8 (trimmed_trim cs) hnumeral huuid
    rw [h.trimmed.trim_eq] at hne htext hback ⊢
    refine ⟨⟨?_, ?_, hback⟩, ?_⟩
    all_goals rw [htext]
    · exact h
    · exact hne
    · exact id

end Ids

end BulkPaths.Csv
