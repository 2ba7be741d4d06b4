import BulkPaths.Proofs.IdTexts
import BulkPaths.Proofs.VertexSteps
import BulkPaths.Targets

/-!
# Texts that name no identifier

A text is refused because it is blank or because nothing stands between its quotes, and that is said
of the text. The third way to fail is a numeral with more digits than are read: it passes for a
number until the number is made, so its fault is not one of the text and is not wrapped by those who
read lists of identifiers. A list is accepted if no entry is refused and the star stands alone.
-/

namespace BulkPaths

open Text Decimal

namespace VertexId

variable {cs : List Char} {token : String} {fault : Fault}

/-- A numeral with more digits than are read. -/
def LongNumeral (cs : List Char) : Prop := isNumeral cs ∧ digitLimit < (takeSign cs).2.length

theorem isNumeral_quoted (h : cs.head? = some '"') : isNumeral cs = false := by
  obtain ⟨rest, rfl⟩ := List.head?_eq_some_iff.mp h
  rfl

theorem head?_of_unquote? {inner : List Char} (h : unquote? cs = some inner) :
    cs.head? = some '"' := by
  unfold unquote? at h
  split at h
  case isTrue hquoted => exact hquoted.2.1
  case isFalse => cases h

theorem ofTrimmed_eq_tooLong : ofTrimmed cs = .error .tooLong ↔ LongNumeral cs := by
  unfold ofTrimmed LongNumeral
  by_cases hempty : cs.isEmpty
  · rw [if_pos hempty, List.isEmpty_iff.mp hempty]
    exact ⟨nofun, fun h => absurd h.1 (by decide)⟩
  rw [if_neg hempty]
  cases hquote : unquote? cs with
  | some inner =>
      have hnumeral := isNumeral_quoted (head?_of_unquote? hquote)
      dsimp only
      constructor
      · intro h
        split at h <;> cases h
      · intro h
        rw [hnumeral] at h
        exact absurd h.1 Bool.false_ne_true
  | none =>
      dsimp only
      by_cases hnumeral : isNumeral cs
      · rw [if_pos hnumeral]
        unfold limited
        by_cases hlong : digitLimit < (takeSign cs).2.length
        · rw [if_pos hlong]
          exact ⟨fun _ => ⟨hnumeral, hlong⟩, fun _ => rfl⟩
        · rw [if_neg hlong]
          exact ⟨nofun, fun h => absurd h.2 hlong⟩
      · rw [if_neg hnumeral]
        refine ⟨fun h => ?_, fun h => absurd h.1 hnumeral⟩
        split at h <;> cases h

theorem trim_trim (cs : List Char) : trim (trim cs) = trim cs := (trimmed_trim cs).trim_eq

theorem parseChars_trim (cs : List Char) : parseChars (trim cs) = parseChars cs := by
  rw [parseChars, parseChars, trim_trim]

/-- What a token is refused for. -/
theorem kind_of_parseChars_error {e : ParseError} (h : parseChars cs = .error e) :
    (Fault.ofParse e).kind = .input ∨ Fault.ofParse e = .longNumeral ∧ LongNumeral (trim cs) := by
  cases e with
  | blank => exact .inl rfl
  | emptyQuoted => exact .inl rfl
  | tooLong => exact .inr ⟨rfl, ofTrimmed_eq_tooLong.mp h⟩

theorem read_error (h : read token = .error fault) :
    fault.kind = .input ∨ fault = .longNumeral ∧ LongNumeral (trim token.toList) := by
  unfold read parse at h
  cases hparse : parseChars token.toList with
  | ok v =>
      rw [hparse] at h
      cases h
  | error e =>
      rw [hparse] at h
      cases h
      exact kind_of_parseChars_error hparse

end VertexId

namespace Targets

variable {raw : String} {fault : Fault} {targets : Targets}

/-- A list of identifiers wraps what is said of their texts. -/
theorem kind_of_wrap (outer : Fault → Fault) (houter : ∀ inner, (outer inner).kind = .config)
    {cs : List Char} {e : VertexId.ParseError} (h : VertexId.parseChars cs = .error e) :
    (wrap outer (.ofParse e)).kind = .config ∨
      wrap outer (.ofParse e) = .longNumeral ∧ VertexId.LongNumeral (trim cs) := by
  rcases VertexId.kind_of_parseChars_error h with hinput | ⟨hlong, hnumeral⟩
  · left
    rw [wrap, hinput]
    exact houter _
  · right
    rw [hlong]
    exact ⟨rfl, hnumeral⟩

theorem parseSource_error (h : parseSource raw = .error fault) :
    fault.kind = .config ∨ fault = .longNumeral ∧ VertexId.LongNumeral (trim raw.toList) := by
  simp only [parseSource] at h
  split at h
  case isTrue =>
    cases h
    exact .inl rfl
  case isFalse =>
    split at h
    case isTrue =>
      cases h
      exact .inl rfl
    case isFalse =>
      cases hparse : VertexId.parseChars (trim raw.toList) with
      | ok v =>
          rw [hparse] at h
          cases h
      | error e =>
          rw [hparse] at h
          cases h
          have hkind := kind_of_wrap .badSource (fun _ => rfl) hparse
          rwa [VertexId.trim_trim] at hkind

theorem mapM_eq_ok {ε α β : Type} {f : α → Except ε β} {items : List α} {found : List β} :
    items.mapM f = .ok found ↔ items.map f = found.map .ok := by
  induction items generalizing found with
  | nil => cases found <;> simp [pure, Except.pure]
  | cons item items ih =>
      rw [List.mapM_cons, List.map_cons]
      constructor
      · intro h
        obtain ⟨x, hx, h⟩ := bind_eq_ok.mp h
        obtain ⟨rest, hrest, h⟩ := bind_eq_ok.mp h
        cases h
        rw [hx, ih.mp hrest, List.map_cons]
      · intro h
        obtain ⟨x, rest, rfl, hx, hrest⟩ := List.map_eq_cons_iff.mp h.symm
        exact bind_eq_ok.mpr ⟨x, hx.symm, bind_eq_ok.mpr ⟨rest, ih.mpr hrest.symm, rfl⟩⟩

theorem exists_mem_of_mapM_error {ε α β : Type} {f : α → Except ε β} {items : List α} {e : ε}
    (h : items.mapM f = .error e) : ∃ item ∈ items, f item = .error e := by
  induction items with
  | nil => cases h
  | cons item items ih =>
      rw [List.mapM_cons] at h
      rcases bind_eq_error.mp h with hitem | ⟨_, _, h⟩
      · exact ⟨item, List.mem_cons_self, hitem⟩
      · rcases bind_eq_error.mp h with hrest | ⟨_, _, h⟩
        · obtain ⟨bad, hmem, hbad⟩ := ih hrest
          exact ⟨bad, List.mem_cons_of_mem _ hmem, hbad⟩
        · cases h

/-- The entries of a list, trimmed. -/
def entries (cs : List Char) : List (List Char) := (cutAt ',' cs).map trim

theorem ne_nil_of_entries {cs : List Char} {found : List VertexId}
    (h : (entries cs).map VertexId.parseChars = found.map .ok) : found ≠ [] := by
  rintro rfl
  exact cutAt_ne_nil ',' cs (List.map_eq_nil_iff.mp (List.map_eq_nil_iff.mp h))

theorem entries_of_blank {cs : List Char} (h : trim cs = []) : entries cs = [[]] := by
  have hcomma : ',' ∉ cs := by
    rw [← mem_trim_iff (by decide), h]
    exact List.not_mem_nil
  rw [entries, cutAt_of_not_mem hcomma, List.map_singleton, h]

/-- A list without empty entries gets past the first two checks. -/
theorem parse_of_entries (h : [] ∉ entries raw.toList) : parse raw =
    if (entries raw.toList).contains star then
      if (entries raw.toList).length = 1 then .ok .all else .error (.starNotAlone raw)
    else
      match (entries raw.toList).mapM VertexId.parseChars with
      | .ok ids => .ok (ofIds (IdSet.ofList ids))
      | .error e => .error (wrap (.badTarget raw) (.ofParse e)) := by
  have hblank : ¬isBlankText raw := by
    intro hblank
    rw [entries_of_blank (List.isEmpty_iff.mp hblank)] at h
    exact h List.mem_cons_self
  have hfull : ¬(entries raw.toList).any List.isEmpty := by
    rw [List.any_eq_true]
    rintro ⟨entry, hmem, hempty⟩
    exact h (List.isEmpty_iff.mp hempty ▸ hmem)
  rw [parse, if_neg hblank]
  exact if_neg hfull

/-- What is accepted: the star alone, or identifiers and no star. -/
theorem parse_eq_ok : parse raw = .ok targets ↔
    entries raw.toList = [star] ∧ targets = .all ∨
      star ∉ entries raw.toList ∧ ∃ ids,
        (entries raw.toList).map VertexId.parseChars = ids.map .ok ∧
          targets = ofIds (IdSet.ofList ids) := by
  constructor
  · intro h
    have hfull : [] ∉ entries raw.toList := by
      intro hmem
      have hempty : ((cutAt ',' raw.toList).map trim).any List.isEmpty :=
        List.any_eq_true.mpr ⟨[], hmem, rfl⟩
      simp only [parse, hempty, if_true] at h
      split at h <;> cases h
    rw [parse_of_entries hfull] at h
    split at h
    case isTrue hstar =>
      split at h
      case isTrue hone =>
        cases h
        obtain ⟨entry, hentry⟩ := List.length_eq_one_iff.mp hone
        rw [hentry, List.contains_iff_mem, List.mem_singleton] at hstar
        exact .inl ⟨by rw [hentry, hstar], rfl⟩
      case isFalse => cases h
    case isFalse hstar =>
      split at h
      case h_1 ids hids =>
        cases h
        exact .inr ⟨mt List.contains_iff_mem.mpr hstar, ids, mapM_eq_ok.mp hids, rfl⟩
      case h_2 => cases h
  · rintro (⟨hentries, rfl⟩ | ⟨hstar, ids, hids, rfl⟩)
    · rw [parse_of_entries (by rw [hentries]; decide), hentries]
      rfl
    · have hfull : [] ∉ entries raw.toList := by
        intro hmem
        have hblank : VertexId.parseChars [] ∈ ids.map .ok := hids ▸ List.mem_map_of_mem hmem
        obtain ⟨id, -, hid⟩ := List.mem_map.mp hblank
        cases hid
      rw [parse_of_entries hfull, if_neg (mt List.contains_iff_mem.mp hstar), mapM_eq_ok.mpr hids]

theorem parse_error (h : parse raw = .error fault) :
    fault.kind = .config ∨ fault = .longNumeral ∧
      ∃ token ∈ cutAt ',' raw.toList, VertexId.LongNumeral (trim token) := by
  simp only [parse] at h
  split at h
  case isTrue =>
    cases h
    exact .inl rfl
  split at h
  case isTrue =>
    cases h
    exact .inl rfl
  split at h
  case isTrue =>
    split at h
    case isTrue => cases h
    case isFalse =>
      cases h
      exact .inl rfl
  case isFalse =>
    split at h
    case h_1 => cases h
    case h_2 e hbad =>
      cases h
      obtain ⟨_, hmem, hparse⟩ := exists_mem_of_mapM_error hbad
      obtain ⟨token, htoken, rfl⟩ := List.mem_map.mp hmem
      have hkind := kind_of_wrap (.badTarget raw) (fun _ => rfl) hparse
      rw [VertexId.trim_trim] at hkind
      exact hkind.imp_right fun ⟨hlong, hnumeral⟩ => ⟨hlong, token, htoken, hnumeral⟩

end Targets

end BulkPaths
