import BulkPaths.Text.Blank
import BulkPaths.Text.Digit
import BulkPaths.Text.Lines
import Mathlib.Data.List.DropRight
import Mathlib.Data.List.TakeDrop

/-!
# Lines and cells

Text that holds no separator is cut off whole: a line before its end, a cell before a comma. Text
that begins and ends with something visible is not changed by trimming.
-/

namespace BulkPaths.Text

variable {c sep : Char} {cs ds : List Char}

/-- The text ends no line. -/
def Inline (cs : List Char) : Prop := ∀ c ∈ cs, c ≠ '\n' ∧ c ≠ '\r'

theorem inline_cons : Inline (c :: cs) ↔ (c ≠ '\n' ∧ c ≠ '\r') ∧ Inline cs := List.forall_mem_cons

theorem inline_append : Inline (cs ++ ds) ↔ Inline cs ∧ Inline ds := List.forall_mem_append

theorem inline_of_not_blank (h : ∀ c ∈ cs, ¬isBlank c) : Inline cs := by
  intro c hc
  constructor
  · rintro rfl
    exact h _ hc rfl
  · rintro rfl
    exact h _ hc rfl

theorem hexChar_not_blank : ∀ d : Fin 16, ¬isBlank (hexChar d) := by decide

theorem lines_append (h : Inline cs) (rest : List Char) :
    lines (cs ++ '\n' :: rest) = cs :: lines rest := by
  induction cs with
  | nil => simp [lines]
  | cons c cs ih =>
      obtain ⟨⟨hline, hreturn⟩, h⟩ := inline_cons.mp h
      rw [List.cons_append, lines, if_neg (by simp [hline, hreturn]), ih h]
      intro rest heq
      exact absurd heq hreturn

/-- A newline after every text makes each a line. -/
theorem lines_join {texts : List String} (h : ∀ text ∈ texts, Inline text.toList) :
    lines (String.join (texts.map fun text => text ++ "\n")).toList =
      texts.map String.toList := by
  induction texts with
  | nil => rfl
  | cons text texts ih =>
      have hjoin : (String.join ((text :: texts).map fun text => text ++ "\n")).toList =
          text.toList ++ '\n' :: (String.join (texts.map fun text => text ++ "\n")).toList := by
        simp [String.join_cons]
      rw [hjoin, lines_append (h text List.mem_cons_self),
        ih fun later hlater => h later (List.mem_cons_of_mem _ hlater), List.map_cons]

/-- A line holds no line end and nothing that the text does not hold. -/
theorem mem_lines {line : List Char} (h : line ∈ lines cs) (hc : c ∈ line) :
    c ∈ cs ∧ c ≠ '\n' ∧ c ≠ '\r' := by
  fun_induction lines cs generalizing line with
  | case1 => cases h
  | case2 rest ih =>
      rcases List.mem_cons.mp h with rfl | hlater
      · cases hc
      · have hmem := ih hlater hc
        exact ⟨List.mem_cons_of_mem _ (List.mem_cons_of_mem _ hmem.1), hmem.2⟩
  | case3 d rest _ hend ih =>
      rcases List.mem_cons.mp h with rfl | hlater
      · cases hc
      · have hmem := ih hlater hc
        exact ⟨List.mem_cons_of_mem _ hmem.1, hmem.2⟩
  | case4 d rest _ hplain hlast ih =>
      rw [List.mem_singleton.mp h, List.mem_singleton] at hc
      rw [hc]
      exact ⟨List.mem_cons_self, not_or.mp hplain⟩
  | case5 d rest _ hplain first more hsplit ih =>
      rw [hsplit] at ih
      rcases List.mem_cons.mp h with rfl | hlater
      · rcases List.mem_cons.mp hc with rfl | hfirst
        · exact ⟨List.mem_cons_self, not_or.mp hplain⟩
        · have hmem := ih List.mem_cons_self hfirst
          exact ⟨List.mem_cons_of_mem _ hmem.1, hmem.2⟩
      · have hmem := ih (List.mem_cons_of_mem _ hlater) hc
        exact ⟨List.mem_cons_of_mem _ hmem.1, hmem.2⟩

/-- A piece holds no separator and nothing that the text does not hold. -/
theorem mem_cutAt {piece : List Char} (h : piece ∈ cutAt sep cs) (hc : c ∈ piece) :
    c ∈ cs ∧ c ≠ sep := by
  fun_induction cutAt sep cs generalizing piece with
  | case1 =>
      rw [List.mem_singleton.mp h] at hc
      cases hc
  | case2 rest ih =>
      rcases List.mem_cons.mp h with rfl | hlater
      · cases hc
      · have hmem := ih hlater hc
        exact ⟨List.mem_cons_of_mem _ hmem.1, hmem.2⟩
  | case3 d rest hne _ ih =>
      rw [List.mem_singleton.mp h, List.mem_singleton] at hc
      rw [hc]
      exact ⟨List.mem_cons_self, hne⟩
  | case4 d rest hne first pieces hsplit ih =>
      rw [hsplit] at ih
      rcases List.mem_cons.mp h with rfl | hlater
      · rcases List.mem_cons.mp hc with rfl | hfirst
        · exact ⟨List.mem_cons_self, hne⟩
        · have hmem := ih List.mem_cons_self hfirst
          exact ⟨List.mem_cons_of_mem _ hmem.1, hmem.2⟩
      · have hmem := ih (List.mem_cons_of_mem _ hlater) hc
        exact ⟨List.mem_cons_of_mem _ hmem.1, hmem.2⟩

theorem cutAt_ne_nil (sep : Char) (cs : List Char) : cutAt sep cs ≠ [] := by
  fun_cases cutAt sep cs <;> exact List.cons_ne_nil _ _

theorem cutAt_of_not_mem (h : sep ∉ cs) : cutAt sep cs = [cs] := by
  induction cs with
  | nil => rfl
  | cons c cs ih =>
      obtain ⟨hc, h⟩ := not_or.mp fun hmem => h (List.mem_cons.mpr hmem)
      rw [cutAt, if_neg (Ne.symm hc), ih h]

theorem cutAt_append (h : sep ∉ cs) (rest : List Char) :
    cutAt sep (cs ++ sep :: rest) = cs :: cutAt sep rest := by
  induction cs with
  | nil => rw [List.nil_append, cutAt, if_pos rfl]
  | cons c cs ih =>
      obtain ⟨hc, h⟩ := not_or.mp fun hmem => h (List.mem_cons.mpr hmem)
      rw [List.cons_append, cutAt, if_neg (Ne.symm hc), ih h]

/-- Texts that are joined are cut apart again. -/
theorem cutAt_intercalate {texts : List (List Char)} (hne : texts ≠ [])
    (h : ∀ text ∈ texts, sep ∉ text) : cutAt sep ([sep].intercalate texts) = texts := by
  induction texts with
  | nil => exact absurd rfl hne
  | cons text texts ih =>
      obtain ⟨htext, hlater⟩ := List.forall_mem_cons.mp h
      cases texts with
      | nil => rw [List.intercalate_singleton, cutAt_of_not_mem htext]
      | cons next texts =>
          rw [List.intercalate_cons_cons, List.append_assoc, List.singleton_append,
            cutAt_append htext, ih (List.cons_ne_nil _ _) hlater]

theorem mem_intercalate {texts : List (List Char)} (h : c ∈ [sep].intercalate texts) :
    c = sep ∨ ∃ text ∈ texts, c ∈ text := by
  induction texts with
  | nil => cases h
  | cons text texts ih =>
      cases texts with
      | nil =>
          rw [List.intercalate_singleton] at h
          exact .inr ⟨text, List.mem_cons_self, h⟩
      | cons next texts =>
          rw [List.intercalate_cons_cons, List.append_assoc, List.mem_append, List.mem_append,
            List.mem_singleton] at h
          rcases h with htext | hsep | hlater
          · exact .inr ⟨text, List.mem_cons_self, htext⟩
          · exact .inl hsep
          · rcases ih hlater with hsep | ⟨later, hmem, hc⟩
            · exact .inl hsep
            · exact .inr ⟨later, List.mem_cons_of_mem _ hmem, hc⟩

theorem head?_intercalate {first : List Char} (hfirst : first ≠ []) (texts : List (List Char)) :
    ([sep].intercalate (first :: texts)).head? = first.head? := by
  obtain ⟨c, rest, rfl⟩ := List.exists_cons_of_ne_nil hfirst
  cases texts with
  | nil => rw [List.intercalate_singleton]
  | cons next texts =>
      rw [List.intercalate_cons_cons]
      rfl

theorem not_blank_of_getLast?_intercalate {texts : List (List Char)} (hsep : ¬isBlank sep)
    (h : ∀ text ∈ texts, ∀ c, text.getLast? = some c → ¬isBlank c)
    (hlast : ([sep].intercalate texts).getLast? = some c) : ¬isBlank c := by
  induction texts with
  | nil => cases hlast
  | cons text texts ih =>
      cases texts with
      | nil =>
          rw [List.intercalate_singleton] at hlast
          exact h text List.mem_cons_self c hlast
      | cons next texts =>
          have hlater := ih fun later hmem => h later (List.mem_cons_of_mem _ hmem)
          rw [List.intercalate_cons_cons, List.append_assoc, List.getLast?_append,
            List.getLast?_append] at hlast
          cases hjoined : ([sep].intercalate (next :: texts)).getLast? with
          | none =>
              rw [hjoined] at hlast
              cases hlast
              exact hsep
          | some d =>
              rw [hjoined] at hlast hlater
              exact hlater hlast

/-- The text begins and ends with characters that are not blank, if it has any. -/
def Trimmed (cs : List Char) : Prop :=
  (∀ c, cs.head? = some c → ¬isBlank c) ∧ ∀ c, cs.getLast? = some c → ¬isBlank c

theorem span_append {p : Char → Bool} (hcs : ∀ c ∈ cs, p c)
    (hds : ∀ c, ds.head? = some c → ¬p c) : (cs ++ ds).span p = (cs, ds) := by
  rw [List.span_eq_takeWhile_dropWhile, List.takeWhile_append_of_pos hcs,
    List.dropWhile_append_of_pos hcs]
  cases ds with
  | nil => simp
  | cons c ds => simp [hds c rfl]

theorem dropWhile_of_head {p : Char → Bool} (h : ∀ c, cs.head? = some c → ¬p c) :
    cs.dropWhile p = cs := by
  cases cs with
  | nil => rfl
  | cons c cs => rw [List.dropWhile_cons, if_neg (h c rfl)]

theorem Trimmed.trim_eq (h : Trimmed cs) : trim cs = cs := by
  have hleft : trimLeft cs = cs := dropWhile_of_head h.1
  rw [trim, hleft, trimRight, dropWhile_of_head, List.reverse_reverse]
  intro c hc
  rw [List.head?_reverse] at hc
  exact h.2 c hc

theorem not_of_head?_dropWhile {p : Char → Bool} (h : (cs.dropWhile p).head? = some c) : ¬p c := by
  have hne : cs.dropWhile p ≠ [] := by
    intro hnil
    rw [hnil] at h
    cases h
  rw [List.head?_eq_some_head hne] at h
  cases h
  exact Bool.eq_false_iff.mp (List.head_dropWhile_not p hne)

theorem trim_sublist (cs : List Char) : (trim cs).Sublist cs := by
  have hright : (trim cs).Sublist (trimLeft cs) := by
    rw [← List.reverse_sublist, trim, trimRight, List.reverse_reverse]
    exact List.dropWhile_sublist _
  exact hright.trans (List.dropWhile_sublist _)

theorem mem_of_mem_trim (h : c ∈ trim cs) : c ∈ cs := (trim_sublist cs).mem h

theorem trimmed_trim (cs : List Char) : Trimmed (trim cs) := by
  constructor
  · intro c hc
    have hprefix : trim cs <+: trimLeft cs := by
      rw [← List.reverse_suffix, trim, trimRight, List.reverse_reverse]
      exact List.dropWhile_suffix _
    obtain ⟨more, hmore⟩ := hprefix
    have hhead : (trimLeft cs).head? = some c := by
      rw [← hmore, List.head?_append, hc]
      rfl
    exact not_of_head?_dropWhile hhead
  · intro c hc
    rw [trim, trimRight, List.getLast?_reverse] at hc
    exact not_of_head?_dropWhile hc

/-- Trimming takes something off every text that is not trimmed. -/
theorem trimmed_of_length_trim (h : cs.length ≤ (trim cs).length) : Trimmed cs := by
  have hsame := (trim_sublist cs).eq_of_length_le h
  rw [← hsame]
  exact trimmed_trim cs

theorem head?_trim (h : ¬isBlank c) (cs : List Char) : (trim (c :: cs)).head? = some c := by
  rw [trim, trimLeft, List.dropWhile_cons, if_neg h, trimRight, List.reverse_cons,
    List.dropWhile_append]
  split
  · simp [h]
  · simp

theorem trimLeft_append (hc : ¬isBlank c) (cs ds : List Char) :
    trimLeft (cs ++ c :: ds) = trimLeft cs ++ c :: ds := by
  rw [trimLeft, List.dropWhile_append]
  split
  case isTrue hblank =>
    rw [List.dropWhile_cons, if_neg hc, trimLeft, List.isEmpty_iff.mp hblank, List.nil_append]
  case isFalse => rfl

theorem trimRight_append (hc : ¬isBlank c) (cs ds : List Char) :
    trimRight (cs ++ c :: ds) = cs ++ c :: trimRight ds := by
  have hleft := trimLeft_append hc ds.reverse cs.reverse
  unfold trimLeft at hleft
  rw [trimRight, List.reverse_append, List.reverse_cons, List.append_assoc, List.singleton_append,
    hleft, List.reverse_append, List.reverse_cons, List.reverse_reverse, List.append_assoc,
    List.singleton_append, trimRight]

/-- A visible character keeps what stands before it from being trimmed on the right, and what stands
after it on the left. -/
theorem trim_append (hc : ¬isBlank c) (cs ds : List Char) :
    trim (cs ++ c :: ds) = trimLeft cs ++ c :: trimRight ds := by
  rw [trim, trimLeft_append hc, trimRight_append hc]

theorem trim_trimLeft (cs : List Char) : trim (trimLeft cs) = trim cs := by
  rw [trim, trimLeft, trimLeft, List.dropWhile_idempotent, trim, trimLeft]

theorem trim_trimRight (cs : List Char) : trim (trimRight cs) = trim cs := by
  by_cases hblank : ∀ c ∈ cs, isBlank c
  · have hleft : trimLeft cs = [] := List.dropWhile_eq_nil_iff.mpr hblank
    have hright : trimRight cs = [] := by
      rw [trimRight, List.reverse_eq_nil_iff, List.dropWhile_eq_nil_iff]
      exact fun c hc => hblank c (List.mem_reverse.mp hc)
    rw [hright, trim, trim, hleft]
    rfl
  · push Not at hblank
    obtain ⟨c, hmem, hc⟩ := hblank
    obtain ⟨front, back, rfl⟩ := List.append_of_mem hmem
    have hback : trimRight (trimRight back) = trimRight back := by
      rw [trimRight, trimRight, List.reverse_reverse, List.dropWhile_idempotent]
    rw [trimRight_append hc, trim_append hc, trim_append hc, hback]

/-- What is visible is not trimmed away. -/
theorem mem_trim_iff (hc : ¬isBlank c) : c ∈ trim cs ↔ c ∈ cs := by
  refine ⟨mem_of_mem_trim, fun hmem => ?_⟩
  obtain ⟨front, back, rfl⟩ := List.append_of_mem hmem
  rw [trim_append hc]
  exact List.mem_append_right _ List.mem_cons_self

theorem trim_cons_of_blank (h : isBlank c) (cs : List Char) : trim (c :: cs) = trim cs := by
  rw [trim, trimLeft, List.dropWhile_cons, if_pos h, trim, trimLeft]

theorem trim_concat_of_blank (h : isBlank c) (cs : List Char) : trim (cs ++ [c]) = trim cs := by
  rw [← trim_trimRight, trimRight, List.reverse_append, List.reverse_singleton,
    List.singleton_append, List.dropWhile_cons, if_pos h, ← trimRight, trim_trimRight]

/-- White space around a text is trimmed away with the white space at its ends. -/
theorem trim_padded {before after : List Char} (hbefore : ∀ c ∈ before, isBlank c)
    (hafter : ∀ c ∈ after, isBlank c) : trim (before ++ (cs ++ after)) = trim cs := by
  induction before with
  | cons c before ih =>
      obtain ⟨hc, hbefore⟩ := List.forall_mem_cons.mp hbefore
      rw [List.cons_append, trim_cons_of_blank hc, ih hbefore]
  | nil =>
      rw [List.nil_append]
      induction after using List.reverseRecOn with
      | nil => rw [List.append_nil]
      | append_singleton after c ih =>
          obtain ⟨hafter, hc⟩ := List.forall_mem_append.mp hafter
          rw [← List.append_assoc, trim_concat_of_blank (hc c List.mem_cons_self), ih hafter]

end BulkPaths.Text
