import BulkPaths.Json.Reader
import Mathlib.Data.List.TakeDrop
import Mathlib.Tactic.FinCases

/-!
# Nesting in JSON text

A text is refused for its depth only where a list or record opens within as many others as may be
open. Brackets within quotes do not count, so a cursor is moved over the text that knows whether it
stands in quotes; what a reader takes off brings it back to the level where it was.
-/

namespace BulkPaths.Json

open Text

/-- Where in a text: outside of quotes, between them, or after a backslash there. -/
inductive Zone
  | outside
  | quoted
  | escaped
  deriving DecidableEq, Repr

/-- A place in a text, with the number of lists and records that are open there. -/
structure Cursor where
  zone : Zone
  level : Nat
  deriving DecidableEq, Repr

def openers : List Char := ['[', '\x7b']

def closers : List Char := [']', '\x7d']

def Cursor.step (cursor : Cursor) (c : Char) : Cursor :=
  match cursor.zone with
  | .escaped => { cursor with zone := .quoted }
  | .quoted =>
    if c = '"' then { cursor with zone := .outside }
    else if c = '\\' then { cursor with zone := .escaped }
    else cursor
  | .outside =>
    if c = '"' then { cursor with zone := .quoted }
    else if c ∈ openers then { cursor with level := cursor.level + 1 }
    else if c ∈ closers then { cursor with level := cursor.level - 1 }
    else cursor

def Cursor.over (cursor : Cursor) (cs : List Char) : Cursor := cs.foldl step cursor

/-- A list or record opens within `depth` others. -/
def Nested (depth : Nat) (cs : List Char) : Prop :=
  ∃ front opener rest, cs = front ++ opener :: rest ∧ opener ∈ openers ∧
    Cursor.over ⟨.outside, 0⟩ front = ⟨.outside, depth⟩

/-- Outside of quotes the text leads from one level to another. -/
def Leads (start stop : Nat) (cs : List Char) : Prop :=
  ∀ level, Cursor.over ⟨.outside, level + start⟩ cs = ⟨.outside, level + stop⟩

def marks : List Char := '"' :: (openers ++ closers)

/-- Characters that neither open nor close anything. -/
def Flat (cs : List Char) : Prop := ∀ c ∈ cs, c ∉ marks

/-- What is taken off before the rest neither opens nor closes anything. -/
def Skips (cs rest : List Char) : Prop := ∃ front, cs = front ++ rest ∧ Flat front

section Moves

variable {a b d : Nat} {c : Char} {cs ds es : List Char}

theorem over_append (cursor : Cursor) (cs ds : List Char) :
    cursor.over (cs ++ ds) = (cursor.over cs).over ds := List.foldl_append

theorem Leads.append (hcs : Leads a b cs) (hds : Leads b d ds) : Leads a d (cs ++ ds) := by
  intro level
  rw [over_append, hcs, hds]

/-- A text that stays above some level may as well begin higher. -/
theorem Leads.lift (h : Leads a b cs) (more : Nat) : Leads (a + more) (b + more) cs := by
  intro level
  have hcs := h (level + more)
  rwa [Nat.add_right_comm, Nat.add_assoc, Nat.add_right_comm, Nat.add_assoc] at hcs

theorem Flat.leads (h : Flat cs) : Leads 0 0 cs := by
  intro level
  induction cs with
  | nil => rfl
  | cons c cs ih =>
      have hc := h c List.mem_cons_self
      simp only [marks, List.mem_cons, List.mem_append, not_or] at hc
      have hstep : Cursor.step ⟨.outside, level + 0⟩ c = ⟨.outside, level + 0⟩ := by
        simp [Cursor.step, hc]
      rw [Cursor.over, List.foldl_cons, hstep]
      exact ih fun d hd => h d (List.mem_cons_of_mem _ hd)

theorem leads_opener (h : c ∈ openers) : Leads 0 1 [c] := by
  intro level
  fin_cases h <;> rfl

theorem leads_closer (h : c ∈ closers) : Leads 1 0 [c] := by
  intro level
  fin_cases h <;> rfl

theorem Skips.refl (cs : List Char) : Skips cs cs := ⟨[], rfl, nofun⟩

theorem Skips.trans (hcs : Skips cs ds) (hds : Skips ds es) : Skips cs es := by
  obtain ⟨front, rfl, hfront⟩ := hcs
  obtain ⟨next, rfl, hnext⟩ := hds
  exact ⟨front ++ next, (List.append_assoc ..).symm, List.forall_mem_append.mpr ⟨hfront, hnext⟩⟩

theorem Skips.cons (hc : c ∉ marks) (h : Skips cs ds) : Skips (c :: cs) ds := by
  obtain ⟨front, rfl, hfront⟩ := h
  exact ⟨c :: front, rfl, List.forall_mem_cons.mpr ⟨hc, hfront⟩⟩

/-- A run of characters of one kind, none of them a mark. -/
theorem skips_dropWhile {p : Char → Bool} (hp : ∀ c ∈ marks, p c = false) (cs : List Char) :
    Skips cs (cs.dropWhile p) := by
  refine ⟨cs.takeWhile p, List.takeWhile_append_dropWhile.symm, fun c hc hmark => ?_⟩
  have hkind : p c = true := List.all_eq_true.mp List.all_takeWhile c hc
  rw [hp c hmark] at hkind
  cases hkind

theorem skips_skipSpace (cs : List Char) : Skips cs (skipSpace cs) :=
  skips_dropWhile (by simp [marks, openers, closers, isSpace]) cs

end Moves

section Scanning

variable {cs rest after : List Char}

theorem quoted_of_hexValue? {c : Char} {n : Nat} (h : hexValue? c = some n) (level : Nat) :
    Cursor.step ⟨.quoted, level⟩ c = ⟨.quoted, level⟩ := by
  have hquote : c ≠ '"' := by
    rintro rfl
    cases h
  have hslash : c ≠ '\\' := by
    rintro rfl
    cases h
  simp [Cursor.step, hquote, hslash]

/-- A text ends where its quotes end. -/
theorem over_of_scanText {units : List Nat} (h : scanText cs = some (units, after)) :
    ∃ front, cs = front ++ after ∧
      ∀ level, Cursor.over ⟨.quoted, level⟩ front = ⟨.outside, level⟩ := by
  fun_induction scanText cs generalizing units after
  case case1 => cases h
  case case2 rest =>
    cases h
    exact ⟨['"'], rfl, fun _ => rfl⟩
  case case3 a b c d rest unit units' after' hrest hunit ih =>
    cases h
    obtain ⟨front, rfl, hover⟩ := ih hrest
    refine ⟨'\\' :: 'u' :: a :: b :: c :: d :: front, rfl, fun level => ?_⟩
    unfold hexUnit? at hunit
    obtain ⟨_, ha, hunit⟩ := Option.bind_eq_some_iff.mp hunit
    obtain ⟨_, hb, hunit⟩ := Option.bind_eq_some_iff.mp hunit
    obtain ⟨_, hc, hunit⟩ := Option.bind_eq_some_iff.mp hunit
    obtain ⟨_, hd, -⟩ := Option.bind_eq_some_iff.mp hunit
    have hescape : Cursor.over ⟨.quoted, level⟩ ['\\', 'u'] = ⟨.quoted, level⟩ := rfl
    change (Cursor.over ⟨.quoted, level⟩ ['\\', 'u']).over (a :: b :: c :: d :: front) = _
    rw [hescape]
    simp only [Cursor.over, List.foldl_cons, quoted_of_hexValue? ha, quoted_of_hexValue? hb,
      quoted_of_hexValue? hc, quoted_of_hexValue? hd]
    exact hover level
  case case4 => cases h
  case case5 c rest _ unit units' after' hrest hunit ih =>
    cases h
    obtain ⟨front, rfl, hover⟩ := ih hrest
    exact ⟨'\\' :: c :: front, rfl, hover⟩
  case case6 => cases h
  case case7 => cases h
  case case8 c rest hquote _ hslash _ ih =>
    obtain ⟨⟨units', after'⟩, hrest, heq⟩ := Option.map_eq_some_iff.mp h
    cases heq
    have hother : c ≠ '\\' := by
      rintro rfl
      cases rest with
      | nil => cases hrest
      | cons d rest => exact hslash d rest rfl rfl
    obtain ⟨front, rfl, hover⟩ := ih hrest
    refine ⟨c :: front, rfl, fun level => ?_⟩
    have hstep : Cursor.step ⟨.quoted, level⟩ c = ⟨.quoted, level⟩ := by
      simp [Cursor.step, hother, show c ≠ '"' from hquote]
    rw [Cursor.over, List.foldl_cons, hstep]
    exact hover level

theorem skips_digits (cs : List Char) : Skips cs (cs.dropWhile isAsciiDigit) :=
  skips_dropWhile (by simp [marks, openers, closers, isAsciiDigit]) cs

theorem skips_takeWhole? {digits : List Char} (h : takeWhole? cs = some (digits, after)) :
    Skips cs after := by
  unfold takeWhole? at h
  split at h
  case h_1 =>
    cases h
    exact .cons (by decide) (.refl _)
  case h_2 =>
    rw [List.span_eq_takeWhile_dropWhile] at h
    dsimp only at h
    split at h
    · cases h
    · cases h
      exact skips_digits cs

theorem skips_takeFraction (cs : List Char) : Skips cs (takeFraction cs).2 := by
  unfold takeFraction
  split
  case h_1 rest =>
    rw [List.span_eq_takeWhile_dropWhile]
    dsimp only
    split
    · exact .refl _
    · exact .cons (by decide) (skips_digits rest)
  case h_2 => exact .refl cs

theorem skips_takeSign (cs : List Char) : Skips cs (Decimal.takeSign cs).2 := by
  unfold Decimal.takeSign
  split
  case h_1 => exact .cons (by decide) (.refl _)
  case h_2 => exact .cons (by decide) (.refl _)
  case h_3 => exact .refl cs

theorem skips_takeExponent? {exponent : Int} (h : takeExponent? cs = some (exponent, after)) :
    Skips cs after := by
  unfold takeExponent? at h
  split at h
  case h_1 => cases h
  case h_2 e rest =>
    split at h
    case isTrue he =>
      simp only [List.span_eq_takeWhile_dropWhile] at h
      split at h
      · cases h
      · cases h
        have hletter : e ∉ marks := by rcases he with rfl | rfl <;> decide
        exact .cons hletter ((skips_takeSign rest).trans (skips_digits _))
    case isFalse => cases h

/-- Faults that are not about the depth. -/
def Plain (fault : Fault) : Prop := fault = .malformedJson ∨ fault = .longNumeral

/-- A word or number that is taken off, or a fault that has nothing to do with the depth. -/
def Shallow {α : Type} (cs : List Char) : Except Fault (α × List Char) → Prop
  | .ok (_, after) => Skips cs after
  | .error fault => Plain fault

theorem Shallow.cons {α : Type} {c : Char} {outcome : Except Fault (α × List Char)}
    (hc : c ∉ marks) (h : Shallow cs outcome) : Shallow (c :: cs) outcome := by
  cases outcome with
  | error fault => exact h
  | ok found => exact Skips.cons hc h

theorem shallow_scanNumber (negative : Bool) (cs : List Char) :
    Shallow cs (scanNumber negative cs) := by
  unfold scanNumber
  split
  case h_1 => exact .inl rfl
  case h_2 whole afterWhole hwhole =>
    have hskips := (skips_takeWhole? hwhole).trans (skips_takeFraction afterWhole)
    dsimp only
    split
    case h_1 =>
      split
      · split
        · exact hskips
        · exact .inr rfl
      · exact hskips
    case h_2 hexponent => exact hskips.trans (skips_takeExponent? hexponent)

theorem skips_after? {word : String} (hword : Flat word.toList) (h : after? word cs = some after) :
    Skips cs after := by
  unfold after? at h
  split at h
  case isTrue hfront =>
    cases h
    obtain ⟨rest, rfl⟩ := List.isPrefixOf_iff_prefix.mp hfront
    rw [← String.length_toList, List.drop_left]
    exact ⟨word.toList, rfl, hword⟩
  case isFalse => cases h

theorem shallow_scanScalar (cs : List Char) : Shallow cs (scanScalar cs) := by
  unfold scanScalar
  split
  case h_1 found hfound =>
    obtain ⟨entry, hentry, hafter⟩ := List.exists_of_findSome?_eq_some hfound
    obtain ⟨rest, hrest, rfl⟩ := Option.map_eq_some_iff.mp hafter
    have hflat : ∀ entry ∈ words, Flat entry.1.toList := by
      simp [words, Flat, marks, openers, closers]
    exact skips_after? (hflat entry hentry) hrest
  case h_2 =>
    split
    case h_1 => exact (shallow_scanNumber true _).cons (by decide)
    case h_2 => exact shallow_scanNumber false cs

end Scanning

/-- A reader that brings the cursor down from level `start`, or a fault that is about the depth only
where something opens within `depth` others. -/
def Sized {α : Type} (depth start : Nat) (cs : List Char) : Except Fault (α × List Char) → Prop
  | .ok (_, after) => ∃ front, cs = front ++ after ∧ Leads start 0 front
  | .error fault => Plain fault ∨ ∃ kind, fault = .tooDeep kind ∧
      ∃ front opener rest, cs = front ++ opener :: rest ∧ opener ∈ openers ∧ Leads 0 depth front

namespace Sized

variable {α β : Type} {depth start : Nat} {cs front : List Char} {fault : Fault} {c : Char}
  {outcome : Except Fault (α × List Char)}

theorem plain (h : Plain fault) :
    Sized depth start cs (.error fault : Except Fault (α × List Char)) := .inl h

theorem malformed : Sized depth start cs (.error .malformedJson : Except Fault (α × List Char)) :=
  .plain (.inl rfl)

/-- What stands before may rise and come back. -/
theorem after (hfront : Leads 0 0 front) (h : Sized depth start cs outcome) :
    Sized depth start (front ++ cs) outcome := by
  cases outcome with
  | ok found =>
      obtain ⟨next, rfl, hnext⟩ := h
      have hlifted := hfront.lift start
      rw [Nat.zero_add] at hlifted
      exact ⟨front ++ next, (List.append_assoc ..).symm, hlifted.append hnext⟩
  | error fault =>
      refine h.imp_right ?_
      rintro ⟨kind, rfl, next, opener, rest, rfl, hopener, hnext⟩
      exact ⟨kind, rfl, front ++ next, opener, rest, (List.append_assoc ..).symm, hopener,
        hfront.append hnext⟩

theorem skip {rest : List Char} (hskips : Skips cs rest) (h : Sized depth start rest outcome) :
    Sized depth start cs outcome := by
  obtain ⟨front, rfl, hflat⟩ := hskips
  exact h.after hflat.leads

/-- Within one bracket more, one less may be open. -/
theorem opened (hc : c ∈ openers) (h : Sized depth 1 cs outcome) :
    Sized (depth + 1) 0 (c :: cs) outcome := by
  have hopener := leads_opener hc
  cases outcome with
  | ok found =>
      obtain ⟨front, rfl, hfront⟩ := h
      exact ⟨c :: front, rfl, hopener.append hfront⟩
  | error fault =>
      refine h.imp_right ?_
      rintro ⟨kind, rfl, front, opener, rest, rfl, hopens, hfront⟩
      have hlifted := hfront.lift 1
      rw [Nat.zero_add] at hlifted
      exact ⟨kind, rfl, c :: front, opener, rest, rfl, hopens, hopener.append hlifted⟩

theorem closed {a : α} (hc : c ∈ closers) : Sized depth 1 (c :: cs) (.ok (a, cs)) :=
  ⟨[c], rfl, leads_closer hc⟩

theorem map (f : α → β) (h : Sized depth start cs outcome) :
    Sized depth start cs (outcome.map fun found => (f found.1, found.2)) := by
  cases outcome with
  | ok found => exact h
  | error fault => exact h

theorem ofShallow (h : Shallow cs outcome) : Sized depth 0 cs outcome := by
  cases outcome with
  | ok found =>
      obtain ⟨front, rfl, hflat⟩ := h
      exact ⟨front, rfl, hflat.leads⟩
  | error fault => exact .inl h

/-- A text between quotes comes back to its level. -/
theorem leads_text {rest after : List Char} {units : List Nat}
    (h : scanText rest = some (units, after)) :
    ∃ front, '"' :: rest = front ++ after ∧ Leads 0 0 front := by
  obtain ⟨front, rfl, hover⟩ := over_of_scanText h
  exact ⟨'"' :: front, rfl, fun level => hover level⟩

end Sized

section Readers

variable {fuel : Nat}

theorem sized_scanValue (hitems : ∀ depth cs, Sized depth 1 cs (scanItems fuel depth cs))
    (hmembers : ∀ depth cs, Sized depth 1 cs (scanMembers fuel depth [] cs))
    (depth : Nat) (cs : List Char) : Sized depth 0 cs (scanValue (fuel + 1) depth cs) := by
  unfold scanValue
  split
  case h_1 rest =>
    split
    case h_1 units after hscan =>
      obtain ⟨front, heq, hleads⟩ := Sized.leads_text hscan
      exact ⟨front, heq, hleads⟩
    case h_2 => exact .malformed
  case h_2 rest =>
    by_cases hdepth : depth = 0
    · rw [if_pos hdepth, hdepth]
      exact .inr ⟨_, rfl, [], '[', rest, rfl, by decide, fun _ => rfl⟩
    · obtain ⟨depth, rfl⟩ := Nat.exists_eq_succ_of_ne_zero hdepth
      rw [if_neg hdepth]
      refine .opened (by decide) (.skip (skips_skipSpace rest) ?_)
      split
      case h_1 heq =>
        rw [heq]
        exact .closed (by decide)
      case h_2 => exact (hitems depth _).map _
  case h_3 rest =>
    by_cases hdepth : depth = 0
    · rw [if_pos hdepth, hdepth]
      exact .inr ⟨_, rfl, [], '\x7b', rest, rfl, by decide, fun _ => rfl⟩
    · obtain ⟨depth, rfl⟩ := Nat.exists_eq_succ_of_ne_zero hdepth
      rw [if_neg hdepth]
      refine .opened (by decide) (.skip (skips_skipSpace rest) ?_)
      split
      case h_1 heq =>
        rw [heq]
        exact .closed (by decide)
      case h_2 => exact (hmembers depth _).map _
  case h_4 => exact .ofShallow (shallow_scanScalar cs)

theorem sized_scanItems (hvalue : ∀ depth cs, Sized depth 0 cs (scanValue fuel depth cs))
    (hitems : ∀ depth cs, Sized depth 1 cs (scanItems fuel depth cs))
    (depth : Nat) (cs : List Char) : Sized depth 1 cs (scanItems (fuel + 1) depth cs) := by
  have hvalue := hvalue depth cs
  rw [scanItems]
  cases hscan : scanValue fuel depth cs with
  | error fault =>
      rw [hscan] at hvalue
      exact hvalue
  | ok found =>
      obtain ⟨item, after⟩ := found
      rw [hscan] at hvalue
      obtain ⟨front, rfl, hleads⟩ := hvalue
      refine .after hleads (.skip (skips_skipSpace after) ?_)
      simp only [bind, Except.bind]
      split
      case h_1 heq =>
        rw [heq]
        exact .closed (by decide)
      case h_2 rest heq =>
        rw [heq]
        refine .skip (.cons (by decide) (skips_skipSpace rest)) ?_
        have hmore := hitems depth (skipSpace rest)
        cases hrest : scanItems fuel depth (skipSpace rest) with
        | error fault =>
            rw [hrest] at hmore
            exact hmore
        | ok found =>
            rw [hrest] at hmore
            exact hmore
      case h_3 => exact .malformed

theorem sized_scanMembers (hvalue : ∀ depth cs, Sized depth 0 cs (scanValue fuel depth cs))
    (hmembers : ∀ depth fields cs, Sized depth 1 cs (scanMembers fuel depth fields cs))
    (depth : Nat) (fields : Properties) (cs : List Char) :
    Sized depth 1 cs (scanMembers (fuel + 1) depth fields cs) := by
  unfold scanMembers
  split
  case h_2 => exact .malformed
  case h_1 rest =>
    split
    case h_1 => exact .malformed
    case h_2 units after hscan =>
      obtain ⟨front, heq, hleads⟩ := Sized.leads_text hscan
      rw [heq]
      refine .after hleads (.skip (skips_skipSpace after) ?_)
      split
      case h_2 => exact .malformed
      case h_1 rest heq =>
        rw [heq]
        refine .skip (.cons (by decide) (skips_skipSpace rest)) ?_
        have hvalue := hvalue depth (skipSpace rest)
        cases hscan : scanValue fuel depth (skipSpace rest) with
        | error fault =>
            rw [hscan] at hvalue
            exact hvalue
        | ok found =>
            obtain ⟨value, after⟩ := found
            rw [hscan] at hvalue
            obtain ⟨front, heq, hleads⟩ := hvalue
            rw [heq]
            refine .after hleads (.skip (skips_skipSpace after) ?_)
            simp only [bind, Except.bind]
            split
            case h_1 heq =>
              rw [heq]
              exact .closed (by decide)
            case h_2 rest heq =>
              rw [heq]
              exact .skip (.cons (by decide) (skips_skipSpace rest)) (hmembers ..)
            case h_3 => exact .malformed

theorem sized_scan (fuel : Nat) :
    (∀ depth cs, Sized depth 0 cs (scanValue fuel depth cs)) ∧
    (∀ depth cs, Sized depth 1 cs (scanItems fuel depth cs)) ∧
    ∀ depth fields cs, Sized depth 1 cs (scanMembers fuel depth fields cs) := by
  induction fuel with
  | zero => exact ⟨fun _ _ => .malformed, fun _ _ => .malformed, fun _ _ _ => .malformed⟩
  | succ fuel ih =>
      obtain ⟨hvalue, hitems, hmembers⟩ := ih
      exact ⟨sized_scanValue hitems fun depth => hmembers depth [],
        sized_scanItems hvalue hitems, sized_scanMembers hvalue hmembers⟩

end Readers

/-- A text that is refused is no JSON, holds a numeral of too many digits, or goes too deep. -/
theorem readWithin_error {depth : Nat} {cs : List Char} {fault : Fault}
    (h : readWithin depth cs = .error fault) :
    Plain fault ∨ ∃ kind, fault = .tooDeep kind ∧ Nested depth cs := by
  have hsized := (sized_scan (2 * cs.length + 2)).1 depth (skipSpace cs)
  have hsized := hsized.skip (skips_skipSpace cs)
  unfold readWithin at h
  split at h
  case h_1 heq =>
    cases h
    rw [heq] at hsized
    refine hsized.imp_right ?_
    rintro ⟨kind, rfl, front, opener, rest, heq, hopener, hleads⟩
    have hover := hleads 0
    rw [Nat.zero_add, Nat.zero_add] at hover
    exact ⟨kind, rfl, front, opener, rest, heq, hopener, hover⟩
  case h_2 =>
    split at h
    · cases h
    · cases h
      exact .inl (.inl rfl)

end BulkPaths.Json
