import BulkPaths.Proofs.JsonTexts
import BulkPaths.Proofs.VertexSteps

/-!
# JSON text read again

A text that was written can be refused, for a numeral of too many digits or for its depth. What is
read of it otherwise is the value that was written, up to what JSON cannot tell apart: a universal
identifier becomes its text, and of the members of one name the last one counts.
-/

namespace BulkPaths.Json

open Decimal

mutual

/-- What JSON keeps of a value. -/
def told : Value → Value
  | .uuid u => .text u.toText
  | .list items => .list (toldItems items)
  | .record fields => .record (Assoc.ofList (toldFields fields))
  | value => value

def toldItems : List Value → List Value
  | [] => []
  | item :: rest => told item :: toldItems rest

def toldFields : Properties → Properties
  | [] => []
  | (name, value) :: rest => (name, told value) :: toldFields rest

end

theorem toldItems_eq (items : List Value) : toldItems items = items.map told := by
  induction items with
  | nil => rfl
  | cons item items ih => rw [toldItems, ih, List.map_cons]

theorem toldFields_eq (fields : Properties) :
    toldFields fields = fields.map fun field => (field.1, told field.2) := by
  induction fields with
  | nil => rfl
  | cons field fields ih => rw [toldFields, ih, List.map_cons]

/-- What is scanned off the text of a value, if anything is, is what JSON keeps of it. -/
def Retold (value : Value) : Prop :=
  ∀ fuel depth rest found after, EndsNumber rest →
    scanValue fuel depth ((write value).toList ++ rest) = .ok (found, after) →
    found = told value ∧ after = rest

section Values

variable {fuel depth : Nat} {value found : Value} {items : List Value} {fields : Properties}
  {rest after : List Char}

/-- A word or a number. -/
theorem Retold.scalar (hopens : OpensScalar (write value).toList) (htold : told value = value)
    (hscan : ∀ {rest found after}, EndsNumber rest →
      scanScalar ((write value).toList ++ rest) = .ok (found, after) →
      found = value ∧ after = rest) : Retold value := by
  intro fuel depth rest found after hrest h
  cases fuel with
  | zero => cases h
  | succ fuel =>
      rw [scanValue_of_opensScalar hopens] at h
      rw [htold]
      exact hscan hrest h

theorem retold_int (n : Int) : Retold (.int n) := by
  refine .scalar (opensScalar_int n) rfl fun hrest h => ?_
  rw [write, scanScalar_toString n hrest] at h
  split at h
  · cases h
  · cases h
    exact ⟨rfl, rfl⟩

theorem retold_real (x : Float) : Retold (.real x) := by
  refine .scalar (opensScalar_number x) rfl fun hrest h => ?_
  rw [write, scanScalar_number x hrest] at h
  cases h
  exact ⟨rfl, rfl⟩

theorem scanValue_quote {s : String}
    (h : scanValue fuel depth ((quote s).toList ++ rest) = .ok (found, after)) :
    found = .text s ∧ after = rest := by
  cases fuel with
  | zero => cases h
  | succ fuel =>
      obtain ⟨units, hscan, hjoin⟩ := scanText_quoted s.toList rest
      rw [toList_quote, List.cons_append, List.append_assoc, List.singleton_append, scanValue,
        hscan] at h
      cases h
      rw [hjoin, String.ofList_toList]
      exact ⟨rfl, rfl⟩

theorem endsNumber_bracket (rest : List Char) : EndsNumber (']' :: rest) :=
  endsNumber_cons (by decide) (by decide) (by decide) (by decide) rest

theorem endsNumber_brace (rest : List Char) : EndsNumber ('\x7d' :: rest) :=
  endsNumber_cons (by decide) (by decide) (by decide) (by decide) rest

theorem endsNumber_comma (rest : List Char) : EndsNumber (',' :: rest) :=
  endsNumber_cons (by decide) (by decide) (by decide) (by decide) rest

theorem scanItems_retold {found : List Value} (hne : items ≠ [])
    (hitems : ∀ item ∈ items, Retold item)
    (h : scanItems fuel depth ((Value.commaSeparated (items.map write)).toList ++ ']' :: rest) =
      .ok (found, after)) : found = items.map told ∧ after = rest := by
  induction items generalizing fuel found with
  | nil => exact absurd rfl hne
  | cons item items ih =>
      have hitem := hitems item List.mem_cons_self
      cases fuel with
      | zero => cases h
      | succ fuel =>
          rw [scanItems] at h
          obtain ⟨⟨first, more⟩, hfirst, h⟩ := bind_eq_ok.mp h
          cases items with
          | nil =>
              rw [List.map_singleton, commaSeparated_singleton] at hfirst
              obtain ⟨rfl, rfl⟩ := hitem fuel depth _ first more (endsNumber_bracket rest) hfirst
              cases h
              exact ⟨rfl, rfl⟩
          | cons next items =>
              have hnext : Opens (Value.commaSeparated ((next :: items).map write)).toList :=
                opens_commaSeparated (opens_write next) _
              rw [List.map_cons, List.map_cons, commaSeparated_cons, ← List.map_cons,
                List.append_assoc] at hfirst
              obtain ⟨rfl, rfl⟩ := hitem fuel depth _ first more (endsNumber_comma _) hfirst
              obtain ⟨⟨later, stop⟩, hlater, h⟩ := bind_eq_ok.mp h
              change scanItems fuel depth (skipSpace
                ((Value.commaSeparated ((next :: items).map write)).toList ++ ']' :: rest)) =
                  _ at hlater
              rw [skipSpace_of_opens hnext] at hlater
              cases h
              obtain ⟨rfl, rfl⟩ := ih (List.cons_ne_nil _ _)
                (fun later hlater => hitems later (List.mem_cons_of_mem _ hlater)) hlater
              exact ⟨rfl, rfl⟩

/-- A member takes its place among those before, and what follows says how it goes on. -/
theorem scanMembers_field_retold {before found : Properties} {field : String × Value}
    (hfield : Retold field.2) (hrest : EndsNumber rest)
    (h : scanMembers (fuel + 1) depth before ((writeField field).toList ++ rest) =
      .ok (found, after)) :
    (∀ stop, skipSpace rest = '\x7d' :: stop →
      found = Assoc.put field.1 (told field.2) before ∧ after = stop) ∧
    ∀ stop, skipSpace rest = ',' :: stop →
      scanMembers fuel depth (Assoc.put field.1 (told field.2) before) (skipSpace stop) =
        .ok (found, after) := by
  obtain ⟨units, hscan, hjoin⟩ := scanText_quoted field.1.toList
    (':' :: ' ' :: ((write field.2).toList ++ rest))
  have hname : String.ofList (joinUnits units) = field.1 := by rw [hjoin, String.ofList_toList]
  rw [toList_writeField, scanMembers, hscan] at h
  change Except.bind (scanValue fuel depth (skipSpace ((write field.2).toList ++ rest))) _ = _ at h
  rw [skipSpace_of_opens (opens_write field.2)] at h
  obtain ⟨⟨value, more⟩, hvalue, hgoes⟩ := bind_eq_ok.mp h
  obtain ⟨rfl, rfl⟩ := hfield _ _ _ _ _ hrest hvalue
  dsimp only at hgoes
  rw [hname] at hgoes
  constructor
  · intro stop hstop
    rewrite [hstop] at hgoes
    cases hgoes
    exact ⟨rfl, rfl⟩
  · intro stop hstop
    rewrite [hstop] at hgoes
    exact hgoes

theorem scanMembers_retold {before found : Properties} (hne : fields ≠ [])
    (hfields : ∀ field ∈ fields, Retold field.2)
    (h : scanMembers fuel depth before
        ((Value.commaSeparated (fields.map writeField)).toList ++ '\x7d' :: rest) =
      .ok (found, after)) :
    found = Assoc.merge before (fields.map fun field => (field.1, told field.2)) ∧
      after = rest := by
  induction fields generalizing fuel before with
  | nil => exact absurd rfl hne
  | cons field fields ih =>
      have hfield := hfields field List.mem_cons_self
      cases fuel with
      | zero => cases h
      | succ fuel =>
          cases fields with
          | nil =>
              rw [List.map_singleton, commaSeparated_singleton] at h
              exact (scanMembers_field_retold hfield (endsNumber_brace rest) h).1 rest rfl
          | cons next fields =>
              have hnext : Opens (Value.commaSeparated ((next :: fields).map writeField)).toList :=
                opens_commaSeparated (opens_writeField next) _
              rw [List.map_cons, List.map_cons, commaSeparated_cons, ← List.map_cons,
                List.append_assoc] at h
              have hlater := (scanMembers_field_retold hfield (endsNumber_comma _) h).2 _ rfl
              change scanMembers fuel depth _ (skipSpace
                ((Value.commaSeparated ((next :: fields).map writeField)).toList ++
                  '\x7d' :: rest)) = _ at hlater
              rw [skipSpace_of_opens hnext] at hlater
              exact ih (List.cons_ne_nil _ _)
                (fun later hlater => hfields later (List.mem_cons_of_mem _ hlater)) hlater

theorem Retold.list (hitems : ∀ item ∈ items, Retold item) : Retold (.list items) := by
  intro fuel depth rest found after _ h
  rw [toList_write_list] at h
  cases fuel with
  | zero => cases h
  | succ fuel =>
      cases depth with
      | zero => cases h
      | succ depth =>
          cases items with
          | nil =>
              cases h
              exact ⟨rfl, rfl⟩
          | cons item items =>
              have hfirst := opens_commaSeparated (opens_write item) (items.map write)
              rw [List.cons_append, List.append_assoc, List.map_cons, scanValue_list hfirst,
                ← List.map_cons, List.singleton_append] at h
              cases hscan : scanItems fuel depth
                  ((Value.commaSeparated ((item :: items).map write)).toList ++ ']' :: rest) with
              | error fault =>
                  rw [hscan] at h
                  cases h
              | ok scanned =>
                  obtain ⟨later, stop⟩ := scanned
                  rw [hscan] at h
                  cases h
                  obtain ⟨rfl, rfl⟩ := scanItems_retold (List.cons_ne_nil _ _) hitems hscan
                  exact ⟨by rw [told, toldItems_eq], rfl⟩

theorem Retold.record (hfields : ∀ field ∈ fields, Retold field.2) : Retold (.record fields) := by
  intro fuel depth rest found after _ h
  rw [toList_write_record] at h
  cases fuel with
  | zero => cases h
  | succ fuel =>
      cases depth with
      | zero => cases h
      | succ depth =>
          cases fields with
          | nil =>
              cases h
              exact ⟨rfl, rfl⟩
          | cons field fields =>
              have hfirst := opens_commaSeparated (opens_writeField field) (fields.map writeField)
              rw [List.cons_append, List.append_assoc, List.map_cons, scanValue_record hfirst,
                ← List.map_cons, List.singleton_append] at h
              cases hscan : scanMembers fuel depth []
                  ((Value.commaSeparated ((field :: fields).map writeField)).toList ++
                    '\x7d' :: rest) with
              | error fault =>
                  rw [hscan] at h
                  cases h
              | ok scanned =>
                  obtain ⟨later, stop⟩ := scanned
                  rw [hscan] at h
                  cases h
                  obtain ⟨rfl, rfl⟩ := scanMembers_retold (List.cons_ne_nil _ _) hfields hscan
                  exact ⟨by rw [told, toldFields_eq, Assoc.ofList], rfl⟩

/-- Every value is read again as what JSON keeps of it, if it is read. -/
theorem retold (value : Value) : Retold value := by
  induction value using Value.held_induction with
  | null =>
      exact .scalar ⟨'n', _, rfl, .inl (by decide)⟩ rfl fun _ h => by cases h; exact ⟨rfl, rfl⟩
  | bool b =>
      cases b with
      | true =>
          exact .scalar ⟨'t', _, rfl, .inl (by decide)⟩ rfl fun _ h => by cases h; exact ⟨rfl, rfl⟩
      | false =>
          exact .scalar ⟨'f', _, rfl, .inl (by decide)⟩ rfl fun _ h => by cases h; exact ⟨rfl, rfl⟩
  | int n => exact retold_int n
  | real x => exact retold_real x
  | text s => exact fun _ _ _ _ _ _ h => scanValue_quote h
  | uuid u => exact fun _ _ _ _ _ _ h => scanValue_quote h
  | list items ih => exact .list ih
  | record fields ih => exact .record ih

theorem told_of_readWithin {value found : Value}
    (h : readWithin depth (write value).toList = .ok found) : found = told value := by
  have hskip := skipSpace_of_opens (opens_write value) []
  rw [List.append_nil] at hskip
  unfold readWithin at h
  rw [hskip] at h
  split at h
  case h_1 => cases h
  case h_2 result after heq =>
    split at h
    · cases h
      rw [← List.append_nil (write value).toList] at heq
      exact (retold value _ _ [] _ _ nofun heq).1
    · cases h

end Values

end BulkPaths.Json
