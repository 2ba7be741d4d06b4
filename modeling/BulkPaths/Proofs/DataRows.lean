import BulkPaths.GraphFile
import BulkPaths.Proofs.CsvRows
import BulkPaths.Proofs.IdFaults
import BulkPaths.Proofs.JsonNesting

/-!
# Data rows

A file is read row by row, and every row with data becomes one edge between the ends that it names.
A row that cannot be read is reported as a fault of the file, with three exceptions: in a table an
identifier with too many digits and a column with a reserved name, and in lines of JSON a value that
lies too deep.
-/

namespace BulkPaths

open Text

/-- A graph after some rows: one edge more for each of them, between the ends that it names. -/
structure PropertyGraph.Grows {ρ : Type} (names : ρ → VertexId → VertexId → Prop)
    (g g' : PropertyGraph) (rows : List ρ) : Prop where
  edges : g'.edgeCount = g.edgeCount + rows.length
  named : ∀ row ∈ rows, ∃ tail head, names row tail head
  ids : ∀ v, v ∈ g'.ids ↔ v ∈ g.ids ∨
    ∃ row ∈ rows, ∃ tail head, names row tail head ∧ (v = tail ∨ v = head)

namespace PropertyGraph.Grows

variable {ρ : Type} {names : ρ → VertexId → VertexId → Prop} {g g' g'' : PropertyGraph}
  {row : ρ} {rows : List ρ} {tail head : VertexId}

theorem nil (g : PropertyGraph) : Grows names g g [] where
  edges := rfl
  named := nofun
  ids v := by simp

/-- A row names no more than two ends. -/
theorem connect (hrow : ∀ u v, names row u v ↔ u = tail ∧ v = head) (properties : Properties) :
    Grows names g (g.connect tail head properties) [row] where
  edges := edgeCount_connect ..
  named := by
    intro other hother
    rw [List.mem_singleton.mp hother]
    exact ⟨tail, head, (hrow tail head).mpr ⟨rfl, rfl⟩⟩
  ids v := by simp [mem_ids_connect, hrow]

theorem cons (hfirst : Grows names g g' [row]) (hrest : Grows names g' g'' rows) :
    Grows names g g'' (row :: rows) where
  edges := by
    rw [hrest.edges, hfirst.edges, List.length_singleton, List.length_cons]
    omega
  named := by
    intro other hother
    rcases List.mem_cons.mp hother with rfl | hlater
    · exact hfirst.named other (List.mem_singleton.mpr rfl)
    · exact hrest.named other hlater
  ids v := by rw [hrest.ids, hfirst.ids, List.exists_mem_cons_iff]; simp [or_assoc]

theorem edgeCount_eq (h : empty.Grows names g' rows) : g'.edgeCount = rows.length :=
  h.edges.trans (Nat.zero_add _)

end PropertyGraph.Grows

/-- What comes of some rows: a graph with an edge more for each, and a count that has grown with it,
or a fault of the file, or what escapes from one of the rows. -/
def Reported {ρ : Type} (names : ρ → VertexId → VertexId → Prop) (escapes : ρ → Fault → Prop)
    (start : PropertyGraph × Nat) (rows : List ρ) : Except Fault (PropertyGraph × Nat) → Prop
  | .ok stop => stop.2 = start.2 + rows.length ∧ start.1.Grows names stop.1 rows
  | .error fault => fault.kind = .format ∨ ∃ row ∈ rows, escapes row fault

namespace Reported

variable {ρ σ : Type} {names : ρ → VertexId → VertexId → Prop} {escapes : ρ → Fault → Prop}
  {start : PropertyGraph × Nat} {row : ρ} {rows : List ρ} {tally : σ → PropertyGraph × Nat}

theorem nil : Reported names escapes start [] (.ok start) := ⟨rfl, .nil _⟩

theorem cons {first : Except Fault σ} {next : σ → Except Fault σ}
    (hfirst : Reported names escapes start [row] (first.map tally))
    (hnext : ∀ state, first = .ok state →
      Reported names escapes (tally state) rows ((next state).map tally)) :
    Reported names escapes start (row :: rows) ((first >>= next).map tally) := by
  cases hstate : first with
  | error fault =>
      rw [hstate] at hfirst
      refine hfirst.imp_right ?_
      rintro ⟨other, hother, hescapes⟩
      rw [List.mem_singleton.mp hother] at hescapes
      exact ⟨row, List.mem_cons_self, hescapes⟩
  | ok state =>
      rw [hstate] at hfirst
      obtain ⟨hcount, hgrows⟩ := hfirst
      have hnext := hnext state hstate
      change Reported names escapes start (row :: rows) ((next state).map tally)
      cases hdone : next state with
      | error fault =>
          rw [hdone] at hnext
          refine hnext.imp_right ?_
          rintro ⟨later, hlater, hescapes⟩
          exact ⟨later, List.mem_cons_of_mem _ hlater, hescapes⟩
      | ok stop =>
          rw [hdone] at hnext
          obtain ⟨hcount', hgrows'⟩ := hnext
          refine ⟨?_, hgrows.cons hgrows'⟩
          rw [hcount', hcount, List.length_singleton, List.length_cons]
          omega

/-- Without an edge a file is reported. -/
theorem result {outcome : Except Fault σ} {finish : σ → Except Fault PropertyGraph}
    (h : Reported names escapes (.empty, 0) rows (outcome.map tally))
    (hfinish : ∀ state, finish state =
      if (tally state).2 = 0 then .error .noEdges else .ok (tally state).1) :
    (∃ g, outcome >>= finish = .ok g ∧ rows ≠ [] ∧ PropertyGraph.empty.Grows names g rows) ∨
    ∃ fault, outcome >>= finish = .error fault ∧
      (fault.kind = .format ∨ ∃ row ∈ rows, escapes row fault) := by
  cases outcome with
  | error fault => exact .inr ⟨fault, rfl, h⟩
  | ok state =>
      obtain ⟨hcount, hgrows⟩ := h
      rw [Nat.zero_add] at hcount
      change (∃ g, finish state = _ ∧ _) ∨ ∃ fault, finish state = _ ∧ _
      rw [hfinish]
      by_cases hnone : (tally state).2 = 0
      · rw [if_pos hnone]
        exact .inr ⟨_, rfl, .inl rfl⟩
      · rw [if_neg hnone]
        refine .inl ⟨_, rfl, ?_, hgrows⟩
        rwa [hcount, List.length_eq_zero_iff] at hnone

end Reported

namespace Csv

variable {path : String} {line : Nat} {state state' : State} {parts : List (List Char)}
  {fault : Fault}

/-- Whether a line is neither blank nor a comment. -/
def isSeen (raw : List Char) : Bool := !((trim raw).isEmpty || (trim raw).head? == some '#')

/-- The lines that are seen, cut into cells. -/
def seenRows (raws : List (List Char)) : List (List (List Char)) :=
  (raws.filter isSeen).map fun raw => cells (trim raw)

/-- The rows after the header, if there is one. -/
def afterHeader : List (List (List Char)) → List (List (List Char))
  | [] => []
  | first :: rest => if isHeader first then rest else first :: rest

/-- The names of the columns after the two ends. -/
def headerColumns : List (List (List Char)) → List String
  | [] => State.start.columns
  | first :: _ =>
    if isHeader first then (first.drop 2).map String.ofList else State.start.columns

def dataRows (content : List Char) : List (List (List Char)) :=
  afterHeader (seenRows (lines content))

def columnsOf (content : List Char) : List String := headerColumns (seenRows (lines content))

/-- The ends that the first two cells of a row name. -/
def Names (parts : List (List Char)) (tail head : VertexId) : Prop :=
  ∃ first second more, parts = first :: second :: more ∧
    VertexId.read (String.ofList first) = .ok tail ∧
    VertexId.read (String.ofList second) = .ok head

/-- What is not reported as a fault of the file: a number of too many digits for an end, or a cell
under a reserved name. -/
inductive Escapes (columns : List String) (parts : List (List Char)) : Fault → Prop
  | longNumeral {cell : List Char} : cell ∈ parts.take 2 → VertexId.LongNumeral (trim cell) →
      Escapes columns parts .longNumeral
  | reservedName {name : String} {cell : List Char} : name ∈ PropertyGraph.reservedNames →
      (name, cell) ∈ columns.zip (parts.drop 2) → cell ≠ [] →
      Escapes columns parts (.reservedName name)

theorem names_iff {first second : List Char} {more : List (List Char)} {tail head : VertexId}
    (htail : VertexId.read (String.ofList first) = .ok tail)
    (hhead : VertexId.read (String.ofList second) = .ok head) (u v : VertexId) :
    Names (first :: second :: more) u v ↔ u = tail ∧ v = head := by
  constructor
  · rintro ⟨_, _, _, heq, hu, hv⟩
    cases heq
    rw [htail] at hu
    rw [hhead] at hv
    exact ⟨(Except.ok.inj hu).symm, (Except.ok.inj hv).symm⟩
  · rintro ⟨rfl, rfl⟩
    exact ⟨first, second, more, rfl, htail, hhead⟩

theorem edgeRow_ok (h : edgeRow path line state parts = .ok state') :
    state'.columns = state.columns ∧ state'.started = true ∧ state'.rows = state.rows + 1 ∧
      state.graph.Grows Names state'.graph [parts] := by
  unfold edgeRow at h
  split at h
  case h_1 first second more =>
    obtain ⟨tail, htail, h⟩ := bind_eq_ok.mp h
    obtain ⟨head, hhead, h⟩ := bind_eq_ok.mp h
    obtain ⟨graph, hgraph, h⟩ := bind_eq_ok.mp h
    obtain ⟨-, rfl⟩ := connectChecked_eq_ok.mp hgraph
    cases h
    exact ⟨rfl, rfl, rfl, .connect (names_iff (inRow_eq_ok.mp htail) (inRow_eq_ok.mp hhead)) _⟩
  case h_2 => cases h

theorem inRow_read_error {cell : List Char}
    (h : inRow path line (VertexId.read (String.ofList cell)) = .error fault) :
    fault.kind = .format ∨ fault = .longNumeral ∧ VertexId.LongNumeral (trim cell) := by
  unfold inRow at h
  cases hread : VertexId.read (String.ofList cell) with
  | ok v =>
      rw [hread] at h
      cases h
  | error inner =>
      rw [hread] at h
      cases h
      rcases VertexId.read_error hread with hinput | ⟨rfl, hlong⟩
      · rw [Targets.wrap, hinput]
        exact .inl rfl
      · rw [String.toList_ofList] at hlong
        exact .inr ⟨rfl, hlong⟩

theorem connectChecked_error {g : PropertyGraph} {tail head : VertexId} {properties : Properties}
    (h : g.connectChecked tail head properties = .error fault) :
    ∃ property ∈ properties, property.1 ∈ PropertyGraph.reservedNames ∧
      fault = .reservedName property.1 := by
  unfold PropertyGraph.connectChecked PropertyGraph.checkNames at h
  split at h
  case h_1 property hfound =>
    cases h
    have hreserved := List.find?_some hfound
    exact ⟨property, List.mem_of_find?_eq_some hfound, List.contains_iff_mem.mp hreserved, rfl⟩
  case h_2 => cases h

theorem edgeRow_error (h : edgeRow path line state parts = .error fault) :
    fault.kind = .format ∨ Escapes state.columns parts fault := by
  unfold edgeRow at h
  split at h
  case h_1 first second more =>
    rcases bind_eq_error.mp h with htail | ⟨tail, -, h⟩
    · rcases inRow_read_error htail with hformat | ⟨rfl, hlong⟩
      · exact .inl hformat
      · exact .inr (.longNumeral (by simp) hlong)
    rcases bind_eq_error.mp h with hhead | ⟨head, -, h⟩
    · rcases inRow_read_error hhead with hformat | ⟨rfl, hlong⟩
      · exact .inl hformat
      · exact .inr (.longNumeral (by simp) hlong)
    rcases bind_eq_error.mp h with hgraph | ⟨graph, -, h⟩
    · obtain ⟨property, hmem, hreserved, rfl⟩ := connectChecked_error hgraph
      obtain ⟨cell, hcell, -, hfilled, -⟩ := exists_cell_of_mem_rowProperties hmem
      exact .inr (.reservedName hreserved hcell hfilled)
    · cases h
  case h_2 =>
    cases h
    exact .inl rfl

def State.tally (state : State) : PropertyGraph × Nat := (state.graph, state.rows)

theorem reported_edgeRow (path : String) (line : Nat) (state : State) (parts : List (List Char)) :
    Reported Names (Escapes state.columns) state.tally [parts]
      ((edgeRow path line state parts).map State.tally) := by
  cases hrow : edgeRow path line state parts with
  | error fault =>
      exact (edgeRow_error hrow).imp_right fun hescapes => ⟨parts, List.mem_cons_self, hescapes⟩
  | ok next =>
      obtain ⟨-, -, hcount, hgrows⟩ := edgeRow_ok hrow
      exact ⟨hcount, hgrows⟩

theorem row_unseen {raw : List Char} {line : Nat} (h : isSeen raw = false) :
    row path state (raw, line) = .ok state := by
  simp only [isSeen, Bool.not_eq_false', Bool.or_eq_true, beq_iff_eq] at h
  simp only [row]
  rw [if_pos h]

theorem row_seen {raw : List Char} {line : Nat} (h : isSeen raw = true) :
    row path state (raw, line) =
      if !state.started && isHeader (cells (trim raw)) then
        .ok { state with
          started := true, columns := ((cells (trim raw)).drop 2).map String.ofList }
      else edgeRow path line state (cells (trim raw)) := by
  rw [isSeen, Bool.not_eq_true', ← Bool.not_eq_true, Bool.or_eq_true, beq_iff_eq] at h
  simp only [row]
  rw [if_neg h]

theorem seenRows_cons_unseen {raw : List Char} (h : isSeen raw = false) (rest : List (List Char)) :
    seenRows (raw :: rest) = seenRows rest := by
  rw [seenRows, List.filter_cons_of_neg (by rw [h]; exact Bool.false_ne_true), seenRows]

theorem seenRows_cons_seen {raw : List Char} (h : isSeen raw = true) (rest : List (List Char)) :
    seenRows (raw :: rest) = cells (trim raw) :: seenRows rest := by
  rw [seenRows, List.filter_cons_of_pos h, List.map_cons, seenRows]

/-- After the first row every row that is seen is an edge. -/
theorem reported_foldlM (path : String) (raws : List (List Char × Nat))
    (hstarted : state.started = true) :
    Reported Names (Escapes state.columns) state.tally (seenRows (raws.map Prod.fst))
      ((raws.foldlM (row path) state).map State.tally) := by
  induction raws generalizing state with
  | nil => exact .nil
  | cons raw raws ih =>
      rw [List.foldlM_cons, List.map_cons]
      cases hseen : isSeen raw.1 with
      | false =>
          rw [row_unseen hseen, seenRows_cons_unseen hseen]
          exact ih hstarted
      | true =>
          rw [row_seen hseen, seenRows_cons_seen hseen, hstarted]
          refine .cons (reported_edgeRow ..) fun next hnext => ?_
          obtain ⟨hcolumns, hstarted, -, -⟩ := edgeRow_ok hnext
          rw [← hcolumns]
          exact ih hstarted

/-- The first row that is seen may name the columns. -/
theorem reported_foldlM_of_unstarted (path : String) (raws : List (List Char × Nat))
    (hstarted : state.started = false) (hcolumns : state.columns = State.start.columns) :
    Reported Names (Escapes (headerColumns (seenRows (raws.map Prod.fst)))) state.tally
      (afterHeader (seenRows (raws.map Prod.fst)))
      ((raws.foldlM (row path) state).map State.tally) := by
  induction raws with
  | nil => exact .nil
  | cons raw raws ih =>
      rw [List.foldlM_cons, List.map_cons]
      cases hseen : isSeen raw.1 with
      | false =>
          rw [row_unseen hseen, seenRows_cons_unseen hseen]
          exact ih
      | true =>
          rw [row_seen hseen, seenRows_cons_seen hseen, hstarted, headerColumns, afterHeader]
          cases hheader : isHeader (cells (trim raw.1)) with
          | true =>
              let next : State := { state with
                started := true, columns := ((cells (trim raw.1)).drop 2).map String.ofList }
              have hnext : next.started = true := rfl
              exact reported_foldlM path raws hnext
          | false =>
              rw [← hcolumns]
              refine .cons (reported_edgeRow ..) fun next hnext => ?_
              obtain ⟨hcolumns, hstarted, -, -⟩ := edgeRow_ok hnext
              rw [← hcolumns]
              exact reported_foldlM path raws hstarted

/-- A table is read as one edge for every data row, or reported. -/
theorem read_cases (path : String) (content : List Char) :
    (∃ g, read path content = .ok g ∧ dataRows content ≠ [] ∧
      PropertyGraph.empty.Grows Names g (dataRows content)) ∨
    ∃ fault, read path content = .error fault ∧
      (fault.kind = .format ∨
        ∃ parts ∈ dataRows content, Escapes (columnsOf content) parts fault) := by
  have hstarted : State.start.started = false := rfl
  have hreported := reported_foldlM_of_unstarted path ((lines content).zipIdx 1) hstarted rfl
  rw [List.zipIdx_map_fst] at hreported
  exact hreported.result fun _ => rfl

end Csv

section Faults

variable {value : Value} {fault : Fault}

theorem VertexId.kind_of_ofValue_error (h : ofValue value = .error fault) :
    fault.kind = .input := by
  unfold ofValue at h
  split at h
  case h_2 =>
    split at h
    · cases h
      rfl
    · cases h
  all_goals
    cases h
    try rfl

/-- Reading what a value holds does not go deep. -/
theorem Value.kind_of_couple_error (h : value.couple = .error fault) : fault.kind ≠ .depth := by
  unfold couple at h
  split at h
  case h_3 =>
    split at h
    · cases h
    · cases h
      nofun
  all_goals
    cases h
    try nofun

theorem Value.kind_of_members_error (h : value.members = .error fault) : fault.kind ≠ .depth := by
  unfold members at h
  split at h
  case h_1 => cases h
  case h_2 items =>
    obtain ⟨item, -, hitem⟩ := Targets.exists_mem_of_mapM_error h
    rcases bind_eq_error.mp hitem with hcouple | ⟨⟨key, value⟩, -, hkey⟩
    · exact kind_of_couple_error hcouple
    · dsimp only at hkey
      split at hkey
      · cases hkey
      · cases hkey
        nofun
  case h_3 =>
    split at h
    · cases h
    · cases h
      nofun
  case h_4 =>
    cases h
    nofun

end Faults

namespace Jsonl

variable [NestingLimits] {path : String} {g g' : PropertyGraph} {row : List Char} {fault : Fault}

/-- The lines that are not blank. -/
def dataRows (content : List Char) : List (List Char) :=
  ((lines content).map trim).filter fun text => !text.isEmpty

/-- The ends that the members `u` and `v` of a record name. -/
def Names (row : List Char) (tail head : VertexId) : Prop :=
  ∃ fields u v, Json.read row = .ok (.record fields) ∧ Assoc.get? "u" fields = some u ∧
    Assoc.get? "v" fields = some v ∧ VertexId.ofValue u = .ok tail ∧ VertexId.ofValue v = .ok head

/-- What is not reported as a fault of the file: a value within too many others. -/
inductive Escapes (row : List Char) : Fault → Prop
  | tooDeep {kind : String} : Json.Nested NestingLimits.document row → Escapes row (.tooDeep kind)

omit [NestingLimits] in
theorem field_eq_ok {fields : Properties} {name : String} {value : Value} :
    field fields name = .ok value ↔ Assoc.get? name fields = some value := by
  unfold field
  cases Assoc.get? name fields <;> simp

theorem edgeOf_ok (h : edgeOf g row = .ok g') : g.Grows Names g' [row] := by
  obtain ⟨value, hread, h⟩ := bind_eq_ok.mp h
  split at h
  case h_1 fields =>
    obtain ⟨u, hu, h⟩ := bind_eq_ok.mp h
    obtain ⟨v, hv, h⟩ := bind_eq_ok.mp h
    obtain ⟨pairs, -, h⟩ := bind_eq_ok.mp h
    obtain ⟨tail, htail, h⟩ := bind_eq_ok.mp h
    obtain ⟨head, hhead, h⟩ := bind_eq_ok.mp h
    obtain ⟨properties, -, h⟩ := bind_eq_ok.mp h
    obtain ⟨-, rfl⟩ := Csv.connectChecked_eq_ok.mp h
    rw [field_eq_ok] at hu hv
    refine .connect (fun a b => ?_) _
    constructor
    · rintro ⟨_, _, _, hread', hu', hv', ha, hb⟩
      rw [hread] at hread'
      cases hread'
      rw [hu] at hu'
      rw [hv] at hv'
      cases hu'
      cases hv'
      rw [htail] at ha
      rw [hhead] at hb
      exact ⟨(Except.ok.inj ha).symm, (Except.ok.inj hb).symm⟩
    · rintro ⟨rfl, rfl⟩
      exact ⟨fields, u, v, hread, hu, hv, htail, hhead⟩
  case h_2 => cases h

omit [NestingLimits] in
theorem kind_of_field_error {fields : Properties} {name : String}
    (h : field fields name = .error fault) : fault.kind ≠ .depth := by
  unfold field at h
  split at h
  · cases h
  · cases h
    intro hdepth
    cases hdepth

omit [NestingLimits] in
theorem kind_of_members_error {value : Value} (h : members value = .error fault) :
    fault.kind ≠ .depth := by
  unfold members at h
  split at h
  · exact Value.kind_of_members_error h
  · cases h

omit [NestingLimits] in
theorem kind_of_named_error {pair : Value × Value} (h : named pair = .error fault) :
    fault.kind ≠ .depth := by
  unfold named at h
  split at h
  · cases h
  · cases h
    decide

theorem edgeOf_error (h : edgeOf g row = .error fault) :
    fault.kind ≠ .depth ∨ Escapes row fault := by
  rcases bind_eq_error.mp h with hread | ⟨value, -, h⟩
  · rcases Json.readWithin_error hread with (rfl | rfl) | ⟨kind, rfl, hnested⟩
    · exact .inl (by decide)
    · exact .inl (by decide)
    · exact .inr (.tooDeep hnested)
  left
  split at h
  case h_2 =>
    cases h
    decide
  case h_1 fields =>
    rcases bind_eq_error.mp h with hu | ⟨u, -, h⟩
    · exact kind_of_field_error hu
    rcases bind_eq_error.mp h with hv | ⟨v, -, h⟩
    · exact kind_of_field_error hv
    rcases bind_eq_error.mp h with hmembers | ⟨pairs, -, h⟩
    · exact kind_of_members_error hmembers
    rcases bind_eq_error.mp h with htail | ⟨tail, -, h⟩
    · rw [VertexId.kind_of_ofValue_error htail]
      decide
    rcases bind_eq_error.mp h with hhead | ⟨head, -, h⟩
    · rw [VertexId.kind_of_ofValue_error hhead]
      decide
    rcases bind_eq_error.mp h with hnamed | ⟨properties, -, h⟩
    · obtain ⟨pair, -, hpair⟩ := Targets.exists_mem_of_mapM_error hnamed
      exact kind_of_named_error hpair
    · obtain ⟨property, -, -, rfl⟩ := Csv.connectChecked_error h
      intro hdepth
      cases hdepth

theorem reported_row {raw : List Char × Nat} (hfilled : (trim raw.1).isEmpty = false)
    (state : PropertyGraph × Nat) :
    Reported Names Escapes state [trim raw.1] ((Jsonl.row path state raw).map id) := by
  simp only [Jsonl.row, hfilled, Bool.false_eq_true, if_false]
  cases hedge : edgeOf state.1 (trim raw.1) with
  | ok g => exact ⟨rfl, edgeOf_ok hedge⟩
  | error fault =>
      dsimp only
      by_cases hdepth : fault.kind = .depth
      · have hescapes := (edgeOf_error hedge).resolve_left (not_not_intro hdepth)
        rw [if_pos hdepth]
        exact .inr ⟨_, List.mem_cons_self, hescapes⟩
      · rw [if_neg hdepth]
        exact .inl rfl

theorem reported_foldlM (path : String) (state : PropertyGraph × Nat)
    (raws : List (List Char × Nat)) :
    Reported Names Escapes state (((raws.map Prod.fst).map trim).filter fun text => !text.isEmpty)
      ((raws.foldlM (Jsonl.row path) state).map id) := by
  induction raws generalizing state with
  | nil => exact .nil
  | cons raw raws ih =>
      rw [List.foldlM_cons, List.map_cons, List.map_cons, List.filter_cons]
      cases hblank : (trim raw.1).isEmpty with
      | true =>
          have hrow : Jsonl.row path state raw = .ok state := by
            simp only [Jsonl.row, hblank, if_true]
          rw [hrow]
          exact ih state
      | false => exact .cons (reported_row hblank state) fun next _ => ih next

/-- Lines of JSON are read as one edge for each that is not blank, or reported. -/
theorem read_cases (path : String) (content : List Char) :
    (∃ g, read path content = .ok g ∧ dataRows content ≠ [] ∧
      PropertyGraph.empty.Grows Names g (dataRows content)) ∨
    ∃ fault, read path content = .error fault ∧
      (fault.kind = .format ∨ ∃ row ∈ dataRows content, Escapes row fault) := by
  have hreported := reported_foldlM path (.empty, 0) ((lines content).zipIdx 1)
  rw [List.zipIdx_map_fst] at hreported
  exact hreported.result fun _ => rfl

end Jsonl

namespace GraphFile

variable {site : Site} {path : String} {name : Option String} {format : FileFormat} {text : String}

/-- How many rows of a file hold data. -/
def rowCount (content : List Char) : FileFormat → Nat
  | .csv => (Csv.dataRows content).length
  | .jsonl => (Jsonl.dataRows content).length
  | .graphml => 0

/-- What a file of rows can be refused for, other than as a file of its format. -/
def Escapes [NestingLimits] (content : List Char) (fault : Fault) : FileFormat → Prop
  | .csv => ∃ parts ∈ Csv.dataRows content, Csv.Escapes (Csv.columnsOf content) parts fault
  | .jsonl => ∃ row ∈ Jsonl.dataRows content, Jsonl.Escapes row fault
  | .graphml => False

theorem read_eq_parse [NestingLimits] {content : ByteArray}
    (hformat : format? path name = some format)
    (hfile : site.find (FileName.normal path) = .ok (.file content)) :
    read site path name = parse format (FileName.normal path) content := by
  unfold read
  rw [hformat]
  dsimp only
  rw [hfile]
  rfl

theorem parseText_toUTF8 (read : List Char → Except Fault PropertyGraph) (text : String) :
    parseText read text.toUTF8 = read text.toList := by
  have hvalid : text.toUTF8.IsValidUTF8 := text.isValidUTF8
  unfold parseText String.fromUTF8?
  rw [dif_pos hvalid]
  rfl

/-- **Accepted or reported.** A file of text in one of the formats that hold rows is read as a graph
with an edge for each of its data rows, of which there is at least one, or it is refused as a file
of its format; what else can come of it is one of three faults that its rows let through. -/
theorem text_is_accepted_or_reported [NestingLimits]
    (hformat : format? path name = some format) (hrows : format ≠ .graphml)
    (hfile : site.find (FileName.normal path) = .ok (.file text.toUTF8)) :
    (∃ g, read site path name = .ok g ∧ g.edgeCount = rowCount text.toList format ∧
      0 < g.edgeCount) ∨
    ∃ fault, read site path name = .error fault ∧
      (fault.kind = .format ∨ Escapes text.toList fault format) := by
  rw [read_eq_parse hformat hfile]
  cases format with
  | graphml => exact absurd rfl hrows
  | csv =>
      rw [parse, parseText_toUTF8]
      refine (Csv.read_cases _ text.toList).imp_left ?_
      rintro ⟨g, hread, hne, hgrows⟩
      exact ⟨g, hread, hgrows.edgeCount_eq, hgrows.edgeCount_eq ▸ List.length_pos_iff.mpr hne⟩
  | jsonl =>
      rw [parse, parseText_toUTF8]
      refine (Jsonl.read_cases _ text.toList).imp_left ?_
      rintro ⟨g, hread, hne, hgrows⟩
      exact ⟨g, hread, hgrows.edgeCount_eq, hgrows.edgeCount_eq ▸ List.length_pos_iff.mpr hne⟩

def smallTable : String := "u,v,w\n1,x,2\n# x,y\n\nx,1\n"

/-- A table of two edges beside a file of blank lines. -/
def smallFiles : Site :=
  .ofFiles [("a.csv", smallTable.toUTF8), ("b.txt", "\n \n".toUTF8)] ["."]

theorem text_is_accepted_or_reported_small :
    (∃ g, read smallFiles "a.csv" none = .ok g ∧ g.edgeCount = 2) ∧
    ∃ fault, read smallFiles "b.txt" (some "jsonl") = .error fault ∧ fault.kind = .format := by
  constructor
  · have hformat : format? "a.csv" none = some .csv := rfl
    have hfile : smallFiles.find (FileName.normal "a.csv") = .ok (.file smallTable.toUTF8) := rfl
    have htable : (read smallFiles "a.csv" none).isOk := by
      rw [read_eq_parse hformat hfile, parse, parseText_toUTF8]
      rfl
    rcases text_is_accepted_or_reported hformat nofun hfile with
      ⟨g, hread, hcount, -⟩ | ⟨fault, hread, -⟩
    · exact ⟨g, hread, hcount⟩
    · rw [hread] at htable
      cases htable
  · have hformat : format? "b.txt" (some "jsonl") = some .jsonl := rfl
    have hfile : smallFiles.find (FileName.normal "b.txt") = .ok (.file "\n \n".toUTF8) := rfl
    have hblank : read smallFiles "b.txt" (some "jsonl") = .error .noEdges := by
      rw [read_eq_parse hformat hfile, parse, parseText_toUTF8]
      rfl
    rcases text_is_accepted_or_reported hformat nofun hfile with
      ⟨g, hread, -⟩ | ⟨fault, hread, -⟩
    · rw [hread] at hblank
      cases hblank
    · refine ⟨fault, hread, ?_⟩
      rw [hread] at hblank
      cases hblank
      rfl

/-- A table with a column of a reserved name is not reported as a file of its format. -/
theorem reserved_column_escapes :
    parse .csv "g.csv" "u,v,self\na,b,1\n".toUTF8 = .error (.reservedName "self") ∧
      (Fault.reservedName "self").kind ≠ .format := by
  refine ⟨?_, by decide⟩
  rw [parse, parseText_toUTF8]
  rfl

end GraphFile

end BulkPaths
