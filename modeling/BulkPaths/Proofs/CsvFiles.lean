import BulkPaths.Proofs.CsvRows

/-!
# Files of rows

A file is written with the names of all properties in its first row, so what was read from a ragged
file, with or without a header, comes back with every property in a column of its own. No row is
taken for a comment, because a vertex with edges has a text that begins no comment: its edges were
read from rows.
-/

namespace BulkPaths.Csv

open Text

variable {g : PropertyGraph} {names : List String} {tail v : VertexId} {edge : Edge}
  {state : State} {path : String} {line : Nat} {rows : List (VertexId × Edge)}

/-- A row whose cells were joined is read cell by cell, unless it looks like a comment. -/
theorem row_commaJoined {first : String} {texts : List String} (hne : first.toList ≠ [])
    (hcomment : first.toList.head? ≠ some '#') (h : ∀ text ∈ first :: texts, IsCell text.toList)
    (path : String) (state : State) (line : Nat) :
    row path state ((",".intercalate (first :: texts)).toList, line) =
      if !state.started && isHeader ((first :: texts).map String.toList) then
        .ok { state with started := true, columns := texts.tail }
      else edgeRow path line state ((first :: texts).map String.toList) := by
  have htrim := (trimmed_commaJoined hne h).trim_eq
  have hcut := cells_commaJoined (List.cons_ne_nil first texts) h
  have hhead : (",".intercalate (first :: texts)).toList.head? = first.toList.head? := by
    rw [toList_commaJoined]
    exact head?_intercalate hne _
  have hread : ¬((",".intercalate (first :: texts)).toList.isEmpty ∨
      (",".intercalate (first :: texts)).toList.head? = some '#') := by
    rw [hhead]
    rintro (hempty | hsign)
    · rw [List.isEmpty_iff.mp hempty] at hhead
      exact hne (List.head?_eq_none_iff.mp hhead.symm)
    · exact hcomment hsign
  have hcolumns : (((first :: texts).map String.toList).drop 2).map String.ofList = texts.tail := by
    cases texts <;> simp
  unfold row
  dsimp only
  rw [htrim, if_neg hread, hcut, hcolumns]

theorem isCell_header (hnames : Columns names) :
    ∀ text ∈ "u" :: "v" :: names, IsCell text.toList := by
  have hletter : ∀ c ∈ ['u', 'v'], IsCell [c] := by
    intro c hc
    apply isCell_of_visible
    fin_cases hc <;> simp [isBlank]
  intro text htext
  rcases List.mem_cons.mp htext with rfl | htext
  · exact hletter 'u' (by decide)
  rcases List.mem_cons.mp htext with rfl | htext
  · exact hletter 'v' (by decide)
  · exact (hnames.cells text htext).1

theorem isCell_writeRow (hedge : KeptEdge tail edge) :
    ∀ text ∈ writeRow names tail edge, IsCell text.toList := by
  intro text htext
  rcases List.mem_cons.mp htext with rfl | htext
  · exact hedge.tail.cell
  rcases List.mem_cons.mp htext with rfl | htext
  · exact hedge.target.cell
  · obtain ⟨name, -, rfl⟩ := List.mem_map.mp htext
    cases hvalue : edge.property? name with
    | none => exact isCell_nil
    | some value =>
        have hkept := hedge.values _ (Assoc.mem_of_get? hvalue)
        rw [hkept.writeCell_eq]
        exact hkept.cell

/-- After a header row and before the first edge. -/
def State.headed (names : List String) : State :=
  { State.start with started := true, columns := names }

theorem row_header (hnames : Columns names) (path : String) (line : Nat) :
    row path .start ((",".intercalate ("u" :: "v" :: names)).toList, line) =
      .ok (.headed names) := by
  rw [row_commaJoined (by decide) (by decide) (isCell_header hnames)]
  rfl

theorem row_writeRow (hnames : Columns names) (hedge : KeptEdge tail edge)
    (hstarted : state.started = true) (hcolumns : state.columns = names) (path : String)
    (line : Nat) :
    row path state ((",".intercalate (writeRow names tail edge)).toList, line) =
      .ok { state with
        graph := state.graph.connect tail edge.target (retold names edge.properties)
        started := true
        rows := state.rows + 1 } := by
  have hcells : ∀ text ∈ writeRow names tail edge, IsCell text.toList := isCell_writeRow hedge
  have hreserved : ∀ property ∈ retold names edge.properties,
      property.1 ∉ PropertyGraph.reservedNames := by
    intro property hmem
    rw [retold_eq hnames hedge.values] at hmem
    obtain ⟨name, -, hsome⟩ := List.mem_filterMap.mp hmem
    obtain ⟨value, hvalue, rfl⟩ := Option.map_eq_some_iff.mp hsome
    exact hedge.reserved _ (Assoc.mem_of_get? hvalue)
  rw [writeRow] at hcells ⊢
  rw [row_commaJoined hedge.tail.ne_nil hedge.comment hcells, hstarted, Bool.not_true,
    Bool.false_and, if_neg Bool.false_ne_true]
  have hproperties : rowProperties state.columns ((names.map fun name =>
      writeCell (edge.property? name)).map String.toList) = retold names edge.properties := by
    rw [hcolumns, List.map_map]
    rfl
  refine bind_eq_ok.mpr ⟨tail, inRow_eq_ok.mpr ?_, ?_⟩
  · rw [String.ofList_toList]
    exact hedge.tail.read
  refine bind_eq_ok.mpr ⟨edge.target, inRow_eq_ok.mpr ?_, ?_⟩
  · rw [String.ofList_toList]
    exact hedge.target.read
  rw [hproperties]
  exact bind_eq_ok.mpr ⟨_, connectChecked_eq_ok.mpr ⟨hreserved, rfl⟩, rfl⟩

theorem foldlM_writeRow (state : State) (hnames : Columns names)
    (hrows : ∀ row ∈ rows, KeptEdge row.1 row.2) (hstarted : state.started = true)
    (hcolumns : state.columns = names) (path : String) (line : Nat) :
    ((rows.map fun row => (",".intercalate (writeRow names row.1 row.2)).toList).zipIdx
        line).foldlM (row path) state =
      .ok { state with
        graph := state.graph.connectAll
          (rows.map fun row => (row.1, row.2.target, retold names row.2.properties))
        started := true
        rows := state.rows + rows.length } := by
  induction rows generalizing state line with
  | nil =>
      obtain ⟨graph, columns, started, count⟩ := state
      cases hstarted
      rfl
  | cons first rows ih =>
      have hkept := hrows first List.mem_cons_self
      have hfirst := row_writeRow hnames hkept hstarted hcolumns path line
      rw [List.map_cons, List.zipIdx_cons, List.foldlM_cons]
      refine bind_eq_ok.mpr ⟨_, hfirst, ?_⟩
      refine (ih _ (fun row hrow => hrows row (List.mem_cons_of_mem _ hrow)) ?_ ?_ _).trans ?_
      · rfl
      · exact hcolumns
      · rw [List.length_cons, Nat.add_assoc, Nat.add_comm 1]
        rfl

theorem columns_columnNames (hrows : ∀ row ∈ g.rows, KeptEdge row.1 row.2) :
    Columns (columnNames g) where
  cells name hname := by
    have hkeys := Assoc.mem_keys_ofList.mp hname
    obtain ⟨property, hproperty, rfl⟩ := List.mem_map.mp hkeys
    obtain ⟨row, hrow, hmem⟩ := List.mem_flatMap.mp hproperty
    exact (hrows row hrow).names property hmem
  distinct := Assoc.nodup_keys_ofList _

theorem mem_columnNames {row : VertexId × Edge} (hrow : row ∈ g.rows) :
    ∀ property ∈ row.2.properties, property.1 ∈ columnNames g := by
  intro property hproperty
  apply Assoc.mem_keys_ofList.mpr
  exact List.mem_map.mpr ⟨property, List.mem_flatMap.mpr ⟨row, hrow, hproperty⟩, rfl⟩

/-- Every row stands on a line of its own. -/
theorem lines_write (hheader : ∀ text ∈ "u" :: "v" :: columnNames g, Inline text.toList)
    (hrows : ∀ row ∈ g.rows, ∀ text ∈ writeRow (columnNames g) row.1 row.2, Inline text.toList) :
    lines (write g).toList =
      (",".intercalate ("u" :: "v" :: columnNames g)).toList ::
        g.rows.map fun row => (",".intercalate (writeRow (columnNames g) row.1 row.2)).toList := by
  have hinline : ∀ text ∈ (",".intercalate ("u" :: "v" :: columnNames g)) ::
      g.rows.map (fun row => ",".intercalate (writeRow (columnNames g) row.1 row.2)),
      Inline text.toList := by
    intro text htext
    rcases List.mem_cons.mp htext with rfl | htext
    · exact inline_commaJoined hheader
    · obtain ⟨row, hrow, rfl⟩ := List.mem_map.mp htext
      exact inline_commaJoined (hrows row hrow)
  have hjoin := lines_join hinline
  rw [List.map_cons, List.map_cons, String.join_cons, List.map_map, List.map_map] at hjoin
  exact hjoin

/-- A graph whose edges are kept is read back from its file, with its properties as the columns tell
them. -/
theorem read_write (hrows : ∀ row ∈ g.rows, KeptEdge row.1 row.2) (hne : g.edgeCount ≠ 0)
    (path : String) : read path (write g).toList = .ok (g.rebuilt (retold (columnNames g))) := by
  have hnames := columns_columnNames hrows
  have hlines := lines_write (fun text htext => (isCell_header hnames text htext).inline)
    fun row hrow text htext => (isCell_writeRow (hrows row hrow) text htext).inline
  have hheader := row_header hnames path 1
  have hbody := foldlM_writeRow (.headed (columnNames g)) hnames hrows rfl rfl path (1 + 1)
  have hcount : 0 + g.rows.length ≠ 0 := by
    rw [Nat.zero_add]
    exact hne
  refine bind_eq_ok.mpr ⟨_, by
    rw [hlines, List.zipIdx_cons, List.foldlM_cons]
    exact bind_eq_ok.mpr ⟨_, hheader, hbody⟩, ?_⟩
  exact if_neg hcount

/-- What is read from a file without quotes. -/
theorem sound_of_read {content : List Char} (hquote : '"' ∉ content)
    (hread : read path content = .ok g) :
    ∃ state : State, state.Sound ∧ state.graph = g ∧ g.edgeCount ≠ 0 := by
  obtain ⟨state, hstate, hdone⟩ := bind_eq_ok.mp hread
  have hraws : ∀ raw ∈ (lines content).zipIdx 1, ∀ c ∈ raw.1, c ∉ ['\n', '\r', '"'] := by
    intro raw hraw c hc
    obtain ⟨-, -, hline⟩ := List.mem_zipIdx hraw
    have hmem : raw.1 ∈ lines content := hline ▸ List.getElem_mem _
    obtain ⟨hcontent, hend⟩ := mem_lines hmem hc
    simp only [List.mem_cons, not_or]
    exact ⟨hend.1, hend.2, fun heq => hquote (heq ▸ hcontent), List.not_mem_nil⟩
  have hsound := State.Sound.start.foldlM hraws hstate
  split at hdone
  · cases hdone
  case isFalse hcount =>
    cases hdone
    exact ⟨state, hsound, rfl, hsound.count ▸ hcount⟩

/-- The graph that was read from a file without quotes is read again from the file that it is
written to: the vertices are the same, and every vertex has its edges in their order, each with the
same properties under the same names. The order of the names may change. -/
theorem written_file_reads_back {content : List Char} (hquote : '"' ∉ content)
    (hread : read path content = .ok g) (path' : String) :
    ∃ g', read path' (write g).toList = .ok g' ∧ (∀ v, v ∈ g'.ids ↔ v ∈ g.ids) ∧
      ∀ v, List.Forall₂ Edge.Same (g.out v) (g'.out v) := by
  obtain ⟨state, hsound, rfl, hne⟩ := sound_of_read hquote hread
  have hrows := hsound.edges
  refine ⟨_, read_write hrows hne path', ?_, ?_⟩
  · intro v
    rw [PropertyGraph.mem_ids_rebuilt]
    constructor
    · rintro ⟨row, hrow, rfl | rfl⟩
      · exact PropertyGraph.tail_mem_ids hrow
      · exact PropertyGraph.head_mem_ids hrow
    · exact hsound.covered v
  · intro v
    rw [PropertyGraph.out_rebuilt, List.forall₂_map_right_iff, List.forall₂_same]
    intro edge hedge
    have hrow := PropertyGraph.mem_rows.mpr hedge
    refine ⟨rfl, fun name => ?_⟩
    exact (get?_retold (columns_columnNames hrows) (hrows _ hrow).values (mem_columnNames hrow)
      name).symm

/-- A header of other names with a column twice and one without a name, then rows of three
lengths. -/
def raggedRows : List Char :=
  ("# roads\n source\tTARGET ,cost,, note,cost\n\n" ++
    "007, x ,1_0,?,hey ho,nan\nx,a b,,,2.50\r\nx,7,+3").toList

theorem written_file_reads_back_ragged :
    ∃ g g', read "roads.csv" raggedRows = .ok g ∧ read "copy.csv" (write g).toList = .ok g' ∧
      g.ids = [.long 7, .utf8 "x", .utf8 "a b"] ∧ (∀ v, v ∈ g'.ids ↔ v ∈ g.ids) ∧
      ∀ v, List.Forall₂ Edge.Same (g.out v) (g'.out v) := by
  have hids : (read "roads.csv" raggedRows).map PropertyGraph.ids =
      .ok [.long 7, .utf8 "x", .utf8 "a b"] := rfl
  cases hread : read "roads.csv" raggedRows with
  | error fault =>
      rw [hread] at hids
      cases hids
  | ok g =>
      rw [hread] at hids
      obtain ⟨g', hback, hvertices, hedges⟩ :=
        written_file_reads_back (by decide) hread "copy.csv"
      exact ⟨g, g', rfl, hback, Except.ok.inj hids, hvertices, hedges⟩

end BulkPaths.Csv
