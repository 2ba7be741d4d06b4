import BulkPaths.Proofs.CsvCells
import BulkPaths.Proofs.Rebuilding

/-!
# Rows that are read and rows that are written

What a reader has made of its rows is kept to: every edge has ends, names and values that a row can
hold, and every vertex is an end of an edge. Cells that are joined by commas are cut apart again,
and the properties of an edge are told by one cell for each column, empty where the edge has no such
property.
-/

namespace BulkPaths.Csv

open Text

variable {cs : List Char} {parts : List (List Char)} {columns names : List String}
  {tail head v : VertexId} {edge : Edge} {properties : Properties} {path : String} {line : Nat}

section Reading

/-- An edge whose row is read back: the row is no comment, and every name stands in its column. -/
structure KeptEdge (tail : VertexId) (edge : Edge) : Prop where
  comment : tail.toText.toList.head? ≠ some '#'
  tail : KeptId tail
  target : KeptId edge.target
  names : ∀ property ∈ edge.properties, IsCell property.1.toList ∧ property.1 ≠ ""
  reserved : ∀ property ∈ edge.properties, property.1 ∉ PropertyGraph.reservedNames
  mapping : (Assoc.keys edge.properties).Nodup
  values : ∀ property ∈ edge.properties, Kept property.2

/-- Only in a comment the first cell begins with a number sign. -/
theorem head?_of_cells {first : List Char} (hrow : Trimmed cs) (h : first :: parts = cells cs)
    (hfirst : first.head? = some '#') : cs.head? = some '#' := by
  cases cs with
  | nil =>
      cases h
      cases hfirst
  | cons c rest =>
      have hblank : ¬isBlank c := hrow.1 c rfl
      have htab : c ≠ '\t' := by
        rintro rfl
        exact hblank (by decide)
      rw [cells, List.map_cons, if_neg htab, cutAt] at h
      split at h
      · cases h
        cases hfirst
      · split at h
        all_goals
          cases h
          rwa [head?_trim hblank] at hfirst

theorem exists_cell_of_mem_rowProperties {property : String × Value}
    (h : property ∈ rowProperties columns parts) :
    ∃ cell, (property.1, cell) ∈ columns.zip parts ∧ property.1 ≠ "" ∧ cell ≠ [] ∧
      property.2 = cellValue cell := by
  have hmem := Assoc.mem_of_mem_ofList h
  obtain ⟨⟨name, cell⟩, hcell, rfl⟩ := List.mem_map.mp hmem
  obtain ⟨hzip, hfilled⟩ := List.mem_filter.mp hcell
  simp only [Bool.and_eq_true, Bool.not_eq_true', ← Bool.not_eq_true, String.isEmpty_iff,
    List.isEmpty_iff] at hfilled
  exact ⟨cell, hzip, hfilled.1, hfilled.2, rfl⟩

theorem mem_rowProperties {property : String × Value}
    (h : property ∈ rowProperties columns parts) :
    property.1 ∈ columns ∧ property.1 ≠ "" ∧ ∃ cell ∈ parts, cell ≠ [] ∧
      property.2 = cellValue cell := by
  obtain ⟨cell, hzip, hname, hfilled, hvalue⟩ := exists_cell_of_mem_rowProperties h
  obtain ⟨hcolumn, hpart⟩ := List.of_mem_zip hzip
  exact ⟨hcolumn, hname, cell, hpart, hfilled, hvalue⟩

theorem inRow_eq_ok {α : Type} {outcome : Except Fault α} {a : α} :
    inRow path line outcome = .ok a ↔ outcome = .ok a := by
  cases outcome <;> simp [inRow, Except.mapError]

theorem connectChecked_eq_ok {g g' : PropertyGraph} :
    g.connectChecked tail head properties = .ok g' ↔
      (∀ property ∈ properties, property.1 ∉ PropertyGraph.reservedNames) ∧
        g.connect tail head properties = g' := by
  rw [← PropertyGraph.checkNames_eq_ok, PropertyGraph.connectChecked]
  cases PropertyGraph.checkNames PropertyGraph.reservedNames properties <;> simp [Except.map]

/-- What has been read of a file: edges whose rows are read back, between all the vertices. -/
structure State.Sound (state : State) : Prop where
  edges : ∀ row ∈ state.graph.rows, KeptEdge row.1 row.2
  columns : ∀ name ∈ state.columns, IsCell name.toList
  covered : ∀ v ∈ state.graph.ids, ∃ row ∈ state.graph.rows, v = row.1 ∨ v = row.2.target
  count : state.rows = state.graph.edgeCount

variable {state state' : State}

theorem State.Sound.start : State.start.Sound where
  edges := nofun
  columns := by
    intro name hname
    rw [List.mem_singleton.mp hname]
    apply isCell_of_visible
    intro c hc
    fin_cases hc <;> decide
  covered := nofun
  count := rfl

theorem State.Sound.connect (h : state.Sound)
    (hedge : KeptEdge tail { target := head, properties }) :
    State.Sound { state with
      graph := state.graph.connect tail head properties
      started := true
      rows := state.rows + 1 } where
  edges row hrow := by
    rcases PropertyGraph.mem_rows_connect.mp hrow with hold | rfl
    · exact h.edges row hold
    · exact hedge
  columns := h.columns
  covered v hv := by
    have hnew : (tail, { target := head, properties }) ∈
        (state.graph.connect tail head properties).rows :=
      PropertyGraph.mem_rows_connect.mpr (.inr rfl)
    rcases (PropertyGraph.mem_ids_connect ..).mp hv with hold | rfl | rfl
    · obtain ⟨row, hrow, hend⟩ := h.covered v hold
      exact ⟨row, PropertyGraph.mem_rows_connect.mpr (.inl hrow), hend⟩
    · exact ⟨_, hnew, .inl rfl⟩
    · exact ⟨_, hnew, .inr rfl⟩
  count := by rw [PropertyGraph.edgeCount_connect, h.count]

theorem State.Sound.edgeRow (h : state.Sound) (hparts : ∀ part ∈ parts, IsCell part)
    (hcomment : ∀ first, parts.head? = some first → first.head? ≠ some '#')
    (hread : edgeRow path line state parts = .ok state') : state'.Sound := by
  unfold Csv.edgeRow at hread
  split at hread
  case h_1 first second more =>
    obtain ⟨tail, htail, hread⟩ := bind_eq_ok.mp hread
    obtain ⟨head, hhead, hread⟩ := bind_eq_ok.mp hread
    obtain ⟨graph, hgraph, hread⟩ := bind_eq_ok.mp hread
    obtain ⟨hreserved, rfl⟩ := connectChecked_eq_ok.mp hgraph
    cases hread
    obtain ⟨hkept, hsign⟩ := keptId_of_read (hparts first (by simp)) (inRow_eq_ok.mp htail)
    have hproperty : ∀ property ∈ rowProperties state.columns more,
        (IsCell property.1.toList ∧ property.1 ≠ "") ∧ Kept property.2 := by
      intro property hmem
      obtain ⟨hcolumn, hname, cell, hcell, hne, hvalue⟩ := mem_rowProperties hmem
      rw [hvalue]
      exact ⟨⟨h.columns _ hcolumn, hname⟩, kept_cellValue (hparts cell (by simp [hcell])) hne⟩
    refine h.connect {
      tail := hkept
      comment := hsign (hcomment first rfl)
      target := (keptId_of_read (hparts second (by simp)) (inRow_eq_ok.mp hhead)).1
      names := fun property hmem => (hproperty property hmem).1
      reserved := hreserved
      mapping := Assoc.nodup_keys_ofList _
      values := fun property hmem => (hproperty property hmem).2 }
  case h_2 => cases hread

theorem State.Sound.row {raw : List Char} (h : state.Sound)
    (hraw : ∀ c ∈ raw, c ∉ ['\n', '\r', '"'])
    (hread : Csv.row path state (raw, line) = .ok state') : state'.Sound := by
  have hcells : ∀ part ∈ cells (trim raw), IsCell part := fun part =>
    isCell_of_mem_cells fun c hc => hraw c (mem_of_mem_trim hc)
  unfold Csv.row at hread
  dsimp only at hread
  split_ifs at hread with hskip hheader
  · cases hread
    exact h
  · cases hread
    refine ⟨h.edges, ?_, h.covered, h.count⟩
    intro name hname
    obtain ⟨part, hpart, rfl⟩ := List.mem_map.mp hname
    rw [String.toList_ofList]
    exact hcells part (List.mem_of_mem_drop hpart)
  · refine h.edgeRow hcells ?_ hread
    intro first hfirst hsign
    obtain ⟨more, hmore⟩ := List.head?_eq_some_iff.mp hfirst
    exact hskip (.inr (head?_of_cells (trimmed_trim raw) hmore.symm hsign))

theorem State.Sound.foldlM {raws : List (List Char × Nat)} (h : state.Sound)
    (hraws : ∀ raw ∈ raws, ∀ c ∈ raw.1, c ∉ ['\n', '\r', '"'])
    (hread : raws.foldlM (Csv.row path) state = .ok state') : state'.Sound := by
  induction raws generalizing state with
  | nil =>
      cases hread
      exact h
  | cons raw raws ih =>
      rw [List.foldlM_cons] at hread
      obtain ⟨next, hnext, hrest⟩ := bind_eq_ok.mp hread
      exact ih (h.row (hraws raw List.mem_cons_self) hnext)
        (fun later hlater => hraws later (List.mem_cons_of_mem _ hlater)) hrest

end Reading

section Writing

variable {texts : List String}

theorem isCell_nil : IsCell [] := ⟨nofun, nofun, nofun⟩

theorem toList_commaJoined (texts : List String) :
    (",".intercalate texts).toList = [','].intercalate (texts.map String.toList) := by
  rw [String.toList_intercalate]
  rfl

theorem inline_commaJoined (h : ∀ text ∈ texts, Inline text.toList) :
    Inline (",".intercalate texts).toList := by
  intro c hc
  rw [toList_commaJoined] at hc
  rcases mem_intercalate hc with rfl | ⟨cs, hcs, hc⟩
  · decide
  · obtain ⟨text, htext, rfl⟩ := List.mem_map.mp hcs
    exact h text htext c hc

/-- The text separates no cells. -/
def Unseparated (cs : List Char) : Prop := ∀ c ∈ cs, c ≠ ',' ∧ c ≠ '\t'

theorem IsCell.unseparated (h : IsCell cs) : Unseparated cs := by
  intro c hc
  have hplain := h.plain c hc
  simp only [List.mem_cons, not_or] at hplain
  exact ⟨hplain.1, hplain.2.1⟩

theorem Unseparated.map_eq (h : Unseparated cs) :
    cs.map (fun c => if c = '\t' then ',' else c) = cs :=
  (List.map_congr_left fun c hc => if_neg (h c hc).2).trans (List.map_id _)

theorem cells_of_unseparated (h : Unseparated cs) : cells cs = [trim cs] := by
  rw [cells, h.map_eq, cutAt_of_not_mem fun hcomma => (h _ hcomma).1 rfl, List.map_singleton]

theorem cells_append (h : Unseparated cs) (rest : List Char) :
    cells (cs ++ ',' :: rest) = trim cs :: cells rest := by
  rw [cells, List.map_append, h.map_eq, List.map_cons, if_neg (by decide),
    cutAt_append fun hcomma => (h _ hcomma).1 rfl, List.map_cons, cells]

/-- Cells that are joined are cut apart again. -/
theorem cells_commaJoined (hne : texts ≠ []) (h : ∀ text ∈ texts, IsCell text.toList) :
    cells (",".intercalate texts).toList = texts.map String.toList := by
  rw [toList_commaJoined]
  induction texts with
  | nil => exact absurd rfl hne
  | cons text texts ih =>
      have htext := h text List.mem_cons_self
      cases texts with
      | nil =>
          rw [List.map_singleton, List.intercalate_singleton,
            cells_of_unseparated htext.unseparated, htext.trimmed.trim_eq]
      | cons next texts =>
          have hlater := ih (List.cons_ne_nil _ _) fun later hlater =>
            h later (List.mem_cons_of_mem _ hlater)
          rw [List.map_cons] at hlater
          rw [List.map_cons, List.map_cons, List.intercalate_cons_cons, List.append_assoc,
            List.singleton_append, cells_append htext.unseparated, htext.trimmed.trim_eq, hlater]

theorem trimmed_commaJoined {first : String} (hfirst : first.toList ≠ [])
    (h : ∀ text ∈ first :: texts, IsCell text.toList) :
    Trimmed (",".intercalate (first :: texts)).toList := by
  rw [toList_commaJoined]
  constructor
  · intro c hc
    rw [List.map_cons, head?_intercalate hfirst] at hc
    exact (h first List.mem_cons_self).trimmed.1 c hc
  · intro c hc
    apply not_blank_of_getLast?_intercalate (by decide) ?_ hc
    intro cs hcs
    obtain ⟨text, htext, rfl⟩ := List.mem_map.mp hcs
    exact (h text htext).trimmed.2

/-- The properties of an edge as a row with the given columns tells them. -/
def retold (names : List String) (properties : Properties) : Properties :=
  rowProperties names (names.map fun name => (writeCell (Assoc.get? name properties)).toList)

/-- Columns that can be written and read: each has a name of its own. -/
structure Columns (names : List String) : Prop where
  cells : ∀ name ∈ names, IsCell name.toList ∧ name ≠ ""
  distinct : names.Nodup

theorem Kept.writeCell_eq {value : Value} (h : Kept value) :
    writeCell (some value) = value.plain := by
  cases value with
  | null => exact absurd rfl h.ne_null
  | _ => rfl

variable {f : String → Option Value}

theorem get?_filterMap (name : String) (names : List String) :
    Assoc.get? name (names.filterMap fun name => (f name).map fun value => (name, value)) =
      if name ∈ names then f name else none := by
  induction names with
  | nil => rfl
  | cons first names ih =>
      rw [List.filterMap_cons]
      cases hfirst : f first with
      | none =>
          by_cases hname : name = first
          · subst hname
            simp [ih, hfirst]
          · simp [ih, hname]
      | some value =>
          by_cases hname : name = first
          · subst hname
            simp [Assoc.get?, hfirst]
          · simp [Assoc.get?, ih, hname, Ne.symm hname]

theorem nodup_keys_filterMap (h : names.Nodup) :
    (Assoc.keys (names.filterMap fun name => (f name).map fun value => (name, value))).Nodup := by
  rw [Assoc.keys, List.map_filterMap]
  apply h.filterMap
  intro name other key hname hother
  simp only [Option.mem_def, Option.map_map, Option.map_eq_some_iff] at hname hother
  obtain ⟨_, _, rfl⟩ := hname
  obtain ⟨_, _, heq⟩ := hother
  exact heq.symm

theorem retold_eq (hnames : Columns names) (hvalues : ∀ property ∈ properties, Kept property.2) :
    retold names properties = names.filterMap fun name =>
      (Assoc.get? name properties).map fun value => (name, value) := by
  have hpairs : ((names.zip (names.map fun name =>
        (writeCell (Assoc.get? name properties)).toList)).filter fun entry =>
          !entry.1.isEmpty && !entry.2.isEmpty).map (fun entry => (entry.1, cellValue entry.2)) =
      names.filterMap fun name =>
        (Assoc.get? name properties).map fun value => (name, value) := by
    have hfilled : ∀ name ∈ names, name.isEmpty = false := by
      intro name hname
      simpa using (hnames.cells name hname).2
    clear hnames
    induction names with
    | nil => rfl
    | cons name names ih =>
        have hname := hfilled name List.mem_cons_self
        have ih := ih fun later hlater => hfilled later (List.mem_cons_of_mem _ hlater)
        rw [List.map_cons, List.zip_cons_cons, List.filter_cons, List.filterMap_cons]
        cases hvalue : Assoc.get? name properties with
        | none =>
            rw [if_neg (by simp [writeCell]), ih]
            rfl
        | some value =>
            have hkept := hvalues _ (Assoc.mem_of_get? hvalue)
            have hcell : value.plain.toList.isEmpty = false := by simpa using hkept.ne_nil
            rw [hkept.writeCell_eq, if_pos (by simp [hname, hcell]), List.map_cons, ih]
            simp only [Option.map_some, hkept.read]
  refine (congrArg Assoc.ofList hpairs).trans ?_
  exact Assoc.merge_of_nodup (nodup_keys_filterMap hnames.distinct)

theorem get?_retold (hnames : Columns names) (hvalues : ∀ property ∈ properties, Kept property.2)
    (hincluded : ∀ property ∈ properties, property.1 ∈ names) (name : String) :
    Assoc.get? name (retold names properties) = Assoc.get? name properties := by
  rw [retold_eq hnames hvalues, get?_filterMap]
  split
  case isTrue => rfl
  case isFalse hname =>
    refine (Assoc.get?_eq_none fun hmem => hname ?_).symm
    obtain ⟨property, hproperty, rfl⟩ := List.mem_map.mp hmem
    exact hincluded property hproperty

end Writing

end BulkPaths.Csv
