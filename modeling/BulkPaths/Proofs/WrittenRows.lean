import BulkPaths.Proofs.CsvFiles
import BulkPaths.Proofs.DataRows
import BulkPaths.Proofs.JsonLines
import BulkPaths.Proofs.JsonRetelling
import Mathlib.Data.Finset.Card

/-!
# What comes back of a written file

A graph is written row by row, and what is read from its file has an edge for every row, if the rows
stand on lines of their own, except for the rows of a table that begin as a comment does. The ends
of the edges come back as their texts tell them, so as many vertices come back as there were ends
exactly if the texts tell the ends apart.
-/

namespace BulkPaths

open Text

namespace PropertyGraph

variable {ρ : Type} {names : ρ → VertexId → VertexId → Prop} {g' : PropertyGraph}
  {rows : List (VertexId × Edge)} {text : VertexId × Edge → ρ}
  {told : VertexId → Except Fault VertexId} {v w : VertexId}

/-- The ends of some rows, each of them once. -/
def ends (rows : List (VertexId × Edge)) : List VertexId :=
  (rows.flatMap fun row => [row.1, row.2.target]).dedup

theorem mem_ends : v ∈ ends rows ↔ ∃ row ∈ rows, v = row.1 ∨ v = row.2.target := by
  simp [ends]

/-- The vertices of the graph are what the ends of the rows are told as. -/
structure Retells (told : VertexId → Except Fault VertexId) (rows : List (VertexId × Edge))
    (g' : PropertyGraph) : Prop where
  named : ∀ v ∈ ends rows, ∃ w, told v = .ok w
  ids : ∀ w, w ∈ g'.ids ↔ ∃ v ∈ ends rows, told v = .ok w

theorem Grows.retells (hgrows : empty.Grows names g' (rows.map text))
    (hnames : ∀ row ∈ rows, ∀ tail head, names (text row) tail head →
      told row.1 = .ok tail ∧ told row.2.target = .ok head) : Retells told rows g' where
  named v hv := by
    obtain ⟨row, hrow, hend⟩ := mem_ends.mp hv
    obtain ⟨tail, head, hnamed⟩ := hgrows.named _ (List.mem_map_of_mem hrow)
    obtain ⟨htail, hhead⟩ := hnames row hrow tail head hnamed
    rcases hend with rfl | rfl
    · exact ⟨tail, htail⟩
    · exact ⟨head, hhead⟩
  ids w := by
    rw [hgrows.ids]
    constructor
    · rintro (hold | ⟨_, htext, tail, head, hnamed, hend⟩)
      · cases hold
      · obtain ⟨row, hrow, rfl⟩ := List.mem_map.mp htext
        obtain ⟨htail, hhead⟩ := hnames row hrow tail head hnamed
        rcases hend with rfl | rfl
        · exact ⟨row.1, mem_ends.mpr ⟨row, hrow, .inl rfl⟩, htail⟩
        · exact ⟨row.2.target, mem_ends.mpr ⟨row, hrow, .inr rfl⟩, hhead⟩
    · rintro ⟨v, hv, htold⟩
      obtain ⟨row, hrow, hend⟩ := mem_ends.mp hv
      obtain ⟨tail, head, hnamed⟩ := hgrows.named _ (List.mem_map_of_mem hrow)
      obtain ⟨htail, hhead⟩ := hnames row hrow tail head hnamed
      refine .inr ⟨_, List.mem_map_of_mem hrow, tail, head, hnamed, ?_⟩
      rcases hend with rfl | rfl
      · rw [htail] at htold
        exact .inl (Except.ok.inj htold).symm
      · rw [hhead] at htold
        exact .inr (Except.ok.inj htold).symm

/-- No two ends become one vertex exactly if they are told apart. -/
theorem Retells.vertexCount_eq_iff (h : Retells told rows g') :
    g'.vertexCount = (ends rows).length ↔ Set.InjOn told {v | v ∈ ends rows} := by
  classical
  have himage : (ends rows).toFinset.image told = g'.ids.toFinset.image Except.ok := by
    ext outcome
    simp only [Finset.mem_image, List.mem_toFinset]
    constructor
    · rintro ⟨v, hv, rfl⟩
      obtain ⟨w, htold⟩ := h.named v hv
      exact ⟨w, (h.ids w).mpr ⟨v, hv, htold⟩, htold.symm⟩
    · rintro ⟨w, hw, rfl⟩
      exact (h.ids w).mp hw
  have hok : Function.Injective (Except.ok : VertexId → Except Fault VertexId) :=
    fun _ _ => Except.ok.inj
  have hvertices : ((ends rows).toFinset.image told).card = g'.vertexCount := by
    have hdistinct : g'.ids.Nodup := g'.distinct
    rw [himage, Finset.card_image_of_injective _ hok, List.toFinset_card_of_nodup hdistinct]
    exact List.length_map _
  have hends : (ends rows).toFinset.card = (ends rows).length :=
    List.toFinset_card_of_nodup (List.nodup_dedup _)
  rw [← hvertices, ← hends, Finset.card_image_iff, List.coe_toFinset]

end PropertyGraph

namespace Csv

variable {g : PropertyGraph} {tail v : VertexId} {edge : Edge}

/-- Whether the row of an edge from this vertex begins as a comment does. -/
def isComment (tail : VertexId) : Bool := (trimLeft tail.toText.toList).head? == some '#'

/-- An edge whose row stands on one line. -/
structure OnOneLine (tail : VertexId) (edge : Edge) : Prop where
  tail : Inline tail.toText.toList
  target : Inline edge.target.toText.toList
  properties : ∀ property ∈ edge.properties,
    Inline property.1.toList ∧ Inline property.2.plain.toList

theorem inline_writeCell {value : Option Value}
    (h : ∀ held, value = some held → Inline held.plain.toList) :
    Inline (writeCell value).toList := by
  unfold writeCell
  split
  case h_1 => nofun
  case h_2 => nofun
  case h_3 held _ => exact h held rfl

theorem OnOneLine.writeRow (h : OnOneLine tail edge) (names : List String) :
    ∀ text ∈ writeRow names tail edge, Inline text.toList := by
  intro text htext
  rcases List.mem_cons.mp htext with rfl | htext
  · exact h.tail
  rcases List.mem_cons.mp htext with rfl | htext
  · exact h.target
  · obtain ⟨name, -, rfl⟩ := List.mem_map.mp htext
    exact inline_writeCell fun held hheld => (h.properties _ (Assoc.mem_of_get? hheld)).2

theorem inline_header (h : ∀ row ∈ g.rows, OnOneLine row.1 row.2) :
    ∀ text ∈ "u" :: "v" :: columnNames g, Inline text.toList := by
  intro text htext
  rcases List.mem_cons.mp htext with rfl | htext
  · simp [Inline]
  rcases List.mem_cons.mp htext with rfl | htext
  · simp [Inline]
  · obtain ⟨property, hproperty, rfl⟩ := List.mem_map.mp (Assoc.mem_keys_ofList.mp htext)
    obtain ⟨row, hrow, hmem⟩ := List.mem_flatMap.mp hproperty
    exact ((h row hrow).properties property hmem).1

section Joined

variable {first second : String}

theorem exists_commaJoined (first second : String) (texts : List String) :
    ∃ rest, (",".intercalate (first :: second :: texts)).toList = first.toList ++ ',' :: rest := by
  rw [toList_commaJoined, List.map_cons, List.map_cons, List.intercalate_cons_cons,
    List.append_assoc, List.singleton_append]
  exact ⟨_, rfl⟩

/-- A row is passed over only for what its first cell begins with. -/
theorem isSeen_commaJoined (first second : String) (texts : List String) :
    isSeen (",".intercalate (first :: second :: texts)).toList =
      !((trimLeft first.toList).head? == some '#') := by
  obtain ⟨rest, hjoined⟩ := exists_commaJoined first second texts
  rw [isSeen, hjoined, trim_append (by decide)]
  cases trimLeft first.toList with
  | nil => rfl
  | cons c cs => rfl

/-- What separates cells in the later texts of a row does not change its first two cells. -/
theorem cells_trim_commaJoined (hfirst : Unseparated first.toList)
    (hsecond : Unseparated second.toList) (texts : List String) :
    ∃ more, cells (trim (",".intercalate (first :: second :: texts)).toList) =
      trim first.toList :: trim second.toList :: more := by
  have hvisible : ¬isBlank ',' := by decide
  have hleft : Unseparated (trimLeft first.toList) := fun c hc =>
    hfirst c ((List.dropWhile_sublist _).mem hc)
  rw [toList_commaJoined, List.map_cons, List.map_cons, List.intercalate_cons_cons,
    List.append_assoc, List.singleton_append, trim_append hvisible, cells_append hleft,
    trim_trimLeft]
  cases texts with
  | nil =>
      have hright : Unseparated (trimRight second.toList) := fun c hc =>
        hsecond c (List.mem_reverse.mp ((List.dropWhile_sublist _).mem (List.mem_reverse.mp hc)))
      rw [List.map_nil, List.intercalate_singleton, cells_of_unseparated hright, trim_trimRight]
      exact ⟨[], rfl⟩
  | cons third texts =>
      rw [List.map_cons, List.intercalate_cons_cons, List.append_assoc, List.singleton_append,
        trimRight_append hvisible, cells_append hsecond]
      exact ⟨_, rfl⟩

end Joined

/-- The cells that are read of the row of an edge. -/
def rowCells (g : PropertyGraph) (row : VertexId × Edge) : List (List Char) :=
  cells (trim (",".intercalate (writeRow (columnNames g) row.1 row.2)).toList)

/-- Of what was written the first row is the header, and the rows that are no comments are data. -/
theorem dataRows_write (h : ∀ row ∈ g.rows, OnOneLine row.1 row.2) :
    dataRows (write g).toList =
      (g.rows.filter fun row => !isComment row.1).map (rowCells g) := by
  have hlines := lines_write (inline_header h) fun row hrow => (h row hrow).writeRow _
  have htail : Unseparated "u".toList := by simp [Unseparated]
  have hhead : Unseparated "v".toList := by simp [Unseparated]
  obtain ⟨more, hcells⟩ := cells_trim_commaJoined htail hhead (columnNames g)
  have hseen : isSeen (",".intercalate ("u" :: "v" :: columnNames g)).toList = true := by
    rw [isSeen_commaJoined]
    rfl
  have hheader : isHeader (trim "u".toList :: trim "v".toList :: more) = true := rfl
  have hrows : seenRows (g.rows.map fun row =>
      (",".intercalate (writeRow (columnNames g) row.1 row.2)).toList) =
        (g.rows.filter fun row => !isComment row.1).map (rowCells g) := by
    have hfilter : g.rows.filter (isSeen ∘ fun row =>
        (",".intercalate (writeRow (columnNames g) row.1 row.2)).toList) =
          g.rows.filter fun row => !isComment row.1 := by
      apply List.filter_congr
      intro row _
      rw [Function.comp_apply, writeRow, isSeen_commaJoined, isComment]
    rw [seenRows, List.filter_map, List.map_map, hfilter]
    apply List.map_congr_left
    intro row _
    rw [Function.comp_apply, rowCells]
  rw [dataRows, hlines, seenRows_cons_seen hseen, hcells, hrows, afterHeader]
  exact if_pos hheader

theorem read_trim (text : String) :
    VertexId.read (String.ofList (trim text.toList)) = VertexId.read text := by
  rw [VertexId.read, VertexId.parse, String.toList_ofList, VertexId.parseChars_trim]
  rfl

theorem told_of_names {row : VertexId × Edge} {a b : VertexId}
    (htail : Unseparated row.1.toText.toList) (htarget : Unseparated row.2.target.toText.toList)
    (h : Names (rowCells g row) a b) :
    VertexId.read row.1.toText = .ok a ∧ VertexId.read row.2.target.toText = .ok b := by
  obtain ⟨first, second, more, hparts, hfirst, hsecond⟩ := h
  obtain ⟨rest, hcells⟩ := cells_trim_commaJoined htail htarget
    ((columnNames g).map fun name => writeCell (row.2.property? name))
  rw [rowCells, writeRow, hcells] at hparts
  cases hparts
  rw [read_trim] at hfirst hsecond
  exact ⟨hfirst, hsecond⟩

end Csv

namespace Jsonl

variable {g : PropertyGraph}

/-- Every row that was written is data. -/
theorem dataRows_write (g : PropertyGraph) : dataRows (write g).toList =
    g.rows.map fun row => (Json.write (rowValue row.1 row.2)).toList := by
  have htrim : (lines (write g).toList).map trim =
      g.rows.map fun row => (Json.write (rowValue row.1 row.2)).toList := by
    rw [lines_write, List.map_map]
    apply List.map_congr_left
    intro row _
    rw [Function.comp_apply, rowValue, (trimmed_write _).trim_eq]
  rw [dataRows, htrim, List.filter_eq_self]
  intro text htext
  obtain ⟨row, -, rfl⟩ := List.mem_map.mp htext
  rw [rowValue, Json.toList_write_record]
  rfl

theorem told_of_names [NestingLimits] {row : VertexId × Edge} {a b : VertexId}
    (h : Names (Json.write (rowValue row.1 row.2)).toList a b) :
    VertexId.ofValue (Json.told row.1.toValue) = .ok a ∧
      VertexId.ofValue (Json.told row.2.target.toValue) = .ok b := by
  obtain ⟨fields, u, v, hread, hu, hv, htail, hhead⟩ := h
  have hfields := Json.told_of_readWithin hread
  cases hfields
  cases hu
  cases hv
  exact ⟨htail, hhead⟩

end Jsonl

theorem VertexId.ofValue_toValue (v : VertexId) :
    ofValue v.toValue = if v = .utf8 "" then .error .emptyId else .ok v := by
  cases v with
  | utf8 s => simp [toValue, ofValue]
  | _ => rfl

namespace GraphFile

open PropertyGraph

variable {site site' : Site} {path : String} {name : Option String} {format : FileFormat}
  {g : PropertyGraph} {text : String}

/-- What an identifier is read as when it was written. -/
def told : FileFormat → VertexId → Except Fault VertexId
  | .csv, v => VertexId.read v.toText
  | .jsonl, v => VertexId.ofValue (Json.told v.toValue)
  | .graphml, _ => .error .unknownFormat

/-- Whether the row of an edge from this vertex is passed over. -/
def isPassedOver : FileFormat → VertexId → Bool
  | .csv, tail => Csv.isComment tail
  | _, _ => false

def keptRows (format : FileFormat) (g : PropertyGraph) : List (VertexId × Edge) :=
  g.rows.filter fun row => !isPassedOver format row.1

/-- In a table the text of every end stands in one cell. -/
def EndsInCells (format : FileFormat) (g : PropertyGraph) : Prop :=
  format = .csv → ∀ v ∈ ends (keptRows format g), Csv.Unseparated v.toText.toList

/-- What comes back of a graph: an edge for every row that is not passed over, between its ends as
they are told. -/
structure ComesBack (format : FileFormat) (g g' : PropertyGraph) : Prop where
  edges : g'.edgeCount = (keptRows format g).length
  edges_iff : g'.edgeCount = g.edgeCount ↔ ∀ row ∈ g.rows, isPassedOver format row.1 = false
  ids : EndsInCells format g → ∀ w, w ∈ g'.ids ↔
    ∃ v ∈ ends (keptRows format g), told format v = .ok w
  vertices : EndsInCells format g → (g'.vertexCount = (ends (keptRows format g)).length ↔
    Set.InjOn (told format) {v | v ∈ ends (keptRows format g)})

theorem comesBack_of_grows {ρ : Type} {names : ρ → VertexId → VertexId → Prop} {g' : PropertyGraph}
    {row : VertexId × Edge → ρ} (hgrows : empty.Grows names g' ((keptRows format g).map row))
    (htold : EndsInCells format g → ∀ kept ∈ keptRows format g, ∀ tail head,
      names (row kept) tail head →
        told format kept.1 = .ok tail ∧ told format kept.2.target = .ok head) :
    ComesBack format g g' where
  edges := by rw [hgrows.edgeCount_eq, List.length_map]
  edges_iff := by
    rw [hgrows.edgeCount_eq, List.length_map, keptRows, edgeCount,
      List.length_filter_eq_length_iff]
    simp
  ids hunseparated := (hgrows.retells (htold hunseparated)).ids
  vertices hunseparated := (hgrows.retells (htold hunseparated)).vertexCount_eq_iff

theorem text?_of_write (hformat : format? path name = some format)
    (hwrite : write site g path name = .ok text) : text? g format = some text := by
  unfold write at hwrite
  rw [hformat, Option.bind_some] at hwrite
  cases htext : text? g format with
  | none =>
      rw [htext] at hwrite
      cases hwrite
  | some written =>
      rw [htext] at hwrite
      obtain ⟨-, -, hspelled⟩ := bind_eq_ok.mp hwrite
      split at hspelled
      · exact congrArg some (Except.ok.inj hspelled)
      · cases hspelled

/-- **Nothing more is lost.** What was written of a graph is refused, as a file of its format or for
one of the faults that rows let through, or it comes back: with as many edges as were written,
except for those whose rows begin as comments do, and with as many vertices as these have ends,
except for ends that are told alike. In a table every row must stand on one line, and to tell the
vertices the ends must stand in one cell each. -/
theorem written_graph_comes_back_or_is_reported [NestingLimits]
    (hformat : format? path name = some format) (hwrite : write site g path name = .ok text)
    (hfile : site'.find (FileName.normal path) = .ok (.file text.toUTF8))
    (hlines : format = .csv → ∀ row ∈ g.rows, Csv.OnOneLine row.1 row.2) :
    (∃ g', read site' path name = .ok g' ∧ ComesBack format g g') ∨
    ∃ fault, read site' path name = .error fault ∧
      (fault.kind = .format ∨ Escapes text.toList fault format) := by
  have htext := text?_of_write hformat hwrite
  rw [read_eq_parse hformat hfile]
  cases format with
  | graphml => cases htext
  | csv =>
      cases htext
      rw [parse, parseText_toUTF8]
      refine (Csv.read_cases _ (Csv.write g).toList).imp_left ?_
      rintro ⟨g', hread, -, hgrows⟩
      rw [Csv.dataRows_write (hlines rfl)] at hgrows
      refine ⟨g', hread, comesBack_of_grows hgrows ?_⟩
      intro hcells row hrow tail head
      have htail := hcells rfl _ (mem_ends.mpr ⟨row, hrow, .inl rfl⟩)
      have htarget := hcells rfl _ (mem_ends.mpr ⟨row, hrow, .inr rfl⟩)
      exact Csv.told_of_names htail htarget
  | jsonl =>
      cases htext
      rw [parse, parseText_toUTF8]
      refine (Jsonl.read_cases _ (Jsonl.write g).toList).imp_left ?_
      rintro ⟨g', hread, -, hgrows⟩
      have hkept : keptRows .jsonl g = g.rows := List.filter_eq_self.mpr fun _ _ => rfl
      rw [Jsonl.dataRows_write, ← hkept] at hgrows
      exact ⟨g', hread, comesBack_of_grows hgrows fun _ _ _ _ _ => Jsonl.told_of_names⟩

/-- The identifier with what JSON keeps of it. -/
def jsonForm : VertexId → VertexId
  | .uuid u => .utf8 u.toText
  | v => v

theorem told_jsonl (v : VertexId) :
    told .jsonl v = if jsonForm v = .utf8 "" then .error .emptyId else .ok (jsonForm v) := by
  rw [← VertexId.ofValue_toValue]
  cases v <;> rfl

/-- Lines of JSON tell all ends apart but universal identifiers from their texts. -/
theorem injOn_told_jsonl {vs : List VertexId} : Set.InjOn (told .jsonl) {v | v ∈ vs} ↔
    ∀ u, .uuid u ∈ vs → .utf8 u.toText ∉ vs := by
  constructor
  · intro hapart u huuid hutf8
    have hsame : told .jsonl (.uuid u) = told .jsonl (.utf8 u.toText) := rfl
    cases hapart huuid hutf8 hsame
  · intro hmerge v hv w hw heq
    have hform : jsonForm v = jsonForm w := by
      rw [told_jsonl, told_jsonl] at heq
      split_ifs at heq with hempty hempty'
      · exact hempty.trans hempty'.symm
      · exact Except.ok.inj heq
    cases v with
    | long n =>
        cases w with
        | uuid u => cases hform
        | _ => exact hform
    | utf8 s =>
        cases w with
        | uuid u =>
            cases hform
            exact absurd hv (hmerge u hw)
        | _ => exact hform
    | uuid u =>
        cases w with
        | long n => cases hform
        | utf8 s =>
            cases hform
            exact absurd hw (hmerge u hv)
        | uuid other =>
            have htext : u.toText = other.toText := VertexId.utf8.inj hform
            rw [Uuid.toText_injective htext]

/-- Two edges, of which one leads from a text that begins as a comment does. -/
def commented : PropertyGraph :=
  (PropertyGraph.empty.connect (.utf8 "#a") (.utf8 "b") []).connect (.utf8 "c") (.long 7) []

def commentedFile : Site := .ofFiles [("g.csv", (Csv.write commented).toUTF8)] ["."]

theorem rows_commented : commented.rows =
    [(.utf8 "#a", { target := .utf8 "b", properties := [] }),
      (.utf8 "c", { target := .long 7, properties := [] })] := rfl

theorem toText_commented : (VertexId.utf8 "#a").toText = "#a" ∧ (VertexId.utf8 "b").toText = "b" ∧
    (VertexId.utf8 "c").toText = "c" ∧ (VertexId.long 7).toText = "7" := by decide

theorem toList_write_commented : (Csv.write commented).toList = "u,v\n#a,b\nc,7\n".toList := by
  simp [Csv.write, Csv.joinRow, Csv.writeRow, Csv.columnNames, rows_commented, toText_commented,
    Assoc.ofList, Assoc.merge, Assoc.keys, String.join_cons]

theorem written_graph_comes_back_or_is_reported_commented :
    ∃ g', read commentedFile "g.csv" none = .ok g' ∧ g'.edgeCount = 1 ∧ g'.vertexCount = 2 := by
  have hformat : format? "g.csv" none = some .csv := rfl
  have hwrite : write (.ofFiles [] ["."]) commented "g.csv" none = .ok (Csv.write commented) := rfl
  have hfile : commentedFile.find (FileName.normal "g.csv") =
      .ok (.file (Csv.write commented).toUTF8) := rfl
  have hlines : ∀ row ∈ commented.rows, Csv.OnOneLine row.1 row.2 := by
    rw [rows_commented]
    intro row hrow
    fin_cases hrow
    all_goals
      constructor
      · simp [Inline, toText_commented]
      · simp [Inline, toText_commented]
      · simp
  have hkept : keptRows .csv commented =
      [(.utf8 "c", { target := .long 7, properties := [] })] := rfl
  have hends : ∀ v ∈ ends (keptRows .csv commented),
      told .csv v = .ok v ∧ Csv.Unseparated v.toText.toList := by
    rw [hkept]
    intro v hv
    obtain ⟨row, hrow, hend⟩ := mem_ends.mp hv
    rw [List.mem_singleton.mp hrow] at hend
    rcases hend with rfl | rfl
    · exact ⟨rfl, by simp [Csv.Unseparated, toText_commented]⟩
    · exact ⟨rfl, by simp [Csv.Unseparated, toText_commented]⟩
  have htable : (read commentedFile "g.csv" none).isOk := by
    rw [read_eq_parse hformat hfile, parse, parseText_toUTF8, toList_write_commented]
    rfl
  rcases written_graph_comes_back_or_is_reported hformat hwrite hfile fun _ => hlines with
    ⟨g', hread, hback⟩ | ⟨fault, hread, -⟩
  · have hapart : Set.InjOn (told .csv) {v | v ∈ ends (keptRows .csv commented)} := by
      intro v hv w hw heq
      rw [(hends v hv).1, (hends w hw).1] at heq
      exact Except.ok.inj heq
    refine ⟨g', hread, hback.edges, ?_⟩
    exact (hback.vertices fun _ v hv => (hends v hv).2).mpr hapart
  · rw [hread] at htable
    cases htable

/-- The edge whose row begins as a comment does is written, and is not read again. -/
theorem commented_edge_disappears : commented.edgeCount = 2 ∧
    ∃ g', parse .csv "g.csv" (Csv.write commented).toUTF8 = .ok g' ∧ g'.edgeCount = 1 := by
  refine ⟨rfl, ?_⟩
  rw [parse, parseText_toUTF8, toList_write_commented]
  exact ⟨_, rfl, rfl⟩

end GraphFile

end BulkPaths
