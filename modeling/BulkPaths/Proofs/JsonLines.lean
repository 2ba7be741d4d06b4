import BulkPaths.Format.Jsonl
import BulkPaths.Proofs.JsonTexts
import BulkPaths.Proofs.Rebuilding
import BulkPaths.Proofs.TextLines

/-!
# Graphs as lines of JSON

A line break in a text is escaped, so a row stands on one line, and a row begins and ends with a
brace, so trimming leaves it alone. What is read from the line is the record that was written, with
its members in their order, and the edge is added under the identifiers and the names it had.
-/

namespace BulkPaths

open Text Decimal

namespace Json

variable {depth : Nat} {value : Value} {texts : List String}

theorem inline_escapeUnit (n : Nat) : Inline (escapeUnit n) := by
  apply inline_of_not_blank
  intro c hc
  rcases List.mem_cons.mp hc with rfl | hc
  · decide
  rcases List.mem_cons.mp hc with rfl | hc
  · decide
  obtain ⟨i, _, rfl⟩ := List.mem_map.mp hc
  exact hexChar_not_blank _

theorem inline_escape (c : Char) : Inline (escape c) := by
  unfold escape
  split_ifs with hquote hline hreturn htab hback hfeed hprint
  · rcases hquote with rfl | rfl <;> simp [Inline]
  · simp [Inline]
  · simp [Inline]
  · simp [Inline]
  · simp [Inline]
  · simp [Inline]
  · simp [Inline, hline, hreturn]
  · intro d hd
    obtain ⟨unit, _, hd⟩ := List.mem_flatMap.mp hd
    exact inline_escapeUnit unit d hd

theorem inline_quote (s : String) : Inline (quote s).toList := by
  rw [toList_quote, inline_cons, inline_append]
  refine ⟨by decide, ?_, by simp [Inline]⟩
  intro c hc
  obtain ⟨d, _, hc⟩ := List.mem_flatMap.mp hc
  exact inline_escape d c hc

theorem inline_commaSeparated (h : ∀ text ∈ texts, Inline text.toList) :
    Inline (Value.commaSeparated texts).toList := by
  induction texts with
  | nil => simp [Value.commaSeparated, Inline]
  | cons text texts ih =>
      have htext := h text List.mem_cons_self
      cases texts with
      | nil => rwa [commaSeparated_singleton]
      | cons next texts =>
          rw [commaSeparated_cons, inline_append, inline_cons, inline_cons]
          exact ⟨htext, by decide, by decide,
            ih fun later hlater => h later (List.mem_cons_of_mem _ hlater)⟩

theorem inline_number (x : Float) : Inline (number x).toList := by
  unfold number
  split
  case h_1 => simp [Inline]
  case h_2 => simp [Inline]
  case h_3 => simp [Inline]
  case h_4 hshape =>
    obtain ⟨s, hchars, _⟩ := exists_spelling_of_shape hshape
    rw [hchars]
    exact inline_of_not_blank fun c hc =>
      (numberChar_of_mem_signChars (fun d => s.numberChar_of_mem_chars) hc).not_blank

/-- A written value stands on one line. -/
theorem inline_write (value : Value) : Inline (write value).toList := by
  induction value using Value.held_induction with
  | null => simp [write, Inline]
  | bool b => cases b <;> simp [write, Inline]
  | int n =>
      rw [write]
      exact inline_of_not_blank fun c hc => (numberChar_of_mem_int hc).not_blank
  | real x => exact inline_number x
  | text s => exact inline_quote s
  | uuid u => exact inline_quote u.toText
  | list items ih =>
      rw [toList_write_list, inline_cons, inline_append]
      refine ⟨by decide, inline_commaSeparated ?_, by simp [Inline]⟩
      intro text htext
      obtain ⟨item, hitem, rfl⟩ := List.mem_map.mp htext
      exact ih item hitem
  | record fields ih =>
      rw [toList_write_record, inline_cons, inline_append]
      refine ⟨by decide, inline_commaSeparated ?_, by simp [Inline]⟩
      intro text htext
      obtain ⟨field, hfield, rfl⟩ := List.mem_map.mp htext
      rw [writeField, String.toList_append, String.toList_append, inline_append, inline_append]
      exact ⟨⟨inline_quote _, by simp [Inline]⟩, ih field hfield⟩

end Json

/-- Identifiers that a line of JSON keeps: numbers that can be read back, and texts. -/
def VertexId.Storable : VertexId → Prop
  | .long n => Printable n
  | .utf8 _ => True
  | .uuid _ => False

namespace Jsonl

variable {g : PropertyGraph} {tail : VertexId} {edge : Edge}

/-- What was written of a value is read as that value. -/
def Returns [NestingLimits] (value : Value) : Prop :=
  Json.read (Json.write value).toList = .ok value

theorem fits_toValue {v : VertexId} (h : v.Storable) {depth : Nat} : Json.Fits depth v.toValue := by
  cases v with
  | long n => exact .int h
  | utf8 s => exact .text s
  | uuid u => exact h.elim

theorem fits_rowValue {depth : Nat} (htail : tail.Storable) (htarget : edge.target.Storable)
    (hmapping : (Assoc.keys edge.properties).Nodup)
    (hvalues : ∀ property ∈ edge.properties, Json.Fits depth property.2) :
    Json.Fits (depth + 2) (rowValue tail edge) := by
  refine .record (by simp [Assoc.keys]) ?_
  intro field hfield
  simp only [List.mem_cons, List.not_mem_nil, or_false] at hfield
  rcases hfield with rfl | rfl | rfl
  · exact fits_toValue htail
  · exact fits_toValue htarget
  · exact .record hmapping hvalues

section Lines

variable [NestingLimits]

/-- An edge that a line of JSON keeps. -/
structure Keeps (tail : VertexId) (edge : Edge) : Prop where
  line : Returns (rowValue tail edge)
  tail : tail.Storable ∧ tail ≠ .utf8 ""
  target : edge.target.Storable ∧ edge.target ≠ .utf8 ""
  names : PropertyGraph.checkNames PropertyGraph.reservedNames edge.properties = .ok ()
  mapping : (Assoc.keys edge.properties).Nodup

omit [NestingLimits] in
theorem members_record (fields : Properties) :
    members (.record fields) = .ok (fields.map fun (name, value) => (.text name, value)) := by
  cases fields <;> rfl

omit [NestingLimits] in
theorem mapM_named (fields : Properties) :
    (fields.map fun (name, value) => (Value.text name, value)).mapM named = .ok fields := by
  induction fields with
  | nil => rfl
  | cons field fields ih =>
      rw [List.map_cons, List.mapM_cons, ih]
      rfl

theorem edgeOf_write (h : Keeps tail edge) (g : PropertyGraph) :
    edgeOf g (Json.write (rowValue tail edge)).toList =
      .ok (g.connect tail edge.target edge.properties) := by
  have hmapping : Assoc.ofList edge.properties = edge.properties := Assoc.merge_of_nodup h.mapping
  refine bind_eq_ok.mpr ⟨_, h.line, ?_⟩
  refine bind_eq_ok.mpr ⟨tail.toValue, rfl, ?_⟩
  refine bind_eq_ok.mpr ⟨edge.target.toValue, rfl, ?_⟩
  refine bind_eq_ok.mpr ⟨_, members_record edge.properties, ?_⟩
  refine bind_eq_ok.mpr ⟨tail, VertexId.ofValue_eq_ok.mpr ⟨rfl, h.tail.2⟩, ?_⟩
  refine bind_eq_ok.mpr ⟨edge.target, VertexId.ofValue_eq_ok.mpr ⟨rfl, h.target.2⟩, ?_⟩
  refine bind_eq_ok.mpr ⟨edge.properties, mapM_named edge.properties, ?_⟩
  rw [hmapping, PropertyGraph.connectChecked, h.names]
  rfl

omit [NestingLimits] in
theorem trimmed_write (fields : Properties) : Trimmed (Json.write (.record fields)).toList := by
  rw [Json.toList_write_record]
  constructor
  · intro c hc
    cases hc
    decide
  · intro c hc
    rw [← List.cons_append, List.getLast?_concat] at hc
    cases hc
    decide

theorem row_write (h : Keeps tail edge) (path : String) (g : PropertyGraph) (count line : Nat) :
    row path (g, count) ((Json.write (rowValue tail edge)).toList, line) =
      .ok (g.connect tail edge.target edge.properties, count + 1) := by
  have htrim : trim (Json.write (rowValue tail edge)).toList =
      (Json.write (rowValue tail edge)).toList := (trimmed_write _).trim_eq
  have hne : (Json.write (rowValue tail edge)).toList.isEmpty = false := by
    rw [rowValue, Json.toList_write_record]
    rfl
  unfold row
  dsimp only
  rw [htrim, hne, edgeOf_write h]
  rfl

theorem foldlM_write {rows : List (VertexId × Edge)} (h : ∀ row ∈ rows, Keeps row.1 row.2)
    (path : String) (g : PropertyGraph) (count line : Nat) :
    ((rows.map fun row => (Json.write (rowValue row.1 row.2)).toList).zipIdx line).foldlM (row path)
        (g, count) =
      .ok (g.connectAll (rows.map fun row => (row.1, row.2.target, row.2.properties)),
        count + rows.length) := by
  induction rows generalizing g count line with
  | nil => rfl
  | cons first rows ih =>
      have hfirst := row_write (h first List.mem_cons_self) path g count line
      rw [List.map_cons, List.zipIdx_cons, List.foldlM_cons]
      refine bind_eq_ok.mpr ⟨_, hfirst, ?_⟩
      rw [ih fun row hrow => h row (List.mem_cons_of_mem _ hrow), List.length_cons, add_assoc,
        add_comm 1]
      rfl

omit [NestingLimits] in
theorem lines_write (g : PropertyGraph) : lines (write g).toList =
    g.rows.map fun row => (Json.write (rowValue row.1 row.2)).toList := by
  have hinline : ∀ text ∈ g.rows.map fun row => Json.write (rowValue row.1 row.2),
      Inline text.toList := by
    intro text htext
    obtain ⟨row, _, rfl⟩ := List.mem_map.mp htext
    exact Json.inline_write _
  have hjoin := lines_join hinline
  rw [List.map_map, List.map_map] at hjoin
  exact hjoin

theorem read_write (h : ∀ row ∈ g.rows, Keeps row.1 row.2) (hne : g.rows ≠ []) (path : String) :
    read path (write g).toList = .ok (g.rebuilt id) := by
  refine bind_eq_ok.mpr ⟨_, by rw [lines_write]; exact foldlM_write h path _ _ _, ?_⟩
  have hcount : 0 + g.rows.length ≠ 0 := by simpa using hne
  exact if_neg hcount

end Lines

/-- What calls made is read back from the lines that were written of it: the ends of the edges are
the vertices, and every vertex has its edges in their order, with their properties in theirs. It is
enough that every line is read as the record it was written of; and so it is, if the reader goes two
levels deeper than the values, which lie in a record within that of the line. -/
theorem written_graph_reads_back [NestingLimits] {g : PropertyGraph} (hmade : g.Made)
    (hne : g.rows ≠ []) (hids : ∀ v ∈ g.ids, v.Storable) (path : String) :
    ((∀ row ∈ g.rows, Returns (rowValue row.1 row.2)) →
      ∃ g', read path (write g).toList = .ok g' ∧
        (∀ v, v ∈ g'.ids ↔ ∃ row ∈ g.rows, v = row.1 ∨ v = row.2.target) ∧
        ∀ v, g'.out v = g.out v) ∧
    ∀ depth, depth + 2 ≤ NestingLimits.document →
      (∀ row ∈ g.rows, ∀ property ∈ row.2.properties, Json.Fits depth property.2) →
        ∀ row ∈ g.rows, Returns (rowValue row.1 row.2) := by
  have hformed := hmade.formed
  have htail {row : VertexId × Edge} (hrow : row ∈ g.rows) : row.1 ∈ g.ids :=
    PropertyGraph.tail_mem_ids hrow
  have hhead {row : VertexId × Edge} (hrow : row ∈ g.rows) : row.2.target ∈ g.ids :=
    PropertyGraph.head_mem_ids hrow
  refine ⟨fun hlines => ?_, fun depth hdepth hvalues row hrow => ?_⟩
  · have hkeeps : ∀ row ∈ g.rows, Keeps row.1 row.2 := fun row hrow => {
      tail := ⟨hids _ (htail hrow), hformed.named _ (htail hrow)⟩
      target := ⟨hids _ (hhead hrow), hformed.named _ (hhead hrow)⟩
      names := hformed.names row hrow
      mapping := hformed.mappings row hrow
      line := hlines row hrow }
    refine ⟨g.rebuilt id, read_write hkeeps hne path, fun v => PropertyGraph.mem_ids_rebuilt, ?_⟩
    intro v
    rw [PropertyGraph.out_rebuilt]
    exact List.map_id _
  · have hfits := fits_rowValue (hids _ (htail hrow)) (hids _ (hhead hrow))
      (hformed.mappings row hrow) (hvalues row hrow)
    exact Json.readWithin_write (hfits.mono hdepth)

/-- Two parallel edges and a loop, between a number and the text that spells it, beside a vertex
that no edge reaches. -/
def variedCalls : List GraphCall :=
  [.vertex (.text "alone"),
    .edge (.int 1) (.text "1") [("note", .text "line\nbreak\u2028 \"é\""), ("weight", .null)],
    .edge (.int 1) (.text "1")
      [("weight", .real Binary64.nan), ("tags", .list [.int (-7), .record [("", .bool true)]])],
    .edge (.text "1") (.text "1") []]

theorem written_graph_reads_back_varied :
    ∃ g', read "edges.jsonl" (write (Journal.ofCalls variedCalls).graph).toList = .ok g' ∧
      (∀ v, v ∈ g'.ids ↔ v = .long 1 ∨ v = .utf8 "1") ∧
      ∀ v, g'.out v = (Journal.ofCalls variedCalls).graph.out v := by
  have hrows : (Journal.ofCalls variedCalls).graph.rows =
      [(.long 1, { target := .utf8 "1", properties :=
          [("note", .text "line\nbreak\u2028 \"é\""), ("weight", .null)] }),
        (.long 1, { target := .utf8 "1", properties :=
          [("weight", .real Binary64.nan),
            ("tags", .list [.int (-7), .record [("", .bool true)]])] }),
        (.utf8 "1", { target := .utf8 "1", properties := [] })] := rfl
  have hids : (Journal.ofCalls variedCalls).graph.ids = [.utf8 "alone", .long 1, .utf8 "1"] := rfl
  have hmade : (Journal.ofCalls variedCalls).graph.Made := by
    refine ⟨variedCalls, ?_, rfl⟩
    simp [variedCalls, GraphCall.Mapped, Assoc.keys]
  have hstorable : ∀ v ∈ (Journal.ofCalls variedCalls).graph.ids, v.Storable := by
    have hone : Printable 1 := Nat.le_of_ble_eq_true rfl
    simp [hids, VertexId.Storable, hone]
  have hvalues : ∀ row ∈ (Journal.ofCalls variedCalls).graph.rows,
      ∀ property ∈ row.2.properties, Json.Fits 2 property.2 := by
    have hseven : Printable (-7) := Nat.le_of_ble_eq_true rfl
    have htags : ∀ item ∈ [Value.int (-7), .record [("", .bool true)]],
        Json.Fits 1 item := by
      simp only [List.forall_mem_cons]
      exact ⟨.int hseven,
        .record (by simp [Assoc.keys]) (by simpa using Json.Fits.bool true), by simp⟩
    rw [hrows]
    simp only [List.forall_mem_cons]
    exact ⟨⟨.text _, .null, by simp⟩, ⟨.real _, .list htags, by simp⟩, by simp⟩
  obtain ⟨hreads, hreturns⟩ :=
    written_graph_reads_back hmade (by simp [hrows]) hstorable "edges.jsonl"
  obtain ⟨g', hread, hmem, hout⟩ := hreads (hreturns 2 (by decide) hvalues)
  refine ⟨g', hread, ?_, hout⟩
  intro v
  rw [hmem, hrows]
  simp

end Jsonl

end BulkPaths
