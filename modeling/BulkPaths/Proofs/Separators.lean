import BulkPaths.Proofs.DataRows

/-!
# Tabs and commas

A tab separates cells as a comma does, but it is white space as well, and a line is trimmed before
it is cut. So the cells that tabs leave empty at the ends of a line are gone before they are
counted. Where the line has both ends of an edge nevertheless, the empty cells behind them do not
matter. In front of them, or in place of one, they do: the line is then another row than the one
with commas, or no row at all.
-/

namespace BulkPaths.Csv

open Text

variable {raw cs : List Char} {parts : List (List Char)} {c : Char} {path : String}
  {line i : Nat} {state state' : State} {fault : Fault}

/-- The text with a comma for every tab. -/
def commas (cs : List Char) : List Char := cs.map fun c => if c = '\t' then ',' else c

section Padding

theorem commas_cons (c : Char) (cs : List Char) :
    commas (c :: cs) = (if c = '\t' then ',' else c) :: commas cs := List.map_cons

theorem commas_append (cs ds : List Char) : commas (cs ++ ds) = commas cs ++ commas ds :=
  List.map_append

theorem commas_of_not_mem (h : '\t' ∉ cs) : commas cs = cs := by
  have hsame : ∀ c ∈ cs, (if c = '\t' then ',' else c) = id c := fun c hc =>
    if_neg (ne_of_mem_of_not_mem hc h)
  exact (List.map_congr_left hsame).trans (List.map_id cs)

theorem not_mem_commas (cs : List Char) : '\t' ∉ commas cs := by
  intro hmem
  obtain ⟨c, -, hc⟩ := List.mem_map.mp hmem
  split at hc
  · exact absurd hc (by decide)
  · contradiction

theorem commas_eq_cons {rest : List Char} (h : commas cs = '\n' :: rest) :
    ∃ rest', cs = '\n' :: rest' := by
  cases cs with
  | nil => cases h
  | cons c cs =>
      rw [commas_cons, List.cons.injEq] at h
      split at h
      · exact absurd h.1 (by decide)
      · exact ⟨cs, by rw [h.1]⟩

/-- Where a line ends is not a matter of tabs. -/
theorem lines_commas (cs : List Char) : lines (commas cs) = (lines cs).map commas := by
  have hplain (c : Char) : (if c = '\t' then ',' else c) = '\n' ∨
      (if c = '\t' then ',' else c) = '\r' ↔ c = '\n' ∨ c = '\r' := by
    by_cases h : c = '\t'
    · subst h
      decide
    · rw [if_neg h]
  have hpaired {c : Char} {rest : List Char}
      (hpair : ∀ rest', c = '\r' → rest = '\n' :: rest' → False) (rest' : List Char) :
      (if c = '\t' then ',' else c) = '\r' → commas rest = '\n' :: rest' → False := by
    intro hc hrest
    obtain ⟨rest'', hrest⟩ := commas_eq_cons hrest
    split at hc
    · exact absurd hc (by decide)
    · exact hpair rest'' hc hrest
  fun_induction lines cs with
  | case1 => rfl
  | case2 rest ih =>
      rw [commas_cons, commas_cons, if_neg (by decide), if_neg (by decide), lines, ih]
      rfl
  | case3 c rest hpair hend ih =>
      rw [commas_cons, lines, if_pos ((hplain c).mpr hend), ih]
      · rfl
      · exact hpaired hpair
  | case4 c rest hpair hopen hlast ih =>
      rw [commas_cons, lines, if_neg ((hplain c).not.mpr hopen), ih, hlast]
      · rfl
      · exact hpaired hpair
  | case5 c rest hpair hopen first more hsplit ih =>
      rw [commas_cons, lines, if_neg ((hplain c).not.mpr hopen), ih, hsplit]
      · rfl
      · exact hpaired hpair

/-- What trimming takes off in front. -/
def leading (cs : List Char) : List Char := cs.takeWhile isBlank

/-- What trimming takes off behind. -/
def trailing (cs : List Char) : List Char := ((trimLeft cs).reverse.takeWhile isBlank).reverse

theorem leading_trim_trailing (cs : List Char) : leading cs ++ (trim cs ++ trailing cs) = cs := by
  have hright : trim cs ++ trailing cs = trimLeft cs := by
    rw [trim, trimRight, trailing, ← List.reverse_append, List.takeWhile_append_dropWhile,
      List.reverse_reverse]
  rw [hright]
  exact List.takeWhile_append_dropWhile

theorem blank_of_mem_leading (h : c ∈ leading cs) : isBlank c := List.mem_takeWhile_imp h

theorem blank_of_mem_trailing (h : c ∈ trailing cs) : isBlank c :=
  List.mem_takeWhile_imp (List.mem_reverse.mp h)

theorem cells_eq (row : List Char) : cells row = (cutAt ',' (commas row)).map trim := rfl

theorem cells_ne_nil (row : List Char) : cells row ≠ [] := by
  rw [cells_eq, Ne, List.map_eq_nil_iff]
  exact cutAt_ne_nil _ _

theorem cells_commas (row : List Char) : cells (commas row) = cells row := by
  rw [cells_eq, commas_of_not_mem (not_mem_commas row), cells_eq]

theorem cells_cons_tab (row : List Char) : cells ('\t' :: row) = [] :: cells row := by
  rw [cells_eq, commas_cons, if_pos rfl, cutAt, if_pos rfl, List.map_cons]
  rfl

theorem cells_cons_blank (hblank : isBlank c) (htab : c ≠ '\t') (row : List Char) :
    cells (c :: row) = cells row := by
  have hsep : c ≠ ',' := by
    rintro rfl
    exact absurd hblank (by decide)
  rw [cells_eq, cells_eq, commas_cons, if_neg htab, cutAt, if_neg hsep]
  split
  case h_1 hnil => exact absurd hnil (cutAt_ne_nil _ _)
  case h_2 piece pieces hpieces =>
    rw [hpieces, List.map_cons, List.map_cons, trim_cons_of_blank hblank]

theorem cutAt_concat_sep (sep : Char) (cs : List Char) :
    cutAt sep (cs ++ [sep]) = cutAt sep cs ++ [[]] := by
  induction cs with
  | nil => simp [cutAt]
  | cons c cs ih =>
      rw [List.cons_append, cutAt, ih, cutAt]
      split
      · rfl
      · cases hpieces : cutAt sep cs with
        | nil => exact absurd hpieces (cutAt_ne_nil sep cs)
        | cons piece pieces => rfl

/-- What is no separator is added to the last piece. -/
theorem cutAt_concat {sep : Char} (h : c ≠ sep) (cs : List Char) :
    ∃ front last, cutAt sep cs = front ++ [last] ∧
      cutAt sep (cs ++ [c]) = front ++ [last ++ [c]] := by
  induction cs with
  | nil => exact ⟨[], [], rfl, by simp [cutAt, h]⟩
  | cons d cs ih =>
      obtain ⟨front, last, hcs, hconcat⟩ := ih
      rw [List.cons_append, cutAt, cutAt, hcs, hconcat]
      split
      · exact ⟨[] :: front, last, rfl, rfl⟩
      · cases front with
        | nil => exact ⟨[], d :: last, rfl, rfl⟩
        | cons piece front => exact ⟨(d :: piece) :: front, last, rfl, rfl⟩

theorem cells_concat_tab (row : List Char) : cells (row ++ ['\t']) = cells row ++ [[]] := by
  rw [cells_eq, commas_append, cells_eq]
  exact (congrArg (List.map trim) (cutAt_concat_sep ',' (commas row))).trans List.map_append

theorem cells_concat_blank (hblank : isBlank c) (htab : c ≠ '\t') (row : List Char) :
    cells (row ++ [c]) = cells row := by
  have hsep : c ≠ ',' := by
    rintro rfl
    exact absurd hblank (by decide)
  obtain ⟨front, last, hrow, hconcat⟩ := cutAt_concat hsep (commas row)
  have hc : commas [c] = [c] := commas_of_not_mem (by simpa using Ne.symm htab)
  rw [cells_eq, cells_eq, commas_append, hc, hrow, hconcat, List.map_append, List.map_append,
    List.map_singleton, List.map_singleton, trim_concat_of_blank hblank]

/-- Every tab in front of a row is an empty cell more. -/
theorem cells_lead {lead : List Char} (h : ∀ c ∈ lead, isBlank c) (row : List Char) :
    cells (lead ++ row) = List.replicate (lead.count '\t') [] ++ cells row := by
  induction lead with
  | nil => rfl
  | cons c lead ih =>
      obtain ⟨hc, hlead⟩ := List.forall_mem_cons.mp h
      by_cases htab : c = '\t'
      · subst htab
        rw [List.cons_append, cells_cons_tab, ih hlead, List.count_cons_self,
          List.replicate_succ, List.cons_append]
      · rw [List.cons_append, cells_cons_blank hc htab, ih hlead, List.count_cons_of_ne htab]

/-- Every tab behind a row is an empty cell more. -/
theorem cells_trail {trail : List Char} (h : ∀ c ∈ trail, isBlank c) (row : List Char) :
    cells (row ++ trail) = cells row ++ List.replicate (trail.count '\t') [] := by
  induction trail using List.reverseRecOn with
  | nil => simp
  | append_singleton trail c ih =>
      have htrail : ∀ c ∈ trail, isBlank c := fun d hd => h d (List.mem_append_left _ hd)
      have hc : isBlank c := h c (by simp)
      by_cases htab : c = '\t'
      · subst htab
        rw [← List.append_assoc, cells_concat_tab, ih htrail, List.append_assoc,
          List.count_append, List.count_singleton_self, List.replicate_succ']
      · rw [← List.append_assoc, cells_concat_blank hc htab, ih htrail, List.count_append,
          List.count_singleton, beq_false_of_ne htab, if_neg Bool.false_ne_true, Nat.add_zero]

/-- The cells of a line are those of the trimmed line and an empty one for each tab that trimming
takes off. -/
theorem cells_padded (raw : List Char) :
    cells raw = List.replicate ((leading raw).count '\t') [] ++
      (cells (trim raw) ++ List.replicate ((trailing raw).count '\t') []) := by
  conv_lhs => rw [← leading_trim_trailing raw]
  rw [cells_lead fun c hc => blank_of_mem_leading hc,
    cells_trail fun c hc => blank_of_mem_trailing hc]

/-- Trimming takes no comma off. -/
theorem cells_trim_commas (raw : List Char) : cells (trim (commas raw)) = cells raw := by
  have hnone : ∀ edge ⊆ commas raw, edge.count '\t' = 0 := fun edge hedge =>
    List.count_eq_zero.mpr fun htab => not_mem_commas raw (hedge htab)
  have hsplit := leading_trim_trailing (commas raw)
  have hlead : leading (commas raw) ⊆ commas raw := by
    intro c hc
    rw [← hsplit]
    exact List.mem_append_left _ hc
  have htrail : trailing (commas raw) ⊆ commas raw := by
    intro c hc
    rw [← hsplit]
    exact List.mem_append_right _ (List.mem_append_right _ hc)
  have hcells := cells_padded (commas raw)
  rw [hnone _ hlead, hnone _ htrail, cells_commas] at hcells
  simpa using hcells.symm

theorem head?_trim_commas_of_leading (h : '\t' ∈ leading raw) :
    (trim (commas raw)).head? = some ',' := by
  obtain ⟨front, back, hsplit, hfront⟩ := List.eq_append_cons_of_mem h
  have hblank : trimLeft front = [] := by
    apply List.dropWhile_eq_nil_iff.mpr
    intro c hc
    have hmem : c ∈ leading raw := by
      rw [hsplit]
      exact List.mem_append_left _ hc
    exact blank_of_mem_leading hmem
  rw [← leading_trim_trailing raw, hsplit, List.append_assoc, List.cons_append, commas_append,
    commas_of_not_mem hfront, commas_cons, if_pos rfl, trim_append (by decide), hblank]
  rfl

/-- Without tabs in front of it, a line begins as the one with commas does. -/
theorem head?_trim_commas (h : '\t' ∉ leading raw) :
    (trim (commas raw)).head? = (trim raw).head? := by
  have hsplit := leading_trim_trailing raw
  cases htrim : trim raw with
  | nil =>
      have hright : trailing raw = [] := by
        have hblank : trim raw ++ trailing raw = trimLeft raw :=
          List.append_cancel_left (hsplit.trans List.takeWhile_append_dropWhile.symm)
        by_contra hne
        obtain ⟨c, rest, hc⟩ := List.exists_cons_of_ne_nil hne
        rw [htrim, List.nil_append, hc] at hblank
        have hfirst : (trimLeft raw).head? = some c := by
          rw [← hblank]
          rfl
        exact not_of_head?_dropWhile hfirst (blank_of_mem_trailing (hc ▸ List.mem_cons_self))
      rw [htrim, hright, List.append_nil, List.append_nil] at hsplit
      rw [hsplit] at h
      rw [commas_of_not_mem h, htrim]
  | cons c rest =>
      have hc : ¬isBlank c := (trimmed_trim raw).1 c (by rw [htrim]; rfl)
      have htab : c ≠ '\t' := by
        rintro rfl
        exact hc (by decide)
      have hblank : trimLeft (leading raw) = [] :=
        List.dropWhile_eq_nil_iff.mpr fun c hc => blank_of_mem_leading hc
      rw [← hsplit, htrim, List.cons_append, commas_append, commas_of_not_mem h, commas_cons,
        if_neg htab, trim_append hc, hblank]
      rfl

end Padding

section Rows

/-- A row of which one end is an empty cell, the first of its ends that is no identifier. -/
def LacksEnd (parts : List (List Char)) : Prop :=
  ∃ tail head more, parts = tail :: head :: more ∧
    (tail = [] ∨ head = [] ∧ ∃ v, VertexId.read (String.ofList tail) = .ok v)

/-- A line that is another row with commas for its tabs, as trimming takes an empty cell off that
matters: one in front, unless the row lacks an end without it, or the only one behind the tail. -/
inductive LosesCell (raw : List Char) : Prop
  | front (tab : '\t' ∈ leading raw) (whole : ¬(isSeen raw ∧ LacksEnd (cells (trim raw))))
  | back (tab : '\t' ∈ trailing raw) (seen : isSeen raw) (alone : (cells (trim raw)).length = 1)

theorem ofTrimmed_eq_blank (h : VertexId.ofTrimmed cs = .error .blank) : cs = [] := by
  by_contra hne
  rw [VertexId.ofTrimmed, if_neg (by simpa using hne)] at h
  repeat' split at h
  all_goals cases h

theorem trim_eq_nil_of_read (h : VertexId.read (String.ofList cs) = .error .blankToken) :
    trim cs = [] := by
  rw [VertexId.read, VertexId.parse, VertexId.parseChars, String.toList_ofList] at h
  cases htrim : VertexId.ofTrimmed (trim cs) with
  | ok v =>
      rw [htrim] at h
      cases h
  | error e =>
      rw [htrim] at h
      cases e <;> cases h
      exact ofTrimmed_eq_blank htrim

/-- What is said of an end is said with the line, but for a numeral of too many digits. -/
theorem inRow_read_eq_error
    (h : inRow path line (VertexId.read (String.ofList cs)) = .error fault) :
    ∃ cause, VertexId.read (String.ofList cs) = .error cause ∧
      (fault = .badRow path line cause ∨ fault = .longNumeral) := by
  cases hread : VertexId.read (String.ofList cs) with
  | ok v =>
      rw [hread] at h
      cases h
  | error cause =>
      rw [hread] at h
      cases h
      refine ⟨cause, rfl, ?_⟩
      rcases VertexId.read_error hread with hinput | ⟨rfl, -⟩
      · exact .inl (by rw [Targets.wrap, hinput])
      · exact .inr rfl

/-- Why a row is refused. -/
theorem edgeRow_eq_error (h : edgeRow path line state parts = .error fault) :
    (fault = .fewCells path line ∧ parts.length < 2) ∨ fault = .longNumeral ∨
      (∃ name, fault = .reservedName name) ∨
      ∃ cause tail head more, fault = .badRow path line cause ∧ parts = tail :: head :: more ∧
        (VertexId.read (String.ofList tail) = .error cause ∨
          VertexId.read (String.ofList head) = .error cause ∧
            ∃ v, VertexId.read (String.ofList tail) = .ok v) := by
  unfold edgeRow at h
  split at h
  case h_1 tail head more =>
    rcases bind_eq_error.mp h with htail | ⟨v, hv, h⟩
    · obtain ⟨cause, hread, rfl | rfl⟩ := inRow_read_eq_error htail
      · exact .inr (.inr (.inr ⟨cause, tail, head, more, rfl, rfl, .inl hread⟩))
      · exact .inr (.inl rfl)
    rcases bind_eq_error.mp h with hhead | ⟨_, -, h⟩
    · obtain ⟨cause, hread, rfl | rfl⟩ := inRow_read_eq_error hhead
      · exact .inr (.inr (.inr ⟨cause, tail, head, more, rfl, rfl,
          .inr ⟨hread, v, inRow_eq_ok.mp hv⟩⟩))
      · exact .inr (.inl rfl)
    rcases bind_eq_error.mp h with hgraph | ⟨_, -, h⟩
    · obtain ⟨property, -, -, rfl⟩ := connectChecked_error hgraph
      exact .inr (.inr (.inl ⟨_, rfl⟩))
    · cases h
  case h_2 hfew =>
    cases h
    refine .inl ⟨rfl, ?_⟩
    match parts, hfew with
    | [], _ => exact Nat.zero_lt_two
    | [_], _ => exact Nat.one_lt_two
    | _ :: _ :: _, hfew => exact absurd rfl (hfew _ _ _)

theorem edgeRow_of_lacksEnd (h : LacksEnd parts) :
    edgeRow path line state parts = .error (.badRow path line .blankToken) := by
  obtain ⟨tail, head, more, rfl, hlacks⟩ := h
  rcases hlacks with rfl | ⟨rfl, v, hv⟩
  · rfl
  · rw [edgeRow, hv]
    rfl

theorem lacksEnd_of_edgeRow
    (h : edgeRow path line state (cells cs) = .error (.badRow path line .blankToken)) :
    LacksEnd (cells cs) := by
  have htrimmed : ∀ part ∈ cells cs, trim part = part := by
    intro part hpart
    obtain ⟨piece, -, rfl⟩ := List.mem_map.mp hpart
    exact VertexId.trim_trim piece
  rcases edgeRow_eq_error h with ⟨hfault, -⟩ | hfault | ⟨_, hfault⟩ |
    ⟨cause, tail, head, more, hfault, hparts, hread⟩
  · cases hfault
  · cases hfault
  · cases hfault
  · cases hfault
    refine ⟨tail, head, more, hparts, hread.imp ?_ ?_⟩
    · intro hblank
      rw [← htrimmed tail (by simp [hparts]), trim_eq_nil_of_read hblank]
    · rintro ⟨hblank, hv⟩
      exact ⟨by rw [← htrimmed head (by simp [hparts]), trim_eq_nil_of_read hblank], hv⟩

theorem isHeader_of_mem (h : [] ∈ parts.take 2) : isHeader parts = false := by
  rw [isHeader, ← Bool.not_eq_true, List.contains_iff_mem]
  intro hheader
  have hempty : "" ∈ (parts.take 2).map fun part => lower (String.ofList part) :=
    List.mem_map.mpr ⟨[], h, rfl⟩
  simp only [headers, List.mem_cons, List.not_mem_nil, or_false] at hheader
  rcases hheader with heq | heq | heq <;> rw [heq] at hempty <;> simp at hempty

theorem isHeader_of_lacksEnd (h : LacksEnd parts) : isHeader parts = false := by
  obtain ⟨tail, head, more, rfl, hlacks⟩ := h
  apply isHeader_of_mem
  rcases hlacks with rfl | ⟨rfl, -⟩ <;> simp

theorem isHeader_singleton (part : List Char) : isHeader [part] = false := by
  simp [isHeader, headers]

/-- Rows of one file, the one read with tabs and the other with commas: the second may have more
columns without a name. -/
structure State.Alike (state state' : State) : Prop where
  graph : state.graph = state'.graph
  columns : ∃ n, state'.columns = state.columns ++ List.replicate n ""
  started : state.started = state'.started
  rows : state.rows = state'.rows

/-- The cell has a name and is not empty. -/
def isFilled (named : String × List Char) : Bool := !named.1.isEmpty && !named.2.isEmpty

theorem rowProperties_eq (columns : List String) (parts : List (List Char)) :
    rowProperties columns parts = Assoc.ofList
      (((columns.zip parts).filter isFilled).map fun named => (named.1, cellValue named.2)) :=
  rfl

theorem filter_isFilled_eq_nil {names : List String} {parts : List (List Char)}
    (h : (∀ name ∈ names, name = "") ∨ ∀ cell ∈ parts, cell = []) :
    (names.zip parts).filter isFilled = [] := by
  rw [List.filter_eq_nil_iff]
  rintro ⟨name, cell⟩ hmem
  obtain ⟨hname, hcell⟩ := List.of_mem_zip hmem
  rcases h with h | h
  · simp [isFilled, h name hname]
  · simp [isFilled, h cell hcell]

/-- Columns without a name and empty cells do not tell anything. -/
theorem rowProperties_padded (columns : List String) (parts : List (List Char)) (m n : Nat) :
    rowProperties (columns ++ List.replicate m "") (parts ++ List.replicate n []) =
      rowProperties columns parts := by
  have hfilter : ((columns ++ List.replicate m "").zip (parts ++ List.replicate n [])).filter
      isFilled = (columns.zip parts).filter isFilled := by
    induction columns generalizing parts with
    | nil => exact filter_isFilled_eq_nil (.inl fun _ => List.eq_of_mem_replicate)
    | cons name columns ih =>
        cases parts with
        | nil => exact filter_isFilled_eq_nil (.inr fun _ => List.eq_of_mem_replicate)
        | cons cell parts =>
            simp only [List.cons_append, List.zip_cons_cons, List.filter_cons, ih]
  rw [rowProperties_eq, hfilter, ← rowProperties_eq]

theorem edgeRow_padded {n : Nat} (h : state.Alike state') (hn : 2 ≤ parts.length ∨ n = 0) :
    Agree State.Alike (edgeRow path line state parts)
      (edgeRow path line state' (parts ++ List.replicate n [])) := by
  match parts with
  | [] =>
      obtain rfl : n = 0 := by simpa using hn
      exact .error _
  | [_] =>
      obtain rfl : n = 0 := by simpa using hn
      exact .error _
  | tail :: head :: more =>
      obtain ⟨m, hcolumns⟩ := h.columns
      rw [List.cons_append, List.cons_append, edgeRow, edgeRow, hcolumns, rowProperties_padded,
        ← h.graph, ← h.rows]
      cases inRow path line (VertexId.read (String.ofList tail)) with
      | error fault => exact .error fault
      | ok u =>
          cases inRow path line (VertexId.read (String.ofList head)) with
          | error fault => exact .error fault
          | ok v =>
              dsimp only [bind, Except.bind]
              cases state.graph.connectChecked u v (rowProperties state.columns more) with
              | error fault => exact .error fault
              | ok graph => exact .ok ⟨rfl, ⟨m, rfl⟩, rfl, rfl⟩

theorem isSeen_of_head? {ds : List Char} (h : (trim cs).head? = (trim ds).head?) :
    isSeen cs = isSeen ds := by
  have hempty : (trim cs).isEmpty = (trim ds).isEmpty := by
    rw [Bool.eq_iff_iff, List.isEmpty_iff, List.isEmpty_iff, ← List.head?_eq_none_iff,
      ← List.head?_eq_none_iff, h]
  rw [isSeen, isSeen, hempty, h]

theorem isSeen_commas_of_leading (h : '\t' ∈ leading raw) : isSeen (commas raw) := by
  have hhead := head?_trim_commas_of_leading h
  rw [isSeen, hhead]
  cases htrim : trim (commas raw) with
  | nil =>
      rw [htrim] at hhead
      cases hhead
  | cons c rest => rfl

/-- With commas, a line with a tab in front lacks an end. -/
theorem row_commas_of_leading (h : '\t' ∈ leading raw) :
    row path state (commas raw, line) = .error (.badRow path line .blankToken) := by
  have hlacks : LacksEnd (cells raw) := by
    obtain ⟨k, hk⟩ := Nat.exists_eq_add_one_of_ne_zero (List.count_pos_iff.mpr h).ne'
    obtain ⟨part, parts, hparts⟩ := List.exists_cons_of_ne_nil (cells_ne_nil (trim raw))
    rw [cells_padded, hk, hparts, List.replicate_succ]
    cases k with
    | zero => exact ⟨[], part, _, rfl, .inl rfl⟩
    | succ k => exact ⟨[], [], _, rfl, .inl rfl⟩
  rw [row_seen (isSeen_commas_of_leading h), cells_trim_commas, isHeader_of_lacksEnd hlacks,
    Bool.and_false, if_neg Bool.false_ne_true, edgeRow_of_lacksEnd hlacks]

/-- Without a tab in front, a line has the same cells with commas, and an empty one more for each
tab behind. -/
theorem cells_of_not_leading (h : '\t' ∉ leading raw) :
    cells (trim (commas raw)) =
      cells (trim raw) ++ List.replicate ((trailing raw).count '\t') [] := by
  rw [cells_trim_commas, cells_padded, List.count_eq_zero.mpr h, List.replicate_zero,
    List.nil_append]

/-- A line that does not lose a cell is the same row with commas. -/
theorem row_agree (path : String) (line : Nat) (h : state.Alike state')
    (hraw : ¬LosesCell raw) :
    Agree State.Alike (row path state (raw, line)) (row path state' (commas raw, line)) := by
  by_cases htab : '\t' ∈ leading raw
  case pos =>
    obtain ⟨hseen, hlacks⟩ := not_not.mp fun hwhole => hraw (.front htab hwhole)
    rw [row_commas_of_leading htab, row_seen hseen, isHeader_of_lacksEnd hlacks, Bool.and_false,
      if_neg Bool.false_ne_true, edgeRow_of_lacksEnd hlacks]
    exact .error _
  case neg =>
    have hsame : isSeen (commas raw) = isSeen raw := isSeen_of_head? (head?_trim_commas htab)
    cases hseen : isSeen raw with
    | false =>
        rw [row_unseen hseen, row_unseen (hsame.trans hseen)]
        exact .ok h
    | true =>
        rw [row_seen hseen, row_seen (hsame.trans hseen), cells_of_not_leading htab, ← h.started]
        have hlength : 2 ≤ (cells (trim raw)).length ∨ (trailing raw).count '\t' = 0 := by
          by_cases hback : '\t' ∈ trailing raw
          · have halone : (cells (trim raw)).length ≠ 1 := fun halone =>
              hraw (.back hback hseen halone)
            have hpos := List.length_pos_iff.mpr (cells_ne_nil (trim raw))
            omega
          · exact .inr (List.count_eq_zero.mpr hback)
        generalize (trailing raw).count '\t' = n at hlength
        have hheader : isHeader (cells (trim raw) ++ List.replicate n []) =
            isHeader (cells (trim raw)) := by
          rcases hlength with hlength | rfl
          · rw [isHeader, isHeader, List.take_append_of_le_length hlength]
          · rw [List.replicate_zero, List.append_nil]
        rw [hheader]
        split
        case isTrue =>
          refine .ok ⟨h.graph, ⟨n, ?_⟩, rfl, h.rows⟩
          rcases hlength with hlength | rfl
          · simp [List.drop_append_of_le_length hlength]
          · simp
        case isFalse => exact edgeRow_padded h hlength

/-- A line that loses a cell is refused with commas. With tabs it is not, or for another reason: it
lacks its second end, or it does not lack one. -/
theorem row_of_losesCell (path : String) (line : Nat) (state state' : State)
    (h : LosesCell raw) : ∃ fault,
    row path state' (commas raw, line) = .error fault ∧
      (row path state (raw, line) = .error (.fewCells path line) ∧
          fault ≠ .fewCells path line ∨
        row path state (raw, line) ≠ .error (.badRow path line .blankToken) ∧
          fault = .badRow path line .blankToken) := by
  by_cases htab : '\t' ∈ leading raw
  case pos =>
    refine ⟨_, row_commas_of_leading htab, .inr ⟨fun hrow => ?_, rfl⟩⟩
    have hwhole : ¬(isSeen raw ∧ LacksEnd (cells (trim raw))) := by
      cases h with
      | front _ whole => exact whole
      | back _ _ alone =>
          rintro ⟨-, tail, head, more, hparts, -⟩
          rw [hparts] at alone
          simp at alone
    cases hseen : isSeen raw with
    | false =>
        rw [row_unseen hseen] at hrow
        cases hrow
    | true =>
        rw [row_seen hseen] at hrow
        split at hrow
        case isTrue => cases hrow
        case isFalse => exact hwhole ⟨hseen, lacksEnd_of_edgeRow hrow⟩
  case neg =>
    cases h with
    | front tab _ => exact absurd tab htab
    | back tab seen alone =>
        obtain ⟨part, hpart⟩ := List.length_eq_one_iff.mp alone
        obtain ⟨k, hk⟩ := Nat.exists_eq_add_one_of_ne_zero (List.count_pos_iff.mpr tab).ne'
        have hseen : isSeen (commas raw) :=
          (isSeen_of_head? (head?_trim_commas htab)).trans seen
        have hheader : isHeader (part :: [] :: List.replicate k []) = false :=
          isHeader_of_mem (by simp)
        have hcommas : row path state' (commas raw, line) =
            edgeRow path line state' (part :: [] :: List.replicate k []) := by
          rw [row_seen hseen, cells_of_not_leading htab, hpart, hk, List.replicate_succ,
            List.singleton_append, hheader, Bool.and_false, if_neg Bool.false_ne_true]
        have htabs : row path state (raw, line) = .error (.fewCells path line) := by
          rw [row_seen seen, hpart, isHeader_singleton, Bool.and_false,
            if_neg Bool.false_ne_true]
          rfl
        rw [hcommas, htabs]
        cases hrow : edgeRow path line state' (part :: [] :: List.replicate k []) with
        | ok next =>
            rw [edgeRow] at hrow
            obtain ⟨_, -, hrow⟩ := bind_eq_ok.mp hrow
            obtain ⟨_, hhead, -⟩ := bind_eq_ok.mp hrow
            cases inRow_eq_ok.mp hhead
        | error fault =>
            refine ⟨fault, rfl, .inl ⟨rfl, ?_⟩⟩
            rintro rfl
            rcases edgeRow_eq_error hrow with ⟨-, hfew⟩ | hfault | ⟨_, hfault⟩ |
              ⟨_, _, _, _, hfault, -⟩
            · simp at hfew
            · cases hfault
            · cases hfault
            · cases hfault

end Rows

section Files

variable {raws : List (List Char)}

def State.result (state : State) : Except Fault PropertyGraph :=
  if state.rows = 0 then .error .noEdges else .ok state.graph

/-- The rows from a line on, and the graph that they make. -/
def readFrom (path : String) (line : Nat) (state : State) (raws : List (List Char)) :
    Except Fault PropertyGraph :=
  (raws.zipIdx line).foldlM (row path) state >>= State.result

theorem readFrom_cons (raw : List Char) (raws : List (List Char)) :
    readFrom path line state (raw :: raws) =
      row path state (raw, line) >>= fun next => readFrom path (line + 1) next raws := by
  rw [readFrom, List.zipIdx_cons, List.foldlM_cons]
  cases row path state (raw, line) <;> rfl

theorem State.Alike.result_eq (h : state.Alike state') : state'.result = state.result := by
  rw [result, result, h.graph, h.rows]

/-- Some line loses a cell, and the lines before it are read. -/
def Loses (path : String) : Nat → State → List (List Char) → Prop
  | _, _, [] => False
  | line, state, raw :: raws =>
    LosesCell raw ∨
      ∃ next, row path state (raw, line) = .ok next ∧ Loses path (line + 1) next raws

theorem loses_iff : Loses path line state raws ↔ ∃ before raw after next,
    raws = before ++ raw :: after ∧ (before.zipIdx line).foldlM (row path) state = .ok next ∧
      LosesCell raw := by
  constructor
  · intro h
    induction raws generalizing line state with
    | nil => exact h.elim
    | cons raw raws ih =>
        rcases h with hraw | ⟨next, hrow, h⟩
        · exact ⟨[], raw, raws, state, rfl, rfl, hraw⟩
        · obtain ⟨before, other, after, last, rfl, hbefore, hother⟩ := ih h
          refine ⟨raw :: before, other, after, last, rfl, ?_, hother⟩
          rw [List.zipIdx_cons, List.foldlM_cons]
          exact bind_eq_ok.mpr ⟨next, hrow, hbefore⟩
  · rintro ⟨before, raw, after, last, rfl, hbefore, hraw⟩
    induction before generalizing line state with
    | nil => exact .inl hraw
    | cons first before ih =>
        rw [List.zipIdx_cons, List.foldlM_cons] at hbefore
        obtain ⟨next, hrow, hbefore⟩ := bind_eq_ok.mp hbefore
        exact .inr ⟨next, hrow, ih hbefore⟩

/-- What is said of a row is said with its line. -/
theorem line_of_row_error {cause : Fault} {k : Nat}
    (h : row path state (raw, line) = .error (.badRow path k cause)) : k = line := by
  cases hseen : isSeen raw with
  | false =>
      rw [row_unseen hseen] at h
      cases h
  | true =>
      rw [row_seen hseen] at h
      split at h
      case isTrue => cases h
      case isFalse =>
        rcases edgeRow_eq_error h with ⟨hfault, -⟩ | hfault | ⟨_, hfault⟩ | ⟨_, _, _, _, hfault, -⟩
        · cases hfault
        · cases hfault
        · cases hfault
        · cases hfault
          rfl

theorem line_le_of_readFrom {cause : Fault} {k : Nat}
    (h : readFrom path line state raws = .error (.badRow path k cause)) : line ≤ k := by
  induction raws generalizing line state with
  | nil =>
      change State.result state = _ at h
      rw [State.result] at h
      split at h <;> cases h
  | cons raw raws ih =>
      rw [readFrom_cons] at h
      rcases bind_eq_error.mp h with hrow | ⟨next, -, hlater⟩
      · exact (line_of_row_error hrow).ge
      · exact Nat.le_of_succ_le (ih hlater)

theorem readFrom_commas (h : state.Alike state') (hraws : ¬Loses path line state raws) :
    readFrom path line state' (raws.map commas) = readFrom path line state raws := by
  induction raws generalizing line state state' with
  | nil => exact h.result_eq
  | cons raw raws ih =>
      obtain ⟨hraw, hlater⟩ := not_or.mp hraws
      have hagree := row_agree path line h hraw
      rw [List.map_cons, readFrom_cons, readFrom_cons]
      generalize hrow : row path state (raw, line) = outcome at hagree
      generalize row path state' (commas raw, line) = outcome' at hagree
      cases hagree with
      | error fault => rfl
      | ok both => exact ih both fun hloses => hlater ⟨_, hrow, hloses⟩

/-- The first line that loses a cell decides: with commas nothing is read after it. -/
theorem readFrom_commas_ne (h : state.Alike state') (hraws : Loses path line state raws) :
    readFrom path line state' (raws.map commas) ≠ readFrom path line state raws := by
  induction raws generalizing line state state' with
  | nil => exact hraws.elim
  | cons raw raws ih =>
      rw [List.map_cons, readFrom_cons, readFrom_cons]
      by_cases hraw : LosesCell raw
      case pos =>
        obtain ⟨fault, hcommas, hother⟩ := row_of_losesCell path line state state' hraw
        rw [hcommas]
        intro heq
        rcases bind_eq_error.mp heq.symm with hrow | ⟨next, hrow, hlater⟩
        · rcases hother with ⟨hfew, hne⟩ | ⟨hne, rfl⟩
          · exact hne (Except.error.inj (hrow.symm.trans hfew))
          · exact hne hrow
        · rcases hother with ⟨hfew, -⟩ | ⟨-, rfl⟩
          · cases hrow.symm.trans hfew
          · exact absurd (line_le_of_readFrom hlater) (Nat.not_succ_le_self line)
      case neg =>
        obtain ⟨next, hrow, hlater⟩ := hraws.resolve_left hraw
        have hagree := row_agree path line h hraw
        rw [hrow] at hagree ⊢
        generalize row path state' (commas raw, line) = outcome at hagree
        cases hagree with
        | ok both => exact ih both hlater

/-- **Tabs are read as commas, unless trimming takes one off that counts.** A table with commas for
its tabs is read as the same graph, or refused for the same reason, exactly if no line that is
reached loses a cell. -/
theorem tabs_read_as_commas_iff (path : String) (content : List Char) :
    read path (commas content) = read path content ↔
      ∀ before raw after state, lines content = before ++ raw :: after →
        (before.zipIdx 1).foldlM (row path) .start = .ok state → ¬LosesCell raw := by
  have halike : State.start.Alike .start := ⟨rfl, ⟨0, rfl⟩, rfl, rfl⟩
  have hread (content : List Char) : read path content = readFrom path 1 .start (lines content) :=
    rfl
  have hlines : read path (commas content) = read path content ↔
      ¬Loses path 1 .start (lines content) := by
    rw [hread, hread, lines_commas]
    exact ⟨fun heq hloses => readFrom_commas_ne halike hloses heq, readFrom_commas halike⟩
  rw [hlines, loses_iff]
  push Not
  rfl

/-- A missing tail is noticed between commas only. -/
example : (read "g.csv" "a\tb\n\tc\td\n".toList).map PropertyGraph.edgeCount = .ok 2 ∧
    (read "g.csv" "a,b\n,c,d\n".toList).map PropertyGraph.edgeCount =
      .error (.badRow "g.csv" 2 .blankToken) :=
  ⟨rfl, rfl⟩

end Files

end BulkPaths.Csv
