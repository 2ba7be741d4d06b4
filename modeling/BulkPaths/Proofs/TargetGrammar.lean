import BulkPaths.Proofs.TargetTexts

/-!
# Which texts list targets

A text is the star, or a list of entries between commas; every entry names an identifier, and the
targets are the set of what is named. So nothing depends on the order of the entries, on how often
one stands in the list or on the white space around it. The reader of a source has checks of its
own, but it accepts the lists of a single entry and no others.
-/

namespace BulkPaths.Targets

open Text

/-- What stands between the commas. -/
def piecesOf (raw : String) : List (List Char) := cutAt ',' raw.toList

/-- A piece that names an identifier. -/
structure Entry (piece : List Char) : Prop where
  nonempty : trim piece ≠ []
  named : trim piece ≠ star
  accepted : ∃ id, VertexId.parseChars (trim piece) = .ok id

/-- The identifiers that the pieces of a text name. -/
def listedIds (raw : String) : Set VertexId :=
  {id | ∃ piece ∈ piecesOf raw, VertexId.parseChars (trim piece) = .ok id}

/-- Ways to write a list anew that should not matter. -/
inductive Rewritten : List (List Char) → List (List Char) → Prop
  | permuted {pieces pieces' : List (List Char)} (perm : pieces.Perm pieces') :
      Rewritten pieces pieces'
  | repeated {pieces : List (List Char)} {piece : List Char} (mem : piece ∈ pieces) :
      Rewritten pieces (piece :: pieces)
  | padded {pieces : List (List Char)} {before piece after : List Char}
      (blankBefore : ∀ c ∈ before, isBlank c) (blankAfter : ∀ c ∈ after, isBlank c) :
      Rewritten (piece :: pieces) ((before ++ (piece ++ after)) :: pieces)

variable {raw : String} {targets : Targets} {id : VertexId} {pieces pieces' : List (List Char)}

theorem entries_eq (raw : String) : entries raw.toList = (piecesOf raw).map trim := rfl

theorem mem_listedIds : id ∈ listedIds raw ↔
    Except.ok id ∈ (entries raw.toList).map VertexId.parseChars := by
  rw [entries_eq, List.map_map, List.mem_map]
  exact .rfl

section Accepting

/-- A text without a comma is its only piece. -/
theorem entries_of_not_mem (h : ',' ∉ raw.toList) : entries raw.toList = [trim raw.toList] := by
  rw [entries, cutAt_of_not_mem h, List.map_singleton]

theorem entries_eq_star_iff : entries raw.toList = [star] ↔ trim raw.toList = star := by
  by_cases hcomma : ',' ∈ raw.toList
  · refine iff_of_false (fun hentries => ?_) fun htrim => ?_
    · obtain ⟨front, back, hraw, hfront⟩ := List.eq_append_cons_of_mem hcomma
      rw [entries, hraw, cutAt_append hfront, List.map_cons, List.cons.injEq,
        List.map_eq_nil_iff] at hentries
      exact cutAt_ne_nil _ _ hentries.2
    · rw [← mem_trim_iff (by decide), htrim] at hcomma
      exact absurd hcomma (by decide)
  · rw [entries_of_not_mem hcomma, List.cons.injEq, and_iff_left rfl]

theorem parse_eq_all_iff : parse raw = .ok .all ↔ trim raw.toList = star := by
  rw [parse_eq_ok, entries_eq_star_iff]
  constructor
  · rintro (⟨hstar, -⟩ | ⟨-, ids, -, hall⟩)
    · exact hstar
    · exact absurd hall.symm (ofIds_ne_all _)
  · exact fun hstar => .inl ⟨hstar, rfl⟩

/-- Where every item has an image, the images make a list. -/
theorem exists_map_eq_ok {ε α β : Type} {f : α → Except ε β} {items : List α}
    (h : ∀ item ∈ items, ∃ b, f item = .ok b) : ∃ found : List β, items.map f = found.map .ok := by
  induction items with
  | nil => exact ⟨[], rfl⟩
  | cons item items ih =>
      obtain ⟨⟨b, hb⟩, hitems⟩ := List.forall_mem_cons.mp h
      obtain ⟨found, hfound⟩ := ih hitems
      exact ⟨b :: found, by rw [List.map_cons, hb, hfound, List.map_cons]⟩

/-- Beside the star, a text is accepted as the set of what its pieces name. -/
theorem parse_eq_ofIds (hentries : ∀ piece ∈ piecesOf raw, Entry piece) :
    ∃ ids, parse raw = .ok (ofIds ids) ∧ ids.Increasing ∧ ∀ id, id ∈ ids ↔ id ∈ listedIds raw := by
  obtain ⟨found, hfound⟩ : ∃ found : List VertexId,
      (entries raw.toList).map VertexId.parseChars = found.map .ok := by
    refine exists_map_eq_ok fun entry hentry => ?_
    obtain ⟨piece, hpiece, rfl⟩ := List.mem_map.mp hentry
    exact (hentries piece hpiece).accepted
  have hstar : star ∉ entries raw.toList := by
    intro hmem
    obtain ⟨piece, hpiece, htrim⟩ := List.mem_map.mp hmem
    exact (hentries piece hpiece).named htrim
  refine ⟨_, parse_eq_ok.mpr (.inr ⟨hstar, found, hfound, rfl⟩), IdSet.increasing_ofList found,
    fun id => ?_⟩
  rw [IdSet.mem_ofList, mem_listedIds, hfound, List.mem_map_of_injective fun _ _ => Except.ok.inj]

theorem entry_of_parse (h : parse raw = .ok targets) (hstar : trim raw.toList ≠ star) :
    ∀ piece ∈ piecesOf raw, Entry piece := by
  rcases parse_eq_ok.mp h with ⟨hentries, -⟩ | ⟨hentries, found, hfound, -⟩
  · exact absurd (entries_eq_star_iff.mp hentries) hstar
  · intro piece hpiece
    have hmem : trim piece ∈ entries raw.toList := List.mem_map_of_mem hpiece
    obtain ⟨id, -, hid⟩ : ∃ id ∈ found, Except.ok id = VertexId.parseChars (trim piece) :=
      List.mem_map.mp (hfound ▸ List.mem_map_of_mem hmem)
    refine ⟨fun hempty => ?_, fun hstar => hentries (hstar ▸ hmem), id, hid.symm⟩
    rw [hempty] at hid
    cases hid

theorem exists_parse_iff (hstar : trim raw.toList ≠ star) :
    (∃ targets, parse raw = .ok targets) ↔ ∀ piece ∈ piecesOf raw, Entry piece := by
  constructor
  · rintro ⟨targets, h⟩
    exact entry_of_parse h hstar
  · intro hentries
    obtain ⟨ids, hparse, -⟩ := parse_eq_ofIds hentries
    exact ⟨_, hparse⟩

theorem trim_ne_star (h : parse raw = .ok targets) (hlist : targets ≠ .all) :
    trim raw.toList ≠ star := by
  intro hstar
  rw [parse_eq_all_iff.mpr hstar] at h
  exact hlist (Except.ok.inj h).symm

theorem mem_ids_iff (h : parse raw = .ok targets) (hlist : targets ≠ .all) :
    id ∈ targets.ids ↔ id ∈ listedIds raw := by
  obtain ⟨ids, hparse, -, hmem⟩ := parse_eq_ofIds (entry_of_parse h (trim_ne_star h hlist))
  obtain rfl := Except.ok.inj (h.symm.trans hparse)
  rw [ids_ofIds, hmem]

theorem quantity_eq_single_iff (h : parse raw = .ok targets) (hlist : targets ≠ .all) :
    targets.quantity = .single ↔ ∃ id, listedIds raw = {id} := by
  have hids (id : VertexId) : targets.ids = [id] ↔ listedIds raw = {id} := by
    rw [Set.ext_iff]
    constructor
    · intro heq other
      rw [← mem_ids_iff h hlist, heq, List.mem_singleton, Set.mem_singleton_iff]
    · intro heq
      refine (increasing_of_parse h).ext (List.pairwise_singleton _ id) fun other => ?_
      rw [mem_ids_iff h hlist, heq, List.mem_singleton, Set.mem_singleton_iff]
  rw [← (counted_of_parse h).single, List.length_eq_one_iff]
  exact exists_congr hids

end Accepting

section Rewriting

/-- Lists with the same entries, in whatever order and however often, are the same targets. -/
theorem parse_of_mem_iff {raw' : String} (h : parse raw = .ok targets) (hlist : targets ≠ .all)
    (hsame : ∀ entry, entry ∈ entries raw'.toList ↔ entry ∈ entries raw.toList) :
    parse raw' = .ok targets := by
  have hentries := entry_of_parse h (trim_ne_star h hlist)
  have hentries' : ∀ piece ∈ piecesOf raw', Entry piece := by
    intro piece hpiece
    obtain ⟨origin, horigin, htrim⟩ :=
      List.mem_map.mp ((hsame (trim piece)).mp (List.mem_map_of_mem hpiece))
    obtain ⟨hnonempty, hnamed, haccepted⟩ := hentries origin horigin
    rw [htrim] at hnonempty hnamed haccepted
    exact ⟨hnonempty, hnamed, haccepted⟩
  obtain ⟨ids, hparse, hincreasing, hmem⟩ := parse_eq_ofIds hentries
  obtain ⟨ids', hparse', hincreasing', hmem'⟩ := parse_eq_ofIds hentries'
  obtain rfl := Except.ok.inj (h.symm.trans hparse)
  have hids : ids' = ids := by
    refine hincreasing'.ext hincreasing fun id => ?_
    rw [hmem, hmem', mem_listedIds, mem_listedIds, List.mem_map, List.mem_map]
    exact exists_congr fun entry => and_congr_left' (hsame entry)
  rw [hparse', hids]

namespace Rewritten

theorem mem_map_trim_iff (h : Rewritten pieces pieces') (entry : List Char) :
    entry ∈ pieces'.map trim ↔ entry ∈ pieces.map trim := by
  cases h with
  | permuted perm => exact (perm.map trim).mem_iff.symm
  | repeated mem =>
      rw [List.map_cons, List.mem_cons, or_iff_right_of_imp]
      rintro rfl
      exact List.mem_map_of_mem mem
  | padded blankBefore blankAfter =>
      rw [List.map_cons, List.map_cons, trim_padded blankBefore blankAfter]

theorem ne_nil (h : Rewritten pieces pieces') (hne : pieces ≠ []) : pieces' ≠ [] := by
  cases h with
  | permuted perm => exact fun hnil => hne (List.Perm.eq_nil (hnil ▸ perm))
  | repeated => exact List.cons_ne_nil _ _
  | padded => exact List.cons_ne_nil _ _

theorem comma_not_mem (h : Rewritten pieces pieces') (hpieces : ∀ piece ∈ pieces, ',' ∉ piece) :
    ∀ piece ∈ pieces', ',' ∉ piece := by
  cases h with
  | permuted perm => exact fun piece hpiece => hpieces piece (perm.mem_iff.mpr hpiece)
  | repeated mem => exact List.forall_mem_cons.mpr ⟨hpieces _ mem, hpieces⟩
  | padded blankBefore blankAfter =>
      obtain ⟨hpiece, hpieces⟩ := List.forall_mem_cons.mp hpieces
      refine List.forall_mem_cons.mpr ⟨fun hcomma => ?_, hpieces⟩
      rcases List.mem_append.mp hcomma with hbefore | hcomma
      · exact absurd (blankBefore _ hbefore) (by decide)
      rcases List.mem_append.mp hcomma with hmid | hafter
      · exact hpiece hmid
      · exact absurd (blankAfter _ hafter) (by decide)

end Rewritten

/-- Pieces that can stand in for those of the text: joined by commas they are cut apart again, and
their entries are the same. -/
structure Renders (raw : String) (pieces : List (List Char)) : Prop where
  nonempty : pieces ≠ []
  comma : ∀ piece ∈ pieces, ',' ∉ piece
  same : ∀ entry, entry ∈ pieces.map trim ↔ entry ∈ entries raw.toList

theorem renders_piecesOf (raw : String) : Renders raw (piecesOf raw) where
  nonempty := cutAt_ne_nil _ _
  comma _ hpiece hcomma := (mem_cutAt hpiece hcomma).2 rfl
  same _ := .rfl

theorem Renders.rewritten (h : Renders raw pieces) (hstep : Rewritten pieces pieces') :
    Renders raw pieces' where
  nonempty := hstep.ne_nil h.nonempty
  comma := hstep.comma_not_mem h.comma
  same entry := (hstep.mem_map_trim_iff entry).trans (h.same entry)

/-- Pieces that were rewritten, one way after the other, and joined by commas. -/
theorem parse_of_rewritten (h : parse raw = .ok targets) (hlist : targets ≠ .all)
    (hsteps : Relation.ReflTransGen Rewritten (piecesOf raw) pieces) :
    parse (String.ofList ([','].intercalate pieces)) = .ok targets := by
  have hrenders : Renders raw pieces := by
    induction hsteps with
    | refl => exact renders_piecesOf raw
    | tail _ hstep ih => exact ih.rewritten hstep
  refine parse_of_mem_iff h hlist fun entry => ?_
  rw [String.toList_ofList, entries, cutAt_intercalate hrenders.nonempty hrenders.comma,
    hrenders.same]

end Rewriting

/-- A source is a list of one entry. -/
theorem parseSource_eq_ok_iff :
    parseSource raw = .ok id ↔ ',' ∉ raw.toList ∧ parse raw = .ok (.single id) := by
  have hcomma : ',' ∈ trim raw.toList ↔ ',' ∈ raw.toList := mem_trim_iff (by decide)
  constructor
  · intro h
    unfold parseSource at h
    split at h
    case isTrue => cases h
    dsimp only at h
    split at h
    case isTrue => cases h
    case isFalse hplain =>
      obtain ⟨hstar, hnone⟩ := not_or.mp hplain
      rw [hcomma] at hnone
      cases hparse : VertexId.parseChars (trim raw.toList) with
      | error e =>
          rw [hparse] at h
          cases h
      | ok v =>
          rw [hparse] at h
          cases h
          refine ⟨hnone, parse_eq_ok.mpr (.inr ⟨?_, [id], ?_, rfl⟩)⟩
          · rw [entries_of_not_mem hnone, List.mem_singleton]
            exact Ne.symm hstar
          · rw [entries_of_not_mem hnone, List.map_singleton, hparse, List.map_singleton]
  · rintro ⟨hnone, hparse⟩
    have hstar := trim_ne_star hparse nofun
    have hlisted : piecesOf raw = [raw.toList] := cutAt_of_not_mem hnone
    obtain ⟨hnonempty, -, v, hv⟩ := entry_of_parse hparse hstar raw.toList
      (hlisted ▸ List.mem_singleton_self _)
    have hid : v = id := by
      have hmem : v ∈ (single id).ids := (mem_ids_iff hparse nofun).mpr
        ⟨raw.toList, hlisted ▸ List.mem_singleton_self _, hv⟩
      exact List.mem_singleton.mp hmem
    have hblank : ¬isBlankText raw := fun hblank => hnonempty (List.isEmpty_iff.mp hblank)
    have hplain : ¬(trim raw.toList = star ∨ ',' ∈ trim raw.toList) := by
      rw [hcomma]
      exact not_or.mpr ⟨hstar, hnone⟩
    rw [parseSource, if_neg hblank]
    dsimp only
    rw [if_neg hplain, hv, hid]
    rfl

/-- What a text is when it is read as targets and when it is read as a source. -/
structure Grammar (raw : String) : Prop where
  all : parse raw = .ok .all ↔ trim raw.toList = star
  accepted : trim raw.toList ≠ star →
    ((∃ targets, parse raw = .ok targets) ↔ ∀ piece ∈ piecesOf raw, Entry piece)
  ids : ∀ targets, parse raw = .ok targets → targets ≠ .all →
    ∀ id, id ∈ targets.ids ↔ id ∈ listedIds raw
  single : ∀ targets, parse raw = .ok targets → targets ≠ .all →
    (targets.quantity = .single ↔ ∃ id, listedIds raw = {id})
  rewritten : ∀ targets, parse raw = .ok targets → targets ≠ .all → ∀ pieces,
    Relation.ReflTransGen Rewritten (piecesOf raw) pieces →
      parse (String.ofList ([','].intercalate pieces)) = .ok targets
  source : ∀ id, parseSource raw = .ok id ↔ ',' ∉ raw.toList ∧ parse raw = .ok (.single id)

/-- **Texts that list targets.** The star alone stands for every vertex. Any other text is accepted
if and only if each of its pieces names an identifier; the targets are the set of what is named, a
single one if the set has one member, and the same however the pieces are permuted, repeated or
padded. A source is read from the texts without a comma that name a single target, and is that
target. -/
theorem list_grammar (raw : String) : Grammar raw where
  all := parse_eq_all_iff
  accepted := exists_parse_iff
  ids _ h hlist _ := mem_ids_iff h hlist
  single _ h hlist := quantity_eq_single_iff h hlist
  rewritten _ h hlist _ hsteps := parse_of_rewritten h hlist hsteps
  source _ := parseSource_eq_ok_iff

/-- Two spellings of one number are a single target, in either order and padded. -/
theorem list_grammar_sevens : parse "7,+7" = .ok (.single (.long 7)) ∧
    listedIds "7,+7" = {.long 7} ∧ parse "\t+7 ,7,7" = .ok (.single (.long 7)) ∧
      parseSource "\t+7 " = .ok (.long 7) := by
  have hsevens : parse "7,+7" = .ok (.single (.long 7)) := rfl
  have hpadded : parse "\t+7 " = .ok (.single (.long 7)) := rfl
  have hgrammar := list_grammar "7,+7"
  have hpieces : piecesOf "7,+7" = [['7'], ['+', '7']] := rfl
  refine ⟨hsevens, ?_, ?_, ((list_grammar "\t+7 ").source _).mpr ⟨by decide, hpadded⟩⟩
  · obtain ⟨id, hid⟩ := (hgrammar.single _ hsevens nofun).mp rfl
    have hmem : VertexId.long 7 ∈ listedIds "7,+7" :=
      (hgrammar.ids _ hsevens nofun _).mp List.mem_cons_self
    rw [hid, Set.mem_singleton_iff] at hmem
    rw [hid, hmem]
  · have hrepeated : Rewritten [['7'], ['+', '7']] [['7'], ['7'], ['+', '7']] :=
      .repeated List.mem_cons_self
    have hpermuted : Rewritten [['7'], ['7'], ['+', '7']] [['+', '7'], ['7'], ['7']] :=
      .permuted (by decide)
    have hwhite : Rewritten [['+', '7'], ['7'], ['7']]
        ((['\t'] ++ (['+', '7'] ++ [' '])) :: [['7'], ['7']]) :=
      .padded (List.forall_mem_singleton.mpr rfl) (List.forall_mem_singleton.mpr rfl)
    refine hgrammar.rewritten _ hsevens nofun [['\t', '+', '7', ' '], ['7'], ['7']] ?_
    rw [hpieces]
    exact ((Relation.ReflTransGen.single hrepeated).tail hpermuted).tail hwhite

end BulkPaths.Targets
