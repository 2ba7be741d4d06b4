import BulkPaths.Proofs.FaithfulIds
import BulkPaths.Proofs.Options
import BulkPaths.Proofs.ReachedSets

/-!
# Targets read from their own text

A list of targets is written as the texts of its members. It is read as the same list only if each
text is read as its member and none of them is the star: a member that is read as another could
still be made up for by a third that is read as the first, but what is read in place of a member
takes less room, so the largest of the members that are lost is not read from any text.
-/

namespace BulkPaths

open Text Decimal

namespace VertexId

variable {cs : List Char} {v : VertexId}

theorem mem_of_mem_unquote? {inner : List Char} {c : Char} (h : unquote? cs = some inner)
    (hc : c ∈ inner) : c ∈ cs := by
  unfold unquote? at h
  split at h
  case isTrue =>
    cases h
    exact List.mem_of_mem_tail (List.mem_of_mem_dropLast hc)
  case isFalse => cases h

/-- An entry of a list holds no comma, nor does the text of the identifier that is read from it. -/
theorem comma_not_mem_toText (hcs : ',' ∉ cs) (h : parseChars cs = .ok v) :
    ',' ∉ v.toText.toList := by
  intro hcomma
  cases v with
  | long n => exact (numberChar_of_mem_int hcomma).not_mark (by decide)
  | uuid u =>
      rcases Uuid.mem_toText hcomma with hhyphen | ⟨d, hd⟩
      · exact absurd hhyphen (by decide)
      · exact hexChar_not_mark d (hd ▸ by decide)
  | utf8 s =>
      have hmem : ',' ∈ s.toList := by
        rw [toText] at hcomma
        split at hcomma
        case isTrue => simpa using hcomma
        case isFalse => exact hcomma
      refine hcs (mem_of_mem_trim ?_)
      rcases (ofTrimmed_utf8 h).2 with ⟨-, htrim⟩ | hinner
      · rwa [htrim] at hmem
      · exact mem_of_mem_unquote? hinner hmem

end VertexId

namespace Targets

variable {raw : String} {targets : Targets} {ids : IdSet} {id : VertexId}

theorem ofIds_ne_all (ids : IdSet) : ofIds ids ≠ .all := by
  unfold ofIds
  split <;> exact nofun

/-- Targets are what they are told to be: of a quantity, with identifiers. -/
theorem eq_of_ids {again : Targets} (hquantity : again.quantity = targets.quantity)
    (hids : again.ids = targets.ids) : again = targets := by
  cases again <;> cases targets <;> simp_all [quantity, Targets.ids]

/-- Identifiers that are the members of a list: they have texts without commas. -/
structure Listed (ids : IdSet) : Prop where
  increasing : ids.Increasing
  nonempty : ids ≠ []
  legible : ∀ id ∈ ids, id.Legible
  comma : ∀ id ∈ ids, ',' ∉ id.toText.toList

theorem listed_of_parse (h : parse raw = .ok targets) :
    targets = .all ∨ ∃ ids, Listed ids ∧ targets = ofIds ids := by
  rcases parse_eq_ok.mp h with ⟨-, rfl⟩ | ⟨-, found, hfound, rfl⟩
  · exact .inl rfl
  · have hread : ∀ id ∈ IdSet.ofList found, ∃ entry, ',' ∉ entry ∧
        VertexId.parseChars entry = .ok id := by
      intro id hid
      have hmem : Except.ok id ∈ (entries raw.toList).map VertexId.parseChars :=
        hfound ▸ List.mem_map_of_mem (IdSet.mem_ofList.mp hid)
      obtain ⟨entry, hentry, hparse⟩ := List.mem_map.mp hmem
      obtain ⟨piece, hpiece, rfl⟩ := List.mem_map.mp hentry
      exact ⟨trim piece, fun hcomma => (mem_cutAt hpiece (mem_of_mem_trim hcomma)).2 rfl, hparse⟩
    have hne := ofList_ne_nil (ne_nil_of_entries hfound)
    refine .inr ⟨_, ⟨IdSet.increasing_ofList found, hne, ?_, ?_⟩, rfl⟩
    · intro id hid
      obtain ⟨entry, -, hparse⟩ := hread id hid
      exact VertexId.legible_of_ofTrimmed hparse
    · intro id hid
      obtain ⟨entry, hcomma, hparse⟩ := hread id hid
      exact VertexId.comma_not_mem_toText hcomma hparse

theorem toList_toText_ofIds (ids : IdSet) : (ofIds ids).toText.toList =
    [','].intercalate (ids.map fun id => id.toText.toList) := by
  have htext : (ofIds ids).toText = ",".intercalate ((ofIds ids).ids.map VertexId.toText) := by
    cases hids : ofIds ids with
    | all => exact absurd hids (ofIds_ne_all ids)
    | single id => rfl
    | multiple ids => rfl
  rw [htext, ids_ofIds, String.toList_intercalate, List.map_map]
  rfl

namespace Listed

/-- The entries of the list that is written are the texts of the members. -/
theorem entries_toText (h : Listed ids) :
    entries (ofIds ids).toText.toList = ids.map fun id => trim id.toText.toList := by
  rw [toList_toText_ofIds, entries, cutAt_intercalate, List.map_map]
  · rfl
  · exact mt List.map_eq_nil_iff.mp h.nonempty
  · intro text htext
    obtain ⟨id, hid, rfl⟩ := List.mem_map.mp htext
    exact h.comma id hid

theorem parse_entry (id : VertexId) :
    VertexId.parseChars (trim id.toText.toList) = VertexId.parse id.toText :=
  VertexId.parseChars_trim _

theorem map_parse_entries (h : Listed ids) :
    (entries (ofIds ids).toText.toList).map VertexId.parseChars =
      ids.map fun id => VertexId.parse id.toText := by
  rw [h.entries_toText, List.map_map]
  refine List.map_congr_left fun id _ => ?_
  rw [Function.comp_apply, parse_entry]

theorem parse_toText (h : Listed ids) (hfaithful : ∀ id ∈ ids, id.Faithful ∧ id ≠ .utf8 "*") :
    parse (ofIds ids).toText = .ok (ofIds ids) := by
  have hread : ∀ id ∈ ids, VertexId.parse id.toText = .ok id := fun id hid =>
    VertexId.parse_toText (h.legible id hid) (hfaithful id hid).1
  have hsame : IdSet.ofList ids = ids :=
    (IdSet.increasing_ofList ids).ext h.increasing fun _ => IdSet.mem_ofList
  refine parse_eq_ok.mpr (.inr ⟨?_, ids, ?_, by rw [hsame]⟩)
  · rw [h.entries_toText]
    intro hstar
    obtain ⟨id, hid, hentry⟩ := List.mem_map.mp hstar
    have hparse := parse_entry id
    rw [hentry, hread id hid] at hparse
    exact (hfaithful id hid).2 (Except.ok.inj hparse).symm
  · rw [h.map_parse_entries]
    exact List.map_congr_left hread

/-- The largest member that is lost would have to be read from the text of a larger one. -/
theorem faithful_of_map_parse (h : Listed ids) {found : List VertexId}
    (hfound : (ids.map fun id => VertexId.parse id.toText) = found.map .ok)
    (hsame : IdSet.ofList found = ids) : ∀ id ∈ ids, id.Faithful := by
  classical
  by_contra! hlost
  obtain ⟨id, hid, hid'⟩ := hlost
  obtain ⟨largest, hlargest, hmax⟩ := Finset.exists_max_image
    (ids.toFinset.filter fun id => ¬id.Faithful) VertexId.bulk
    ⟨id, Finset.mem_filter.mpr ⟨List.mem_toFinset.mpr hid, hid'⟩⟩
  obtain ⟨hmem, hchanged⟩ := Finset.mem_filter.mp hlargest
  rw [List.mem_toFinset, ← hsame, IdSet.mem_ofList] at hmem
  have hread : Except.ok largest ∈ ids.map fun id => VertexId.parse id.toText :=
    hfound ▸ List.mem_map_of_mem hmem
  obtain ⟨origin, horigin, hparse⟩ := List.mem_map.mp hread
  by_cases hfaithful : origin.Faithful
  · rw [VertexId.parse_toText (h.legible origin horigin) hfaithful] at hparse
    exact hchanged (Except.ok.inj hparse ▸ hfaithful)
  · have hle := hmax origin (Finset.mem_filter.mpr ⟨List.mem_toFinset.mpr horigin, hfaithful⟩)
    exact Nat.not_lt.mpr hle (VertexId.bulk_of_parse hfaithful hparse)

theorem faithful_of_parse (h : Listed ids) (hparse : parse (ofIds ids).toText = .ok (ofIds ids)) :
    ∀ id ∈ ids, id.Faithful ∧ id ≠ .utf8 "*" := by
  rcases parse_eq_ok.mp hparse with ⟨-, hall⟩ | ⟨hstar, found, hfound, hsame⟩
  · exact absurd hall (ofIds_ne_all ids)
  · have hids := congrArg Targets.ids hsame
    rw [ids_ofIds, ids_ofIds] at hids
    rw [h.map_parse_entries] at hfound
    intro id hid
    refine ⟨h.faithful_of_map_parse hfound hids.symm id hid, ?_⟩
    rintro rfl
    rw [h.entries_toText] at hstar
    exact hstar (List.mem_map.mpr ⟨_, hid, by decide +kernel⟩)

end Listed

/-- The text of the targets is read as targets of the same quantity with the same identifiers. -/
def Stable (targets : Targets) : Prop :=
  ∃ again, parse targets.toText = .ok again ∧ again.quantity = targets.quantity ∧
    again.ids = targets.ids

theorem stable_iff_parse : targets.Stable ↔ parse targets.toText = .ok targets := by
  constructor
  · rintro ⟨again, hparse, hquantity, hids⟩
    rw [hparse, eq_of_ids hquantity hids]
  · exact fun h => ⟨targets, h, rfl, rfl⟩

/-- **Targets and their text.** Accepted targets are read from their own text again, with the same
quantity and the same identifiers, if and only if every identifier is read from its own text and
none is the text that is a star. -/
theorem stable_iff (h : parse raw = .ok targets) :
    targets.Stable ↔ ∀ id ∈ targets.ids, id.Faithful ∧ id ≠ .utf8 "*" := by
  rw [stable_iff_parse]
  rcases listed_of_parse h with rfl | ⟨ids, hlisted, rfl⟩
  · exact iff_of_true rfl nofun
  · rw [ids_ofIds]
    exact ⟨hlisted.faithful_of_parse, hlisted.parse_toText⟩

/-- A number and the text that spells it are kept apart; the text that is a star becomes every
vertex. -/
theorem stable_iff_sevens :
    (multiple [.long 7, .utf8 "7"]).Stable ∧ ¬(single (.utf8 "*")).Stable := by
  have hsevens : parse " \"7\" , 7, \"7\"" = .ok (.multiple [.long 7, .utf8 "7"]) := rfl
  have hstar : parse "\"*\"" = .ok (.single (.utf8 "*")) := rfl
  have hquoted : (VertexId.utf8 "7").Faithful :=
    .inl (VertexId.needsQuotes_iff.mp (by decide +kernel))
  constructor
  · refine (stable_iff hsevens).mpr (List.forall_mem_cons.mpr ⟨⟨trivial, by decide⟩, ?_⟩)
    exact List.forall_mem_singleton.mpr ⟨hquoted, by decide⟩
  · exact fun h => ((stable_iff hstar).mp h _ List.mem_cons_self).2 rfl

/-- A space inside the quotes is part of an identifier, and is lost with the quotes. -/
theorem padded_target_is_changed :
    parse "\" x\"" = .ok (.single (.utf8 " x")) ∧ ¬(single (.utf8 " x")).Stable := by
  refine ⟨rfl, ?_⟩
  rintro ⟨again, hparse, -, hids⟩
  have hread : parse (single (.utf8 " x")).toText = .ok (.single (.utf8 "x")) := rfl
  rw [hread] at hparse
  cases hparse
  exact absurd hids (by decide)

end Targets

end BulkPaths
