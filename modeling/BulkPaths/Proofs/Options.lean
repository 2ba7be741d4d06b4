import BulkPaths.Config
import BulkPaths.Proofs.IdFaults
import BulkPaths.Proofs.Spellings
import BulkPaths.Proofs.TargetsReached

/-!
# Options of a job

Options are accepted or refused before a run begins. What is accepted can be told as options again,
and these are accepted with the same result. What is refused is a fault of the configuration, with
three exceptions: digits that are too many to be read or spelled, values that lie too deep within
one another to be spelled, and a default weight beyond the doubles. They are met on the way to the
checks and not in them.
-/

namespace BulkPaths

open Text

namespace Targets

variable {raw : String} {targets : Targets}

/-- The number of targets is the one that the quantity says. -/
structure Counted (targets : Targets) : Prop where
  all : targets.ids = [] ↔ targets.quantity = .all
  single : targets.ids.length = 1 ↔ targets.quantity = .single

theorem counted_ofIds {ids : IdSet} (hne : ids ≠ []) : (ofIds ids).Counted := by
  unfold ofIds
  split
  case h_1 id => exact ⟨by simp [Targets.ids, quantity], by simp [Targets.ids, quantity]⟩
  case h_2 hmany =>
    refine ⟨by simp [Targets.ids, quantity, hne], ?_⟩
    simp only [Targets.ids, quantity, reduceCtorEq, iff_false]
    intro hone
    obtain ⟨id, rfl⟩ := List.length_eq_one_iff.mp hone
    exact hmany id rfl

theorem ofList_ne_nil {ids : List VertexId} (hne : ids ≠ []) : IdSet.ofList ids ≠ [] := by
  obtain ⟨id, hid⟩ := List.exists_mem_of_ne_nil ids hne
  exact List.ne_nil_of_mem (IdSet.mem_ofList.mpr hid)

theorem counted_of_parse (h : parse raw = .ok targets) : targets.Counted := by
  rcases parse_eq_ok.mp h with ⟨-, rfl⟩ | ⟨-, found, hfound, rfl⟩
  · exact ⟨by simp [ids, quantity], by simp [ids, quantity]⟩
  · exact counted_ofIds (ofList_ne_nil (ne_nil_of_entries hfound))

end Targets

section Limits

variable [NestingLimits]

namespace EdgeWeight

variable {property : String} {default : Value} {weights : EdgeWeight} {fault : Fault}

omit [NestingLimits] in
theorem toValue_of_number? {number : Number} (h : default.number? = some number) :
    number.toValue = default := by
  cases default <;> cases h
  · rfl
  · rfl

/-- Weights that are made tell what they were made of, and their default is a positive finite
double. -/
theorem make_ok (h : make property default = .ok weights) :
    weights.default.toValue = default ∧
      ∃ x, weights.default.toFloat? = some x ∧ 0 < x ∧ x.isFinite := by
  unfold make at h
  split at h
  case h_1 => cases h
  case h_2 number hnumber =>
    split at h
    case isTrue => cases h
    case isFalse =>
      split at h
      case h_1 => cases h
      case h_2 x hx =>
        split at h
        case isTrue hpositive =>
          cases h
          exact ⟨toValue_of_number? hnumber, x, hx, hpositive⟩
        case isFalse => cases h

theorem make_error (h : make property default = .error fault) :
    fault.kind = .config ∨ default.spellingFault? NestingLimits.message = some fault ∨
      fault = .tooLarge ∧ ∃ n, 0 < n ∧ default = .int n ∧ Binary64.ofInt? n = none := by
  have hrefused : ∀ {found : Fault}, found.kind = .config → refusal default found = fault →
      fault.kind = .config ∨ default.spellingFault? NestingLimits.message = some fault := by
    rintro found hkind rfl
    refine (refusal_cases default found).imp_left fun htold => ?_
    rw [htold, hkind]
  unfold make at h
  split at h
  case h_1 => exact (hrefused rfl (Except.error.inj h)).imp_right .inl
  case h_2 number hnumber =>
    split at h
    case isTrue => exact (hrefused rfl (Except.error.inj h)).imp_right .inl
    case isFalse hpositive =>
      split at h
      case h_1 hnone =>
        cases h
        refine .inr (.inr ⟨rfl, ?_⟩)
        cases number with
        | int n =>
            refine ⟨n, ?_, (toValue_of_number? hnumber).symm, hnone⟩
            simpa [Number.isPositive] using hpositive
        | real x => cases hnone
      case h_2 =>
        split at h
        case isTrue => cases h
        case isFalse =>
          cases h
          exact .inl rfl

end EdgeWeight

namespace Config

variable {options : Properties} {config : Config} {source target property default : Value}
  {name : String} {fault : Fault}

/-- What a configuration is made of. -/
theorem make_eq_ok : make source target property default = .ok config ↔
    source = .text config.sourceText ∧ target = .text config.targetText ∧
      propertyName property = .ok config.propertyText ∧
      Targets.parseSource config.sourceText = .ok config.source ∧
      Targets.parse config.targetText = .ok config.targets ∧
      EdgeWeight.make (strip config.propertyText) default = .ok config.weights := by
  constructor
  · intro h
    unfold make at h
    split at h
    case h_1 =>
      obtain ⟨_, hsource, h⟩ := bind_eq_ok.mp h
      obtain ⟨_, htargets, h⟩ := bind_eq_ok.mp h
      obtain ⟨_, hproperty, h⟩ := bind_eq_ok.mp h
      obtain ⟨_, hweights, h⟩ := bind_eq_ok.mp h
      cases h
      exact ⟨rfl, rfl, hproperty, hsource, htargets, hweights⟩
    case h_2 => cases h
  · rintro ⟨rfl, rfl, hproperty, hsource, htargets, hweights⟩
    refine bind_eq_ok.mpr ⟨_, hsource, ?_⟩
    refine bind_eq_ok.mpr ⟨_, htargets, ?_⟩
    refine bind_eq_ok.mpr ⟨_, hproperty, ?_⟩
    exact bind_eq_ok.mpr ⟨_, hweights, rfl⟩

theorem optionText_text {s : String} (h : option? options name = some (.text s)) :
    optionText options name = .ok (.text s) := by
  unfold optionText
  rw [h]
  rfl

theorem optionText_error (h : optionText options name = .error fault) :
    ∃ value, option? options name = some value ∧
      value.spellingFault? NestingLimits.option = some fault := by
  unfold optionText at h
  split at h
  case h_1 => cases h
  case h_2 => cases h
  case h_3 value _ hvalue =>
    split at h
    case h_1 => cases h
    case h_2 hfault =>
      cases h
      exact ⟨value, hvalue, hfault⟩

/-- The text of an option is that of its value, or empty. -/
theorem optionText_ok {text : Value} (h : optionText options name = .ok text) :
    text = .text "" ∨ ∃ value, option? options name = some value ∧ text = .text value.plain := by
  unfold optionText at h
  split at h
  case h_1 =>
    cases h
    exact .inl rfl
  case h_2 =>
    cases h
    exact .inl rfl
  case h_3 value _ hvalue =>
    split at h
    case h_1 =>
      cases h
      exact .inr ⟨value, hvalue, rfl⟩
    case h_2 => cases h

theorem exists_text_of_optionText {text : Value} (h : optionText options name = .ok text) :
    ∃ s, text = .text s := by
  rcases optionText_ok h with hempty | ⟨value, _, hplain⟩
  · exact ⟨"", hempty⟩
  · exact ⟨value.plain, hplain⟩

omit [NestingLimits] in
theorem readDefault_error (h : readDefault default = .error fault) : fault.kind = .config := by
  unfold readDefault at h
  split at h
  case h_1 =>
    split at h
    case h_1 => cases h
    case h_2 =>
      cases h
      rfl
  case h_2 => cases h

omit [NestingLimits] in
theorem readDefault_ok {value : Value} (h : readDefault value = .ok default) :
    default = value ∨ ∃ x, default = .real x := by
  unfold readDefault at h
  split at h
  case h_1 =>
    split at h
    case h_1 x _ =>
      cases h
      exact .inr ⟨x, rfl⟩
    case h_2 => cases h
  case h_2 =>
    cases h
    exact .inl rfl

omit [NestingLimits] in
theorem readDefault_number (number : Number) : readDefault number.toValue = .ok number.toValue := by
  cases number <;> rfl

/-- An option holds a whole number that is too long to be spelled, or the text of an identifier that
is too long to be read. -/
inductive Overlong (options : Properties) : Prop
  | spelled {name : String} {value : Value} (field : name ∈ fieldNames)
      (given : option? options name = some value) (long : value.isSpellable = false)
  | source {value : Value} (given : option? options "source_id" = some value)
      (long : VertexId.LongNumeral (trim value.plain.toList))
  | target {value : Value} {token : List Char} (given : option? options "target_id" = some value)
      (listed : token ∈ cutAt ',' value.plain.toList) (long : VertexId.LongNumeral (trim token))

/-- An option holds values too deep within one another to be spelled: as a text, or where it is
named as no default weight. -/
inductive Overdeep (options : Properties) : Prop
  | text {name : String} {value : Value}
      (field : name ∈ ["source_id", "target_id", "weight_property"])
      (given : option? options name = some value) (deep : NestingLimits.option < value.nesting)
  | default {value : Value} (given : option? options "default_weight" = some value)
      (deep : NestingLimits.message < value.nesting)

/-- The default weight is a whole number beyond the doubles. -/
def Overlarge (options : Properties) : Prop :=
  ∃ n, 0 < n ∧ option? options "default_weight" = some (.int n) ∧ Binary64.ofInt? n = none

/-- What options are refused for. -/
def Refused (options : Properties) (fault : Fault) : Prop :=
  fault.kind = .config ∨ fault = .longNumeral ∧ Overlong options ∨
    fault = .tooNested ∧ Overdeep options ∨ fault = .tooLarge ∧ Overlarge options

theorem refused_text (hfield : name ∈ ["source_id", "target_id", "weight_property"])
    (h : optionText options name = .error fault) : Refused options fault := by
  obtain ⟨value, hvalue, hfault⟩ := optionText_error h
  rcases Value.spellingFault?_eq_some hfault with ⟨rfl, hlong⟩ | ⟨rfl, hdeep⟩
  · have hknown : name ∈ fieldNames := List.mem_append_left ["default_weight"] hfield
    exact .inr (.inl ⟨rfl, .spelled hknown hvalue (Bool.eq_false_of_not_eq_true hlong)⟩)
  · exact .inr (.inr (.inl ⟨rfl, .text hfield hvalue (Nat.lt_of_not_le hdeep)⟩))

theorem refused_source {s : String} (htext : optionText options "source_id" = .ok (.text s))
    (h : Targets.parseSource s = .error fault) : Refused options fault := by
  rcases Targets.parseSource_error h with hkind | ⟨rfl, hlong⟩
  · exact .inl hkind
  · rcases optionText_ok htext with hempty | ⟨value, hvalue, hplain⟩
    · cases hempty
      exact absurd hlong.1 (by decide)
    · cases hplain
      exact .inr (.inl ⟨rfl, .source hvalue hlong⟩)

theorem refused_target {s : String} (htext : optionText options "target_id" = .ok (.text s))
    (h : Targets.parse s = .error fault) : Refused options fault := by
  rcases Targets.parse_error h with hkind | ⟨rfl, token, htoken, hlong⟩
  · exact .inl hkind
  · rcases optionText_ok htext with hempty | ⟨value, hvalue, hplain⟩
    · cases hempty
      rw [List.mem_singleton.mp htoken] at hlong
      exact absurd hlong.1 (by decide)
    · cases hplain
      exact .inr (.inl ⟨rfl, .target hvalue htoken hlong⟩)

theorem refused_default {value : Value}
    (hvalue : value = (option? options "default_weight").getD defaultWeight)
    (hdefault : readDefault value = .ok default)
    (h : EdgeWeight.make name default = .error fault) : Refused options fault := by
  have hgiven : (∀ x, default ≠ .real x) → option? options "default_weight" = some default := by
    intro hreal
    rcases readDefault_ok hdefault with rfl | ⟨x, hx⟩
    · cases hoption : option? options "default_weight" with
      | none =>
          rw [hoption] at hvalue
          exact absurd hvalue (hreal 1)
      | some given =>
          rw [hoption] at hvalue
          exact congrArg some hvalue.symm
    · exact absurd hx (hreal x)
  rcases EdgeWeight.make_error h with hkind | hfault | ⟨rfl, n, hpositive, rfl, hnone⟩
  · exact .inl hkind
  · have hoption : option? options "default_weight" = some default := by
      refine hgiven ?_
      rintro x rfl
      cases hfault
    rcases Value.spellingFault?_eq_some hfault with ⟨rfl, hlong⟩ | ⟨rfl, hdeep⟩
    · have hlong := Bool.eq_false_of_not_eq_true hlong
      exact .inr (.inl ⟨rfl, .spelled (by decide) hoption hlong⟩)
    · exact .inr (.inr (.inl ⟨rfl, .default hoption (Nat.lt_of_not_le hdeep)⟩))
  · exact .inr (.inr (.inr ⟨rfl, n, hpositive, hgiven nofun, hnone⟩))

theorem refused_of_error (h : ofOptions options = .error fault) : Refused options fault := by
  unfold ofOptions at h
  rcases bind_eq_error.mp h with hdefault | ⟨default, hdefault, h⟩
  · exact .inl (readDefault_error hdefault)
  rcases bind_eq_error.mp h with hsource | ⟨source, hsource, h⟩
  · exact refused_text (by decide) hsource
  rcases bind_eq_error.mp h with htarget | ⟨target, htarget, h⟩
  · exact refused_text (by decide) htarget
  rcases bind_eq_error.mp h with hproperty | ⟨property, hproperty, h⟩
  · exact refused_text (by decide) hproperty
  obtain ⟨sourceText, rfl⟩ := exists_text_of_optionText hsource
  obtain ⟨targetText, rfl⟩ := exists_text_of_optionText htarget
  obtain ⟨propertyText, rfl⟩ := exists_text_of_optionText hproperty
  rcases bind_eq_error.mp h with h | ⟨_, _, h⟩
  · exact refused_source hsource h
  rcases bind_eq_error.mp h with h | ⟨_, _, h⟩
  · exact refused_target htarget h
  rcases bind_eq_error.mp h with h | ⟨_, hname, h⟩
  · cases h
  rcases bind_eq_error.mp h with h | ⟨_, _, h⟩
  · exact refused_default rfl hdefault h
  · cases h

/-- What an accepted configuration holds. -/
structure Settled (config : Config) : Prop where
  source : Targets.parseSource config.sourceText = .ok config.source
  targets : Targets.parse config.targetText = .ok config.targets ∧ config.targets.Counted
  weight : ∃ x, config.weights.default.toFloat? = some x ∧ 0 < x ∧ x.isFinite

theorem settled_of_make (h : make source target property default = .ok config) :
    config.Settled := by
  obtain ⟨-, -, -, hsource, htargets, hweights⟩ := make_eq_ok.mp h
  exact ⟨hsource, ⟨htargets, Targets.counted_of_parse htargets⟩, (EdgeWeight.make_ok hweights).2⟩

/-- What was made can be told as options and made again. -/
theorem ofOptions_toOptions (h : make source target property default = .ok config) :
    ofOptions config.toOptions = .ok config := by
  obtain ⟨-, -, -, hsource, htargets, hweights⟩ := make_eq_ok.mp h
  have hdefault : readDefault ((option? config.toOptions "default_weight").getD defaultWeight) =
      .ok config.weights.default.toValue := readDefault_number _
  refine bind_eq_ok.mpr ⟨_, hdefault, ?_⟩
  refine bind_eq_ok.mpr ⟨.text config.sourceText, optionText_text rfl, ?_⟩
  refine bind_eq_ok.mpr ⟨.text config.targetText, optionText_text rfl, ?_⟩
  refine bind_eq_ok.mpr ⟨.text config.propertyText, optionText_text rfl, ?_⟩
  rw [(EdgeWeight.make_ok hweights).1]
  exact make_eq_ok.mpr ⟨rfl, rfl, rfl, hsource, htargets, hweights⟩

/-- Options are accepted, and then the same configuration comes of them when they are told again, or
they are refused with a fault of the configuration. Digits that are too many, values too deep within
one another and a default weight beyond the doubles are refused with another fault. -/
theorem options_are_accepted_or_refused (options : Properties) :
    (∃ config, ofOptions options = .ok config ∧ config.Settled ∧
      ofOptions config.toOptions = .ok config) ∨
    ∃ fault, ofOptions options = .error fault ∧ (fault.kind = .config ∨
      fault = .longNumeral ∧ Overlong options ∨ fault = .tooNested ∧ Overdeep options ∨
      fault = .tooLarge ∧ Overlarge options) := by
  cases houtcome : ofOptions options with
  | ok config =>
      have hmake := houtcome
      unfold ofOptions at hmake
      obtain ⟨default, _, hmake⟩ := bind_eq_ok.mp hmake
      obtain ⟨source, _, hmake⟩ := bind_eq_ok.mp hmake
      obtain ⟨target, _, hmake⟩ := bind_eq_ok.mp hmake
      obtain ⟨property, _, hmake⟩ := bind_eq_ok.mp hmake
      exact .inl ⟨config, rfl, settled_of_make hmake, ofOptions_toOptions hmake⟩
  | error fault => exact .inr ⟨fault, rfl, refused_of_error houtcome⟩

end Config

end Limits

namespace Config

/-- Every vertex from vertex 0, with a default weight that no double comes near. -/
def heavyOptions : Properties :=
  [("source_id", .text "0"), ("target_id", .text "*"), ("default_weight", .int (10 ^ 400))]

/-- A default weight beyond the doubles is not refused as a default weight: converting it fails. -/
theorem heavy_default_overflows :
    ∃ fault, ofOptions heavyOptions = .error fault ∧ fault.kind = .overflow :=
  exists_fault (by decide +kernel)

end Config

end BulkPaths
