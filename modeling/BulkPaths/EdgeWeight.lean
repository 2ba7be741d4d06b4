import BulkPaths.Graph
import BulkPaths.Spelling

/-!
Weights of edges: a property of the edge, or the default where the property is missing.
-/

namespace BulkPaths

structure EdgeWeight where
  /-- Without a name every edge has the default weight. -/
  property : String
  default : Number
  positive : ∀ x, default.toFloat? = some x → 0 < x ∧ x.isFinite
  deriving Repr

namespace EdgeWeight

variable [NestingLimits]

/-- What is wrong with a value can be said only if the value can be spelled. -/
def refusal (value : Value) (fault : Fault) : Fault :=
  (value.spellingFault? NestingLimits.message).getD fault

/-- On an edge its target is named after the value. -/
def refusalAt (value : Value) (target : VertexId) (fault : Fault) : Fault :=
  refusal value (if target.isPrintable then fault else .longNumeral)

/-- The default weight has to be a positive finite number. The double of a positive whole number
is always positive, so the second comparison refuses none. -/
def make (property : String) (default : Value) : Except Fault EdgeWeight :=
  match default.number? with
  | none => .error (refusal default (.defaultNotNumber default))
  | some number =>
    if !number.isPositive then .error (refusal default (.defaultNotPositive default))
    else
      match hx : number.toFloat? with
      | none => .error .tooLarge
      | some x =>
        if h : 0 < x ∧ x.isFinite then
          .ok { property, default := number, positive := by simpa [hx] using h }
        else .error (.defaultNotPositive default)

/-- A numeric property has to be a positive finite double. -/
def ofProperty (property : String) (raw : Value) (target : VertexId) : Except Fault Number :=
  match raw.number? with
  | none => .error (refusalAt raw target (.weightNotNumber property raw target))
  | some number =>
    match number.toFloat? with
    | none => .error .tooLarge
    | some x =>
      if 0 < x && x.isFinite then .ok (.real x)
      else .error (refusalAt raw target (.weightNotPositive property raw target))

theorem ofProperty_positive {property : String} {raw : Value} {target : VertexId}
    {number : Number} {x : Float} (h : ofProperty property raw target = .ok number)
    (hx : number.toFloat? = some x) : 0 < x ∧ x.isFinite := by
  unfold ofProperty at h
  repeat' split at h
  all_goals cases h
  · next hpositive =>
    cases hx
    simpa using hpositive

def weigh (weights : EdgeWeight) (edge : Edge) : Except Fault Number :=
  if weights.property.isEmpty then .ok weights.default
  else
    match edge.property? weights.property with
    | none | some .null => .ok weights.default
    | some raw => ofProperty weights.property raw edge.target

def weighFloat (weights : EdgeWeight) (edge : Edge) : Except Fault Float := do
  match (← weights.weigh edge).toFloat? with
  | some x => .ok x
  | none => .error .tooLarge

theorem weigh_positive (weights : EdgeWeight) {edge : Edge} {number : Number} {x : Float}
    (h : weights.weigh edge = .ok number) (hx : number.toFloat? = some x) :
    0 < x ∧ x.isFinite := by
  unfold weigh at h
  split at h
  · cases h
    exact weights.positive x hx
  · split at h
    · cases h
      exact weights.positive x hx
    · cases h
      exact weights.positive x hx
    · exact ofProperty_positive h hx

theorem weighFloat_positive (weights : EdgeWeight) {edge : Edge} {x : Float}
    (h : weights.weighFloat edge = .ok x) : 0 < x ∧ x.isFinite := by
  unfold weighFloat at h
  cases hweigh : weights.weigh edge with
  | error fault => simp [hweigh, bind, Except.bind] at h
  | ok number =>
    simp only [hweigh, bind, Except.bind] at h
    split at h
    · next y hy =>
      cases h
      exact weights.weigh_positive hweigh hy
    · cases h

end EdgeWeight

end BulkPaths
