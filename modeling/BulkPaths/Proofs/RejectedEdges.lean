import BulkPaths.Proofs.Exposure
import BulkPaths.Proofs.Lockstep
import BulkPaths.Proofs.MissingTargets
import BulkPaths.Proofs.WholeWeights

/-!
# Rejected edges

What can make a run fail. Besides the bound it is the weight of an edge, and what is wrong with it
is told by the kind of the fault. Other ways to fail are not those of a weight: a whole number that
is beyond the doubles, a value that the fault would have to name and that cannot be spelled, and
vertices that cannot be divided among the workers.
-/

namespace BulkPaths

open PathWeight

/-- A view of the results that tells them apart tells the outcomes apart. -/
theorem eq_of_map_eq {ε α β : Type} {f : α → β} {x y : Except ε α} (h : x.map f = y.map f)
    (hview : ∀ {a b}, x = .ok a → y = .ok b → f a = f b → a = b) : x = y := by
  cases x with
  | error found =>
      cases y with
      | error found' => exact congrArg Except.error (Except.error.inj h)
      | ok b => cases h
  | ok a =>
      cases y with
      | error found => cases h
      | ok b => exact congrArg Except.ok (hview rfl rfl (Except.ok.inj h))

section Reached

variable {W : Type} [PathWeight W] [LawfulPathWeight W] {g g' : PropertyGraph} {job : Job W}
  {limits : Limits} {k : Nat} {s : State W}

namespace Run

/-- Of the edges a run about all vertices looks at those that leave vertices that it reaches. -/
theorem synced_of_reached (hall : job.targets = .all) (hids : g.ids = g'.ids)
    (hedges : ∀ k v, job.Reaches g k v → g.edges? v = g'.edges? v) :
    Synced g job g' job limits where
  ids := hids
  wanted hs := hs.wanted_of_all hall
  wanted' hs := hs.wanted_of_all hall
  answers := by
    intro k s t hs ht hstep call hcall replica replica'
    obtain ⟨_, hrouted⟩ := hs.sound.routed
    have hknown := hrouted.mem_ids_of_due limits.staffed hcall
    have halone : job.targets ≠ .single job.source := by simp [hall]
    change ((job.aimed job.targets).act g call (s.value call.1) replica).map StepResult.shown =
      ((job.aimed job.targets).act g' call (s.value call.1) replica').map StepResult.shown
    refine Job.shown_act halone halone hknown (hids ▸ hknown) ?_ ?_
    · intro _ hsource
      rw [hsource]
      exact hedges 0 _ (job.reaches_source g)
    · intro m hm hbetter
      have hopen : ∀ replica, (job.aimed job.targets).mutes call replica = false :=
        State.mutes_all hall call
      unfold Job.outlets
      rw [hopen, hopen]
      cases hs with
      | first =>
          have hnone := ((hrouted.mem_due_zero limits.staffed).mp hcall).2
          cases hnone.symm.trans hm
      | later boundary =>
          obtain ⟨m', hm', hwaiting⟩ := hrouted.mem_due_succ.mp hcall
          obtain rfl := Option.some.inj (hm.symm.trans hm')
          rw [hedges _ _ (boundary.reaches_of_better hwaiting hbetter)]

/-- A run about all vertices counts nothing as reached. -/
theorem Boundary.work_of_all (h : Boundary g job limits k s) (hall : job.targets = .all) :
    s.history.map Stats.work = s.history := by
  have hwork : ∀ {index turns} {s' : State W}, s'.aggregator.merged = [] →
      (State.stats index turns s').work = State.stats index turns s' := by
    intro index turns s' hmerged
    simp only [State.stats, Stats.work, hmerged, List.length_nil]
  induction h using Boundary.induct with
  | @first s turns h hstep =>
      rw [hstep.history]
      simp only [initial, State.start, List.nil_append, List.map_singleton,
        hwork (h.merged_of_all hall)]
  | @next k s s' turns h' h hstep ih =>
      rw [hstep.history, List.map_append, ih, List.map_singleton, hwork (h'.merged_of_all hall)]

theorem result_eq_of_record {result result' : Result W} (hall : job.targets = .all)
    (h : (ofJob g job limits).outcome = .ok result)
    (h' : (ofJob g' job limits).outcome = .ok result') (hrecord : result.record = result'.record) :
    result = result' := by
  obtain ⟨_, s, hs, _, rfl⟩ := exists_boundary_of_result h
  obtain ⟨_, t, ht, _, rfl⟩ := exists_boundary_of_result h'
  simp only [Result.record, result, hs.work_of_all hall, ht.work_of_all hall,
    Prod.mk.injEq] at hrecord
  obtain ⟨hvalues, hsupersteps, hcounters, hhistory⟩ := hrecord
  simp only [result, hvalues, hcounters, hhistory, hs.merged_of_all hall, ht.merged_of_all hall]

/-- What a run about all vertices does not look at does not matter to its outcome. -/
theorem outcome_of_reached (hall : job.targets = .all) (hids : g.ids = g'.ids)
    (hedges : ∀ k v, job.Reaches g k v → g.edges? v = g'.edges? v) :
    (ofJob g job limits).outcome = (ofJob g' job limits).outcome := by
  have hsynced : Synced g job g' job limits := synced_of_reached hall hids hedges
  exact eq_of_map_eq hsynced.record_outcome (result_eq_of_record hall)

end Run

end Reached

def Fault.IsEdgeWeight (fault : Fault) : Prop :=
  fault.kind = .weightType ∨ fault.kind = .weightRange

theorem PropertyGraph.Indivisible.not_isEdgeWeight {g : PropertyGraph} {count : Nat} {fault : Fault}
    (h : g.Indivisible count fault) : ¬fault.IsEdgeWeight := by
  cases h <;> rintro (hkind | hkind) <;> cases hkind

/-- Every number among the properties of the edges has a double. -/
def PropertyGraph.Convertible (g : PropertyGraph) : Prop :=
  ∀ {v edges}, g.edges? v = some edges → ∀ edge ∈ edges, ∀ {name value number},
    edge.property? name = some value → value.number? = some number →
      ∃ x, number.toFloat? = some x

section Weights

variable [NestingLimits]

def Config.Accepted (config : Config) : Prop :=
  ∃ source target property default, Config.make source target property default = .ok config

/-- Every property of the edges can be named by a fault. -/
def PropertyGraph.Quotable (g : PropertyGraph) : Prop :=
  ∀ {v edges}, g.edges? v = some edges → ∀ edge ∈ edges, ∀ {name value},
    edge.property? name = some value → value.spellingFault? NestingLimits.message = none

namespace EdgeWeight

/-- How a value that is no weight escapes being refused as one: converting it fails, or spelling it
does. -/
inductive Escapes (raw : Value) : Fault → Prop
  | tooLarge {n : Int} (number : raw = .int n) (double : Binary64.ofInt? n = none) :
      Escapes raw .tooLarge
  | unquoted {fault : Fault} (value : raw.spellingFault? NestingLimits.message = some fault) :
      Escapes raw fault

variable {property : String} {default raw : Value} {target : VertexId} {weights : EdgeWeight}
  {edge : Edge} {fault found : Fault}

theorem exists_default_of_make (h : make property default = .ok weights) :
    ∃ x, weights.default.toFloat? = some x := by
  unfold make at h
  repeat' split at h
  all_goals cases h
  · next x hx _ => exact ⟨x, hx⟩

theorem refusalAt_cases (htarget : target.isPrintable) (h : refusalAt raw target found = fault) :
    fault = found ∨ Escapes raw fault := by
  rw [refusalAt, if_pos htarget] at h
  subst h
  exact (refusal_cases raw found).imp_right .unquoted

theorem ofProperty_error (htarget : target.isPrintable)
    (h : ofProperty property raw target = .error fault) :
    fault.IsEdgeWeight ∨ Escapes raw fault := by
  unfold ofProperty at h
  split at h
  case h_1 =>
    refine (refusalAt_cases htarget (Except.error.inj h)).imp_left ?_
    rintro rfl
    exact .inl rfl
  case h_2 number hnumber =>
    split at h
    case h_1 hnone =>
      cases h
      cases raw <;> cases hnumber
      · exact .inr (.tooLarge rfl hnone)
      · cases hnone
    case h_2 x hx =>
      split at h
      case isTrue => cases h
      case isFalse =>
        refine (refusalAt_cases htarget (Except.error.inj h)).imp_left ?_
        rintro rfl
        exact .inr rfl

theorem exists_float_of_weigh {number : Number} (hdefault : ∃ x, weights.default.toFloat? = some x)
    (h : weights.weigh edge = .ok number) : ∃ x, number.toFloat? = some x := by
  unfold weigh at h
  split at h
  case isTrue =>
    cases h
    exact hdefault
  case isFalse =>
    split at h
    case h_1 =>
      cases h
      exact hdefault
    case h_2 =>
      cases h
      exact hdefault
    case h_3 =>
      unfold ofProperty at h
      repeat' split at h
      all_goals cases h
      exact ⟨_, rfl⟩

/-- A weight is refused for what it is, unless the property escapes. -/
theorem weighFloat_error (hdefault : ∃ x, weights.default.toFloat? = some x)
    (htarget : edge.target.isPrintable) (h : weights.weighFloat edge = .error fault) :
    fault.IsEdgeWeight ∨
      ∃ raw, edge.property? weights.property = some raw ∧ Escapes raw fault := by
  unfold weighFloat at h
  rcases bind_eq_error.mp h with hweigh | ⟨number, hweigh, hrefused⟩
  · unfold weigh at hweigh
    split at hweigh
    case isTrue => cases hweigh
    case isFalse =>
      split at hweigh
      case h_1 => cases hweigh
      case h_2 => cases hweigh
      case h_3 raw _ hraw =>
        exact (ofProperty_error htarget hweigh).imp_right fun hescapes => ⟨raw, hraw, hescapes⟩
  · obtain ⟨x, hx⟩ := exists_float_of_weigh hdefault hweigh
    rw [hx] at hrefused
    cases hrefused

end EdgeWeight

theorem Config.Accepted.exists_default {config : Config} (h : config.Accepted) :
    ∃ x, config.weights.default.toFloat? = some x := by
  obtain ⟨source, target, property, default, hmake⟩ := h
  unfold make at hmake
  split at hmake
  case h_2 => cases hmake
  case h_1 =>
    obtain ⟨_, _, hmake⟩ := bind_eq_ok.mp hmake
    obtain ⟨_, _, hmake⟩ := bind_eq_ok.mp hmake
    obtain ⟨_, _, hmake⟩ := bind_eq_ok.mp hmake
    obtain ⟨weights, hweights, hmake⟩ := bind_eq_ok.mp hmake
    cases hmake
    exact EdgeWeight.exists_default_of_make hweights

namespace Run

/-- The ways a run fails that are not those of a weight or of its bound: its vertices cannot be
divided among the workers, or a property that is read as a weight escapes being refused. -/
inductive Escapes (g : PropertyGraph) (config : Config) (workers : Nat) : Fault → Prop
  | undivided {fault : Fault} (cause : g.Indivisible workers fault) :
      Escapes g config workers fault
  | property {fault : Fault} {v : VertexId} {edges : List Edge} {edge : Edge} {raw : Value}
      (out : g.edges? v = some edges) (mem : edge ∈ edges)
      (held : edge.property? config.weights.property = some raw)
      (cause : EdgeWeight.Escapes raw fault) : Escapes g config workers fault

variable {g : PropertyGraph} {config : Config} {limits : Limits} {k : Nat} {fault : Fault}

theorem FailsIn.cause (h : FailsIn g config.job limits k fault) (haccepted : config.Accepted) :
    fault.IsEdgeWeight ∨ ∃ v edges, g.edges? v = some edges ∧ ∃ edge ∈ edges, ∃ raw,
      edge.property? config.weights.property = some raw ∧ EdgeWeight.Escapes raw fault := by
  obtain ⟨v, edges, edge, hedges, hedge, hweigh⟩ := h.rejects
  have htarget : edge.target.isPrintable :=
    h.divided.printable _ (g.target_mem_ids hedges edge hedge)
  refine (EdgeWeight.weighFloat_error haccepted.exists_default htarget hweigh).imp_right ?_
  rintro ⟨raw, hraw, hescapes⟩
  exact ⟨v, edges, hedges, edge, hedge, raw, hraw, hescapes⟩

theorem FailsIn.isEdgeWeight (h : FailsIn g config.job limits k fault)
    (haccepted : config.Accepted) (hconvertible : g.Convertible) (hquotable : g.Quotable) :
    fault.IsEdgeWeight := by
  rcases h.cause haccepted with hweight | ⟨v, edges, hedges, edge, hedge, raw, hraw, hescapes⟩
  · exact hweight
  · cases hescapes with
    | tooLarge hnumber hnone =>
        subst hnumber
        obtain ⟨x, hx⟩ := hconvertible hedges edge hedge hraw rfl
        cases hnone.symm.trans hx
    | unquoted hvalue => cases hvalue.symm.trans (hquotable hedges edge hedge hraw)

end Run

end Weights

theorem PropertyGraph.property_of_rows {g : PropertyGraph} {p : Value → Prop}
    (h : ∀ row ∈ g.rows, ∀ property ∈ row.2.properties, p property.2) {v : VertexId}
    {edges : List Edge} (hedges : g.edges? v = some edges) {edge : Edge} (hedge : edge ∈ edges)
    {name : String} {value : Value} (hproperty : edge.property? name = some value) : p value := by
  have hrow : (v, edge) ∈ g.rows :=
    List.mem_flatMap.mpr ⟨(v, edges), Assoc.mem_of_get? hedges, List.mem_map_of_mem hedge⟩
  exact h (v, edge) hrow (name, value) (Assoc.mem_of_get? hproperty)

/-- Everything from vertex 0, with the weights that the edges carry. -/
def weightedConfig : Config :=
  { Config.counting (.long 0) .all with
    propertyText := "w"
    weights := { (Config.counting (.long 0) .all).weights with property := "w" } }

theorem weightedConfig_accepted : weightedConfig.Accepted :=
  ⟨.text "0", .text "*", .text "w", .real 1, rfl⟩

def oneEdge (weight : Value) : PropertyGraph :=
  PropertyGraph.empty.connect (.long 0) (.long 1) [("w", weight)]

theorem rows_oneEdge (weight : Value) : (oneEdge weight).rows =
    [(.long 0, { target := .long 1, properties := [("w", weight)] })] := rfl

theorem oneEdge_property {weight value : Value} {v : VertexId} {edges : List Edge} {edge : Edge}
    {name : String} (hedges : (oneEdge weight).edges? v = some edges) (hedge : edge ∈ edges)
    (hproperty : edge.property? name = some value) : value = weight := by
  refine PropertyGraph.property_of_rows (p := fun value => value = weight) ?_ hedges hedge hproperty
  simp [rows_oneEdge]

theorem oneEdge_convertible : (oneEdge (.text "x")).Convertible := by
  intro v edges hedges edge hedge name value number hproperty hnumber
  rw [oneEdge_property hedges hedge hproperty] at hnumber
  cases hnumber

theorem oneEdge_quotable : (oneEdge (.text "x")).Quotable := by
  intro v edges hedges edge hedge name value hproperty
  rw [oneEdge_property hedges hedge hproperty]
  rfl

theorem oneEdge_printable : ∀ v ∈ (oneEdge (.text "x")).ids, v.isPrintable := by decide +kernel

theorem oneEdge_exposes : ∃ fault, weightedConfig.job.Exposes (oneEdge (.text "x")) 0 fault := by
  have hedge : ∃ edges, (oneEdge (.text "x")).edges? (.long 0) = some edges ∧
      ∃ edge ∈ edges, weightedConfig.job.weigh edge =
        .error (.weightNotNumber "w" (.text "x") (.long 1)) := by
    refine ⟨_, rfl, _, List.mem_cons_self, rfl⟩
  obtain ⟨edges, hedges, edge, hedge, hweigh⟩ := hedge
  exact ⟨_, _, edges, edge, hedges, hedge, hweigh, weightedConfig.job.reaches_source _⟩

namespace Run

section

variable [NestingLimits] {g : PropertyGraph} {config : Config} {engine : EngineConfig}

/-- A run about all vertices without a bound, on a graph whose numbers have doubles and whose
properties can be named. It fails on the weight of an edge exactly if its vertices can be divided
among the workers and an edge with a refused weight is exposed by a walk of accepted edges of finite
sum, and then in the superstep that counts the edges of the shortest of these walks. The edges of
other vertices do not matter. -/
theorem all_run_fails_on_exposed_edges (haccepted : config.Accepted) (hconvertible : g.Convertible)
    (hquotable : g.Quotable) (hall : config.targets = .all) (hbound : engine.maxSupersteps = 0) :
    ((∃ fault, (runShortestPaths g config engine).outcome = .error fault ∧ fault.IsEdgeWeight) ↔
        g.Divisible engine.workers ∧ ∃ k fault, config.job.Exposes g k fault) ∧
      (∀ k, (∃ fault, FailsIn g config.job engine.limits k fault ∧
          (runShortestPaths g config engine).outcome = .error fault ∧ fault.IsEdgeWeight ∧
            config.job.Exposes g k fault) ↔
        g.Divisible engine.workers ∧ IsLeast {j | ∃ fault, config.job.Exposes g j fault} k) ∧
      ∀ g' : PropertyGraph, g.ids = g'.ids →
        (∀ k v, config.job.Reaches g k v → g.edges? v = g'.edges? v) →
          (runShortestPaths g config engine).outcome =
            (runShortestPaths g' config engine).outcome := by
  have hbound : engine.limits.maxSupersteps = 0 := hbound
  have hfails : ∀ k, (∃ fault, FailsIn g config.job engine.limits k fault ∧
      (runShortestPaths g config engine).outcome = .error fault ∧ fault.IsEdgeWeight ∧
        config.job.Exposes g k fault) ↔
      g.Divisible engine.workers ∧ IsLeast {j | ∃ fault, config.job.Exposes g j fault} k := by
    intro k
    constructor
    · rintro ⟨fault, hfails, -⟩
      exact ⟨hfails.divided, (exists_failsIn_iff hall hfails.divided hbound).mp ⟨fault, hfails⟩⟩
    · rintro ⟨hdivided, hleast⟩
      obtain ⟨fault, hfails⟩ := (exists_failsIn_iff hall hdivided hbound).mpr hleast
      exact ⟨fault, hfails, hfails.outcome,
        hfails.isEdgeWeight haccepted hconvertible hquotable, hfails.exposes⟩
  refine ⟨⟨?_, ?_⟩, hfails, fun g' hids hedges => outcome_of_reached hall hids hedges⟩
  · rintro ⟨fault, houtcome, hweight⟩
    rcases error_cases houtcome with ⟨k, hfailed⟩ | ⟨k, s, _, hbounded, _⟩ | hcause
    · exact ⟨hfailed.divided, k, fault, hfailed.exposes⟩
    · exact absurd hbound hbounded.bound.1
    · exact absurd hweight hcause.not_isEdgeWeight
  · rintro ⟨hdivided, hexposed⟩
    classical
    obtain ⟨fault, _, houtcome, hweight, _⟩ := (hfails (Nat.find hexposed)).mpr
      ⟨hdivided, Nat.find_spec hexposed, fun _ hj => Nat.find_min' hexposed hj⟩
    exact ⟨fault, houtcome, hweight⟩

end

theorem all_run_fails_on_exposed_edges_oneEdge : ∃ fault,
    FailsIn (oneEdge (.text "x")) weightedConfig.job EngineConfig.standard.limits 0 fault ∧
      (runShortestPaths (oneEdge (.text "x")) weightedConfig .standard).outcome = .error fault ∧
      fault.IsEdgeWeight := by
  obtain ⟨_, hfails, _⟩ := @all_run_fails_on_exposed_edges _ _ _ EngineConfig.standard
    weightedConfig_accepted oneEdge_convertible oneEdge_quotable rfl rfl
  obtain ⟨fault, hfirst, houtcome, hweight, _⟩ :=
    (hfails 0).mpr ⟨⟨by decide, oneEdge_printable⟩, oneEdge_exposes, fun _ _ => Nat.zero_le _⟩
  exact ⟨fault, hfirst, houtcome, hweight⟩

/-- With too many workers no edge is ever looked at. -/
theorem crowded_run_looks_at_no_edge :
    weightedConfig.Accepted ∧ (oneEdge (.text "x")).Convertible ∧ weightedConfig.targets = .all ∧
      crowded.maxSupersteps = 0 ∧
      (∃ fault, weightedConfig.job.Exposes (oneEdge (.text "x")) 0 fault) ∧
      (runShortestPaths (oneEdge (.text "x")) weightedConfig crowded).outcome =
        .error .workersOutOfRange ∧
      ¬Fault.workersOutOfRange.IsEdgeWeight := by
  refine ⟨weightedConfig_accepted, oneEdge_convertible, rfl, rfl, oneEdge_exposes,
    outcome_of_undivided (PropertyGraph.indivisible_workerLimit oneEdge_printable), ?_⟩
  rintro (hkind | hkind) <;> cases hkind

end Run

end BulkPaths
