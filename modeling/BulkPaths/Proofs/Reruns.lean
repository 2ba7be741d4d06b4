import BulkPaths.Session
import BulkPaths.Proofs.Copies
import BulkPaths.Proofs.Owners

/-!
# Runs after runs

A run may find on the graph what another has left there, wherever that one stopped: values, stages,
totals, owners. It clears labels and totals before it looks at them, and routes nothing before it
has made its own table of owners. So it is the run of a new engine on a new graph. For the labels
this takes an invariant: whoever wrote them last, they stand in the order of the vertices, and
clearing them leaves the list that a new run makes.
-/

namespace BulkPaths

theorem Assoc.put_append_cons {α β : Type} [DecidableEq α] {key : α} {front rest : List (α × β)}
    (h : key ∉ keys front) (value old : β) :
    put key value (front ++ (key, old) :: rest) = front ++ (key, value) :: rest := by
  induction front with
  | nil => exact if_pos rfl
  | cons pair front ih =>
      obtain ⟨k, v⟩ := pair
      rw [keys, List.map_cons, List.mem_cons, not_or] at h
      rw [List.cons_append, put, if_neg (Ne.symm h.1), ih h.2, List.cons_append]

variable {W : Type}

namespace Labels

variable {labels : Labels W} {ids more : List VertexId}

variable [PathWeight W]

/-- The labels of a graph on which nothing has run. -/
def blank (ids : List VertexId) : Labels W := ids.map fun id => (id, .fresh)

theorem keys_blank : Assoc.keys (blank ids : Labels W) = ids := by
  simp [blank, Assoc.keys, Function.comp_def]

theorem renew_append (front : Labels W)
    (hdistinct : (Assoc.keys front ++ (Assoc.keys labels ++ more)).Nodup) :
    renew (front ++ labels) (Assoc.keys labels ++ more) =
      front ++ blank (Assoc.keys labels ++ more) := by
  induction labels generalizing front with
  | nil =>
      have hnew : (Assoc.keys (front ++ blank more)).Nodup := by
        rw [Assoc.keys_append, keys_blank]
        exact hdistinct
      have hmerge := Assoc.merge_of_nodup hnew
      rw [Assoc.merge, blank, List.foldl_map] at hmerge
      rw [List.append_nil]
      exact hmerge
  | cons entry labels ih =>
      obtain ⟨v, label⟩ := entry
      have hnew : v ∉ Assoc.keys front := fun hv =>
        (List.nodup_append.mp hdistinct).2.2 v hv v List.mem_cons_self rfl
      have hset : Labels.set (front ++ (v, label) :: labels) v .fresh =
          (front ++ [(v, .fresh)]) ++ labels := by
        rw [Labels.set, Assoc.put_append_cons hnew, List.append_assoc, List.singleton_append]
      have hrest : (Assoc.keys (front ++ [(v, (.fresh : Label W))]) ++
          (Assoc.keys labels ++ more)).Nodup := by
        rw [Assoc.keys_append, List.append_assoc]
        exact hdistinct
      calc renew (front ++ (v, label) :: labels) (v :: (Assoc.keys labels ++ more))
          = renew ((front ++ [(v, .fresh)]) ++ labels) (Assoc.keys labels ++ more) := by
            rw [renew, List.foldl_cons, hset, ← renew]
        _ = (front ++ [(v, .fresh)]) ++ blank (Assoc.keys labels ++ more) := ih _ hrest
        _ = front ++ blank (v :: (Assoc.keys labels ++ more)) := by
            rw [List.append_assoc, List.singleton_append, blank, blank, List.map_cons]

/-- Labels in the order of the vertices, of which the last may have none yet, are cleared to those
of a new graph. -/
theorem renew_eq (hdistinct : ids.Nodup) (hkeys : Assoc.keys labels <+: ids) :
    labels.renew ids = blank ids := by
  obtain ⟨more, rfl⟩ := hkeys
  exact renew_append [] hdistinct

end Labels

section Keeping

variable {α β γ : Type} {ids : List VertexId} {labels : α → Labels W} {labels' : β → Labels W}

/-- The computation leaves a label for each of the vertices, whether it is aborted or not. -/
def Keeps (ids : List VertexId) (labels : α → Labels W) : Except (Aborted W) α → Prop
  | .ok done => Assoc.keys (labels done) = ids
  | .error aborted => Assoc.keys aborted.labels = ids

theorem Keeps.bind {x : Except (Aborted W) α} {f : α → Except (Aborted W) β}
    (hx : Keeps ids labels x) (hf : ∀ a, Assoc.keys (labels a) = ids → Keeps ids labels' (f a)) :
    Keeps ids labels' (x >>= f) := by
  cases x with
  | ok a => exact hf a hx
  | error aborted => exact hx

theorem Keeps.foldlM {step : α → γ → Except (Aborted W) α}
    (hstep : ∀ a c, Assoc.keys (labels a) = ids → Keeps ids labels (step a c)) {a : α}
    (ha : Assoc.keys (labels a) = ids) (cs : List γ) : Keeps ids labels (cs.foldlM step a) := by
  induction cs generalizing a with
  | nil => exact ha
  | cons c cs ih =>
      rw [List.foldlM_cons]
      exact (hstep a c ha).bind fun next hnext => ih hnext

end Keeping

variable [PathWeight W]

variable {g : PropertyGraph} {job : Job W} {limits : Limits} {index count : Nat}

namespace Pass

variable {pass : Pass W} {worker : Nat}

theorem absorb_keeps (h : Assoc.keys pass.labels = g.ids) {v : VertexId} (hv : v ∈ g.ids)
    (label : Label W) (outcome : Except Fault (StepResult W)) :
    Keeps g.ids Pass.labels (pass.absorb worker v label outcome) := by
  have hset : Assoc.keys (pass.labels.set v label) = g.ids :=
    (Labels.keys_set (h ▸ hv) label).trans h
  cases outcome with
  | ok result => exact hset
  | error fault => exact hset

theorem visit0_keeps (h : Assoc.keys pass.labels = g.ids) (v : VertexId) :
    Keeps g.ids Pass.labels (pass.visit0 g job worker v) := by
  unfold visit0
  split
  case h_1 => exact h
  case h_2 edges hedges => exact absorb_keeps h (Assoc.mem_keys_of_get? hedges) _ _

theorem visit_keeps (h : Assoc.keys pass.labels = g.ids) (delivery : VertexId × Message W) :
    Keeps g.ids Pass.labels (pass.visit g job worker delivery) := by
  unfold visit
  dsimp only
  split
  case h_1 => exact h
  case h_2 edges hedges =>
    have hnext : Assoc.keys
        ({ pass with replica := job.targets.enroll delivery.1 pass.replica } : Pass W).labels =
          g.ids := h
    exact absorb_keeps hnext (Assoc.mem_keys_of_get? hedges) _ _

end Pass

namespace State

variable {s : State W} {routing : Routing W}

theorem advance_keeps {merged : IdSet} {round : Round W} (h : Assoc.keys round.labels = g.ids)
    (worker : Worker W) : Keeps g.ids Round.labels (advance g job index merged round worker) := by
  have hpass : Keeps g.ids Pass.labels
      ({ worker with replica := merged }.compute g job index round.labels round.events) := by
    unfold Worker.compute
    dsimp only
    split
    case isTrue => exact Keeps.foldlM (fun _ v hpass => Pass.visit0_keeps hpass v) h _
    case isFalse => exact Keeps.foldlM (fun _ d hpass => Pass.visit_keeps hpass d) h _
  exact hpass.bind fun pass hpass => hpass

theorem round_keeps (h : Assoc.keys s.labels = g.ids) :
    Keeps g.ids Round.labels (s.round g job index) := by
  unfold round
  exact Keeps.foldlM (fun _ worker hround => advance_keeps hround worker) h _

theorem superstepBy_keeps (h : Assoc.keys s.labels = g.ids) :
    Keeps g.ids State.labels (s.superstepBy routing g job index) := by
  refine (round_keeps h).bind fun round hround => ?_
  unfold barrierBy
  dsimp only
  split
  case h_1 => exact hround
  case h_2 =>
    split
    case h_1 => exact hround
    case h_2 => exact hround

end State

namespace Run

/-- The labels that are left when a run is over. -/
def endLabels : State W × Option (Aborted W) → Labels W
  | (s, none) => s.labels
  | (_, some aborted) => aborted.labels

theorem loopBy_keeps {routing : State.Routing W} {s : State W} (fuel : Nat)
    (h : Assoc.keys s.labels = g.ids) :
    Assoc.keys (endLabels (loopBy routing g job limits fuel index s)) = g.ids := by
  induction fuel generalizing index s with
  | zero =>
      rw [loopBy_eq]
      split_ifs <;> exact h
  | succ fuel ih =>
      have hstep : Keeps g.ids State.labels (s.superstepBy routing g job (index + 1)) :=
        State.superstepBy_keeps h
      rw [loopBy_eq]
      split_ifs
      case neg =>
        dsimp only
        split
        case h_1 hfound =>
          rw [hfound] at hstep
          exact hstep
        case h_2 hfound =>
          rw [hfound] at hstep
          exact ih hstep
      all_goals exact h

theorem labels_finish (done : State W × Option (Aborted W)) :
    (finish g job done).labels = endLabels done := by
  obtain ⟨s, aborted⟩ := done
  cases aborted <;> rfl

end Run

namespace Remains

variable {found found' : Remains W}

theorem clear_eq (h : Assoc.keys found.labels <+: g.ids) :
    found.clear g = { labels := .blank g.ids, counters := .zero, owners := found.owners } := by
  have hrenew : found.labels.renew g.ids = .blank g.ids := Labels.renew_eq g.distinct h
  rw [clear, hrenew]

/-- What is cleared and assigned is the same, whatever was found. -/
theorem assign_clear_eq (h : Assoc.keys found.labels <+: g.ids) :
    (found.clear g).assign g count = (g.ownerTable count).map fun owners =>
      { labels := .blank g.ids, counters := .zero, owners } := by
  rw [clear_eq h, assign]

theorem vertices_owners (g : PropertyGraph) (count i : Nat) :
    OwnerTable.vertices (g.owners count) i = g.ids.filter fun v => v.owner count == i := by
  rw [OwnerTable.vertices, PropertyGraph.owners, List.filter_map, List.map_map]
  exact List.map_id _

theorem start_eq (targets : Targets) (events : List Event) :
    ({ labels := .blank g.ids, counters := .zero, owners := g.owners count } : Remains W).start
      targets count events = .start g targets count events := by
  simp only [start, State.start, vertices_owners]
  rfl

end Remains

namespace State

variable [LawfulPathWeight W] {s : State W}

/-- On a sound state the table of owners leads where the hash does. -/
theorem Sound.superstepBy_eq (h : s.Sound g job count) (hcount : 0 < count) :
    s.superstepBy (g.owners count).routing g job index = s.superstep g job index := by
  unfold superstep superstepBy
  cases hround : s.round g job index with
  | error aborted => rfl
  | ok round =>
      have hrouting : (g.owners count).routing (delivered round.workers) round.workers =
          byHash (delivered round.workers) round.workers := h.deliver_eq hcount hround
      change s.barrierBy (g.owners count).routing index round = s.barrierBy byHash index round
      simp only [barrierBy, hrouting]

end State

namespace Run

variable {found found' : Remains W}

theorem again_eq (h : Assoc.keys found.labels <+: g.ids) :
    again g job limits found =
      match g.ownerTable limits.workers with
      | .error fault =>
        ({ labels := .blank g.ids, counters := .zero, events := [], outcome := .error fault },
          found.owners)
      | .ok owners =>
        (assigned g job limits { labels := .blank g.ids, counters := .zero, owners }, owners) := by
  unfold again
  dsimp only
  rw [Remains.assign_clear_eq h, Remains.clear_eq h]
  cases g.ownerTable limits.workers <;> rfl

theorem keys_assigned {ready : Remains W} (h : Assoc.keys ready.labels = g.ids) :
    Assoc.keys (assigned g job limits ready).labels = g.ids := by
  rw [assigned, labels_finish]
  generalize hs : ready.start job.targets limits.workers (opening g job) = s
  have hlabels : Assoc.keys s.labels = g.ids := by
    rw [← hs]
    exact h
  have hstep : Keeps g.ids State.labels (s.superstepBy ready.owners.routing g job 0) :=
    State.superstepBy_keeps hlabels
  cases hfirst : s.superstepBy ready.owners.routing g job 0 with
  | error aborted =>
      rw [hfirst] at hstep
      exact hstep
  | ok first =>
      rw [hfirst] at hstep
      exact loopBy_keeps (fuelFor g) hstep

/-- However a run ends, it leaves a label for each vertex, in the order of the vertices. -/
theorem keys_again (h : Assoc.keys found.labels <+: g.ids) :
    Assoc.keys (again g job limits found).1.labels = g.ids := by
  rw [again_eq h]
  cases g.ownerTable limits.workers with
  | error fault => exact Labels.keys_blank
  | ok owners => exact keys_assigned Labels.keys_blank

/-- Nothing of what a run finds shows in what it does. -/
theorem again_congr (h : Assoc.keys found.labels <+: g.ids)
    (h' : Assoc.keys found'.labels <+: g.ids) :
    (again g job limits found).1 = (again g job limits found').1 := by
  rw [again_eq h, again_eq h']
  cases g.ownerTable limits.workers <;> rfl

section Lawful

variable [LawfulPathWeight W]

theorem loopBy_eq_loop {s : State W} (h : s.Sound g job limits.workers) (fuel : Nat) :
    loopBy (g.owners limits.workers).routing g job limits fuel index s =
      loop g job limits fuel index s := by
  induction fuel generalizing index s with
  | zero => rw [loopBy_eq, loop_eq]
  | succ fuel ih =>
      rw [loopBy_eq, loop_eq]
      dsimp only
      rw [h.superstepBy_eq limits.staffed]
      cases hstep : s.superstep g job (index + 1) with
      | error aborted => rfl
      | ok next =>
          obtain ⟨_, _, hnext⟩ := State.superstep_ok limits.staffed h hstep
          dsimp only
          rw [ih hnext]

/-- A run on what others left is that of the job alone. -/
theorem again_eq_ofJob (h : Assoc.keys found.labels <+: g.ids)
    (hdivided : g.Divisible limits.workers) :
    (again g job limits found).1 = ofJob g job limits := by
  rw [again_eq h, ofJob, hdivided.ownerTable_eq]
  change assigned g job limits _ = _
  have hsound : (State.start g job.targets limits.workers (opening g job)).Sound g job
      limits.workers := sound_initial
  rw [assigned, Remains.start_eq]
  dsimp only
  rw [hsound.superstepBy_eq limits.staffed]
  cases hstep : (State.start g job.targets limits.workers (opening g job)).superstep g job 0 with
  | error aborted => rfl
  | ok first =>
      obtain ⟨_, _, hfirst⟩ := State.superstep_ok limits.staffed hsound hstep
      exact congrArg (finish g job) (loopBy_eq_loop hfirst (fuelFor g))

/-- What comes of a run does not depend on what it finds. -/
theorem outcome_again (h : Assoc.keys found.labels <+: g.ids) :
    (again g job limits found).1.outcome = (ofJob g job limits).outcome := by
  rcases g.divisible_or limits.workers with hdivided | ⟨fault, hcause⟩
  case inl => rw [again_eq_ofJob h hdivided]
  case inr => rw [again_eq h, ofJob, hcause.ownerTable_eq]

end Lawful

end Run

namespace PropertyGraph

variable {g h : PropertyGraph}

theorem adjacency_eq (g : PropertyGraph) :
    g.adjacency = g.ids.map fun v => (v, (g.edges? v).getD []) := by
  have hrow : ∀ row ∈ g.adjacency, (row.1, (g.edges? row.1).getD []) = row := by
    intro row hrow
    rw [edges?, Assoc.get?_of_mem g.distinct hrow, Option.getD_some]
  rw [ids, Assoc.keys, List.map_map]
  exact (List.map_id' _).symm.trans (List.map_congr_left fun row hmem => (hrow row hmem).symm)

/-- A graph is its vertices, in order, with the edges that leave each of them. -/
theorem eq_of_edges (hids : h.ids = g.ids) (hedges : ∀ v, h.edges? v = g.edges? v) : h = g := by
  have hadjacency : h.adjacency = g.adjacency := by
    rw [h.adjacency_eq, g.adjacency_eq, hids]
    exact List.map_congr_left fun v _ => by rw [hedges]
  obtain ⟨_, _, _⟩ := g
  obtain ⟨_, _, _⟩ := h
  subst hadjacency
  rfl

theorem ids_prefix_addVertex (g : PropertyGraph) (v : VertexId) :
    g.ids <+: (g.addVertex v).ids := by
  by_cases hv : v ∈ g.ids
  · rw [addVertex_of_mem hv]
  · rw [ids_addVertex_of_not_mem hv]
    exact List.prefix_append _ _

theorem ids_prefix_addValue (g : PropertyGraph) (id : Value) : g.ids <+: (g.addValue id).1.ids := by
  unfold addValue
  split
  case h_1 v _ => exact g.ids_prefix_addVertex v
  case h_2 => exact List.prefix_refl _

theorem ids_prefix_addEdge (g : PropertyGraph) (tail head : Value) (properties : Properties) :
    g.ids <+: (g.addEdge tail head properties).1.ids := by
  rcases g.addEdge_cases tail head properties with
    ⟨_, left, hrefused, heq⟩ | ⟨u, v, _, _, _, hadded⟩
  · rw [heq]
    cases hrefused with
    | name | tail => exact List.prefix_refl _
    | head => exact g.ids_prefix_addVertex _
  · have hu : u ∈ ((g.addVertex u).addVertex v).ids :=
      (mem_ids_addVertex ..).mpr (.inr ((mem_ids_addVertex ..).mpr (.inl rfl)))
    have hv : v ∈ ((g.addVertex u).addVertex v).ids := (mem_ids_addVertex ..).mpr (.inl rfl)
    rw [hadded, ids_connect_of_mem hu hv]
    exact (g.ids_prefix_addVertex u).trans ((g.addVertex u).ids_prefix_addVertex v)

end PropertyGraph

namespace Session

section Limits

variable [NestingLimits]

/-- The sessions that calls lead to, with runs of all engines among them, however these ended. -/
inductive Reached : Session → Prop
  | start (g : PropertyGraph) : Reached (.start g)
  | addVertex {s : Session} (before : Reached s) (id : Value) : Reached (s.addVertex id).1
  | addEdge {s : Session} (before : Reached s) (tail head : Value) (properties : Properties) :
      Reached (s.addEdge tail head properties).1
  | engage {s : Session} (before : Reached s) (config : Config) (settings : EngineConfig) :
      Reached (s.engage config settings)
  | run {s : Session} (before : Reached s) (i : Nat) : Reached (s.runEngine i).1
  /-- A run that was given up anywhere, with whatever its workers had done by then. -/
  | stopped {s : Session} (before : Reached s) (i : Nat) (engine : Engine) (labels : Labels Float)
      (labelled : Assoc.keys labels = s.graph.ids) :
      Reached { s with labels, engines := s.engines.set i engine }

variable {s : Session} {i : Nat} {engine : Engine}

/-- The run of the engine on what it finds. -/
def rerun (s : Session) (engine : Engine) : Run Float :=
  (Run.again s.graph engine.config.job engine.settings.limits (s.remains engine)).1

theorem runEngine_of_some (h : s.engines[i]? = some engine) :
    (s.runEngine i).2 = (s.rerun engine).outcome ∧
      (s.runEngine i).1.labels = (s.rerun engine).labels ∧
      (s.runEngine i).1.graph = s.graph ∧
      (s.runEngine i).1.engines[i]?.map Engine.counters = some (s.rerun engine).counters := by
  obtain ⟨hi, -⟩ := List.getElem?_eq_some_iff.mp h
  simp only [runEngine, h, rerun, List.getElem?_set_self hi, Option.map_some, and_self]

/-- Labels stand in the order of the vertices; those of the last may be missing. -/
theorem Reached.keys_labels (h : s.Reached) : Assoc.keys s.labels <+: s.graph.ids := by
  induction h with
  | start g => exact List.nil_prefix
  | addVertex before id ih => exact ih.trans (PropertyGraph.ids_prefix_addValue _ id)
  | addEdge before tail head properties ih =>
      exact ih.trans (PropertyGraph.ids_prefix_addEdge _ tail head properties)
  | engage before config settings ih => exact ih
  | stopped before i engine labels labelled ih => exact labelled ▸ List.prefix_refl _
  | @run s before i ih =>
      cases hengine : s.engines[i]? with
      | none =>
          rw [runEngine, hengine]
          exact ih
      | some engine =>
          obtain ⟨-, hlabels, hgraph, -⟩ := runEngine_of_some hengine
          have hkeys : Assoc.keys (s.rerun engine).labels = s.graph.ids := Run.keys_again ih
          rw [hlabels, hgraph, hkeys]

/-- An engine just set up on a graph on which nothing has run. -/
def fresh (graph : PropertyGraph) (config : Config) (settings : EngineConfig) : Session :=
  (start graph).engage config settings

theorem run_fresh (graph : PropertyGraph) (config : Config) (settings : EngineConfig) :
    (fresh graph config settings).run = (fresh graph config settings).runEngine 0 := rfl

omit [NestingLimits] in
theorem engines_fresh (graph : PropertyGraph) (config : Config) (settings : EngineConfig) :
    (fresh graph config settings).engines[0]? = some (.start config settings) := rfl

theorem Reached.rerun_eq (hs : s.Reached) (engine : Engine) :
    s.rerun engine = (fresh s.graph engine.config engine.settings).rerun
      (.start engine.config engine.settings) :=
  Run.again_congr hs.keys_labels List.nil_prefix

theorem Reached.outcome_rerun (hs : s.Reached) (engine : Engine) :
    (s.rerun engine).outcome = (runShortestPaths s.graph engine.config engine.settings).outcome :=
  Run.outcome_again hs.keys_labels

/-- **Runs leave no trace on later runs.** Whatever has been run on a graph, by whichever engines
and to whatever end, the next run of an engine comes to the outcome of a new engine for the same job
on a new graph with the same vertices and edges; it leaves the same totals and labels. -/
theorem Reached.run_leaves_no_trace (hs : s.Reached) (hengine : s.engines[i]? = some engine)
    {h : PropertyGraph} (hids : h.ids = s.graph.ids)
    (hedges : ∀ v, h.edges? v = s.graph.edges? v) :
    (s.runEngine i).2 = (fresh h engine.config engine.settings).run.2 ∧
      (s.runEngine i).2 = (runShortestPaths h engine.config engine.settings).outcome ∧
      (s.runEngine i).1.engines[i]?.map Engine.counters =
        (fresh h engine.config engine.settings).run.1.engines[0]?.map Engine.counters ∧
      (s.runEngine i).1.labels = (fresh h engine.config engine.settings).run.1.labels := by
  obtain rfl := PropertyGraph.eq_of_edges hids hedges
  obtain ⟨houtcome, hlabels, -, hcounters⟩ := runEngine_of_some hengine
  obtain ⟨houtcome', hlabels', -, hcounters'⟩ :=
    runEngine_of_some (engines_fresh s.graph engine.config engine.settings)
  rw [run_fresh, houtcome, hlabels, hcounters, houtcome', hlabels', hcounters',
    ← hs.rerun_eq engine]
  exact ⟨rfl, hs.outcome_rerun engine, rfl, rfl⟩

end Limits

/-- A job with a bound that is too low for it. -/
def hurried : Session :=
  fresh diamond (.counting (.long 0) .all) { EngineConfig.standard with maxSupersteps := 1 }

theorem run_leaves_no_trace_hurried :
    hurried.run.2.toOption.isNone ∧
      (hurried.run.1.labels.label (.long 1)).stage = .inactive ∧
      ((hurried.run.1.engage (.counting (.long 1) .all) twoWorkers).runEngine 1).2 =
        (fresh diamond (.counting (.long 1) .all) twoWorkers).run.2 := by
  have hreached : (hurried.run.1.engage (.counting (.long 1) .all) twoWorkers).Reached :=
    .engage (.run (.engage (.start diamond) _ _) 0) _ _
  obtain ⟨hsame, _⟩ := hreached.run_leaves_no_trace (h := diamond) (i := 1) rfl rfl fun _ => rfl
  exact ⟨by decide +kernel, by decide +kernel, hsame⟩

end Session

end BulkPaths
