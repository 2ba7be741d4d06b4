import BulkPaths.Assoc
import BulkPaths.Spelling
import BulkPaths.Targets

/-!
Which targets have been reached. Every worker adds to a replica of the set while it computes; at
the barrier the master unites what the workers submitted.
-/

namespace BulkPaths

namespace Targets

/-- A single target is reached where it is computed; several are reached once the replica holds
them all, and nothing else. Without explicit targets none is ever the last. -/
def allReached (targets : Targets) (replica : IdSet) (id : VertexId) : Bool :=
  match targets with
  | .all => false
  | .single target => id == target
  | .multiple ids => replica.length == ids.length && IdSet.subset ids replica

/-- A target enters the replica when it is computed. -/
def enroll (targets : Targets) (id : VertexId) (replica : IdSet) : IdSet :=
  if targets.contains id then replica.insert id else replica

end Targets

/-- The replica with category and value of every member. -/
def IdSet.spelled (ids : IdSet) : String :=
  "ReachedTargets([" ++ Value.commaSeparated (ids.map member) ++ "])"
where
  member (id : VertexId) : String :=
    "VertexId(kind=<IdType." ++ id.categoryName ++ ": " ++ toString id.category ++ ">, value=" ++
      id.toValue.spelled ++ ")"

structure Aggregator where
  targets : Targets
  /-- The set as of the last merge. -/
  merged : IdSet
  /-- Submissions since then, in order of arrival. -/
  pending : List IdSet
  deriving DecidableEq, Repr

namespace Aggregator

def start (targets : Targets) : Aggregator := { targets, merged := [], pending := [] }

instance : Coe Targets Aggregator := ⟨start⟩

def submit (a : Aggregator) (ids : IdSet) : Aggregator := { a with pending := a.pending ++ [ids] }

/-- All members of the merged set and of the pending submissions. -/
def candidate (a : Aggregator) : IdSet := a.pending.foldl IdSet.union a.merged

def stray (a : Aggregator) : IdSet := a.candidate.diff a.targets.ids

/-- The pending submissions are used up; they count only if all of them name targets. -/
def settle (a : Aggregator) : Aggregator :=
  { a with merged := if a.stray.isEmpty then a.candidate else a.merged, pending := [] }

/-- The fault of a merge names the strays, if they can be spelled. -/
def strayFault (a : Aggregator) : Fault :=
  if a.stray.all VertexId.isPrintable then .strayTargets a.stray else .longNumeral

def merge (a : Aggregator) : Aggregator × Except Fault IdSet :=
  (a.settle, if a.stray.isEmpty then .ok a.candidate else .error a.strayFault)

/-- Whether every explicit target has been reached. -/
def converged (a : Aggregator) : Bool :=
  match a.targets with
  | .all => false
  | targets => IdSet.subset targets.ids a.merged

end Aggregator

/-- Aggregators under keys, in order of registration. A registry holds the aggregators that it is
given and no copies: one of them may stand under several keys, and it may be used before it is
registered and beside the registry. Aggregators are told apart by their places. -/
@[ext]
structure Registry where
  keys : List (String × Nat)
  held : Nat → Aggregator

namespace Registry

/-- No key yet, and new aggregators, one for each of the targets. -/
def start (supply : Nat → Targets) : Registry :=
  { keys := [], held := fun place => .start (supply place) }

def put (r : Registry) (place : Nat) (a : Aggregator) : Registry :=
  { r with held := fun other => if other = place then a else r.held other }

/-- Where the aggregator of a key is. -/
def require (r : Registry) (key : String) : Except Fault Nat :=
  match Assoc.get? key r.keys with
  | some place => .ok place
  | none => .error (.noAggregator key)

def register (r : Registry) (key : String) (place : Nat) : Except Fault Registry :=
  match Assoc.get? key r.keys with
  | some _ => .error (.keyTaken key)
  | none => .ok { r with keys := Assoc.put key place r.keys }

def read (r : Registry) (key : String) : Except Fault IdSet :=
  (r.require key).map fun place => (r.held place).merged

def submitAt (r : Registry) (place : Nat) (ids : IdSet) : Registry :=
  r.put place ((r.held place).submit ids)

def write (r : Registry) (key : String) (ids : IdSet) : Except Fault Registry :=
  (r.require key).map fun place => r.submitAt place ids

def mergeAt (r : Registry) (place : Nat) : Registry × Except Fault IdSet :=
  let (settled, outcome) := (r.held place).merge
  (r.put place settled, outcome)

/-- Merges one key; none if it is not registered. -/
def mergeKey (r : Registry) (key : String) : Registry × Option (Except Fault IdSet) :=
  match Assoc.get? key r.keys with
  | none => (r, none)
  | some place =>
    let (merged, outcome) := r.mergeAt place
    (merged, some outcome)

/-- Merges one key after the other; the first failing merge ends the round. -/
def mergeKeys : List (String × Nat) → Registry → Registry × Except Fault Unit
  | [], r => (r, .ok ())
  | (_, place) :: rest, r =>
    match r.mergeAt place with
    | (merged, .error fault) => (merged, .error fault)
    | (merged, .ok _) => mergeKeys rest merged

def mergeAll (r : Registry) : Registry × Except Fault Unit := mergeKeys r.keys r

/-- The keys with their aggregators. -/
def rows (r : Registry) : List (String × Aggregator) :=
  r.keys.map fun (key, place) => (key, r.held place)

end Registry

/-- A registry in which every key has an aggregator of its own. -/
abbrev Aggregators := List (String × Aggregator)

namespace Aggregators

def registry (rows : Aggregators) : Registry where
  keys := rows.zipIdx.map fun ((key, _), place) => (key, place)
  held place := (rows[place]?.map Prod.snd).getD (.start .all)

/-- The aggregator gets a place of its own. -/
def register (rows : Aggregators) (key : String) (a : Aggregator) : Except Fault Aggregators :=
  ((rows.registry.put rows.length a).register key rows.length).map Registry.rows

def read (rows : Aggregators) (key : String) : Except Fault IdSet := rows.registry.read key

def write (rows : Aggregators) (key : String) (ids : IdSet) : Except Fault Aggregators :=
  (rows.registry.write key ids).map Registry.rows

def mergeAll (rows : Aggregators) : Aggregators × Except Fault Unit :=
  let (merged, outcome) := rows.registry.mergeAll
  (merged.rows, outcome)

def mergeKey (rows : Aggregators) (key : String) : Aggregators × Option (Except Fault IdSet) :=
  let (merged, outcome) := rows.registry.mergeKey key
  (merged.rows, outcome)

end Aggregators

end BulkPaths
