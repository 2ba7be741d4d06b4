import BulkPaths.Proofs.ReachedSets

/-!
# Ledgers of submissions

An aggregator forgets a submission once it is merged. A ledger keeps them all, in batches: a batch
ends when the aggregator is merged, under a key, in a round over all keys or beside the registry,
whether or not that merge fails. What a registry holds after any requests can be read off the
ledger: for each aggregator the members of its ended batches that name targets only, and the open
batch as it is. There is one account for an aggregator, however many keys lead to it.
-/

namespace BulkPaths

/-- What was submitted to an aggregator, and under which key, unless it was beside the registry. -/
structure Submission where
  key : Option String
  ids : List VertexId

/-- What has been submitted to an aggregator. -/
structure Account where
  targets : Targets
  /-- The batches that merges of the aggregator have ended, in order. -/
  ended : List (List Submission)
  /-- The submissions since the last of them. -/
  batch : List Submission

namespace Account

variable {account : Account} {id : VertexId}

def opened (targets : Targets) : Account := { targets, ended := [], batch := [] }

def submit (account : Account) (submission : Submission) : Account :=
  { account with batch := account.batch ++ [submission] }

def close (account : Account) : Account :=
  { account with ended := account.ended ++ [account.batch], batch := [] }

def submissions (account : Account) : List Submission := account.ended.flatten ++ account.batch

/-- The batch holds no stray. -/
def Admits (account : Account) (batch : List Submission) : Prop :=
  account.targets.Admits (batch.map Submission.ids)

instance (account : Account) : DecidablePred account.Admits := fun batch =>
  inferInstanceAs (Decidable (account.targets.Admits (batch.map Submission.ids)))

def Passes (account : Account) : Prop := account.Admits account.batch

instance : DecidablePred Passes := fun account =>
  inferInstanceAs (Decidable (account.Admits account.batch))

/-- What was submitted in the ended batches that hold no stray. -/
def value (account : Account) : IdSet :=
  .ofList ((account.ended.filter (account.Admits ·)).flatMap (·.flatMap Submission.ids))

/-- The aggregator that has taken these submissions. -/
def shown (account : Account) : Aggregator where
  targets := account.targets
  merged := account.value
  pending := account.batch.map fun submission => .ofList submission.ids

theorem mem_value : id ∈ account.value ↔ ∃ batch ∈ account.ended, account.Admits batch ∧
    ∃ submission ∈ batch, id ∈ submission.ids := by
  simp [value, IdSet.mem_ofList, and_assoc]

theorem increasing_value (account : Account) : account.value.Increasing :=
  IdSet.increasing_ofList _

theorem value_subset (account : Account) : account.value ⊆ account.targets.ids := by
  intro id hid
  obtain ⟨batch, -, hadmits, submission, hsubmission, hid⟩ := mem_value.mp hid
  exact hadmits _ (List.mem_map_of_mem hsubmission) hid

theorem admits_pending_shown :
    account.shown.targets.Admits account.shown.pending ↔ account.Passes := by
  simp [Targets.Admits, Passes, Admits, shown, List.subset_def, IdSet.mem_ofList]

theorem stray_shown : account.shown.stray = [] ↔ account.Passes :=
  (Aggregator.stray_eq_nil_iff account.value_subset).trans admits_pending_shown

theorem mem_value_close : id ∈ account.close.value ↔
    id ∈ account.value ∨ account.Passes ∧ ∃ submission ∈ account.batch, id ∈ submission.ids := by
  simp only [mem_value, close, List.mem_append, List.mem_singleton, or_and_right, exists_or,
    exists_eq_left, Passes]
  rfl

theorem shown_submit (account : Account) (submission : Submission) :
    (account.submit submission).shown = account.shown.submit (.ofList submission.ids) := by
  simp only [shown, submit, Aggregator.submit, List.map_append, List.map_singleton]
  rfl

theorem passes_submit (account : Account) (submission : Submission) :
    (account.submit submission).Passes ↔
      account.Passes ∧ submission.ids ⊆ account.targets.ids := by
  simp only [Passes, Admits, Targets.Admits, submit, List.map_append, List.map_singleton,
    List.mem_append, List.mem_singleton, or_imp, forall_and, forall_eq]

theorem passes_close (account : Account) : account.close.Passes := nofun

/-- Whether or not it fails, a merge ends the batch. -/
theorem shown_close (account : Account) : account.close.shown = account.shown.settle := by
  have hvalue : account.close.value = account.shown.settle.merged := by
    -- both are increasing, so it is enough that they have the same members
    by_cases hpasses : account.Passes
    · rw [Aggregator.settle_of_clean (stray_shown.mpr hpasses)]
      refine account.close.increasing_value.ext (account.increasing_value.foldl_union _) ?_
      intro id
      rw [Aggregator.mem_candidate, mem_value_close]
      simp [hpasses, shown, IdSet.mem_ofList]
    · rw [Aggregator.settle_of_stray (mt stray_shown.mp hpasses)]
      refine account.close.increasing_value.ext account.increasing_value ?_
      intro id
      simp [mem_value_close, hpasses, shown]
  rw [shown, hvalue]
  rfl

theorem mem_submissions_submit {submission found : Submission} :
    found ∈ (account.submit submission).submissions ↔
      found ∈ account.submissions ∨ found = submission := by
  simp [submissions, submit, or_assoc]

theorem submissions_close (account : Account) :
    account.close.submissions = account.submissions := by
  simp [submissions, close]

end Account

namespace Registry

open Assoc

variable {r : Registry} {key : String} {place other : Nat}

theorem held_put (r : Registry) (place other : Nat) (a : Aggregator) :
    (r.put place a).held other = if other = place then a else r.held other := rfl

theorem held_put_self (r : Registry) (place : Nat) (a : Aggregator) :
    (r.put place a).held place = a := if_pos rfl

theorem held_put_of_ne (h : other ≠ place) (a : Aggregator) :
    (r.put place a).held other = r.held other := if_neg h

theorem mergeAt_of_clean (h : (r.held place).stray = []) :
    r.mergeAt place = (r.put place (r.held place).settle, .ok (r.held place).candidate) := by
  rw [mergeAt, Aggregator.merge_of_clean h]

theorem mergeAt_of_stray (h : (r.held place).stray ≠ []) :
    r.mergeAt place = (r.put place (r.held place).settle, .error (r.held place).strayFault) := by
  rw [mergeAt, Aggregator.merge_of_stray h]

theorem mergeKeys_of_clean (h : (r.held place).stray = []) (rest : List (String × Nat)) :
    mergeKeys ((key, place) :: rest) r = mergeKeys rest (r.put place (r.held place).settle) := by
  rw [mergeKeys, mergeAt_of_clean h]

theorem mergeKeys_of_stray (h : (r.held place).stray ≠ []) (rest : List (String × Nat)) :
    mergeKeys ((key, place) :: rest) r =
      (r.put place (r.held place).settle, .error (r.held place).strayFault) := by
  rw [mergeKeys, mergeAt_of_stray h]

/-- What a registry and its aggregators are asked to do. -/
inductive Request
  | register (key : String) (place : Nat)
  | write (key : String) (ids : List VertexId)
  | read (key : String)
  | converged (key : String)
  | merge (key : String)
  | mergeAll
  /-- A submission beside the registry. -/
  | submitAt (place : Nat) (ids : List VertexId)
  /-- A merge beside the registry. -/
  | mergeAt (place : Nat)

/-- What a request leaves of a registry. If it cannot register or write, it leaves all as it was. -/
def next (r : Registry) : Request → Registry
  | .register key place => (r.register key place).toOption.getD r
  | .write key ids => (r.write key (.ofList ids)).toOption.getD r
  | .read _ | .converged _ => r
  | .merge key => (r.mergeKey key).1
  | .mergeAll => r.mergeAll.1
  | .submitAt place ids => r.submitAt place (.ofList ids)
  | .mergeAt place => (r.mergeAt place).1

def after (supply : Nat → Targets) (requests : List Request) : Registry :=
  requests.foldl next (start supply)

theorem after_concat (supply : Nat → Targets) (requests : List Request) (request : Request) :
    after supply (requests ++ [request]) = (after supply requests).next request :=
  List.foldl_concat ..

end Registry

/-- The keys of a registry, and an account for every aggregator. -/
@[ext]
structure Ledger where
  keys : List (String × Nat)
  accounts : Nat → Account

namespace Ledger

open Registry Assoc

def start (supply : Nat → Targets) : Ledger :=
  { keys := [], accounts := fun place => .opened (supply place) }

def shown (ledger : Ledger) : Registry :=
  { keys := ledger.keys, held := fun place => (ledger.accounts place).shown }

def change (ledger : Ledger) (place : Nat) (f : Account → Account) : Ledger :=
  { ledger with
    accounts := fun other => if other = place then f (ledger.accounts other)
      else ledger.accounts other }

def changeKey (ledger : Ledger) (key : String) (f : Account → Account) : Ledger :=
  match get? key ledger.keys with
  | some place => ledger.change place f
  | none => ledger

/-- Ends the open batches of the keys in order, up to the first that holds a stray. -/
def closeKeys : List (String × Nat) → Ledger → Ledger
  | [], ledger => ledger
  | (_, place) :: rest, ledger =>
    if (ledger.accounts place).Passes then closeKeys rest (ledger.change place .close)
    else ledger.change place .close

def record (ledger : Ledger) : Request → Ledger
  | .register key place =>
    if key ∈ Assoc.keys ledger.keys then ledger
    else { ledger with keys := ledger.keys ++ [(key, place)] }
  | .write key ids => ledger.changeKey key (·.submit { key := some key, ids })
  | .read _ | .converged _ => ledger
  | .merge key => ledger.changeKey key .close
  | .mergeAll => closeKeys ledger.keys ledger
  | .submitAt place ids => ledger.change place (·.submit { key := none, ids })
  | .mergeAt place => ledger.change place .close

def ofRequests (supply : Nat → Targets) (requests : List Request) : Ledger :=
  requests.foldl record (start supply)

variable {ledger : Ledger} {key : String} {place : Nat} {f : Account → Account}

theorem keys_shown (ledger : Ledger) : ledger.shown.keys = ledger.keys := rfl

theorem accounts_change (ledger : Ledger) (place other : Nat) (f : Account → Account) :
    (ledger.change place f).accounts other =
      if other = place then f (ledger.accounts other) else ledger.accounts other := rfl

theorem shown_change {g : Aggregator → Aggregator}
    (hf : ∀ account, (f account).shown = g account.shown) (ledger : Ledger) (place : Nat) :
    (ledger.change place f).shown = ledger.shown.put place (g (ledger.shown.held place)) := by
  ext1
  · rfl
  · funext other
    rw [held_put]
    split
    case isTrue hother =>
      subst hother
      exact (congrArg Account.shown (if_pos rfl)).trans (hf _)
    case isFalse hother => exact congrArg Account.shown (if_neg hother)

theorem shown_change_close (ledger : Ledger) (place : Nat) :
    (ledger.change place .close).shown =
      ledger.shown.put place (ledger.shown.held place).settle :=
  shown_change Account.shown_close ledger place

theorem shown_change_submit (ledger : Ledger) (place : Nat) (submission : Submission) :
    (ledger.change place (·.submit submission)).shown =
      ledger.shown.submitAt place (.ofList submission.ids) :=
  shown_change (g := fun a => a.submit (.ofList submission.ids))
    (fun account => account.shown_submit submission) ledger place

theorem shown_closeKeys (keys : List (String × Nat)) (ledger : Ledger) :
    (closeKeys keys ledger).shown = (mergeKeys keys ledger.shown).1 := by
  induction keys generalizing ledger with
  | nil => rfl
  | cons row rest ih =>
      obtain ⟨key, place⟩ := row
      rw [closeKeys]
      split
      case isTrue hpasses =>
        rw [mergeKeys_of_clean (Account.stray_shown.mpr hpasses), ih, shown_change_close]
      case isFalse hfails =>
        rw [mergeKeys_of_stray (mt Account.stray_shown.mp hfails), shown_change_close]

/-- A request leaves of a registry what it leaves of the ledger. -/
theorem shown_record (ledger : Ledger) (request : Request) :
    (ledger.record request).shown = ledger.shown.next request := by
  cases request with
  | read key | converged key => rfl
  | mergeAll => exact shown_closeKeys ledger.keys ledger
  | submitAt place ids => exact shown_change_submit ledger place _
  | mergeAt place => exact shown_change_close ledger place
  | register key place =>
      rw [record, next, register, keys_shown]
      cases hget : get? key ledger.keys with
      | some found => rw [if_pos (mem_keys_of_get? hget)]; rfl
      | none =>
          have hnew := not_mem_keys_of_get? hget
          rw [if_neg hnew, put_of_not_mem _ hnew]
          rfl
  | write key ids =>
      rw [record, changeKey, next, write, require, keys_shown]
      cases get? key ledger.keys with
      | none => rfl
      | some place => exact shown_change_submit ledger place _
  | merge key =>
      rw [record, changeKey, next, mergeKey, keys_shown]
      cases get? key ledger.keys with
      | none => rfl
      | some place => exact shown_change_close ledger place

theorem shown_foldl_record (ledger : Ledger) (requests : List Request) :
    (requests.foldl record ledger).shown = requests.foldl next ledger.shown := by
  induction requests generalizing ledger with
  | nil => rfl
  | cons request requests ih => rw [List.foldl_cons, List.foldl_cons, ih, shown_record]

/-- A registry is what its ledger shows. -/
theorem shown_ofRequests (supply : Nat → Targets) (requests : List Request) :
    (ofRequests supply requests).shown = after supply requests :=
  shown_foldl_record (start supply) requests

theorem ofRequests_append (supply : Nat → Targets) (requests later : List Request) :
    ofRequests supply (requests ++ later) = later.foldl record (ofRequests supply requests) :=
  List.foldl_append

end Ledger

end BulkPaths
