import BulkPaths.Proofs.Ledgers
import Mathlib.Data.List.Induction

/-!
# Registries of aggregators

What requests of any kind and in any order do to a registry, told by its ledger. An account only
goes on, so a value never shrinks. Two ledgers that differ in the account of one aggregator stay
alike in all others until a round stops at that one in only one of them: what is written under a key
shows under the keys that lead to the same aggregator, and can keep others from being merged, but
only if it names what is no target.
-/

namespace BulkPaths

namespace Account

variable {account later latest : Account}

/-- The account has gone on: nothing that was submitted is lost, and no batch that was ended. -/
structure Continues (account later : Account) : Prop where
  targets : later.targets = account.targets
  ended : account.ended <+: later.ended
  submissions : account.submissions <+: later.submissions

namespace Continues

theorem refl (account : Account) : account.Continues account :=
  ⟨rfl, List.prefix_refl _, List.prefix_refl _⟩

theorem submit (account : Account) (submission : Submission) :
    account.Continues (account.submit submission) := by
  refine ⟨rfl, List.prefix_refl _, [submission], ?_⟩
  exact List.append_assoc ..

theorem close (account : Account) : account.Continues account.close :=
  ⟨rfl, List.prefix_append .., account.submissions_close ▸ List.prefix_refl _⟩

theorem trans (h : account.Continues later) (h' : later.Continues latest) :
    account.Continues latest :=
  ⟨h'.targets.trans h.targets, h.ended.trans h'.ended, h.submissions.trans h'.submissions⟩

theorem value_subset (h : account.Continues later) : account.value ⊆ later.value := by
  intro id hid
  obtain ⟨batch, hbatch, hadmits, hsubmitted⟩ := mem_value.mp hid
  have hadmits' : later.Admits batch := by
    rw [Admits, h.targets]
    exact hadmits
  exact mem_value.mpr ⟨batch, h.ended.subset hbatch, hadmits', hsubmitted⟩

end Continues

end Account

namespace Ledger

open Registry Assoc

variable {ledger ledger' later latest : Ledger} {key : String} {place other : Nat}
  {submission : Submission} {request : Request} {requests : List Request} {f : Account → Account}

/-! ### One ledger over time -/

/-- Keys keep their aggregators, and all accounts go on. -/
structure Continues (ledger later : Ledger) : Prop where
  keys : ∀ {key place}, get? key ledger.keys = some place → get? key later.keys = some place
  accounts : ∀ place, (ledger.accounts place).Continues (later.accounts place)

namespace Continues

theorem refl (ledger : Ledger) : ledger.Continues ledger := ⟨id, fun _ => .refl _⟩

theorem trans (h : ledger.Continues later) (h' : later.Continues latest) :
    ledger.Continues latest :=
  ⟨fun hkey => h'.keys (h.keys hkey), fun place => (h.accounts place).trans (h'.accounts place)⟩

theorem change (hf : ∀ account : Account, account.Continues (f account)) (ledger : Ledger)
    (place : Nat) :
    ledger.Continues (ledger.change place f) := by
  refine ⟨id, fun other => ?_⟩
  rw [accounts_change]
  split
  case isTrue => exact hf _
  case isFalse => exact .refl _

theorem changeKey (hf : ∀ account : Account, account.Continues (f account)) (ledger : Ledger)
    (key : String) : ledger.Continues (ledger.changeKey key f) := by
  unfold Ledger.changeKey
  split
  case h_1 place _ => exact .change hf ledger place
  case h_2 => exact .refl ledger

theorem closeKeys (keys : List (String × Nat)) (ledger : Ledger) :
    ledger.Continues (closeKeys keys ledger) := by
  induction keys generalizing ledger with
  | nil => exact .refl ledger
  | cons row rest ih =>
      have hfirst : ledger.Continues (ledger.change row.2 .close) := .change .close ledger row.2
      rw [Ledger.closeKeys]
      split
      case isTrue => exact hfirst.trans (ih _)
      case isFalse => exact hfirst

theorem record (ledger : Ledger) (request : Request) :
    ledger.Continues (ledger.record request) := by
  cases request with
  | read _ | converged _ => exact .refl ledger
  | write key ids => exact .changeKey (fun account => .submit account _) ledger key
  | merge key => exact .changeKey .close ledger key
  | mergeAll => exact .closeKeys ledger.keys ledger
  | submitAt place ids => exact .change (fun account => .submit account _) ledger place
  | mergeAt place => exact .change .close ledger place
  | register key place =>
      rw [Ledger.record]
      split
      case isTrue => exact .refl ledger
      case isFalse =>
        refine ⟨fun hkey => ?_, fun _ => .refl _⟩
        rw [get?_append, hkey, Option.some_or]

theorem foldl_record (ledger : Ledger) (requests : List Request) :
    ledger.Continues (requests.foldl Ledger.record ledger) := by
  induction requests generalizing ledger with
  | nil => exact .refl ledger
  | cons request requests ih => exact (record ledger request).trans (ih _)

end Continues

theorem targets_ofRequests (supply : Nat → Targets) (requests : List Request) (place : Nat) :
    ((ofRequests supply requests).accounts place).targets = supply place :=
  ((Continues.foldl_record (start supply) requests).accounts place).targets

/-- How a submission came to an aggregator. -/
inductive Origin (requests : List Request) (keys : List (String × Nat)) (place : Nat) :
    Submission → Prop
  | under {key : String} {ids : List VertexId} (leads : get? key keys = some place)
      (asked : .write key ids ∈ requests) : Origin requests keys place { key := some key, ids }
  | beside {ids : List VertexId} (asked : .submitAt place ids ∈ requests) :
      Origin requests keys place { key := none, ids }

theorem Origin.mono {requests' : List Request} {keys keys' : List (String × Nat)}
    (h : Origin requests keys place submission) (hrequests : requests ⊆ requests')
    (hkeys : ∀ {key place}, get? key keys = some place → get? key keys' = some place) :
    Origin requests' keys' place submission := by
  cases h with
  | under leads asked => exact .under (hkeys leads) (hrequests asked)
  | beside asked => exact .beside (hrequests asked)

/-- What is used under one key only has all its submissions under this key. -/
theorem Origin.key_eq {keys : List (String × Nat)} (h : Origin requests keys place submission)
    (honly : ∀ other, get? other keys = some place → other = key)
    (hbeside : ∀ ids, .submitAt place ids ∉ requests) : submission.key = some key := by
  cases h with
  | under leads asked => exact congrArg some (honly _ leads)
  | beside asked => exact absurd asked (hbeside _)

theorem submissions_change_close (ledger : Ledger) (place other : Nat) :
    ((ledger.change place .close).accounts other).submissions =
      (ledger.accounts other).submissions := by
  rw [accounts_change]
  split
  case isTrue => exact Account.submissions_close _
  case isFalse => rfl

theorem submissions_closeKeys (keys : List (String × Nat)) (ledger : Ledger) (place : Nat) :
    ((closeKeys keys ledger).accounts place).submissions =
      (ledger.accounts place).submissions := by
  induction keys generalizing ledger with
  | nil => rfl
  | cons row rest ih =>
      rw [closeKeys]
      split
      case isTrue => rw [ih, submissions_change_close]
      case isFalse => rw [submissions_change_close]

theorem mem_submissions_change_submit {found : Submission}
    (h : found ∈ ((ledger.change place (·.submit submission)).accounts other).submissions) :
    found ∈ (ledger.accounts other).submissions ∨ other = place ∧ found = submission := by
  rw [accounts_change] at h
  split at h
  case isTrue hother =>
    exact (Account.mem_submissions_submit.mp h).imp_right fun hfound => ⟨hother, hfound⟩
  case isFalse => exact .inl h

/-- A request brings no submission but its own. -/
theorem mem_submissions_record
    (h : submission ∈ ((ledger.record request).accounts place).submissions) :
    submission ∈ (ledger.accounts place).submissions ∨
      Origin [request] ledger.keys place submission := by
  cases request with
  | read _ | converged _ => exact .inl h
  | register key place =>
      rw [record] at h
      split at h <;> exact .inl h
  | write key ids =>
      rw [record, changeKey] at h
      split at h
      case h_1 hkey =>
        refine (mem_submissions_change_submit h).imp_right ?_
        rintro ⟨rfl, rfl⟩
        exact .under hkey List.mem_cons_self
      case h_2 => exact .inl h
  | merge key =>
      rw [record, changeKey] at h
      split at h
      case h_1 => exact .inl (submissions_change_close .. ▸ h)
      case h_2 => exact .inl h
  | mergeAll => exact .inl (submissions_closeKeys .. ▸ h)
  | submitAt other ids =>
      refine (mem_submissions_change_submit h).imp_right ?_
      rintro ⟨rfl, rfl⟩
      exact .beside List.mem_cons_self
  | mergeAt other => exact .inl (submissions_change_close .. ▸ h)

theorem origin_ofRequests {supply : Nat → Targets}
    (h : submission ∈ ((ofRequests supply requests).accounts place).submissions) :
    Origin requests (ofRequests supply requests).keys place submission := by
  induction requests using List.reverseRecOn with
  | nil => cases h
  | append_singleton requests request ih =>
      have hcontinues := Continues.record (ofRequests supply requests) request
      rw [ofRequests_append] at h ⊢
      rcases mem_submissions_record h with hold | hnew
      · exact (ih hold).mono (List.subset_append_left ..) hcontinues.keys
      · exact hnew.mono (List.subset_append_right ..) hcontinues.keys

/-- What is written under a registered key comes to its aggregator and stays in the account. -/
theorem mem_submissions_of_write {supply : Nat → Targets} {earlier : List Request}
    (hkey : get? key (ofRequests supply earlier).keys = some place) (ids : List VertexId)
    (requests : List Request) :
    { key := some key, ids } ∈ ((ofRequests supply
      (earlier ++ .write key ids :: requests)).accounts place).submissions := by
  have hwrite : (ofRequests supply earlier).record (.write key ids) =
      (ofRequests supply earlier).change place (·.submit { key := some key, ids }) := by
    rw [record, changeKey, hkey]
  rw [ofRequests_append, List.foldl_cons, hwrite]
  refine ((Continues.foldl_record _ requests).accounts place).submissions.subset ?_
  rw [accounts_change, if_pos rfl]
  exact Account.mem_submissions_submit.mpr (.inr rfl)

/-! ### Two ledgers -/

/-- The ledgers differ in one account at most. If `fair`, a round that comes to it stops in both or
in neither. -/
structure Apart (place : Nat) (fair : Prop) (ledger ledger' : Ledger) : Prop where
  keys : ledger'.keys = ledger.keys
  others : ∀ other ≠ place, ledger'.accounts other = ledger.accounts other
  targets : (ledger'.accounts place).targets = (ledger.accounts place).targets
  passes : fair → ((ledger'.accounts place).Passes ↔ (ledger.accounts place).Passes)

namespace Apart

variable {fair : Prop}

theorem passes_iff (h : Apart place fair ledger ledger') (hfair : fair) (other : Nat) :
    (ledger'.accounts other).Passes ↔ (ledger.accounts other).Passes := by
  by_cases hother : other = place
  · subst hother
    exact h.passes hfair
  · rw [h.others other hother]

theorem submit (h : Apart place fair ledger ledger') (at' : Nat) (submission : Submission) :
    Apart place fair (ledger.change at' (·.submit submission))
      (ledger'.change at' (·.submit submission)) where
  keys := h.keys
  others other hother := by rw [accounts_change, accounts_change, h.others other hother]
  targets := by
    rw [accounts_change, accounts_change]
    split <;> exact h.targets
  passes hfair := by
    rw [accounts_change, accounts_change]
    split
    case isTrue => rw [Account.passes_submit, Account.passes_submit, h.passes hfair, h.targets]
    case isFalse => exact h.passes hfair

theorem close (h : Apart place fair ledger ledger') (at' : Nat) :
    Apart place fair (ledger.change at' .close) (ledger'.change at' .close) where
  keys := h.keys
  others other hother := by rw [accounts_change, accounts_change, h.others other hother]
  targets := by
    rw [accounts_change, accounts_change]
    split <;> exact h.targets
  passes hfair := by
    rw [accounts_change, accounts_change]
    split
    case isTrue => exact iff_of_true (Account.passes_close _) (Account.passes_close _)
    case isFalse => exact h.passes hfair

theorem closeKeys (h : Apart place fair ledger ledger') (hfair : fair)
    (keys : List (String × Nat)) :
    Apart place fair (closeKeys keys ledger) (closeKeys keys ledger') := by
  induction keys generalizing ledger ledger' with
  | nil => exact h
  | cons row rest ih =>
      simp only [Ledger.closeKeys, h.passes_iff hfair row.2]
      split
      case isTrue => exact ih (h.close row.2)
      case isFalse => exact h.close row.2

theorem record (h : Apart place fair ledger ledger') (hfair : request = .mergeAll → fair) :
    Apart place fair (ledger.record request) (ledger'.record request) := by
  cases request with
  | read _ | converged _ => exact h
  | submitAt other ids => exact h.submit other _
  | mergeAt other => exact h.close other
  | mergeAll =>
      rw [Ledger.record, Ledger.record, h.keys]
      exact h.closeKeys (hfair rfl) _
  | write key ids =>
      simp only [Ledger.record, changeKey, h.keys]
      split
      case h_1 other _ => exact h.submit other _
      case h_2 => exact h
  | merge key =>
      simp only [Ledger.record, changeKey, h.keys]
      split
      case h_1 other _ => exact h.close other
      case h_2 => exact h
  | register key other =>
      rw [Ledger.record, Ledger.record, h.keys]
      split
      case isTrue => exact h
      case isFalse => exact { h with keys := rfl }

/-- Whether the two are alike to a round matters only if there is one. -/
theorem foldl_record (h : Apart place fair ledger ledger') (hfair : .mergeAll ∈ requests → fair) :
    Apart place fair (requests.foldl Ledger.record ledger)
      (requests.foldl Ledger.record ledger') := by
  induction requests generalizing ledger ledger' with
  | nil => exact h
  | cons request requests ih =>
      refine ih (h.record fun hround => hfair ?_) fun hmem => hfair (List.mem_cons_of_mem _ hmem)
      rw [hround]
      exact List.mem_cons_self

end Apart

/-- A submission of targets differs from none by nothing that a round would stop at. -/
theorem apart_submit {fair : Prop} (ledger : Ledger)
    (h : fair → submission.ids ⊆ (ledger.accounts place).targets.ids) :
    Apart place fair ledger (ledger.change place (·.submit submission)) where
  keys := rfl
  others other hother := by rw [accounts_change, if_neg hother]
  targets := by rw [accounts_change, if_pos rfl]; rfl
  passes hfair := by
    rw [accounts_change, if_pos rfl, Account.passes_submit]
    exact and_iff_left (h hfair)

end Ledger

/-- A merge that fails: the batch is gone, the value is left, and the fault names the strays, if
they can be spelled. -/
structure Aggregator.Discards (a : Aggregator) (fault : Fault) (b : Aggregator) : Prop where
  refused : ¬a.targets.Admits a.pending
  left : b = { a with pending := [] }
  named : ∃ strays, (∀ id, id ∈ strays ↔ id ∉ a.targets.ids ∧ ∃ ids ∈ a.pending, id ∈ ids) ∧
    fault = if strays.all VertexId.isPrintable then .strayTargets strays else .longNumeral

namespace Aggregator

variable {a : Aggregator}

theorem discards_of_stray (hwithin : a.merged ⊆ a.targets.ids) (h : a.stray ≠ []) :
    a.Discards a.strayFault a.settle where
  refused := mt (stray_eq_nil_iff hwithin).mpr h
  left := settle_of_stray h
  named := by
    refine ⟨a.stray, fun id => ?_, rfl⟩
    rw [mem_stray]
    constructor
    · rintro ⟨hin | hin, hout⟩
      · exact absurd (hwithin hin) hout
      · exact ⟨hout, hin⟩
    · rintro ⟨hout, hin⟩
      exact ⟨.inr hin, hout⟩

theorem settle_settle (a : Aggregator) : a.settle.settle = a.settle := by
  unfold settle candidate
  split <;> simp

theorem stray_settle_of_clean (h : a.stray = []) : a.settle.stray = [] := by
  rw [settle_of_clean h]
  exact h

end Aggregator

namespace Registry

open Assoc

variable {supply : Nat → Targets} {r : Registry} {requests : List Request} {key : String}
  {place : Nat} {keys : List (String × Nat)} {a : Aggregator} {fault : Fault}

/-- The registry with the aggregators at these places merged. -/
def settledAt (r : Registry) (places : List Nat) : Registry :=
  { r with held := fun place => if place ∈ places then (r.held place).settle else r.held place }

theorem settledAt_nil (r : Registry) : r.settledAt [] = r := by
  simp only [settledAt, List.not_mem_nil, if_false]

theorem settledAt_put (r : Registry) (place : Nat) (places : List Nat) :
    (r.put place (r.held place).settle).settledAt places = r.settledAt (place :: places) := by
  ext1
  · rfl
  · funext other
    simp only [settledAt, held_put, List.mem_cons]
    by_cases hother : other = place
    · subst hother
      simp [Aggregator.settle_settle]
    · simp [hother]

/-- What a round over keys does: it merges the aggregators of all of them, or it stops at the first
that holds a stray. -/
inductive Sweep (r : Registry) (keys : List (String × Nat)) :
    Registry × Except Fault Unit → Prop
  | whole (clean : ∀ row ∈ keys, (r.held row.2).stray = []) :
      Sweep r keys (r.settledAt (keys.map Prod.snd), .ok ())
  | stopped {earlier later : List (String × Nat)} {key : String} {place : Nat}
      (split : keys = earlier ++ (key, place) :: later)
      (clean : ∀ row ∈ earlier, (r.held row.2).stray = []) (stray : (r.held place).stray ≠ []) :
      Sweep r keys ((r.settledAt (earlier.map Prod.snd)).put place (r.held place).settle,
        .error (r.held place).strayFault)

theorem stray_put_iff (h : (r.held place).stray = []) (other : Nat) :
    ((r.put place (r.held place).settle).held other).stray = [] ↔ (r.held other).stray = [] := by
  rw [held_put]
  split
  case isTrue hother =>
    subst hother
    exact iff_of_true (Aggregator.stray_settle_of_clean h) h
  case isFalse => rfl

theorem sweep_mergeKeys (keys : List (String × Nat)) (r : Registry) :
    Sweep r keys (mergeKeys keys r) := by
  induction keys generalizing r with
  | nil => exact .whole nofun
  | cons row rest ih =>
      obtain ⟨key, place⟩ := row
      by_cases hstray : (r.held place).stray = []
      · rw [mergeKeys_of_clean hstray]
        have hrest := ih (r.put place (r.held place).settle)
        generalize mergeKeys rest _ = result at hrest ⊢
        -- an aggregator that has just been merged holds no stray when it comes again
        cases hrest with
        | whole clean =>
            simp only [stray_put_iff hstray] at clean
            rw [settledAt_put]
            exact .whole (List.forall_mem_cons.mpr ⟨hstray, clean⟩)
        | @stopped earlier later other place' split clean stray =>
            simp only [stray_put_iff hstray] at clean
            have hstray' : (r.held place').stray ≠ [] := mt (stray_put_iff hstray place').mpr stray
            have hne : place' ≠ place := by
              rintro rfl
              exact hstray' hstray
            have hsplit : (key, place) :: rest = ((key, place) :: earlier) ++
                (other, place') :: later := congrArg ((key, place) :: ·) split
            rw [settledAt_put, held_put_of_ne hne]
            exact .stopped hsplit (List.forall_mem_cons.mpr ⟨hstray, clean⟩) hstray'
      · rw [mergeKeys_of_stray hstray]
        have hsplit : (key, place) :: rest = [] ++ (key, place) :: rest := rfl
        have hstopped := Sweep.stopped hsplit nofun hstray
        rwa [List.map_nil, settledAt_nil] at hstopped

/-- All values hold targets only. -/
def Within (r : Registry) : Prop := ∀ place, (r.held place).merged ⊆ (r.held place).targets.ids

/-- No aggregator of these keys holds a stray. -/
def Admitting (r : Registry) (keys : List (String × Nat)) : Prop :=
  ∀ row ∈ keys, (r.held row.2).targets.Admits (r.held row.2).pending

theorem Within.stray_iff (h : r.Within) (place : Nat) :
    (r.held place).stray = [] ↔ (r.held place).targets.Admits (r.held place).pending :=
  Aggregator.stray_eq_nil_iff (h place)

theorem read_of_some (h : get? key r.keys = some place) :
    r.read key = .ok (r.held place).merged := by
  rw [read, require, h]
  rfl

/-- What is submitted is not read before it is merged. -/
theorem read_submitAt (r : Registry) (place : Nat) (ids : IdSet) (key : String) :
    (r.submitAt place ids).read key = r.read key := by
  have hmerged : ∀ found, ((r.submitAt place ids).held found).merged = (r.held found).merged := by
    intro found
    rw [submitAt, held_put]
    split
    case isTrue hfound => rw [hfound]; rfl
    case isFalse => rfl
  cases hget : get? key r.keys with
  | none => simp only [read, require, submitAt, put, hget, Except.map]
  | some found => rw [read_of_some hget, read_of_some (r := r.submitAt place ids) hget, hmerged]

theorem read_write (r : Registry) (key : String) (ids : List VertexId) (other : String) :
    (r.next (.write key ids)).read other = r.read other := by
  rw [next, write]
  cases r.require key with
  | error fault => rfl
  | ok place => exact r.read_submitAt place (.ofList ids) other

theorem mergeKey_of_some (h : get? key r.keys = some place) :
    r.mergeKey key = ((r.mergeAt place).1, some (r.mergeAt place).2) := by
  rw [mergeKey, h]

theorem mergeKey_passes (hwithin : r.Within) (h : get? key r.keys = some place)
    (hadmits : (r.held place).targets.Admits (r.held place).pending) :
    ∃ value, (r.mergeKey key).2 = some (.ok value) ∧
      (r.mergeKey key).1 = r.put place (r.held place).settle ∧
      (r.mergeKey key).1.read key = .ok value := by
  have hclean := (hwithin.stray_iff place).mpr hadmits
  have hread : (r.put place (r.held place).settle).read key = .ok (r.held place).candidate := by
    rw [read_of_some (r := r.put place _) h, held_put_self, Aggregator.settle_of_clean hclean]
  rw [mergeKey_of_some h, mergeAt_of_clean hclean]
  exact ⟨_, rfl, rfl, hread⟩

theorem mergeKey_fails (hwithin : r.Within)
    (hfails : (r.mergeKey key).2 = some (.error fault)) :
    ∃ place b, get? key r.keys = some place ∧ (r.held place).Discards fault b ∧
      (r.mergeKey key).1 = r.put place b := by
  cases hget : get? key r.keys with
  | none =>
      rw [mergeKey, hget] at hfails
      cases hfails
  | some place =>
      rw [mergeKey_of_some hget] at hfails ⊢
      by_cases hstray : (r.held place).stray = []
      · rw [mergeAt_of_clean hstray] at hfails
        cases hfails
      · rw [mergeAt_of_stray hstray] at hfails ⊢
        cases hfails
        exact ⟨place, _, rfl, Aggregator.discards_of_stray (hwithin place) hstray, rfl⟩

theorem mergeAll_passes (hwithin : r.Within) (hadmits : r.Admitting r.keys) :
    r.mergeAll = (r.settledAt (r.keys.map Prod.snd), .ok ()) := by
  have hsweep := sweep_mergeKeys r.keys r
  rw [mergeAll]
  generalize mergeKeys r.keys r = result at hsweep ⊢
  cases hsweep with
  | whole => rfl
  | @stopped earlier later key place split clean stray =>
      have hmem : (key, place) ∈ r.keys := split ▸ List.mem_append_right _ List.mem_cons_self
      exact absurd ((hwithin.stray_iff place).mpr (hadmits _ hmem)) stray

theorem mergeAll_fails (hwithin : r.Within) (hfails : r.mergeAll.2 = .error fault) :
    ∃ earlier key place later b, r.keys = earlier ++ (key, place) :: later ∧
      r.Admitting earlier ∧ (r.held place).Discards fault b ∧
      r.mergeAll.1 = (r.settledAt (earlier.map Prod.snd)).put place b := by
  have hsweep := sweep_mergeKeys r.keys r
  rw [mergeAll] at hfails ⊢
  generalize mergeKeys r.keys r = result at hsweep hfails ⊢
  cases hsweep with
  | whole => cases hfails
  | @stopped earlier later key place split clean stray =>
      obtain rfl := Except.error.inj hfails
      refine ⟨earlier, key, place, later, _, split, fun row hrow => ?_,
        Aggregator.discards_of_stray (hwithin place) stray, rfl⟩
      exact (hwithin.stray_iff row.2).mp (clean row hrow)

theorem held_after (supply : Nat → Targets) (requests : List Request) (place : Nat) :
    (after supply requests).held place =
      ((Ledger.ofRequests supply requests).accounts place).shown := by
  rw [← Ledger.shown_ofRequests]
  rfl

theorem keys_after (supply : Nat → Targets) (requests : List Request) :
    (after supply requests).keys = (Ledger.ofRequests supply requests).keys := by
  rw [← Ledger.shown_ofRequests]
  rfl

theorem targets_after (supply : Nat → Targets) (requests : List Request) (place : Nat) :
    ((after supply requests).held place).targets = supply place := by
  rw [held_after]
  exact Ledger.targets_ofRequests supply requests place

theorem within_after (supply : Nat → Targets) (requests : List Request) :
    (after supply requests).Within := by
  intro place
  rw [held_after]
  exact Account.value_subset _

theorem continues_after (supply : Nat → Targets) (requests later : List Request) :
    (Ledger.ofRequests supply requests).Continues
      (Ledger.ofRequests supply (requests ++ later)) := by
  rw [Ledger.ofRequests_append]
  exact .foldl_record _ later

theorem merged_subset_after (supply : Nat → Targets) (requests later : List Request)
    (place : Nat) : ((after supply requests).held place).merged ⊆
      ((after supply (requests ++ later)).held place).merged := by
  rw [held_after, held_after]
  exact ((continues_after supply requests later).accounts place).value_subset

theorem converged_after {supply : Nat → Targets} {requests : List Request} {place : Nat}
    (later : List Request) (h : ((after supply requests).held place).converged) :
    ((after supply (requests ++ later)).held place).converged := by
  rw [Aggregator.converged_iff, targets_after] at h ⊢
  exact h.imp_right fun hall => List.Subset.trans hall (merged_subset_after ..)

/-- What is written under a key does not show under keys that lead elsewhere, unless a round stops
at what it has brought. -/
theorem read_after_write {other : String} (ids : List VertexId) (later : List Request)
    (hkey : get? key (after supply requests).keys = some place)
    (hother : get? other (after supply (requests ++ later)).keys ≠ some place)
    (htargets : .mergeAll ∈ later → ids ⊆ (supply place).ids) :
    (after supply (requests ++ .write key ids :: later)).read other =
      (after supply (requests ++ later)).read other := by
  have hwrite : (Ledger.ofRequests supply requests).record (.write key ids) =
      (Ledger.ofRequests supply requests).change place (·.submit { key := some key, ids }) := by
    rw [keys_after] at hkey
    rw [Ledger.record, Ledger.changeKey, hkey]
  have hapart : Ledger.Apart place (.mergeAll ∈ later)
      (Ledger.ofRequests supply (requests ++ later))
      (Ledger.ofRequests supply (requests ++ .write key ids :: later)) := by
    rw [Ledger.ofRequests_append, Ledger.ofRequests_append, List.foldl_cons, hwrite]
    refine Ledger.Apart.foldl_record (Ledger.apart_submit _ fun hround => ?_) id
    rw [Ledger.targets_ofRequests]
    exact htargets hround
  rw [keys_after] at hother
  unfold read require
  rw [keys_after, keys_after, hapart.keys]
  cases hget : get? other (Ledger.ofRequests supply (requests ++ later)).keys with
  | none => rfl
  | some found =>
      have hfound : found ≠ place := by
        rintro rfl
        exact hother hget
      refine congrArg Except.ok ?_
      dsimp only
      rw [held_after, held_after, hapart.others found hfound]

/-- How a registry behaves under requests, wherever they stop. -/
structure Conduct (supply : Nat → Targets) (requests : List Request) : Prop where
  shown : after supply requests = (Ledger.ofRequests supply requests).shown
  value : ∀ {key place}, get? key (after supply requests).keys = some place →
    ∃ value, (after supply requests).read key = .ok value ∧ ∀ id, id ∈ value ↔
      ∃ batch ∈ ((Ledger.ofRequests supply requests).accounts place).ended,
        (∀ submission ∈ batch, submission.ids ⊆ (supply place).ids) ∧
          ∃ submission ∈ batch, id ∈ submission.ids
  origin : ∀ {place submission},
    submission ∈ ((Ledger.ofRequests supply requests).accounts place).submissions →
      Ledger.Origin requests (after supply requests).keys place submission
  own : ∀ {key place}, get? key (after supply requests).keys = some place →
    (∀ other, get? other (after supply requests).keys = some place → other = key) →
    (∀ ids, .submitAt place ids ∉ requests) →
      ∀ submission ∈ ((Ledger.ofRequests supply requests).accounts place).submissions,
        submission.key = some key
  kept : ∀ {key place} ids later, get? key (after supply requests).keys = some place →
    { key := some key, ids } ∈ ((Ledger.ofRequests supply
      (requests ++ .write key ids :: later)).accounts place).submissions
  within : ∀ place, ((after supply requests).held place).merged ⊆ (supply place).ids
  grows : ∀ {key place} later, get? key (after supply requests).keys = some place →
    get? key (after supply (requests ++ later)).keys = some place ∧
      ((after supply requests).held place).merged ⊆
        ((after supply (requests ++ later)).held place).merged ∧
      (((after supply requests).held place).converged →
        ((after supply (requests ++ later)).held place).converged)
  converged_iff : ∀ place, ((after supply requests).held place).converged ↔
    supply place ≠ .all ∧ (supply place).ids ⊆ ((after supply requests).held place).merged
  merge_passes : ∀ {key place}, get? key (after supply requests).keys = some place →
    (supply place).Admits ((after supply requests).held place).pending →
      ∃ value, ((after supply requests).mergeKey key).2 = some (.ok value) ∧
        after supply (requests ++ [.merge key]) =
          (after supply requests).put place ((after supply requests).held place).settle ∧
        (after supply (requests ++ [.merge key])).read key = .ok value
  merge_fails : ∀ {key fault}, ((after supply requests).mergeKey key).2 = some (.error fault) →
    ∃ place b, get? key (after supply requests).keys = some place ∧
      ((after supply requests).held place).Discards fault b ∧
      after supply (requests ++ [.merge key]) = (after supply requests).put place b
  round_passes : (after supply requests).Admitting (after supply requests).keys →
    (after supply requests).mergeAll.2 = .ok () ∧ after supply (requests ++ [.mergeAll]) =
      (after supply requests).settledAt ((after supply requests).keys.map Prod.snd)
  round_fails : ∀ {fault}, (after supply requests).mergeAll.2 = .error fault →
    ∃ earlier key place later b, (after supply requests).keys =
        earlier ++ (key, place) :: later ∧
      (after supply requests).Admitting earlier ∧
      ((after supply requests).held place).Discards fault b ∧
      after supply (requests ++ [.mergeAll]) =
        ((after supply requests).settledAt (earlier.map Prod.snd)).put place b
  write_unread : ∀ key ids other, (after supply (requests ++ [.write key ids])).read other =
    (after supply requests).read other
  write_apart : ∀ {key other place} ids later,
    get? key (after supply requests).keys = some place →
    get? other (after supply (requests ++ later)).keys ≠ some place →
    (.mergeAll ∈ later → ids ⊆ (supply place).ids) →
      (after supply (requests ++ .write key ids :: later)).read other =
        (after supply (requests ++ later)).read other

/-- One target at the first place, and two at each other. -/
def fewTargets : Nat → Targets
  | 0 => .single (.long 1)
  | _ => .multiple [.long 1, .long 2]

/-- Two keys, each with a merged batch and an open one, which holds a stray under the first. -/
def twoKeys : List Request :=
  [.register "x" 0, .register "y" 1, .write "x" [.long 1], .write "y" [.long 1], .mergeAll,
    .write "x" [.long 3, .long 1], .write "y" [.long 2]]

/-- What is written under one key shows under another that leads to the same aggregator. -/
example :
    (after fewTargets
      [.register "x" 1, .register "y" 1, .write "x" [.long 2], .merge "x"]).read "y" =
        .ok [.long 2] := rfl

end Registry

end BulkPaths
