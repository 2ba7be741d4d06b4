import BulkPaths.Engine
import BulkPaths.Proofs.Combining

/-!
# What a mailbox holds

A mailbox holds at most one message for a vertex: the first, in the order of messages, of all that
were posted to it. Posting the messages of one mailbox to another keeps this, so the two stages of
combining, by sender and at the barrier, leave the same message as one stage would.
-/

namespace BulkPaths

open PathWeight Message

section Addressed

variable {W : Type}

/-- The messages for one vertex, in the order of sending. -/
def addressed (v : VertexId) (sent : List (Outbound W)) : List (Message W) :=
  sent.filterMap fun out => if out.recipient = v then some out.message else none

theorem mem_addressed {v : VertexId} {sent : List (Outbound W)} {m : Message W} :
    m ∈ addressed v sent ↔ { recipient := v, message := m } ∈ sent := by
  simp only [addressed, List.mem_filterMap]
  constructor
  · rintro ⟨⟨recipient, message⟩, hout, hm⟩
    split at hm
    case isTrue hrecipient =>
      cases hm
      cases hrecipient
      exact hout
    case isFalse => cases hm
  · intro hout
    exact ⟨_, hout, if_pos rfl⟩

theorem addressed_append (v : VertexId) (sent more : List (Outbound W)) :
    addressed v (sent ++ more) = addressed v sent ++ addressed v more :=
  List.filterMap_append

end Addressed

namespace Mailbox

variable {W : Type} [PathWeight W]

theorem get?_post (box : Mailbox W) (recipient v : VertexId) (m : Message W) :
    Assoc.get? v (box.post recipient m) =
      if v = recipient then some (combineInto (Assoc.get? v box) m) else Assoc.get? v box := by
  rw [post, Assoc.get?_put]
  split
  case isTrue h => rw [h]
  case isFalse => rfl

theorem nodup_keys_post {box : Mailbox W} (h : (Assoc.keys box).Nodup) (recipient : VertexId)
    (m : Message W) : (Assoc.keys (box.post recipient m)).Nodup :=
  Assoc.nodup_keys_put _ _ h

def postAll (box : Mailbox W) (sent : List (Outbound W)) : Mailbox W :=
  sent.foldl (fun box out => box.post out.recipient out.message) box

def absorb (box other : Mailbox W) : Mailbox W :=
  other.foldl (fun box entry => box.post entry.1 entry.2) box

theorem get?_absorb (box : Mailbox W) {other : Mailbox W} (hdistinct : (Assoc.keys other).Nodup)
    (v : VertexId) :
    Assoc.get? v (box.absorb other) =
      match Assoc.get? v other with
      | none => Assoc.get? v box
      | some m => some (combineInto (Assoc.get? v box) m) := by
  induction other generalizing box with
  | nil => rfl
  | cons entry rest ih =>
      obtain ⟨recipient, m⟩ := entry
      rw [Assoc.keys, List.map_cons, List.nodup_cons] at hdistinct
      have hstep := ih (box.post recipient m) hdistinct.2
      rw [show box.absorb ((recipient, m) :: rest) = (box.post recipient m).absorb rest from rfl,
        hstep, get?_post]
      by_cases hv : recipient = v
      · subst hv
        simp [Assoc.get?, Assoc.get?_eq_none hdistinct.1]
      · simp [Assoc.get?, hv, Ne.symm hv]

theorem nodup_keys_absorb {box : Mailbox W} (h : (Assoc.keys box).Nodup) (other : Mailbox W) :
    (Assoc.keys (box.absorb other)).Nodup := by
  induction other generalizing box with
  | nil => exact h
  | cons entry rest ih => exact ih (nodup_keys_post h entry.1 entry.2)

theorem nodup_keys_postAll {box : Mailbox W} (h : (Assoc.keys box).Nodup)
    (sent : List (Outbound W)) : (Assoc.keys (box.postAll sent)).Nodup := by
  induction sent generalizing box with
  | nil => exact h
  | cons out sent ih => exact ih (nodup_keys_post h out.recipient out.message)

/-- The mailbox holds what is left of the messages that were sent to each vertex. -/
def Holds (box : Mailbox W) (sent : List (Outbound W)) : Prop :=
  ∀ v, Collects (addressed v sent) (Assoc.get? v box)

theorem holds_nil : Holds ([] : Mailbox W) [] := fun _ => .nil

theorem Holds.exists_sent {box : Mailbox W} {sent : List (Outbound W)} (h : box.Holds sent)
    (hdistinct : (Assoc.keys box).Nodup) {v : VertexId} (hv : v ∈ Assoc.keys box) :
    ∃ out ∈ sent, out.recipient = v := by
  obtain ⟨⟨recipient, m⟩, hentry, rfl⟩ := List.mem_map.mp hv
  have hcollects := h recipient
  rw [Assoc.get?_of_mem hdistinct hentry] at hcollects
  exact ⟨_, mem_addressed.mp hcollects.mem_of_some, rfl⟩

def SentProper (sent : List (Outbound W)) : Prop := ∀ out ∈ sent, Proper out.message.weight

theorem SentProper.addressed {sent : List (Outbound W)} (h : SentProper sent) (v : VertexId) :
    AllProper (addressed v sent) := fun _ hm => h _ (mem_addressed.mp hm)

theorem SentProper.append {sent more : List (Outbound W)} (hsent : SentProper sent)
    (hmore : SentProper more) : SentProper (sent ++ more) := fun out hout =>
  (List.mem_append.mp hout).elim (hsent out) (hmore out)

/-- One mailbox out of several lots of messages, each combined by itself first. -/
def collect (lots : List (List (Outbound W))) : Mailbox W :=
  lots.foldl (fun box lot => absorb box (postAll [] lot)) []

theorem nodup_keys_collect (lots : List (List (Outbound W))) :
    (Assoc.keys (collect lots)).Nodup := by
  suffices hfrom : ∀ box : Mailbox W, (Assoc.keys box).Nodup →
      (Assoc.keys (lots.foldl (fun box lot => absorb box (postAll [] lot)) box)).Nodup from
    hfrom [] .nil
  intro box hbox
  induction lots generalizing box with
  | nil => exact hbox
  | cons lot lots ih => exact ih _ (nodup_keys_absorb hbox _)

variable [LawfulPathWeight W]

theorem Holds.post {box : Mailbox W} {sent : List (Outbound W)} {out : Outbound W}
    (hbox : box.Holds sent) (hsent : SentProper sent) (hout : Proper out.message.weight) :
    (box.post out.recipient out.message).Holds (sent ++ [out]) := by
  intro v
  rw [get?_post, addressed_append]
  split
  case isTrue h =>
    subst h
    have hone : Collects (BulkPaths.addressed out.recipient [out]) (some out.message) := by
      simpa [BulkPaths.addressed] using Collects.singleton hout
    refine (hbox out.recipient).combineInto (hsent.addressed _) ?_ hone
    simpa [BulkPaths.addressed, AllProper] using hout
  case isFalse h =>
    have hnone : BulkPaths.addressed v [out] = [] := by simp [BulkPaths.addressed, Ne.symm h]
    rw [hnone, List.append_nil]
    exact hbox v

theorem Holds.postAll {box : Mailbox W} {sent more : List (Outbound W)} (hbox : box.Holds sent)
    (hsent : SentProper sent) (hmore : SentProper more) :
    (box.postAll more).Holds (sent ++ more) := by
  induction more generalizing box sent with
  | nil =>
      rw [List.append_nil]
      exact hbox
  | cons out more ih =>
      have hout : Proper out.message.weight := hmore out List.mem_cons_self
      have hone : SentProper [out] := by
        intro other hother
        rw [List.mem_singleton.mp hother]
        exact hout
      have hrest := ih (hbox.post hsent hout) (hsent.append hone) fun other hother =>
        hmore other (List.mem_cons_of_mem _ hother)
      rwa [List.append_assoc, List.singleton_append] at hrest

theorem Holds.absorb {box other : Mailbox W} {sent more : List (Outbound W)}
    (hbox : box.Holds sent) (hother : other.Holds more) (hsent : SentProper sent)
    (hmore : SentProper more) (hdistinct : (Assoc.keys other).Nodup) :
    (box.absorb other).Holds (sent ++ more) := by
  intro v
  rw [get?_absorb box hdistinct, addressed_append]
  have hv := hother v
  cases hget : Assoc.get? v other with
  | none =>
      rw [hget] at hv
      rw [hv.eq_nil_of_none, List.append_nil]
      exact hbox v
  | some m =>
      rw [hget] at hv
      exact (hbox v).combineInto (hsent.addressed v) (hmore.addressed v) hv

theorem holds_collect {lots : List (List (Outbound W))} (hlots : ∀ lot ∈ lots, SentProper lot) :
    (collect lots).Holds lots.flatten := by
  suffices hfrom : ∀ (box : Mailbox W) (sent : List (Outbound W)), box.Holds sent →
      SentProper sent →
      Holds (lots.foldl (fun box lot => absorb box (postAll [] lot)) box)
        (sent ++ lots.flatten) from
    hfrom [] [] holds_nil fun _ hout => absurd hout List.not_mem_nil
  intro box sent hbox hsent
  induction lots generalizing box sent with
  | nil =>
      rw [List.flatten_nil, List.append_nil]
      exact hbox
  | cons lot lots ih =>
      have hlot : SentProper lot := hlots lot List.mem_cons_self
      have hown : Holds (postAll [] lot) lot := by
        have h := holds_nil.postAll (fun _ hout => absurd hout List.not_mem_nil) hlot
        rwa [List.nil_append] at h
      have hempty : (Assoc.keys ([] : Mailbox W)).Nodup := .nil
      have hjoined := hbox.absorb hown hsent hlot (nodup_keys_postAll hempty lot)
      have hrest := ih (fun other hother => hlots other (List.mem_cons_of_mem _ hother)) _ _
        hjoined (hsent.append hlot)
      rwa [List.append_assoc, ← List.flatten_cons] at hrest

end Mailbox

end BulkPaths
