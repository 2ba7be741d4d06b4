import BulkPaths.Multigraph
import Mathlib.Data.List.Perm.Basic
import Mathlib.Data.List.Range

/-!
# Links and their listing

The listing of a directed multigraph goes from node to node and there from neighbour to neighbour,
so it brings the links into another order. None is lost and none comes twice, because every link is
listed at its tail under its head, and parallel links stay in the order in which they were made.
Links under automatic keys never meet: the next key is the number of links that are there.
-/

namespace BulkPaths

section Lists

variable {α κ : Type} [DecidableEq κ]

/-- Items that are gathered key by key are the same items. -/
theorem flatMap_filter_perm (f : α → κ) {keys : List κ} (hkeys : keys.Nodup) {items : List α}
    (hcover : ∀ a ∈ items, f a ∈ keys) :
    (keys.flatMap fun k => items.filter fun a => f a = k).Perm items := by
  induction keys generalizing items with
  | nil =>
      have hempty : items = [] :=
        List.eq_nil_iff_forall_not_mem.mpr fun a ha => List.not_mem_nil (hcover a ha)
      rw [hempty]
      exact .nil
  | cons k keys ih =>
      obtain ⟨hnew, hkeys⟩ := List.nodup_cons.mp hkeys
      -- the later keys find their items among those that are not under the first key
      have hlater : (keys.flatMap fun key => items.filter fun a => f a = key) =
          keys.flatMap fun key => (items.filter fun a => ¬f a = k).filter fun a => f a = key := by
        apply List.flatMap_congr
        intro key hkey
        rw [List.filter_filter]
        apply List.filter_congr
        intro a _
        by_cases ha : f a = key
        · have hne : f a ≠ k := by
            rintro rfl
            exact hnew (ha ▸ hkey)
          simp [ha, ha ▸ hne]
        · simp [ha]
      have hrest : ∀ a ∈ items.filter fun a => ¬f a = k, f a ∈ keys := by
        intro a ha
        obtain ⟨hmem, hne⟩ := List.mem_filter.mp ha
        exact (List.mem_cons.mp (hcover a hmem)).resolve_left (of_decide_eq_true hne)
      rw [List.flatMap_cons, hlater]
      refine ((ih hkeys hrest).append_left _).trans ?_
      simpa using List.filter_append_perm (fun a => decide (f a = k)) items

omit [DecidableEq κ] in
/-- What only one key has is found under that key. -/
theorem filter_flatMap_of_mem {p : α → Bool} {F : κ → List α} {keys : List κ} (hkeys : keys.Nodup)
    {k : κ} (hk : k ∈ keys) (hother : ∀ key ∈ keys, key ≠ k → (F key).filter p = []) :
    (keys.flatMap F).filter p = (F k).filter p := by
  induction keys with
  | nil => cases hk
  | cons key keys ih =>
      obtain ⟨hnew, hkeys⟩ := List.nodup_cons.mp hkeys
      rw [List.flatMap_cons, List.filter_append]
      rcases List.mem_cons.mp hk with rfl | hlater
      · have hnone : (keys.flatMap F).filter p = [] := by
          rw [List.filter_flatMap, List.flatMap_eq_nil_iff]
          intro key hkey
          exact hother key (List.mem_cons_of_mem _ hkey) fun heq => hnew (heq ▸ hkey)
        rw [hnone, List.append_nil]
      · have hne : key ≠ k := fun heq => hnew (heq ▸ hlater)
        rw [hother key List.mem_cons_self hne, List.nil_append,
          ih hkeys hlater fun key hkey => hother key (List.mem_cons_of_mem _ hkey)]

end Lists

theorem Value.int_beq_int (m n : Int) : (Value.int m == Value.int n) = (m == n) := rfl

namespace Multigraph

section Listing

variable {N : Type} [DecidableEq N] {m : Multigraph N} {a b : N}

theorem between_eq (hdirected : m.directed = true) (a b : N) :
    m.between a b = m.links.filter fun link => link.tail = a ∧ link.head = b := by
  unfold between leads
  apply List.filter_congr
  intro link _
  simp [hdirected, beq_eq_decide]

/-- Neighbours that were seen keep their places, and every other one comes once. -/
theorem foldl_unseen (others seen : List N) (hseen : seen.Nodup) :
    (others.foldl (fun seen other => if seen.contains other then seen else seen ++ [other])
        seen).Nodup ∧
      ∀ x, x ∈ others.foldl
        (fun seen other => if seen.contains other then seen else seen ++ [other]) seen ↔
          x ∈ seen ∨ x ∈ others := by
  induction others generalizing seen with
  | nil => simp [hseen]
  | cons other others ih =>
      rw [List.foldl_cons]
      by_cases hmem : other ∈ seen
      · rw [if_pos (List.contains_iff_mem.mpr hmem)]
        refine ⟨(ih seen hseen).1, fun x => ?_⟩
        rw [(ih seen hseen).2, List.mem_cons]
        constructor
        · rintro (hold | hlater)
          · exact .inl hold
          · exact .inr (.inr hlater)
        · rintro (hold | rfl | hlater)
          · exact .inl hold
          · exact .inl hmem
          · exact .inr hlater
      · rw [if_neg (mt List.contains_iff_mem.mp hmem)]
        have hnext : (seen ++ [other]).Nodup := by
          simpa [List.nodup_append, hseen] using fun a ha (heq : a = other) => hmem (heq ▸ ha)
        refine ⟨(ih _ hnext).1, fun x => ?_⟩
        rw [(ih _ hnext).2, List.mem_append, List.mem_singleton, List.mem_cons, or_assoc]

theorem nodup_neighbours (m : Multigraph N) (a : N) : (m.neighbours a).Nodup :=
  (foldl_unseen _ [] .nil).1

theorem mem_neighbours (hdirected : m.directed = true) :
    b ∈ m.neighbours a ↔ ∃ link ∈ m.links, link.tail = a ∧ link.head = b := by
  unfold neighbours
  rw [(foldl_unseen _ [] .nil).2, List.mem_filterMap]
  constructor
  · rintro (hnone | ⟨link, hlink, hend⟩)
    · cases hnone
    · refine ⟨link, hlink, ?_⟩
      unfold otherEnd? at hend
      by_cases htail : link.tail = a
      · rw [if_pos (beq_iff_eq.mpr htail)] at hend
        exact ⟨htail, Option.some.inj hend⟩
      · rw [if_neg (mt beq_iff_eq.mp htail)] at hend
        simp [hdirected] at hend
  · rintro ⟨link, hlink, htail, hhead⟩
    refine .inr ⟨link, hlink, ?_⟩
    rw [otherEnd?, if_pos (beq_iff_eq.mpr htail), hhead]

/-- The links from one node to another, listed under these ends, are as they were made. -/
theorem listed_between (hdirected : m.directed = true) (a b : N) :
    (m.between a b).map (fun link => { link with tail := a, head := b }) =
      m.links.filter fun link => link.tail = a ∧ link.head = b := by
  rw [between_eq hdirected]
  refine (List.map_congr_left fun link hlink => ?_).trans (List.map_id _)
  obtain ⟨rfl, rfl⟩ := of_decide_eq_true (List.mem_filter.mp hlink).2
  rfl

/-- The links that leave a node, neighbour by neighbour. -/
def leaving (m : Multigraph N) (a : N) : List (Link N) :=
  (m.neighbours a).flatMap fun b => m.links.filter fun link => link.tail = a ∧ link.head = b

theorem listing_eq (hdirected : m.directed = true) : m.listing = m.nodes.flatMap m.leaving := by
  unfold listing
  suffices hfrom : ∀ nodes seen, m.listFrom seen nodes = nodes.flatMap m.leaving from
    hfrom m.nodes []
  intro nodes
  induction nodes with
  | nil => exact fun _ => rfl
  | cons node rest ih =>
      intro seen
      have hall : (m.neighbours node).filter (fun other => m.directed || !seen.contains other) =
          m.neighbours node := List.filter_eq_self.mpr fun _ _ => by rw [hdirected, Bool.true_or]
      rw [listFrom, ih, List.flatMap_cons, hall]
      simp only [listed_between hdirected, leaving]

theorem leaving_perm (hdirected : m.directed = true) (a : N) :
    (m.leaving a).Perm (m.links.filter fun link => link.tail = a) := by
  have hheads : ∀ link ∈ m.links.filter fun link => link.tail = a,
      link.head ∈ m.neighbours a := by
    intro link hlink
    obtain ⟨hmem, htail⟩ := List.mem_filter.mp hlink
    exact (mem_neighbours hdirected).mpr ⟨link, hmem, of_decide_eq_true htail, rfl⟩
  have hgathered := flatMap_filter_perm Link.head (m.nodup_neighbours a) hheads
  refine (List.Perm.of_eq ?_).trans hgathered
  unfold leaving
  apply List.flatMap_congr
  intro b _
  rw [List.filter_filter]
  apply List.filter_congr
  intro link _
  rw [Bool.decide_and, Bool.and_comm]

/-- Every link is listed once. -/
theorem listing_perm (hdirected : m.directed = true) (hnodes : m.nodes.Nodup)
    (hends : ∀ link ∈ m.links, link.tail ∈ m.nodes) : m.listing.Perm m.links := by
  rw [listing_eq hdirected]
  have hleaving : (m.nodes.flatMap m.leaving).Perm
      (m.nodes.flatMap fun a => m.links.filter fun link => link.tail = a) :=
    List.Perm.flatMap_left _ fun a _ => leaving_perm hdirected a
  exact hleaving.trans (flatMap_filter_perm Link.tail hnodes hends)

/-- Parallel links are listed in the order in which they were made. -/
theorem filter_listing (hdirected : m.directed = true) (hnodes : m.nodes.Nodup)
    (hends : ∀ link ∈ m.links, link.tail ∈ m.nodes) (a b : N) :
    (m.listing.filter fun link => link.tail = a ∧ link.head = b) =
      m.links.filter fun link => link.tail = a ∧ link.head = b := by
  by_cases hlinked : ∃ link ∈ m.links, link.tail = a ∧ link.head = b
  · have hneighbour := (mem_neighbours hdirected).mpr hlinked
    obtain ⟨link, hlink, htail, -⟩ := hlinked
    have hnode : a ∈ m.nodes := htail ▸ hends link hlink
    rw [listing_eq hdirected, filter_flatMap_of_mem hnodes hnode, leaving,
      filter_flatMap_of_mem (m.nodup_neighbours a) hneighbour, List.filter_filter]
    · simp
    · intro other _ hne
      rw [List.filter_filter, List.filter_eq_nil_iff]
      intro link _
      simp only [Bool.decide_and, Bool.and_eq_true, decide_eq_true_eq]
      exact fun hboth => hne (hboth.2.2.symm.trans hboth.1.2)
    · intro node _ hne
      unfold leaving
      rw [List.filter_flatMap, List.flatMap_eq_nil_iff]
      intro other _
      rw [List.filter_filter, List.filter_eq_nil_iff]
      intro link _
      simp only [Bool.decide_and, Bool.and_eq_true, decide_eq_true_eq]
      exact fun hboth => hne (hboth.2.1.symm.trans hboth.1.1)
  · have hnone : (m.links.filter fun link => link.tail = a ∧ link.head = b) = [] := by
      rw [List.filter_eq_nil_iff]
      intro link hlink hboth
      exact hlinked ⟨link, hlink, of_decide_eq_true hboth⟩
    have hperm := (listing_perm hdirected hnodes hends).filter
      fun link => decide (link.tail = a ∧ link.head = b)
    rw [hnone] at hperm ⊢
    exact hperm.eq_nil

end Listing

section Numbering

variable {N : Type} [DecidableEq N] {m : Multigraph N} {a b : N}

/-- The links from one node to another have the keys 0, 1, … in the order in which they were made.
-/
def Numbered (m : Multigraph N) (a b : N) : Prop :=
  (m.between a b).map Link.key = (List.range (m.between a b).length).map fun n : Nat => Value.int n

theorem Numbered.exists_key {link : Link N} (h : m.Numbered a b) (hlink : link ∈ m.between a b) :
    ∃ n < (m.between a b).length, link.key = .int n := by
  have hkey : link.key ∈ (m.between a b).map Link.key := List.mem_map_of_mem hlink
  rw [h, List.mem_map] at hkey
  obtain ⟨n, hn, heq⟩ := hkey
  exact ⟨n, List.mem_range.mp hn, heq.symm⟩

theorem freshKey_of_not_contains {keys : List Value} {count : Nat}
    (h : keys.contains (.int count) = false) (fuel : Nat) :
    freshKey keys fuel count = .int count := by
  cases fuel with
  | zero => rfl
  | succ fuel => rw [freshKey, h, if_neg Bool.false_ne_true]

theorem addNode_of_mem (ha : a ∈ m.nodes) : m.addNode a = m :=
  if_pos (List.contains_iff_mem.mpr ha)

/-- The multigraph with one link more. -/
def appended (m : Multigraph N) (link : Link N) : Multigraph N :=
  { m with links := m.links ++ [link] }

/-- The link that comes after those from one node to another. -/
def next (m : Multigraph N) (a b : N) (properties : Properties) : Link N :=
  { tail := a, head := b, key := .int (m.between a b).length, properties }

theorem between_appended_next (hdirected : m.directed = true) (properties : Properties) :
    (m.appended (m.next a b properties)).between a b =
      m.between a b ++ [m.next a b properties] := by
  rw [between_eq hdirected, between_eq (by exact hdirected), appended, List.filter_append]
  simp [next]

/-- The multigraph with other links in the places of its own. -/
def updated (m : Multigraph N) (update : Link N → Link N) : Multigraph N :=
  { m with links := m.links.map update }

namespace Numbered

theorem keyFor (h : m.Numbered a b) (hparallel : m.parallel = true) :
    m.keyFor a b .null = .int (m.between a b).length := by
  have hfresh : ((m.between a b).map Link.key).contains (.int (m.between a b).length) = false := by
    rw [List.contains_eq_any_beq, List.any_map, List.any_eq_false]
    intro link hlink
    obtain ⟨n, hn, heq⟩ := h.exists_key hlink
    rw [Function.comp_apply, heq, Value.int_beq_int, beq_iff_eq, Int.natCast_inj]
    exact hn.ne'
  simp only [Multigraph.keyFor, hparallel, Bool.not_true, Bool.false_eq_true, if_false]
  rw [List.length_map]
  exact freshKey_of_not_contains hfresh _

/-- Without a key of its own a link is a new one. -/
theorem link (h : m.Numbered a b) (hparallel : m.parallel = true) (ha : a ∈ m.nodes)
    (hb : b ∈ m.nodes) (properties : Properties) :
    m.link a b .null properties = m.appended (m.next a b properties) := by
  have hfresh : (m.links.any fun link =>
      m.leads a b link && link.key == .int (m.between a b).length) = false := by
    rw [List.any_eq_false]
    intro link hlink hsame
    obtain ⟨hleads, hkey⟩ := Bool.and_eq_true_iff.mp hsame
    obtain ⟨n, hn, heq⟩ := h.exists_key (List.mem_filter.mpr ⟨hlink, hleads⟩)
    rw [heq, Value.int_beq_int, beq_iff_eq, Int.natCast_inj] at hkey
    exact hn.ne hkey
  unfold Multigraph.link
  simp only [addNode_of_mem ha, addNode_of_mem hb, h.keyFor hparallel, hfresh, Bool.false_eq_true,
    if_false]
  rfl

theorem appended (h : m.Numbered a b) (hdirected : m.directed = true) (properties : Properties) :
    (m.appended (m.next a b properties)).Numbered a b := by
  unfold Numbered at h ⊢
  rw [between_appended_next hdirected, List.map_append, h, List.length_append,
    List.length_singleton, List.range_succ, List.map_append]
  rfl

end Numbered

variable {key : Value} {properties : Properties}

/-- Between nodes that are there a link is one more or adds its properties to another's. -/
theorem link_cases (ha : a ∈ m.nodes) (hb : b ∈ m.nodes) :
    (∃ key', m.link a b key properties =
      m.appended { tail := a, head := b, key := key', properties }) ∨
    ∃ update : Link N → Link N,
      (∀ link, update link = link ∨ m.leads a b link = true ∧ update link =
        { link with properties := Assoc.merge link.properties properties }) ∧
      m.link a b key properties = m.updated update := by
  unfold link
  simp only [addNode_of_mem ha, addNode_of_mem hb]
  split
  · refine .inr ⟨_, fun link => ?_, rfl⟩
    split
    case isTrue hsame => exact .inr ⟨(Bool.and_eq_true_iff.mp hsame).1, rfl⟩
    case isFalse => exact .inl rfl
  · exact .inl ⟨_, rfl⟩

theorem between_updated {update : Link N → Link N} (hdirected : m.directed = true)
    (hends : ∀ link, (update link).tail = link.tail ∧ (update link).head = link.head)
    (hsame : ∀ link, link.tail = a → link.head = b → update link = link) :
    (m.updated update).between a b = m.between a b := by
  rw [between_eq (by exact hdirected), between_eq hdirected, updated, List.filter_map]
  refine (List.map_congr_left fun link hlink => ?_).trans ((List.map_id _).trans ?_)
  · have hthere := of_decide_eq_true (List.mem_filter.mp hlink).2
    rw [(hends link).1, (hends link).2] at hthere
    exact hsame link hthere.1 hthere.2
  · apply List.filter_congr
    intro link _
    simp only [Function.comp_apply, hends]

end Numbering

end Multigraph

section Renaming

variable {N M : Type} {f : N → M}

def Link.map (f : N → M) (link : Link N) : Link M :=
  { link with tail := f link.tail, head := f link.head }

/-- The multigraph with other names for its nodes. -/
def Multigraph.map (f : N → M) (m : Multigraph N) : Multigraph M :=
  { m with nodes := m.nodes.map f, links := m.links.map (Link.map f) }

namespace Multigraph

theorem links_map (m : Multigraph N) : (m.map f).links = m.links.map (Link.map f) := rfl

variable [BEq N] [BEq M] (hf : ∀ a b, (f a == f b) = (a == b)) (m : Multigraph N)

include hf

theorem contains_map (nodes : List N) (a : N) :
    (nodes.map f).contains (f a) = nodes.contains a := by
  rw [List.contains_eq_any_beq, List.any_map, List.contains_eq_any_beq]
  exact congrArg nodes.any (funext (hf a))

theorem map_addNode (a : N) : (m.map f).addNode (f a) = (m.addNode a).map f := by
  unfold addNode
  rw [map, contains_map hf]
  split
  · rfl
  · simp [map]

theorem leads_map (a b : N) (link : Link N) :
    (m.map f).leads (f a) (f b) (link.map f) = m.leads a b link := by
  simp only [leads, map, Link.map, hf]

theorem between_map (a b : N) :
    (m.map f).between (f a) (f b) = (m.between a b).map (Link.map f) := by
  unfold between
  rw [links_map, List.filter_map]
  exact congrArg _ (congrArg (List.filter · m.links) (funext (leads_map hf m a b)))

theorem keyFor_map (a b : N) (key : Value) :
    (m.map f).keyFor (f a) (f b) key = m.keyFor a b key := by
  unfold keyFor
  rw [between_map hf, List.map_map]
  rfl

theorem map_link (a b : N) (key : Value) (properties : Properties) :
    (m.map f).link (f a) (f b) key properties = (m.link a b key properties).map f := by
  unfold link
  simp only [map_addNode hf, keyFor_map hf]
  generalize (m.addNode a).addNode b = m
  generalize m.keyFor a b key = key
  have hsame : ∀ link : Link N, ((m.map f).leads (f a) (f b) (link.map f) &&
      (link.map f).key == key) = (m.leads a b link && link.key == key) := fun link => by
    rw [leads_map hf]
    rfl
  have hany : ((m.map f).links.any fun link =>
        (m.map f).leads (f a) (f b) link && link.key == key) =
      m.links.any fun link => m.leads a b link && link.key == key := by
    rw [links_map, List.any_map]
    exact congrArg m.links.any (funext hsame)
  rw [hany]
  split
  · have hmerged : ((m.map f).links.map fun link =>
          if (m.map f).leads (f a) (f b) link && link.key == key then
            { link with properties := Assoc.merge link.properties properties } else link) =
        (m.links.map fun link => if m.leads a b link && link.key == key then
          { link with properties := Assoc.merge link.properties properties } else link).map
          (Link.map f) := by
      rw [links_map, List.map_map, List.map_map]
      apply List.map_congr_left
      intro link _
      simp only [Function.comp_apply, hsame]
      split <;> rfl
    exact congrArg (fun links => { m.map f with links }) hmerged
  · simp [map, Link.map]

theorem otherEnd?_map (a : N) (link : Link N) :
    (m.map f).otherEnd? (f a) (link.map f) = (m.otherEnd? a link).map f := by
  simp only [otherEnd?, map, Link.map, hf]
  split
  · rfl
  · split <;> rfl

theorem neighbours_map (a : N) : (m.map f).neighbours (f a) = (m.neighbours a).map f := by
  have hends : (m.map f).links.filterMap ((m.map f).otherEnd? (f a)) =
      (m.links.filterMap (m.otherEnd? a)).map f := by
    rw [links_map, List.filterMap_map, List.map_filterMap]
    exact congrArg (List.filterMap · m.links) (funext (otherEnd?_map hf m a))
  suffices hfrom : ∀ others seen : List N,
      (others.map f).foldl (fun seen other => if seen.contains other then seen else seen ++ [other])
          (seen.map f) =
        (others.foldl (fun seen other => if seen.contains other then seen else seen ++ [other])
          seen).map f by
    unfold neighbours
    rw [hends]
    exact hfrom _ []
  intro others
  induction others with
  | nil => exact fun _ => rfl
  | cons other others ih =>
      intro seen
      rw [List.map_cons, List.foldl_cons, List.foldl_cons, contains_map hf, ← ih]
      split <;> simp

theorem listFrom_map (seen nodes : List N) :
    (m.map f).listFrom (seen.map f) (nodes.map f) = (m.listFrom seen nodes).map (Link.map f) := by
  induction nodes generalizing seen with
  | nil => rfl
  | cons node rest ih =>
      have hothers : ((m.map f).neighbours (f node)).filter (fun other =>
            (m.map f).directed || !(seen.map f).contains other) =
          ((m.neighbours node).filter fun other => m.directed || !seen.contains other).map f := by
        rw [neighbours_map hf, List.filter_map]
        apply congrArg
        apply List.filter_congr
        intro other _
        rw [Function.comp_apply, contains_map hf]
        rfl
      simp only [List.map_cons, listFrom, hothers, List.map_append, List.map_flatMap,
        List.flatMap_map, between_map hf, List.map_map]
      rw [← ih, List.map_cons]
      rfl

/-- Renamed nodes do not change what is listed. -/
theorem listing_map : (m.map f).listing = m.listing.map (Link.map f) :=
  listFrom_map hf m [] m.nodes

end Multigraph

end Renaming

end BulkPaths
