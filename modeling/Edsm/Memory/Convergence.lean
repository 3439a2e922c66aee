import Edsm.Library.Reachability
import Edsm.Memory.Network

/-!
# Regions with one writer for each byte

All nodes have joined the region and share no byte that two of them write to,
though they may share its page.  The channels are reliable and in order.
-/

namespace Edsm.Memory

structure Cluster extends Network where
  /-- The last value stored to each byte; no function reads this field. -/
  written : ℕ → UInt8

namespace Cluster

inductive Action
  | txBegin (p : UInt32) (addr : ℕ)
  | store (p : UInt32) (addr : ℕ) (value : UInt8)
  /-- The diff is taken and sent to every peer. -/
  | txEnd (p : UInt32) (all : Bool)
  | receive (q p : UInt32)
  | handlePage (p : UInt32)

def step (G : Group) (A : Allocator) (pagesize : ℕ) (owner : ℕ → UInt32) (s : Cluster) :
    Action → Option Cluster
  | .txBegin p addr =>
      if p ∈ G.ids then
        ((s.node p).txBegin pagesize addr).map fun r ↦ { s with toNetwork := s.setNode p r }
      else none
  | .store p addr value =>
      if p ∈ G.ids ∧ owner addr = p then
        ((s.node p).store pagesize addr value).map fun r ↦
          { s.setNode p r with written := Function.update s.written addr value }
      else none
  | .txEnd p all =>
      if p ∈ G.ids then
        ((s.node p).txEnd A pagesize all).map fun (r, payload) ↦
          { s with
            node := Function.update s.node p r
            net := s.net.multicast p (G.peers p) ((s.node p).frames pagesize payload) }
      else none
  | .receive q p =>
      (s.net.receive q p).bind fun (f, net) ↦
        ((s.node p).receive f.payload f.pages).map fun r ↦
          { s with
            node := Function.update s.node p r
            sender := Function.update s.sender p q
            net }
  | .handlePage p =>
      ((s.node p).handlePage pagesize).map fun r ↦ { s with toNetwork := s.setNode p r }

end Cluster

/-- The runs from the joined and zeroed region on. -/
def cluster (G : Group) (A : Allocator) (pagesize : ℕ) (region : Region) (owner : ℕ → UInt32) :
    LabelledSystem Cluster Cluster.Action where
  init := { Network.initial region with written := fun _ ↦ 0 }
  step := Cluster.step G A pagesize owner

namespace Cluster

/-- No diff is sent one of whose numbers does not fit into its field. -/
def FieldsFit (pagesize : ℕ) (s : Cluster) : Action → Prop
  | .txEnd p _ => ∀ d ∈ (s.node p).region.pageDiffs pagesize, d.Fits
  | _ => True

instance (pagesize : ℕ) (s : Cluster) (a : Action) : Decidable (s.FieldsFit pagesize a) :=
  match a with
  | .txEnd p _ => inferInstanceAs (Decidable (∀ d ∈ (s.node p).region.pageDiffs pagesize, d.Fits))
  | .txBegin .. | .store .. | .receive .. | .handlePage .. => inferInstanceAs (Decidable True)

/-- Everything has been sent and handled. -/
structure Quiet (G : Group) (pagesize : ℕ) (s : Cluster) : Prop where
  net : ∀ p ∈ G.ids, ∀ q ∈ G.ids, s.net q p = []
  receiving : ∀ p ∈ G.ids, (s.node p).receiving = none
  same : ∀ p ∈ G.ids, ∀ twin ∈ (s.node p).region.twins, ∀ i < pagesize,
    (s.node p).region.page twin.originalPageHead i = twin.twinData i

instance (G : Group) (pagesize : ℕ) (s : Cluster) : Decidable (s.Quiet G pagesize) :=
  decidable_of_iff
    ((∀ p ∈ G.ids, ∀ q ∈ G.ids, s.net q p = []) ∧ (∀ p ∈ G.ids, (s.node p).receiving = none) ∧
      ∀ p ∈ G.ids, ∀ twin ∈ (s.node p).region.twins, ∀ i < pagesize,
        (s.node p).region.page twin.originalPageHead i = twin.twinData i)
    ⟨fun ⟨h₁, h₂, h₃⟩ ↦ ⟨h₁, h₂, h₃⟩, fun ⟨h₁, h₂, h₃⟩ ↦ ⟨h₁, h₂, h₃⟩⟩

structure Inv (G : Group) (pagesize size : ℕ) (owner : ℕ → UInt32) (s : Cluster) : Prop where
  sound : s.Sound G pagesize size
  outside : ∀ p, p ∉ G.ids → (s.node p).region.twins = []
  oneWriter : (s.view pagesize).OneWriter G.ids owner s.written

variable {G : Group} {A : Allocator} {pagesize size : ℕ} {owner : ℕ → UInt32}
variable {s s' : Cluster} {p q : UInt32} {r : Replica} {region : Region}

theorem inv_init (hget : regionGet pagesize size = some region) :
    (cluster G A pagesize region owner).init.Inv G pagesize region.size owner := by
  refine ⟨Network.sound_initial hget, fun _ _ ↦ Region.twins_regionGet hget, ?_⟩
  change ((Network.initial region).view pagesize).OneWriter _ _ _
  rw [Network.view_initial hget]
  exact ⟨fun _ _ _ ↦ rfl, fun _ ↦ rfl, fun _ _ _ _ _ hf ↦ absurd hf List.not_mem_nil,
    fun _ _ _ _ ↦ rfl⟩

/-- The application of a node outside the group does nothing. -/
theorem outside_setNode (h : s.Inv G pagesize size owner)
    (hr : p ∉ G.ids → r.region.twins = []) (q : UInt32) (hq : q ∉ G.ids) :
    ((s.setNode p r).node q).region.twins = [] :=
  Network.node_setNode s.toNetwork p r (fun q r ↦ q ∉ G.ids → r.region.twins = []) hr h.outside q hq

theorem inv_step (hpos : 0 < pagesize) (h : s.Inv G pagesize size owner) {a : Action}
    (ha : s.FieldsFit pagesize a) (hst : step G A pagesize owner s a = some s') :
    s'.Inv G pagesize size owner := by
  cases a with
  | txBegin p addr =>
      obtain ⟨hp, hst⟩ := Option.ite_none_right_eq_some.mp hst
      obtain ⟨r, hr, rfl⟩ := Option.map_eq_some_iff.mp hst
      have hwriter := h.oneWriter
      rw [← Network.view_txBegin hr] at hwriter
      exact ⟨h.sound.txBegin hr, outside_setNode h fun hnot ↦ absurd hp hnot, hwriter⟩
  | store p addr value =>
      obtain ⟨⟨hp, howner⟩, hst⟩ := Option.ite_none_right_eq_some.mp hst
      obtain ⟨r, hr, rfl⟩ := Option.map_eq_some_iff.mp hst
      have hwriter := h.oneWriter.write howner value
      rw [← Network.view_store h.sound hr] at hwriter
      exact ⟨h.sound.store hr, outside_setNode h fun hnot ↦ absurd hp hnot, hwriter⟩
  | txEnd p all =>
      obtain ⟨hp, hst⟩ := Option.ite_none_right_eq_some.mp hst
      obtain ⟨⟨r, payload⟩, hr, rfl⟩ := Option.map_eq_some_iff.mp hst
      have hnet := Channels.multicast_apply s.net p (G.peers_nodup p hp)
        ((s.node p).frames pagesize payload)
      have hwriter := h.oneWriter.publish (fun b hb hbp ↦ (G.mem_peers p hp b).mpr ⟨hb, hbp⟩)
        (Region.isDiff_pageDiffs (h.sound.valid p).wellFormed hpos)
      rw [← Network.view_txEnd h.sound ha hr hnet] at hwriter
      exact ⟨h.sound.txEnd ha hr hnet hp, outside_setNode h fun hnot ↦ absurd hp hnot, hwriter⟩
  | receive q p =>
      obtain ⟨⟨f, net⟩, hnet, hst⟩ := Option.bind_eq_some_iff.mp hst
      obtain ⟨r, hr, rfl⟩ := Option.map_eq_some_iff.mp hst
      obtain ⟨fs, hcons, rfl⟩ := Channels.receive_eq_some hnet
      have hwriter := h.oneWriter
      rw [← Network.view_receive h.sound hcons hr] at hwriter
      refine ⟨h.sound.receive hcons hr, outside_setNode h fun hnot ↦ ?_, hwriter⟩
      obtain ⟨msg, ts, head, rfl, -⟩ :=
        Replica.receive_eq_some (h.sound.frames q p f (by simp [hcons])) hr
      exact h.outside p hnot
  | handlePage p =>
      obtain ⟨r, hr, rfl⟩ := Option.map_eq_some_iff.mp hst
      have hsound := h.sound.handlePage hpos hr
      have houtside : p ∉ G.ids → r.region.twins = [] := by
        intro hnot
        rcases (h.sound.valid p).handlePage_cases hr with
          ⟨-, rfl⟩ | ⟨d, rest, msg, k, head, tail, -, rfl, -⟩
        · exact h.outside p hnot
        · simp [Region.twins_applyPage, h.outside p hnot]
      rcases Network.view_handlePage hpos h.sound hr with hview | ⟨d, rest, -, hcons, hview⟩
      · have hwriter := h.oneWriter
        rw [← hview] at hwriter
        exact ⟨hsound, outside_setNode h houtside, hwriter⟩
      · have hwriter := h.oneWriter.deliver hcons (h.sound.peer _ p (by simp [hcons])).2
        rw [← hview] at hwriter
        exact ⟨hsound, outside_setNode h houtside, hwriter⟩

theorem inv_of_reach (hget : regionGet pagesize size = some region)
    (h : (cluster G A pagesize region owner).Reach (FieldsFit pagesize) s) :
    s.Inv G pagesize region.size owner :=
  h.invariant (Inv G pagesize region.size owner) (inv_init hget) fun _ ih ha hst ↦
    inv_step (Region.wellFormed_regionGet hget).2.1 ih ha hst

end Cluster

/-- When everything has been sent and handled, every node has the last value that the
owner of a byte wrote. -/
theorem converged_of_fieldsFit {G : Group} {A : Allocator} {pagesize size : ℕ} {region : Region}
    {owner : ℕ → UInt32} {s : Cluster} (hget : regionGet pagesize size = some region)
    (h : (cluster G A pagesize region owner).Reach (Cluster.FieldsFit pagesize) s)
    (hquiet : s.Quiet G pagesize) : ∀ p ∈ G.ids, (s.node p).region.bytes = s.written := by
  intro p hp
  have hinv := Cluster.inv_of_reach hget h
  refine hinv.oneWriter.value_eq (fun q ↦ ?_) hp fun q ↦ ?_
  · by_cases hq : q ∈ G.ids
    · exact Region.base_eq_bytes (Region.wellFormed_regionGet hget).2.1 (hquiet.same q hq)
    · exact Region.base_of_twins_eq_nil (hinv.outside q hq)
  · by_contra hne
    have hq := (hinv.sound.peer q p hne).1
    have hrest : (s.node p).rest = [] := (hinv.sound.valid p).idle (hquiet.receiving p hp)
    exact hne (by simp [Network.view, Network.inFlight, hrest, hquiet.net p hp q hq])

/-- Two nodes write to one page at the same time; the diff of the first one reaches the
second one while its page has a twin. -/
theorem converged_of_fieldsFit_two_nodes :
    ∃ s : Cluster, (s.written 1 = 5 ∧ s.written 5 = 6) ∧
      ∀ p ∈ (Group.ofIds [1, 2] (by decide) (by decide)).ids,
        (s.node p).region.bytes = s.written := by
  let G : Group := .ofIds [1, 2] (by decide) (by decide)
  obtain ⟨s, hs, hp⟩ := LabelledSystem.exists_reach_of_exec
    (cluster G .zeroed 8 Region.twoPages fun i ↦ if i < 4 then 1 else 2) (Cluster.FieldsFit 8)
    [.txBegin 1 1, .store 1 1 5, .txBegin 2 5, .store 2 5 6, .txEnd 1 true, .receive 1 2,
      .handlePage 2, .handlePage 2, .txEnd 2 true, .receive 2 1, .handlePage 1, .handlePage 1]
    (fun s ↦ s.Quiet G 8 ∧ s.written 1 = 5 ∧ s.written 5 = 6) (by decide +kernel)
  obtain ⟨hquiet, hwritten⟩ := of_decide_eq_true hp
  exact ⟨s, hwritten, converged_of_fieldsFit Region.regionGet_twoPages hs hquiet⟩

/-- The offset of the last page is sent as 0: the value goes to another byte. -/
theorem not_converged :
    regionGet 4096 (2 ^ 32 + 4096) = some .huge ∧
    ∃ s : Cluster, (cluster (.ofIds [1, 2] (by decide) (by decide)) .zeroed 4096 .huge
        fun _ ↦ 1).Reachable s ∧
      s.Quiet (.ofIds [1, 2] (by decide) (by decide)) 4096 ∧
      (s.written (2 ^ 32) = 7 ∧ (s.node 2).region.bytes (2 ^ 32) = 0 ∧
        s.written 0 = 0 ∧ (s.node 2).region.bytes 0 = 7) ∧
      ¬ ∀ p ∈ (Group.ofIds [1, 2] (by decide) (by decide)).ids,
        (s.node p).region.bytes = s.written := by
  refine ⟨rfl, ?_⟩
  let G : Group := .ofIds [1, 2] (by decide) (by decide)
  obtain ⟨s, hs, hp⟩ := LabelledSystem.exists_reach_of_exec (cluster G .zeroed 4096 .huge fun _ ↦ 1)
    LabelledSystem.anyStep
    [.txBegin 1 (2 ^ 32), .store 1 (2 ^ 32) 7, .txEnd 1 true, .receive 1 2, .handlePage 2,
      .handlePage 2]
    (fun s ↦ s.Quiet G 4096 ∧ s.written (2 ^ 32) = 7 ∧ (s.node 2).region.bytes (2 ^ 32) = 0 ∧
      s.written 0 = 0 ∧ (s.node 2).region.bytes 0 = 7) (by decide +kernel)
  obtain ⟨hquiet, hbytes⟩ := of_decide_eq_true hp
  refine ⟨s, hs, hquiet, hbytes, fun hall ↦ ?_⟩
  have hzero := congrFun (hall 2 (by simp [Group.ofIds])) 0
  rw [hbytes.2.2.1, hbytes.2.2.2] at hzero
  cases hzero

end Edsm.Memory
