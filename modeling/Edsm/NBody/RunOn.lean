import Edsm.Utlist.Sort

/-!
# Where the threads of a simulation run

`get_run_on` of `test/nbody.c` in memory.  Where an argument of `LL_APPEND` is a call it is
made once for each place of the macro that names it.
-/

namespace Edsm.NBody

open LinkedList Utlist

/-- `edsm_proto_peer_id_create`; `malloc` says which place it gets. -/
def peerIdCreate (malloc : Heap UInt32 → ℕ) (heap : Heap UInt32) (peerId : UInt32) :
    Heap UInt32 × ℕ :=
  (heap.alloc (malloc heap) ⟨peerId, none⟩, malloc heap)

/-- `LL_APPEND` of a new cell: the first call gives the cell whose `next` is cleared, and the
second one the cell that is linked. -/
def appendNew (malloc : Heap UInt32 → ℕ) (heap : Heap UInt32) (head : Option ℕ)
    (peerId : UInt32) : Option (Heap UInt32 × Option ℕ) :=
  let (heap, _) := peerIdCreate malloc heap peerId
  let (heap, add) := peerIdCreate malloc heap peerId
  llAppend heap head add

/-- `edsm_proto_get_peer_ids` -/
def getPeerIds (malloc : Heap UInt32 → ℕ) (peers : List UInt32) (heap : Heap UInt32) :
    Option (Heap UInt32 × Option ℕ) :=
  peers.foldlM (fun (heap, output) peerId ↦ appendNew malloc heap output peerId) (heap, none)

/-- The body of the loop of `get_run_on`. -/
def runOnNode (malloc : Heap UInt32 → ℕ) (peers : List UInt32) (localId : UInt32)
    (heap : Heap UInt32) (output : Option ℕ) : Option (Heap UInt32 × Option ℕ) := do
  let (heap, ids) ← getPeerIds malloc peers heap
  let (heap, output) ← match ids with
    | none => some (heap, output)
    | some first => llAppend heap output first
  appendNew malloc heap output localId

def getRunOn (malloc : Heap UInt32 → ℕ) (peers : List UInt32) (localId : UInt32)
    (heap : Heap UInt32) : ℕ → Option (Heap UInt32 × Option ℕ)
  | 0 => some (heap, none)
  | i + 1 => (getRunOn malloc peers localId heap i).bind fun (heap, output) ↦
      runOnNode malloc peers localId heap output

/-- The ids in the list that `get_run_on` returns. -/
def runOn (peers : List UInt32) (localId : UInt32) (threadsPerNode : ℕ) : List UInt32 :=
  (List.replicate threadsPerNode (peers.head?.toList ++ [localId])).flatten

section Cells

variable {malloc : Heap UInt32 → ℕ} {heap heap' : Heap UInt32} {nodes : List (ℕ × UInt32)}
variable (hmalloc : ∀ heap : Heap UInt32, heap.read (malloc heap) = none)
include hmalloc

theorem peerIdCreate_spec (heap : Heap UInt32) (peerId : UInt32) :
    (peerIdCreate malloc heap peerId).1.read (peerIdCreate malloc heap peerId).2 =
        some ⟨peerId, none⟩ ∧
      heap.read (peerIdCreate malloc heap peerId).2 = none ∧
      ∀ q, heap.read q ≠ none → (peerIdCreate malloc heap peerId).1.read q = heap.read q := by
  refine ⟨Heap.read_alloc_self _ _ _, hmalloc heap, fun q hq ↦ Heap.read_alloc_ne ?_ _⟩
  rintro rfl
  exact hq (hmalloc heap)

/-- A new cell comes behind the others; cells that are not in the list do not change. -/
theorem appendNew_spec (h : Segment heap nodes none) (peerId : UInt32) :
    ∃ heap' p, appendNew malloc heap (first nodes none) peerId =
        some (heap', first (nodes ++ [(p, peerId)]) none) ∧
      Segment heap' (nodes ++ [(p, peerId)]) none ∧ heap.read p = none ∧
      ∀ q, q ∉ nodes.map Prod.fst → heap.read q ≠ none → heap'.read q = heap.read q := by
  obtain ⟨-, -, hlost⟩ := peerIdCreate_spec hmalloc heap peerId
  set heap₁ := (peerIdCreate malloc heap peerId).1
  obtain ⟨hself, hfree, hlinked⟩ := peerIdCreate_spec hmalloc heap₁ peerId
  set heap₂ := (peerIdCreate malloc heap₁ peerId).1
  set p := (peerIdCreate malloc heap₁ peerId).2
  have hkept : ∀ q, heap.read q ≠ none → heap₂.read q = heap.read q := by
    intro q hq
    rw [hlinked q (by rwa [hlost q hq]), hlost q hq]
  have hfresh : heap.read p = none := by
    by_contra hne
    rw [hlost p hne] at hfree
    exact hne hfree
  have hnodes : ∀ q ∈ nodes.map Prod.fst, heap.read q ≠ none := by
    intro q hq hnone
    obtain ⟨cell, hcell⟩ := h.read_of_mem hq
    rw [hcell] at hnone
    cases hnone
  have hapart : p ∉ nodes.map Prod.fst := fun hmem ↦ hnodes p hmem hfresh
  obtain ⟨heap', happend, hsegment, hframe⟩ :=
    llAppend_spec (h.frame fun q hq ↦ hkept q (hnodes q hq)) hself hapart
  refine ⟨heap', p, happend, hsegment, hfresh, fun q hq hne ↦ ?_⟩
  rw [hframe q (by rintro rfl; exact hne hfresh) hq, hkept q hne]

/-- The list of the peers is made of new cells, and no cell changes. -/
theorem getPeerIds_spec (peers : List UInt32) (heap : Heap UInt32) :
    ∃ heap' nodes, getPeerIds malloc peers heap = some (heap', first nodes none) ∧
      Segment heap' nodes none ∧ nodes.map Prod.snd = peers ∧
      (∀ p ∈ nodes.map Prod.fst, heap.read p = none) ∧
      ∀ q, heap.read q ≠ none → heap'.read q = heap.read q := by
  unfold getPeerIds
  induction peers using List.reverseRecOn with
  | nil => exact ⟨heap, [], rfl, trivial, rfl, by simp, fun _ _ ↦ rfl⟩
  | append_singleton peers peerId ih =>
      obtain ⟨heap₁, nodes, hlist, hsegment, hids, hfresh, hkept⟩ := ih
      obtain ⟨heap', p, happend, hsegment', hp, hframe⟩ :=
        appendNew_spec hmalloc hsegment peerId
      refine ⟨heap', nodes ++ [(p, peerId)], ?_, hsegment', by simp [hids], ?_, fun q hq ↦ ?_⟩
      · rw [List.foldlM_append, hlist]
        simp [happend]
      · intro q hq
        rw [List.map_append, List.mem_append] at hq
        rcases hq with hq | hq
        · exact hfresh q hq
        · obtain rfl : q = p := by simpa using hq
          by_contra hne
          rw [hkept q hne] at hp
          exact hne hp
      · have hout : q ∉ nodes.map Prod.fst := fun hmem ↦ hq (hfresh q hmem)
        rw [hframe q hout (by rwa [hkept q hq]), hkept q hq]

/-- One round appends the first of the peers and the node itself. -/
theorem runOnNode_spec (h : Segment heap nodes none) (peers : List UInt32) (localId : UInt32) :
    ∃ heap' nodes', runOnNode malloc peers localId heap (first nodes none) =
        some (heap', first nodes' none) ∧
      Segment heap' nodes' none ∧
      nodes'.map Prod.snd = nodes.map Prod.snd ++ (peers.head?.toList ++ [localId]) := by
  obtain ⟨heap₁, cells, hlist, hcells, hids, hfresh, hkept⟩ := getPeerIds_spec hmalloc peers heap
  have hallocated : ∀ q ∈ nodes.map Prod.fst, heap.read q ≠ none := by
    intro q hq hnone
    obtain ⟨cell, hcell⟩ := h.read_of_mem hq
    rw [hcell] at hnone
    cases hnone
  have hnodes : Segment heap₁ nodes none := h.frame fun q hq ↦ hkept q (hallocated q hq)
  cases cells with
  | nil =>
      obtain rfl : peers = [] := by simpa using hids.symm
      obtain ⟨heap', p, happend, hsegment, -, -⟩ := appendNew_spec hmalloc hnodes localId
      refine ⟨heap', _, ?_, hsegment, by simp⟩
      simp [runOnNode, hlist, happend]
  | cons cell cells =>
      obtain ⟨place, peerId⟩ := cell
      obtain rfl : peerId :: cells.map Prod.snd = peers := by simpa using hids
      have hout : place ∉ nodes.map Prod.fst := fun hmem ↦
        hallocated place hmem (hfresh place (by simp))
      obtain ⟨heap₂, hfirst, hsegment, -⟩ := llAppend_spec hnodes hcells.1 hout
      obtain ⟨heap', p, happend, hsegment', -, -⟩ := appendNew_spec hmalloc hsegment localId
      refine ⟨heap', _, ?_, hsegment', by simp⟩
      simp [runOnNode, hlist, hfirst, happend]

/-- `LL_APPEND` clears the link of the cell it is given, so of the list of all peers that it is
given here only the first cell is used: however many peers there are, the threads run on one of
them and on the node itself. -/
theorem getRunOn_spec (peers : List UInt32) (localId : UInt32) (heap : Heap UInt32)
    (threadsPerNode : ℕ) :
    ∃ heap' nodes, getRunOn malloc peers localId heap threadsPerNode =
        some (heap', first nodes none) ∧
      Segment heap' nodes none ∧
      nodes.map Prod.snd = runOn peers localId threadsPerNode := by
  induction threadsPerNode with
  | zero => exact ⟨heap, [], rfl, trivial, rfl⟩
  | succ i ih =>
      obtain ⟨heap₁, nodes, hlist, hsegment, hids⟩ := ih
      obtain ⟨heap', nodes', hnext, hsegment', hids'⟩ :=
        runOnNode_spec hmalloc hsegment peers localId
      refine ⟨heap', nodes', by simp [getRunOn, hlist, hnext], hsegment', ?_⟩
      rw [hids', hids, runOn, runOn, List.replicate_succ', List.flatten_append]
      simp

end Cells

/-- The node 1 with the peers 2 and 3: node 3 gets nothing to do. -/
theorem getRunOn_spec_three_nodes :
    ∃ heap nodes, getRunOn List.length [2, 3] 1 [] 2 = some (heap, first nodes none) ∧
      Segment heap nodes none ∧ nodes.map Prod.snd = [2, 1, 2, 1] :=
  @getRunOn_spec List.length (fun heap ↦ by simp [Heap.read]) [2, 3] 1 [] 2

end Edsm.NBody
