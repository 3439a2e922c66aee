import Edsm.Library.LinkedList
import Edsm.ReplyWaiter

/-!
# Reply waiters in memory

`wait_on` points to a list of `edsm_proto_peer_id` cells that the caller has
allocated.  `edsm_reply_waiter_add_reply` walks along it, takes the first cell of
the peer out with `LL_DELETE` and frees it.  Nothing but the cells of the list is
read or written, and the ids left are those of the list operation `addReply`.
-/

namespace Edsm.ReplyWaiter

open LinkedList

/-- `wait_on`, with the memory of the cells. -/
structure Cells where
  heap : Heap UInt32
  waitOn : Option ℕ

namespace Cells

/-- `edsm_reply_waiter_set_wait_on`; the cells of the previous list stay allocated. -/
def setWaitOn (w : Cells) (peers : Option ℕ) : Cells := { w with waitOn := peers }

/-- The loop of `edsm_reply_waiter_add_reply`, which ends with the cell it deletes. -/
def deleteReply (peerId : UInt32) (w : Cells) : ℕ → Option ℕ → Option Cells
  | _, none => some w
  | 0, some _ => none
  | steps + 1, some peer =>
      (w.heap.read peer).bind fun cell ↦
        if cell.value = peerId then
          (unlink w.heap w.waitOn peer).map fun left ↦
            { heap := left.1.free peer, waitOn := left.2 }
        else deleteReply peerId w steps cell.next

/-- `edsm_reply_waiter_add_reply`; `none` is an access to memory that is not allocated. -/
def addReply (w : Cells) (peerId : UInt32) : Option Cells :=
  (w.deleteReply peerId w.heap.length w.waitOn).bind fun w ↦
    (count w.heap w.heap.length w.waitOn).map fun _ ↦ w

/-- The list is made of these cells. -/
structure Linked (w : Cells) (nodes : List (ℕ × UInt32)) : Prop where
  segment : Segment w.heap nodes none
  waitOn : w.waitOn = first nodes none

/-- The ids of the list. -/
def Holds (w : Cells) (ids : List UInt32) : Prop :=
  ∃ nodes, w.Linked nodes ∧ nodes.map Prod.snd = ids

variable {w : Cells} {nodes front back : List (ℕ × UInt32)} {peerId : UInt32} {p steps : ℕ}
  {ids ids' : List UInt32}

theorem Holds.unique (h : w.Holds ids) (h' : w.Holds ids') : ids = ids' := by
  obtain ⟨nodes, hnodes, rfl⟩ := h
  obtain ⟨nodes', hnodes', rfl⟩ := h'
  rw [hnodes.segment.unique hnodes'.segment (hnodes.waitOn.symm.trans hnodes'.waitOn)]

theorem Holds.waitOn_eq_none (h : w.Holds ids) : w.waitOn = none ↔ Ready ids := by
  obtain ⟨nodes, hnodes, rfl⟩ := h
  rw [hnodes.waitOn, first_eq_none, Ready, List.map_eq_nil_iff]

/-- Whatever list was there before. -/
theorem setWaitOn_holds (h : Segment w.heap nodes none) :
    (w.setWaitOn (first nodes none)).Holds (nodes.map Prod.snd) :=
  ⟨nodes, ⟨h, rfl⟩, rfl⟩

theorem deleteReply_of_notMem (h : Segment w.heap nodes none)
    (hid : peerId ∉ nodes.map Prod.snd) (hsteps : nodes.length ≤ steps) :
    w.deleteReply peerId steps (first nodes none) = some w := by
  induction nodes generalizing steps with
  | nil => cases steps <;> rfl
  | cons node nodes ih =>
      obtain ⟨steps, rfl⟩ : ∃ n, steps = n + 1 := ⟨steps - 1, by simp at hsteps; omega⟩
      obtain ⟨hread, hrest⟩ := h
      rw [List.map_cons, List.mem_cons, not_or] at hid
      simp [deleteReply, hread, Ne.symm hid.1, ih hrest hid.2 (by simpa using hsteps)]

theorem deleteReply_of_first (h : Segment w.heap (front ++ (p, peerId) :: back) none)
    (hid : peerId ∉ front.map Prod.snd) (hsteps : front.length < steps) :
    w.deleteReply peerId steps (first (front ++ (p, peerId) :: back) none) =
      (unlink w.heap w.waitOn p).map fun left ↦
        { heap := left.1.free p, waitOn := left.2 } := by
  induction front generalizing steps with
  | nil =>
      obtain ⟨steps, rfl⟩ : ∃ n, steps = n + 1 := ⟨steps - 1, by omega⟩
      have hread := h.1
      simp [deleteReply, hread]
  | cons node front ih =>
      obtain ⟨steps, rfl⟩ : ∃ n, steps = n + 1 := ⟨steps - 1, by omega⟩
      obtain ⟨hread, hrest⟩ := h
      rw [List.map_cons, List.mem_cons, not_or] at hid
      simp only [List.append_eq] at hread hrest
      simp [deleteReply, hread, Ne.symm hid.1, ih hrest hid.2 (by simpa using hsteps)]

theorem exists_first_of_mem (h : peerId ∈ nodes.map Prod.snd) :
    ∃ front p back, nodes = front ++ (p, peerId) :: back ∧ peerId ∉ front.map Prod.snd := by
  obtain ⟨before, after, hsplit, hbefore⟩ := List.eq_append_cons_of_mem h
  obtain ⟨front, rest, rfl, rfl, hrest⟩ := List.map_eq_append_iff.mp hsplit
  obtain ⟨⟨p, x⟩, back, rfl, rfl, -⟩ := List.map_eq_cons_iff.mp hrest
  exact ⟨front, p, back, rfl, hbefore⟩

theorem linked_free {heap' : Heap UInt32} (h : Segment heap' (front ++ back) none)
    (hp : p ∉ (front ++ back).map Prod.fst) :
    Linked { heap := heap'.free p, waitOn := first (front ++ back) none } (front ++ back) where
  segment := h.frame fun _ hq ↦ Heap.read_free_ne fun heq ↦ hp (heq ▸ hq)
  waitOn := rfl

theorem addReply_of_delete {w' : Cells} (h : w'.Linked nodes)
    (hdelete : w.deleteReply peerId w.heap.length w.waitOn = some w') :
    w.addReply peerId = some w' := by
  have hcount := count_of_segment h.segment h.segment.length_le
  rw [← h.waitOn] at hcount
  simp [addReply, hdelete, hcount]

theorem addReply_of_first (h : w.Linked (front ++ (p, peerId) :: back))
    (hid : peerId ∉ front.map Prod.snd) :
    ∃ w', w.addReply peerId = some w' ∧ w'.Linked (front ++ back) ∧
      ∀ q, q ∉ (front ++ (p, peerId) :: back).map Prod.fst → w'.heap.read q = w.heap.read q := by
  have hnodup := h.segment.nodup
  have hsteps : front.length < w.heap.length := by
    have hlength := h.segment.length_le
    simp only [List.length_append, List.length_cons] at hlength
    omega
  have hp : p ∉ (front ++ back).map Prod.fst := by
    rw [List.map_append, List.map_cons, List.nodup_middle, List.nodup_cons] at hnodup
    rw [List.map_append]
    exact hnodup.1
  obtain ⟨heap', hunlink, hsegment, hframe⟩ := unlink_of_segment h.segment
  have hlinked := linked_free hsegment hp
  have hdelete := deleteReply_of_first h.segment hid hsteps
  rw [← h.waitOn] at hunlink hdelete
  rw [hunlink] at hdelete
  refine ⟨_, addReply_of_delete hlinked hdelete, hlinked, fun q hq ↦ ?_⟩
  rw [List.map_append, List.map_cons, List.mem_append, List.mem_cons, not_or, not_or] at hq
  exact (Heap.read_free_ne hq.2.1).trans (hframe q hq.1)

/-- What `edsm_reply_waiter_add_reply` does to the cells: at most one goes, and no other memory
changes. -/
theorem addReply_of_linked (h : w.Linked nodes) (peerId : UInt32) :
    ∃ w' nodes', w.addReply peerId = some w' ∧ w'.Linked nodes' ∧
      nodes'.map Prod.snd = ReplyWaiter.addReply (nodes.map Prod.snd) peerId ∧
      nodes'.Sublist nodes ∧
      ∀ q, q ∉ nodes.map Prod.fst → w'.heap.read q = w.heap.read q := by
  by_cases hmem : peerId ∈ nodes.map Prod.snd
  · obtain ⟨front, p, back, rfl, hid⟩ := exists_first_of_mem hmem
    obtain ⟨w', hreply, hlinked, hframe⟩ := addReply_of_first h hid
    refine ⟨w', front ++ back, hreply, hlinked, ?_, ?_, hframe⟩
    · rw [ReplyWaiter.addReply, List.map_append, List.map_append, List.map_cons,
        List.erase_append_right _ hid, List.erase_cons_head]
    · exact (List.sublist_cons_self _ _).append_left front
  · have hdelete := deleteReply_of_notMem h.segment hmem h.segment.length_le
    rw [← h.waitOn] at hdelete
    exact ⟨w, nodes, addReply_of_delete h hdelete, h, (List.erase_of_not_mem hmem).symm,
      List.Sublist.refl nodes, fun q _ ↦ rfl⟩

/-- The cells follow the list of ids. -/
theorem Holds.addReply (h : w.Holds ids) (peerId : UInt32) :
    ∃ w', w.addReply peerId = some w' ∧ w'.Holds (ReplyWaiter.addReply ids peerId) := by
  obtain ⟨nodes, hnodes, rfl⟩ := h
  obtain ⟨w', nodes', hreply, hnodes', hids, -, -⟩ := addReply_of_linked hnodes peerId
  exact ⟨w', hreply, nodes', hnodes', hids⟩

end Cells

end Edsm.ReplyWaiter
