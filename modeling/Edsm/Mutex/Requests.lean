import Edsm.Library.Reachability
import Edsm.Mutex.Node
import Edsm.Utlist.Sort

/-!
# The requests of a mutex in memory

`requests` points to a list of cells, and `local_request` to one more.  A request
that is deferred is appended and the list sorted where it is; `edsm_mutex_unlock`
frees all of them.  `Cells` is `edsm_mutex` with these cells instead of the two
values that `Mutex` has.
-/

namespace Edsm.Mutex

open LinkedList Utlist

structure Cells where
  peers : List UInt32
  lTime : UInt32
  heap : Heap RequestEntry
  requests : Option ℕ
  waiter : ReplyWaiter
  localRequest : Option ℕ

namespace Cells

/-- `free`; there is no result for a cell that is not allocated. -/
def release (heap : Heap RequestEntry) (p : ℕ) : Option (Heap RequestEntry) :=
  (heap.read p).map fun _ ↦ heap.free p

def sendReply (mutex : Cells) (peerId : UInt32) : Cells × Msg :=
  let lTime := mutex.lTime + 1
  ({ mutex with lTime := lTime }, ⟨msgTypeReply, lTime, peerId⟩)

/-- `mutex->local_request == NULL || request_comp(mutex->local_request, other) > 0` -/
def answersAtOnce (heap : Heap RequestEntry) (localRequest : Option ℕ) (other : ℕ) :
    Option Bool :=
  match localRequest with
  | none => some true
  | some p => do
      let a ← heap.read p
      let b ← heap.read other
      return requestComp a.value b.value > 0

/-- `place` is what `malloc` returns, if it is called. -/
def handleMessage (mutex : Cells) (place : ℕ) (peerId : UInt32) (msg : Msg) :
    Option (Cells × List Msg) :=
  let mutex := { mutex with
    lTime := (if msg.lTime > mutex.lTime then msg.lTime else mutex.lTime) + 1 }
  if msg.msgType = msgTypeRequest then do
    let heap := mutex.heap.alloc place ⟨⟨msg.lTime, peerId⟩, none⟩
    if ← answersAtOnce heap mutex.localRequest place then
      let (mutex, reply) := sendReply { mutex with heap } peerId
      let heap ← release mutex.heap place
      return ({ mutex with heap }, [reply])
    else
      let (heap, requests) ← llAppend heap mutex.requests place
      let (heap, requests) ← llSort requestComp heap requests
      return ({ mutex with heap, requests }, [])
  else if msg.msgType = msgTypeReply then
    some ({ mutex with waiter := mutex.waiter.addReply peerId }, [])
  else
    some (mutex, [])

/-- The part of `edsm_mutex_lock` under `lock`. -/
def lock (mutex : Cells) (place : ℕ) (localId : UInt32) : Option (Cells × List Msg) :=
  if mutex.localRequest ≠ none then none
  else
    let lTime := mutex.lTime + 1
    some ({ mutex with
      lTime := lTime
      waiter := mutex.waiter.setWaitOn mutex.peers
      heap := mutex.heap.alloc place ⟨⟨lTime, localId⟩, none⟩
      localRequest := some place }, [⟨msgTypeRequest, lTime, 0⟩])

/-- The `LL_FOREACH_SAFE` loop of `edsm_mutex_unlock`. -/
def sendReplies (mutex : Cells) : ℕ → Option ℕ → Option (Cells × List Msg)
  | _, none => some (mutex, [])
  | 0, some _ => none
  | steps + 1, some entry => do
      let cell ← mutex.heap.read entry
      let (mutex, reply) := sendReply mutex cell.value.peerId
      let heap ← release mutex.heap entry
      let (mutex, replies) ← sendReplies { mutex with heap } steps cell.next
      return (mutex, reply :: replies)

/-- The part of `edsm_mutex_unlock` under `lock`, after `edsm_memory_tx_end`. -/
def unlock (mutex : Cells) : Option (Cells × List Msg) := do
  let (mutex, replies) ← sendReplies mutex mutex.heap.length mutex.requests
  match mutex.localRequest with
  | none => return ({ mutex with requests := none }, replies)
  | some p =>
      let heap ← release mutex.heap p
      return ({ mutex with heap, requests := none, localRequest := none }, replies)

/-! ## The cells of a mutex -/

/-- The list holds the deferred requests, one more cell the local one, and no other cell is
allocated. -/
structure Linked (mutex : Cells) (nodes : List (ℕ × RequestEntry)) (m : Mutex) : Prop where
  segment : Segment mutex.heap nodes none
  requests : mutex.requests = first nodes none
  entries : nodes.map Prod.snd = m.requests
  localRequest : Option.Rel (fun p entry ↦
    (∃ link, mutex.heap.read p = some ⟨entry, link⟩) ∧ p ∉ nodes.map Prod.fst)
      mutex.localRequest m.localRequest
  owned : ∀ p cell, mutex.heap.read p = some cell →
    p ∈ nodes.map Prod.fst ∨ mutex.localRequest = some p
  peers : mutex.peers = m.peers
  lTime : mutex.lTime = m.lTime
  waiter : mutex.waiter = m.waiter

def Holds (mutex : Cells) (m : Mutex) : Prop := ∃ nodes, mutex.Linked nodes m

section Spec

variable {mutex : Cells} {nodes : List (ℕ × RequestEntry)} {m : Mutex} {place : ℕ}

theorem rel_imp {R S : ℕ → RequestEntry → Prop} {a : Option ℕ} {b : Option RequestEntry}
    (h : Option.Rel R a b) (himp : ∀ p, a = some p → ∀ entry, R p entry → S p entry) :
    Option.Rel S a b := by
  cases h with
  | some hrel => exact .some (himp _ rfl _ hrel)
  | none => exact .none

theorem Linked.exists_local {p : ℕ} (h : mutex.Linked nodes m)
    (hp : mutex.localRequest = some p) :
    ∃ entry, m.localRequest = some entry ∧
      (∃ link, mutex.heap.read p = some ⟨entry, link⟩) ∧ p ∉ nodes.map Prod.fst := by
  have hlocal := h.localRequest
  rw [hp] at hlocal
  generalize m.localRequest = request at hlocal
  cases hlocal with
  | some hrel => exact ⟨_, rfl, hrel⟩

theorem Linked.localRequest_eq_none (h : mutex.Linked nodes m) :
    mutex.localRequest = none ↔ m.localRequest = none := by
  have hlocal := h.localRequest
  generalize mutex.localRequest = place, m.localRequest = request at hlocal
  cases hlocal <;> simp

/-- What `malloc` returns is none of the cells in use. -/
theorem Linked.apart (h : mutex.Linked nodes m) (hfree : mutex.heap.read place = none) :
    place ∉ nodes.map Prod.fst ∧ mutex.localRequest ≠ some place := by
  refine ⟨fun hmem ↦ ?_, fun heq ↦ ?_⟩
  · obtain ⟨cell, hcell⟩ := h.segment.read_of_mem hmem
    rw [hfree] at hcell
    cases hcell
  · obtain ⟨entry, -, ⟨link, hread⟩, -⟩ := h.exists_local heq
    rw [hfree] at hread
    cases hread

theorem requestComp_trans (a b c : RequestEntry) (hab : requestComp a b ≤ 0)
    (hbc : requestComp b c ≤ 0) : requestComp a c ≤ 0 := by
  rw [← not_lt, ← gt_iff_lt, requestComp_pos_iff] at *
  omega

theorem requestComp_total (a b : RequestEntry) : requestComp a b ≤ 0 ∨ requestComp b a ≤ 0 := by
  rw [← not_lt, ← not_lt, ← gt_iff_lt, ← gt_iff_lt, requestComp_pos_iff, requestComp_pos_iff]
  omega

/-- Only equal requests are in each other's place. -/
theorem requestComp_antisymm {a b : RequestEntry} (hab : requestComp a b ≤ 0)
    (hba : requestComp b a ≤ 0) : a = b := by
  rw [← not_lt, ← gt_iff_lt, requestComp_pos_iff] at hab hba
  have ha := a.peerId.toNat_lt
  have hb := b.peerId.toNat_lt
  unfold RequestEntry.rank at hab hba
  obtain ⟨aTime, aId⟩ := a
  obtain ⟨bTime, bId⟩ := b
  simp only [RequestEntry.mk.injEq, ← UInt32.toNat_inj]
  simp only at ha hb hab hba
  omega

/-- There is one way only to sort requests. -/
theorem eq_sortRequests {entries sorted : List RequestEntry} (hperm : sorted.Perm entries)
    (hsorted : sorted.Pairwise fun a b ↦ requestComp a b ≤ 0) :
    sorted = sortRequests entries := by
  have : Std.Total fun a b ↦ requestComp a b ≤ 0 := ⟨requestComp_total⟩
  have : IsTrans RequestEntry fun a b ↦ requestComp a b ≤ 0 := ⟨requestComp_trans⟩
  refine List.Perm.eq_of_pairwise (fun a b _ _ ↦ requestComp_antisymm) hsorted
    (List.pairwise_insertionSort _ entries) (hperm.trans (sortRequests_perm entries).symm)

/-- The new cell changes none of the others. -/
theorem Linked.alloc (h : mutex.Linked nodes m) (hfree : mutex.heap.read place = none)
    (cell : Cell RequestEntry) :
    Segment (mutex.heap.alloc place cell) nodes none ∧
      ∀ p, mutex.localRequest = some p →
        (mutex.heap.alloc place cell).read p = mutex.heap.read p := by
  obtain ⟨hnodes, hlocal⟩ := h.apart hfree
  refine ⟨h.segment.frame fun p hp ↦ Heap.read_alloc_ne ?_ cell, fun p hp ↦
    Heap.read_alloc_ne ?_ cell⟩
  · rintro rfl
    exact hnodes hp
  · rintro rfl
    exact hlocal hp

theorem Linked.answersAtOnce (h : mutex.Linked nodes m) (entry : RequestEntry)
    (hfree : mutex.heap.read place = none) :
    Cells.answersAtOnce (mutex.heap.alloc place ⟨entry, none⟩) mutex.localRequest place =
      some (Mutex.answersAtOnce m.localRequest entry) := by
  cases hlocal : mutex.localRequest with
  | none => rw [h.localRequest_eq_none.mp hlocal]; rfl
  | some p =>
      obtain ⟨own, hown, ⟨link', hread⟩, -⟩ := h.exists_local hlocal
      have hkept := (h.alloc hfree ⟨entry, none⟩).2 p hlocal
      simp [Cells.answersAtOnce, hkept, hread, Heap.read_alloc_self, hown, Mutex.answersAtOnce]

theorem Linked.withTime (h : mutex.Linked nodes m) (lTime : UInt32) :
    Linked { mutex with lTime } nodes { m with lTime } :=
  ⟨h.segment, h.requests, h.entries, h.localRequest, h.owned, h.peers, rfl, h.waiter⟩

/-- A request is answered at once: its cell is gone again. -/
theorem Linked.release_alloc (h : mutex.Linked nodes m) (hfree : mutex.heap.read place = none)
    (cell : Cell RequestEntry) :
    ∃ heap, release (mutex.heap.alloc place cell) place = some heap ∧
      Linked { mutex with heap } nodes m := by
  have hkept (p : ℕ) : ((mutex.heap.alloc place cell).free place).read p = mutex.heap.read p := by
    by_cases hp : p = place
    · rw [hp, Heap.read_free_self, hfree]
    · rw [Heap.read_free_ne hp, Heap.read_alloc_ne hp]
  refine ⟨(mutex.heap.alloc place cell).free place, by simp [release, Heap.read_alloc_self],
    h.segment.frame fun p _ ↦ hkept p, h.requests, h.entries, ?_, fun p cell hcell ↦ ?_,
    h.peers, h.lTime, h.waiter⟩
  · simpa only [hkept] using h.localRequest
  · rw [hkept] at hcell
    exact h.owned p cell hcell

/-- A request is deferred: its cell comes into the list. -/
theorem Linked.defer (h : mutex.Linked nodes m) (hfree : mutex.heap.read place = none)
    (hlength : nodes.length < 2 ^ 30) (entry : RequestEntry) :
    ∃ heap₁ requests₁ heap₂ requests₂ nodes',
      llAppend (mutex.heap.alloc place ⟨entry, none⟩) mutex.requests place =
        some (heap₁, requests₁) ∧
      llSort requestComp heap₁ requests₁ = some (heap₂, requests₂) ∧
      Linked { mutex with heap := heap₂, requests := requests₂ } nodes'
        { m with requests := sortRequests (m.requests ++ [entry]) } := by
  obtain ⟨hapart, hlocal⟩ := h.apart hfree
  obtain ⟨hsegment, hother⟩ := h.alloc hfree ⟨entry, none⟩
  obtain ⟨heap₁, happend, hsegment₁, hframe₁⟩ :=
    llAppend_spec hsegment (Heap.read_alloc_self _ _ _) hapart
  obtain ⟨heap₂, sorted, hsort, hsegment₂, hperm, hsorted, hframe₂⟩ :=
    llSort_spec requestComp_trans requestComp_total hsegment₁
      (by rw [List.length_append, List.length_singleton]; omega)
  have hplaces (p : ℕ) : p ∈ sorted.map Prod.fst ↔ p ∈ nodes.map Prod.fst ∨ p = place := by
    rw [(hperm.map Prod.fst).mem_iff, List.map_append, List.mem_append, List.map_singleton,
      List.mem_singleton]
  have hkept (p : ℕ) (hp : p ∉ sorted.map Prod.fst) : heap₂.read p = mutex.heap.read p := by
    have hboth := (hplaces p).not.mp hp
    rw [not_or] at hboth
    rw [hframe₂ p ((hperm.map Prod.fst).mem_iff.not.mp hp), hframe₁ p hboth.2 hboth.1,
      Heap.read_alloc_ne hboth.2]
  rw [← h.requests] at happend
  refine ⟨heap₁, _, heap₂, _, sorted, happend, hsort, hsegment₂, rfl, ?_, ?_, ?_, h.peers,
    h.lTime, h.waiter⟩
  · refine eq_sortRequests ?_ (List.pairwise_map.mpr hsorted)
    rw [← h.entries]
    simpa using hperm.map Prod.snd
  · refine rel_imp h.localRequest fun p hp own ⟨⟨link, hread⟩, hnotMem⟩ ↦ ?_
    have hp' : p ∉ sorted.map Prod.fst := by
      rw [hplaces, not_or]
      exact ⟨hnotMem, by rintro rfl; exact hlocal hp⟩
    exact ⟨⟨link, (hkept p hp').trans hread⟩, hp'⟩
  · intro p cell hcell
    by_cases hp : p ∈ sorted.map Prod.fst
    · exact .inl hp
    · rw [hkept p hp] at hcell
      exact .inr ((h.owned p cell hcell).resolve_left fun hmem ↦ hp ((hplaces p).mpr (.inl hmem)))

theorem Linked.handleMessage (h : mutex.Linked nodes m) (hfree : mutex.heap.read place = none)
    (hlength : nodes.length < 2 ^ 30) (peerId : UInt32) (msg : Msg) :
    ∃ mutex' nodes', mutex.handleMessage place peerId msg =
        some (mutex', (m.handleMessage peerId msg).2) ∧
      mutex'.Linked nodes' (m.handleMessage peerId msg).1 := by
  have hclock : (if msg.lTime > mutex.lTime then msg.lTime else mutex.lTime) + 1 =
      receiveClock m msg := by
    rw [h.lTime, receiveClock]
  have htimed := h.withTime (receiveClock m msg)
  rcases handleMessage_cases m peerId msg with
    ⟨htype, hanswers, heq⟩ | ⟨htype, hanswers, heq⟩ | ⟨htype, heq⟩ | ⟨hreq, hrep, heq⟩
  · obtain ⟨heap, hrelease, hlinked⟩ := htimed.release_alloc hfree ⟨⟨msg.lTime, peerId⟩, none⟩
    have hatOnce := htimed.answersAtOnce ⟨msg.lTime, peerId⟩ hfree
    rw [heq]
    refine ⟨_, nodes, ?_, hlinked.withTime (receiveClock m msg + 1)⟩
    simp only [Cells.handleMessage, htype, if_true, hclock]
    simp only at hatOnce hrelease
    simp [hatOnce, hanswers, sendReply, hrelease]
  · obtain ⟨heap₁, requests₁, heap₂, requests₂, nodes', happend, hsort, hlinked⟩ :=
      htimed.defer hfree hlength ⟨msg.lTime, peerId⟩
    have hatOnce := htimed.answersAtOnce ⟨msg.lTime, peerId⟩ hfree
    rw [heq]
    refine ⟨_, nodes', ?_, hlinked⟩
    simp only [Cells.handleMessage, htype, if_true, hclock]
    simp only at hatOnce happend
    simp [hatOnce, hanswers, happend, hsort]
  · rw [heq]
    refine ⟨{ mutex with
      lTime := receiveClock m msg
      waiter := mutex.waiter.addReply peerId }, nodes, ?_, ?_⟩
    · simp [Cells.handleMessage, htype, hclock, msgTypeRequest, msgTypeReply]
    · exact ⟨h.segment, h.requests, h.entries, h.localRequest, h.owned, h.peers, rfl,
        congrArg (ReplyWaiter.addReply · peerId) h.waiter⟩
  · rw [heq]
    refine ⟨_, nodes, ?_, htimed⟩
    simp [Cells.handleMessage, hreq, hrep, hclock]

theorem Linked.lock (h : mutex.Linked nodes m) (hfree : mutex.heap.read place = none)
    (localId : UInt32) :
    m.lock localId = none ∧ mutex.lock place localId = none ∨
      ∃ mutex' m' msgs, m.lock localId = some (m', msgs) ∧
        mutex.lock place localId = some (mutex', msgs) ∧ mutex'.Linked nodes m' := by
  by_cases hnone : m.localRequest = none
  · right
    have hnone' := h.localRequest_eq_none.mpr hnone
    obtain ⟨hapart, -⟩ := h.apart hfree
    refine ⟨{ mutex with
      lTime := m.lTime + 1
      waiter := mutex.waiter.setWaitOn mutex.peers
      heap := mutex.heap.alloc place ⟨⟨m.lTime + 1, localId⟩, none⟩
      localRequest := some place }, _, _, by simp only [Mutex.lock, hnone]; rfl, ?_, ?_⟩
    · simp [Cells.lock, hnone', h.lTime]
    · refine ⟨(h.alloc hfree _).1, h.requests, h.entries,
        .some ⟨⟨none, Heap.read_alloc_self _ _ _⟩, hapart⟩, fun p cell hcell ↦ ?_, h.peers, rfl,
        h.peers⟩
      by_cases hp : p = place
      · exact .inr (by rw [hp])
      · rw [Heap.read_alloc_ne hp] at hcell
        refine .inl ((h.owned p cell hcell).resolve_right fun heq ↦ ?_)
        rw [hnone'] at heq
        cases heq
  · left
    have hsome := h.localRequest_eq_none.not.mpr hnone
    simp [Mutex.lock, Cells.lock, hnone, hsome]

/-- The loop answers every request of the list and frees its cell. -/
theorem sendReplies_of_segment (mutex : Cells) (m : Mutex) {steps : ℕ}
    (hsegment : Segment mutex.heap nodes none) (hsteps : nodes.length ≤ steps)
    (hlTime : mutex.lTime = m.lTime) :
    ∃ heap, mutex.sendReplies steps (first nodes none) =
        some ({ mutex with lTime := (Mutex.sendReplies m (nodes.map Prod.snd)).1.lTime, heap },
          (Mutex.sendReplies m (nodes.map Prod.snd)).2) ∧
      (∀ p ∈ nodes.map Prod.fst, heap.read p = none) ∧
      ∀ p, p ∉ nodes.map Prod.fst → heap.read p = mutex.heap.read p := by
  induction nodes generalizing steps mutex m with
  | nil =>
      refine ⟨mutex.heap, ?_, by simp, fun p _ ↦ rfl⟩
      rw [first_nil, Cells.sendReplies, List.map_nil, Mutex.sendReplies, ← hlTime]
  | cons node nodes ih =>
      obtain ⟨steps, rfl⟩ : ∃ n, steps = n + 1 := ⟨steps - 1, by simp at hsteps; omega⟩
      have hnodup := hsegment.nodup
      obtain ⟨hread, hrest⟩ := hsegment
      rw [List.map_cons, List.nodup_cons] at hnodup
      have hkept : Segment (mutex.heap.free node.1) nodes none := hrest.frame fun p hp ↦
        Heap.read_free_ne (by rintro rfl; exact hnodup.1 hp)
      obtain ⟨heap, hloop, hfreed, hframe⟩ :=
        ih { mutex with lTime := mutex.lTime + 1, heap := mutex.heap.free node.1 }
          { m with lTime := m.lTime + 1 } hkept (by simpa using hsteps) (congrArg (· + 1) hlTime)
      refine ⟨heap, ?_, ?_, fun p hp ↦ ?_⟩
      · simp only [first_cons, Cells.sendReplies, hread, sendReply, release, Option.map_some,
          Option.bind_eq_bind, Option.bind_some, hloop]
        simp [Mutex.sendReplies, Mutex.sendReply, hlTime]
      · rw [List.map_cons, List.forall_mem_cons]
        exact ⟨(hframe node.1 hnodup.1).trans (Heap.read_free_self _ _), hfreed⟩
      · rw [List.map_cons, List.mem_cons, not_or] at hp
        rw [hframe p hp.2, Heap.read_free_ne hp.1]

/-- Nothing stays allocated. -/
theorem Linked.unlock (h : mutex.Linked nodes m) :
    ∃ mutex', mutex.unlock = some (mutex', m.unlock.2) ∧ mutex'.Linked [] m.unlock.1 := by
  obtain ⟨heap, hloop, hfreed, hframe⟩ :=
    sendReplies_of_segment mutex m h.segment h.segment.length_le h.lTime
  rw [← h.requests, h.entries] at hloop
  have hleft (q : ℕ) (cell : Cell RequestEntry) (hcell : heap.read q = some cell) :
      mutex.localRequest = some q := by
    by_cases hq : q ∈ nodes.map Prod.fst
    · rw [hfreed q hq] at hcell
      cases hcell
    · rw [hframe q hq] at hcell
      exact (h.owned q cell hcell).resolve_left hq
  cases hlocal : mutex.localRequest with
  | none =>
      refine ⟨{ mutex with
        lTime := m.unlock.1.lTime, heap, requests := none, localRequest := none }, ?_, trivial, rfl,
        rfl, .none, fun p cell hcell ↦ ?_, h.peers.trans (unlock_peers m).symm, rfl,
        h.waiter.trans (unlock_waiter m).symm⟩
      · simp [Cells.unlock, hloop, hlocal, Mutex.unlock]
      · have hsome := hleft p cell hcell
        rw [hlocal] at hsome
        cases hsome
  | some p =>
      obtain ⟨own, -, ⟨link, hread⟩, hp⟩ := h.exists_local hlocal
      refine ⟨{ mutex with
        lTime := m.unlock.1.lTime, heap := heap.free p, requests := none, localRequest := none },
        ?_, trivial, rfl, rfl, .none, fun q cell hcell ↦ ?_, h.peers.trans (unlock_peers m).symm,
        rfl, h.waiter.trans (unlock_waiter m).symm⟩
      · simp [Cells.unlock, hloop, hlocal, Mutex.unlock, release, hframe p hp, hread]
      · by_cases hq : q = p
        · rw [hq, Heap.read_free_self] at hcell
          cases hcell
        · rw [Heap.read_free_ne hq] at hcell
          have hsome := hleft q cell hcell
          rw [hlocal] at hsome
          exact absurd (Option.some.inj hsome).symm hq

end Spec

end Cells

/-! ## Runs -/

/-- A function of the mutex, called in any order. -/
inductive Call
  | handleMessage (peerId : UInt32) (msg : Msg)
  | lock (localId : UInt32)
  | unlock

def Call.run (mutex : Mutex) : Call → Option (Mutex × List Msg)
  | .handleMessage peerId msg => some (mutex.handleMessage peerId msg)
  | .lock localId => mutex.lock localId
  | .unlock => some mutex.unlock

def Call.runCells (mutex : Cells) (place : ℕ) : Call → Option (Cells × List Msg)
  | .handleMessage peerId msg => mutex.handleMessage place peerId msg
  | .lock localId => mutex.lock place localId
  | .unlock => mutex.unlock

def calls (peers : List UInt32) : LabelledSystem Mutex (Call × ℕ) where
  init := { peers, lTime := 0, requests := [], waiter := [], localRequest := none }
  step mutex a := (a.1.run mutex).map Prod.fst

def callsOnCells (peers : List UInt32) : LabelledSystem Cells (Call × ℕ) where
  init := { peers, lTime := 0, heap := [], requests := none, waiter := [], localRequest := none }
  step mutex a := (a.1.runCells mutex a.2).map Prod.fst

/-- `malloc` returns a place that is free, and `insize` of `LL_SORT` stays an `int`. -/
def Fits (mutex : Cells) (a : Call × ℕ) : Prop :=
  mutex.heap.read a.2 = none ∧
    (count mutex.heap mutex.heap.length mutex.requests).all (· < 2 ^ 30) = true

instance (mutex : Cells) (a : Call × ℕ) : Decidable (Fits mutex a) :=
  inferInstanceAs (Decidable (_ ∧ _))

/-- The same messages and the same fields. -/
def Agree : Option (Cells × List Msg) → Option (Mutex × List Msg) → Prop :=
  Option.Rel fun c m ↦ c.1.Holds m.1 ∧ c.2 = m.2

theorem Cells.Holds.agree {mutex : Cells} {m : Mutex} (h : mutex.Holds m) {a : Call × ℕ}
    (ha : Fits mutex a) : Agree (a.1.runCells mutex a.2) (a.1.run m) := by
  obtain ⟨nodes, h⟩ := h
  obtain ⟨call, place⟩ := a
  obtain ⟨hfree, hfits⟩ := ha
  have hlength : nodes.length < 2 ^ 30 := by
    rw [h.requests, count_of_segment h.segment h.segment.length_le] at hfits
    simpa using hfits
  cases call with
  | handleMessage peerId msg =>
      obtain ⟨mutex', nodes', heq, hlinked⟩ := h.handleMessage hfree hlength peerId msg
      simp only [Call.runCells, heq]
      exact .some ⟨⟨nodes', hlinked⟩, rfl⟩
  | lock localId =>
      rcases h.lock hfree localId with
        ⟨hnone, hnone'⟩ | ⟨mutex', m', msgs, heq, heq', hlinked⟩
      · simp only [Call.runCells, Call.run, hnone, hnone']
        exact .none
      · simp only [Call.runCells, Call.run, heq, heq']
        exact .some ⟨⟨nodes, hlinked⟩, rfl⟩
  | unlock =>
      obtain ⟨mutex', heq, hlinked⟩ := h.unlock
      simp only [Call.runCells, heq]
      exact .some ⟨⟨[], hlinked⟩, rfl⟩

theorem holds_init (peers : List UInt32) : (callsOnCells peers).init.Holds (calls peers).init :=
  ⟨[], trivial, rfl, rfl, .none, fun p cell hcell ↦ by simp [callsOnCells, Heap.read] at hcell,
    rfl, rfl, rfl⟩

/-- In every run the cells are those of the lists: no cell is used that is not allocated, none is
freed twice, none is lost, and the next call, whichever it is, does and sends what the lists say. -/
theorem cells_refine {peers : List UInt32} {mutex : Cells}
    (h : (callsOnCells peers).Reach Fits mutex) :
    ∃ m, (calls peers).Reachable m ∧ mutex.Holds m ∧
      ∀ a, Fits mutex a → Agree (a.1.runCells mutex a.2) (a.1.run m) := by
  suffices hsuffices : ∃ m, (calls peers).Reachable m ∧ mutex.Holds m by
    obtain ⟨m, hm, hholds⟩ := hsuffices
    exact ⟨m, hm, hholds, fun a ha ↦ hholds.agree ha⟩
  refine h.invariant (fun mutex ↦ ∃ m, (calls peers).Reachable m ∧ mutex.Holds m)
    ⟨_, .init, holds_init peers⟩ ?_
  rintro mutex a mutex' - ⟨m, hm, hholds⟩ ha hst
  obtain ⟨⟨c, msgs⟩, hrun, rfl⟩ := Option.map_eq_some_iff.mp hst
  have hagree := hholds.agree ha
  rw [hrun] at hagree
  generalize hm' : a.1.run m = result at hagree
  cases hagree with
  | some hrel => exact ⟨_, hm.step (a := a) trivial (by simp [calls, hm']), hrel.1⟩

theorem cells_refine_three_deferred :
    ∃ mutex : Cells, mutex.lTime = 10 ∧ mutex.heap.map (Option.map Cell.next) =
        [some none, some (some 3), none, some (some 4), some none] ∧
      ∃ m, (calls [2, 3]).Reachable m ∧ mutex.Holds m ∧
        ∀ a, Fits mutex a → Agree (a.1.runCells mutex a.2) (a.1.run m) := by
  obtain ⟨mutex, hreach, htest⟩ := LabelledSystem.exists_reach_of_exec
    (callsOnCells [2, 3]) Fits [(.lock 1, 0), (.handleMessage 3 ⟨1, 5, 0⟩, 4),
      (.handleMessage 2 ⟨1, 1, 0⟩, 1), (.handleMessage 3 ⟨1, 0, 0⟩, 2),
      (.handleMessage 2 ⟨1, 4, 0⟩, 3)]
    (fun mutex ↦ mutex.lTime = 10 ∧ mutex.heap.map (Option.map Cell.next) =
      [some none, some (some 3), none, some (some 4), some none]) (by decide +kernel)
  rw [decide_eq_true_iff] at htest
  exact ⟨mutex, htest.1, htest.2, cells_refine hreach⟩

end Edsm.Mutex
