import Edsm.Mutex.Node
import Mathlib.Logic.Function.Basic

/-!
# The threads of one node

A node's threads take `local_mutex` for a whole lock cycle.  Between the two
calls of a cycle a thread is `critical`: it has returned from `edsm_mutex_lock`
and `edsm_mutex_unlock` has not yet run under `lock`.
-/

namespace Edsm.Mutex

/-- Where a thread stands in its lock cycle. -/
inductive Pc
  | outside
  /-- It holds `local_mutex` and has not yet sent its request. -/
  | locking
  /-- It is in the reply wait of `edsm_mutex_lock`. -/
  | waiting
  | critical
  /-- It has released the distributed mutex and still holds `local_mutex`. -/
  | unlocking
  deriving DecidableEq, Repr

structure Node (T : Type*) where
  mutex : Mutex
  localMutex : Option T
  pc : T → Pc

inductive ThreadAction (T : Type*)
  | acquire (t : T)
  | request (t : T)
  | enter (t : T)
  | unlock (t : T)
  | release (t : T)

def ThreadAction.thread {T : Type*} : ThreadAction T → T
  | .acquire t | .request t | .enter t | .unlock t | .release t => t

/-- Where the thread stands before the step. -/
def ThreadAction.source {T : Type*} : ThreadAction T → Pc
  | .acquire _ => .outside
  | .request _ => .locking
  | .enter _ => .waiting
  | .unlock _ => .critical
  | .release _ => .unlocking

def ThreadAction.target {T : Type*} : ThreadAction T → Pc
  | .acquire _ => .locking
  | .request _ => .waiting
  | .enter _ => .critical
  | .unlock _ => .unlocking
  | .release _ => .outside

variable {T : Type*} [DecidableEq T]

namespace Node

def moveTo (nd : Node T) (t : T) (pc : Pc) : Node T :=
  { nd with pc := Function.update nd.pc t pc }

/-- One step of thread `t`, with the messages it sends to every peer. -/
def threadStep (localId : UInt32) (nd : Node T) : ThreadAction T → Option (Node T × List Msg)
  | .acquire t =>
      if nd.pc t = .outside ∧ nd.localMutex = none then
        some ({ nd.moveTo t .locking with localMutex := some t }, [])
      else none
  | .request t =>
      if nd.pc t = .locking then
        (nd.mutex.lock localId).map fun sent ↦
          ({ nd.moveTo t .waiting with mutex := sent.1 }, sent.2)
      else none
  | .enter t =>
      if nd.pc t = .waiting ∧ nd.mutex.waiter.Ready then
        some (nd.moveTo t .critical, [])
      else none
  | .unlock t =>
      if nd.pc t = .critical then
        some ({ nd.moveTo t .unlocking with mutex := nd.mutex.unlock.1 }, nd.mutex.unlock.2)
      else none
  | .release t =>
      if nd.pc t = .unlocking then
        some ({ nd.moveTo t .outside with localMutex := none }, [])
      else none

/-- A step of the listener: one message from `peerId`. -/
def handle (nd : Node T) (peerId : UInt32) (msg : Msg) : Node T × List Msg :=
  ({ nd with mutex := (nd.mutex.handleMessage peerId msg).1 },
    (nd.mutex.handleMessage peerId msg).2)

/-- The threads, `local_mutex`, the request and the reply list agree. -/
structure WellFormed (localId : UInt32) (nd : Node T) : Prop where
  holder : ∀ t, nd.pc t ≠ .outside → nd.localMutex = some t
  request_of_active : ∀ t, nd.pc t = .waiting ∨ nd.pc t = .critical →
    ∃ entry, nd.mutex.localRequest = some entry
  active_of_request : ∀ entry, nd.mutex.localRequest = some entry → entry.peerId = localId ∧
    ∃ t, nd.pc t = .waiting ∨ nd.pc t = .critical
  requests_nil : nd.mutex.localRequest = none → nd.mutex.requests = []
  waiter_nil : (∀ t, nd.pc t ≠ .waiting) → nd.mutex.waiter = []
  waiter_sub : ∀ q ∈ nd.mutex.waiter, q ∈ nd.mutex.peers
  waiter_nodup : nd.mutex.waiter.Nodup

variable {nd nd' : Node T} {localId : UInt32} {msgs : List Msg} {t u : T}

omit [DecidableEq T] in
theorem WellFormed.unique (h : nd.WellFormed localId) (ht : nd.pc t ≠ .outside)
    (hu : nd.pc u ≠ .outside) : t = u :=
  Option.some.inj ((h.holder t ht).symm.trans (h.holder u hu))

omit [DecidableEq T] in
theorem WellFormed.request_none (h : nd.WellFormed localId)
    (hidle : ∀ u, nd.pc u ≠ .waiting ∧ nd.pc u ≠ .critical) : nd.mutex.localRequest = none := by
  by_contra hne
  obtain ⟨entry, hentry⟩ := Option.ne_none_iff_exists'.mp hne
  obtain ⟨-, u, hu | hu⟩ := h.active_of_request entry hentry
  · exact (hidle u).1 hu
  · exact (hidle u).2 hu

omit [DecidableEq T] in
/-- No other thread has left `outside` while `t` holds `local_mutex` or nobody does. -/
theorem WellFormed.others_outside (h : nd.WellFormed localId)
    (ht : nd.localMutex = none ∨ nd.pc t ≠ .outside) (u : T) (hu : u ≠ t) :
    nd.pc u = .outside := by
  by_contra hne
  rcases ht with hfree | ht
  · have hholder := h.holder u hne
    simp [hfree] at hholder
  · exact hu (h.unique hne ht)

omit [DecidableEq T] in
theorem WellFormed.request_none_of_pc (h : nd.WellFormed localId)
    (ht : nd.localMutex = none ∨ nd.pc t ≠ .outside)
    (hpc : nd.pc t ≠ .waiting ∧ nd.pc t ≠ .critical) : nd.mutex.localRequest = none := by
  refine h.request_none fun u ↦ ?_
  by_cases hut : u = t
  · exact hut ▸ hpc
  · simp [h.others_outside ht u hut]

omit [DecidableEq T] in
theorem WellFormed.waiter_nil_of_pc (h : nd.WellFormed localId)
    (ht : nd.localMutex = none ∨ nd.pc t ≠ .outside) (hpc : nd.pc t ≠ .waiting) :
    nd.mutex.waiter = [] := by
  refine h.waiter_nil fun u ↦ ?_
  by_cases hut : u = t
  · exact hut ▸ hpc
  · simp [h.others_outside ht u hut]

@[simp] theorem moveTo_mutex (nd : Node T) (t : T) (pc : Pc) :
    (nd.moveTo t pc).mutex = nd.mutex := rfl

theorem moveTo_pc (nd : Node T) (t u : T) (pc : Pc) :
    (nd.moveTo t pc).pc u = if u = t then pc else nd.pc u := by
  simp [moveTo, Function.update_apply]

theorem threadStep_eq_some {a : ThreadAction T} (h : nd.threadStep localId a = some (nd', msgs)) :
    (∃ t, a = .acquire t ∧ nd.pc t = .outside ∧ nd.localMutex = none ∧
      nd' = { nd.moveTo t .locking with localMutex := some t } ∧ msgs = []) ∨
    (∃ t, a = .request t ∧ nd.pc t = .locking ∧ nd.mutex.localRequest = none ∧
      nd' = { nd.moveTo t .waiting with
        mutex := { nd.mutex with
          lTime := nd.mutex.lTime + 1
          waiter := nd.mutex.peers
          localRequest := some ⟨nd.mutex.lTime + 1, localId⟩ } } ∧
      msgs = [⟨msgTypeRequest, nd.mutex.lTime + 1, 0⟩]) ∨
    (∃ t, a = .enter t ∧ nd.pc t = .waiting ∧ nd.mutex.waiter = [] ∧
      nd' = nd.moveTo t .critical ∧ msgs = []) ∨
    (∃ t, a = .unlock t ∧ nd.pc t = .critical ∧
      nd' = { nd.moveTo t .unlocking with mutex := nd.mutex.unlock.1 } ∧
      msgs = nd.mutex.unlock.2) ∨
    (∃ t, a = .release t ∧ nd.pc t = .unlocking ∧
      nd' = { nd.moveTo t .outside with localMutex := none } ∧ msgs = []) := by
  cases a with
  | acquire t =>
      obtain ⟨⟨hpc, hfree⟩, rfl, rfl⟩ := by simpa [threadStep] using h
      exact .inl ⟨t, rfl, hpc, hfree, rfl, rfl⟩
  | request t =>
      obtain ⟨hpc, mutex', hlock, rfl⟩ := by simpa [threadStep] using h
      obtain ⟨hnone, rfl, rfl⟩ := lock_eq_some hlock
      exact .inr (.inl ⟨t, rfl, hpc, hnone, rfl, rfl⟩)
  | enter t =>
      obtain ⟨⟨hpc, hready⟩, rfl, rfl⟩ := by simpa [threadStep] using h
      exact .inr (.inr (.inl ⟨t, rfl, hpc, hready, rfl, rfl⟩))
  | unlock t =>
      obtain ⟨hpc, rfl, rfl⟩ := by simpa [threadStep] using h
      exact .inr (.inr (.inr (.inl ⟨t, rfl, hpc, rfl, rfl⟩)))
  | release t =>
      obtain ⟨hpc, rfl, rfl⟩ := by simpa [threadStep] using h
      exact .inr (.inr (.inr (.inr ⟨t, rfl, hpc, rfl, rfl⟩)))

theorem threadStep_pc {a : ThreadAction T} (h : nd.threadStep localId a = some (nd', msgs)) :
    nd.pc a.thread = a.source ∧ nd'.pc = Function.update nd.pc a.thread a.target := by
  rcases threadStep_eq_some h with ⟨t, rfl, hpc, -, rfl, -⟩ | ⟨t, rfl, hpc, -, rfl, -⟩ |
    ⟨t, rfl, hpc, -, rfl, -⟩ | ⟨t, rfl, hpc, rfl, -⟩ | ⟨t, rfl, hpc, rfl, -⟩ <;>
  exact ⟨hpc, rfl⟩

theorem threadStep_peers {a : ThreadAction T} (h : nd.threadStep localId a = some (nd', msgs)) :
    nd'.mutex.peers = nd.mutex.peers := by
  rcases threadStep_eq_some h with ⟨t, -, -, -, rfl, -⟩ | ⟨t, -, -, -, rfl, -⟩ |
    ⟨t, -, -, -, rfl, -⟩ | ⟨t, -, -, rfl, -⟩ | ⟨t, -, -, rfl, -⟩ <;> simp

omit [DecidableEq T] in
theorem wellFormed_initial {mutex : Mutex} (hreq : mutex.localRequest = none)
    (hdeferred : mutex.requests = []) (hwaiter : mutex.waiter = []) :
    ({ mutex, localMutex := none, pc := fun _ ↦ .outside } : Node T).WellFormed localId where
  holder := by simp
  request_of_active := by simp
  active_of_request := by simp [hreq]
  requests_nil _ := hdeferred
  waiter_nil _ := hwaiter
  waiter_sub := by simp [hwaiter]
  waiter_nodup := by simp [hwaiter]

omit [DecidableEq T] in
/-- While only `t` can have left `outside`, the node is judged by `t` alone. -/
theorem wellFormed_of_thread (t : T) (hothers : ∀ u, u ≠ t → nd.pc u = .outside)
    (hholder : nd.pc t ≠ .outside → nd.localMutex = some t)
    (hrequest : nd.pc t = .waiting ∨ nd.pc t = .critical ↔
      ∃ entry, nd.mutex.localRequest = some entry)
    (hid : ∀ entry, nd.mutex.localRequest = some entry → entry.peerId = localId)
    (hnil : nd.mutex.localRequest = none → nd.mutex.requests = [])
    (hwaiter : nd.pc t ≠ .waiting → nd.mutex.waiter = [])
    (hsub : ∀ q ∈ nd.mutex.waiter, q ∈ nd.mutex.peers)
    (hnodup : nd.mutex.waiter.Nodup) : nd.WellFormed localId where
  holder u hu := by
    have hut : u = t := by
      by_contra hne
      exact hu (hothers u hne)
    exact hut ▸ hholder (hut ▸ hu)
  request_of_active u hu := by
    have hut : u = t := by
      by_contra hne
      simp [hothers u hne] at hu
    exact hrequest.mp (hut ▸ hu)
  active_of_request entry hentry := ⟨hid entry hentry, t, hrequest.mpr ⟨entry, hentry⟩⟩
  requests_nil := hnil
  waiter_nil hall := hwaiter (hall t)
  waiter_sub := hsub
  waiter_nodup := hnodup

theorem WellFormed.threadStep (h : nd.WellFormed localId) (hpeers : nd.mutex.peers.Nodup)
    {a : ThreadAction T} (hstep : nd.threadStep localId a = some (nd', msgs)) :
    nd'.WellFormed localId := by
  rcases threadStep_eq_some hstep with ⟨t, -, hpc, hfree, rfl, -⟩ | ⟨t, -, hpc, hnone, rfl, -⟩ |
    ⟨t, -, hpc, hready, rfl, -⟩ | ⟨t, -, hpc, rfl, -⟩ | ⟨t, -, hpc, rfl, -⟩
  · have hothers := h.others_outside (t := t) (.inl hfree)
    have hnone := h.request_none_of_pc (t := t) (.inl hfree) (by simp [hpc])
    have hwaiter := h.waiter_nil_of_pc (t := t) (.inl hfree) (by simp [hpc])
    exact wellFormed_of_thread t (fun u hu ↦ by simp [moveTo_pc, hu, hothers u hu])
      (fun _ ↦ rfl) (by simp [moveTo_pc, hnone]) (by simp [hnone])
      (fun _ ↦ h.requests_nil hnone) (fun _ ↦ hwaiter) h.waiter_sub h.waiter_nodup
  · have hothers := h.others_outside (t := t) (.inr (by simp [hpc]))
    exact wellFormed_of_thread t (fun u hu ↦ by simp [moveTo_pc, hu, hothers u hu])
      (fun _ ↦ h.holder t (by simp [hpc])) (by simp [moveTo_pc]) (by simp) (by simp)
      (by simp [moveTo_pc]) (fun q hq ↦ hq) hpeers
  · have hothers := h.others_outside (t := t) (.inr (by simp [hpc]))
    obtain ⟨entry, hentry⟩ := h.request_of_active t (.inl hpc)
    exact wellFormed_of_thread t (fun u hu ↦ by simp [moveTo_pc, hu, hothers u hu])
      (fun _ ↦ h.holder t (by simp [hpc])) (by simp [moveTo_pc, hentry])
      (fun entry he ↦ (h.active_of_request entry he).1) h.requests_nil (fun _ ↦ hready)
      h.waiter_sub h.waiter_nodup
  · have hothers := h.others_outside (t := t) (.inr (by simp [hpc]))
    have hwaiter := h.waiter_nil_of_pc (t := t) (.inr (by simp [hpc])) (by simp [hpc])
    exact wellFormed_of_thread t (fun u hu ↦ by simp [moveTo_pc, hu, hothers u hu])
      (fun _ ↦ h.holder t (by simp [hpc])) (by simp [moveTo_pc]) (by simp)
      (by simp) (fun _ ↦ by simpa using hwaiter) (by simp [hwaiter]) (by simp [hwaiter])
  · have hothers := h.others_outside (t := t) (.inr (by simp [hpc]))
    have hnone := h.request_none_of_pc (t := t) (.inr (by simp [hpc])) (by simp [hpc])
    have hwaiter := h.waiter_nil_of_pc (t := t) (.inr (by simp [hpc])) (by simp [hpc])
    exact wellFormed_of_thread t (fun u hu ↦ by simp [moveTo_pc, hu, hothers u hu])
      (by simp [moveTo_pc]) (by simp [moveTo_pc, hnone]) (by simp [hnone])
      (fun _ ↦ h.requests_nil hnone) (fun _ ↦ hwaiter) h.waiter_sub h.waiter_nodup

omit [DecidableEq T] in
theorem WellFormed.handle (h : nd.WellFormed localId) (peerId : UInt32) (msg : Msg) :
    (nd.handle peerId msg).1.WellFormed localId where
  holder := h.holder
  request_of_active t ht := by
    simpa [Node.handle] using h.request_of_active t ht
  active_of_request entry hentry :=
    h.active_of_request entry (by simpa [Node.handle] using hentry)
  requests_nil hnone := by
    have hreq : nd.mutex.localRequest = none := by simpa [Node.handle] using hnone
    simpa [Node.handle, handleMessage_requests_of_none hreq] using h.requests_nil hreq
  waiter_nil hall := by
    rcases handleMessage_waiter nd.mutex peerId msg with heq | ⟨-, heq⟩
    · exact heq.trans (h.waiter_nil hall)
    · refine heq.trans ?_
      rw [h.waiter_nil hall]
      rfl
  waiter_sub q hq := by
    rcases handleMessage_waiter nd.mutex peerId msg with heq | ⟨-, heq⟩
    · simpa [Node.handle] using h.waiter_sub q (heq ▸ hq)
    · simpa [Node.handle] using h.waiter_sub q (ReplyWaiter.mem_of_mem_addReply (heq ▸ hq))
  waiter_nodup := by
    rcases handleMessage_waiter nd.mutex peerId msg with heq | ⟨-, heq⟩
    · exact heq ▸ h.waiter_nodup
    · exact heq ▸ ReplyWaiter.nodup_addReply h.waiter_nodup peerId

end Node

end Edsm.Mutex
