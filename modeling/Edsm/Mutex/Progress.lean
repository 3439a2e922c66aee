import Edsm.Mutex.System
import Mathlib.Order.WellFounded

/-!
# Progress of the mutex protocol

While a thread waits for the reply of `q`, its request is on the way to `q`, or
`q` has deferred it behind a smaller request of its own, or a reply of `q` is on
the way back.  The clocks may wrap and replies meant for other nodes may be
counted: neither breaks this.  Since the deferring nodes have ever smaller
requests, the group is never stuck.
-/

namespace Edsm.Mutex

variable {T D : Type*}

/-- `q` keeps `entry` in its requests list while its own request is smaller. -/
def DeferredBehind (s : State T D) (q : UInt32) (entry : RequestEntry) : Prop :=
  entry ∈ (s.node q).mutex.requests ∧
    ∃ own, (s.node q).mutex.localRequest = some own ∧ requestComp own entry < 0

/-- What `p` may still expect from `q`. -/
def Expects (s : State T D) (p q : UInt32) (entry : RequestEntry) : Prop :=
  RequestInFlight s p q entry ∨ DeferredBehind s q entry ∨ ReplyInFlight s q p

def WaitsInv (G : Group) (s : State T D) : Prop :=
  ∀ p ∈ G.ids, ∀ entry, (s.node p).mutex.localRequest = some entry →
    ∀ q ∈ (s.node p).mutex.waiter, Expects s p q entry

/-! ## One step -/

section Step

variable [DecidableEq T] {G : Group} {s s' : State T D}
  {p q x : UInt32} {nd : Node T} {msgs : List Msg} {entry : RequestEntry}

omit [DecidableEq T] in
/-- Frames stay on the channels and `q` keeps its requests and its own request. -/
theorem Expects.of_le (h : Expects s p q entry)
    (hpq : ∀ msg, Frame.mutex msg ∈ s.net p q → Frame.mutex msg ∈ s'.net p q)
    (hqp : ∀ msg, Frame.mutex msg ∈ s.net q p → Frame.mutex msg ∈ s'.net q p)
    (hrequests : entry ∈ (s.node q).mutex.requests → entry ∈ (s'.node q).mutex.requests)
    (hlocal : (s'.node q).mutex.localRequest = (s.node q).mutex.localRequest) :
    Expects s' p q entry := by
  rcases h with ⟨msg, htype, htime, hmsg⟩ | ⟨hmem, own, hown, hlt⟩ | ⟨msg, htype, hmsg⟩
  · exact .inl ⟨msg, htype, htime, hpq msg hmsg⟩
  · exact .inr (.inl ⟨hrequests hmem, own, hlocal.trans hown, hlt⟩)
  · exact .inr (.inr ⟨msg, htype, hqp msg hmsg⟩)

omit [DecidableEq T] in
theorem WaitsInv.quiet (hwf : WellFormed G s) (h : WaitsInv G s) (hx : x ∈ G.ids)
    (hm : nd.mutex = (s.node x).mutex) : WaitsInv G (s.after x nd []) := by
  have hpeers : nd.mutex.peers = G.peers x := hm ▸ hwf.peers x hx
  have hsame : ∀ y, ((s.after x nd []).node y).mutex = (s.node y).mutex := by
    intro y
    by_cases hy : y = x
    · subst hy
      simpa using hm
    · rw [after_node_ne hy]
  intro p hp entry hentry q hq
  rw [hsame] at hentry hq
  exact (h p hp entry hentry q hq).of_le (fun _ ↦ mem_after_net hx hpeers)
    (fun _ ↦ mem_after_net hx hpeers) (by rw [hsame]; exact id) (by rw [hsame])

omit [DecidableEq T] in
theorem WaitsInv.request (hwf : WellFormed G s) (h : WaitsInv G s) (hx : x ∈ G.ids)
    (hnone : (s.node x).mutex.localRequest = none)
    (hm : nd.mutex = { (s.node x).mutex with
      lTime := (s.node x).mutex.lTime + 1
      waiter := (s.node x).mutex.peers
      localRequest := some ⟨(s.node x).mutex.lTime + 1, x⟩ }) :
    WaitsInv G (s.after x nd [⟨msgTypeRequest, (s.node x).mutex.lTime + 1, 0⟩]) := by
  have hpeers : nd.mutex.peers = G.peers x := by simpa [hm] using hwf.peers x hx
  intro p hp entry hentry q hq
  by_cases hpx : p = x
  · -- the new request has just been sent to every peer
    subst hpx
    obtain rfl : ⟨(s.node p).mutex.lTime + 1, p⟩ = entry := by simpa [hm] using hentry
    have hqp : q ∈ G.ids ∧ q ≠ p := by
      simpa [hm, hwf.peers p hp, G.mem_peers p hp] using hq
    refine .inl ⟨⟨msgTypeRequest, (s.node p).mutex.lTime + 1, 0⟩, rfl, rfl, ?_⟩
    simp [after_net hp hpeers, hqp]
  · rw [after_node_ne hpx] at hentry hq
    rcases h p hp entry hentry q hq with ⟨msg, htype, htime, hmsg⟩ | ⟨hmem, own, hown, hlt⟩ |
      ⟨msg, htype, hmsg⟩
    · exact .inl ⟨msg, htype, htime, mem_after_net hx hpeers hmsg⟩
    · have hqx : q ≠ x := by
        rintro rfl
        simp [hnone] at hown
      refine .inr (.inl ?_)
      simpa only [DeferredBehind, after_node_ne hqx] using ⟨hmem, own, hown, hlt⟩
    · exact .inr (.inr ⟨msg, htype, mem_after_net hx hpeers hmsg⟩)

omit [DecidableEq T] in
theorem WaitsInv.unlock (hwf : WellFormed G s) (h : WaitsInv G s) (hx : x ∈ G.ids)
    (hm : nd.mutex = (s.node x).mutex.unlock.1) :
    WaitsInv G (s.after x nd (s.node x).mutex.unlock.2) := by
  have hpeers : nd.mutex.peers = G.peers x := by simpa [hm] using hwf.peers x hx
  intro p hp entry hentry q hq
  have hpx : p ≠ x := by
    rintro rfl
    simp [hm] at hentry
  rw [after_node_ne hpx] at hentry hq
  rcases h p hp entry hentry q hq with ⟨msg, htype, htime, hmsg⟩ | ⟨hmem, own, hown, hlt⟩ |
    ⟨msg, htype, hmsg⟩
  · exact .inl ⟨msg, htype, htime, mem_after_net hx hpeers hmsg⟩
  · by_cases hqx : q = x
    · -- a deferred request is answered now
      subst hqx
      obtain ⟨reply, hreply⟩ : ∃ reply, reply ∈ (s.node q).mutex.unlock.2 :=
        List.exists_mem_of_length_pos (by
          rw [unlock_length]
          exact List.length_pos_of_mem hmem)
      refine .inr (.inr ⟨reply, unlock_msgType hreply, ?_⟩)
      simp [after_net hx hpeers, hp, hpx, hreply]
    · refine .inr (.inl ?_)
      simpa only [DeferredBehind, after_node_ne hqx] using ⟨hmem, own, hown, hlt⟩
  · exact .inr (.inr ⟨msg, htype, mem_after_net hx hpeers hmsg⟩)

omit [DecidableEq T] in
/-- `x` handles the request that `q` waits for: it answers or it defers. -/
theorem expects_of_handle (hwf : WellFormed G s) (hq : q ∈ G.ids) (hx : x ∈ G.ids) (hqx : q ≠ x)
    {msg : Msg} {rest : List (Frame D)} (hentry : entry.peerId = q)
    (htype : msg.msgType = msgTypeRequest) (htime : msg.lTime = entry.lTime) :
    Expects ((s.takeFrame q x rest).after x ((s.node x).handle q msg).1
      ((s.node x).handle q msg).2) q x entry := by
  have hpeers := hwf.peers_handle hx q msg
  have hother : (⟨msg.lTime, q⟩ : RequestEntry) = entry := by simp [htime, ← hentry]
  rcases handleMessage_cases (s.node x).mutex q msg with
    ⟨-, -, heq⟩ | ⟨-, hans, heq⟩ | ⟨hreply, -⟩ | ⟨hbad, -, -⟩
  · refine .inr (.inr ⟨⟨msgTypeReply, receiveClock (s.node x).mutex msg + 1, q⟩, rfl, ?_⟩)
    rw [after_net hx hpeers, if_pos ⟨rfl, hq, hqx⟩]
    simp [Node.handle, heq]
  · -- the test failed, so there is a local request, and it is not larger
    rw [hother] at hans heq
    obtain ⟨own, hown, hle⟩ : ∃ own, (s.node x).mutex.localRequest = some own ∧
        own.rank ≤ entry.rank := by
      by_contra hno
      have : answersAtOnce (s.node x).mutex.localRequest entry = true :=
        answersAtOnce_iff.mpr fun own hown ↦ by
          by_contra hle
          exact hno ⟨own, hown, not_lt.mp hle⟩
      simp [this] at hans
    have hne : own.rank ≠ entry.rank := by
      refine rank_ne_of_peerId_ne ?_
      rw [hentry, ((hwf.node x hx).active_of_request own hown).1]
      exact fun he ↦ hqx he.symm
    refine .inr (.inl ⟨?_, own, ?_, requestComp_neg_iff.mpr (lt_of_le_of_ne hle hne)⟩)
    · simp [Node.handle, heq, mem_sortRequests]
    · simpa [Node.handle] using hown
  · simp [htype, msgTypeRequest, msgTypeReply] at hreply
  · exact absurd htype hbad

omit [DecidableEq T] in
theorem WaitsInv.handle (hwf : WellFormed G s) (h : WaitsInv G s) (hq : q ∈ G.ids)
    (hx : x ∈ G.ids) {msg : Msg} {rest : List (Frame D)}
    (hhead : s.net q x = .mutex msg :: rest) :
    WaitsInv G ((s.takeFrame q x rest).after x ((s.node x).handle q msg).1
      ((s.node x).handle q msg).2) := by
  have hpeers := hwf.peers_handle hx q msg
  have hqx : q ≠ x := hwf.ne_of_head hq hhead
  intro p hp entry hentry r hr
  have hlocal : (s.node p).mutex.localRequest = some entry := by
    by_cases hpx : p = x
    · subst hpx
      simpa [Node.handle] using hentry
    · simpa [after_node_ne hpx] using hentry
  have hwaits : r ∈ (s.node p).mutex.waiter := by
    by_cases hpx : p = x
    · subst hpx
      rcases handleMessage_waiter (s.node p).mutex q msg with heq | ⟨-, heq⟩
      · simpa [Node.handle, heq] using hr
      · exact ReplyWaiter.mem_of_mem_addReply (by simpa [Node.handle, heq] using hr)
    · simpa [after_node_ne hpx] using hr
  have hid : entry.peerId = p := ((hwf.node p hp).active_of_request entry hlocal).1
  rcases h p hp entry hlocal r hwaits with ⟨req, htype, htime, hreq⟩ | ⟨hmem, own, hown, hlt⟩ |
    ⟨reply, htype, hreply⟩
  · rcases mem_takeFrame hhead hreq with ⟨heq, rfl, rfl⟩ | hreq
    · obtain rfl : req = msg := Frame.mutex.inj heq
      exact expects_of_handle hwf hp hx hqx hid htype htime
    · exact .inl ⟨req, htype, htime, mem_after_net hx hpeers hreq⟩
  · refine .inr (.inl ?_)
    by_cases hrx : r = x
    · subst hrx
      refine ⟨?_, own, by simpa [Node.handle] using hown, hlt⟩
      simpa [Node.handle] using handleMessage_requests_mono hmem
    · simpa [DeferredBehind, after_node_ne hrx] using ⟨hmem, own, hown, hlt⟩
  · rcases mem_takeFrame hhead hreply with ⟨heq, rfl, rfl⟩ | hreply
    · -- the reply is counted, so `r` is waited for no longer
      obtain rfl : reply = msg := Frame.mutex.inj heq
      have hgone : r ∉ (s.node p).mutex.waiter.addReply r :=
        ReplyWaiter.notMem_addReply (hwf.node p hp).waiter_nodup r
      rw [after_node_self, Node.handle, handleMessage_reply htype] at hr
      exact absurd hr hgone
    · exact .inr (.inr ⟨reply, htype, mem_after_net hx hpeers hreply⟩)

omit [DecidableEq T] in
theorem WaitsInv.step (hwf : WellFormed G s) (h : WaitsInv G s) {a : Action T D}
    (he : Effect G s a s') : WaitsInv G s' := by
  cases he with
  | quiet x a nd hx hm => exact h.quiet hwf hx hm
  | request x t nd hx hnone _ hm => exact h.request hwf hx hnone hm
  | unlock x t nd hx hpc hm => exact h.unlock hwf hx hm
  | handle q x msg rest hq hx hhead => exact h.handle hwf hq hx hhead
  | publish x t d hx hpc =>
      exact fun p hp entry hentry q hq ↦
        (h p hp entry hentry q hq).of_le
          (fun _ ↦ (mutex_mem_sendData_net hx (hwf.peers x hx)).mpr)
          (fun _ ↦ (mutex_mem_sendData_net hx (hwf.peers x hx)).mpr) id rfl
  | data q x d rest hq hx hhead =>
      have hmono : ∀ {a b msg}, Frame.mutex msg ∈ s.net a b →
          Frame.mutex msg ∈ (s.takeFrame q x rest).net a b := by
        intro a b msg hmsg
        exact (mem_takeFrame hhead hmsg).resolve_left (by simp)
      exact fun p hp entry hentry r hr ↦
        (h p hp entry hentry r hr).of_le (fun _ ↦ hmono) (fun _ ↦ hmono) id rfl

end Step

/-! ## Runs -/

variable [DecidableEq T] {G : Group} {s : State T D}

theorem waitsInv_of_reachable (h : (system T D G).Reachable s) : WaitsInv G s :=
  invariant_of_effect (WaitsInv G) (fun p _ entry hentry ↦ by simp [system, initialNode] at hentry)
    (fun hwf _ ih _ _ he ↦ ih.step hwf he) h

omit [DecidableEq T] in
theorem exists_min_request
    (h : ∃ p ∈ G.ids, ∃ entry, (s.node p).mutex.localRequest = some entry) :
    ∃ p ∈ G.ids, ∃ entry, (s.node p).mutex.localRequest = some entry ∧
      ∀ q ∈ G.ids, ∀ own, (s.node q).mutex.localRequest = some own → entry.rank ≤ own.rank := by
  let ranks : Set ℕ := {n | ∃ p ∈ G.ids, ∃ entry,
    (s.node p).mutex.localRequest = some entry ∧ entry.rank = n}
  have hne : ranks.Nonempty := by
    obtain ⟨p, hp, entry, hentry⟩ := h
    exact ⟨entry.rank, p, hp, entry, hentry, rfl⟩
  obtain ⟨p, hp, entry, hentry, hrank⟩ := wellFounded_lt.min_mem ranks hne
  refine ⟨p, hp, entry, hentry, fun q hq own hown ↦ ?_⟩
  rw [hrank]
  have hmem : own.rank ∈ ranks := ⟨q, hq, own, hown, rfl⟩
  exact wellFounded_lt.min_le hmem

omit [DecidableEq T] in
/-- With no message in flight, a waiting node that still expects a reply is
deferred by a node with a smaller request. -/
theorem exists_smaller_request (hwf : WellFormed G s) (h : WaitsInv G s)
    (hquiet : ∀ p ∈ G.ids, ∀ q ∈ G.ids, ∀ msg, Frame.mutex msg ∉ s.net p q)
    {p : UInt32} (hp : p ∈ G.ids) {entry : RequestEntry}
    (hentry : (s.node p).mutex.localRequest = some entry) (hw : (s.node p).mutex.waiter ≠ []) :
    ∃ q ∈ G.ids, ∃ own, (s.node q).mutex.localRequest = some own ∧ own.rank < entry.rank := by
  obtain ⟨q, hq⟩ := List.exists_mem_of_ne_nil _ hw
  have hqids : q ∈ G.ids := by
    have hpeer := (hwf.node p hp).waiter_sub q hq
    rw [hwf.peers p hp] at hpeer
    exact ((G.mem_peers p hp q).mp hpeer).1
  rcases h p hp entry hentry q hq with ⟨msg, -, -, hmsg⟩ | ⟨-, own, hown, hlt⟩ | ⟨msg, -, hmsg⟩
  · exact absurd hmsg (hquiet p hp q hqids msg)
  · exact ⟨q, hqids, own, hown, requestComp_neg_iff.mp hlt⟩
  · exact absurd hmsg (hquiet q hqids p hp msg)

/-- No waiting thread is ever forgotten, and the group is never stuck. -/
theorem waiting_expects_and_not_stuck (h : (system T D G).Reachable s) :
    (∀ p ∈ G.ids, ∀ t, (s.node p).pc t = .waiting → ∀ q ∈ (s.node p).mutex.waiter,
      ∃ entry, (s.node p).mutex.localRequest = some entry ∧
        (RequestInFlight s p q entry ∨ DeferredBehind s q entry ∨ ReplyInFlight s q p)) ∧
    ((∃ p ∈ G.ids, ∃ t, (s.node p).pc t = .waiting) →
      (∃ p ∈ G.ids, ∃ q ∈ G.ids, ∃ msg, Frame.mutex msg ∈ s.net p q) ∨
      (∃ p ∈ G.ids, ∃ t, (s.node p).pc t = .waiting ∧ (s.node p).mutex.waiter.Ready) ∨
      (∃ p ∈ G.ids, ∃ t, (s.node p).pc t = .critical)) := by
  have hwf := wellFormed_of_reach h
  have hinv := waitsInv_of_reachable h
  constructor
  · intro p hp t ht q hq
    obtain ⟨entry, hentry⟩ := (hwf.node p hp).request_of_active t (.inl ht)
    exact ⟨entry, hentry, hinv p hp entry hentry q hq⟩
  · rintro ⟨p, hp, t, ht⟩
    by_contra hstuck
    push Not at hstuck
    obtain ⟨hquiet, hready, hcritical⟩ := hstuck
    obtain ⟨entry, hentry⟩ := (hwf.node p hp).request_of_active t (.inl ht)
    obtain ⟨q, hq, least, hleast, hmin⟩ := exists_min_request ⟨p, hp, entry, hentry⟩
    -- nobody is critical, so the node of the smallest request is waiting
    obtain ⟨-, u, hu | hu⟩ := (hwf.node q hq).active_of_request least hleast
    · obtain ⟨r, hr, own, hown, hlt⟩ :=
        exists_smaller_request hwf hinv hquiet hq hleast (hready q hq u hu)
      exact absurd (hmin r hr own hown) (not_le.mpr hlt)
    · exact hcritical q hq u hu

/-- Node 1 of two has sent its request and waits for node 2. -/
theorem waiting_expects_two_nodes :
    ∃ s : State Unit Empty, (s.node 1).pc () = .waiting ∧ 2 ∈ (s.node 1).mutex.waiter ∧
      ∃ entry, (s.node 1).mutex.localRequest = some entry ∧
        (RequestInFlight s 1 2 entry ∨ DeferredBehind s 2 entry ∨ ReplyInFlight s 2 1) := by
  let G : Group := .ofIds [1, 2] (by decide) (by decide)
  obtain ⟨s, hs, hp⟩ := LabelledSystem.exists_reach_of_exec (system Unit Empty G)
    LabelledSystem.anyStep [.thread 1 (.acquire ()), .thread 1 (.request ())]
    (fun s ↦ (s.node 1).pc () = .waiting ∧ 2 ∈ (s.node 1).mutex.waiter) (by decide)
  obtain ⟨hpc, hmem⟩ : (s.node 1).pc () = .waiting ∧ 2 ∈ (s.node 1).mutex.waiter := by
    simpa using hp
  exact ⟨s, hpc, hmem,
    (waiting_expects_and_not_stuck hs).1 1 (by simp [G, Group.ofIds]) () hpc 2 hmem⟩

end Edsm.Mutex
