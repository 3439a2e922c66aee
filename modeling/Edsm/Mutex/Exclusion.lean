import Edsm.Mutex.System

/-!
# Mutual exclusion

A reply is broadcast to every peer, so a node may count a reply that was meant
for another node.  In runs where this does not happen before the node's own
request has been answered, and no clock wraps, every answered request is smaller
than the answering node's present and future requests; two critical nodes would
each hold the smaller request.
-/

namespace Edsm.Mutex

variable {T D : Type*}

/-! ## Conditions on the steps -/

/-- No `l_time++` wraps while the listener handles the first of these frames. -/
def ReceiveFits (mutex : Mutex) (peerId : UInt32) : List (Frame D) → Prop
  | .mutex msg :: _ =>
      max mutex.lTime.toNat msg.lTime.toNat + 1 +
        (mutex.handleMessage peerId msg).2.length < 2 ^ 32
  | _ => True

/-- No `l_time++` of the step wraps. -/
def NoWrap (s : State T D) : Action T D → Prop
  | .thread p (.request _) => (s.node p).mutex.lTime.toNat + 1 < 2 ^ 32
  | .thread p (.unlock _) =>
      (s.node p).mutex.lTime.toNat + (s.node p).mutex.requests.length < 2 ^ 32
  | .deliver q p => ReceiveFits (s.node p).mutex q (s.net q p)
  | _ => True

instance (mutex : Mutex) (peerId : UInt32) :
    (frames : List (Frame D)) → Decidable (ReceiveFits mutex peerId frames)
  | .mutex _ :: _ => inferInstanceAs (Decidable (_ < _))
  | .data _ :: _ => inferInstanceAs (Decidable True)
  | [] => inferInstanceAs (Decidable True)

instance (s : State T D) : (a : Action T D) → Decidable (NoWrap s a)
  | .thread _ (.request _) => inferInstanceAs (Decidable (_ < _))
  | .thread _ (.unlock _) => inferInstanceAs (Decidable (_ < _))
  | .deliver _ _ => inferInstanceAs (Decidable (ReceiveFits _ _ _))
  | .thread _ (.acquire _) => inferInstanceAs (Decidable True)
  | .thread _ (.enter _) => inferInstanceAs (Decidable True)
  | .thread _ (.release _) => inferInstanceAs (Decidable True)
  | .publish _ _ _ => inferInstanceAs (Decidable True)

/-- `q` has the request of `p` still to come, or defers it. -/
def Outstanding (s : State T D) (p q : UInt32) (entry : RequestEntry) : Prop :=
  RequestInFlight s p q entry ∨ entry ∈ (s.node q).mutex.requests

instance (s : State T D) (p q : UInt32) (entry : RequestEntry) :
    Decidable (Outstanding s p q entry) :=
  inferInstanceAs (Decidable (_ ∨ _))

/-- If the first of these frames is a reply that `p` counts, then `q` has
answered the request of `p`. -/
def CountsAnswer (s : State T D) (q p : UInt32) : List (Frame D) → Prop
  | .mutex msg :: _ => msg.msgType = msgTypeReply → q ∈ (s.node p).mutex.waiter →
      ∀ entry ∈ (s.node p).mutex.localRequest, ¬ Outstanding s p q entry
  | _ => True

/-- A reply that the step counts comes from a node that has answered. -/
def CountsAnswers (s : State T D) : Action T D → Prop
  | .deliver q p => CountsAnswer s q p (s.net q p)
  | _ => True

instance (s : State T D) (q p : UInt32) :
    (frames : List (Frame D)) → Decidable (CountsAnswer s q p frames)
  | .mutex _ :: _ => inferInstanceAs (Decidable (_ → _ → _))
  | .data _ :: _ => inferInstanceAs (Decidable True)
  | [] => inferInstanceAs (Decidable True)

instance (s : State T D) : (a : Action T D) → Decidable (CountsAnswers s a)
  | .deliver _ _ => inferInstanceAs (Decidable (CountsAnswer _ _ _ _))
  | .thread _ _ => inferInstanceAs (Decidable True)
  | .publish _ _ _ => inferInstanceAs (Decidable True)

/-! ## Clocks -/

theorem receiveClock_toNat (mutex : Mutex) (msg : Msg)
    (h : max mutex.lTime.toNat msg.lTime.toNat + 1 < 2 ^ 32) :
    (receiveClock mutex msg).toNat = max mutex.lTime.toNat msg.lTime.toNat + 1 := by
  unfold receiveClock
  rw [UInt32.toNat_add]
  split
  · next hlt =>
      rw [gt_iff_lt, UInt32.lt_iff_toNat_lt] at hlt
      simp
      omega
  · next hlt =>
      rw [gt_iff_lt, UInt32.lt_iff_toNat_lt] at hlt
      simp
      omega

theorem handleMessage_clock {mutex : Mutex} {peerId : UInt32} {msg : Msg}
    (h : max mutex.lTime.toNat msg.lTime.toNat + 1 +
      (mutex.handleMessage peerId msg).2.length < 2 ^ 32) :
    mutex.lTime.toNat < (mutex.handleMessage peerId msg).1.lTime.toNat ∧
      msg.lTime.toNat < (mutex.handleMessage peerId msg).1.lTime.toNat := by
  have hclock := receiveClock_toNat mutex msg (by omega)
  rcases handleMessage_cases mutex peerId msg with
    ⟨-, -, heq⟩ | ⟨-, -, heq⟩ | ⟨-, heq⟩ | ⟨-, -, heq⟩
  · rw [heq] at h ⊢
    simp only [List.length_cons, List.length_nil] at h
    simp only [UInt32.toNat_add, UInt32.toNat_one, hclock]
    omega
  all_goals
    rw [heq]
    simp only [hclock]
    omega

theorem unlock_lTime_toNat {mutex : Mutex}
    (h : mutex.lTime.toNat + mutex.requests.length < 2 ^ 32) :
    mutex.unlock.1.lTime.toNat = mutex.lTime.toNat + mutex.requests.length := by
  rw [unlock_lTime, UInt32.toNat_add, UInt32.toNat_ofNat']
  omega

/-! ## Yielding to a request -/

/-- `entry` has been answered, and every request of the node is larger from then on. -/
def YieldsTo (mutex : Mutex) (entry : RequestEntry) : Prop :=
  entry.lTime.toNat < mutex.lTime.toNat ∧
    ∀ own, mutex.localRequest = some own → entry.rank < own.rank

theorem YieldsTo.mono {mutex mutex' : Mutex} {entry : RequestEntry} (h : mutex.YieldsTo entry)
    (hclock : mutex.lTime.toNat ≤ mutex'.lTime.toNat)
    (hlocal : mutex'.localRequest = mutex.localRequest) : mutex'.YieldsTo entry :=
  ⟨h.1.trans_le hclock, fun own hown ↦ h.2 own (hlocal ▸ hown)⟩

/-- A request made after the answer carries a later clock. -/
theorem YieldsTo.request {mutex : Mutex} {entry : RequestEntry} (h : mutex.YieldsTo entry)
    (hfits : mutex.lTime.toNat + 1 < 2 ^ 32) (waiter : ReplyWaiter) (localId : UInt32) :
    YieldsTo { mutex with
      lTime := mutex.lTime + 1
      waiter := waiter
      localRequest := some ⟨mutex.lTime + 1, localId⟩ } entry := by
  have hclock : entry.lTime.toNat < (mutex.lTime + 1).toNat := by
    rw [UInt32.toNat_add, UInt32.toNat_one]
    have hlt := h.1
    omega
  refine ⟨hclock, fun own hown ↦ ?_⟩
  obtain rfl : ⟨mutex.lTime + 1, localId⟩ = own := Option.some.inj hown
  exact rank_lt_of_lTime_lt hclock

theorem yieldsTo_unlock {mutex : Mutex} {entry : RequestEntry}
    (h : entry.lTime.toNat < mutex.lTime.toNat)
    (hfits : mutex.lTime.toNat + mutex.requests.length < 2 ^ 32) :
    mutex.unlock.1.YieldsTo entry := by
  refine ⟨?_, fun own hown ↦ by simp at hown⟩
  rw [unlock_lTime_toNat hfits]
  exact h.trans_le (Nat.le_add_right _ _)

theorem YieldsTo.handleMessage {mutex : Mutex} {entry : RequestEntry} (h : mutex.YieldsTo entry)
    {peerId : UInt32} {msg : Msg}
    (hfits : max mutex.lTime.toNat msg.lTime.toNat + 1 +
      (mutex.handleMessage peerId msg).2.length < 2 ^ 32) :
    (mutex.handleMessage peerId msg).1.YieldsTo entry :=
  h.mono (handleMessage_clock hfits).1.le (handleMessage_localRequest mutex peerId msg)

theorem yieldsTo_of_answersAtOnce {mutex : Mutex} {peerId : UInt32} {msg : Msg}
    (hans : answersAtOnce mutex.localRequest ⟨msg.lTime, peerId⟩ = true)
    (hfits : max mutex.lTime.toNat msg.lTime.toNat + 1 +
      (mutex.handleMessage peerId msg).2.length < 2 ^ 32) :
    (mutex.handleMessage peerId msg).1.YieldsTo ⟨msg.lTime, peerId⟩ := by
  refine ⟨(handleMessage_clock hfits).2, fun own hown ↦ ?_⟩
  rw [handleMessage_localRequest] at hown
  exact answersAtOnce_iff.mp hans own hown

/-! ## The invariant -/

def Yields (s : State T D) (q : UInt32) (entry : RequestEntry) : Prop :=
  (s.node q).mutex.YieldsTo entry

structure SafeInv (G : Group) (s : State T D) : Prop where
  yields : ∀ p ∈ G.ids, ∀ q ∈ G.ids, p ≠ q → ∀ entry,
    (s.node p).mutex.localRequest = some entry → ¬ Outstanding s p q entry → Yields s q entry
  waits : ∀ p ∈ G.ids, ∀ q ∈ G.ids, p ≠ q → ∀ entry,
    (s.node p).mutex.localRequest = some entry → Outstanding s p q entry →
      q ∈ (s.node p).mutex.waiter
  deferred_lt : ∀ q ∈ G.ids, ∀ entry ∈ (s.node q).mutex.requests,
    entry.lTime.toNat < (s.node q).mutex.lTime.toNat

section Step

variable [DecidableEq T] {G : Group} {s s' : State T D} {p q x : UInt32} {nd : Node T}
  {msgs : List Msg} {entry : RequestEntry} {rest : List (Frame D)}

omit [DecidableEq T] in
/-- A step that keeps the requests of both nodes and the messages between them. -/
theorem Outstanding.congr (hnet : ∀ msg, Frame.mutex msg ∈ s.net p q ↔ Frame.mutex msg ∈ s'.net p q)
    (hrequests : (s'.node q).mutex.requests = (s.node q).mutex.requests) :
    Outstanding s' p q entry ↔ Outstanding s p q entry := by
  simp only [Outstanding, RequestInFlight, hnet, hrequests]

omit [DecidableEq T] in
theorem SafeInv.of_eq (h : SafeInv G s)
    (hnode : ∀ p, (s'.node p).mutex = (s.node p).mutex)
    (hnet : ∀ p q msg, Frame.mutex msg ∈ s.net p q ↔ Frame.mutex msg ∈ s'.net p q) :
    SafeInv G s' where
  yields p hp q hq hpq entry hentry hout := by
    rw [hnode] at hentry
    rw [Outstanding.congr (hnet p q) (by rw [hnode])] at hout
    unfold Yields
    rw [hnode]
    exact h.yields p hp q hq hpq entry hentry hout
  waits p hp q hq hpq entry hentry hout := by
    rw [hnode] at hentry ⊢
    rw [Outstanding.congr (hnet p q) (by rw [hnode])] at hout
    exact h.waits p hp q hq hpq entry hentry hout
  deferred_lt q hq entry hmem := by
    rw [hnode] at hmem ⊢
    exact h.deferred_lt q hq entry hmem

omit [DecidableEq T] in
theorem SafeInv.request (hwf : WellFormed G s) (h : SafeInv G s) (hx : x ∈ G.ids)
    (hm : nd.mutex = { (s.node x).mutex with
      lTime := (s.node x).mutex.lTime + 1
      waiter := (s.node x).mutex.peers
      localRequest := some ⟨(s.node x).mutex.lTime + 1, x⟩ })
    (hfits : (s.node x).mutex.lTime.toNat + 1 < 2 ^ 32) :
    SafeInv G (s.after x nd [⟨msgTypeRequest, (s.node x).mutex.lTime + 1, 0⟩]) := by
  have hpeers : nd.mutex.peers = G.peers x := by simpa [hm] using hwf.peers x hx
  have hclock : nd.mutex.lTime.toNat = (s.node x).mutex.lTime.toNat + 1 := by
    rw [hm]
    simp only [UInt32.toNat_add, UInt32.toNat_one]
    omega
  have hrequests : ∀ q, ((s.after x nd [⟨msgTypeRequest, (s.node x).mutex.lTime + 1, 0⟩]).node
      q).mutex.requests = (s.node q).mutex.requests :=
    after_congr Mutex.requests (by rw [hm])
  have hnet : ∀ {p}, p ≠ x → ∀ q msg, Frame.mutex msg ∈ s.net p q ↔
      Frame.mutex msg ∈
        (s.after x nd [⟨msgTypeRequest, (s.node x).mutex.lTime + 1, 0⟩]).net p q := by
    intro p hpx q msg
    rw [after_net hx hpeers, if_neg fun hc ↦ hpx hc.1]
  refine ⟨fun p hp q hq hpq entry hentry hout ↦ ?_, fun p hp q hq hpq entry hentry hout ↦ ?_,
    fun q hq entry hmem ↦ ?_⟩
  · by_cases hpx : p = x
    · -- the request has only just been sent
      subst hpx
      obtain rfl : ⟨(s.node p).mutex.lTime + 1, p⟩ = entry := by simpa [hm] using hentry
      refine absurd (.inl ⟨⟨msgTypeRequest, (s.node p).mutex.lTime + 1, 0⟩, rfl, rfl, ?_⟩) hout
      simp [after_net hp hpeers, hq, Ne.symm hpq]
    · rw [after_node_ne hpx] at hentry
      rw [Outstanding.congr (hnet hpx q) (hrequests q)] at hout
      have hy := h.yields p hp q hq hpq entry hentry hout
      unfold Yields
      by_cases hqx : q = x
      · subst hqx
        rw [after_node_self, hm]
        exact hy.request hfits _ _
      · rw [after_node_ne hqx]
        exact hy
  · by_cases hpx : p = x
    · subst hpx
      simp [hm, hwf.peers p hp, G.mem_peers p hp, hq, Ne.symm hpq]
    · rw [after_node_ne hpx] at hentry ⊢
      rw [Outstanding.congr (hnet hpx q) (hrequests q)] at hout
      exact h.waits p hp q hq hpq entry hentry hout
  · rw [hrequests] at hmem
    have hlt := h.deferred_lt q hq entry hmem
    by_cases hqx : q = x
    · subst hqx
      rw [after_node_self, hclock]
      exact Nat.lt_succ_of_lt hlt
    · rwa [after_node_ne hqx]

omit [DecidableEq T] in
theorem SafeInv.unlock (hwf : WellFormed G s) (h : SafeInv G s) (hx : x ∈ G.ids)
    (hm : nd.mutex = (s.node x).mutex.unlock.1)
    (hfits : (s.node x).mutex.lTime.toNat + (s.node x).mutex.requests.length < 2 ^ 32) :
    SafeInv G (s.after x nd (s.node x).mutex.unlock.2) := by
  have hpeers : nd.mutex.peers = G.peers x := by simpa [hm] using hwf.peers x hx
  have hnet : ∀ {p}, p ≠ x → ∀ q msg, Frame.mutex msg ∈ s.net p q ↔
      Frame.mutex msg ∈ (s.after x nd (s.node x).mutex.unlock.2).net p q := by
    intro p hpx q msg
    rw [after_net hx hpeers, if_neg fun hc ↦ hpx hc.1]
  refine ⟨fun p hp q hq hpq entry hentry hout ↦ ?_, fun p hp q hq hpq entry hentry hout ↦ ?_,
    fun q hq entry hmem ↦ ?_⟩
  · have hpx : p ≠ x := by
      rintro rfl
      simp [hm] at hentry
    rw [after_node_ne hpx] at hentry
    by_cases hqx : q = x
    · -- whatever `x` had deferred it answers now, and it has no request any more
      subst hqx
      unfold Yields
      rw [after_node_self, hm]
      refine yieldsTo_unlock ?_ hfits
      by_cases hbefore : Outstanding s p q entry
      · have hdeferred : entry ∈ (s.node q).mutex.requests := by
          refine hbefore.resolve_left fun ⟨msg, htype, htime, hmsg⟩ ↦ hout (.inl ?_)
          exact ⟨msg, htype, htime, (hnet hpx q msg).mp hmsg⟩
        exact h.deferred_lt q hq entry hdeferred
      · exact (h.yields p hp q hq hpq entry hentry hbefore).1
    · rw [Outstanding.congr (hnet hpx q) (by rw [after_node_ne hqx])] at hout
      unfold Yields
      rw [after_node_ne hqx]
      exact h.yields p hp q hq hpq entry hentry hout
  · have hpx : p ≠ x := by
      rintro rfl
      simp [hm] at hentry
    rw [after_node_ne hpx] at hentry ⊢
    refine h.waits p hp q hq hpq entry hentry ?_
    rcases hout with ⟨msg, htype, htime, hmsg⟩ | hmem
    · exact .inl ⟨msg, htype, htime, (hnet hpx q msg).mpr hmsg⟩
    · by_cases hqx : q = x
      · subst hqx
        simp [hm] at hmem
      · exact .inr (by simpa [after_node_ne hqx] using hmem)
  · by_cases hqx : q = x
    · subst hqx
      simp [hm] at hmem
    · rw [after_node_ne hqx] at hmem ⊢
      exact h.deferred_lt q hq entry hmem

omit [DecidableEq T] in
/-- What `x` has outstanding after handling `msg` it had before. -/
theorem outstanding_of_handle (hwf : WellFormed G s) (hx : x ∈ G.ids) {msg : Msg}
    (hhead : s.net q x = .mutex msg :: rest) {r : UInt32} (hp : entry.peerId = p)
    (h : Outstanding ((s.takeFrame q x rest).after x ((s.node x).handle q msg).1
      ((s.node x).handle q msg).2) p r entry) : Outstanding s p r entry := by
  have hpeers := hwf.peers_handle hx q msg
  rcases h with ⟨req, htype, htime, hreq⟩ | hmem
  · rcases of_mem_after_net hx hpeers hreq with hreq | ⟨rfl, hsent⟩
    · exact .inl ⟨req, htype, htime, of_mem_takeFrame hhead hreq⟩
    · -- the handler sends replies only
      have hreply := handleMessage_msgType hsent
      rw [htype] at hreply
      simp [msgTypeRequest, msgTypeReply] at hreply
  · by_cases hrx : r = x
    · subst hrx
      rw [after_node_self] at hmem
      rcases of_mem_handleMessage_requests hmem with hmem | ⟨htype, rfl⟩
      · exact .inr hmem
      · simp only at hp
        subst hp
        exact .inl ⟨msg, htype, rfl, by simp [hhead]⟩
    · exact .inr (by simpa [after_node_ne hrx] using hmem)

omit [DecidableEq T] in
/-- A request that was outstanding at `x` and no longer is has been answered. -/
theorem yields_of_handle (hwf : WellFormed G s) (hx : x ∈ G.ids) {msg : Msg}
    (hhead : s.net q x = .mutex msg :: rest) {r : UInt32} (hid : entry.peerId = p)
    (hfits : max (s.node x).mutex.lTime.toNat msg.lTime.toNat + 1 +
      ((s.node x).mutex.handleMessage q msg).2.length < 2 ^ 32)
    (hbefore : Outstanding s p r entry)
    (hafter : ¬ Outstanding ((s.takeFrame q x rest).after x ((s.node x).handle q msg).1
      ((s.node x).handle q msg).2) p r entry) :
    Yields ((s.takeFrame q x rest).after x ((s.node x).handle q msg).1
      ((s.node x).handle q msg).2) r entry := by
  have hpeers := hwf.peers_handle hx q msg
  rcases hbefore with ⟨req, htype, htime, hreq⟩ | hmem
  · rcases mem_takeFrame hhead hreq with ⟨heq, rfl, rfl⟩ | hreq
    · obtain rfl : req = msg := Frame.mutex.inj heq
      have hother : (⟨req.lTime, p⟩ : RequestEntry) = entry := by simp [htime, ← hid]
      rcases handleMessage_cases (s.node r).mutex p req with
        ⟨-, hans, -⟩ | ⟨-, -, heq⟩ | ⟨hreply, -⟩ | ⟨hbad, -, -⟩
      · unfold Yields
        rw [after_node_self, ← hother]
        exact yieldsTo_of_answersAtOnce hans hfits
      · refine absurd (.inr ?_) hafter
        simp [Node.handle, heq, mem_sortRequests, hother]
      · simp [htype, msgTypeRequest, msgTypeReply] at hreply
      · exact absurd htype hbad
    · exact absurd (.inl ⟨req, htype, htime, mem_after_net hx hpeers hreq⟩) hafter
  · refine absurd (.inr ?_) hafter
    by_cases hrx : r = x
    · subst hrx
      simpa [Node.handle] using handleMessage_requests_mono hmem
    · simpa [after_node_ne hrx] using hmem

omit [DecidableEq T] in
theorem SafeInv.handle (hwf : WellFormed G s) (h : SafeInv G s) (hq : q ∈ G.ids)
    (hx : x ∈ G.ids) {msg : Msg} (hhead : s.net q x = .mutex msg :: rest)
    (hfits : max (s.node x).mutex.lTime.toNat msg.lTime.toNat + 1 +
      ((s.node x).mutex.handleMessage q msg).2.length < 2 ^ 32)
    (hcounts : CountsAnswers s (.deliver q x : Action T D)) :
    SafeInv G ((s.takeFrame q x rest).after x ((s.node x).handle q msg).1
      ((s.node x).handle q msg).2) := by
  have hlocal : ∀ p, (((s.takeFrame q x rest).after x ((s.node x).handle q msg).1
      ((s.node x).handle q msg).2).node p).mutex.localRequest =
        (s.node p).mutex.localRequest := by
    intro p
    by_cases hpx : p = x
    · subst hpx
      simp [Node.handle]
    · simp [after_node_ne hpx]
  have hclock := handleMessage_clock hfits
  refine ⟨fun p hp r hr hpr entry hentry hout ↦ ?_, fun p hp r hr hpr entry hentry hout ↦ ?_,
    fun r hr entry hmem ↦ ?_⟩
  · rw [hlocal] at hentry
    have hid : entry.peerId = p := ((hwf.node p hp).active_of_request entry hentry).1
    by_cases hbefore : Outstanding s p r entry
    · exact yields_of_handle hwf hx hhead hid hfits hbefore hout
    · have hy := h.yields p hp r hr hpr entry hentry hbefore
      unfold Yields
      by_cases hrx : r = x
      · subst hrx
        rw [after_node_self]
        exact hy.handleMessage hfits
      · rw [after_node_ne hrx]
        exact hy
  · rw [hlocal] at hentry
    have hid : entry.peerId = p := ((hwf.node p hp).active_of_request entry hentry).1
    have hbefore := outstanding_of_handle hwf hx hhead hid hout
    have hwaits := h.waits p hp r hr hpr entry hentry hbefore
    by_cases hpx : p = x
    · subst hpx
      rw [after_node_self]
      rcases handleMessage_waiter (s.node p).mutex q msg with heq | ⟨htype, heq⟩
      · simpa [Node.handle, heq] using hwaits
      · -- the counted reply is not from `r`, which has not answered yet
        have hrq : r ≠ q := by
          rintro rfl
          rw [CountsAnswers, hhead] at hcounts
          exact hcounts htype hwaits entry hentry hbefore
        simpa [Node.handle, heq, ReplyWaiter.mem_addReply_of_ne hrq] using hwaits
    · simpa [after_node_ne hpx] using hwaits
  · by_cases hrx : r = x
    · subst hrx
      rw [after_node_self] at hmem ⊢
      rcases of_mem_handleMessage_requests hmem with hmem | ⟨-, rfl⟩
      · exact (h.deferred_lt r hr entry hmem).trans hclock.1
      · exact hclock.2
    · rw [after_node_ne hrx] at hmem ⊢
      exact h.deferred_lt r hr entry hmem

omit [DecidableEq T] in
theorem SafeInv.step (hwf : WellFormed G s) (h : SafeInv G s) {a : Action T D}
    (hfits : NoWrap s a) (hcounts : CountsAnswers s a) (he : Effect G s a s') : SafeInv G s' := by
  cases he with
  | quiet x a nd hx hm =>
      have hpeers : nd.mutex.peers = G.peers x := hm ▸ hwf.peers x hx
      refine h.of_eq (fun p ↦ ?_) fun p q msg ↦ ?_
      · by_cases hpx : p = x
        · subst hpx
          simpa using hm
        · rw [after_node_ne hpx]
      · rw [after_net hx hpeers]
        split <;> simp
  | request x t nd hx hnone _ hm => exact h.request hwf hx hm hfits
  | unlock x t nd hx hpc hm => exact h.unlock hwf hx hm hfits
  | handle q x msg rest hq hx hhead =>
      refine h.handle hwf hq hx hhead ?_ hcounts
      simpa [NoWrap, hhead, ReceiveFits] using hfits
  | publish x t d hx hpc =>
      exact h.of_eq (fun _ ↦ rfl) fun _ _ _ ↦ (mutex_mem_sendData_net hx (hwf.peers x hx)).symm
  | data q x d rest hq hx hhead =>
      exact h.of_eq (fun _ ↦ rfl) fun _ _ _ ↦
        ⟨fun hmsg ↦ (mem_takeFrame hhead hmsg).resolve_left (by simp), of_mem_takeFrame hhead⟩

end Step

/-! ## Runs -/

section Runs

variable [DecidableEq T] {G : Group} {s : State T D}

/-- The steps under which the mutex excludes: no clock wraps and a reply is
counted only after its sender has answered. -/
def Orderly (s : State T D) (a : Action T D) : Prop := NoWrap s a ∧ CountsAnswers s a

instance (s : State T D) (a : Action T D) : Decidable (Orderly s a) :=
  inferInstanceAs (Decidable (_ ∧ _))

theorem safeInv_of_reach (h : (system T D G).Reach Orderly s) : SafeInv G s := by
  refine invariant_of_effect (SafeInv G) ⟨?_, ?_, ?_⟩
    (fun hwf _ ih ha _ he ↦ ih.step hwf ha.1 ha.2 he) h
  · intro p _ q _ _ entry hentry
    simp [system, initialNode] at hentry
  · intro p _ q _ _ entry hentry
    simp [system, initialNode] at hentry
  · intro q _ entry hmem
    simp [system, initialNode] at hmem

omit [DecidableEq T] in
/-- A node that waits for nobody has the yield of every other node. -/
theorem SafeInv.yields_of_waiter_nil (h : SafeInv G s) {p q : UInt32} (hp : p ∈ G.ids)
    (hq : q ∈ G.ids) (hpq : p ≠ q) {entry : RequestEntry}
    (hentry : (s.node p).mutex.localRequest = some entry) (hw : (s.node p).mutex.waiter = []) :
    Yields s q entry := by
  refine h.yields p hp q hq hpq entry hentry fun hout ↦ ?_
  have hmem := h.waits p hp q hq hpq entry hentry hout
  simp [hw] at hmem

/-- At most one thread of the whole group is between the two calls. -/
def Exclusive (G : Group) (s : State T D) : Prop :=
  ∀ p ∈ G.ids, ∀ q ∈ G.ids, ∀ t u, (s.node p).pc t = .critical → (s.node q).pc u = .critical →
    p = q ∧ t = u

omit [DecidableEq T] in
theorem exclusive_of_safeInv (hwf : WellFormed G s) (h : SafeInv G s) : Exclusive G s := by
  intro p hp q hq t u ht hu
  by_cases hpq : p = q
  · subst hpq
    exact ⟨rfl, (hwf.node p hp).unique (by simp [ht]) (by simp [hu])⟩
  · obtain ⟨entry, hentry⟩ := (hwf.node p hp).request_of_active t (.inr ht)
    obtain ⟨own, hown⟩ := (hwf.node q hq).request_of_active u (.inr hu)
    have hpw := (hwf.node p hp).waiter_nil_of_pc (t := t) (.inr (by simp [ht])) (by simp [ht])
    have hqw := (hwf.node q hq).waiter_nil_of_pc (t := u) (.inr (by simp [hu])) (by simp [hu])
    have hlt := (h.yields_of_waiter_nil hp hq hpq hentry hpw).2 own hown
    have hgt := (h.yields_of_waiter_nil hq hp (Ne.symm hpq) hown hqw).2 entry hentry
    exact absurd hlt (not_lt.mpr hgt.le)

/-- Mutual exclusion in every run of orderly steps. -/
theorem exclusive_of_orderly (h : (system T D G).Reach Orderly s) : Exclusive G s :=
  exclusive_of_safeInv (wellFormed_of_reach h) (safeInv_of_reach h)

/-- Node 2 answers node 1 before its own request, and defers nothing. -/
theorem exclusive_of_orderly_two_nodes :
    ∃ s : State Unit Empty, (s.node 1).pc () = .critical ∧ (s.node 2).pc () = .waiting ∧
      Exclusive (.ofIds [1, 2] (by decide) (by decide)) s := by
  let G : Group := .ofIds [1, 2] (by decide) (by decide)
  obtain ⟨s, hs, hp⟩ := LabelledSystem.exists_reach_of_exec (system Unit Empty G)
    Orderly [.thread 1 (.acquire ()), .thread 1 (.request ()), .deliver 1 2,
      .deliver 2 1, .thread 2 (.acquire ()), .thread 2 (.request ()), .thread 1 (.enter ())]
    (fun s ↦ (s.node 1).pc () = .critical ∧ (s.node 2).pc () = .waiting) (by decide)
  obtain ⟨h1, h2⟩ : (s.node 1).pc () = .critical ∧ (s.node 2).pc () = .waiting := by
    simpa using hp
  exact ⟨s, h1, h2, exclusive_of_orderly hs⟩

/-- Nodes 1 and 2 count each other's reply to node 3 and the replies of node 3. -/
def strayReplies : List (Action Unit Empty) :=
  [.thread 3 (.acquire ()), .thread 3 (.request ()), .deliver 3 1, .deliver 3 2,
    .thread 2 (.acquire ()), .thread 2 (.request ()),
    .thread 1 (.acquire ()), .thread 1 (.request ()),
    .deliver 1 2, .deliver 2 1, .deliver 1 3, .deliver 2 3, .thread 3 (.enter ()),
    .deliver 1 3, .deliver 2 3, .thread 3 (.unlock ()), .deliver 3 1, .deliver 3 2,
    .thread 1 (.enter ()), .thread 2 (.enter ())]

theorem not_exclusive_of_noWrap :
    ¬ ∀ (G : Group) (s : State Unit Empty), 2 ≤ G.ids.length →
      (system Unit Empty G).Reach NoWrap s → Exclusive G s := by
  intro h
  let G : Group := .ofIds [1, 2, 3] (by decide) (by decide)
  obtain ⟨s, hs, hp⟩ := LabelledSystem.exists_reach_of_exec (system Unit Empty G)
    NoWrap strayReplies (fun s ↦ (s.node 1).pc () = .critical ∧ (s.node 2).pc () = .critical)
    (by decide)
  obtain ⟨h1, h2⟩ : (s.node 1).pc () = .critical ∧ (s.node 2).pc () = .critical := by
    simpa using hp
  have heq := (h G s (by decide) hs 1 (by decide) 2 (by decide) () () h1 h2).1
  exact absurd heq (by decide)

end Runs

end Edsm.Mutex
