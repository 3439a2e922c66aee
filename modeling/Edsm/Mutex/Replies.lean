import Edsm.Mutex.Turns

/-!
# Replies that reach the node they were meant for

If a node only ever counts replies that were sent to it, then for each peer it
waits for there is exactly one of: its request on the way, the deferred request,
the reply on the way.  Such runs are orderly, and no data is behind a reply that
is counted: the nodes take turns.
-/

namespace Edsm.Mutex

variable {T D : Type*}

def Frame.isRequest (f : Frame D) : Bool := f.asMsg.any fun msg ↦ msg.msgType = msgTypeRequest

/-- A reply sent by `edsm_mutex_send_reply` for `p`. -/
def Frame.isReplyFor (p : UInt32) (f : Frame D) : Bool :=
  f.asMsg.any fun msg ↦ msg.msgType = msgTypeReply ∧ msg.peerId = p

/-- If the first of these frames is a reply that `p` counts, it was sent for `p`. -/
def CountsOwn (s : State T D) (q p : UInt32) : List (Frame D) → Prop
  | .mutex msg :: _ => msg.msgType = msgTypeReply → q ∈ (s.node p).mutex.waiter → msg.peerId = p
  | _ => True

instance (s : State T D) (q p : UInt32) :
    (frames : List (Frame D)) → Decidable (CountsOwn s q p frames)
  | .mutex _ :: _ => inferInstanceAs (Decidable (_ → _ → _))
  | .data _ :: _ => inferInstanceAs (Decidable True)
  | [] => inferInstanceAs (Decidable True)

/-- A reply that the step counts was sent for the node that counts it. -/
def CountsOwnReplies (s : State T D) : Action T D → Prop
  | .deliver q p => CountsOwn s q p (s.net q p)
  | _ => True

instance (s : State T D) : (a : Action T D) → Decidable (CountsOwnReplies s a)
  | .deliver _ _ => inferInstanceAs (Decidable (CountsOwn _ _ _ _))
  | .thread _ _ => inferInstanceAs (Decidable True)
  | .publish _ _ _ => inferInstanceAs (Decidable True)

/-- What `p` and `q` have between them for a request of `p`. -/
def owed (s : State T D) (p q : UInt32) : ℕ :=
  (s.net p q).countP Frame.isRequest +
    (s.node q).mutex.requests.countP (fun entry ↦ entry.peerId = p) +
      (s.net q p).countP (Frame.isReplyFor p)

/-- One reply is owed by each node that is waited for, and none by the others. -/
def OwedInv (G : Group) (s : State T D) : Prop :=
  ∀ p ∈ G.ids, ∀ q ∈ G.ids, p ≠ q → owed s p q = if q ∈ (s.node p).mutex.waiter then 1 else 0

section Step

variable [DecidableEq T] {G : Group} {s s' : State T D} {p q x : UInt32} {nd : Node T}
  {msgs : List Msg} {entry : RequestEntry} {rest : List (Frame D)}

@[simp] theorem Frame.isRequest_data (d : D) : (Frame.data d).isRequest = false := rfl

@[simp] theorem Frame.isReplyFor_data (p : UInt32) (d : D) :
    (Frame.data d).isReplyFor p = false := rfl

@[simp] theorem Frame.isRequest_mutex (msg : Msg) :
    (Frame.mutex msg : Frame D).isRequest = decide (msg.msgType = msgTypeRequest) := rfl

@[simp] theorem Frame.isReplyFor_mutex (p : UInt32) (msg : Msg) :
    (Frame.mutex msg : Frame D).isReplyFor p =
      decide (msg.msgType = msgTypeReply ∧ msg.peerId = p) := rfl

omit [DecidableEq T] in
theorem countP_after_net (hx : x ∈ G.ids) (hpeers : nd.mutex.peers = G.peers x)
    (test : Frame D → Bool) (a b : UInt32) :
    ((s.after x nd msgs).net a b).countP test =
      (s.net a b).countP test +
        if a = x ∧ b ∈ G.ids ∧ b ≠ x then msgs.countP (fun msg ↦ test (.mutex msg)) else 0 := by
  rw [after_net hx hpeers]
  split
  · rw [List.countP_append, List.countP_map]
    rfl
  · rfl

omit [DecidableEq T] in
theorem countP_takeFrame_net {f : Frame D} (hhead : s.net q x = f :: rest)
    (test : Frame D → Bool) (a b : UInt32) :
    (s.net a b).countP test = ((s.takeFrame q x rest).net a b).countP test +
      if a = q ∧ b = x ∧ test f = true then 1 else 0 := by
  rw [takeFrame_net]
  by_cases hab : a = q ∧ b = x
  · obtain ⟨rfl, rfl⟩ := hab
    rw [if_pos ⟨rfl, rfl⟩, hhead, List.countP_cons]
    simp
  · rw [if_neg hab, if_neg fun hc ↦ hab ⟨hc.1, hc.2.1⟩]
    rfl

/-- Sending only requests or only replies leaves the other count alone. -/
theorem countP_isReplyFor_of_requests {sent : List Msg}
    (h : ∀ msg ∈ sent, msg.msgType = msgTypeRequest) (p : UInt32) :
    sent.countP (fun msg ↦ (Frame.mutex msg : Frame D).isReplyFor p) = 0 := by
  refine List.countP_eq_zero.mpr fun msg hmsg ↦ ?_
  simp [h msg hmsg, msgTypeRequest, msgTypeReply]

theorem countP_isRequest_of_replies {sent : List Msg}
    (h : ∀ msg ∈ sent, msg.msgType = msgTypeReply) :
    sent.countP (fun msg ↦ (Frame.mutex msg : Frame D).isRequest) = 0 := by
  refine List.countP_eq_zero.mpr fun msg hmsg ↦ ?_
  simp [h msg hmsg, msgTypeRequest, msgTypeReply]

/-- The replies of an unlock, counted by their addressee. -/
theorem countP_unlock (mutex : Mutex) (p : UInt32) :
    mutex.unlock.2.countP (fun msg ↦ (Frame.mutex msg : Frame D).isReplyFor p) =
      mutex.requests.countP (fun entry ↦ entry.peerId = p) := by
  have hids := unlock_peerIds mutex
  calc
    mutex.unlock.2.countP (fun msg ↦ (Frame.mutex msg : Frame D).isReplyFor p) =
        mutex.unlock.2.countP (fun msg ↦ msg.peerId = p) :=
      List.countP_congr fun msg hmsg ↦ by simp [unlock_msgType hmsg]
    _ = (mutex.unlock.2.map Msg.peerId).countP (fun id ↦ id = p) := by
      rw [List.countP_map]
      rfl
    _ = (mutex.requests.map RequestEntry.peerId).countP (fun id ↦ id = p) := by rw [hids]
    _ = mutex.requests.countP (fun entry ↦ entry.peerId = p) := by
      rw [List.countP_map]
      rfl

omit [DecidableEq T] in
theorem OwedInv.of_eq (h : OwedInv G s) (hnode : ∀ p, (s'.node p).mutex = (s.node p).mutex)
    (hrequest : ∀ a b, (s'.net a b).countP Frame.isRequest = (s.net a b).countP Frame.isRequest)
    (hreply : ∀ p a b, (s'.net a b).countP (Frame.isReplyFor p) =
      (s.net a b).countP (Frame.isReplyFor p)) : OwedInv G s' := by
  intro p hp q hq hpq
  simpa only [owed, hnode, hrequest, hreply] using h p hp q hq hpq

omit [DecidableEq T] in
theorem OwedInv.request (hwf : WellFormed G s) (h : OwedInv G s) (hx : x ∈ G.ids)
    (hwaiter : (s.node x).mutex.waiter = [])
    (hm : nd.mutex = { (s.node x).mutex with
      lTime := (s.node x).mutex.lTime + 1
      waiter := (s.node x).mutex.peers
      localRequest := some ⟨(s.node x).mutex.lTime + 1, x⟩ }) :
    OwedInv G (s.after x nd [⟨msgTypeRequest, (s.node x).mutex.lTime + 1, 0⟩]) := by
  have hpeers : nd.mutex.peers = G.peers x := by simpa [hm] using hwf.peers x hx
  have hrequests : ∀ q, ((s.after x nd [⟨msgTypeRequest, (s.node x).mutex.lTime + 1, 0⟩]).node
      q).mutex.requests = (s.node q).mutex.requests :=
    after_congr Mutex.requests (by rw [hm])
  intro p hp q hq hpq
  have hbefore := h p hp q hq hpq
  unfold owed at hbefore ⊢
  rw [countP_after_net hx hpeers, countP_after_net hx hpeers, hrequests,
    countP_isReplyFor_of_requests (by simp)]
  by_cases hpx : p = x
  · subst hpx
    have hmem : q ∈ G.peers p := (G.mem_peers p hp q).mpr ⟨hq, Ne.symm hpq⟩
    simp only [hwaiter, List.not_mem_nil, if_false] at hbefore
    simp [hq, Ne.symm hpq, hm, hwf.peers p hp, hmem]
    omega
  · rw [after_node_ne hpx, ← hbefore]
    simp [hpx]

omit [DecidableEq T] in
theorem OwedInv.unlock (hwf : WellFormed G s) (h : OwedInv G s) (hx : x ∈ G.ids)
    (hm : nd.mutex = (s.node x).mutex.unlock.1) :
    OwedInv G (s.after x nd (s.node x).mutex.unlock.2) := by
  have hpeers : nd.mutex.peers = G.peers x := by simpa [hm] using hwf.peers x hx
  intro p hp q hq hpq
  have hwaiter : ((s.after x nd (s.node x).mutex.unlock.2).node p).mutex.waiter =
      (s.node p).mutex.waiter :=
    after_congr Mutex.waiter (by simp [hm]) p
  rw [hwaiter, ← h p hp q hq hpq]
  unfold owed
  rw [countP_after_net hx hpeers, countP_after_net hx hpeers, countP_unlock,
    countP_isRequest_of_replies fun msg hmsg ↦ unlock_msgType hmsg]
  by_cases hqx : q = x
  · -- the deferred requests become replies
    subst hqx
    simp [hm, hp, hpq]
    omega
  · rw [after_node_ne hqx]
    simp [hqx]

/-- The frames and the deferred requests that handling `msg` from `q` consumes and
produces. -/
theorem handle_balance (mutex : Mutex) (q : UInt32) (msg : Msg) (r : UInt32) :
    (if r = q ∧ msg.msgType = msgTypeRequest then 1 else 0) +
        mutex.requests.countP (fun entry ↦ entry.peerId = r) =
      (mutex.handleMessage q msg).1.requests.countP (fun entry ↦ entry.peerId = r) +
        (mutex.handleMessage q msg).2.countP
          (fun msg ↦ (Frame.mutex msg : Frame D).isReplyFor r) := by
  rcases handleMessage_cases mutex q msg with
    ⟨htype, -, heq⟩ | ⟨htype, -, heq⟩ | ⟨htype, heq⟩ | ⟨htype, -, heq⟩
  · by_cases hr : r = q
    · subst hr
      simp [heq, htype]
      omega
    · simp [heq, htype, hr, Ne.symm hr]
  · rw [heq]
    simp only [(sortRequests_perm _).countP_eq, List.countP_append]
    by_cases hr : r = q
    · subst hr
      simp [htype]
      omega
    · simp [htype, hr, Ne.symm hr]
  · simp [heq, htype, msgTypeRequest, msgTypeReply]
  · simp [heq, htype]

omit [DecidableEq T] in
theorem OwedInv.handle (hwf : WellFormed G s) (h : OwedInv G s) (hq : q ∈ G.ids)
    (hx : x ∈ G.ids) {msg : Msg} (hhead : s.net q x = .mutex msg :: rest)
    (hown : msg.msgType = msgTypeReply → q ∈ (s.node x).mutex.waiter → msg.peerId = x) :
    OwedInv G ((s.takeFrame q x rest).after x ((s.node x).handle q msg).1
      ((s.node x).handle q msg).2) := by
  have hpeers := hwf.peers_handle hx q msg
  have hqx : q ≠ x := hwf.ne_of_head hq hhead
  have hnone : ((s.node x).handle q msg).2.countP
      (fun msg ↦ (Frame.mutex msg : Frame D).isRequest) = 0 :=
    countP_isRequest_of_replies fun _ hmsg ↦ handleMessage_msgType hmsg
  intro p hp r hr hpr
  have hbefore := h p hp r hr hpr
  have hreq := countP_takeFrame_net hhead Frame.isRequest p r
  have hrep := countP_takeFrame_net hhead (Frame.isReplyFor p) r p
  unfold owed at hbefore ⊢
  rw [countP_after_net hx hpeers, countP_after_net hx hpeers, hnone]
  by_cases hrx : r = x
  · -- what `x` owes to `p` changes its form
    subst hrx
    have hbalance := handle_balance (D := D) (s.node r).mutex q msg p
    have hrq : r ≠ q := Ne.symm hqx
    rw [after_node_self, after_node_ne hpr, takeFrame_node, ← hbefore, hreq, hrep]
    simp [Node.handle, hp, hpr, hrq] at hbalance ⊢
    omega
  · rw [after_node_ne hrx, takeFrame_node]
    have hrx' : ¬ (p = q ∧ r = x ∧ (Frame.mutex msg : Frame D).isRequest = true) :=
      fun hc ↦ hrx hc.2.1
    rw [if_neg hrx'] at hreq
    by_cases hpx : p = x
    · -- a reply for `x` from a node it waits for settles the debt
      subst hpx
      rw [after_node_self]
      simp only [Node.handle, mem_handle_waiter (hwf.node p hp).waiter_nodup]
      by_cases hsettles : r = q ∧ msg.msgType = msgTypeReply
      · obtain ⟨rfl, htype⟩ := hsettles
        have hgone : ¬ (r ∈ (s.node p).mutex.waiter ∧
            ¬ (msg.msgType = msgTypeReply ∧ r = r)) := fun hc ↦ hc.2 ⟨htype, rfl⟩
        have hsent : ¬ (r = p ∧ p ∈ G.ids ∧ p ≠ p) := fun hc ↦ hrx hc.1
        rw [if_neg hgone, if_neg hsent, ite_self]
        by_cases hmem : r ∈ (s.node p).mutex.waiter
        · rw [if_pos ⟨rfl, rfl, by simp [htype, hown htype hmem]⟩] at hrep
          rw [if_pos hmem] at hbefore
          omega
        · rw [if_neg hmem] at hbefore
          omega
      · have hkeep : ¬ (msg.msgType = msgTypeReply ∧ r = q) := fun hc ↦ hsettles hc.symm
        have hnot : ¬ (r = q ∧ p = p ∧ (Frame.mutex msg : Frame D).isReplyFor p = true) := by
          simp only [Frame.isReplyFor_mutex, decide_eq_true_eq]
          exact fun hc ↦ hsettles ⟨hc.1, hc.2.2.1⟩
        rw [if_neg hnot] at hrep
        simp only [hkeep, not_false_iff, and_true, ← hbefore]
        simp [hrx]
        omega
    · have hnot : ¬ (r = q ∧ p = x ∧ (Frame.mutex msg : Frame D).isReplyFor p = true) :=
        fun hc ↦ hpx hc.2.1
      rw [if_neg hnot] at hrep
      rw [after_node_ne hpx, takeFrame_node, ← hbefore]
      simp [hrx]
      omega

omit [DecidableEq T] in
theorem OwedInv.step (hwf : WellFormed G s) (h : OwedInv G s) {a : Action T D}
    (hown : CountsOwnReplies s a) (he : Effect G s a s') : OwedInv G s' := by
  cases he with
  | quiet x a nd hx hm =>
      have hpeers : nd.mutex.peers = G.peers x := hm ▸ hwf.peers x hx
      refine h.of_eq (fun p ↦ ?_) (fun a b ↦ ?_) fun p a b ↦ ?_
      · by_cases hpx : p = x
        · subst hpx
          simpa using hm
        · rw [after_node_ne hpx]
      · simp [countP_after_net hx hpeers]
      · simp [countP_after_net hx hpeers]
  | request x t nd hx _ hwaiter hm => exact h.request hwf hx hwaiter hm
  | unlock x t nd hx hpc hm => exact h.unlock hwf hx hm
  | handle q x msg rest hq hx hhead =>
      refine h.handle hwf hq hx hhead ?_
      rwa [CountsOwnReplies, hhead] at hown
  | publish x t d hx hpc =>
      refine h.of_eq (fun _ ↦ rfl) (fun a b ↦ ?_) fun p a b ↦ ?_
      all_goals
        rw [sendData_net hx (hwf.peers x hx)]
        split <;> simp
  | data q x d rest hq hx hhead =>
      refine h.of_eq (fun _ ↦ rfl) (fun a b ↦ ?_) fun p a b ↦ ?_
      · simpa using (countP_takeFrame_net hhead Frame.isRequest a b).symm
      · simpa using (countP_takeFrame_net hhead (Frame.isReplyFor p) a b).symm

/-! ## Data before the reply -/

/-- No data is behind a reply for the node that the channel leads to. -/
def RepliesLast (G : Group) (s : State T D) : Prop :=
  ∀ p ∈ G.ids, ∀ q ∈ G.ids,
    (s.net q p).Pairwise fun f g ↦ f.isReplyFor p = true → g.isData = false

omit [DecidableEq T] in
/-- What is outstanding takes up the whole debt, so no reply is on the way. -/
theorem not_isReplyFor_of_outstanding (h : OwedInv G s) (hp : p ∈ G.ids) (hq : q ∈ G.ids)
    (hpq : p ≠ q) (hid : entry.peerId = p) (hout : Outstanding s p q entry) :
    ∀ f ∈ s.net q p, f.isReplyFor p = false := by
  have hle : owed s p q ≤ 1 := by
    rw [h p hp q hq hpq]
    split <;> omega
  have hpos : 0 < (s.net p q).countP Frame.isRequest +
      (s.node q).mutex.requests.countP (fun entry ↦ entry.peerId = p) := by
    rcases hout with ⟨msg, htype, -, hmsg⟩ | hmem
    · exact Nat.add_pos_left (List.countP_pos_iff.mpr ⟨_, hmsg, by simp [htype]⟩) _
    · exact Nat.add_pos_right _ (List.countP_pos_iff.mpr ⟨_, hmem, by simp [hid]⟩)
  have hzero : (s.net q p).countP (Frame.isReplyFor p) = 0 := by
    unfold owed at hle
    omega
  exact fun f hf ↦ Bool.eq_false_iff.mpr (List.countP_eq_zero.mp hzero f hf)

omit [DecidableEq T] in
theorem not_isReplyFor_of_critical (hwf : WellFormed G s) (hsafe : SafeInv G s)
    (howed : OwedInv G s) (hp : p ∈ G.ids) (hq : q ∈ G.ids) (hpq : p ≠ q) {t : T}
    (ht : (s.node q).pc t = .critical) : ∀ f ∈ s.net q p, f.isReplyFor p = false := by
  cases hlocal : (s.node p).mutex.localRequest with
  | some entry =>
      exact not_isReplyFor_of_outstanding howed hp hq hpq
        ((hwf.node p hp).active_of_request entry hlocal).1
        (outstanding_of_critical hwf hsafe hp hq hpq ht hlocal)
  | none =>
      have hwaiter : (s.node p).mutex.waiter = [] := by
        refine (hwf.node p hp).waiter_nil fun u hu ↦ ?_
        obtain ⟨entry, hentry⟩ := (hwf.node p hp).request_of_active u (.inl hu)
        simp [hlocal] at hentry
      have hzero : owed s p q = 0 := by simpa [hwaiter] using howed p hp q hq hpq
      have hcount : (s.net q p).countP (Frame.isReplyFor p) = 0 := by
        unfold owed at hzero
        omega
      exact fun f hf ↦ Bool.eq_false_iff.mpr (List.countP_eq_zero.mp hcount f hf)

omit [DecidableEq T] in
/-- Sending mutex messages keeps the order of a channel. -/
theorem pairwise_append_mutex {frames : List (Frame D)} {msgs : List Msg}
    (h : frames.Pairwise fun f g ↦ f.isReplyFor p = true → g.isData = false) :
    (frames ++ msgs.map Frame.mutex).Pairwise
      fun f g : Frame D ↦ f.isReplyFor p = true → g.isData = false := by
  have hmutex : ∀ g ∈ msgs.map (Frame.mutex (D := D)), g.isData = false := by
    simp
  exact List.pairwise_append.mpr ⟨h,
    List.pairwise_of_forall_mem_list fun _ _ g hg _ ↦ hmutex g hg, fun _ _ g hg _ ↦ hmutex g hg⟩

omit [DecidableEq T] in
theorem RepliesLast.after (h : RepliesLast G s) (hx : x ∈ G.ids)
    (hpeers : nd.mutex.peers = G.peers x) : RepliesLast G (s.after x nd msgs) := by
  intro p hp q hq
  rw [after_net hx hpeers]
  split
  · exact pairwise_append_mutex (h p hp q hq)
  · exact h p hp q hq

omit [DecidableEq T] in
theorem RepliesLast.takeFrame (h : RepliesLast G s) {f : Frame D} (hhead : s.net q x = f :: rest) :
    RepliesLast G (s.takeFrame q x rest) := by
  intro p hp r hr
  rw [takeFrame_net]
  split
  · next hrp =>
      obtain ⟨rfl, rfl⟩ := hrp
      exact (List.pairwise_cons.mp (hhead ▸ h p hp r hr)).2
  · exact h p hp r hr

omit [DecidableEq T] in
theorem RepliesLast.step (hwf : WellFormed G s) (hsafe : SafeInv G s) (howed : OwedInv G s)
    (h : RepliesLast G s) {a : Action T D} (he : Effect G s a s') : RepliesLast G s' := by
  cases he with
  | quiet x a nd hx hm => exact h.after hx (hm ▸ hwf.peers x hx)
  | request x t nd hx hnone hwaiter hm => exact h.after hx (by simpa [hm] using hwf.peers x hx)
  | unlock x t nd hx hpc hm => exact h.after hx (by simpa [hm] using hwf.peers x hx)
  | handle q x msg rest hq hx hhead =>
      exact (h.takeFrame hhead).after hx (hwf.peers_handle hx q msg)
  | publish x t d hx hpc =>
      intro p hp q hq
      rw [sendData_net hx (hwf.peers x hx)]
      split
      · next hqx =>
          obtain ⟨rfl, -, hpq⟩ := hqx
          refine List.pairwise_append.mpr ⟨h p hp q hq, by simp, fun f hf g _ hrep ↦ ?_⟩
          have hnone := not_isReplyFor_of_critical hwf hsafe howed hp hq hpq hpc f hf
          simp [hnone] at hrep
      · exact h p hp q hq
  | data q x d rest hq hx hhead => exact h.takeFrame hhead

omit [DecidableEq T] in
/-- Only a reply that was sent for `p` is counted by `p`, and it has no data behind it. -/
theorem RepliesLast.countsLast (h : RepliesLast G s) {a : Action T D} (hown : CountsOwnReplies s a)
    (he : Effect G s a s') : CountsLast s a := by
  cases he with
  | handle q x msg rest hq hx hhead =>
      rw [CountsLast, hhead]
      rw [CountsOwnReplies, hhead] at hown
      intro htype hwaits f hf
      have horder := h x hx q hq
      rw [hhead, List.pairwise_cons] at horder
      exact horder.1 f hf (by simp [htype, hown htype hwaits])
  | data q x d rest hq hx hhead =>
      rw [CountsLast, hhead]
      trivial
  | quiet | request | unlock | publish => trivial

end Step

/-! ## Runs -/

section Runs

variable [DecidableEq T] {G : Group} {s : State T D}

/-- No clock wraps, and a node counts only replies that were sent to it. -/
def Directed (s : State T D) (a : Action T D) : Prop := NoWrap s a ∧ CountsOwnReplies s a

instance (s : State T D) (a : Action T D) : Decidable (Directed s a) :=
  inferInstanceAs (Decidable (_ ∧ _))

theorem owedInv_of_reach (h : (system T D G).Reach Directed s) : OwedInv G s := by
  refine invariant_of_effect (OwedInv G) (fun p _ q _ _ ↦ ?_)
    (fun hwf _ ih ha _ he ↦ ih.step hwf ha.2 he) h
  simp [owed, system, initialNode]

/-- A counted reply that was sent to the counting node answers its request. -/
theorem countsAnswers_of_directed (howed : OwedInv G s) (hwf : WellFormed G s)
    {a : Action T D} (hown : CountsOwnReplies s a) {s' : State T D} (hst : step G s a = some s') :
    CountsAnswers s a := by
  cases step_effect hwf hst with
  | handle q x msg rest hq hx hhead =>
      rw [CountsAnswers, hhead]
      rw [CountsOwnReplies, hhead] at hown
      intro htype hwaits entry hentry hout
      have hxq : x ≠ q := (hwf.ne_of_head hq hhead).symm
      have hnone := not_isReplyFor_of_outstanding howed hx hq hxq
        ((hwf.node x hx).active_of_request entry hentry).1 hout (.mutex msg) (by simp [hhead])
      simp [htype, hown htype hwaits] at hnone
  | data q x d rest hq hx hhead => simp [CountsAnswers, hhead, CountsAnswer]
  | quiet => trivial
  | request => trivial
  | unlock => trivial
  | publish => trivial

theorem orderly_of_directed (h : (system T D G).Reach Directed s) :
    (system T D G).Reach Orderly s :=
  h.strengthen fun hs ha hst ↦
    ⟨ha.1, countsAnswers_of_directed (owedInv_of_reach hs) (wellFormed_of_reach hs) ha.2 hst⟩

theorem repliesLast_of_reach (h : (system T D G).Reach Directed s) : RepliesLast G s := by
  refine h.invariant (RepliesLast G) (fun p _ q _ ↦ .nil) fun hs ih _ hst ↦ ?_
  have hwf := wellFormed_of_reach hs
  exact ih.step hwf (safeInv_of_reach (orderly_of_directed hs)) (owedInv_of_reach hs)
    (step_effect hwf hst)

theorem takesTurns_of_directed (h : (system T D G).Reach Directed s) :
    (system T D G).Reach (TakesTurns G) s := by
  refine takesTurns_of_orderly (h.strengthen fun hs ha hst ↦ ?_)
  have hwf := wellFormed_of_reach hs
  exact ⟨⟨ha.1, countsAnswers_of_directed (owedInv_of_reach hs) hwf ha.2 hst⟩,
    (repliesLast_of_reach hs).countsLast ha.2 (step_effect hwf hst)⟩

/-- In runs in which replies are counted by those they were sent for, nothing is on its way
to the holder of the mutex, and one reply is owed by each node that is waited for. -/
theorem turns_of_directed (h : (system T D G).Reach Directed s) :
    Exclusive G s ∧ OwedInv G s ∧
      ∀ p ∈ G.ids, ∀ t, (s.node p).pc t = .critical → ∀ q ∈ G.ids, s.inFlight q p = [] := by
  have hturns := takesTurns_of_directed h
  exact ⟨exclusive_of_excludes (hturns.mono And.left), owedInv_of_reach h,
    fun p hp t ht q hq ↦ inFlight_eq_nil_of_critical (hturns.mono And.right) hp hq ht⟩

/-- Node 1 has sent data in its turn, and node 2 has had its request deferred until then. -/
theorem turns_of_directed_two_nodes :
    ∃ s : State Unit UInt32, (s.node 2).pc () = .critical ∧ s.inFlight 1 2 = [] := by
  let G : Group := .ofIds [1, 2] (by decide) (by decide)
  obtain ⟨s, hs, hp⟩ := LabelledSystem.exists_reach_of_exec (system Unit UInt32 G) Directed
    [.thread 1 (.acquire ()), .thread 1 (.request ()), .deliver 1 2, .deliver 2 1,
      .thread 1 (.enter ()), .thread 2 (.acquire ()), .thread 2 (.request ()), .deliver 2 1,
      .publish 1 () 7, .thread 1 (.unlock ()), .deliver 1 2, .deliver 1 2, .thread 2 (.enter ())]
    (fun s ↦ (s.node 2).pc () = .critical) (by decide)
  have hcritical : (s.node 2).pc () = .critical := by simpa using hp
  exact ⟨s, hcritical,
    (turns_of_directed hs).2.2 2 (by decide) () hcritical 1 (by decide)⟩

end Runs

end Edsm.Mutex
