import Edsm.ReplyWaiter
import Mathlib.Data.List.Sort
import Mathlib.Algebra.Group.Nat.Defs

/-!
# The functions of the distributed mutex

The fields of `edsm_mutex` and the functions of `mutex.c`.  Each function runs
under the node's `lock`, so it is one step; the messages it hands to
`edsm_dobj_send` are returned in the order of the calls, and each of them goes
to every peer of the object.
-/

namespace Edsm

structure RequestEntry where
  lTime : UInt32
  peerId : UInt32
  deriving DecidableEq, Repr

/-- `edsm_mutex`, less the two thread locks. -/
structure Mutex where
  peers : List UInt32
  lTime : UInt32
  requests : List RequestEntry
  waiter : ReplyWaiter
  localRequest : Option RequestEntry

namespace Mutex

def requestComp (a b : RequestEntry) : ℤ :=
  if a.lTime ≠ b.lTime then (if a.lTime > b.lTime then 1 else -1)
  else if a.peerId ≠ b.peerId then (if a.peerId > b.peerId then 1 else -1)
  else 0

def msgTypeRequest : UInt32 := 0x01
def msgTypeReply : UInt32 := 0x02

/-- `msgType` and `lTime` are the two words on the wire.  `peerId` is the
argument `edsm_mutex_send_reply` was called with; the code drops it, no function
below reads it, and it only lets a statement say whom a reply was meant for. -/
structure Msg where
  msgType : UInt32
  lTime : UInt32
  peerId : UInt32
  deriving DecidableEq, Repr

def sendReply (mutex : Mutex) (peerId : UInt32) : Mutex × Msg :=
  let lTime := mutex.lTime + 1
  ({ mutex with lTime := lTime }, ⟨msgTypeReply, lTime, peerId⟩)

/-- `LL_SORT` with `request_comp`, a stable sort. -/
def sortRequests (requests : List RequestEntry) : List RequestEntry :=
  requests.insertionSort fun a b ↦ requestComp a b ≤ 0

/-- The test under which a request is answered at once. -/
def answersAtOnce (localRequest : Option RequestEntry) (other : RequestEntry) : Bool :=
  match localRequest with
  | none => true
  | some entry => requestComp entry other > 0

/-- The clock after the two statements that every message runs through. -/
def receiveClock (mutex : Mutex) (msg : Msg) : UInt32 :=
  (if msg.lTime > mutex.lTime then msg.lTime else mutex.lTime) + 1

def handleMessage (mutex : Mutex) (peerId : UInt32) (msg : Msg) : Mutex × List Msg :=
  let mutex := { mutex with lTime := receiveClock mutex msg }
  if msg.msgType = msgTypeRequest then
    let other : RequestEntry := ⟨msg.lTime, peerId⟩
    if answersAtOnce mutex.localRequest other then
      let (mutex, reply) := sendReply mutex peerId
      (mutex, [reply])
    else
      ({ mutex with requests := sortRequests (mutex.requests ++ [other]) }, [])
  else if msg.msgType = msgTypeReply then
    ({ mutex with waiter := mutex.waiter.addReply peerId }, [])
  else
    (mutex, [])

/-- The part of `edsm_mutex_lock` under `lock`; `none` is the failed assertion. -/
def lock (mutex : Mutex) (localId : UInt32) : Option (Mutex × List Msg) :=
  if mutex.localRequest ≠ none then none
  else
    let lTime := mutex.lTime + 1
    some ({ mutex with
      lTime := lTime
      waiter := mutex.waiter.setWaitOn mutex.peers
      localRequest := some ⟨lTime, localId⟩ }, [⟨msgTypeRequest, lTime, 0⟩])

/-- The loop of `edsm_mutex_unlock` over the deferred requests. -/
def sendReplies (mutex : Mutex) : List RequestEntry → Mutex × List Msg
  | [] => (mutex, [])
  | entry :: entries =>
      let (mutex, reply) := sendReply mutex entry.peerId
      let (mutex, replies) := sendReplies mutex entries
      (mutex, reply :: replies)

/-- The part of `edsm_mutex_unlock` under `lock`, after `edsm_memory_tx_end`. -/
def unlock (mutex : Mutex) : Mutex × List Msg :=
  let (mutex, replies) := sendReplies mutex mutex.requests
  ({ mutex with requests := [], localRequest := none }, replies)

/-! ## The order of requests -/

end Mutex

/-- The pair `(l_time, peer_id)` as one number. -/
def RequestEntry.rank (a : RequestEntry) : ℕ := a.lTime.toNat * 2 ^ 32 + a.peerId.toNat

namespace Mutex

theorem requestComp_eq (a b : RequestEntry) :
    requestComp a b = if b.rank < a.rank then 1 else if a.rank < b.rank then -1 else 0 := by
  have ha := a.peerId.toNat_lt
  have hb := b.peerId.toNat_lt
  unfold requestComp RequestEntry.rank
  simp only [ne_eq, ← UInt32.toNat_inj, gt_iff_lt, UInt32.lt_iff_toNat_lt]
  split_ifs <;> omega

theorem requestComp_pos_iff {a b : RequestEntry} : requestComp a b > 0 ↔ b.rank < a.rank := by
  rw [requestComp_eq]
  split_ifs <;> omega

theorem requestComp_neg_iff {a b : RequestEntry} : requestComp a b < 0 ↔ a.rank < b.rank := by
  rw [requestComp_eq]
  split_ifs <;> omega

theorem rank_lt_of_lTime_lt {a b : RequestEntry} (h : a.lTime.toNat < b.lTime.toNat) :
    a.rank < b.rank := by
  have ha := a.peerId.toNat_lt
  unfold RequestEntry.rank
  omega

theorem rank_ne_of_peerId_ne {a b : RequestEntry} (h : a.peerId ≠ b.peerId) :
    a.rank ≠ b.rank := by
  have ha := a.peerId.toNat_lt
  have hb := b.peerId.toNat_lt
  have hne : a.peerId.toNat ≠ b.peerId.toNat := fun he ↦ h (UInt32.toNat_inj.mp he)
  unfold RequestEntry.rank
  omega

theorem answersAtOnce_iff {localRequest : Option RequestEntry} {other : RequestEntry} :
    answersAtOnce localRequest other = true ↔
      ∀ entry, localRequest = some entry → other.rank < entry.rank := by
  cases localRequest with
  | none => simp [answersAtOnce]
  | some entry => simp [answersAtOnce, ← requestComp_pos_iff]

theorem mem_sortRequests {requests : List RequestEntry} {entry : RequestEntry} :
    entry ∈ sortRequests requests ↔ entry ∈ requests :=
  (List.perm_insertionSort _ requests).mem_iff

theorem sortRequests_perm (requests : List RequestEntry) :
    (sortRequests requests).Perm requests :=
  List.perm_insertionSort _ requests

/-! ## What the functions return -/

/-- The four ways through `edsm_mutex_handle_message`. -/
theorem handleMessage_cases (mutex : Mutex) (peerId : UInt32) (msg : Msg) :
    (msg.msgType = msgTypeRequest ∧
      answersAtOnce mutex.localRequest ⟨msg.lTime, peerId⟩ = true ∧
      mutex.handleMessage peerId msg =
        ({ mutex with lTime := receiveClock mutex msg + 1 },
          [⟨msgTypeReply, receiveClock mutex msg + 1, peerId⟩])) ∨
    (msg.msgType = msgTypeRequest ∧
      answersAtOnce mutex.localRequest ⟨msg.lTime, peerId⟩ = false ∧
      mutex.handleMessage peerId msg =
        ({ mutex with
          lTime := receiveClock mutex msg
          requests := sortRequests (mutex.requests ++ [⟨msg.lTime, peerId⟩]) }, [])) ∨
    (msg.msgType = msgTypeReply ∧
      mutex.handleMessage peerId msg =
        ({ mutex with
          lTime := receiveClock mutex msg
          waiter := mutex.waiter.addReply peerId }, [])) ∨
    (msg.msgType ≠ msgTypeRequest ∧ msg.msgType ≠ msgTypeReply ∧
      mutex.handleMessage peerId msg = ({ mutex with lTime := receiveClock mutex msg }, [])) := by
  by_cases hreq : msg.msgType = msgTypeRequest
  · cases hans : answersAtOnce mutex.localRequest ⟨msg.lTime, peerId⟩ with
    | true => simp [handleMessage, hreq, hans, sendReply]
    | false => simp [handleMessage, hreq, hans, msgTypeRequest, msgTypeReply]
  · by_cases hrep : msg.msgType = msgTypeReply
    · simp [handleMessage, hrep, msgTypeRequest, msgTypeReply]
    · simp [handleMessage, hreq, hrep]

@[simp] theorem handleMessage_peers (mutex : Mutex) (peerId : UInt32) (msg : Msg) :
    (mutex.handleMessage peerId msg).1.peers = mutex.peers := by
  rcases handleMessage_cases mutex peerId msg with
    ⟨-, -, heq⟩ | ⟨-, -, heq⟩ | ⟨-, heq⟩ | ⟨-, -, heq⟩ <;> simp [heq]

@[simp] theorem handleMessage_localRequest (mutex : Mutex) (peerId : UInt32) (msg : Msg) :
    (mutex.handleMessage peerId msg).1.localRequest = mutex.localRequest := by
  rcases handleMessage_cases mutex peerId msg with
    ⟨-, -, heq⟩ | ⟨-, -, heq⟩ | ⟨-, heq⟩ | ⟨-, -, heq⟩ <;> simp [heq]

theorem handleMessage_requests_of_none {mutex : Mutex} (h : mutex.localRequest = none)
    (peerId : UInt32) (msg : Msg) :
    (mutex.handleMessage peerId msg).1.requests = mutex.requests := by
  rcases handleMessage_cases mutex peerId msg with
    ⟨-, -, heq⟩ | ⟨-, hans, -⟩ | ⟨-, heq⟩ | ⟨-, -, heq⟩
  · simp [heq]
  · simp [h, answersAtOnce] at hans
  · simp [heq]
  · simp [heq]

theorem handleMessage_reply {mutex : Mutex} {peerId : UInt32} {msg : Msg}
    (h : msg.msgType = msgTypeReply) :
    mutex.handleMessage peerId msg =
      ({ mutex with
        lTime := receiveClock mutex msg
        waiter := mutex.waiter.addReply peerId }, []) := by
  simp [handleMessage, h, msgTypeReply, msgTypeRequest]

theorem handleMessage_requests_mono {mutex : Mutex} {peerId : UInt32} {msg : Msg}
    {entry : RequestEntry} (h : entry ∈ mutex.requests) :
    entry ∈ (mutex.handleMessage peerId msg).1.requests := by
  rcases handleMessage_cases mutex peerId msg with
    ⟨-, -, heq⟩ | ⟨-, -, heq⟩ | ⟨-, heq⟩ | ⟨-, -, heq⟩ <;> simp [heq, mem_sortRequests, h]

theorem handleMessage_waiter (mutex : Mutex) (peerId : UInt32) (msg : Msg) :
    (mutex.handleMessage peerId msg).1.waiter = mutex.waiter ∨
      (msg.msgType = msgTypeReply ∧
        (mutex.handleMessage peerId msg).1.waiter = mutex.waiter.addReply peerId) := by
  rcases handleMessage_cases mutex peerId msg with
    ⟨-, -, heq⟩ | ⟨-, -, heq⟩ | ⟨htype, heq⟩ | ⟨-, -, heq⟩
  · simp [heq]
  · simp [heq]
  · simp [heq, htype]
  · simp [heq]

theorem handleMessage_msgType {mutex : Mutex} {peerId : UInt32} {msg sent : Msg}
    (h : sent ∈ (mutex.handleMessage peerId msg).2) : sent.msgType = msgTypeReply := by
  rcases handleMessage_cases mutex peerId msg with
    ⟨-, -, heq⟩ | ⟨-, -, heq⟩ | ⟨-, heq⟩ | ⟨-, -, heq⟩
  · rw [heq, List.mem_singleton] at h
    rw [h]
  all_goals simp [heq] at h

theorem of_mem_handleMessage_requests {mutex : Mutex} {peerId : UInt32} {msg : Msg}
    {entry : RequestEntry} (h : entry ∈ (mutex.handleMessage peerId msg).1.requests) :
    entry ∈ mutex.requests ∨ (msg.msgType = msgTypeRequest ∧ entry = ⟨msg.lTime, peerId⟩) := by
  rcases handleMessage_cases mutex peerId msg with
    ⟨-, -, heq⟩ | ⟨htype, -, heq⟩ | ⟨-, heq⟩ | ⟨-, -, heq⟩
  · exact .inl (by simpa [heq] using h)
  · simpa [heq, htype, mem_sortRequests] using h
  · exact .inl (by simpa [heq] using h)
  · exact .inl (by simpa [heq] using h)

theorem lock_eq_some {mutex mutex' : Mutex} {localId : UInt32} {msgs : List Msg}
    (h : mutex.lock localId = some (mutex', msgs)) :
    mutex.localRequest = none ∧
      mutex' = { mutex with
        lTime := mutex.lTime + 1
        waiter := mutex.peers
        localRequest := some ⟨mutex.lTime + 1, localId⟩ } ∧
      msgs = [⟨msgTypeRequest, mutex.lTime + 1, 0⟩] := by
  unfold lock at h
  split at h
  · cases h
  · next hnone =>
      obtain ⟨rfl, rfl⟩ := Prod.mk.inj (Option.some.inj h)
      exact ⟨by simpa using hnone, rfl, rfl⟩

theorem sendReplies_fst (mutex : Mutex) (entries : List RequestEntry) :
    (sendReplies mutex entries).1 =
      { mutex with lTime := mutex.lTime + UInt32.ofNat entries.length } := by
  induction entries generalizing mutex with
  | nil => simp [sendReplies]
  | cons entry entries ih =>
      simp only [sendReplies, ih, sendReply, List.length_cons, UInt32.ofNat_add]
      congr 1
      rw [UInt32.add_assoc, UInt32.add_comm 1]
      rfl

@[simp] theorem unlock_peers (mutex : Mutex) : mutex.unlock.1.peers = mutex.peers := by
  simp [unlock, sendReplies_fst]

@[simp] theorem unlock_waiter (mutex : Mutex) : mutex.unlock.1.waiter = mutex.waiter := by
  simp [unlock, sendReplies_fst]

@[simp] theorem unlock_requests (mutex : Mutex) : mutex.unlock.1.requests = [] := rfl

@[simp] theorem unlock_localRequest (mutex : Mutex) : mutex.unlock.1.localRequest = none := rfl

theorem unlock_lTime (mutex : Mutex) :
    mutex.unlock.1.lTime = mutex.lTime + UInt32.ofNat mutex.requests.length := by
  simp [unlock, sendReplies_fst]

theorem sendReplies_length (mutex : Mutex) (entries : List RequestEntry) :
    (sendReplies mutex entries).2.length = entries.length := by
  induction entries generalizing mutex with
  | nil => rfl
  | cons entry entries ih => simp [sendReplies, ih]

theorem sendReplies_peerIds (mutex : Mutex) (entries : List RequestEntry) :
    (sendReplies mutex entries).2.map Msg.peerId = entries.map RequestEntry.peerId := by
  induction entries generalizing mutex with
  | nil => rfl
  | cons entry entries ih => simp [sendReplies, ih, sendReply]

theorem sendReplies_msgType {mutex : Mutex} {entries : List RequestEntry} {msg : Msg}
    (h : msg ∈ (sendReplies mutex entries).2) : msg.msgType = msgTypeReply := by
  induction entries generalizing mutex with
  | nil => simp [sendReplies] at h
  | cons entry entries ih =>
      rcases List.mem_cons.mp h with rfl | h
      · rfl
      · exact ih h

theorem unlock_length (mutex : Mutex) : mutex.unlock.2.length = mutex.requests.length :=
  sendReplies_length mutex mutex.requests

theorem unlock_peerIds (mutex : Mutex) :
    mutex.unlock.2.map Msg.peerId = mutex.requests.map RequestEntry.peerId :=
  sendReplies_peerIds mutex mutex.requests

theorem unlock_msgType {mutex : Mutex} {msg : Msg} (h : msg ∈ mutex.unlock.2) :
    msg.msgType = msgTypeReply :=
  sendReplies_msgType h

end Mutex

end Edsm
