import Edsm.Dobj.Object
import Edsm.Mutex.Exclusion

/-!
# A node that joins late

Two nodes, of which one has created the mutex and may be using it while the
other calls `edsm_mutex_get`.  The creator learns of the joiner in the middle of
a lock cycle, and the joiner starts with clock 0.  A list of peers is read twice
in `edsm_mutex_lock`, so a thread that holds `lock` sends its messages in steps
of their own.
-/

namespace Edsm.Mutex.LateJoin

inductive Side
  | creator
  | joiner
  deriving DecidableEq, Repr

def Side.other : Side → Side
  | .creator => .joiner
  | .joiner => .creator

@[simp] theorem Side.other_other (x : Side) : x.other.other = x := by
  cases x <;> rfl

@[simp] theorem Side.other_ne (x : Side) : x.other ≠ x := by
  cases x <;> simp [Side.other]

@[simp] theorem Side.ne_other (x : Side) : x ≠ x.other := x.other_ne.symm

theorem Side.eq_other_of_ne {x y : Side} (h : y ≠ x) : y = x.other := by
  cases x <;> cases y <;> simp_all [Side.other]

structure Pair where
  id : Side → UInt32
  ne : id .creator ≠ id .joiner

/-- How far `edsm_mutex_get` of the joiner has come. -/
inductive Phase
  | absent
  /-- The object is in the joiner's table and the `GET` is on the way. -/
  | getSent
  /-- The creator has added the joiner; the `GET_REPLY` is on the way. -/
  | added
  | replied
  /-- `edsm_mutex_get` has returned. -/
  | ready
  deriving DecidableEq, Repr

structure State (T : Type*) where
  node : Side → Node T
  /-- The messages on the way to each side. -/
  inbox : Side → List Msg
  /-- What a thread that holds `lock` has still to send. -/
  outbox : Side → List Msg
  phase : Phase
  /-- The creator's last request waits for the joiner; no function reads it. -/
  waitsForJoiner : Bool

inductive Action (T : Type*)
  | thread (x : Side) (a : ThreadAction T)
  /-- The thread that holds `lock` sends its next message to the peers of the moment. -/
  | send (x : Side)
  | deliver (x : Side)
  /-- The next step of the joiner's `edsm_mutex_get`. -/
  | join

variable {T : Type*}

def Node.addPeer (nd : Node T) (peerId : UInt32) : Node T :=
  { nd with mutex := { nd.mutex with peers := Dobj.addPeerReference peerId nd.mutex.peers } }

namespace State

/-- `edsm_dobj_send` of each message. -/
def push (P : Pair) (s : State T) (x : Side) (msgs : List Msg) : State T :=
  if P.id x.other ∈ (s.node x).mutex.peers then
    { s with inbox := Function.update s.inbox x.other (s.inbox x.other ++ msgs) }
  else s

/-- The mutex of `x` is initialised and nobody holds its `lock`. -/
def Idle (s : State T) (x : Side) : Prop :=
  s.outbox x = [] ∧ (x = .joiner → s.phase = .ready)

instance (s : State T) (x : Side) : Decidable (s.Idle x) := inferInstanceAs (Decidable (_ ∧ _))

/-- Whether the creator's request waits for the joiner, after a step of a thread. -/
def waitsAfter (P : Pair) (s : State T) : Side → ThreadAction T → Bool
  | .creator, .request _ => P.id .joiner ∈ (s.node .creator).mutex.peers
  | _, _ => s.waitsForJoiner

end State

variable [DecidableEq T]

def step (P : Pair) (s : State T) : Action T → Option (State T)
  | .thread x a =>
      if s.Idle x then
        ((s.node x).threadStep (P.id x) a).map fun sent ↦
          { s with
            node := Function.update s.node x sent.1
            outbox := Function.update s.outbox x sent.2
            waitsForJoiner := s.waitsAfter P x a }
      else none
  | .send x =>
      match s.outbox x with
      | [] => none
      | msg :: rest => some ({ s with outbox := Function.update s.outbox x rest }.push P x [msg])
  | .deliver x =>
      match s.inbox x with
      | [] => none
      | msg :: rest =>
          if s.Idle x then
            some ({ s with
              node := Function.update s.node x ((s.node x).handle (P.id x.other) msg).1
              inbox := Function.update s.inbox x rest }.push P x
                ((s.node x).handle (P.id x.other) msg).2)
          else none
  | .join =>
      match s.phase with
      | .absent => some { s with phase := .getSent }
      | .getSent => some { s with
          phase := .added
          node := Function.update s.node .creator
            (Node.addPeer (s.node .creator) (P.id .joiner)) }
      | .added => some { s with
          phase := .replied
          node := Function.update s.node .joiner
            (Node.addPeer (s.node .joiner) (P.id .creator)) }
      | .replied => some { s with phase := .ready }
      | .ready => none

/-- A zeroed `edsm_mutex` that knows no peer. -/
def initialNode : Node T where
  mutex := { peers := [], lTime := 0, requests := [], waiter := [], localRequest := none }
  localMutex := none
  pc _ := .outside

def system (T : Type*) [DecidableEq T] (P : Pair) : LabelledSystem (State T) (Action T) where
  init := {
    node := fun _ ↦ initialNode
    inbox := fun _ ↦ []
    outbox := fun _ ↦ []
    phase := .absent
    waitsForJoiner := false }
  step := step P

/-! ## Conditions on the steps -/

/-- No `l_time++` of the step wraps. -/
def NoWrap (P : Pair) (s : State T) : Action T → Prop
  | .thread x (.request _) => (s.node x).mutex.lTime.toNat + 1 < 2 ^ 32
  | .thread x (.unlock _) =>
      (s.node x).mutex.lTime.toNat + (s.node x).mutex.requests.length < 2 ^ 32
  | .deliver x => ∀ msg ∈ (s.inbox x).head?,
      max (s.node x).mutex.lTime.toNat msg.lTime.toNat + 1 +
        ((s.node x).mutex.handleMessage (P.id x.other) msg).2.length < 2 ^ 32
  | _ => True

/-- The request of `x` is still to be handled by the other side, or deferred there. -/
def Outstanding (s : State T) (x : Side) (entry : RequestEntry) : Prop :=
  (∃ msg ∈ s.inbox x.other ++ s.outbox x,
    msg.msgType = msgTypeRequest ∧ msg.lTime = entry.lTime) ∨
      entry ∈ (s.node x.other).mutex.requests

/-- A reply is counted only after its sender has answered. -/
def CountsAnswers (P : Pair) (s : State T) : Action T → Prop
  | .deliver x => ∀ msg ∈ (s.inbox x).head?, msg.msgType = msgTypeReply →
      P.id x.other ∈ (s.node x).mutex.waiter →
        ∀ entry ∈ (s.node x).mutex.localRequest, ¬ Outstanding s x entry
  | _ => True

/-- A request that does not wait for the joiner is not yielded to the joiner. -/
def KeepsHolder (P : Pair) (s : State T) : Action T → Prop
  | .deliver .creator => s.waitsForJoiner = false → ∀ msg ∈ (s.inbox .creator).head?,
      msg.msgType = msgTypeRequest → ∀ own ∈ (s.node .creator).mutex.localRequest,
        requestComp own ⟨msg.lTime, P.id .joiner⟩ ≤ 0
  | _ => True

instance (P : Pair) (s : State T) : (a : Action T) → Decidable (NoWrap P s a)
  | .thread _ (.request _) | .thread _ (.unlock _) => inferInstanceAs (Decidable (_ < _))
  | .deliver _ => inferInstanceAs (Decidable (∀ _ ∈ List.head? _, _))
  | .thread _ (.acquire _) | .thread _ (.enter _) | .thread _ (.release _) | .send _ | .join =>
      inferInstanceAs (Decidable True)

instance (s : State T) (x : Side) (entry : RequestEntry) : Decidable (Outstanding s x entry) :=
  inferInstanceAs (Decidable (_ ∨ _))

instance (P : Pair) (s : State T) : (a : Action T) → Decidable (CountsAnswers P s a)
  | .deliver _ => inferInstanceAs (Decidable (∀ _ ∈ List.head? _, _))
  | .thread _ _ | .send _ | .join => inferInstanceAs (Decidable True)

instance (P : Pair) (s : State T) : (a : Action T) → Decidable (KeepsHolder P s a)
  | .deliver .creator => inferInstanceAs (Decidable (_ → ∀ _ ∈ List.head? _, _))
  | .deliver .joiner | .thread _ _ | .send _ | .join => inferInstanceAs (Decidable True)

/-! ## Who knows whom -/

/-- The peers lists follow the phase of the join, and the joiner is silent before it ends. -/
structure Shape (P : Pair) (s : State T) : Prop where
  node : ∀ x, (s.node x).WellFormed (P.id x)
  peers_nodup : ∀ x, (s.node x).mutex.peers.Nodup
  joiner_knows : s.phase = .replied ∨ s.phase = .ready →
    P.id .creator ∈ (s.node .joiner).mutex.peers
  creator_knows : s.phase ≠ .absent → s.phase ≠ .getSent →
    P.id .joiner ∈ (s.node .creator).mutex.peers
  silent : s.phase ≠ .ready →
    (s.node .joiner).mutex.localRequest = none ∧ s.outbox .joiner = []
  waits : s.waitsForJoiner = true → P.id .joiner ∈ (s.node .creator).mutex.peers

section Step

variable {P : Pair} {s s' : State T} {x : Side} {entry own : RequestEntry}

omit [DecidableEq T] in
theorem push_node (msgs : List Msg) : (s.push P x msgs).node = s.node := by
  unfold State.push
  split <;> rfl

omit [DecidableEq T] in
theorem push_inbox (msgs : List Msg) (y : Side) :
    (s.push P x msgs).inbox y = if P.id x.other ∈ (s.node x).mutex.peers ∧ y = x.other then
      s.inbox y ++ msgs else s.inbox y := by
  unfold State.push
  by_cases hpeer : P.id x.other ∈ (s.node x).mutex.peers
  · by_cases hy : y = x.other
    · subst hy
      simp [hpeer]
    · simp [hpeer, hy]
  · simp [hpeer]

omit [DecidableEq T] in
theorem push_rest (msgs : List Msg) : (s.push P x msgs).outbox = s.outbox ∧
    (s.push P x msgs).phase = s.phase ∧
      (s.push P x msgs).waitsForJoiner = s.waitsForJoiner := by
  unfold State.push
  split <;> exact ⟨rfl, rfl, rfl⟩

omit [DecidableEq T] in
theorem addPeer_wellFormed {nd : Node T} {localId peerId : UInt32} (h : nd.WellFormed localId) :
    (Node.addPeer nd peerId).WellFormed localId :=
  { h with waiter_sub := fun q hq ↦ Dobj.mem_addPeerReference.mpr (.inl (h.waiter_sub q hq)) }

/-- `handleMessage` and the thread steps keep the peers. -/
theorem Shape.thread (h : Shape P s) {a : ThreadAction T} (hidle : s.Idle x) {nd : Node T}
    {msgs : List Msg} (hnd : (s.node x).threadStep (P.id x) a = some (nd, msgs)) :
    Shape P { s with
      node := Function.update s.node x nd
      outbox := Function.update s.outbox x msgs
      waitsForJoiner := s.waitsAfter P x a } := by
  have hpeers : ∀ y, (Function.update s.node x nd y).mutex.peers = (s.node y).mutex.peers := by
    intro y
    by_cases hy : y = x
    · subst hy
      simpa using Node.threadStep_peers hnd
    · simp [hy]
  refine ⟨fun y ↦ ?_, fun y ↦ ?_, fun hphase ↦ ?_, fun h1 h2 ↦ ?_, fun hphase ↦ ?_, fun hw ↦ ?_⟩
  · change (Function.update s.node x nd y).WellFormed (P.id y)
    by_cases hy : y = x
    · subst hy
      rw [Function.update_self]
      exact (h.node y).threadStep (h.peers_nodup y) hnd
    · rw [Function.update_of_ne hy]
      exact h.node y
  · change (Function.update s.node x nd y).mutex.peers.Nodup
    rw [hpeers]
    exact h.peers_nodup y
  · change _ ∈ (Function.update s.node x nd .joiner).mutex.peers
    rw [hpeers]
    exact h.joiner_knows hphase
  · change _ ∈ (Function.update s.node x nd .creator).mutex.peers
    rw [hpeers]
    exact h.creator_knows h1 h2
  · have hx : x ≠ .joiner := fun he ↦ hphase (hidle.2 he)
    simpa [Ne.symm hx] using h.silent hphase
  · change _ ∈ (Function.update s.node x nd .creator).mutex.peers
    rw [hpeers]
    cases x with
    | joiner => exact h.waits (by cases a <;> exact hw)
    | creator =>
        cases a with
        | request t => simpa [State.waitsAfter] using hw
        | _ => exact h.waits hw

omit [DecidableEq T] in
theorem Shape.of_eq (h : Shape P s) (hnode : s'.node = s.node) (hphase : s'.phase = s.phase)
    (houtbox : s.outbox .joiner = [] → s'.outbox .joiner = [])
    (hwaits : s'.waitsForJoiner = s.waitsForJoiner) : Shape P s' where
  node x := by
    rw [hnode]
    exact h.node x
  peers_nodup x := by
    rw [hnode]
    exact h.peers_nodup x
  joiner_knows := by
    rw [hnode, hphase]
    exact h.joiner_knows
  creator_knows := by
    rw [hnode, hphase]
    exact h.creator_knows
  silent hne := by
    rw [hphase] at hne
    rw [hnode]
    exact ⟨(h.silent hne).1, houtbox (h.silent hne).2⟩
  waits := by
    rw [hnode, hwaits]
    exact h.waits

omit [DecidableEq T] in
theorem Shape.send (h : Shape P s) {msg : Msg} {rest : List Msg}
    (houtbox : s.outbox x = msg :: rest) :
    Shape P ({ s with outbox := Function.update s.outbox x rest }.push P x [msg]) := by
  obtain ⟨hout, hphase, hwaits⟩ :=
    push_rest (P := P) (s := { s with outbox := Function.update s.outbox x rest }) (x := x) [msg]
  refine h.of_eq (push_node [msg]) hphase (fun hnil ↦ ?_) hwaits
  rw [hout]
  have hx : x ≠ .joiner := by
    rintro rfl
    simp [hnil] at houtbox
  simpa [Ne.symm hx] using hnil

omit [DecidableEq T] in
theorem Shape.deliver (h : Shape P s) {msg : Msg} {rest : List Msg} :
    Shape P ({ s with
      node := Function.update s.node x ((s.node x).handle (P.id x.other) msg).1
      inbox := Function.update s.inbox x rest }.push P x
        ((s.node x).handle (P.id x.other) msg).2) := by
  have hmutex : ∀ y,
      (Function.update s.node x ((s.node x).handle (P.id x.other) msg).1 y).mutex.peers =
        (s.node y).mutex.peers ∧
      (Function.update s.node x ((s.node x).handle (P.id x.other) msg).1 y).mutex.localRequest =
        (s.node y).mutex.localRequest := by
    intro y
    by_cases hy : y = x
    · subst hy
      simp [Node.handle]
    · simp [hy]
  have hnode : Shape P { s with
      node := Function.update s.node x ((s.node x).handle (P.id x.other) msg).1
      inbox := Function.update s.inbox x rest } := by
    refine ⟨fun y ↦ ?_, fun y ↦ ?_, fun hphase ↦ ?_, fun h1 h2 ↦ ?_, fun hphase ↦ ?_, fun hw ↦ ?_⟩
    · by_cases hy : y = x
      · subst hy
        simpa using (h.node y).handle _ msg
      · simpa [hy] using h.node y
    · exact (hmutex y).1 ▸ h.peers_nodup y
    · exact (hmutex .joiner).1 ▸ h.joiner_knows hphase
    · exact (hmutex .creator).1 ▸ h.creator_knows h1 h2
    · exact ⟨(hmutex .joiner).2.trans (h.silent hphase).1, (h.silent hphase).2⟩
    · exact (hmutex .creator).1 ▸ h.waits hw
  obtain ⟨hout, hphase, hwaits⟩ := push_rest (P := P) (s := { s with
      node := Function.update s.node x ((s.node x).handle (P.id x.other) msg).1
      inbox := Function.update s.inbox x rest }) (x := x) ((s.node x).handle (P.id x.other) msg).2
  exact hnode.of_eq (push_node _) hphase (fun hnil ↦ by rw [hout]; exact hnil) hwaits

omit [DecidableEq T] in
/-- One side learns of the other. -/
theorem Shape.addPeer (h : Shape P s) {phase : Phase} (peerId : UInt32) (hready : phase ≠ .ready)
    (hbefore : s.phase ≠ .ready)
    (hjoiner : phase = .replied → P.id .creator ∈ (Function.update s.node x
      (Node.addPeer (s.node x) peerId) .joiner).mutex.peers)
    (hcreator : P.id .joiner ∈ (Function.update s.node x
      (Node.addPeer (s.node x) peerId) .creator).mutex.peers) :
    Shape P { s with
      phase := phase
      node := Function.update s.node x (Node.addPeer (s.node x) peerId) } := by
  have hmutex : ∀ y, (Function.update s.node x (Node.addPeer (s.node x) peerId) y).mutex =
      { (s.node y).mutex with
        peers := (Function.update s.node x (Node.addPeer (s.node x) peerId) y).mutex.peers } := by
    intro y
    by_cases hy : y = x
    · subst hy
      simp [Node.addPeer]
    · simp [hy]
  refine ⟨fun y ↦ ?_, fun y ↦ ?_, fun hphase ↦ hjoiner (hphase.resolve_right hready),
    fun _ _ ↦ hcreator, fun _ ↦ ?_, fun hw ↦ ?_⟩
  · by_cases hy : y = x
    · subst hy
      simpa using addPeer_wellFormed (h.node y)
    · simpa [hy] using h.node y
  · by_cases hy : y = x
    · subst hy
      simpa [Node.addPeer] using Dobj.nodup_addPeerReference (h.peers_nodup y)
    · simpa [hy] using h.peers_nodup y
  · exact ⟨by rw [hmutex]; exact (h.silent hbefore).1, (h.silent hbefore).2⟩
  · by_cases hx : .creator = x
    · subst hx
      simpa [Node.addPeer, Dobj.mem_addPeerReference] using .inl (h.waits hw)
    · simpa [hx] using h.waits hw

theorem Shape.join (h : Shape P s) (hst : step P s .join = some s') : Shape P s' := by
  unfold step at hst
  cases hphase : s.phase with
  | absent =>
      obtain rfl := by simpa [hphase] using hst
      exact { h with
        joiner_knows := by simp
        creator_knows := by simp
        silent := fun _ ↦ h.silent (by simp [hphase]) }
  | getSent =>
      obtain rfl := by simpa [hphase] using hst
      exact h.addPeer _ (by simp) (by simp [hphase]) (by simp)
        (by simp [Node.addPeer, Dobj.mem_addPeerReference])
  | added =>
      obtain rfl := by simpa [hphase] using hst
      exact h.addPeer _ (by simp) (by simp [hphase])
        (by simp [Node.addPeer, Dobj.mem_addPeerReference])
        (by simpa using h.creator_knows (by simp [hphase]) (by simp [hphase]))
  | replied =>
      obtain rfl := by simpa [hphase] using hst
      exact { h with
        joiner_knows := fun _ ↦ h.joiner_knows (.inl hphase)
        creator_knows := fun _ _ ↦ h.creator_knows (by simp [hphase]) (by simp [hphase])
        silent := by simp }
  | ready => simp [hphase] at hst

theorem step_thread_eq_some {a : ThreadAction T} (hst : step P s (.thread x a) = some s') :
    s.Idle x ∧ ∃ nd msgs, (s.node x).threadStep (P.id x) a = some (nd, msgs) ∧
      s' = { s with
        node := Function.update s.node x nd
        outbox := Function.update s.outbox x msgs
        waitsForJoiner := s.waitsAfter P x a } := by
  obtain ⟨hidle, nd, msgs, hnd, rfl⟩ := by simpa [LateJoin.step] using hst
  exact ⟨hidle, nd, msgs, hnd, rfl⟩

theorem step_send_eq_some (hst : step P s (.send x) = some s') :
    ∃ msg rest, s.outbox x = msg :: rest ∧
      s' = { s with outbox := Function.update s.outbox x rest }.push P x [msg] := by
  cases houtbox : s.outbox x with
  | nil => simp [LateJoin.step, houtbox] at hst
  | cons msg rest =>
      obtain rfl := by simpa [LateJoin.step, houtbox] using hst
      exact ⟨msg, rest, rfl, rfl⟩

theorem step_deliver_eq_some (hst : step P s (.deliver x) = some s') :
    ∃ msg rest, s.inbox x = msg :: rest ∧ s.Idle x ∧
      s' = { s with
        node := Function.update s.node x ((s.node x).handle (P.id x.other) msg).1
        inbox := Function.update s.inbox x rest }.push P x
          ((s.node x).handle (P.id x.other) msg).2 := by
  cases hinbox : s.inbox x with
  | nil => simp [LateJoin.step, hinbox] at hst
  | cons msg rest =>
      obtain ⟨hidle, rfl⟩ := by simpa [LateJoin.step, hinbox] using hst
      exact ⟨msg, rest, rfl, hidle, rfl⟩

theorem Shape.step (h : Shape P s) {a : Action T} (hst : step P s a = some s') : Shape P s' := by
  cases a with
  | thread x a =>
      obtain ⟨hidle, nd, msgs, hnd, rfl⟩ := step_thread_eq_some hst
      exact h.thread hidle hnd
  | send x =>
      obtain ⟨msg, rest, houtbox, rfl⟩ := step_send_eq_some hst
      exact h.send houtbox
  | deliver x =>
      obtain ⟨msg, rest, -, -, rfl⟩ := step_deliver_eq_some hst
      exact h.deliver
  | join => exact h.join hst

/-! ## Yielding -/

/-- The request of `x` waits for the reply of the other side. -/
def Asks (s : State T) (x : Side) : Prop := x = .creator → s.waitsForJoiner = true

/-- As in a fixed group, as far as requests wait for the other side; while the
creator's request does not, every request of the joiner is unanswered. -/
structure SafeInv (P : Pair) (s : State T) : Prop where
  yields : ∀ x entry, Asks s x → (s.node x).mutex.localRequest = some entry →
    ¬ Outstanding s x entry → (s.node x.other).mutex.YieldsTo entry
  waits : ∀ x entry, Asks s x → (s.node x).mutex.localRequest = some entry →
    Outstanding s x entry → P.id x.other ∈ (s.node x).mutex.waiter
  deferred_lt : ∀ x, ∀ entry ∈ (s.node x).mutex.requests,
    entry.lTime.toNat < (s.node x).mutex.lTime.toNat
  unasked : s.waitsForJoiner = false → ∀ own, (s.node .creator).mutex.localRequest = some own →
    ∀ entry, (s.node .joiner).mutex.localRequest = some entry → Outstanding s .joiner entry

omit [DecidableEq T] in
theorem outstanding_congr
    (hmsgs : ∀ msg, msg ∈ s'.inbox x.other ++ s'.outbox x ↔ msg ∈ s.inbox x.other ++ s.outbox x)
    (hrequests : (s'.node x.other).mutex.requests = (s.node x.other).mutex.requests) :
    Outstanding s' x entry ↔ Outstanding s x entry := by
  simp only [Outstanding, hmsgs, hrequests]

omit [DecidableEq T] in
theorem SafeInv.of_eq (h : SafeInv P s)
    (hmutex : ∀ x, (s'.node x).mutex =
      { (s.node x).mutex with peers := (s'.node x).mutex.peers })
    (hmsgs : ∀ x, Asks s x ∨ x = .joiner → ∀ msg, msg ∈ s'.inbox x.other ++ s'.outbox x ↔
      msg ∈ s.inbox x.other ++ s.outbox x)
    (hwaits : s'.waitsForJoiner = s.waitsForJoiner) : SafeInv P s' := by
  have hasks : ∀ {x}, Asks s' x → Asks s x := fun ha hx ↦ hwaits ▸ ha hx
  have hrequests : ∀ x, (s'.node x).mutex.requests = (s.node x).mutex.requests :=
    fun x ↦ by rw [hmutex]
  refine ⟨fun x entry ha hentry hout ↦ ?_, fun x entry ha hentry hout ↦ ?_,
    fun x entry hentry ↦ ?_, fun hw own hown entry hentry ↦ ?_⟩
  · rw [hmutex] at hentry
    rw [outstanding_congr (hmsgs x (.inl (hasks ha))) (hrequests _)] at hout
    rw [hmutex]
    exact h.yields x entry (hasks ha) hentry hout
  · rw [hmutex] at hentry ⊢
    rw [outstanding_congr (hmsgs x (.inl (hasks ha))) (hrequests _)] at hout
    exact h.waits x entry (hasks ha) hentry hout
  · rw [hmutex] at hentry ⊢
    exact h.deferred_lt x entry hentry
  · rw [hmutex] at hown hentry
    rw [outstanding_congr (hmsgs .joiner (.inr rfl)) (hrequests _)]
    exact h.unasked (hwaits ▸ hw) own hown entry hentry

omit [DecidableEq T] in
theorem SafeInv.request (hshape : Shape P s) (h : SafeInv P s) (hidle : s.Idle x) {t : T}
    {nd : Node T} (hnone : (s.node x).mutex.localRequest = none)
    (hm : nd.mutex = { (s.node x).mutex with
      lTime := (s.node x).mutex.lTime + 1
      waiter := (s.node x).mutex.peers
      localRequest := some ⟨(s.node x).mutex.lTime + 1, P.id x⟩ })
    (hfits : (s.node x).mutex.lTime.toNat + 1 < 2 ^ 32) :
    SafeInv P { s with
      node := Function.update s.node x nd
      outbox := Function.update s.outbox x [⟨msgTypeRequest, (s.node x).mutex.lTime + 1, 0⟩]
      waitsForJoiner := s.waitsAfter P x (.request t) } := by
  set s' : State T := { s with
    node := Function.update s.node x nd
    outbox := Function.update s.outbox x [⟨msgTypeRequest, (s.node x).mutex.lTime + 1, 0⟩]
    waitsForJoiner := s.waitsAfter P x (.request t) } with hs'
  have hself : s'.node x = nd := Function.update_self ..
  have hother : s'.node x.other = s.node x.other := Function.update_of_ne x.other_ne ..
  have hrequests : ∀ y, (s'.node y).mutex.requests = (s.node y).mutex.requests := by
    intro y
    by_cases hy : y = x
    · rw [hy, hself, hm]
    · rw [Side.eq_other_of_ne hy, hother]
  have hlocal : nd.mutex.localRequest = some ⟨(s.node x).mutex.lTime + 1, P.id x⟩ := by rw [hm]
  -- the new request is outstanding, and so is what was outstanding on the other side
  have hnew : ∀ {e}, nd.mutex.localRequest = some e → Outstanding s' x e := by
    intro e he
    obtain rfl := Option.some.inj (hlocal.symm.trans he)
    exact .inl ⟨⟨msgTypeRequest, (s.node x).mutex.lTime + 1, 0⟩, by simp [hs'], rfl, rfl⟩
  have hold : ∀ e, Outstanding s' x.other e ↔ Outstanding s x.other e := by
    intro e
    exact outstanding_congr (fun msg ↦ by simp [hs']) (hrequests _)
  have hasks : Asks s' x.other → Asks s x.other := by
    intro ha hx
    cases x with
    | creator => cases hx
    | joiner => exact ha hx
  refine ⟨fun y e ha he hout ↦ ?_, fun y e ha he hout ↦ ?_, fun y e he ↦ ?_,
    fun hw own hown e he ↦ ?_⟩
  · by_cases hy : y = x
    · subst hy
      exact absurd (hnew (hself ▸ he)) hout
    · obtain rfl := Side.eq_other_of_ne hy
      rw [hother] at he
      rw [hold] at hout
      have hyields := h.yields x.other e (hasks ha) he hout
      rw [Side.other_other] at hyields ⊢
      rw [hself, hm]
      exact hyields.request hfits _ _
  · by_cases hy : y = x
    · subst hy
      rw [hself, hm]
      change P.id y.other ∈ (s.node y).mutex.peers
      cases y with
      | creator => exact of_decide_eq_true (ha rfl)
      | joiner => exact hshape.joiner_knows (.inr (hidle.2 rfl))
    · obtain rfl := Side.eq_other_of_ne hy
      rw [hother] at he ⊢
      rw [hold] at hout
      exact h.waits x.other e (hasks ha) he hout
  · rw [hrequests] at he
    have hlt := h.deferred_lt y e he
    by_cases hy : y = x
    · subst hy
      rw [hself, hm]
      simp only [UInt32.toNat_add, UInt32.toNat_one]
      omega
    · rw [Side.eq_other_of_ne hy] at hlt ⊢
      rwa [hother]
  · cases x with
    | joiner => exact hnew (hself ▸ he)
    | creator =>
        -- the creator does not know the joiner, so the joiner has no request yet
        have hunknown : P.id .joiner ∉ (s.node .creator).mutex.peers := of_decide_eq_false hw
        have hphase : s.phase ≠ .ready := by
          intro hready
          exact hunknown (hshape.creator_knows (by simp [hready]) (by simp [hready]))
        rw [show s'.node .joiner = s.node .joiner from hother, (hshape.silent hphase).1] at he
        cases he

omit [DecidableEq T] in
theorem SafeInv.unlock (h : SafeInv P s) (hidle : s.Idle x) {t : T} {nd : Node T}
    (hm : nd.mutex = (s.node x).mutex.unlock.1)
    (hfits : (s.node x).mutex.lTime.toNat + (s.node x).mutex.requests.length < 2 ^ 32) :
    SafeInv P { s with
      node := Function.update s.node x nd
      outbox := Function.update s.outbox x (s.node x).mutex.unlock.2
      waitsForJoiner := s.waitsAfter P x (.unlock t) } := by
  set s' : State T := { s with
    node := Function.update s.node x nd
    outbox := Function.update s.outbox x (s.node x).mutex.unlock.2
    waitsForJoiner := s.waitsAfter P x (.unlock t) } with hs'
  have hself : s'.node x = nd := Function.update_self ..
  have hother : s'.node x.other = s.node x.other := Function.update_of_ne x.other_ne ..
  have hnone : nd.mutex.localRequest = none := by rw [hm]; rfl
  have hwaits : s'.waitsForJoiner = s.waitsForJoiner := by
    cases x <;> rfl
  have hasks : ∀ {y}, Asks s' y → Asks s y := fun ha hy ↦ hwaits ▸ ha hy
  have hmsgs : ∀ msg, msg ∈ s'.inbox x.other.other ++ s'.outbox x.other ↔
      msg ∈ s.inbox x.other.other ++ s.outbox x.other := fun msg ↦ by simp [hs']
  refine ⟨fun y e ha he hout ↦ ?_, fun y e ha he hout ↦ ?_, fun y e he ↦ ?_,
    fun hw own hown e he ↦ ?_⟩
  · by_cases hy : y = x
    · subst hy
      rw [hself, hnone] at he
      cases he
    · obtain rfl := Side.eq_other_of_ne hy
      rw [hother] at he
      rw [Side.other_other, hself, hm]
      refine yieldsTo_unlock ?_ hfits
      -- what had been deferred has an earlier clock
      by_cases hbefore : Outstanding s x.other e
      · refine h.deferred_lt x e ?_
        rcases hbefore with ⟨msg, hmsg, htype, htime⟩ | hmem
        · exact absurd (.inl ⟨msg, (hmsgs msg).mpr hmsg, htype, htime⟩) hout
        · simpa using hmem
      · simpa using (h.yields x.other e (hasks ha) he hbefore).1
  · by_cases hy : y = x
    · subst hy
      rw [hself, hnone] at he
      cases he
    · obtain rfl := Side.eq_other_of_ne hy
      rw [hother] at he ⊢
      refine h.waits x.other e (hasks ha) he (.inl ?_)
      rcases hout with ⟨msg, hmsg, htype, htime⟩ | hmem
      · exact ⟨msg, (hmsgs msg).mp hmsg, htype, htime⟩
      · rw [Side.other_other, hself, hm] at hmem
        cases hmem
  · by_cases hy : y = x
    · subst hy
      rw [hself, hm] at he
      cases he
    · obtain rfl := Side.eq_other_of_ne hy
      rw [hother] at he ⊢
      exact h.deferred_lt x.other e he
  · cases x with
    | creator =>
        rw [hself, hnone] at hown
        cases hown
    | joiner =>
        rw [hself, hnone] at he
        cases he

omit [DecidableEq T] in
theorem SafeInv.send (hshape : Shape P s) (h : SafeInv P s) {msg : Msg} {rest : List Msg}
    (houtbox : s.outbox x = msg :: rest) :
    SafeInv P ({ s with outbox := Function.update s.outbox x rest }.push P x [msg]) := by
  obtain ⟨hout, -, hwaits⟩ :=
    push_rest (P := P) (s := { s with outbox := Function.update s.outbox x rest }) (x := x) [msg]
  refine h.of_eq (fun y ↦ by rw [push_node]) (fun y hy m ↦ ?_) hwaits
  rw [hout, push_inbox]
  by_cases hyx : y = x
  · subst hyx
    -- a side that waits for the other knows it, so the message is not lost
    have hpeer : P.id y.other ∈ (s.node y).mutex.peers := by
      cases y with
      | creator => exact hshape.waits (hy.elim (fun ha ↦ ha rfl) (by simp))
      | joiner =>
          have hready : s.phase = .ready := by
            by_contra hne
            simp [(hshape.silent hne).2] at houtbox
          exact hshape.joiner_knows (.inr hready)
    rw [if_pos ⟨hpeer, rfl⟩]
    simp [houtbox]
  · obtain rfl := Side.eq_other_of_ne hyx
    simp

omit [DecidableEq T] in
theorem SafeInv.deliver (hshape : Shape P s) (h : SafeInv P s) (hidle : s.Idle x) {msg : Msg}
    {rest : List Msg} (hinbox : s.inbox x = msg :: rest)
    (hfits : max (s.node x).mutex.lTime.toNat msg.lTime.toNat + 1 +
      ((s.node x).mutex.handleMessage (P.id x.other) msg).2.length < 2 ^ 32)
    (hcounts : msg.msgType = msgTypeReply → P.id x.other ∈ (s.node x).mutex.waiter →
      ∀ entry, (s.node x).mutex.localRequest = some entry → ¬ Outstanding s x entry)
    (hkeeps : x = .creator → s.waitsForJoiner = false → msg.msgType = msgTypeRequest →
      ∀ own, (s.node .creator).mutex.localRequest = some own →
        requestComp own ⟨msg.lTime, P.id .joiner⟩ ≤ 0) :
    SafeInv P ({ s with
      node := Function.update s.node x ((s.node x).handle (P.id x.other) msg).1
      inbox := Function.update s.inbox x rest }.push P x
        ((s.node x).handle (P.id x.other) msg).2) := by
  set mid : State T := { s with
    node := Function.update s.node x ((s.node x).handle (P.id x.other) msg).1
    inbox := Function.update s.inbox x rest } with hmid
  set s' := mid.push P x ((s.node x).handle (P.id x.other) msg).2 with hs'
  obtain ⟨hout, -, hwaits⟩ :=
    push_rest (P := P) (s := mid) (x := x) ((s.node x).handle (P.id x.other) msg).2
  have hself : (s'.node x).mutex = ((s.node x).mutex.handleMessage (P.id x.other) msg).1 := by
    rw [hs', push_node]
    simp [hmid, Node.handle]
  have hother : s'.node x.other = s.node x.other := by
    rw [hs', push_node]
    exact Function.update_of_ne x.other_ne ..
  have hlocal : ∀ y, (s'.node y).mutex.localRequest = (s.node y).mutex.localRequest := by
    intro y
    by_cases hy : y = x
    · subst hy
      rw [hself, handleMessage_localRequest]
    · rw [Side.eq_other_of_ne hy, hother]
  have hasks : ∀ {y}, Asks s' y → Asks s y := fun ha hy ↦ hwaits ▸ ha hy
  have hrest : s'.inbox x = rest := by
    rw [hs', push_inbox]
    simp [hmid]
  -- what `x` itself has asked for: the replies it sends now are no requests
  have hmine : ∀ e, Outstanding s' x e ↔ Outstanding s x e := by
    intro e
    have hinboxes : s'.inbox x.other = s.inbox x.other ∨
        s'.inbox x.other = s.inbox x.other ++ ((s.node x).handle (P.id x.other) msg).2 := by
      rw [hs', push_inbox]
      split <;> simp [hmid]
    unfold Outstanding
    rw [hother, hout]
    refine or_congr ⟨?_, ?_⟩ .rfl
    · rintro ⟨m, hm, htype, htime⟩
      refine ⟨m, ?_, htype, htime⟩
      rcases hinboxes with heq | heq
      · simpa [heq, hmid] using hm
      · rw [heq, List.append_assoc, List.mem_append, List.mem_append] at hm
        rcases hm with hm | hm | hm
        · exact List.mem_append_left _ hm
        · have hreply := handleMessage_msgType hm
          simp [htype, msgTypeRequest, msgTypeReply] at hreply
        · exact List.mem_append_right _ hm
    · rintro ⟨m, hm, htype, htime⟩
      refine ⟨m, ?_, htype, htime⟩
      rcases hinboxes with heq | heq
      · simpa [heq, hmid] using hm
      · rw [heq]
        simp only [List.mem_append] at hm ⊢
        exact hm.elim (fun hm ↦ .inl (.inl hm)) .inr
  have htheirs : ∀ {e}, Outstanding s' x.other e → (s.node x.other).mutex.localRequest = some e →
      Outstanding s x.other e := by
    rintro e (⟨m, hm, htype, htime⟩ | hmem) he
    · refine .inl ⟨m, ?_, htype, htime⟩
      rw [Side.other_other, hrest, hout] at hm
      rw [Side.other_other, hinbox, List.cons_append]
      exact List.mem_cons_of_mem _ hm
    · rw [Side.other_other, hself] at hmem
      rcases of_mem_handleMessage_requests hmem with hmem | ⟨htype, rfl⟩
      · exact .inr (by simpa using hmem)
      · exact .inl ⟨msg, by simp [hinbox], htype, rfl⟩
  -- a request of the other side that is no longer outstanding has just been answered
  have hanswered : ∀ {e}, (s.node x.other).mutex.localRequest = some e → Outstanding s x.other e →
      ¬ Outstanding s' x.other e → answersAtOnce (s.node x).mutex.localRequest e = true ∧
        msg.msgType = msgTypeRequest ∧ (⟨msg.lTime, P.id x.other⟩ : RequestEntry) = e := by
    rintro e he (⟨m, hm, htype, htime⟩ | hmem) hnot
    · rw [Side.other_other, hinbox, List.cons_append] at hm
      rcases List.mem_cons.mp hm with rfl | hm
      · have heq : (⟨m.lTime, P.id x.other⟩ : RequestEntry) = e := by
          rw [← ((hshape.node x.other).active_of_request e he).1, htime]
        refine ⟨?_, htype, heq⟩
        by_contra hdefers
        refine hnot (.inr ?_)
        rw [Side.other_other, hself]
        rcases handleMessage_cases (s.node x).mutex (P.id x.other) m with
          ⟨-, hans, -⟩ | ⟨-, -, hnew⟩ | ⟨hreply, -⟩ | ⟨hbad, -, -⟩
        · exact absurd (heq ▸ hans) hdefers
        · rw [hnew]
          simp [mem_sortRequests, heq]
        · simp [htype, msgTypeRequest, msgTypeReply] at hreply
        · exact absurd htype hbad
      · refine absurd (.inl ⟨m, ?_, htype, htime⟩) hnot
        rw [Side.other_other, hrest, hout]
        exact hm
    · refine absurd (.inr ?_) hnot
      rw [Side.other_other, hself]
      rw [Side.other_other] at hmem
      exact handleMessage_requests_mono hmem
  refine ⟨fun y e ha he hnot ↦ ?_, fun y e ha he hyes ↦ ?_, fun y e he ↦ ?_,
    fun hw own hown e he ↦ ?_⟩
  · rw [hlocal] at he
    by_cases hy : y = x
    · subst hy
      rw [hmine] at hnot
      rw [hother]
      exact h.yields y e (hasks ha) he hnot
    · obtain rfl := Side.eq_other_of_ne hy
      rw [Side.other_other, hself]
      by_cases hbefore : Outstanding s x.other e
      · obtain ⟨hans, -, rfl⟩ := hanswered he hbefore hnot
        exact yieldsTo_of_answersAtOnce hans hfits
      · have hyields := h.yields x.other e (hasks ha) he hbefore
        rw [Side.other_other] at hyields
        exact hyields.handleMessage hfits
  · rw [hlocal] at he
    by_cases hy : y = x
    · subst hy
      rw [hmine] at hyes
      have hmem := h.waits y e (hasks ha) he hyes
      rw [hself]
      rcases handleMessage_waiter (s.node y).mutex (P.id y.other) msg with heq | ⟨htype, -⟩
      · rwa [heq]
      · exact absurd hyes (hcounts htype hmem e he)
    · obtain rfl := Side.eq_other_of_ne hy
      rw [hother]
      exact h.waits x.other e (hasks ha) he (htheirs hyes he)
  · by_cases hy : y = x
    · subst hy
      have hclock := handleMessage_clock hfits
      rw [hself] at he ⊢
      rcases of_mem_handleMessage_requests he with he | ⟨-, rfl⟩
      · exact (h.deferred_lt y e he).trans hclock.1
      · exact hclock.2
    · obtain rfl := Side.eq_other_of_ne hy
      rw [hother] at he ⊢
      exact h.deferred_lt x.other e he
  · rw [hlocal] at hown he
    rw [hwaits] at hw
    have hbefore := h.unasked hw own hown e he
    cases x with
    | joiner => exact (hmine e).mpr hbefore
    | creator =>
        by_contra hnot
        obtain ⟨hans, htype, rfl⟩ := hanswered he hbefore hnot
        have hlt := requestComp_pos_iff.mpr (answersAtOnce_iff.mp hans own hown)
        exact absurd hlt (not_lt.mpr (hkeeps rfl hw htype own hown))

end Step

/-! ## Runs -/

variable {P : Pair} {s : State T}

/-- The steps under which the holder is respected. -/
def Respectful (P : Pair) (s : State T) (a : Action T) : Prop :=
  NoWrap P s a ∧ CountsAnswers P s a ∧ KeepsHolder P s a

instance (P : Pair) (s : State T) (a : Action T) : Decidable (Respectful P s a) :=
  inferInstanceAs (Decidable (_ ∧ _))

theorem shape_init : Shape P (system T P).init where
  node _ := Node.wellFormed_initial rfl rfl rfl
  peers_nodup _ := List.nodup_nil
  joiner_knows := by simp [system]
  creator_knows := by simp [system]
  silent _ := ⟨rfl, rfl⟩
  waits := by simp [system]

theorem shape_of_reach {ok : State T → Action T → Prop} (h : (system T P).Reach ok s) :
    Shape P s :=
  h.invariant (Shape P) shape_init fun _ ih _ hst ↦ ih.step hst

theorem SafeInv.step {s' : State T} (hshape : Shape P s) (h : SafeInv P s) {a : Action T}
    (ha : Respectful P s a) (hst : step P s a = some s') : SafeInv P s' := by
  obtain ⟨hfits, hcounts, hkeeps⟩ := ha
  cases a with
  | thread x a =>
      obtain ⟨hidle, nd, msgs, hnd, rfl⟩ := step_thread_eq_some hst
      -- a step that moves the thread only
      have hquiet : nd.mutex = (s.node x).mutex → msgs = [] →
          s.waitsAfter P x a = s.waitsForJoiner → SafeInv P { s with
            node := Function.update s.node x nd
            outbox := Function.update s.outbox x msgs
            waitsForJoiner := s.waitsAfter P x a } := by
        rintro hm rfl hw
        refine h.of_eq (fun y ↦ ?_) (fun y _ msg ↦ ?_) hw
        · by_cases hy : y = x
          · subst hy
            simp [hm]
          · simp [hy]
        · by_cases hy : y = x
          · subst hy
            simp [hidle.1]
          · simp [hy]
      rcases Node.threadStep_eq_some hnd with ⟨t, rfl, -, -, rfl, rfl⟩ |
        ⟨t, rfl, -, hnone, rfl, rfl⟩ | ⟨t, rfl, -, -, rfl, rfl⟩ | ⟨t, rfl, -, rfl, rfl⟩ |
        ⟨t, rfl, -, rfl, rfl⟩
      · exact hquiet rfl rfl (by cases x <;> rfl)
      · exact h.request hshape hidle hnone rfl hfits
      · exact hquiet rfl rfl (by cases x <;> rfl)
      · exact h.unlock hidle rfl hfits
      · exact hquiet rfl rfl (by cases x <;> rfl)
  | send x =>
      obtain ⟨msg, rest, houtbox, rfl⟩ := step_send_eq_some hst
      exact h.send hshape houtbox
  | deliver x =>
      obtain ⟨msg, rest, hinbox, hidle, rfl⟩ := step_deliver_eq_some hst
      have hhead : msg ∈ (s.inbox x).head? := by simp [hinbox]
      refine h.deliver hshape hidle hinbox (hfits msg hhead)
        (fun htype hmem ↦ hcounts msg hhead htype hmem) ?_
      rintro rfl hw htype own hown
      exact hkeeps hw msg hhead htype own hown
  | join =>
      have hpeer : ∀ (y : Side) (peerId : UInt32) (phase : Phase), SafeInv P { s with
          phase := phase
          node := Function.update s.node y (Node.addPeer (s.node y) peerId) } := by
        intro y peerId phase
        refine h.of_eq (fun z ↦ ?_) (fun _ _ _ ↦ .rfl) rfl
        by_cases hz : z = y
        · subst hz
          simp [Node.addPeer]
        · simp [hz]
      unfold LateJoin.step at hst
      cases hphase : s.phase with
      | absent =>
          obtain rfl := by simpa [hphase] using hst
          exact h.of_eq (fun _ ↦ rfl) (fun _ _ _ ↦ .rfl) rfl
      | getSent =>
          obtain rfl := by simpa [hphase] using hst
          exact hpeer _ _ _
      | added =>
          obtain rfl := by simpa [hphase] using hst
          exact hpeer _ _ _
      | replied =>
          obtain rfl := by simpa [hphase] using hst
          exact h.of_eq (fun _ ↦ rfl) (fun _ _ _ ↦ .rfl) rfl
      | ready => simp [hphase] at hst

theorem safeInv_of_reach (h : (system T P).Reach (Respectful P) s) : SafeInv P s := by
  refine h.invariant (SafeInv P) ⟨?_, ?_, ?_, ?_⟩
    fun hs ih ha hst ↦ ih.step (shape_of_reach hs) ha hst
  all_goals simp [system, initialNode]

/-- The creator and the joiner are never both critical. -/
theorem holder_respected (h : (system T P).Reach (Respectful P) s) (t u : T) :
    ¬ ((s.node .creator).pc t = .critical ∧ (s.node .joiner).pc u = .critical) := by
  rintro ⟨ht, hu⟩
  have hshape := shape_of_reach h
  have hinv := safeInv_of_reach h
  obtain ⟨own, hown⟩ := (hshape.node .creator).request_of_active t (.inr ht)
  obtain ⟨entry, hentry⟩ := (hshape.node .joiner).request_of_active u (.inr hu)
  have hcreator := (hshape.node .creator).waiter_nil_of_pc (t := t) (.inr (by simp [ht]))
    (by simp [ht])
  have hjoiner := (hshape.node .joiner).waiter_nil_of_pc (t := u) (.inr (by simp [hu]))
    (by simp [hu])
  have hanswered : ¬ Outstanding s .joiner entry := fun hout ↦ by
    have hmem := hinv.waits .joiner entry nofun hentry hout
    simp [hjoiner] at hmem
  cases hwaits : s.waitsForJoiner with
  | false => exact hanswered (hinv.unasked hwaits own hown entry hentry)
  | true =>
      have hasked : ¬ Outstanding s .creator own := fun hout ↦ by
        have hmem := hinv.waits .creator own (fun _ ↦ hwaits) hown hout
        simp [hcreator] at hmem
      have hlt := (hinv.yields .joiner entry nofun hentry hanswered).2 own hown
      have hgt := (hinv.yields .creator own (fun _ ↦ hwaits) hown hasked).2 entry hentry
      exact absurd hlt (not_lt.mpr hgt.le)

/-- Both sides have joined; the joiner's request waits until the creator unlocks. -/
theorem holder_respected_one_two :
    ∃ s : State Unit, (s.node .creator).pc () = .critical ∧ (s.node .joiner).pc () = .waiting ∧
      ¬ ((s.node .creator).pc () = .critical ∧ (s.node .joiner).pc () = .critical) := by
  let P : Pair := ⟨fun | .creator => 1 | .joiner => 2, by decide⟩
  obtain ⟨s, hs, hp⟩ := LabelledSystem.exists_reach_of_exec (system Unit P) (Respectful P)
    [.thread .creator (.acquire ()), .thread .creator (.request ()), .send .creator,
      .thread .creator (.enter ()), .join, .join, .join, .join, .thread .joiner (.acquire ()),
      .thread .joiner (.request ()), .send .joiner, .deliver .creator]
    (fun s ↦ (s.node .creator).pc () = .critical ∧ (s.node .joiner).pc () = .waiting) (by decide)
  obtain ⟨hcreator, hjoiner⟩ : (s.node .creator).pc () = .critical ∧
    (s.node .joiner).pc () = .waiting := by simpa using hp
  exact ⟨s, hcreator, hjoiner, holder_respected hs () ()⟩

/-- The creator is in its second cycle when the joiner asks with clock 1. -/
def smallerRequest : List (Action Unit) :=
  [.thread .creator (.acquire ()), .thread .creator (.request ()), .send .creator,
    .thread .creator (.enter ()), .thread .creator (.unlock ()), .thread .creator (.release ()),
    .thread .creator (.acquire ()), .thread .creator (.request ()), .send .creator,
    .thread .creator (.enter ()), .join, .join, .join, .join,
    .thread .joiner (.acquire ()), .thread .joiner (.request ()), .send .joiner,
    .deliver .creator, .deliver .joiner, .thread .joiner (.enter ())]

theorem not_holder_respected_of_noWrap :
    ¬ ∀ (P : Pair) (s : State Unit), (system Unit P).Reach (NoWrap P) s → ∀ t u : Unit,
      ¬ ((s.node .creator).pc t = .critical ∧ (s.node .joiner).pc u = .critical) := by
  intro h
  let P : Pair := ⟨fun | .creator => 1 | .joiner => 2, by decide⟩
  obtain ⟨s, hs, hp⟩ := LabelledSystem.exists_reach_of_exec (system Unit P) (NoWrap P)
    smallerRequest
    (fun s ↦ (s.node .creator).pc () = .critical ∧ (s.node .joiner).pc () = .critical) (by decide)
  exact h P s hs () () (by simpa using hp)

end Edsm.Mutex.LateJoin
