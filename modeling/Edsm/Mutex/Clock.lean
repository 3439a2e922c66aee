import Edsm.Dobj.Object
import Edsm.Mutex.Exclusion

/-!
# The mutex clock

Any number of nodes, each with a record of the requests it has handled and of
those it has issued.  Nothing is assumed of what a node receives: a frame of any
type with any clock may come from any peer at any time.  As long as no `l_time++`
wraps once a request has been handled, the clock stays above every handled
request, and the next request of the node is larger.
-/

namespace Edsm.Mutex.Clock

variable {T : Type*}

/-! ## Nodes with a history -/

inductive Event
  /-- `edsm_mutex_handle_message` ran on this request. -/
  | handled (entry : RequestEntry)
  /-- `edsm_mutex_lock` sent this request. -/
  | issued (entry : RequestEntry)
  deriving DecidableEq, Repr

def Event.isHandled : Event → Bool
  | .handled _ => true
  | .issued _ => false

/-- A node and what it has done, oldest first. -/
structure Watched (T : Type*) where
  node : Node T
  history : List Event

def Watched.HasHandled (w : Watched T) : Prop := w.history.any Event.isHandled = true

instance (w : Watched T) : Decidable w.HasHandled := inferInstanceAs (Decidable (_ = _))

inductive Action (T : Type*)
  | thread (a : ThreadAction T)
  /-- The listener handles `msg`, read from the connection of `peerId`. -/
  | handle (peerId : UInt32) (msg : Msg)
  /-- The listener adds a peer that has joined the mutex. -/
  | addPeer (peerId : UInt32)

/-- What a thread's step adds to the history, from the node it leaves. -/
def eventsOfThread : ThreadAction T → Node T → List Event
  | .request _, nd => nd.mutex.localRequest.toList.map .issued
  | _, _ => []

def eventsOfMessage (peerId : UInt32) (msg : Msg) : List Event :=
  if msg.msgType = msgTypeRequest then [.handled ⟨msg.lTime, peerId⟩] else []

section System

variable [DecidableEq T]

def nodeStep (localId : UInt32) (w : Watched T) : Action T → Option (Watched T)
  | .thread a => (w.node.threadStep localId a).map fun sent ↦
      { node := sent.1, history := w.history ++ eventsOfThread a sent.1 }
  | .handle peerId msg => some
      { node := (w.node.handle peerId msg).1
        history := w.history ++ eventsOfMessage peerId msg }
  | .addPeer peerId => some
      { w with node.mutex.peers := Dobj.addPeerReference peerId w.node.mutex.peers }

def step (s : UInt32 → Watched T) (a : UInt32 × Action T) : Option (UInt32 → Watched T) :=
  (nodeStep a.1 (s a.1) a.2).map (Function.update s a.1)

/-- `edsm_mutex_get` has returned, with these peers on node `p`. -/
def initialWatched (peers : UInt32 → List UInt32) (p : UInt32) : Watched T where
  node :=
    { mutex := { peers := peers p, lTime := 0, requests := [], waiter := [], localRequest := none }
      localMutex := none
      pc _ := .outside }
  history := []

def system (T : Type*) [DecidableEq T] (peers : UInt32 → List UInt32) :
    LabelledSystem (UInt32 → Watched T) (UInt32 × Action T) where
  init := initialWatched peers
  step := step

end System

/-! ## The order of requests -/

/-- A request that is issued after another was handled is the larger one, and
will not be answered ahead of it. -/
def InOrder : Event → Event → Prop
  | .handled entry, .issued own =>
      requestComp own entry > 0 ∧ answersAtOnce (some entry) own = false
  | _, _ => True

def Ordered (history : List Event) : Prop := history.Pairwise InOrder

/-- How often `edsm_mutex_handle_message` increments the clock. -/
def increments (mutex : Mutex) (peerId : UInt32) (msg : Msg) : ℕ :=
  if msg.msgType = msgTypeRequest ∧
    answersAtOnce mutex.localRequest ⟨msg.lTime, peerId⟩ = true then 2 else 1

/-- Once a request has been handled, no `l_time++` of the step wraps. -/
def ClockFits (w : Watched T) : Action T → Prop
  | .thread (.request _) => w.HasHandled → w.node.mutex.lTime.toNat + 1 < 2 ^ 32
  | .thread (.unlock _) => w.HasHandled →
      w.node.mutex.lTime.toNat + w.node.mutex.requests.length < 2 ^ 32
  | .handle peerId msg => msg.msgType = msgTypeRequest ∨ w.HasHandled →
      max w.node.mutex.lTime.toNat msg.lTime.toNat + increments w.node.mutex peerId msg < 2 ^ 32
  | _ => True

def Fits (s : UInt32 → Watched T) (a : UInt32 × Action T) : Prop := ClockFits (s a.1) a.2

instance (w : Watched T) : (a : Action T) → Decidable (ClockFits w a)
  | .thread (.request _) => inferInstanceAs (Decidable (_ → _))
  | .thread (.unlock _) => inferInstanceAs (Decidable (_ → _))
  | .handle _ _ => inferInstanceAs (Decidable (_ ∨ _ → _))
  | .thread (.acquire _) => inferInstanceAs (Decidable True)
  | .thread (.enter _) => inferInstanceAs (Decidable True)
  | .thread (.release _) => inferInstanceAs (Decidable True)
  | .addPeer _ => inferInstanceAs (Decidable True)

instance (s : UInt32 → Watched T) (a : UInt32 × Action T) : Decidable (Fits s a) :=
  inferInstanceAs (Decidable (ClockFits _ _))

/-! ## What a step does to the clock -/

theorem handleMessage_length (mutex : Mutex) (peerId : UInt32) (msg : Msg) :
    1 + (mutex.handleMessage peerId msg).2.length = increments mutex peerId msg := by
  unfold increments
  rcases handleMessage_cases mutex peerId msg with
    ⟨htype, hans, heq⟩ | ⟨-, hans, heq⟩ | ⟨htype, heq⟩ | ⟨htype, -, heq⟩
  · rw [heq, if_pos ⟨htype, hans⟩]
    rfl
  · rw [heq, if_neg (by simp [hans])]
    rfl
  · rw [heq, if_neg (by simp [htype, msgTypeRequest, msgTypeReply])]
    rfl
  · rw [heq, if_neg (by simp [htype])]
    rfl

theorem clock_handle {mutex : Mutex} {peerId : UInt32} {msg : Msg}
    (h : max mutex.lTime.toNat msg.lTime.toNat + increments mutex peerId msg < 2 ^ 32) :
    mutex.lTime.toNat < (mutex.handleMessage peerId msg).1.lTime.toNat ∧
      msg.lTime.toNat < (mutex.handleMessage peerId msg).1.lTime.toNat :=
  handleMessage_clock (by rwa [Nat.add_assoc, handleMessage_length])

theorem inOrder_of_lTime_lt {entry own : RequestEntry}
    (h : entry.lTime.toNat < own.lTime.toNat) : InOrder (.handled entry) (.issued own) := by
  have hlt := rank_lt_of_lTime_lt h
  refine ⟨requestComp_pos_iff.mpr hlt, Bool.eq_false_iff.mpr fun hans ↦ ?_⟩
  exact absurd (answersAtOnce_iff.mp hans entry rfl) (not_lt.mpr hlt.le)

theorem hasHandled_of_mem {w : Watched T} {entry : RequestEntry}
    (h : Event.handled entry ∈ w.history) : w.HasHandled :=
  List.any_eq_true.mpr ⟨_, h, rfl⟩

section Step

variable [DecidableEq T] {w w' : Watched T} {localId : UInt32} {a : Action T}

/-- The four kinds of step: those that leave the clock, a request, an unlock and
a message. -/
theorem nodeStep_cases (h : nodeStep localId w a = some w') :
    (w'.node.mutex.lTime = w.node.mutex.lTime ∧ w'.history = w.history) ∨
    (∃ t, a = .thread (.request t) ∧ w'.node.mutex.lTime = w.node.mutex.lTime + 1 ∧
      w'.history = w.history ++ [.issued ⟨w.node.mutex.lTime + 1, localId⟩]) ∨
    (∃ t, a = .thread (.unlock t) ∧ w'.node.mutex = w.node.mutex.unlock.1 ∧
      w'.history = w.history) ∨
    (∃ peerId msg, a = .handle peerId msg ∧
      w'.node.mutex = (w.node.mutex.handleMessage peerId msg).1 ∧
      w'.history = w.history ++ eventsOfMessage peerId msg) := by
  cases a with
  | thread a =>
      obtain ⟨nd, ⟨msgs, hstep⟩, rfl⟩ := by simpa [nodeStep] using h
      rcases Node.threadStep_eq_some hstep with ⟨t, rfl, -, -, rfl, -⟩ |
        ⟨t, rfl, -, -, rfl, -⟩ | ⟨t, rfl, -, -, rfl, -⟩ | ⟨t, rfl, -, rfl, -⟩ |
        ⟨t, rfl, -, rfl, -⟩
      · exact .inl ⟨rfl, by simp [eventsOfThread]⟩
      · exact .inr (.inl ⟨t, rfl, rfl, by simp [eventsOfThread]⟩)
      · exact .inl ⟨rfl, by simp [eventsOfThread]⟩
      · exact .inr (.inr (.inl ⟨t, rfl, rfl, by simp [eventsOfThread]⟩))
      · exact .inl ⟨rfl, by simp [eventsOfThread]⟩
  | handle peerId msg =>
      obtain rfl := by simpa [nodeStep] using h
      exact .inr (.inr (.inr ⟨peerId, msg, rfl, rfl, rfl⟩))
  | addPeer peerId =>
      obtain rfl := by simpa [nodeStep] using h
      exact .inl ⟨rfl, rfl⟩

/-! ## The invariant -/

/-- Every handled request is behind the clock. -/
structure ClockInv (w : Watched T) : Prop where
  ordered : Ordered w.history
  handled_lt : ∀ entry, Event.handled entry ∈ w.history →
    entry.lTime.toNat < w.node.mutex.lTime.toNat

omit [DecidableEq T] in
theorem ClockInv.of_le (h : ClockInv w) (hhistory : w'.history = w.history)
    (hle : w.HasHandled → w.node.mutex.lTime.toNat ≤ w'.node.mutex.lTime.toNat) :
    ClockInv w' := by
  refine ⟨hhistory ▸ h.ordered, fun entry hmem ↦ ?_⟩
  rw [hhistory] at hmem
  exact (h.handled_lt entry hmem).trans_le (hle (hasHandled_of_mem hmem))

omit [DecidableEq T] in
theorem ClockInv.request (h : ClockInv w)
    (hclock : w'.node.mutex.lTime = w.node.mutex.lTime + 1)
    (hhistory : w'.history = w.history ++ [.issued ⟨w.node.mutex.lTime + 1, localId⟩])
    (hfits : w.HasHandled → w.node.mutex.lTime.toNat + 1 < 2 ^ 32) : ClockInv w' := by
  have hlt : ∀ entry, Event.handled entry ∈ w.history →
      entry.lTime.toNat < (w.node.mutex.lTime + 1).toNat := by
    intro entry hmem
    have hentry := h.handled_lt entry hmem
    have hfits := hfits (hasHandled_of_mem hmem)
    rw [UInt32.toNat_add, UInt32.toNat_one]
    omega
  refine ⟨?_, fun entry hmem ↦ ?_⟩
  · rw [hhistory]
    refine List.pairwise_append.mpr ⟨h.ordered, List.pairwise_singleton _ _, ?_⟩
    intro event hevent own hown
    obtain rfl := List.mem_singleton.mp hown
    cases event with
    | handled entry => exact inOrder_of_lTime_lt (hlt entry hevent)
    | issued entry => trivial
  · rw [hhistory] at hmem
    rw [hclock]
    exact hlt entry (by simpa using hmem)

omit [DecidableEq T] in
theorem ClockInv.handle (h : ClockInv w) {peerId : UInt32} {msg : Msg}
    (hmutex : w'.node.mutex = (w.node.mutex.handleMessage peerId msg).1)
    (hhistory : w'.history = w.history ++ eventsOfMessage peerId msg)
    (hfits : msg.msgType = msgTypeRequest ∨ w.HasHandled →
      max w.node.mutex.lTime.toNat msg.lTime.toNat +
        increments w.node.mutex peerId msg < 2 ^ 32) : ClockInv w' := by
  refine ⟨?_, fun entry hmem ↦ ?_⟩
  · rw [hhistory]
    refine List.pairwise_append.mpr ⟨h.ordered, ?_, fun earlier _ event hevent ↦ ?_⟩
    · unfold eventsOfMessage
      split <;> simp
    · -- handling a message issues no request
      obtain ⟨-, rfl⟩ : _ ∧ event = .handled ⟨msg.lTime, peerId⟩ := by
        simpa [eventsOfMessage] using hevent
      cases earlier <;> trivial
  · rw [hhistory, List.mem_append] at hmem
    rw [hmutex]
    rcases hmem with hmem | hmem
    · have hclock := clock_handle (hfits (.inr (hasHandled_of_mem hmem)))
      exact (h.handled_lt entry hmem).trans hclock.1
    · obtain ⟨htype, rfl⟩ : msg.msgType = msgTypeRequest ∧ entry = ⟨msg.lTime, peerId⟩ := by
        simpa [eventsOfMessage] using hmem
      exact (clock_handle (hfits (.inl htype))).2

theorem ClockInv.step (h : ClockInv w) (hfits : ClockFits w a)
    (hstep : nodeStep localId w a = some w') : ClockInv w' := by
  rcases nodeStep_cases hstep with ⟨hclock, hhistory⟩ | ⟨t, rfl, hclock, hhistory⟩ |
    ⟨t, rfl, hmutex, hhistory⟩ | ⟨peerId, msg, rfl, hmutex, hhistory⟩
  · exact h.of_le hhistory fun _ ↦ hclock ▸ le_rfl
  · exact h.request hclock hhistory hfits
  · refine h.of_le hhistory fun hhandled ↦ ?_
    rw [hmutex, unlock_lTime_toNat (hfits hhandled)]
    exact Nat.le_add_right _ _
  · exact h.handle hmutex hhistory hfits

/-! ## Runs -/

variable {peers : UInt32 → List UInt32} {s : UInt32 → Watched T}

theorem clockInv_of_reach (h : (system T peers).Reach Fits s) (q : UInt32) :
    ClockInv (s q) := by
  refine h.invariant (fun s ↦ ∀ q, ClockInv (s q)) (fun q ↦ ?_) (fun _ ih ha hst q ↦ ?_) q
  · exact ⟨.nil, by simp [system, initialWatched]⟩
  · obtain ⟨w, hw, rfl⟩ := Option.map_eq_some_iff.mp hst
    rw [Function.update_apply]
    split
    · exact (ih _).step ha hw
    · exact ih q

/-- On every node, whatever it receives, a request issued after another was
handled is the larger one. -/
theorem ordered_of_fits (h : (system T peers).Reach Fits s) (q : UInt32) :
    Ordered (s q).history :=
  (clockInv_of_reach h q).ordered

end Step

/-- Node 1 handles a request of node 2, then takes the mutex itself. -/
theorem ordered_of_fits_two_nodes :
    ∃ s : UInt32 → Watched Unit,
      (s 1).history = [.handled ⟨7, 2⟩, .issued ⟨10, 1⟩] ∧ Ordered (s 1).history := by
  obtain ⟨s, hs, hp⟩ := LabelledSystem.exists_reach_of_exec
    (system Unit fun p ↦ if p = 1 then [2] else [1]) Fits
    [(1, .handle 2 ⟨msgTypeRequest, 7, 0⟩), (1, .thread (.acquire ())),
      (1, .thread (.request ())), (1, .handle 2 ⟨msgTypeReply, 0xFFFFFF00, 0⟩)]
    (fun s ↦ (s 1).history = [.handled ⟨7, 2⟩, .issued ⟨10, 1⟩]) (by decide +kernel)
  exact ⟨s, by simpa using hp, ordered_of_fits hs 1⟩

/-- A request with the largest clock takes the clock of node 1 round to zero. -/
theorem not_ordered_of_largest_clock :
    ¬ ∀ (peers : UInt32 → List UInt32) (s : UInt32 → Watched Unit),
      (system Unit peers).Reachable s → ∀ q, Ordered (s q).history := by
  intro h
  obtain ⟨s, hs, hp⟩ := LabelledSystem.exists_reach_of_exec
    (system Unit fun p ↦ if p = 1 then [2] else [1]) LabelledSystem.anyStep
    [(1, .handle 2 ⟨msgTypeRequest, 0xFFFFFFFF, 0⟩), (1, .thread (.acquire ())),
      (1, .thread (.request ()))]
    (fun s ↦ (s 1).history = [.handled ⟨0xFFFFFFFF, 2⟩, .issued ⟨2, 1⟩]) (by decide +kernel)
  have hhistory : (s 1).history = [.handled ⟨0xFFFFFFFF, 2⟩, .issued ⟨2, 1⟩] := by
    simpa using hp
  have hordered := hhistory ▸ h _ s hs 1
  exact absurd (List.pairwise_pair.mp hordered).1 (by decide)

/-! ## The nodes of a group -/

section Group

variable [DecidableEq T] {D : Type*} {G : Group} {s : State T D}

omit [DecidableEq T] in
theorem node_update {w : UInt32 → Watched T} (hw : ∀ x, (w x).node = s.node x) (p : UInt32)
    (watched : Watched T) (msgs : List Msg) (x : UInt32) :
    (Function.update w p watched x).node = (s.after p watched.node msgs).node x := by
  by_cases hx : x = p
  · subst hx
    simp
  · rw [Function.update_of_ne hx, after_node_ne hx, hw x]

omit [DecidableEq T] in
theorem clockFits_thread {w : Watched T} {p : UInt32} (hw : w.node = s.node p)
    {a : ThreadAction T} (h : NoWrap s (.thread p a : Mutex.Action T D)) :
    ClockFits w (.thread a) := by
  cases a with
  | request t => exact fun _ ↦ hw ▸ h
  | unlock t => exact fun _ ↦ hw ▸ h
  | acquire t => trivial
  | enter t => trivial
  | release t => trivial

/-- The nodes of a group whose clocks do not wrap run as watched nodes: what
holds of every watched node holds of the members of a group. -/
theorem exists_watched_of_reach (h : (Mutex.system T D G).Reach NoWrap s) :
    ∃ w, (system T G.peers).Reach Fits w ∧ ∀ x, (w x).node = s.node x := by
  refine h.invariant (fun s ↦ ∃ w, (system T G.peers).Reach Fits w ∧ ∀ x, (w x).node = s.node x)
    ⟨_, .init, fun x ↦ rfl⟩ ?_
  rintro s a s' - ⟨w, hreach, hw⟩ hfits hstep
  cases a with
  | thread p a =>
      obtain ⟨-, nd, msgs, hnd, rfl⟩ := by simpa [Mutex.system, Mutex.step] using hstep
      refine ⟨Function.update w p ⟨nd, (w p).history ++ eventsOfThread a nd⟩,
        hreach.step (a := (p, .thread a)) (clockFits_thread (hw p) hfits) ?_,
        node_update hw p _ msgs⟩
      simp [system, step, nodeStep, hw p, hnd]
  | publish p t d =>
      obtain ⟨-, rfl⟩ := by simpa [Mutex.system, Mutex.step] using hstep
      exact ⟨w, hreach, hw⟩
  | deliver q p =>
      obtain ⟨-, -, ⟨msg, rest, hhead, rfl⟩ | ⟨d, rest, -, rfl⟩⟩ :=
        Mutex.step_deliver_cases hstep
      · refine ⟨_, hreach.step (a := (p, .handle q msg)) (fun _ ↦ ?_) rfl, fun x ↦ ?_⟩
        · rw [hw p, ← handleMessage_length, ← Nat.add_assoc]
          simpa [NoWrap, hhead, ReceiveFits] using hfits
        · rw [node_update (s := s.takeFrame q p rest) hw p _ [], hw p]
          rfl
      · exact ⟨w, hreach, hw⟩

end Group

end Edsm.Mutex.Clock
