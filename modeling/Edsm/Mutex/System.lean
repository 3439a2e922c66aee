import Edsm.Group
import Edsm.Library.Channels
import Edsm.Library.Reachability
import Edsm.Mutex.Threads

/-!
# The mutex protocol of a whole group

Every node runs any number of threads and one listener, which takes frames off
the channels to the node.  The connection between two nodes also carries the
messages of other objects; of these the model keeps the ones a thread sends
while it holds the mutex (`data`), because a lock cycle is there to order them.
-/

namespace Edsm.Mutex

/-- A frame on the connection between two nodes. -/
inductive Frame (D : Type*)
  | mutex (msg : Msg)
  | data (d : D)
  deriving DecidableEq

def Frame.asMsg {D : Type*} : Frame D → Option Msg
  | .mutex msg => some msg
  | .data _ => none

def Frame.asData {D : Type*} : Frame D → Option D
  | .mutex _ => none
  | .data d => some d

structure State (T D : Type*) where
  node : UInt32 → Node T
  net : Channels UInt32 (Frame D)

inductive Action (T D : Type*)
  /-- A step of a thread of node `p`. -/
  | thread (p : UInt32) (a : ThreadAction T)
  /-- Thread `t` of node `p`, which holds the mutex, sends `d` to every peer. -/
  | publish (p : UInt32) (t : T) (d : D)
  /-- The listener of `p` handles the oldest frame from `q`. -/
  | deliver (q p : UInt32)

variable {T D : Type*}

namespace State

/-- Node `p` becomes `nd` and sends `msgs` to each of its peers. -/
def after (s : State T D) (p : UInt32) (nd : Node T) (msgs : List Msg) : State T D where
  node := Function.update s.node p nd
  net := s.net.multicast p nd.mutex.peers (msgs.map .mutex)

/-- Node `p` sends one frame of another object to each of its peers. -/
def sendData (s : State T D) (p : UInt32) (d : D) : State T D :=
  { s with net := s.net.multicast p (s.node p).mutex.peers [.data d] }

def takeFrame (s : State T D) (q p : UInt32) (rest : List (Frame D)) : State T D :=
  { s with net := s.net.set q p rest }

end State

variable [DecidableEq T]

def step (G : Group) (s : State T D) : Action T D → Option (State T D)
  | .thread p a =>
      if p ∈ G.ids then
        ((s.node p).threadStep p a).map fun sent ↦ s.after p sent.1 sent.2
      else none
  | .publish p t d =>
      if p ∈ G.ids ∧ (s.node p).pc t = .critical then some (s.sendData p d) else none
  | .deliver q p =>
      if q ∈ G.ids ∧ p ∈ G.ids then
        match s.net q p with
        | [] => none
        | .mutex msg :: rest =>
            some ((s.takeFrame q p rest).after p ((s.node p).handle q msg).1
              ((s.node p).handle q msg).2)
        | .data _ :: rest => some (s.takeFrame q p rest)
      else none

/-- `edsm_mutex_get` has returned on every node and no thread has locked yet. -/
def initialNode (G : Group) (p : UInt32) : Node T where
  mutex := { peers := G.peers p, lTime := 0, requests := [], waiter := [], localRequest := none }
  localMutex := none
  pc _ := .outside

def system (T D : Type*) [DecidableEq T] (G : Group) : LabelledSystem (State T D) (Action T D) where
  init := { node := initialNode G, net := .empty }
  step := step G

/-! ## Messages in flight -/

def RequestInFlight (s : State T D) (p q : UInt32) (entry : RequestEntry) : Prop :=
  ∃ msg : Msg, msg.msgType = msgTypeRequest ∧ msg.lTime = entry.lTime ∧
    Frame.mutex msg ∈ s.net p q

instance (s : State T D) (p q : UInt32) (entry : RequestEntry) :
    Decidable (RequestInFlight s p q entry) :=
  decidable_of_iff
    (∃ f ∈ s.net p q, f.asMsg.any fun msg ↦
      msg.msgType = msgTypeRequest ∧ msg.lTime = entry.lTime) <| by
    constructor
    · rintro ⟨f, hf, hmsg⟩
      cases f with
      | mutex msg =>
          obtain ⟨htype, htime⟩ := by simpa [Frame.asMsg] using hmsg
          exact ⟨msg, htype, htime, hf⟩
      | data d => simp [Frame.asMsg] at hmsg
    · rintro ⟨msg, htype, htime, hmsg⟩
      exact ⟨.mutex msg, hmsg, by simp [Frame.asMsg, htype, htime]⟩

def ReplyInFlight (s : State T D) (q p : UInt32) : Prop :=
  ∃ msg : Msg, msg.msgType = msgTypeReply ∧ Frame.mutex msg ∈ s.net q p

/-- The data on its way from `q` to `p`, oldest first. -/
def State.inFlight (s : State T D) (q p : UInt32) : List D := (s.net q p).filterMap Frame.asData

/-! ## The effect of a step -/

/-- What a step of the group does, one constructor for each way through the code. -/
inductive Effect (G : Group) (s : State T D) : Action T D → State T D → Prop
  /-- A thread moves on without touching the distributed state. -/
  | quiet (p : UInt32) (a : ThreadAction T) (nd : Node T) (hp : p ∈ G.ids)
      (hm : nd.mutex = (s.node p).mutex) : Effect G s (.thread p a) (s.after p nd [])
  | request (p : UInt32) (t : T) (nd : Node T) (hp : p ∈ G.ids)
      (hnone : (s.node p).mutex.localRequest = none) (hwaiter : (s.node p).mutex.waiter = [])
      (hm : nd.mutex = { (s.node p).mutex with
        lTime := (s.node p).mutex.lTime + 1
        waiter := (s.node p).mutex.peers
        localRequest := some ⟨(s.node p).mutex.lTime + 1, p⟩ }) :
      Effect G s (.thread p (.request t))
        (s.after p nd [⟨msgTypeRequest, (s.node p).mutex.lTime + 1, 0⟩])
  | unlock (p : UInt32) (t : T) (nd : Node T) (hp : p ∈ G.ids)
      (hpc : (s.node p).pc t = .critical) (hm : nd.mutex = (s.node p).mutex.unlock.1) :
      Effect G s (.thread p (.unlock t)) (s.after p nd (s.node p).mutex.unlock.2)
  | publish (p : UInt32) (t : T) (d : D) (hp : p ∈ G.ids)
      (hpc : (s.node p).pc t = .critical) : Effect G s (.publish p t d) (s.sendData p d)
  | handle (q p : UInt32) (msg : Msg) (rest : List (Frame D)) (hq : q ∈ G.ids) (hp : p ∈ G.ids)
      (hhead : s.net q p = .mutex msg :: rest) :
      Effect G s (.deliver q p) ((s.takeFrame q p rest).after p ((s.node p).handle q msg).1
        ((s.node p).handle q msg).2)
  | data (q p : UInt32) (d : D) (rest : List (Frame D)) (hq : q ∈ G.ids) (hp : p ∈ G.ids)
      (hhead : s.net q p = .data d :: rest) : Effect G s (.deliver q p) (s.takeFrame q p rest)

/-- Well-formedness of the whole group. -/
structure WellFormed (G : Group) (s : State T D) : Prop where
  node : ∀ p ∈ G.ids, (s.node p).WellFormed p
  peers : ∀ p ∈ G.ids, (s.node p).mutex.peers = G.peers p
  /-- A node sends nothing to itself. -/
  net_self : ∀ p ∈ G.ids, s.net p p = []

variable {G : Group} {s s' : State T D}

theorem step_deliver_cases {q p : UInt32} (h : step G s (.deliver q p) = some s') :
    q ∈ G.ids ∧ p ∈ G.ids ∧
      ((∃ msg rest, s.net q p = .mutex msg :: rest ∧
        s' = (s.takeFrame q p rest).after p ((s.node p).handle q msg).1
          ((s.node p).handle q msg).2) ∨
      ∃ d rest, s.net q p = .data d :: rest ∧ s' = s.takeFrame q p rest) := by
  obtain ⟨⟨hq, hp⟩, h⟩ := by simpa [step] using h
  refine ⟨hq, hp, ?_⟩
  cases hhead : s.net q p with
  | nil => simp [hhead] at h
  | cons frame rest =>
      cases frame with
      | mutex msg =>
          obtain rfl := by simpa [hhead] using h
          exact .inl ⟨msg, rest, rfl, rfl⟩
      | data d =>
          obtain rfl := by simpa [hhead] using h
          exact .inr ⟨d, rest, rfl, rfl⟩

theorem step_effect (hwf : WellFormed G s) {a : Action T D} (h : step G s a = some s') :
    Effect G s a s' := by
  cases a with
  | thread p a =>
      obtain ⟨hp, nd, msgs, hstep, rfl⟩ := by simpa [step] using h
      rcases Node.threadStep_eq_some hstep with ⟨t, rfl, -, -, rfl, rfl⟩ |
        ⟨t, rfl, hpc, hnone, rfl, rfl⟩ | ⟨t, rfl, -, -, rfl, rfl⟩ | ⟨t, rfl, hpc, rfl, rfl⟩ |
        ⟨t, rfl, -, rfl, rfl⟩
      · exact .quiet p _ _ hp rfl
      · exact .request p t _ hp hnone
          ((hwf.node p hp).waiter_nil_of_pc (t := t) (.inr (by simp [hpc])) (by simp [hpc])) rfl
      · exact .quiet p _ _ hp rfl
      · exact .unlock p t _ hp hpc rfl
      · exact .quiet p _ _ hp rfl
  | publish p t d =>
      obtain ⟨⟨hp, hpc⟩, rfl⟩ := by simpa [step] using h
      exact .publish p t d hp hpc
  | deliver q p =>
      obtain ⟨hq, hp, ⟨msg, rest, hhead, rfl⟩ | ⟨d, rest, hhead, rfl⟩⟩ := step_deliver_cases h
      · exact .handle q p msg rest hq hp hhead
      · exact .data q p d rest hq hp hhead

/-! ## Channels and nodes after a step -/

section AfterStep

variable {p q x a b : UInt32} {nd : Node T} {msgs : List Msg} {d : D} {rest : List (Frame D)}

omit [DecidableEq T]

@[simp] theorem after_node_self : (s.after p nd msgs).node p = nd := by
  simp [State.after]

theorem after_node_ne (h : x ≠ p) : (s.after p nd msgs).node x = s.node x := by
  simp [State.after, h]

/-- What is the same at `p` is the same at every node. -/
theorem after_congr {β : Type*} (f : Mutex → β) (h : f nd.mutex = f (s.node p).mutex)
    (q : UInt32) : f ((s.after p nd msgs).node q).mutex = f (s.node q).mutex := by
  by_cases hqp : q = p
  · rw [hqp, after_node_self, h]
  · rw [after_node_ne hqp]

theorem WellFormed.peers_handle (hwf : WellFormed G s) (hp : p ∈ G.ids) (q : UInt32)
    (msg : Msg) : ((s.node p).handle q msg).1.mutex.peers = G.peers p := by
  simpa [Node.handle] using hwf.peers p hp

theorem WellFormed.ne_of_head (hwf : WellFormed G s) (hq : q ∈ G.ids) {frame : Frame D}
    (hhead : s.net q p = frame :: rest) : q ≠ p := by
  rintro rfl
  simp [hwf.net_self q hq] at hhead

@[simp] theorem sendData_node : (s.sendData p d).node = s.node := rfl

@[simp] theorem takeFrame_node : (s.takeFrame q p rest).node = s.node := rfl

theorem takeFrame_net :
    (s.takeFrame q p rest).net a b = if a = q ∧ b = p then rest else s.net a b := rfl

theorem multicast_net (hp : p ∈ G.ids) (net : Channels UInt32 (Frame D))
    (frames : List (Frame D)) :
    net.multicast p (G.peers p) frames a b =
      if a = p ∧ b ∈ G.ids ∧ b ≠ p then net a b ++ frames else net a b := by
  rw [Channels.multicast_apply _ _ (G.peers_nodup p hp)]
  simp only [G.mem_peers p hp]

theorem after_net (hp : p ∈ G.ids) (hpeers : nd.mutex.peers = G.peers p) :
    (s.after p nd msgs).net a b =
      if a = p ∧ b ∈ G.ids ∧ b ≠ p then s.net a b ++ msgs.map .mutex else s.net a b := by
  simp only [State.after, hpeers, multicast_net hp]

theorem sendData_net (hp : p ∈ G.ids) (hpeers : (s.node p).mutex.peers = G.peers p) :
    (s.sendData p d).net a b =
      if a = p ∧ b ∈ G.ids ∧ b ≠ p then s.net a b ++ [.data d] else s.net a b := by
  simp only [State.sendData, hpeers, multicast_net hp]

theorem mem_after_net (hp : p ∈ G.ids) (hpeers : nd.mutex.peers = G.peers p) {f : Frame D}
    (h : f ∈ s.net a b) : f ∈ (s.after p nd msgs).net a b := by
  rw [after_net hp hpeers]
  split
  · exact List.mem_append_left _ h
  · exact h

theorem of_mem_after_net (hp : p ∈ G.ids) (hpeers : nd.mutex.peers = G.peers p) {msg : Msg}
    (h : .mutex msg ∈ (s.after p nd msgs).net a b) :
    .mutex msg ∈ s.net a b ∨ (a = p ∧ msg ∈ msgs) := by
  rw [after_net hp hpeers] at h
  split at h
  · next hab => simpa [hab.1] using h
  · exact .inl h

theorem mem_takeFrame {f g : Frame D} (hhead : s.net q p = f :: rest) (h : g ∈ s.net a b) :
    (g = f ∧ a = q ∧ b = p) ∨ g ∈ (s.takeFrame q p rest).net a b := by
  rw [takeFrame_net]
  split
  · next hab =>
      obtain ⟨rfl, rfl⟩ := hab
      rw [hhead] at h
      exact (List.mem_cons.mp h).imp (fun he ↦ ⟨he, rfl, rfl⟩) id
  · exact .inr h

theorem of_mem_takeFrame {f g : Frame D} (hhead : s.net q p = f :: rest)
    (h : g ∈ (s.takeFrame q p rest).net a b) : g ∈ s.net a b := by
  rw [takeFrame_net] at h
  split at h
  · next hab =>
      obtain ⟨rfl, rfl⟩ := hab
      exact hhead ▸ List.mem_cons_of_mem f h
  · exact h

theorem mutex_mem_sendData_net (hp : p ∈ G.ids) (hpeers : (s.node p).mutex.peers = G.peers p)
    {msg : Msg} : .mutex msg ∈ (s.sendData p d).net a b ↔ .mutex msg ∈ s.net a b := by
  rw [sendData_net hp hpeers]
  split <;> simp

end AfterStep

theorem wellFormed_init : WellFormed G (system T D G).init where
  node _ _ := Node.wellFormed_initial rfl rfl rfl
  peers _ _ := rfl
  net_self _ _ := rfl

omit [DecidableEq T] in
theorem WellFormed.after (h : WellFormed G s) {p : UInt32} (hp : p ∈ G.ids) {nd : Node T}
    (hnd : nd.WellFormed p) (hpeers : nd.mutex.peers = G.peers p) (msgs : List Msg) :
    WellFormed G (s.after p nd msgs) where
  node x hx := by
    by_cases hxp : x = p
    · subst hxp
      simpa using hnd
    · rw [after_node_ne hxp]
      exact h.node x hx
  peers x hx := by
    by_cases hxp : x = p
    · subst hxp
      simpa using hpeers
    · rw [after_node_ne hxp]
      exact h.peers x hx
  net_self x hx := by
    rw [after_net hp hpeers, if_neg (by rintro ⟨rfl, -, hne⟩; exact hne rfl)]
    exact h.net_self x hx

omit [DecidableEq T] in
theorem WellFormed.takeFrame (h : WellFormed G s) {q p : UInt32} {f : Frame D}
    {rest : List (Frame D)} (hhead : s.net q p = f :: rest) :
    WellFormed G (s.takeFrame q p rest) where
  node := h.node
  peers := h.peers
  net_self x hx := by
    rw [takeFrame_net]
    split
    · next hxq =>
        obtain ⟨rfl, rfl⟩ := hxq
        simp [h.net_self x hx] at hhead
    · exact h.net_self x hx

theorem WellFormed.step (h : WellFormed G s) {a : Action T D} (hstep : step G s a = some s') :
    WellFormed G s' := by
  cases a with
  | thread p a =>
      obtain ⟨hp, nd, msgs, hnd, rfl⟩ := by simpa [Mutex.step] using hstep
      have hpeers : nd.mutex.peers = (s.node p).mutex.peers := Node.threadStep_peers hnd
      have hnodup : (s.node p).mutex.peers.Nodup := h.peers p hp ▸ G.peers_nodup p hp
      exact h.after hp ((h.node p hp).threadStep hnodup hnd) (hpeers.trans (h.peers p hp)) msgs
  | publish p t d =>
      obtain ⟨⟨hp, hpc⟩, rfl⟩ := by simpa [Mutex.step] using hstep
      refine ⟨h.node, h.peers, fun x hx ↦ ?_⟩
      rw [sendData_net hp (h.peers p hp), if_neg (by rintro ⟨rfl, -, hne⟩; exact hne rfl)]
      exact h.net_self x hx
  | deliver q p =>
      obtain ⟨-, hp, ⟨msg, rest, hhead, rfl⟩ | ⟨d, rest, hhead, rfl⟩⟩ := step_deliver_cases hstep
      · exact (h.takeFrame hhead).after hp ((h.node p hp).handle q msg)
          (by simpa [Node.handle] using h.peers p hp) _
      · exact h.takeFrame hhead

/-! ## The threads after a step -/

theorem pc_thread {p : UInt32} {a : ThreadAction T} (h : Mutex.step G s (.thread p a) = some s')
    (x : UInt32) (u : T) :
    (s'.node x).pc u = if x = p ∧ u = a.thread then a.target else (s.node x).pc u := by
  obtain ⟨-, nd, msgs, hnd, rfl⟩ := by simpa [Mutex.step] using h
  by_cases hx : x = p
  · subst hx
    rw [after_node_self, (Node.threadStep_pc hnd).2, Function.update_apply]
    simp
  · rw [after_node_ne hx, if_neg fun hc ↦ hx hc.1]

theorem pc_source {p : UInt32} {a : ThreadAction T}
    (h : Mutex.step G s (.thread p a) = some s') :
    p ∈ G.ids ∧ (s.node p).pc a.thread = a.source := by
  obtain ⟨hp, nd, msgs, hnd, -⟩ := by simpa [Mutex.step] using h
  exact ⟨hp, (Node.threadStep_pc hnd).1⟩

theorem pc_publish {p : UInt32} {t : T} {d : D}
    (h : Mutex.step G s (.publish p t d) = some s') : s'.node = s.node := by
  obtain ⟨-, rfl⟩ := by simpa [Mutex.step] using h
  rfl

theorem pc_deliver {q p : UInt32} (h : Mutex.step G s (.deliver q p) = some s') (x : UInt32) :
    (s'.node x).pc = (s.node x).pc := by
  obtain ⟨-, -, ⟨msg, rest, -, rfl⟩ | ⟨d, rest, -, rfl⟩⟩ := step_deliver_cases h
  · by_cases hx : x = p
    · subst hx
      rw [after_node_self]
      rfl
    · rw [after_node_ne hx]
      rfl
  · rfl

/-! ## The data in flight after a step -/

omit [DecidableEq T] in
theorem filterMap_asData_mutex (msgs : List Msg) :
    (msgs.map Frame.mutex).filterMap (Frame.asData (D := D)) = [] := by
  simp [List.filterMap_eq_nil_iff, Frame.asData]

omit [DecidableEq T] in
theorem inFlight_after {p : UInt32} {nd : Node T} {msgs : List Msg} (hp : p ∈ G.ids)
    (hpeers : nd.mutex.peers = G.peers p) (a b : UInt32) :
    (s.after p nd msgs).inFlight a b = s.inFlight a b := by
  unfold State.inFlight
  rw [after_net hp hpeers]
  split
  · rw [List.filterMap_append, filterMap_asData_mutex, List.append_nil]
  · rfl

theorem inFlight_thread (hwf : WellFormed G s) {p : UInt32} {a : ThreadAction T}
    (h : Mutex.step G s (.thread p a) = some s') : s'.inFlight = s.inFlight := by
  obtain ⟨hp, nd, msgs, hnd, rfl⟩ := by simpa [Mutex.step] using h
  have hpeers : nd.mutex.peers = G.peers p := (Node.threadStep_peers hnd).trans (hwf.peers p hp)
  funext x y
  exact inFlight_after hp hpeers x y

theorem inFlight_publish (hwf : WellFormed G s) {p : UInt32} {t : T} {d : D}
    (h : Mutex.step G s (.publish p t d) = some s') (x y : UInt32) :
    s'.inFlight x y =
      if x = p ∧ y ∈ G.ids ∧ y ≠ p then s.inFlight x y ++ [d] else s.inFlight x y := by
  obtain ⟨⟨hp, -⟩, rfl⟩ := by simpa [Mutex.step] using h
  unfold State.inFlight
  rw [sendData_net hp (hwf.peers p hp)]
  split
  · rw [List.filterMap_append]
    rfl
  · rfl

theorem inFlight_deliver_mutex (hwf : WellFormed G s) {q p : UInt32} {msg : Msg}
    {rest : List (Frame D)} (hhead : s.net q p = .mutex msg :: rest)
    (h : Mutex.step G s (.deliver q p) = some s') : s'.inFlight = s.inFlight := by
  obtain ⟨⟨hq, hp⟩, rfl⟩ := by simpa [Mutex.step, hhead] using h
  have hpeers := hwf.peers_handle hp q msg
  funext x y
  rw [inFlight_after hp hpeers]
  unfold State.inFlight
  rw [takeFrame_net]
  split
  · next hxy =>
      rw [hxy.1, hxy.2, hhead]
      rfl
  · rfl

theorem inFlight_deliver_data {q p : UInt32} {d : D} {rest : List (Frame D)}
    (hhead : s.net q p = .data d :: rest) (h : Mutex.step G s (.deliver q p) = some s') :
    s.inFlight q p = d :: s'.inFlight q p ∧
      ∀ x y, ¬ (x = q ∧ y = p) → s'.inFlight x y = s.inFlight x y := by
  obtain ⟨-, rfl⟩ := by simpa [Mutex.step, hhead] using h
  unfold State.inFlight
  refine ⟨by simp [takeFrame_net, hhead, Frame.asData], fun x y hxy ↦ ?_⟩
  rw [takeFrame_net, if_neg hxy]

theorem wellFormed_of_reach {ok : State T D → Action T D → Prop}
    (h : (system T D G).Reach ok s) : WellFormed G s :=
  h.invariant (WellFormed G) wellFormed_init fun _ ih _ hst ↦ ih.step hst

/-- The invariant rule of the group, by the effect of the step. -/
theorem invariant_of_effect {ok : State T D → Action T D → Prop} (Inv : State T D → Prop)
    (hinit : Inv (system T D G).init)
    (hstep : ∀ {s a s'}, WellFormed G s → WellFormed G s' → Inv s → ok s a →
      Mutex.step G s a = some s' → Effect G s a s' → Inv s')
    (h : (system T D G).Reach ok s) : Inv s :=
  h.invariant Inv hinit fun hs ih ha hst ↦
    have hwf := wellFormed_of_reach hs
    hstep hwf (hwf.step hst) ih ha hst (step_effect hwf hst)

end Edsm.Mutex
