import Edsm.Dobj.Object
import Edsm.Library.Channels
import Edsm.Library.Reachability

/-!
# Getting objects while nodes start

The main thread of a node joins the group, which enters the node in the peers tables of
others, and only then registers the handler of the `DOBJ` messages; the listener runs from the
start.  On the nodes that are further, threads call `edsm_dobj_get`.  A node is its id.
-/

namespace Edsm.Dobj.Startup

/-- The `DOBJ` messages of `edsm_dobj_get`. -/
inductive Msg
  | get (dobjId : UInt32)
  | getReply (dobjId : UInt32) (haveReference : Bool)
  deriving DecidableEq

/-- The object that the message asks for. -/
def Msg.asked : Msg → Option UInt32
  | get dobjId => some dobjId
  | getReply .. => none

/-- How far the main thread of `edsmd` has come. -/
inductive Stage
  | absent
  /-- In `edsm_proto_group_join`, connected to the peer and without its init response, if any. -/
  | joining (peer : Option UInt32)
  | joined
  /-- `edsm_dobj_init` has registered the handler. -/
  | registered
  deriving DecidableEq

inductive Listener
  | idle
  /-- In `handle_new_connection`: the response is sent, the table has no entry yet. -/
  | accepting (peerId : UInt32)
  /-- In `edsm_dobj_handle_get`, between the lookup and `local_lock`. -/
  | answering (peerId dobjId : UInt32) (found : Bool)
  deriving DecidableEq

/-- Where a thread is in `edsm_dobj_get`. -/
inductive Pc
  | outside
  /-- The new object is in the table. -/
  | inserted (dobjId : UInt32)
  /-- `wait_on` is set. -/
  | armed (dobjId : UInt32)
  /-- In the loop of `edsm_proto_send`, at a position of the table; `more` tells whether the
  table had a next entry when the loop came to this one. -/
  | sending (dobjId : UInt32) (pos : ℕ) (more : Bool)
  /-- In `edsm_reply_waiter_wait`. -/
  | waiting (dobjId : UInt32)
  deriving DecidableEq

structure Node (T : Type*) where
  stage : Stage
  /-- The entries of the peers table whose handshake is over. -/
  peers : List UInt32
  objects : UInt32 → Option Dobj
  listener : Listener
  pc : T → Pc

structure State (T : Type*) where
  node : UInt32 → Node T
  net : Channels UInt32 Msg

inductive Action (T : Type*)
  /-- `edsm_proto_listener_init`. -/
  | start (p : UInt32)
  /-- The main thread of `q` sends the init message to `p`. -/
  | connect (q p : UInt32)
  /-- The listener of `p` reads the init message of `q` and responds. -/
  | accept (p q : UInt32)
  /-- The listener of `p` enters the new peer in the table. -/
  | enter (p : UInt32)
  /-- The main thread of `q` reads the init response. -/
  | connected (q : UInt32)
  /-- `edsm_proto_group_join` has returned, or the node founds the group. -/
  | finishJoin (p : UInt32)
  | register (p : UInt32)
  /-- `edsm_dobj_get` up to the release of `local_lock`. -/
  | get (p : UInt32) (t : T) (dobjId : UInt32)
  | setWaitOn (p : UInt32) (t : T)
  /-- The loop of `edsm_proto_send` comes to the first entry. -/
  | startSend (p : UInt32) (t : T)
  | sendGet (p : UInt32) (t : T)
  /-- The thread finds `wait_on` empty and returns. -/
  | wake (p : UInt32) (t : T)
  /-- The listener of `p` takes the oldest message of `q`. -/
  | deliver (q p : UInt32)
  /-- The rest of `edsm_dobj_handle_get`, under `local_lock`. -/
  | answer (p : UInt32)

variable {T : Type*}

/-- `edsm_dobj_handle_get` after the lookup, on what the table holds for the id. -/
def handleGet (dobj : Option Dobj) (peerId : UInt32) (found : Bool) : Option Dobj :=
  if found then dobj.map fun dobj ↦ { dobj with peers := addPeerReference peerId dobj.peers }
  else dobj

namespace Node

/-- The `wait_on` list of an object; empty when there is no object. -/
def waitOn (nd : Node T) (dobjId : UInt32) : ReplyWaiter :=
  (nd.objects dobjId).elim [] (·.waiter)

def setObject (nd : Node T) (dobjId : UInt32) (dobj : Option Dobj) : Node T :=
  { nd with objects := Function.update nd.objects dobjId dobj }

/-- An id that the table holds is not entered again. -/
def addPeer (nd : Node T) (peerId : UInt32) : Node T :=
  { nd with peers := if peerId ∈ nd.peers then nd.peers else nd.peers ++ [peerId] }

/-- `edsm_dobj_handle_message`; of `edsm_dobj_handle_get` the lookup. -/
def dobjHandleMessage (nd : Node T) (peerId : UInt32) : Msg → Node T
  | .get dobjId =>
      { nd with listener := .answering peerId dobjId (nd.objects dobjId).isSome }
  | .getReply dobjId haveReference =>
      nd.setObject dobjId (handleGetReply (nd.objects dobjId) peerId haveReference)

/-- `handle_message`: a message whose type has no handler is dropped. -/
def handleMessage (nd : Node T) (peerId : UInt32) (msg : Msg) : Node T :=
  if nd.stage = .registered then nd.dobjHandleMessage peerId msg else nd

/-- The rest of `edsm_dobj_handle_get` for an object that was found or not. -/
def answer (nd : Node T) (peerId dobjId : UInt32) (found : Bool) : Node T :=
  { nd.setObject dobjId (handleGet (nd.objects dobjId) peerId found) with listener := .idle }

variable [DecidableEq T]

def moveTo (nd : Node T) (t : T) (pc : Pc) : Node T :=
  { nd with pc := Function.update nd.pc t pc }

end Node

namespace State

def setNode (s : State T) (p : UInt32) (nd : Node T) : State T :=
  { s with node := Function.update s.node p nd }

def post (s : State T) (p q : UInt32) (m : Msg) : State T := { s with net := s.net.send p q m }

end State

def step [DecidableEq T] (s : State T) : Action T → Option (State T)
  | .start p =>
      if (s.node p).stage = .absent then
        some (s.setNode p { s.node p with stage := .joining none })
      else none
  | .connect q p =>
      if (s.node q).stage = .joining none ∧ (s.node p).stage ≠ .absent ∧ p ≠ q ∧
          p ∉ (s.node q).peers then
        some (s.setNode q { s.node q with stage := .joining (some p) })
      else none
  | .accept p q =>
      if (s.node p).listener = .idle ∧ (s.node q).stage = .joining (some p) ∧
          q ∉ (s.node p).peers then
        some (s.setNode p { s.node p with listener := .accepting q })
      else none
  | .enter p =>
      match (s.node p).listener with
      | .accepting q =>
          if q ∉ (s.node p).peers then
            some (s.setNode p { (s.node p).addPeer q with listener := .idle })
          else none
      | .idle | .answering .. => none
  | .connected q =>
      match (s.node q).stage with
      | .joining (some p) =>
          if (s.node p).listener = .accepting q ∨ q ∈ (s.node p).peers then
            some (s.setNode q { (s.node q).addPeer p with stage := .joining none })
          else none
      | .joining none | .absent | .joined | .registered => none
  | .finishJoin p =>
      if (s.node p).stage = .joining none then
        some (s.setNode p { s.node p with stage := .joined })
      else none
  | .register p =>
      if (s.node p).stage = .joined then
        some (s.setNode p { s.node p with stage := .registered })
      else none
  | .get p t dobjId =>
      if (s.node p).stage = .registered ∧ (s.node p).pc t = .outside then
        match (s.node p).objects dobjId with
        | none => some (s.setNode p (((s.node p).setObject dobjId (some create)).moveTo t
            (.inserted dobjId)))
        | some dobj => some (s.setNode p ((s.node p).setObject dobjId
            (some { dobj with refCount := dobj.refCount + 1 })))
      else none
  | .setWaitOn p t =>
      match (s.node p).pc t with
      | .inserted dobjId =>
          ((s.node p).objects dobjId).map fun dobj ↦
            s.setNode p (((s.node p).setObject dobjId
              (some { dobj with waiter := dobj.waiter.setWaitOn (s.node p).peers })).moveTo t
                (.armed dobjId))
      | .outside | .armed _ | .sending .. | .waiting _ => none
  | .startSend p t =>
      match (s.node p).pc t with
      | .armed dobjId =>
          some (s.setNode p ((s.node p).moveTo t (if (s.node p).peers = [] then .waiting dobjId
            else .sending dobjId 0 (1 < (s.node p).peers.length))))
      | .outside | .inserted _ | .sending .. | .waiting _ => none
  | .sendGet p t =>
      match (s.node p).pc t with
      | .sending dobjId pos more =>
          (s.node p).peers[pos]?.map fun q ↦
            (s.setNode p ((s.node p).moveTo t (if more then
              .sending dobjId (pos + 1) (pos + 2 < (s.node p).peers.length)
              else .waiting dobjId))).post p q (.get dobjId)
      | .outside | .inserted _ | .armed _ | .waiting _ => none
  | .wake p t =>
      match (s.node p).pc t with
      | .waiting dobjId =>
          ((s.node p).objects dobjId).bind fun dobj ↦
            if dobj.waiter.Ready then
              some (s.setNode p (((s.node p).setObject dobjId
                (some { dobj with refCount := dobj.refCount + 1 })).moveTo t .outside))
            else none
      | .outside | .inserted _ | .armed _ | .sending .. => none
  | .deliver q p =>
      match s.net q p with
      | m :: rest =>
          -- The socket of a listed peer is in `read_set` before the handshake is over.
          if (s.node p).listener = .idle ∧
              (q ∈ (s.node p).peers ∨ (s.node p).stage = .joining (some q)) then
            some { s.setNode p ((s.node p).handleMessage q m) with net := s.net.set q p rest }
          else none
      | [] => none
  | .answer p =>
      match (s.node p).listener with
      | .answering q dobjId found =>
          -- A peer that the table does not hold is not sent to.
          if q ∈ (s.node p).peers then
            some ((s.setNode p ((s.node p).answer q dobjId found)).post p q
              (.getReply dobjId found))
          else some (s.setNode p ((s.node p).answer q dobjId found))
      | .idle | .accepting _ => none

def initialNode : Node T where
  stage := .absent
  peers := []
  objects _ := none
  listener := .idle
  pc _ := .outside

def system (T : Type*) [DecidableEq T] : LabelledSystem (State T) (Action T) where
  init := { node := fun _ ↦ initialNode, net := .empty }
  step := step

/-- The `GET` of `p` to `q` or the reply is on its way, or the listener of `q` is at the answer. -/
def State.InFlight (s : State T) (p dobjId q : UInt32) : Prop :=
  .get dobjId ∈ s.net p q ∨ (∃ found, (s.node q).listener = .answering p dobjId found) ∨
    ∃ haveReference, .getReply dobjId haveReference ∈ s.net q p

/-- Whoever a blocked thread waits for, the `GET` or the reply is in flight. -/
def State.Answered (s : State T) : Prop :=
  ∀ p t dobjId q, (s.node p).pc t = .waiting dobjId → q ∈ (s.node p).waitOn dobjId →
    s.InFlight p dobjId q

/-- No message is in flight. -/
def State.Quiet (s : State T) : Prop :=
  ∀ p q, s.net p q = [] ∧ ∀ dobjId found, (s.node p).listener ≠ .answering q dobjId found

/-- A `GET` whose sender waits for the reply is taken from the socket by a node that has
registered the handler. -/
def State.Timely (s : State T) : Action T → Prop
  | .deliver q p => ∀ dobjId ∈ (s.net q p).head?.bind Msg.asked,
      p ∈ (s.node q).waitOn dobjId → (s.node p).stage = .registered
  | .start _ | .connect .. | .accept .. | .enter _ | .connected _ | .finishJoin _ | .register _
  | .get .. | .setWaitOn .. | .startSend .. | .sendGet .. | .wake .. | .answer _ => True

/-! ## One node -/

namespace Pc

/-- The object that the thread has entered in the table and not yet got. -/
def creating : Pc → Option UInt32
  | inserted dobjId | armed dobjId | sending dobjId _ _ | waiting dobjId => some dobjId
  | outside => none

/-- The object whose replies the thread awaits or is about to ask for. -/
def awaited : Pc → Option UInt32
  | armed dobjId | sending dobjId _ _ | waiting dobjId => some dobjId
  | outside | inserted _ => none

/-- The loop over the table has still to come to the peer. -/
def Ahead (peers : List UInt32) (q : UInt32) : Pc → Prop
  | armed _ => q ∈ peers
  | sending _ pos more => ∃ k, pos ≤ k ∧ (more = false → k = pos) ∧ peers[k]? = some q
  | outside | inserted _ | waiting _ => False

theorem creating_of_awaited {pc : Pc} {dobjId : UInt32} (h : pc.awaited = some dobjId) :
    pc.creating = some dobjId := by
  cases pc with
  | armed | sending | waiting => exact h
  | outside | inserted => cases h

theorem Ahead.append {pc : Pc} {peers : List UInt32} {q : UInt32} (h : pc.Ahead peers q)
    (new : List UInt32) : pc.Ahead (peers ++ new) q := by
  cases pc with
  | armed => exact List.mem_append_left new h
  | sending =>
      obtain ⟨k, hpos, hmore, hk⟩ := h
      have hlt : k < peers.length := (List.getElem?_eq_some_iff.mp hk).1
      exact ⟨k, hpos, hmore, (List.getElem?_append_left hlt).trans hk⟩
  | outside | inserted | waiting => exact h.elim

end Pc

namespace Node

variable {nd : Node T} {dobjId : UInt32}

theorem waitOn_setObject (dobj : Option Dobj) (i : UInt32) :
    (nd.setObject dobjId dobj).waitOn i =
      if i = dobjId then dobj.elim [] (·.waiter) else nd.waitOn i := by
  by_cases hi : i = dobjId
  · subst hi
    simp [waitOn, setObject]
  · simp [waitOn, setObject, hi]

theorem waitOn_setObject_eq {dobj : Option Dobj}
    (h : dobj.elim [] (·.waiter) = nd.waitOn dobjId) (i : UInt32) :
    (nd.setObject dobjId dobj).waitOn i = nd.waitOn i := by
  rw [waitOn_setObject]
  split
  · next hi => rw [h, hi]
  · rfl

/-- The lists have no entry twice, an object is created by one thread and not before the handler
is registered, and the listener answers a peer of the table. -/
structure Inv (nd : Node T) : Prop where
  peersNodup : nd.peers.Nodup
  waitNodup : ∀ i, (nd.waitOn i).Nodup
  created : ∀ t i, (nd.pc t).creating = some i → (nd.objects i).isSome
  unique : ∀ t u i, (nd.pc t).creating = some i → (nd.pc u).creating = some i → t = u
  ready : ∀ t i, (nd.pc t).creating = some i → nd.stage = .registered
  answering : ∀ q i found, nd.listener = .answering q i found → q ∈ nd.peers

theorem Inv.addPeer (h : nd.Inv) (q : UInt32) : (nd.addPeer q).Inv := by
  by_cases hq : q ∈ nd.peers
  · simpa [Node.addPeer, hq] using h
  · have hnodup : (nd.peers ++ [q]).Nodup :=
      List.nodup_append.mpr ⟨h.peersNodup, by simp, fun a ha b hb heq ↦
        hq (List.mem_singleton.mp hb ▸ heq ▸ ha)⟩
    simpa [Node.addPeer, hq] using
      ({ h with
        peersNodup := hnodup
        answering := fun r i found hr ↦ List.mem_append_left _ (h.answering r i found hr) } :
        Inv { nd with peers := nd.peers ++ [q] })

theorem Inv.setObject (h : nd.Inv) (dobjId : UInt32) (dobj : Option Dobj)
    (hsome : (nd.objects dobjId).isSome → dobj.isSome)
    (hnodup : (dobj.elim [] (·.waiter)).Nodup) : (nd.setObject dobjId dobj).Inv :=
  { h with
    waitNodup := fun i ↦ by
      rw [waitOn_setObject]
      split
      · exact hnodup
      · exact h.waitNodup i
    created := fun t i ht ↦ by
      have hold := h.created t i ht
      by_cases hi : i = dobjId
      · subst hi
        simpa [Node.setObject] using hsome hold
      · simpa [Node.setObject, hi] using hold }

theorem waiter_handleGet (nd : Node T) (dobjId q : UInt32) (found : Bool) :
    (handleGet (nd.objects dobjId) q found).elim [] (·.waiter) = nd.waitOn dobjId := by
  cases found with
  | true =>
      cases hobject : nd.objects dobjId with
      | none => simp [handleGet, waitOn, hobject]
      | some dobj => simp [handleGet, waitOn, hobject]
  | false => rfl

theorem waitOn_answer (q i : UInt32) (found : Bool) :
    (nd.answer q dobjId found).waitOn i = nd.waitOn i :=
  waitOn_setObject_eq (waiter_handleGet nd dobjId q found) i

theorem Inv.answer (h : nd.Inv) (q : UInt32) (found : Bool) :
    (nd.answer q dobjId found).Inv :=
  { h.setObject dobjId (handleGet (nd.objects dobjId) q found)
      (fun hsome ↦ by cases found <;> simpa [handleGet] using hsome)
      (waiter_handleGet nd dobjId q found ▸ h.waitNodup dobjId) with
    answering := fun _ _ _ hl ↦ by cases hl }

theorem waiter_handleGetReply (q : UInt32) (haveReference : Bool) :
    (handleGetReply (nd.objects dobjId) q haveReference).elim [] (·.waiter) =
      (nd.waitOn dobjId).addReply q := by
  cases hobject : nd.objects dobjId with
  | none => simp [handleGetReply, waitOn, hobject, ReplyWaiter.addReply]
  | some dobj => simp [handleGetReply, waitOn, hobject]

variable [DecidableEq T]

theorem Inv.moveTo (h : nd.Inv) {t : T} {pc : Pc}
    (hpc : ∀ i, pc.creating = some i → (nd.objects i).isSome ∧ nd.stage = .registered ∧
      ∀ u, (nd.pc u).creating = some i → u = t) : (nd.moveTo t pc).Inv := by
  have hof : ∀ u i, ((nd.moveTo t pc).pc u).creating = some i →
      ((nd.objects i).isSome ∧ nd.stage = .registered) ∧
        ((nd.pc u).creating = some i ∨ u = t ∧ pc.creating = some i) := by
    intro u i hu
    by_cases ht : u = t
    · subst ht
      have hnew : pc.creating = some i := by simpa [Node.moveTo] using hu
      exact ⟨⟨(hpc i hnew).1, (hpc i hnew).2.1⟩, .inr ⟨rfl, hnew⟩⟩
    · have hold : (nd.pc u).creating = some i := by simpa [Node.moveTo, ht] using hu
      exact ⟨⟨h.created u i hold, h.ready u i hold⟩, .inl hold⟩
  refine { h with
    created := fun u i hu ↦ (hof u i hu).1.1
    ready := fun u i hu ↦ (hof u i hu).1.2
    unique := fun u v i hu hv ↦ ?_ }
  rcases (hof u i hu).2 with hu' | ⟨rfl, hu'⟩ <;> rcases (hof v i hv).2 with hv' | ⟨rfl, hv'⟩
  · exact h.unique u v i hu' hv'
  · exact (hpc i hv').2.2 u hu'
  · exact ((hpc i hu').2.2 v hv').symm
  · rfl

theorem Inv.proceed (h : nd.Inv) {t : T} {pc : Pc}
    (hpc : ∀ i, pc.creating = some i → (nd.pc t).creating = some i) : (nd.moveTo t pc).Inv :=
  h.moveTo fun i hi ↦ ⟨h.created t i (hpc i hi), h.ready t i (hpc i hi),
    fun u hu ↦ h.unique u t i hu (hpc i hi)⟩

end Node

/-! ## The group -/

namespace State

variable {s s' : State T} {p q : UInt32}

@[simp] theorem setNode_self (nd : Node T) : (s.setNode p nd).node p = nd := by
  simp [setNode]

theorem setNode_ne (nd : Node T) (h : q ≠ p) : (s.setNode p nd).node q = s.node q := by
  simp [setNode, h]

theorem InFlight.mono {dobjId : UInt32} (h : s.InFlight p dobjId q)
    (hnet : ∀ a b m, m ∈ s.net a b → m ∈ s'.net a b)
    (hlistener : ∀ a i found, (s.node q).listener = .answering a i found →
      (s'.node q).listener = .answering a i found) : s'.InFlight p dobjId q := by
  rcases h with hget | ⟨found, hfound⟩ | ⟨haveReference, hreply⟩
  · exact .inl (hnet _ _ _ hget)
  · exact .inr (.inl ⟨found, hlistener _ _ _ hfound⟩)
  · exact .inr (.inr ⟨haveReference, hnet _ _ _ hreply⟩)

/-- Besides the nodes' own invariants: who is waited for will be asked, or has been asked and
the answer is on its way. -/
structure Inv (s : State T) : Prop where
  node : ∀ p, (s.node p).Inv
  answered : ∀ p t dobjId q, ((s.node p).pc t).awaited = some dobjId →
    q ∈ (s.node p).waitOn dobjId →
    ((s.node p).pc t).Ahead (s.node p).peers q ∨ s.InFlight p dobjId q

theorem Inv.toAnswered (h : s.Inv) : s.Answered := by
  intro p t dobjId q hpc hq
  have hahead := h.answered p t dobjId q (by rw [hpc, Pc.awaited]) hq
  rw [hpc] at hahead
  exact hahead.resolve_left id

theorem mem_post {a b : UInt32} {m m' : Msg} (h : m ∈ s.net a b) : m ∈ (s.post p q m').net a b := by
  change m ∈ s.net.send p q m' a b
  rw [Channels.send_apply]
  split
  · exact List.mem_append_left _ h
  · exact h

theorem mem_post_self (m : Msg) : m ∈ (s.post p q m).net p q := by
  simp [post, Channels.send_apply]

theorem Inv.post (h : s.Inv) (p q : UInt32) (m : Msg) : (s.post p q m).Inv :=
  ⟨h.node, fun a t i r ht hr ↦ (h.answered a t i r ht hr).imp_right fun hflight ↦
    hflight.mono (fun _ _ _ ↦ mem_post) fun _ _ _ ↦ id⟩

/-- One node acts; the others keep what they wait for. -/
theorem Inv.act (h : s.Inv) (hsame : ∀ a, a ≠ p → s'.node a = s.node a) (hnode : (s'.node p).Inv)
    (hother : ∀ a i r, a ≠ p → r ∈ (s.node a).waitOn i → s.InFlight a i r → s'.InFlight a i r)
    (hself : ∀ t i r, ((s'.node p).pc t).awaited = some i → r ∈ (s'.node p).waitOn i →
      ((s'.node p).pc t).Ahead (s'.node p).peers r ∨ s'.InFlight p i r) : s'.Inv := by
  refine ⟨fun a ↦ ?_, fun a t i r hpc hr ↦ ?_⟩
  · by_cases ha : a = p
    · exact ha ▸ hnode
    · exact hsame a ha ▸ h.node a
  · by_cases ha : a = p
    · subst ha
      exact hself t i r hpc hr
    · rw [hsame a ha] at hpc hr ⊢
      exact (h.answered a t i r hpc hr).imp_right (hother a i r ha hr)

theorem Inv.local (h : s.Inv) (nd : Node T) (hnode : nd.Inv)
    (hlistener : ∀ a i found, (s.node p).listener = .answering a i found →
      nd.listener = .answering a i found)
    (hself : ∀ t i r, (nd.pc t).awaited = some i → r ∈ nd.waitOn i →
      (nd.pc t).Ahead nd.peers r ∨ s.InFlight p i r) : (s.setNode p nd).Inv := by
  have hflight : ∀ a i r, s.InFlight a i r → (s.setNode p nd).InFlight a i r := by
    refine fun a i r hr ↦ hr.mono (fun _ _ _ ↦ id) fun b j found hfound ↦ ?_
    by_cases hrp : r = p
    · subst hrp
      rw [setNode_self]
      exact hlistener b j found hfound
    · rwa [setNode_ne nd hrp]
  refine h.act (p := p) (fun a ha ↦ setNode_ne nd ha) ?_ (fun a i r _ _ ↦ hflight a i r) ?_
  · rwa [setNode_self]
  · rw [setNode_self]
    exact fun t i r hpc hr ↦ (hself t i r hpc hr).imp_right (hflight p i r)

/-! ## Joining -/

theorem Inv.setStage (h : s.Inv) (stage : Stage) (hstage : (s.node p).stage ≠ .registered) :
    (s.setNode p { s.node p with stage := stage }).Inv :=
  h.local { s.node p with stage := stage }
    { h.node p with ready := fun t i hi ↦ absurd ((h.node p).ready t i hi) hstage }
    (fun _ _ _ ↦ id) (h.answered p)

/-- The table gets an entry, while the listener is not at an answer or stays at it. -/
theorem Inv.addPeer (h : s.Inv) (q : UInt32) {nd : Node T}
    (hpeers : nd.peers = ((s.node p).addPeer q).peers) (hobjects : nd.objects = (s.node p).objects)
    (hpc : nd.pc = (s.node p).pc)
    (hstage : (s.node p).stage = .registered → nd.stage = .registered)
    (hlistener : ∀ a i found, nd.listener = .answering a i found ↔
      (s.node p).listener = .answering a i found) : (s.setNode p nd).Inv := by
  have hwait : ∀ i, nd.waitOn i = (s.node p).waitOn i := fun i ↦ by
    rw [Node.waitOn, Node.waitOn, hobjects]
  have hadd := (h.node p).addPeer q
  refine h.local nd
    ⟨hpeers ▸ hadd.peersNodup, fun i ↦ hwait i ▸ (h.node p).waitNodup i, ?_, ?_, ?_, ?_⟩
    (fun a i found ↦ (hlistener a i found).mpr) fun t i r ht hr ↦ ?_
  · rw [hpc, hobjects]
    exact (h.node p).created
  · rw [hpc]
    exact (h.node p).unique
  · rw [hpc]
    exact fun t i hi ↦ hstage ((h.node p).ready t i hi)
  · exact fun a i found hl ↦ hpeers ▸ hadd.answering a i found ((hlistener a i found).mp hl)
  · rw [hpc] at ht ⊢
    rw [hwait] at hr
    refine (h.answered p t i r ht hr).imp_left fun hahead ↦ ?_
    rw [hpeers, Node.addPeer]
    split
    · exact hahead
    · exact hahead.append [q]

/-! ## Tables -/

theorem Inv.setObject (h : s.Inv) (p dobjId : UInt32) (dobj : Option Dobj)
    (hsome : ((s.node p).objects dobjId).isSome → dobj.isSome)
    (hwait : dobj.elim [] (·.waiter) = (s.node p).waitOn dobjId) :
    (s.setNode p ((s.node p).setObject dobjId dobj)).Inv := by
  refine h.local _ ((h.node p).setObject dobjId dobj hsome (hwait ▸ (h.node p).waitNodup dobjId))
    (fun _ _ _ ↦ id) fun t i r ht hr ↦ ?_
  rw [Node.waitOn_setObject_eq hwait] at hr
  exact h.answered p t i r ht hr

theorem setNode_setNode (nd nd' : Node T) : (s.setNode p nd).setNode p nd' = s.setNode p nd' := by
  simp [setNode]

/-! ## Taking a message -/

theorem mem_set {m : Msg} {rest : List Msg} (hnet : s.net q p = m :: rest) {a b : UInt32} {m' : Msg}
    (h : m' ∈ s.net a b) : m' ∈ s.net.set q p rest a b ∨ a = q ∧ b = p ∧ m' = m := by
  by_cases hab : a = q ∧ b = p
  · obtain ⟨rfl, rfl⟩ := hab
    rw [hnet] at h
    rcases List.mem_cons.mp h with rfl | hrest
    · exact .inr ⟨rfl, rfl, rfl⟩
    · exact .inl (by simpa using hrest)
  · exact .inl (by rwa [Channels.set_apply, if_neg hab])

/-- The handler takes a `GET`: the listener is at the answer. -/
theorem Inv.takeGet (h : s.Inv) {dobjId : UInt32} {rest : List Msg}
    (hnet : s.net q p = .get dobjId :: rest) (hidle : (s.node p).listener = .idle)
    (hq : q ∈ (s.node p).peers) :
    Inv { s.setNode p ((s.node p).dobjHandleMessage q (.get dobjId)) with
      net := s.net.set q p rest } := by
  set nd := (s.node p).dobjHandleMessage q (.get dobjId) with hnd
  have hlistener : nd.listener = .answering q dobjId ((s.node p).objects dobjId).isSome := rfl
  have hflight : ∀ a i r, s.InFlight a i r →
      InFlight { s.setNode p nd with net := s.net.set q p rest } a i r := by
    rintro a i r (hget | ⟨found, hfound⟩ | ⟨haveReference, hreply⟩)
    · rcases mem_set hnet hget with hrest | ⟨rfl, rfl, heq⟩
      · exact .inl hrest
      · obtain rfl := Msg.get.inj heq
        exact .inr (.inl ⟨_, (congrArg Node.listener (setNode_self nd)).trans hlistener⟩)
    · have hrp : r ≠ p := by
        rintro rfl
        rw [hidle] at hfound
        cases hfound
      exact .inr (.inl ⟨found, (congrArg Node.listener (setNode_ne nd hrp)).trans hfound⟩)
    · rcases mem_set hnet hreply with hrest | ⟨-, -, heq⟩
      · exact .inr (.inr ⟨haveReference, hrest⟩)
      · cases heq
  have hself : (s.setNode p nd).node p = nd := setNode_self nd
  refine h.act (p := p) (fun a ha ↦ setNode_ne nd ha) ?_ (fun a i r _ _ ↦ hflight a i r) ?_
  · change ((s.setNode p nd).node p).Inv
    rw [hself]
    exact { h.node p with
      answering := fun a i found hl ↦ by
        obtain ⟨rfl, -, -⟩ := Listener.answering.inj (hlistener.symm.trans hl)
        exact hq }
  · change ∀ t i r, (((s.setNode p nd).node p).pc t).awaited = some i → _
    rw [hself]
    exact fun t i r ht hr ↦ (h.answered p t i r ht hr).imp_right (hflight p i r)

/-- The handler takes a reply: the sender is not waited for any more. -/
theorem Inv.takeReply (h : s.Inv) {dobjId : UInt32} {haveReference : Bool} {rest : List Msg}
    (hnet : s.net q p = .getReply dobjId haveReference :: rest) :
    Inv { s.setNode p ((s.node p).dobjHandleMessage q (.getReply dobjId haveReference)) with
      net := s.net.set q p rest } := by
  set nd := (s.node p).dobjHandleMessage q (.getReply dobjId haveReference) with hnd
  have hself : (s.setNode p nd).node p = nd := setNode_self nd
  have hlistener : ∀ r, ((s.setNode p nd).node r).listener = (s.node r).listener := by
    intro r
    by_cases hrp : r = p
    · subst hrp
      rw [hself]
      rfl
    · rw [setNode_ne nd hrp]
  -- The reply that was taken is the only one that is missing now.
  have hflight : ∀ a i r, ¬(a = p ∧ r = q ∧ i = dobjId) → s.InFlight a i r →
      InFlight { s.setNode p nd with net := s.net.set q p rest } a i r := by
    rintro a i r hne (hget | ⟨found, hfound⟩ | ⟨haveReference', hreply⟩)
    · rcases mem_set hnet hget with hrest | ⟨-, -, heq⟩
      · exact .inl hrest
      · cases heq
    · exact .inr (.inl ⟨found, (hlistener r).trans hfound⟩)
    · rcases mem_set hnet hreply with hrest | ⟨hr, ha, heq⟩
      · exact .inr (.inr ⟨haveReference', hrest⟩)
      · exact absurd ⟨ha, hr, (Msg.getReply.inj heq).1⟩ hne
  have hset := (h.node p).setObject dobjId
    (handleGetReply ((s.node p).objects dobjId) q haveReference)
    (fun hsome ↦ by simpa [handleGetReply] using hsome)
    (by
      rw [Node.waiter_handleGetReply]
      exact ReplyWaiter.nodup_addReply ((h.node p).waitNodup dobjId) q)
  refine h.act (p := p) (fun a ha ↦ setNode_ne nd ha) ?_
    (fun a i r ha _ ↦ hflight a i r fun heq ↦ ha heq.1) ?_
  · change ((s.setNode p nd).node p).Inv
    rw [hself]
    exact hset
  · change ∀ t i r, (((s.setNode p nd).node p).pc t).awaited = some i →
      r ∈ ((s.setNode p nd).node p).waitOn i → _
    rw [hself]
    intro t i r ht hr
    rw [hnd, Node.dobjHandleMessage, Node.waitOn_setObject] at hr
    have hold : r ∈ (s.node p).waitOn i ∧ ¬(p = p ∧ r = q ∧ i = dobjId) := by
      split at hr
      · next hi =>
          subst hi
          rw [Node.waiter_handleGetReply] at hr
          refine ⟨ReplyWaiter.mem_of_mem_addReply hr, ?_⟩
          rintro ⟨-, rfl, -⟩
          exact ReplyWaiter.notMem_addReply ((h.node p).waitNodup i) r hr
      · next hi => exact ⟨hr, fun heq ↦ hi heq.2.2⟩
    exact (h.answered p t i r ht hold.1).imp_right (hflight p i r hold.2)

/-- A message is dropped on a node that waits for nothing. -/
theorem Inv.drop (h : s.Inv) {m : Msg} {rest : List Msg} (hnet : s.net q p = m :: rest)
    (hidle : ∀ t i, ((s.node p).pc t).creating ≠ some i)
    (hget : ∀ i, m = .get i → p ∉ (s.node q).waitOn i) :
    Inv { s.setNode p (s.node p) with net := s.net.set q p rest } := by
  have hsame : s.setNode p (s.node p) = s := by simp [setNode]
  rw [hsame]
  refine ⟨h.node, fun a t i r ht hr ↦ (h.answered a t i r ht hr).imp_right ?_⟩
  rintro (hmem | hfound | ⟨haveReference, hreply⟩)
  · rcases mem_set hnet hmem with hrest | ⟨rfl, rfl, heq⟩
    · exact .inl hrest
    · exact absurd hr (hget i heq.symm)
  · exact .inr (.inl hfound)
  · rcases mem_set hnet hreply with hrest | ⟨-, rfl, -⟩
    · exact .inr (.inr ⟨haveReference, hrest⟩)
    · exact absurd (Pc.creating_of_awaited ht) (hidle t i)

/-! ## The steps -/

variable [DecidableEq T]

theorem inv_accept (h : s.Inv) (hst : step s (.accept p q) = some s') : s'.Inv := by
  obtain ⟨⟨hidle, -⟩, hst⟩ := Option.ite_none_right_eq_some.mp hst
  obtain rfl := Option.some.inj hst
  refine h.local { s.node p with listener := .accepting q }
    { h.node p with answering := fun _ _ _ hl ↦ by cases hl } (fun a i found hl ↦ ?_)
    (h.answered p)
  rw [hidle] at hl
  cases hl

theorem inv_enter (h : s.Inv) (hst : step s (.enter p) = some s') : s'.Inv := by
  rw [step] at hst
  cases hlistener : (s.node p).listener with
  | accepting q =>
      simp only [hlistener] at hst
      obtain ⟨-, hst⟩ := Option.ite_none_right_eq_some.mp hst
      obtain rfl := Option.some.inj hst
      exact h.addPeer q rfl rfl rfl id (by simp [hlistener])
  | idle | answering => simp [hlistener] at hst

theorem inv_connected (h : s.Inv) (hst : step s (.connected q) = some s') : s'.Inv := by
  rw [step] at hst
  split at hst
  · next hstage =>
      obtain ⟨-, hst⟩ := Option.ite_none_right_eq_some.mp hst
      obtain rfl := Option.some.inj hst
      exact h.addPeer _ rfl rfl rfl (by simp [hstage]) fun _ _ _ ↦ Iff.rfl
  all_goals cases hst

theorem Inv.moveTo (h : s.Inv) (t : T) (pc : Pc) (hnode : ((s.node p).moveTo t pc).Inv)
    (hself : ∀ i r, pc.awaited = some i → r ∈ (s.node p).waitOn i →
      pc.Ahead (s.node p).peers r ∨ s.InFlight p i r) :
    (s.setNode p ((s.node p).moveTo t pc)).Inv := by
  refine h.local _ hnode (fun _ _ _ ↦ id) fun u i r hu hr ↦ ?_
  by_cases hut : u = t
  · subst hut
    have hpc : ((s.node p).moveTo u pc).pc u = pc := by simp [Node.moveTo]
    rw [hpc] at hu ⊢
    exact hself i r hu hr
  · have hpc : ((s.node p).moveTo t pc).pc u = (s.node p).pc u := by simp [Node.moveTo, hut]
    rw [hpc] at hu ⊢
    exact h.answered p u i r hu hr

theorem inv_get (h : s.Inv) {t : T} {dobjId : UInt32}
    (hst : step s (.get p t dobjId) = some s') : s'.Inv := by
  rw [step] at hst
  obtain ⟨⟨hstage, -⟩, hst⟩ := Option.ite_none_right_eq_some.mp hst
  cases hobject : (s.node p).objects dobjId with
  | none =>
      simp only [hobject] at hst
      obtain rfl := Option.some.inj hst
      have hset := h.setObject p dobjId (some create) (fun _ ↦ rfl)
        (by simp [Node.waitOn, hobject, create])
      have hnode := hset.node p
      rw [setNode_self] at hnode
      have hmove :
          (((s.node p).setObject dobjId (some create)).moveTo t (.inserted dobjId)).Inv := by
        refine hnode.moveTo fun i hi ↦ ?_
        obtain rfl := Option.some.inj hi
        refine ⟨by simp [Node.setObject], hstage, fun u hu ↦ ?_⟩
        have hold := (h.node p).created u dobjId hu
        simp [hobject] at hold
      have hinv := hset.moveTo t (.inserted dobjId) (p := p) (by rwa [setNode_self])
        fun i r hi ↦ by cases hi
      simpa [setNode_setNode] using hinv
  | some dobj =>
      simp only [hobject] at hst
      obtain rfl := Option.some.inj hst
      exact h.setObject p dobjId _ (fun _ ↦ rfl) (by simp [Node.waitOn, hobject])

theorem inv_setWaitOn (h : s.Inv) {t : T} (hst : step s (.setWaitOn p t) = some s') :
    s'.Inv := by
  rw [step] at hst
  cases hpc : (s.node p).pc t with
  | inserted dobjId =>
      simp only [hpc] at hst
      obtain ⟨dobj, hobject, rfl⟩ := Option.map_eq_some_iff.mp hst
      have hcreating : ((s.node p).pc t).creating = some dobjId := by rw [hpc, Pc.creating]
      set armed : Dobj := { dobj with waiter := dobj.waiter.setWaitOn (s.node p).peers }
      have hset := (h.node p).setObject dobjId (some armed) (fun _ ↦ rfl) (h.node p).peersNodup
      refine h.local _ (hset.proceed fun i hi ↦ hi ▸ hcreating) (fun _ _ _ ↦ id)
        fun u i r hu hr ↦ ?_
      change r ∈ ((s.node p).setObject dobjId (some armed)).waitOn i at hr
      rw [Node.waitOn_setObject] at hr
      by_cases hut : u = t
      · subst hut
        have hpc' : (((s.node p).setObject dobjId (some armed)).moveTo u (.armed dobjId)).pc u =
            .armed dobjId := by simp [Node.moveTo]
        rw [hpc'] at hu ⊢
        obtain rfl := Option.some.inj hu
        rw [if_pos rfl] at hr
        exact .inl hr
      · have hpc' : (((s.node p).setObject dobjId (some armed)).moveTo t (.armed dobjId)).pc u =
            (s.node p).pc u := by simp [Node.moveTo, Node.setObject, hut]
        rw [hpc'] at hu ⊢
        have hi : i ≠ dobjId := by
          rintro rfl
          exact hut ((h.node p).unique u t i (Pc.creating_of_awaited hu) hcreating)
        exact h.answered p u i r hu (by simpa [hi] using hr)
  | outside | armed | sending | waiting => simp [hpc] at hst

theorem inv_startSend (h : s.Inv) {t : T} (hst : step s (.startSend p t) = some s') :
    s'.Inv := by
  rw [step] at hst
  cases hpc : (s.node p).pc t with
  | armed dobjId =>
      simp only [hpc] at hst
      obtain rfl := Option.some.inj hst
      have hahead : ∀ r ∈ (s.node p).waitOn dobjId,
          r ∈ (s.node p).peers ∨ s.InFlight p dobjId r := by
        intro r hr
        have hold := h.answered p t dobjId r (by rw [hpc, Pc.awaited]) hr
        rwa [hpc] at hold
      have hcreating : ((s.node p).pc t).creating = some dobjId := by rw [hpc, Pc.creating]
      split
      · next hnil =>
          refine h.moveTo t _ ((h.node p).proceed fun i hi ↦ hi ▸ hcreating) fun i r hi hr ↦ ?_
          obtain rfl := Option.some.inj hi
          have hmem := hahead r hr
          rw [hnil] at hmem
          exact hmem.imp_left (List.not_mem_nil ·)
      · refine h.moveTo t _ ((h.node p).proceed fun i hi ↦ hi ▸ hcreating) fun i r hi hr ↦ ?_
        obtain rfl := Option.some.inj hi
        refine (hahead r hr).imp_left fun hmem ↦ ?_
        obtain ⟨k, hk⟩ := List.mem_iff_getElem?.mp hmem
        refine ⟨k, Nat.zero_le k, fun hmore ↦ ?_, hk⟩
        have hlt : k < (s.node p).peers.length := (List.getElem?_eq_some_iff.mp hk).1
        have hone : ¬1 < (s.node p).peers.length := of_decide_eq_false hmore
        omega
  | outside | inserted | sending | waiting => simp [hpc] at hst

theorem inv_sendGet (h : s.Inv) {t : T} (hst : step s (.sendGet p t) = some s') : s'.Inv := by
  rw [step] at hst
  cases hpc : (s.node p).pc t with
  | sending dobjId pos more =>
      simp only [hpc] at hst
      obtain ⟨q, hq, rfl⟩ := Option.map_eq_some_iff.mp hst
      have hpost := h.post p q (.get dobjId)
      have hcreating : ((s.node p).pc t).creating = some dobjId := by rw [hpc, Pc.creating]
      -- A peer that is waited for is the one of this position, or comes later.
      have hahead : ∀ r ∈ (s.node p).waitOn dobjId, (s.post p q (.get dobjId)).InFlight p dobjId r ∨
          ∃ k, pos + 1 ≤ k ∧ more = true ∧ (s.node p).peers[k]? = some r := by
        intro r hr
        have hold := hpost.answered p t dobjId r (by rw [post, hpc, Pc.awaited]) hr
        rw [post, hpc] at hold
        rcases hold with ⟨k, hpos, hmore, hk⟩ | hflight
        · by_cases heq : k = pos
          · subst heq
            obtain rfl := Option.some.inj (hq.symm.trans hk)
            exact .inl (.inl (mem_post_self _))
          · cases more with
            | true => exact .inr ⟨k, by omega, rfl, hk⟩
            | false => exact absurd (hmore rfl) heq
        · exact .inl hflight
      cases more with
      | true =>
          refine hpost.moveTo t _ ((h.node p).proceed fun i hi ↦ hi ▸ hcreating) fun i r hi hr ↦ ?_
          obtain rfl := Option.some.inj hi
          rcases hahead r hr with hflight | ⟨k, hpos, -, hk⟩
          · exact .inr hflight
          · refine .inl ⟨k, hpos, fun hmore ↦ ?_, hk⟩
            have hlt : k < (s.node p).peers.length := (List.getElem?_eq_some_iff.mp hk).1
            have hnext : ¬pos + 2 < (s.node p).peers.length := of_decide_eq_false hmore
            omega
      | false =>
          refine hpost.moveTo t _ ((h.node p).proceed fun i hi ↦ hi ▸ hcreating) fun i r hi hr ↦ ?_
          obtain rfl := Option.some.inj hi
          rcases hahead r hr with hflight | ⟨k, -, hmore, -⟩
          · exact .inr hflight
          · cases hmore
  | outside | inserted | armed | waiting => simp [hpc] at hst

theorem inv_wake (h : s.Inv) {t : T} (hst : step s (.wake p t) = some s') : s'.Inv := by
  rw [step] at hst
  cases hpc : (s.node p).pc t with
  | waiting dobjId =>
      simp only [hpc] at hst
      obtain ⟨dobj, hobject, hst⟩ := Option.bind_eq_some_iff.mp hst
      obtain ⟨-, hst⟩ := Option.ite_none_right_eq_some.mp hst
      obtain rfl := Option.some.inj hst
      have hset := h.setObject p dobjId (some { dobj with refCount := dobj.refCount + 1 })
        (fun _ ↦ rfl) (by simp [Node.waitOn, hobject])
      have hinv := hset.moveTo t .outside (p := p) ((hset.node p).proceed fun i hi ↦ by cases hi)
        fun i r hi ↦ by cases hi
      simpa [setNode_setNode] using hinv
  | outside | inserted | armed | sending => simp [hpc] at hst

theorem inv_answer (h : s.Inv) (hst : step s (.answer p) = some s') : s'.Inv := by
  rw [step] at hst
  cases hlistener : (s.node p).listener with
  | answering q dobjId found =>
      simp only [hlistener] at hst
      have hq : q ∈ (s.node p).peers := (h.node p).answering q dobjId found hlistener
      rw [if_pos hq] at hst
      obtain rfl := Option.some.inj hst
      have hflight : ∀ a i r, s.InFlight a i r →
          ((s.setNode p ((s.node p).answer q dobjId found)).post p q
            (.getReply dobjId found)).InFlight a i r := by
        rintro a i r (hget | ⟨found', hfound⟩ | ⟨haveReference, hreply⟩)
        · exact .inl (mem_post hget)
        · by_cases hrp : r = p
          · subst hrp
            obtain ⟨rfl, rfl, rfl⟩ : q = a ∧ dobjId = i ∧ found = found' := by
              simpa [hlistener] using hfound
            exact .inr (.inr ⟨found, mem_post_self _⟩)
          · exact .inr (.inl ⟨found', (congrArg Node.listener (setNode_ne _ hrp)).trans hfound⟩)
        · exact .inr (.inr ⟨haveReference, mem_post hreply⟩)
      have hself : ((s.setNode p ((s.node p).answer q dobjId found)).post p q
          (.getReply dobjId found)).node p = (s.node p).answer q dobjId found := setNode_self _
      refine h.act (p := p) (fun a ha ↦ setNode_ne _ ha) ?_ (fun a i r _ _ ↦ hflight a i r) ?_
      · rw [hself]
        exact (h.node p).answer q found
      · rw [hself]
        intro t i r ht hr
        rw [Node.waitOn_answer] at hr
        exact (h.answered p t i r ht hr).imp_right (hflight p i r)
  | idle | accepting => simp [hlistener] at hst

theorem inv_deliver (h : s.Inv) (htimely : s.Timely (.deliver q p : Action T))
    (hst : step s (.deliver q p) = some s') : s'.Inv := by
  rw [step] at hst
  cases hnet : s.net q p with
  | nil => simp [hnet] at hst
  | cons m rest =>
      simp only [hnet] at hst
      obtain ⟨⟨hidle, hsocket⟩, hst⟩ := Option.ite_none_right_eq_some.mp hst
      obtain rfl := Option.some.inj hst
      by_cases hstage : (s.node p).stage = .registered
      · have hq : q ∈ (s.node p).peers := hsocket.resolve_right fun hjoin ↦ by
          rw [hstage] at hjoin
          cases hjoin
        rw [Node.handleMessage, if_pos hstage]
        cases m with
        | get dobjId => exact h.takeGet hnet hidle hq
        | getReply dobjId haveReference => exact h.takeReply hnet
      · rw [Node.handleMessage, if_neg hstage]
        refine h.drop hnet (fun t i hi ↦ hstage ((h.node p).ready t i hi)) fun i hi hp ↦
          hstage (htimely i ?_ hp)
        rw [hnet, hi]
        rfl

theorem inv_step {a : Action T} (h : s.Inv) (htimely : s.Timely a) (hst : step s a = some s') :
    s'.Inv := by
  have hstage : ∀ {p : UInt32} {stage stage' : Stage}, (s.node p).stage = stage →
      stage ≠ .registered → (s.setNode p { s.node p with stage := stage' }).Inv :=
    fun hold hne ↦ h.setStage _ fun heq ↦ hne (hold.symm.trans heq)
  cases a with
  | start p | finishJoin p | register p =>
      obtain ⟨hold, hst⟩ := Option.ite_none_right_eq_some.mp hst
      obtain rfl := Option.some.inj hst
      exact hstage hold (by simp)
  | connect q p =>
      obtain ⟨⟨hold, -⟩, hst⟩ := Option.ite_none_right_eq_some.mp hst
      obtain rfl := Option.some.inj hst
      exact hstage hold (by simp)
  | accept p q => exact inv_accept h hst
  | enter p => exact inv_enter h hst
  | connected q => exact inv_connected h hst
  | get p t dobjId => exact inv_get h hst
  | setWaitOn p t => exact inv_setWaitOn h hst
  | startSend p t => exact inv_startSend h hst
  | sendGet p t => exact inv_sendGet h hst
  | wake p t => exact inv_wake h hst
  | deliver q p => exact inv_deliver h htimely hst
  | answer p => exact inv_answer h hst

theorem inv_init : (system T).init.Inv where
  node p := {
    peersNodup := List.nodup_nil
    waitNodup := fun _ ↦ List.nodup_nil
    created := fun _ _ hi ↦ by cases hi
    unique := fun _ _ _ hi ↦ by cases hi
    ready := fun _ _ hi ↦ by cases hi
    answering := fun _ _ _ hl ↦ by cases hl }
  answered _ _ _ _ hi := by cases hi

omit [DecidableEq T] in
theorem Answered.of_quiet (h : s.Answered) (hquiet : s.Quiet) {t : T} {dobjId : UInt32}
    (hpc : (s.node p).pc t = .waiting dobjId) : (s.node p).waitOn dobjId = [] := by
  refine List.eq_nil_iff_forall_not_mem.mpr fun q hq ↦ ?_
  rcases h p t dobjId q hpc hq with hget | ⟨found, hfound⟩ | ⟨haveReference, hreply⟩
  · rw [(hquiet p q).1] at hget
    cases hget
  · exact (hquiet q p).2 dobjId found hfound
  · rw [(hquiet q p).1] at hreply
    cases hreply

end State

/-- If every `GET` whose sender waits for the reply is taken after the handler has been
registered, no thread is left waiting. -/
theorem answered_of_timely [DecidableEq T] {s : State T} (h : (system T).Reach State.Timely s) :
    s.Answered ∧ (s.Quiet → ∀ p t dobjId, (s.node p).pc t = .waiting dobjId →
      (s.node p).waitOn dobjId = []) := by
  have hinv : s.Inv := h.invariant State.Inv State.inv_init
    fun _ hs ha hst ↦ State.inv_step hs ha hst
  exact ⟨hinv.toAnswered, fun hquiet p t dobjId hpc ↦ hinv.toAnswered.of_quiet hquiet hpc⟩

instance (s : State T) (a : Action T) : Decidable (s.Timely a) :=
  match a with
  | .deliver q p => Option.decidableForallMem ((s.net q p).head?.bind Msg.asked)
  | .start _ | .connect .. | .accept .. | .enter _ | .connected _ | .finishJoin _ | .register _
  | .get .. | .setWaitOn .. | .startSend .. | .sendGet .. | .wake .. | .answer _ => .isTrue trivial

/-- Node 2 joins the node that has founded the group, and registers its handler before it takes
the `GET` for object 7. -/
theorem answered_of_timely_two : ∃ s, (system Unit).Reach State.Timely s ∧
    (s.node 1).pc () = .waiting 7 ∧ 2 ∈ (s.node 1).waitOn 7 ∧ s.net 1 2 = [] ∧ s.Answered := by
  obtain ⟨s, hs, hend⟩ := (system Unit).exists_reach_of_exec State.Timely
    [.start 1, .finishJoin 1, .register 1, .start 2, .connect 2 1, .accept 1 2, .enter 1,
      .get 1 () 7, .setWaitOn 1 (), .startSend 1 (), .sendGet 1 (), .connected 2, .finishJoin 2,
      .register 2, .deliver 1 2]
    (fun s ↦ (s.node 1).pc () == .waiting 7 && (s.node 1).waitOn 7 == [2] && s.net 1 2 == [])
    (by decide +kernel)
  obtain ⟨⟨hpc, hwait⟩, hnet⟩ : ((s.node 1).pc () = .waiting 7 ∧ (s.node 1).waitOn 7 = [2]) ∧
      s.net 1 2 = [] := by simpa using hend
  refine ⟨s, hs, hpc, ?_, hnet, (answered_of_timely hs).1⟩
  rw [hwait]
  exact List.mem_cons_self

/-- Node 2 takes the `GET` before it has registered its handler. -/
theorem not_answered : ∃ s, (system Unit).Reachable s ∧ ¬s.Answered := by
  obtain ⟨s, hs, hend⟩ := (system Unit).exists_reach_of_exec LabelledSystem.anyStep
    [.start 1, .finishJoin 1, .register 1, .start 2, .connect 2 1, .accept 1 2, .enter 1,
      .connected 2, .finishJoin 2, .get 1 () 7, .setWaitOn 1 (), .startSend 1 (), .sendGet 1 (),
      .deliver 1 2, .register 2]
    (fun s ↦ (s.node 1).pc () == .waiting 7 && (s.node 1).waitOn 7 == [2] && s.net 1 2 == [] &&
      s.net 2 1 == [] && (s.node 2).listener == .idle)
    (by decide +kernel)
  obtain ⟨⟨⟨⟨hpc, hwait⟩, hget⟩, hreply⟩, hidle⟩ : ((((s.node 1).pc () = .waiting 7 ∧
      (s.node 1).waitOn 7 = [2]) ∧ s.net 1 2 = []) ∧ s.net 2 1 = []) ∧
      (s.node 2).listener = .idle := by simpa using hend
  refine ⟨s, hs, fun hanswered ↦ ?_⟩
  rcases hanswered 1 () 7 2 hpc (hwait ▸ List.mem_cons_self) with h | ⟨_, h⟩ | ⟨_, h⟩
  · rw [hget] at h
    cases h
  · rw [hidle] at h
    cases h
  · rw [hreply] at h
    cases h

end Edsm.Dobj.Startup
