import Edsm.Proto.GroupJoin

/-!
# Joins at the same time

The main threads of the joining nodes and the listener threads of all nodes take
turns.  A listener thread handles one connection at a time: it answers the init
message, and then enters the peer into the table.
-/

namespace Edsm.Proto

/-- Where the main thread of a node is. -/
inductive Main (N : Type*)
  /-- It has not called `edsm_proto_group_join` yet. -/
  | fresh
  /-- The node is a member from the start. -/
  | founder
  /-- In `peer_connect` for a peer, which is `acceptor`; the init message is sent with this id. -/
  | dialed (peer : PeerInformation) (listed : Bool) (acceptor : N) (myId : UInt32)
  /-- The response has come. -/
  | answered (peer : PeerInformation) (listed : Bool) (response : List UInt8)
  /-- In `connect_to_new_peers`, or through with it. -/
  | connecting

namespace Main

variable {N : Type*}

/-- The node is a member, or is joining. -/
def Joined : Main N → Prop
  | fresh => False
  | founder | dialed .. | answered .. | connecting => True

instance : (main : Main N) → Decidable main.Joined
  | fresh => .isFalse id
  | founder | dialed .. | answered .. | connecting => .isTrue trivial

/-- The id in the init message that is to be answered. -/
def initId : Main N → Option UInt32
  | dialed _ _ _ myId => some myId
  | fresh | founder | answered .. | connecting => none

end Main

/-- The assertion that has stopped a node. -/
inductive Abort
  | newConnection
  | initResponse
  deriving DecidableEq

/-- `accepting` is the peer between its response and its entry into the table. -/
structure Process (N : Type*) where
  myId : UInt32
  peers : List PeerInformation
  accepting : Option PeerInformation
  main : Main N
  aborted : Option Abort

/-- The last field records the ids that the nodes have or have been assigned. -/
structure Joins (N : Type*) where
  proc : N → Process N
  given : N → Option UInt32

namespace Joins

/-- The descriptors and the remote address are what the system returns. -/
inductive Action (N : Type*)
  | join (j : N) (addr : SockAddr) (fd : Fd)
  | accept (q j : N) (fd : Fd) (addr : SockAddr)
  | add (q : N)
  | respond (j : N)
  | connect (j : N) (fd : Fd)

variable {N : Type*} [DecidableEq N]

def setProc (s : Joins N) (p : N) (proc : Process N) : Joins N :=
  { s with proc := Function.update s.proc p proc }

/-- The node is one of the group, and it has an id. -/
def InGroup (s : Joins N) (p : N) : Prop := (s.proc p).main.Joined ∧ (s.proc p).myId ≠ 0

instance (s : Joins N) (p : N) : Decidable (s.InGroup p) :=
  inferInstanceAs (Decidable ((s.proc p).main.Joined ∧ (s.proc p).myId ≠ 0))

/-- `edsm_proto_group_join` at `j` up to its first init message. -/
def stepJoin (net : Network N) (s : Joins N) (j : N) (addr : SockAddr) (fd : Fd) :
    Option (Joins N) :=
  match (s.proc j).main, net.reaches addr with
  | .fresh, some m =>
      if s.InGroup m then
        let peer := { initializePeer with sockFd := some fd, addr }
        some (s.setProc j { s.proc j with myId := 0, main := .dialed peer false m 0 })
      else none
  | _, _ => none

/-- `handle_new_connection` at `q` up to the response.  The node that has connected is reached at
the address that `accept` reports together with its listen port. -/
def stepAccept (net : Network N) (s : Joins N) (q j : N) (fd : Fd) (addr : SockAddr) :
    Option (Joins N) :=
  match (s.proc j).main, (s.proc q).accepting, (s.proc q).aborted with
  | .dialed peer listed acceptor myId, none, none =>
      if acceptor = q ∧ net.reaches (addr.setPort (net.listenPort j)) = some j then
        match readAndHandleInitMessage (s.proc q).myId (s.proc q).peers
          { initializePeer with sockFd := some fd, addr }
          (msgTypeProtoInit, initMessage myId (net.listenPort j)) with
        | .ok (some (newPeer, response)) =>
            let s := if myId = 0 then
              { s with given := Function.update s.given j (some newPeer.id) } else s
            let s := s.setProc q { s.proc q with accepting := some newPeer }
            some (s.setProc j { s.proc j with main := .answered peer listed response })
        | _ => none
      else none
  | _, _, _ => none

/-- The rest of `handle_new_connection`. -/
def stepAdd (s : Joins N) (q : N) : Option (Joins N) :=
  match (s.proc q).accepting, (s.proc q).aborted with
  | some peer, none =>
      match hashFind (s.proc q).peers peer.id with
      | some _ => some (s.setProc q { s.proc q with aborted := some .newConnection })
      | none =>
          some (s.setProc q { s.proc q with
            accepting := none
            peers := (s.proc q).peers ++ [peer] })
  | _, _ => none

/-- `read_and_handle_init_response` at `j`. -/
def stepRespond (s : Joins N) (j : N) : Option (Joins N) :=
  match (s.proc j).main, (s.proc j).aborted with
  | .answered peer listed response, none =>
      match readAndHandleInitResponse (s.proc j).myId peer (s.proc j).peers
        (msgTypeProtoInit, response) with
      | .ok (some (myId, peer', peers)) =>
          if listed = true ∧ peer'.id ≠ peer.id then none
          else some (s.setProc j { s.proc j with myId, peers, main := .connecting })
      | .ok none => none
      | .error _ => some (s.setProc j { s.proc j with aborted := some .initResponse })
  | _, _ => none

/-- `connect_to_new_peers` at `j` up to the next init message.  All peers before the first one
without a socket have been connected, by this call or by a call inside of it. -/
def stepConnect (net : Network N) (s : Joins N) (j : N) (fd : Fd) : Option (Joins N) :=
  match (s.proc j).main, (s.proc j).aborted, (s.proc j).peers.find? (·.sockFd = none) with
  | .connecting, none, some peer =>
      match net.reaches peer.addr with
      | none => none
      | some q =>
          let peer := { peer with sockFd := some fd }
          some (s.setProc j { s.proc j with
            peers := (s.proc j).peers.map fun t ↦ if t.id = peer.id then peer else t
            main := .dialed peer true q (s.proc j).myId })
  | _, _, _ => none

def step (net : Network N) (s : Joins N) : Action N → Option (Joins N)
  | .join j addr fd => s.stepJoin net j addr fd
  | .accept q j fd addr => s.stepAccept net q j fd addr
  | .add q => s.stepAdd q
  | .respond j => s.stepRespond j
  | .connect j fd => s.stepConnect net j fd

/-- The members of `w` have their ids and tables, and the other nodes have not joined yet. -/
def init (w : World N) : Joins N where
  proc p := if p ∈ w.members then ⟨(w.member p).myId, (w.member p).peers, none, .founder, none⟩
    else ⟨1, [], none, .fresh, none⟩
  given p := if p ∈ w.members then some (w.member p).myId else none

/-- `q` has itself, or knows, the largest of the ids assigned so far, and this is not the largest
`uint32_t`. -/
def KnowsLargest (s : Joins N) (q : N) : Prop :=
  ∃ maxId, (maxId = (s.proc q).myId ∨ ∃ t ∈ (s.proc q).peers, t.id = maxId) ∧
    (∀ p x, s.given p = some x → x ≤ maxId) ∧ maxId.toNat + 1 < 2 ^ 32

/-- Ids are assigned only by nodes that know the largest one. -/
def Knows (s : Joins N) : Action N → Prop
  | .accept q j _ _ => (s.proc j).main.initId = some 0 → s.KnowsLargest q
  | .join .. | .add _ | .respond _ | .connect .. => True

/-- No two nodes of the group have the same id, and no `handle_new_connection` finds the id of its
peer in the table. -/
def Unique (s : Joins N) : Prop :=
  (∀ p q, s.InGroup p → s.InGroup q → (s.proc p).myId = (s.proc q).myId → p = q) ∧
    ∀ q, (s.proc q).aborted ≠ some .newConnection

end Joins

def concurrentJoins {N : Type*} [DecidableEq N] (net : Network N) (w : World N) :
    LabelledSystem (Joins N) (Joins.Action N) where
  init := Joins.init w
  step := Joins.step net

end Edsm.Proto
