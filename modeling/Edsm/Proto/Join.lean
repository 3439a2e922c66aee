import Edsm.Library.Reachability
import Edsm.Proto.Handshake
import Mathlib.Logic.Function.Basic

/-!
# Joining a group

`edsm_proto_group_join` connects to one member, learns of the others from it, and
connects to them.  Every connection is answered by the listener thread of the
node that accepts it.  One join is over before the next one begins.
-/

namespace Edsm.Proto

/-- The id and the table of peers of a node. -/
structure Member where
  myId : UInt32
  peers : List PeerInformation

structure Connection (N : Type*) where
  dialer : N
  dialerFd : Fd
  acceptor : N
  acceptorFd : Fd

/-- The ports on which the nodes listen, and the node that is reached at an address. -/
structure Network (N : Type*) where
  listenPort : N → UInt16
  reaches : SockAddr → Option N
  port_of_reaches : ∀ addr q, reaches addr = some q → addr.port = listenPort q

/-- What the system returns during one join for the connection to each node: the descriptors of
the two ends, and the remote address that `accept` reports. -/
structure Sockets (N : Type*) where
  dialerFd : N → Fd
  acceptorFd : N → Fd
  remoteAddr : N → SockAddr

/-- The nodes, the connections that have been made, and the nodes that have joined, in order. -/
@[ext] structure World (N : Type*) where
  member : N → Member
  connections : List (Connection N)
  members : List N

/-- Why a join does not come to its end. -/
inductive Stop
  | fault (fault : Fault)
  /-- The id of an entry is changed while the entry is in the table. -/
  | keyChanged
  /-- `FAILURE` -/
  | failure

variable {N : Type*} [DecidableEq N]

namespace World

def setMember (w : World N) (p : N) (member : Member) : World N :=
  { w with member := Function.update w.member p member }

/-- An assignment to a peer that is in the table. -/
def setPeer (w : World N) (p : N) (peer : PeerInformation) : World N :=
  w.setMember p
    { w.member p with
      peers := (w.member p).peers.map fun s ↦ if s.id = peer.id then peer else s }

def addConnection (w : World N) (c : Connection N) : World N :=
  { w with connections := w.connections ++ [c] }

end World

/-- `handle_new_connection` at `q`, with the response; after a `FAILURE` the other side reads the
end of the stream and fails, too. -/
def handleNewConnection (sockets : Sockets N) (w : World N) (q : N) (msg : UInt32 × List UInt8) :
    Except Stop (List UInt8 × World N) :=
  let peer := { initializePeer with
    sockFd := some (sockets.acceptorFd q)
    addr := sockets.remoteAddr q }
  let peers := (w.member q).peers
  match readAndHandleInitMessage (w.member q).myId peers peer msg with
  | .error fault => .error (.fault fault)
  | .ok none => .error .failure
  | .ok (some (peer, response)) =>
      match hashFind peers peer.id with
      | some _ => .error (.fault .assertion)
      | none => .ok (response, w.setMember q { w.member q with peers := peers ++ [peer] })

mutual

/-- `peer_connect` at `j`; `listed` tells whether the peer is an entry of the table.  `none` means
that the fuel was not enough. -/
def peerConnect (net : Network N) (sockets : Sockets N) :
    ℕ → World N → N → PeerInformation → (listed : Bool) → Option (Except Stop (World N))
  | 0, _, _, _, _ => none
  | fuel + 1, w, j, peer, listed =>
      match net.reaches peer.addr with
      | none => some (.error .failure)
      | some q =>
          let peer := { peer with sockFd := some (sockets.dialerFd q) }
          let w := if listed then w.setPeer j peer else w
          let w := w.addConnection ⟨j, sockets.dialerFd q, q, sockets.acceptorFd q⟩
          let msg := initMessage (w.member j).myId (net.listenPort j)
          match handleNewConnection sockets w q (msgTypeProtoInit, msg) with
          | .error stop => some (.error stop)
          | .ok (response, w) =>
              match readAndHandleInitResponse (w.member j).myId peer (w.member j).peers
                (msgTypeProtoInit, response) with
              | .error fault => some (.error (.fault fault))
              | .ok none => some (.error .failure)
              | .ok (some (myId, peer', peers)) =>
                  if listed = true ∧ peer'.id ≠ peer.id then some (.error .keyChanged)
                  else connectToNewPeers net sockets fuel (w.setMember j ⟨myId, peers⟩) j 0

/-- The loop of `connect_to_new_peers` from a position on.  The next position is taken before the
body is run: the loop ends with the entry that was the last one then. -/
def connectToNewPeers (net : Network N) (sockets : Sockets N) :
    ℕ → World N → N → ℕ → Option (Except Stop (World N))
  | 0, _, _, _ => none
  | fuel + 1, w, j, pos =>
      match (w.member j).peers[pos]? with
      | none => some (.ok w)
      | some peer =>
          let isLast := pos + 1 = (w.member j).peers.length
          match peer.sockFd with
          | some _ =>
              if isLast then some (.ok w) else connectToNewPeers net sockets fuel w j (pos + 1)
          | none =>
              match peerConnect net sockets fuel w j peer true with
              | none => none
              | some (.error stop) => some (.error stop)
              | some (.ok w) =>
                  if isLast then some (.ok w)
                  else connectToNewPeers net sockets fuel w j (pos + 1)

end

/-- `edsm_proto_group_join` at `j` through the node at an address. -/
def groupJoin (net : Network N) (sockets : Sockets N) (fuel : ℕ) (w : World N) (j : N)
    (addr : SockAddr) : Option (Except Stop (World N)) :=
  peerConnect net sockets fuel (w.setMember j { w.member j with myId := 0 }) j
    { initializePeer with addr } false

/-- One join. -/
structure Join (N : Type*) where
  joiner : N
  addr : SockAddr
  sockets : Sockets N
  fuel : ℕ

namespace World

def step (net : Network N) (w : World N) (a : Join N) : Option (World N) :=
  match groupJoin net a.sockets a.fuel w a.joiner a.addr with
  | some (.ok w) => some { w with members := w.members ++ [a.joiner] }
  | _ => none

end World

/-- A process starts with the id 1 and without peers; `first` does not join any group. -/
def groups (net : Network N) (first : N) : LabelledSystem (World N) (Join N) where
  init := { member := fun _ ↦ ⟨1, []⟩, connections := [], members := [first] }
  step := World.step net

/-- A node that has not joined yet joins through a current member, and the system keeps its word:
a descriptor is not in use where it is returned, and the joiner is reached at the address that
`accept` reports together with its listen port. -/
structure Join.Allowed (net : Network N) (w : World N) (a : Join N) : Prop where
  fresh : a.joiner ∉ w.members
  through : ∃ q ∈ w.members, net.reaches a.addr = some q
  dialerFd : ∀ p ∈ w.members, ∀ q ∈ w.members,
    a.sockets.dialerFd p = a.sockets.dialerFd q → p = q
  acceptorFd : ∀ q ∈ w.members, ∀ s ∈ (w.member q).peers,
    s.sockFd ≠ some (a.sockets.acceptorFd q)
  remoteAddr : ∀ q ∈ w.members,
    net.reaches ((a.sockets.remoteAddr q).setPort (net.listenPort a.joiner)) = some a.joiner

end Edsm.Proto
