import Edsm.Message.Fields

/-!
# The handshake

A node that connects sends its id, 0 if it has none yet, and its listen port.
The node that accepts answers with its own id and, to a node without an id, the
id it assigns to it and the list of its peers.
-/

namespace Edsm.Proto

def msgTypeProtoInit : UInt32 := 1

/-- A descriptor, which is a nonnegative `int`; `none` stands for -1. -/
abbrev Fd := Fin (2 ^ 31)

/-- `sockaddr_storage`.  IPv4 and IPv6 have the port at the same place. -/
structure SockAddr where
  family : UInt16
  port : UInt16
  rest : List UInt8
  length_rest : rest.length = 124
  deriving DecidableEq

namespace SockAddr

def zero : SockAddr := ⟨0, 0, List.replicate 124 0, List.length_replicate⟩

/-- The port is in network byte order. -/
def bytes (addr : SockAddr) : List UInt8 :=
  LittleEndian.toBytes 2 addr.family.toNat ++
    ((LittleEndian.toBytes 2 addr.port.toNat).reverse ++ addr.rest)

def ofBytes (bytes : List UInt8) (h : bytes.length = 128) : SockAddr where
  family := UInt16.ofNat (LittleEndian.ofBytes (bytes.take 2))
  port := UInt16.ofNat (LittleEndian.ofBytes ((bytes.drop 2).take 2).reverse)
  rest := (bytes.drop 2).drop 2
  length_rest := by simp [h]

/-- `edsm_socket_set_sockaddr_port` -/
def setPort (addr : SockAddr) (port : UInt16) : SockAddr := { addr with port }

@[simp] theorem length_bytes (addr : SockAddr) : addr.bytes.length = 128 := by
  simp [bytes, addr.length_rest]

theorem ofBytes_bytes (addr : SockAddr) : ofBytes addr.bytes addr.length_bytes = addr := by
  have hfamily : addr.bytes.take 2 = LittleEndian.toBytes 2 addr.family.toNat := by
    simp [bytes]
  have hdrop : addr.bytes.drop 2 = (LittleEndian.toBytes 2 addr.port.toNat).reverse ++
      addr.rest := by
    rw [bytes, List.drop_left' (LittleEndian.length_toBytes 2 _)]
  have hport : (addr.bytes.drop 2).take 2 = (LittleEndian.toBytes 2 addr.port.toNat).reverse := by
    rw [hdrop, List.take_left' (by simp)]
  have hrest : (addr.bytes.drop 2).drop 2 = addr.rest := by
    rw [hdrop, List.drop_left' (by simp)]
  simp only [ofBytes, hfamily, hport, hrest, List.reverse_reverse,
    LittleEndian.uint16_ofBytes_toBytes]

end SockAddr

/-- `peer_information`, less the lock. -/
structure PeerInformation where
  id : UInt32
  sockFd : Option Fd
  addr : SockAddr
  deriving DecidableEq

def initializePeer : PeerInformation := ⟨0, none, .zero⟩

/-- `HASH_FIND_INT`; the table holds the peers in the order in which they were added. -/
def hashFind (peers : List PeerInformation) (id : UInt32) : Option PeerInformation :=
  peers.find? (·.id = id)

def getNextPeerId (localId : UInt32) (peers : List PeerInformation) : UInt32 :=
  peers.foldl (fun maxId s ↦ if s.id > maxId then s.id else maxId) localId + 1

/-! ## Messages, as the queues of bytes that they are -/

/-- `edsm_message_read`; `none` is `FAILURE`. -/
def readBytes (size : ℕ) (bytes : List UInt8) : Option (List UInt8 × List UInt8) :=
  if size ≤ bytes.length then some (bytes.take size, bytes.drop size) else none

/-- What `append_peerlist_to_message` writes. -/
def peerlist (peers : List PeerInformation) : List UInt8 :=
  Message.word (UInt32.ofNat peers.length) ++
    peers.flatMap fun peer ↦ Message.word peer.id ++ peer.addr.bytes

/-- The loop of `read_peerlist_from_message`: the address of a known peer is not skipped, and one
that cannot be read stays zero. -/
def readPeers : ℕ → List UInt8 → List PeerInformation → Except Fault (List PeerInformation)
  | 0, _, peers => .ok peers
  | n + 1, bytes, peers =>
      match readBytes 4 bytes with
      | none => .error .uninitialised
      | some (out, bytes) =>
          let newPeer := { initializePeer with id := Message.ofWord out }
          match hashFind peers newPeer.id with
          | some _ => readPeers n bytes peers
          | none =>
              if h : 128 ≤ bytes.length then
                let addr := SockAddr.ofBytes (bytes.take 128) (by simpa using h)
                readPeers n (bytes.drop 128) (peers ++ [{ newPeer with addr }])
              else readPeers n bytes (peers ++ [newPeer])

/-- `read_peerlist_from_message` -/
def readPeerlist (bytes : List UInt8) (peers : List PeerInformation) :
    Except Fault (List PeerInformation) :=
  match readBytes 4 bytes with
  | none => .ok peers
  | some (out, bytes) => readPeers (Message.ofWord out).toNat bytes peers

/-- The init message of `peer_connect`; the port is an `unsigned short` in a `uint32_t`. -/
def initMessage (myId : UInt32) (listenPort : UInt16) : List UInt8 :=
  Message.word myId ++ Message.word (UInt32.ofNat listenPort.toNat)

/-- `read_and_handle_init_message`: the peer with its id and port, and the response; `none` is
`FAILURE`. -/
def readAndHandleInitMessage (localId : UInt32) (peers : List PeerInformation)
    (peer : PeerInformation) (msg : UInt32 × List UInt8) :
    Except Fault (Option (PeerInformation × List UInt8)) :=
  if msg.1 ≠ msgTypeProtoInit then .ok none
  else match readBytes 4 msg.2 with
  | none => .error .uninitialised
  | some (out, bytes) =>
      let recvdPeerId := Message.ofWord out
      let id := if recvdPeerId = 0 then getNextPeerId localId peers else recvdPeerId
      let response := Message.word localId ++
        if recvdPeerId = 0 then Message.word id ++ peerlist peers else []
      match readBytes 2 bytes with
      | none => .error .uninitialised
      | some (out, _) =>
          let port := UInt16.ofNat (LittleEndian.ofBytes out)
          .ok (some ({ peer with id, addr := peer.addr.setPort port }, response))

/-- The id and the peers that a node without an id takes from the response; the id stays 0 if it
cannot be read. -/
def takeAssigned (myId : UInt32) (peers : List PeerInformation) (bytes : List UInt8) :
    Except Fault (UInt32 × List PeerInformation) :=
  if myId = 0 then
    match readBytes 4 bytes with
    | none => (readPeerlist bytes peers).map fun peers ↦ (0, peers)
    | some (out, bytes) => (readPeerlist bytes peers).map fun peers ↦ (Message.ofWord out, peers)
  else .ok (myId, peers)

/-- `read_and_handle_init_response`: the id of this node, the peer with its id, and the table, to
which a peer that is not in it has been added; `none` is `FAILURE`. -/
def readAndHandleInitResponse (myId : UInt32) (peer : PeerInformation)
    (peers : List PeerInformation) (msg : UInt32 × List UInt8) :
    Except Fault (Option (UInt32 × PeerInformation × List PeerInformation)) :=
  if msg.1 ≠ msgTypeProtoInit then .ok none
  else match readBytes 4 msg.2 with
  | none => .error .uninitialised
  | some (out, bytes) =>
      let peer := { peer with id := Message.ofWord out }
      if peer.id = 0 then .error .assertion
      else (takeAssigned myId peers bytes).map fun (myId, peers) ↦
        match hashFind peers peer.id with
        | none => some (myId, peer, peers ++ [peer])
        | some _ => some (myId, peer, peers)

/-! ## What the two sides read -/

theorem readBytes_append {size : ℕ} {out : List UInt8} (hsize : out.length = size)
    (rest : List UInt8) : readBytes size (out ++ rest) = some (out, rest) := by
  rw [readBytes, if_pos (by simp [hsize]), List.take_left' hsize, List.drop_left' hsize]

theorem readBytes_of_le {size : ℕ} {bytes : List UInt8} (h : size ≤ bytes.length) :
    readBytes size bytes = some (bytes.take size, bytes.drop size) := if_pos h

theorem readBytes_of_lt {size : ℕ} {bytes : List UInt8} (h : bytes.length < size) :
    readBytes size bytes = none := if_neg (not_le.mpr h)

theorem readBytes_word (n : UInt32) (rest : List UInt8) :
    readBytes 4 (Message.word n ++ rest) = some (Message.word n, rest) :=
  readBytes_append (Message.length_word n) rest

theorem hashFind_eq_none {peers : List PeerInformation} {id : UInt32} :
    hashFind peers id = none ↔ ∀ s ∈ peers, s.id ≠ id := by
  simp [hashFind]

theorem getNextPeerId_eq {localId maxId : UInt32} {peers : List PeerInformation}
    (hle : ∀ s ∈ peers, s.id ≤ maxId) (hlocal : localId ≤ maxId)
    (hmax : localId = maxId ∨ ∃ s ∈ peers, s.id = maxId) :
    getNextPeerId localId peers = maxId + 1 := by
  rw [getNextPeerId]
  congr 1
  induction peers generalizing localId with
  | nil =>
      rcases hmax with rfl | ⟨s, hs, -⟩
      · rfl
      · cases hs
  | cons s peers ih =>
      have hs := hle s List.mem_cons_self
      rw [List.foldl_cons]
      split
      · next hlt =>
          refine ih (fun t ht ↦ hle t (List.mem_cons_of_mem s ht)) hs ?_
          rcases hmax with rfl | ⟨t, ht, htmax⟩
          · exact .inl (UInt32.le_antisymm hs (UInt32.le_of_lt hlt))
          · rcases List.mem_cons.mp ht with rfl | ht
            · exact .inl htmax
            · exact .inr ⟨t, ht, htmax⟩
      · next hle' =>
          refine ih (fun t ht ↦ hle t (List.mem_cons_of_mem s ht)) hlocal ?_
          rcases hmax with rfl | ⟨t, ht, htmax⟩
          · exact .inl rfl
          · rcases List.mem_cons.mp ht with rfl | ht
            · exact .inl (UInt32.le_antisymm hlocal (htmax ▸ UInt32.not_lt.mp hle'))
            · exact .inr ⟨t, ht, htmax⟩

/-- A peer as another node learns of it from a list. -/
def PeerInformation.listed (peer : PeerInformation) : PeerInformation :=
  { peer with sockFd := none }

theorem readPeers_append (known : List PeerInformation) {listed : List PeerInformation}
    (rest : List UInt8) (hnodup : ((known ++ listed).map PeerInformation.id).Nodup) :
    readPeers listed.length
        (listed.flatMap (fun peer ↦ Message.word peer.id ++ peer.addr.bytes) ++ rest) known =
      .ok (known ++ listed.map PeerInformation.listed) := by
  induction listed generalizing known with
  | nil => simp [readPeers]
  | cons peer listed ih =>
      have hnew : hashFind known peer.id = none := by
        rw [hashFind_eq_none]
        intro s hs heq
        rw [List.map_append, List.nodup_append] at hnodup
        exact hnodup.2.2 s.id (List.mem_map_of_mem hs) peer.id
          (List.mem_map_of_mem List.mem_cons_self) heq
      rw [List.flatMap_cons, List.append_assoc, List.append_assoc, List.length_cons, readPeers,
        readBytes_word]
      simp only [Message.ofWord_word, hnew]
      rw [dif_pos (by simp)]
      simp only [List.take_left' peer.addr.length_bytes, List.drop_left' peer.addr.length_bytes,
        SockAddr.ofBytes_bytes]
      rw [ih]
      · simp [PeerInformation.listed, initializePeer]
      · simpa using hnodup

/-- A list is read as the table it was made of, without the sockets. -/
theorem readPeerlist_peerlist {known peers : List PeerInformation} (hlt : peers.length < 2 ^ 32)
    (hnodup : ((known ++ peers).map PeerInformation.id).Nodup) :
    readPeerlist (peerlist peers) known =
      .ok (known ++ peers.map PeerInformation.listed) := by
  have hlength : (UInt32.ofNat peers.length).toNat = peers.length := by
    rw [UInt32.toNat_ofNat', Nat.mod_eq_of_lt hlt]
  have hread := readPeers_append known [] hnodup
  rw [List.append_nil] at hread
  simp only [readPeerlist, peerlist, readBytes_word, Message.ofWord_word, hlength, hread]

theorem prefix_readPeers {n : ℕ} {bytes : List UInt8} {known peers : List PeerInformation}
    (h : readPeers n bytes known = .ok peers) : known <+: peers := by
  induction n generalizing bytes known with
  | zero =>
      obtain rfl := Except.ok.inj h
      exact List.prefix_rfl
  | succ n ih =>
      rw [readPeers] at h
      split at h
      · cases h
      · simp only at h
        split at h
        · exact ih h
        · split at h
          · exact (List.prefix_append known _).trans (ih h)
          · exact (List.prefix_append known _).trans (ih h)

theorem prefix_readPeerlist {bytes : List UInt8} {known peers : List PeerInformation}
    (h : readPeerlist bytes known = .ok peers) : known <+: peers := by
  rw [readPeerlist] at h
  split at h
  · obtain rfl := Except.ok.inj h
    exact List.prefix_rfl
  · exact prefix_readPeers h

theorem mem_readPeers {n : ℕ} {bytes : List UInt8} {known peers : List PeerInformation}
    (h : readPeers n bytes known = .ok peers) :
    ∀ t ∈ peers, t ∈ known ∨ t.sockFd = none := by
  induction n generalizing bytes known with
  | zero =>
      obtain rfl := Except.ok.inj h
      exact fun t ht ↦ .inl ht
  | succ n ih =>
      have hnew : ∀ {peer : PeerInformation}, peer.sockFd = none →
          (∀ t ∈ peers, t ∈ known ++ [peer] ∨ t.sockFd = none) →
          ∀ t ∈ peers, t ∈ known ∨ t.sockFd = none := by
        intro peer hpeer hall t ht
        rcases hall t ht with hmem | hnone
        · rcases List.mem_append.mp hmem with hmem | hmem
          · exact .inl hmem
          · obtain rfl := List.mem_singleton.mp hmem
            exact .inr hpeer
        · exact .inr hnone
      rw [readPeers] at h
      split at h
      · cases h
      · simp only at h
        split at h
        · exact ih h
        · split at h
          · exact hnew rfl (ih h)
          · exact hnew rfl (ih h)

theorem mem_readPeerlist {bytes : List UInt8} {known peers : List PeerInformation}
    (h : readPeerlist bytes known = .ok peers) :
    ∀ t ∈ peers, t ∈ known ∨ t.sockFd = none := by
  rw [readPeerlist] at h
  split at h
  · obtain rfl := Except.ok.inj h
    exact fun t ht ↦ .inl ht
  · exact mem_readPeers h

/-- What the handshake makes of a response that it accepts. -/
theorem readAndHandleInitResponse_eq_some {myId myId' : UInt32} {peer peer' : PeerInformation}
    {known peers : List PeerInformation} {msg : UInt32 × List UInt8}
    (h : readAndHandleInitResponse myId peer known msg = .ok (some (myId', peer', peers))) :
    msg.1 = msgTypeProtoInit ∧ 4 ≤ msg.2.length ∧
      peer' = { peer with id := Message.ofWord (msg.2.take 4) } ∧
      ∃ table, takeAssigned myId known (msg.2.drop 4) = .ok (myId', table) ∧
        peers = if hashFind table peer'.id = none then table ++ [peer'] else table := by
  rw [readAndHandleInitResponse] at h
  split at h
  · cases h
  · next htype =>
      by_cases hle : 4 ≤ msg.2.length
      · rw [readBytes_of_le hle] at h
        simp only at h
        split at h
        · cases h
        · obtain ⟨⟨id, table⟩, hassigned, hfind⟩ := Except.map_eq_ok.mp h
          simp only at hfind
          split at hfind
          · next hnone =>
              simp only [Option.some.injEq, Prod.mk.injEq] at hfind
              obtain ⟨rfl, rfl, rfl⟩ := hfind
              exact ⟨not_not.mp htype, hle, rfl, table, hassigned, by rw [if_pos hnone]⟩
          · next hsome =>
              simp only [Option.some.injEq, Prod.mk.injEq] at hfind
              obtain ⟨rfl, rfl, rfl⟩ := hfind
              exact ⟨not_not.mp htype, hle, rfl, table, hassigned, by rw [if_neg (by simp [hsome])]⟩
      · rw [readBytes_of_lt (not_le.mp hle)] at h
        cases h

theorem readAndHandleInitResponse_eq_none {myId : UInt32} {peer : PeerInformation}
    {known : List PeerInformation} {msg : UInt32 × List UInt8}
    (h : readAndHandleInitResponse myId peer known msg = .ok none) :
    msg.1 ≠ msgTypeProtoInit := by
  rw [readAndHandleInitResponse] at h
  split at h
  · next htype => exact htype
  · split at h
    · cases h
    · simp only at h
      split at h
      · cases h
      · obtain ⟨_, _, hfind⟩ := Except.map_eq_ok.mp h
        split at hfind <;> cases hfind

theorem mem_takeAssigned {myId id : UInt32} {known table : List PeerInformation}
    {bytes : List UInt8} (h : takeAssigned myId known bytes = .ok (id, table)) :
    ∀ t ∈ table, t ∈ known ∨ t.sockFd = none := by
  have hlist : ∀ {newId bytes}, (readPeerlist bytes known).map (fun peers ↦ (newId, peers)) =
      .ok (id, table) → ∀ t ∈ table, t ∈ known ∨ t.sockFd = none := by
    intro newId bytes hmap
    obtain ⟨peers, hread, heq⟩ := Except.map_eq_ok.mp hmap
    obtain ⟨-, rfl⟩ := Prod.mk.inj heq
    exact mem_readPeerlist hread
  rw [takeAssigned] at h
  split at h
  · split at h
    · exact hlist h
    · exact hlist h
  · obtain ⟨-, rfl⟩ := Prod.mk.inj (Except.ok.inj h)
    exact fun t ht ↦ .inl ht

/-- The handshake adds peers without a socket and the peer itself. -/
theorem mem_readAndHandleInitResponse {myId myId' : UInt32} {peer peer' : PeerInformation}
    {known peers : List PeerInformation} {msg : UInt32 × List UInt8}
    (h : readAndHandleInitResponse myId peer known msg = .ok (some (myId', peer', peers))) :
    ∀ t ∈ peers, t ∈ known ∨ t.sockFd = none ∨ t.sockFd = peer.sockFd := by
  obtain ⟨-, -, rfl, table, hassigned, rfl⟩ := readAndHandleInitResponse_eq_some h
  have hold := mem_takeAssigned hassigned
  intro t ht
  split at ht
  · rcases List.mem_append.mp ht with ht | ht
    · exact (hold t ht).imp_right .inl
    · obtain rfl := List.mem_singleton.mp ht
      exact .inr (.inr rfl)
  · exact (hold t ht).imp_right .inl

/-- The low half of the `uint32_t` is what the other side reads as the port. -/
theorem readBytes_port (port : UInt16) :
    ∃ rest, readBytes 2 (Message.word (UInt32.ofNat port.toNat)) =
      some (LittleEndian.toBytes 2 port.toNat, rest) := by
  have hlt : port.toNat < 2 ^ 32 := port.toNat_lt.trans (by decide)
  have hword : Message.word (UInt32.ofNat port.toNat) = LittleEndian.toBytes 2 port.toNat ++
      LittleEndian.toBytes 2 (port.toNat / 256 ^ 2) := by
    rw [Message.word, UInt32.toNat_ofNat', Nat.mod_eq_of_lt hlt]
    exact LittleEndian.toBytes_add 2 2 port.toNat
  exact ⟨_, by rw [hword, readBytes_append (LittleEndian.length_toBytes 2 _)]⟩

/-- The id under which the accepting node enters a peer that says it has `recvdPeerId`. -/
def acceptedId (localId : UInt32) (peers : List PeerInformation) (recvdPeerId : UInt32) : UInt32 :=
  if recvdPeerId = 0 then getNextPeerId localId peers else recvdPeerId

theorem readAndHandleInitMessage_spec (localId : UInt32) (peers : List PeerInformation)
    (peer : PeerInformation) (myId : UInt32) (port : UInt16) :
    readAndHandleInitMessage localId peers peer (msgTypeProtoInit, initMessage myId port) =
      .ok (some ({ peer with
          id := acceptedId localId peers myId
          addr := peer.addr.setPort port },
        Message.word localId ++
          if myId = 0 then Message.word (getNextPeerId localId peers) ++ peerlist peers
          else [])) := by
  obtain ⟨rest, hport⟩ := readBytes_port port
  simp only [readAndHandleInitMessage, initMessage, readBytes_word, Message.ofWord_word, hport,
    LittleEndian.uint16_ofBytes_toBytes, acceptedId, ne_eq, not_true_eq_false, if_false]
  split <;> rfl

theorem readAndHandleInitResponse_new {id : UInt32} (newId : UInt32) (peer : PeerInformation)
    (known : List PeerInformation) {peers : List PeerInformation} (hid : id ≠ 0)
    (hlt : peers.length < 2 ^ 32) (hnodup : ((known ++ peers).map PeerInformation.id).Nodup)
    (hnew : ∀ s ∈ known ++ peers, s.id ≠ id) :
    readAndHandleInitResponse 0 peer known
        (msgTypeProtoInit, Message.word id ++ (Message.word newId ++ peerlist peers)) =
      .ok (some (newId, { peer with id },
        known ++ peers.map PeerInformation.listed ++ [{ peer with id }])) := by
  have hnone : hashFind (known ++ peers.map PeerInformation.listed) id = none := by
    rw [hashFind_eq_none]
    intro s hs
    rcases List.mem_append.mp hs with hs | hs
    · exact hnew s (List.mem_append_left peers hs)
    · obtain ⟨t, ht, rfl⟩ := List.mem_map.mp hs
      exact hnew t (List.mem_append_right known ht)
  simp only [readAndHandleInitResponse, takeAssigned, readBytes_word, Message.ofWord_word,
    readPeerlist_peerlist hlt hnodup, hnone, if_neg hid, if_true, ne_eq, not_true_eq_false,
    if_false, Except.map]

theorem readAndHandleInitResponse_listed {id : UInt32} (myId : UInt32) (peer : PeerInformation)
    (peers : List PeerInformation) (hid : id ≠ 0) (hmyId : myId ≠ 0)
    (hlisted : ∃ s ∈ peers, s.id = id) :
    readAndHandleInitResponse myId peer peers (msgTypeProtoInit, Message.word id) =
      .ok (some (myId, { peer with id }, peers)) := by
  have hsome : hashFind peers id ≠ none := by
    rw [Ne, hashFind_eq_none]
    obtain ⟨s, hs, rfl⟩ := hlisted
    exact fun hall ↦ hall s hs rfl
  obtain ⟨s, hs⟩ := Option.ne_none_iff_exists'.mp hsome
  have hread : readBytes 4 (Message.word id) = some (Message.word id, []) := by
    simpa using readBytes_word id []
  simp only [readAndHandleInitResponse, takeAssigned, hread, Message.ofWord_word, hs, if_neg hid,
    if_neg hmyId, ne_eq, not_true_eq_false, if_false, Except.map]

/-! ## The messages as `edsm_message_write` makes them -/

def peerlistFields (peers : List PeerInformation) : List Message.Field :=
  .raw (Message.word (UInt32.ofNat peers.length)) ::
    peers.flatMap fun peer ↦ [.raw (Message.word peer.id), .raw peer.addr.bytes]

theorem encode_peerlistFields (peers : List PeerInformation) :
    (peerlistFields peers).flatMap Message.Field.encode = peerlist peers := by
  rw [peerlistFields, peerlist, List.flatMap_cons, List.flatMap_assoc]
  simp [Message.Field.encode]

/-- The writes of `append_peerlist_to_message` add these bytes to the data of the message. -/
theorem writeFields_peerlist {A : Allocator} {msg : Message} {head bytes tail : List UInt8}
    (h : msg.Layout head bytes tail) (peers : List PeerInformation)
    (hgrants : A.Grants (head.length + bytes.length + (peerlist peers).length)) :
    ∃ msg' tail', msg.writeFields A (peerlistFields peers) = .ok msg' ∧
      msg'.Layout head (bytes ++ peerlist peers) tail' := by
  rw [← encode_peerlistFields] at hgrants ⊢
  refine Message.writeFields_spec _ h (fun field hfield ↦ ?_) hgrants
  rcases List.mem_cons.mp hfield with rfl | hfield
  · trivial
  · obtain ⟨peer, -, hpeer⟩ := List.mem_flatMap.mp hfield
    rcases List.mem_cons.mp hpeer with rfl | hpeer
    · trivial
    · obtain rfl := List.mem_singleton.mp hpeer
      trivial

end Edsm.Proto
