import Edsm.Proto.Join

/-!
# What a failed join leaves behind

`edsm_proto_group_join` sets the id of the node to 0, enters the peers that it
learns of, and their descriptors, as it goes, and takes nothing back when it fails
in between.  Here everything outside the node is arbitrary: each call of
`peer_connect` meets what it meets.
-/

namespace Edsm.Proto.FailedJoin

/-! ## The calls of one node -/

/-- What one call of `peer_connect` meets. -/
structure Attempt where
  /-- `edsm_socket_connect`; `none` is -1. -/
  sockFd : Option Fd
  /-- `fd_send_message` succeeds. -/
  sends : Bool
  /-- `read_message_from_socket` after this init message; `none` is `NULL`. -/
  response : List UInt8 → Option (List UInt8)

/-- How far a call is followed. -/
inductive Ending
  | success
  | failure
  /-- The id of an entry is changed while the entry is in the table.  The node is kept as it was
  then, with the descriptor of the entry; what the hash makes of it is left open. -/
  | keyChanged
  deriving DecidableEq

/-- The node, and the number of calls of `peer_connect` so far. -/
structure Joiner where
  member : Member
  calls : ℕ

namespace Joiner

def count (s : Joiner) : Joiner := { s with calls := s.calls + 1 }

/-- An assignment to a peer: the entry of the table at a position, or the peer of
`edsm_proto_group_join`, which is not in the table yet. -/
def setPeer (s : Joiner) (entry : Option ℕ) (peer : PeerInformation) : Joiner :=
  match entry with
  | none => s
  | some i => { s with member := { s.member with peers := s.member.peers.set i peer } }

/-- `read_and_handle_init_response`, after the message has been read. -/
def handleInitResponse (s : Joiner) (entry : Option ℕ) (peer : PeerInformation)
    (response : List UInt8) : Except Fault (Ending × Joiner) :=
  match readBytes 4 response with
  | none => .error .uninitialised
  | some (out, bytes) =>
      match readAndHandleInitResponse s.member.myId peer s.member.peers
        (Message.ofWord out, bytes) with
      | .error fault => .error fault
      | .ok none => .ok (.failure, s)
      | .ok (some (myId, peer', peers)) =>
          if entry.isSome ∧ peer'.id ≠ peer.id then .ok (.keyChanged, s)
          else .ok (.success, { s with member := ⟨myId, peers⟩ })

end Joiner

section Calls

variable (env : ℕ → Attempt) (listenPort : UInt16)

mutual

/-- `peer_connect`; outside `none` means that the fuel was not enough. -/
def peerConnect :
    ℕ → Joiner → Option ℕ → PeerInformation → Option (Except Fault (Ending × Joiner))
  | 0, _, _, _ => none
  | fuel + 1, s, entry, peer =>
      let attempt := env s.calls
      let peer := { peer with sockFd := attempt.sockFd }
      let s := s.count.setPeer entry peer
      if attempt.sockFd = none then some (.ok (.failure, s))
      else if attempt.sends = false then some (.ok (.failure, s))
      else
        match attempt.response (initMessage s.member.myId listenPort) with
        | none => some (.ok (.failure, s))
        | some response =>
            match s.handleInitResponse entry peer response with
            | .ok (.success, s) => connectToNewPeers fuel s 0
            | result => some result

/-- The loop of `connect_to_new_peers` from a position on.  The next position is taken before the
body is run: the loop ends with the entry that was the last one then. -/
def connectToNewPeers : ℕ → Joiner → ℕ → Option (Except Fault (Ending × Joiner))
  | 0, _, _ => none
  | fuel + 1, s, pos =>
      match s.member.peers[pos]? with
      | none => some (.ok (.success, s))
      | some peer =>
          let isLast := pos + 1 = s.member.peers.length
          match peer.sockFd with
          | some _ =>
              if isLast then some (.ok (.success, s)) else connectToNewPeers fuel s (pos + 1)
          | none =>
              match peerConnect fuel s (some pos) peer with
              | some (.ok (.success, s)) =>
                  if isLast then some (.ok (.success, s)) else connectToNewPeers fuel s (pos + 1)
              | result => result

end

/-- `edsm_proto_group_join`; `resolved` is what `edsm_socket_build_sockaddr` makes of the host, or
`none` if it fails.  After a `FAILURE` the peer of the call has been destroyed. -/
def groupJoin (fuel : ℕ) (m : Member) (resolved : Option SockAddr) :
    Option (Except Fault (Ending × Member)) :=
  let s : Joiner := { member := { m with myId := 0 }, calls := 0 }
  match resolved with
  | none => some (.ok (.failure, s.member))
  | some addr =>
      (peerConnect env listenPort fuel s none { initializePeer with addr }).map
        (·.map fun result ↦ (result.1, result.2.member))

end Calls

/-! ## Tables only grow -/

section Grows

/-- No entry goes, and no descriptor is taken back. -/
structure Grows (before after : List PeerInformation) : Prop where
  length_le : before.length ≤ after.length
  connected : ∀ (i : ℕ) (peer : PeerInformation), before[i]? = some peer → peer.sockFd ≠ none →
    ∃ peer' : PeerInformation, after[i]? = some peer' ∧ peer'.sockFd ≠ none

/-- An entry has got a descriptor. -/
def Connects (before after : List PeerInformation) : Prop :=
  ∃ (i : ℕ) (peer peer' : PeerInformation), before[i]? = some peer ∧ peer.sockFd = none ∧
    after[i]? = some peer' ∧ peer'.sockFd ≠ none

variable {a b c : List PeerInformation}

theorem Grows.refl (a : List PeerInformation) : Grows a a :=
  ⟨le_rfl, fun _ peer hpeer hfd ↦ ⟨peer, hpeer, hfd⟩⟩

theorem Grows.trans (hab : Grows a b) (hbc : Grows b c) : Grows a c := by
  refine ⟨hab.length_le.trans hbc.length_le, fun i peer hpeer hfd ↦ ?_⟩
  obtain ⟨peer', hpeer', hfd'⟩ := hab.connected i peer hpeer hfd
  exact hbc.connected i peer' hpeer' hfd'

theorem Grows.of_extends (h : a <+: b) : Grows a b := by
  obtain ⟨added, rfl⟩ := h
  refine ⟨by simp, fun i peer hpeer hfd ↦ ⟨peer, ?_, hfd⟩⟩
  exact List.getElem?_append_left (List.getElem?_eq_some_iff.mp hpeer).1 ▸ hpeer

theorem Grows.set {i : ℕ} {peer peer' : PeerInformation} (hpeer : a[i]? = some peer)
    (hfd : peer.sockFd = none) : Grows a (a.set i peer') := by
  refine ⟨by simp, fun j other hother hother' ↦ ⟨other, ?_, hother'⟩⟩
  rw [List.getElem?_set_ne, hother]
  rintro rfl
  rw [hpeer] at hother
  cases hother
  exact hother' hfd

theorem Connects.of_grows (h : Connects a b) (hbc : Grows b c) : Connects a c := by
  obtain ⟨i, peer, peer', hpeer, hnone, hpeer', hfd⟩ := h
  obtain ⟨peer'', hpeer'', hfd'⟩ := hbc.connected i peer' hpeer' hfd
  exact ⟨i, peer, peer'', hpeer, hnone, hpeer'', hfd'⟩

/-- A table to which entries have been added before one got its descriptor is another one. -/
theorem Connects.ne_of_extends (h : Connects b c) (hbc : Grows b c) (hab : a <+: b) : c ≠ a := by
  rintro rfl
  obtain ⟨i, peer, peer', hpeer, hnone, hpeer', hfd⟩ := h
  obtain rfl := hab.eq_of_length_le hbc.length_le
  rw [hpeer] at hpeer'
  cases hpeer'
  exact hfd hnone

end Grows

/-! ## What a response adds -/

/-- The first words of a message. -/
def words : ℕ → List UInt8 → List UInt32
  | 0, _ => []
  | n + 1, bytes => Message.ofWord (bytes.take 4) :: words n (bytes.drop 4)

/-- The id that a response assigns, from what follows the id of its sender. -/
def assignedId (bytes : List UInt8) : UInt32 :=
  if 4 ≤ bytes.length then Message.ofWord (bytes.take 4) else 0

/-- The list that follows the assigned id. -/
def listBytes (bytes : List UInt8) : List UInt8 :=
  if 4 ≤ bytes.length then bytes.drop 4 else bytes

/-- The words behind the count of a list, as many as it counts: the listed ids, if the node that
reads them knows them all. -/
def listedIds (list : List UInt8) : List UInt32 :=
  if 4 ≤ list.length then words (Message.ofWord (list.take 4)).toNat (list.drop 4) else []

/-- A response that tells the node what it knows: its own id, and peers that are in its table. -/
structure Repeats (m : Member) (bytes : List UInt8) : Prop where
  contacted : hashFind m.peers (Message.ofWord (bytes.take 4)) ≠ none
  assigned : assignedId (bytes.drop 4) = m.myId
  listed : ∀ id ∈ listedIds (listBytes (bytes.drop 4)), hashFind m.peers id ≠ none

section Response

variable {n : ℕ} {bytes : List UInt8} {known peers : List PeerInformation} {myId : UInt32}

theorem readPeers_eq_self_iff (h : readPeers n bytes known = .ok peers) :
    peers = known ↔ ∀ id ∈ words n bytes, hashFind known id ≠ none := by
  induction n generalizing bytes with
  | zero =>
      obtain rfl := Except.ok.inj h
      simp [words]
  | succ n ih =>
      have hle : 4 ≤ bytes.length := by
        by_contra hlt
        rw [readPeers, readBytes_of_lt (not_le.mp hlt)] at h
        cases h
      rw [readPeers, readBytes_of_le hle] at h
      simp only at h
      rw [words, List.forall_mem_cons]
      cases hfind : hashFind known (Message.ofWord (bytes.take 4)) with
      | some s =>
          rw [hfind] at h
          simpa using ih h
      | none =>
          -- a peer that is added stays
          have hlonger : known.length < peers.length := by
            rw [hfind] at h
            simp only at h
            split at h
            · have hle := (prefix_readPeers h).length_le
              rwa [List.length_append] at hle
            · have hle := (prefix_readPeers h).length_le
              rwa [List.length_append] at hle
          refine iff_of_false ?_ fun hall ↦ hall.1 rfl
          rintro rfl
          exact lt_irrefl _ hlonger

theorem readPeerlist_eq_self_iff (h : readPeerlist bytes known = .ok peers) :
    peers = known ↔ ∀ id ∈ listedIds bytes, hashFind known id ≠ none := by
  rw [listedIds]
  by_cases hle : 4 ≤ bytes.length
  · rw [readPeerlist, readBytes_of_le hle] at h
    rw [if_pos hle]
    exact readPeers_eq_self_iff h
  · rw [readPeerlist, readBytes_of_lt (not_le.mp hle)] at h
    obtain rfl := Except.ok.inj h
    simp [if_neg hle]

theorem takeAssigned_zero (h : takeAssigned 0 known bytes = .ok (myId, peers)) :
    myId = assignedId bytes ∧ readPeerlist (listBytes bytes) known = .ok peers := by
  rw [takeAssigned, if_pos rfl] at h
  rw [assignedId, listBytes]
  by_cases hle : 4 ≤ bytes.length
  · rw [readBytes_of_le hle] at h
    obtain ⟨table, hread, heq⟩ := Except.map_eq_ok.mp h
    obtain ⟨rfl, rfl⟩ := Prod.mk.inj heq
    rw [if_pos hle, if_pos hle]
    exact ⟨rfl, hread⟩
  · rw [readBytes_of_lt (not_le.mp hle)] at h
    obtain ⟨table, hread, heq⟩ := Except.map_eq_ok.mp h
    obtain ⟨rfl, rfl⟩ := Prod.mk.inj heq
    rw [if_neg hle, if_neg hle]
    exact ⟨rfl, hread⟩

theorem prefix_takeAssigned {myId' : UInt32}
    (h : takeAssigned myId known bytes = .ok (myId', peers)) : known <+: peers := by
  by_cases hzero : myId = 0
  · subst hzero
    exact prefix_readPeerlist (takeAssigned_zero h).2
  · rw [takeAssigned, if_neg hzero] at h
    cases h
    exact List.prefix_rfl

end Response

/-! ## One response -/

section Handle

variable {s s' : Joiner} {entry : Option ℕ} {peer : PeerInformation} {response : List UInt8}
  {ending : Ending}

/-- A response whose type or id is wrong changes nothing; any other leaves the entries that there
are as they are. -/
theorem handleInitResponse_cases
    (h : s.handleInitResponse entry peer response = .ok (ending, s')) :
    (ending = .failure ∧ Message.ofWord (response.take 4) ≠ msgTypeProtoInit ∧ s' = s) ∨
    (ending = .keyChanged ∧ entry ≠ none ∧ s' = s) ∨
    (ending = .success ∧ Message.ofWord (response.take 4) = msgTypeProtoInit ∧
      s'.calls = s.calls ∧ ∃ table, takeAssigned s.member.myId s.member.peers
        ((response.drop 4).drop 4) = .ok (s'.member.myId, table) ∧
      ∃ peer', peer'.id = Message.ofWord ((response.drop 4).take 4) ∧
        s'.member.peers = if hashFind table peer'.id = none then table ++ [peer'] else table) := by
  rw [Joiner.handleInitResponse] at h
  by_cases hle : 4 ≤ response.length
  · rw [readBytes_of_le hle] at h
    simp only at h
    split at h
    · cases h
    · next hnone =>
        cases h
        exact .inl ⟨rfl, readAndHandleInitResponse_eq_none hnone, rfl⟩
    · next myId peer' peers hsome =>
        split at h
        · next hentry =>
            cases h
            exact .inr (.inl ⟨rfl, Option.isSome_iff_ne_none.mp hentry.1, rfl⟩)
        · cases h
          obtain ⟨htype, -, rfl, table, hassigned, rfl⟩ := readAndHandleInitResponse_eq_some hsome
          exact .inr (.inr ⟨rfl, htype, rfl, table, hassigned, _, rfl, rfl⟩)
  · rw [readBytes_of_lt (not_le.mp hle)] at h
    cases h

theorem prefix_handleInitResponse
    (h : s.handleInitResponse entry peer response = .ok (ending, s')) :
    s.member.peers <+: s'.member.peers := by
  rcases handleInitResponse_cases h with ⟨-, -, rfl⟩ | ⟨-, -, rfl⟩ |
    ⟨-, -, -, table, hassigned, peer', -, hpeers⟩
  · exact List.prefix_rfl
  · exact List.prefix_rfl
  · rw [hpeers]
    split
    · exact (prefix_takeAssigned hassigned).trans (List.prefix_append _ _)
    · exact prefix_takeAssigned hassigned

/-- The first response leaves the node as it was if and only if it repeats what the node knows. -/
theorem handleInitResponse_eq_self_iff {m : Member} (hs : s.member = { m with myId := 0 })
    (h : s.handleInitResponse entry peer response = .ok (.success, s')) :
    s'.member = m ↔ Repeats m (response.drop 4) := by
  rcases handleInitResponse_cases h with ⟨hending, -⟩ | ⟨hending, -⟩ |
    ⟨-, -, -, table, hassigned, peer', hid, hpeers⟩
  · cases hending
  · cases hending
  · rw [hs] at hassigned
    obtain ⟨hmyId, hread⟩ := takeAssigned_zero hassigned
    have hextends := prefix_readPeerlist hread
    have htable := readPeerlist_eq_self_iff hread
    have hmember : s'.member = m ↔ s'.member.myId = m.myId ∧ s'.member.peers = m.peers := by
      cases s'.member
      cases m
      exact Member.mk.injEq _ _ _ _ ▸ Iff.rfl
    rw [hmember, hmyId, hpeers, hid]
    constructor
    · rintro ⟨hassigned, heq⟩
      split at heq
      · -- the sender of the response has been added
        have hlength := congrArg List.length heq
        rw [List.length_append, List.length_singleton] at hlength
        exact absurd hextends.length_le (by simp only at hlength ⊢; omega)
      · next hfind =>
          rw [heq] at hfind
          exact ⟨hfind, hassigned, htable.mp heq⟩
    · rintro ⟨hcontacted, hassigned, hlisted⟩
      have heq := htable.mpr hlisted
      rw [heq, if_neg hcontacted]
      exact ⟨hassigned, rfl⟩

end Handle

/-! ## Runs -/

section Runs

variable {env : ℕ → Attempt} {listenPort : UInt16} {fuel pos : ℕ} {s s' : Joiner}
  {entry : Option ℕ} {peer : PeerInformation} {ending : Ending}

/-- The descriptor of the peer is still to come. -/
def Unconnected (s : Joiner) (entry : Option ℕ) (peer : PeerInformation) : Prop :=
  peer.sockFd = none ∧ ∀ i, entry = some i → s.member.peers[i]? = some peer

/-- The node once `edsm_socket_connect` has returned. -/
def afterConnect (env : ℕ → Attempt) (s : Joiner) (entry : Option ℕ) (peer : PeerInformation) :
    Joiner :=
  s.count.setPeer entry { peer with sockFd := (env s.calls).sockFd }

/-- The response to the init message of a node in this state, if it comes to one. -/
def responseTo (env : ℕ → Attempt) (listenPort : UInt16) (s : Joiner) : Option (List UInt8) :=
  if (env s.calls).sockFd = none ∨ (env s.calls).sends = false then none
  else (env s.calls).response (initMessage s.member.myId listenPort)

@[simp] theorem setPeer_myId (s : Joiner) (entry : Option ℕ) (peer : PeerInformation) :
    (s.setPeer entry peer).member.myId = s.member.myId := by
  cases entry <;> rfl

@[simp] theorem peerConnect_zero : peerConnect env listenPort 0 s entry peer = none := by
  rw [peerConnect]

@[simp] theorem connectToNewPeers_zero : connectToNewPeers env listenPort 0 s pos = none := by
  rw [connectToNewPeers]

theorem exists_of_peerConnect (h : peerConnect env listenPort fuel s entry peer ≠ none) :
    ∃ n, fuel = n + 1 := by
  cases fuel with
  | zero => exact absurd peerConnect_zero h
  | succ n => exact ⟨n, rfl⟩

theorem peerConnect_cases
    (h : peerConnect env listenPort (fuel + 1) s entry peer = some (.ok (ending, s'))) :
    (responseTo env listenPort s = none ∧ ending = .failure ∧ s' = afterConnect env s entry peer) ∨
    ∃ response, responseTo env listenPort s = some response ∧ (env s.calls).sockFd ≠ none ∧
      ((ending ≠ .success ∧ (afterConnect env s entry peer).handleInitResponse entry
          { peer with sockFd := (env s.calls).sockFd } response = .ok (ending, s')) ∨
        ∃ s₁, (afterConnect env s entry peer).handleInitResponse entry
            { peer with sockFd := (env s.calls).sockFd } response = .ok (.success, s₁) ∧
          connectToNewPeers env listenPort fuel s₁ 0 = some (.ok (ending, s'))) := by
  rw [peerConnect] at h
  simp only [setPeer_myId] at h
  rw [responseTo]
  split at h
  · next hfd =>
      cases h
      exact .inl ⟨if_pos (.inl hfd), rfl, rfl⟩
  · next hfd =>
      split at h
      · next hsends =>
          cases h
          exact .inl ⟨if_pos (.inr hsends), rfl, rfl⟩
      · next hsends =>
          rw [if_neg (not_or.mpr ⟨hfd, hsends⟩)]
          split at h
          · next hresponse =>
              cases h
              exact .inl ⟨hresponse, rfl, rfl⟩
          · next response hresponse =>
              refine .inr ⟨response, hresponse, hfd, ?_⟩
              split at h
              · next s₁ hhandle => exact .inr ⟨s₁, hhandle, h⟩
              · next hother =>
                  have hhandle := Option.some.inj h
                  exact .inl ⟨fun hending ↦ hother s' (hending ▸ hhandle), hhandle⟩

theorem connectToNewPeers_cases
    (h : connectToNewPeers env listenPort (fuel + 1) s pos = some (.ok (ending, s'))) :
    (ending = .success ∧ s' = s) ∨
    connectToNewPeers env listenPort fuel s (pos + 1) = some (.ok (ending, s')) ∨
    ∃ peer, Unconnected s (some pos) peer ∧
      (peerConnect env listenPort fuel s (some pos) peer = some (.ok (ending, s')) ∨
        ∃ s₁, peerConnect env listenPort fuel s (some pos) peer = some (.ok (.success, s₁)) ∧
          connectToNewPeers env listenPort fuel s₁ (pos + 1) = some (.ok (ending, s'))) := by
  rw [connectToNewPeers] at h
  split at h
  · cases h
    exact .inl ⟨rfl, rfl⟩
  · next peer hpeer =>
      simp only at h
      split at h
      · split at h
        · cases h
          exact .inl ⟨rfl, rfl⟩
        · exact .inr (.inl h)
      · next hfd =>
          have hunconnected : Unconnected s (some pos) peer :=
            ⟨hfd, fun i hi ↦ Option.some.inj hi ▸ hpeer⟩
          refine .inr (.inr ⟨peer, hunconnected, ?_⟩)
          split at h
          · next s₁ hconnect =>
              split at h
              · cases h
                exact .inl hconnect
              · exact .inr ⟨s₁, hconnect, h⟩
          · exact .inl h

theorem grows_afterConnect (env : ℕ → Attempt) (h : Unconnected s entry peer) :
    Grows s.member.peers (afterConnect env s entry peer).member.peers := by
  cases entry with
  | none => exact Grows.refl _
  | some i => exact Grows.set (h.2 i rfl) h.1

/-- What follows the connection takes nothing back if the loop does not. -/
theorem Grows.of_peerConnect
    (hloop : ∀ s pos ending s',
      connectToNewPeers env listenPort fuel s pos = some (.ok (ending, s')) →
        Grows s.member.peers s'.member.peers)
    (h : peerConnect env listenPort (fuel + 1) s entry peer = some (.ok (ending, s'))) :
    Grows (afterConnect env s entry peer).member.peers s'.member.peers := by
  rcases peerConnect_cases h with ⟨-, -, rfl⟩ |
    ⟨response, -, -, ⟨-, hhandle⟩ | ⟨s₁, hhandle, hrest⟩⟩
  · exact .refl _
  · exact .of_extends (prefix_handleInitResponse hhandle)
  · exact (Grows.of_extends (prefix_handleInitResponse hhandle)).trans (hloop _ _ _ _ hrest)

/-- Whether it fails or not, no call takes anything back. -/
theorem grows_of_run (env : ℕ → Attempt) (listenPort : UInt16) (fuel : ℕ) :
    (∀ s entry peer ending s', Unconnected s entry peer →
      peerConnect env listenPort fuel s entry peer = some (.ok (ending, s')) →
        Grows s.member.peers s'.member.peers) ∧
    ∀ s pos ending s', connectToNewPeers env listenPort fuel s pos = some (.ok (ending, s')) →
      Grows s.member.peers s'.member.peers := by
  induction fuel with
  | zero =>
      refine ⟨fun s entry peer ending s' _ h ↦ ?_, fun s pos ending s' h ↦ ?_⟩
      · simp at h
      · simp at h
  | succ fuel ih =>
      refine ⟨fun s entry peer ending s' hpeer h ↦ ?_, fun s pos ending s' h ↦ ?_⟩
      · exact (grows_afterConnect env hpeer).trans (.of_peerConnect ih.2 h)
      · rcases connectToNewPeers_cases h with ⟨-, rfl⟩ | hnext |
          ⟨peer, hpeer, hconnect | ⟨s₁, hconnect, hrest⟩⟩
        · exact Grows.refl _
        · exact ih.2 _ _ _ _ hnext
        · exact ih.1 _ _ _ _ _ hpeer hconnect
        · exact (ih.1 _ _ _ _ _ hpeer hconnect).trans (ih.2 _ _ _ _ hrest)

theorem connects_of_peerConnect (hpeer : Unconnected s (some pos) peer)
    (hfd : (env s.calls).sockFd ≠ none)
    (h : peerConnect env listenPort fuel s (some pos) peer = some (.ok (ending, s'))) :
    Connects s.member.peers s'.member.peers := by
  obtain ⟨n, rfl⟩ := exists_of_peerConnect (by rw [h]; exact Option.some_ne_none _)
  have hget := hpeer.2 pos rfl
  have hlt := (List.getElem?_eq_some_iff.mp hget).1
  have hafter : Connects s.member.peers (afterConnect env s (some pos) peer).member.peers :=
    ⟨pos, peer, _, hget, hpeer.1, List.getElem?_set_self hlt, hfd⟩
  exact hafter.of_grows (.of_peerConnect (grows_of_run env listenPort n).2 h)

theorem peerConnect_of_no_socket (hpeer : Unconnected s (some pos) peer)
    (hfd : (env s.calls).sockFd = none)
    (h : peerConnect env listenPort fuel s (some pos) peer = some (.ok (ending, s'))) :
    ending = .failure ∧ s'.member = s.member := by
  obtain ⟨n, rfl⟩ := exists_of_peerConnect (by rw [h]; exact Option.some_ne_none _)
  rcases peerConnect_cases h with ⟨-, hending, rfl⟩ | ⟨response, -, hsome, -⟩
  · refine ⟨hending, ?_⟩
    have hget := hpeer.2 pos rfl
    have hsame : { peer with sockFd := (env s.calls).sockFd } = peer := by
      rw [hfd, ← hpeer.1]
    obtain ⟨hlt, hval⟩ := List.getElem?_eq_some_iff.mp hget
    rw [afterConnect, hsame]
    change (⟨s.member.myId, s.member.peers.set pos peer⟩ : Member) = s.member
    rw [← hval, List.set_getElem_self]
  · exact absurd hfd hsome

/-- When the loop does not succeed, the first connection that it tried was not made, and nothing
has changed; or it was made, and is still in the table. -/
theorem connectToNewPeers_failure (hending : ending ≠ .success)
    (h : connectToNewPeers env listenPort fuel s pos = some (.ok (ending, s'))) :
    ((env s.calls).sockFd = none ∧ s'.member = s.member) ∨
      ((env s.calls).sockFd ≠ none ∧ Connects s.member.peers s'.member.peers) := by
  induction fuel generalizing pos with
  | zero => simp at h
  | succ fuel ih =>
      rcases connectToNewPeers_cases h with ⟨hsuccess, -⟩ | hnext |
        ⟨peer, hpeer, hconnect | ⟨s₁, hconnect, hrest⟩⟩
      · exact absurd hsuccess hending
      · exact ih hnext
      · by_cases hfd : (env s.calls).sockFd = none
        · exact .inl ⟨hfd, (peerConnect_of_no_socket hpeer hfd hconnect).2⟩
        · exact .inr ⟨hfd, connects_of_peerConnect hpeer hfd hconnect⟩
      · by_cases hfd : (env s.calls).sockFd = none
        · cases (peerConnect_of_no_socket hpeer hfd hconnect).1
        · exact .inr ⟨hfd, (connects_of_peerConnect hpeer hfd hconnect).of_grows
            ((grows_of_run env listenPort fuel).2 _ _ _ _ hrest)⟩

/-! ## Joins that fail -/

variable {m left : Member} {resolved : Option SockAddr}

/-- The response of the node that is contacted, if the call comes to one. -/
def firstResponse (env : ℕ → Attempt) (listenPort : UInt16) (m : Member)
    (resolved : Option SockAddr) : Option (List UInt8) :=
  resolved.bind fun _ ↦ responseTo env listenPort { member := { m with myId := 0 }, calls := 0 }

/-- The node had no id and the first connection does not come to an init message; or the message
repeats what the node knows, and the next connection is not made. -/
def Traceless (env : ℕ → Attempt) (listenPort : UInt16) (m : Member)
    (resolved : Option SockAddr) : Prop :=
  match firstResponse env listenPort m resolved with
  | none => m.myId = 0
  | some response =>
      if Message.ofWord (response.take 4) = msgTypeProtoInit then
        Repeats m (response.drop 4) ∧ (env 1).sockFd = none
      else m.myId = 0

theorem zeroed_eq_iff (m : Member) : ({ m with myId := 0 } : Member) = m ↔ m.myId = 0 := by
  obtain ⟨myId, peers⟩ := m
  simp [eq_comm]

theorem eq_iff_of_connectToNewPeers {s₁ : Joiner} {p : Prop} (hself : s₁.member = m ↔ p)
    (hextends : m.peers <+: s₁.member.peers) (hending : ending ≠ .success)
    (h : connectToNewPeers env listenPort fuel s₁ pos = some (.ok (ending, s'))) :
    s'.member = m ↔ p ∧ (env s₁.calls).sockFd = none := by
  rw [← hself]
  rcases connectToNewPeers_failure hending h with ⟨hfd, hsame⟩ | ⟨hfd, hconnects⟩
  · rw [hsame]
    exact (and_iff_left hfd).symm
  · refine iff_of_false ?_ fun hboth ↦ hfd hboth.2
    rintro rfl
    exact hconnects.ne_of_extends ((grows_of_run env listenPort fuel).2 _ _ _ _ h) hextends rfl

/-- A join that does not succeed leaves the id and the table as they were if and only if the
condition holds. -/
theorem no_trace_iff (hending : ending ≠ .success)
    (h : groupJoin env listenPort fuel m resolved = some (.ok (ending, left))) :
    left = m ↔ Traceless env listenPort m resolved := by
  cases resolved with
  | none =>
      cases h
      exact zeroed_eq_iff m
  | some addr =>
      obtain ⟨result, hconnect, hresult⟩ := Option.map_eq_some_iff.mp h
      obtain ⟨⟨ending, s'⟩, rfl, hpair⟩ := Except.map_eq_ok.mp hresult
      obtain ⟨rfl, rfl⟩ := Prod.mk.inj hpair
      obtain ⟨n, rfl⟩ := exists_of_peerConnect (by rw [hconnect]; exact Option.some_ne_none _)
      rw [Traceless, firstResponse, Option.bind_some]
      rcases peerConnect_cases hconnect with ⟨hresponse, -, rfl⟩ |
        ⟨response, hresponse, -, ⟨hstop, hhandle⟩ | ⟨s₁, hhandle, hrest⟩⟩
      · rw [hresponse]
        exact zeroed_eq_iff m
      · rcases handleInitResponse_cases hhandle with ⟨-, htype, rfl⟩ | ⟨-, hentry, -⟩ |
          ⟨hsuccess, -⟩
        · simp only [hresponse, if_neg htype]
          exact zeroed_eq_iff m
        · exact absurd rfl hentry
        · exact absurd hsuccess hstop
      · rcases handleInitResponse_cases hhandle with ⟨hfailure, -⟩ | ⟨hchanged, -⟩ |
          ⟨-, htype, hcalls, -⟩
        · cases hfailure
        · cases hchanged
        · simp only [hresponse, if_pos htype]
          have hself := handleInitResponse_eq_self_iff (m := m) rfl hhandle
          rw [eq_iff_of_connectToNewPeers hself (prefix_handleInitResponse hhandle) hending
            hrest, hcalls]
          rfl

end Runs

/-- The first connection brings this response, and no other connection is made. -/
def answeredOnce (fd : Fd) (response : List UInt8) : ℕ → Attempt
  | 0 => { sockFd := some fd, sends := true, response := fun _ ↦ some response }
  | _ + 1 => { sockFd := none, sends := true, response := fun _ ↦ none }

/-- Node 2 repeats to node 4 its own id and a list of node 2 alone. -/
def repeating : List UInt8 :=
  Message.word msgTypeProtoInit ++ (Message.word 2 ++
    (Message.word 4 ++ (Message.word 1 ++ Message.word 2)))

/-- Node 4 tries to join once more with an entry that it has not connected to. -/
theorem no_trace_repeating :
    groupJoin (answeredOnce 5 repeating) 4000 5 ⟨4, [⟨2, none, .zero⟩]⟩ (some .zero) =
        some (.ok (.failure, ⟨4, [⟨2, none, .zero⟩]⟩)) ∧
      Traceless (answeredOnce 5 repeating) 4000 ⟨4, [⟨2, none, .zero⟩]⟩ (some .zero) := by
  have hrun : groupJoin (answeredOnce 5 repeating) 4000 5 ⟨4, [⟨2, none, .zero⟩]⟩ (some .zero) =
      some (.ok (.failure, ⟨4, [⟨2, none, .zero⟩]⟩)) := by rfl
  exact ⟨hrun, (no_trace_iff (by decide) hrun).mp rfl⟩

/-- Node 2 assigns the id 4 and lists node 3. -/
def listing : List UInt8 :=
  Message.word msgTypeProtoInit ++ (Message.word 2 ++
    (Message.word 4 ++ peerlist [⟨3, none, .zero⟩]))

theorem handleInitResponse_listing :
    Joiner.handleInitResponse ⟨⟨0, []⟩, 1⟩ none ⟨0, some 5, .zero⟩ listing =
      .ok (.success, ⟨⟨4, [⟨3, none, .zero⟩, ⟨2, some 5, .zero⟩]⟩, 1⟩) := by
  have hread : readBytes 4 listing = some (Message.word msgTypeProtoInit,
      Message.word 2 ++ (Message.word 4 ++ peerlist [⟨3, none, .zero⟩])) := readBytes_word _ _
  have hresponse : readAndHandleInitResponse 0 ⟨0, some 5, .zero⟩ [] (msgTypeProtoInit,
      Message.word 2 ++ (Message.word 4 ++ peerlist [⟨3, none, .zero⟩])) =
        .ok (some (4, ⟨2, some 5, .zero⟩, [⟨3, none, .zero⟩, ⟨2, some 5, .zero⟩])) :=
    readAndHandleInitResponse_new 4 _ [] (by decide) (by decide) (by decide) (by decide)
  simp only [Joiner.handleInitResponse, hread, Message.ofWord_word, hresponse]
  rfl

/-- The connection to node 3 fails, and node 2 stays in the table with its socket. -/
theorem groupJoin_listing : groupJoin (answeredOnce 5 listing) 4000 5 ⟨1, []⟩ (some .zero) =
    some (.ok (.failure, ⟨4, [⟨3, none, .zero⟩, ⟨2, some 5, .zero⟩]⟩)) := by
  have hhandle := handleInitResponse_listing
  rw [groupJoin, peerConnect]
  simp only [answeredOnce, Joiner.count, Joiner.setPeer, initializePeer, hhandle]
  rfl

/-- A node with the id 1 and an empty table has the id 4 and two entries after the failure. -/
theorem not_traceless_of_failure :
    ¬ ∀ (env : ℕ → Attempt) (listenPort : UInt16) (fuel : ℕ) (m left : Member)
      (resolved : Option SockAddr),
      groupJoin env listenPort fuel m resolved = some (.ok (.failure, left)) → left = m := by
  intro h
  have heq := h _ _ _ _ _ _ groupJoin_listing
  cases heq

end Edsm.Proto.FailedJoin
