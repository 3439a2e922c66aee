import Edsm.Message.Prefixed
import Edsm.Message.Write
import Edsm.Proto.Handshake

/-!
# The peer list on the wire

`append_peerlist_to_message` and `read_peerlist_from_message` with the reads and
writes that they make.  A record is an id and an address; of a peer that it knows
the reader takes the id only, and goes on with the address as the next record.
-/

namespace Edsm.Proto

/-! ## The two functions -/

/-- A hash of peers: the id is the key, and `num_items` is an `unsigned`. -/
structure PeerTable where
  peers : List PeerInformation
  nodup : (peers.map PeerInformation.id).Nodup
  length_lt : peers.length < 2 ^ 32

/-- The loop of `append_peerlist_to_message`. -/
def appendPeers (A : Allocator) (msg : Message) : List PeerInformation → Except Fault Message
  | [] => .ok msg
  | peer :: peers => do
      let msg ← msg.write A (Message.word peer.id)
      let msg ← msg.write A peer.addr.bytes
      appendPeers A msg peers

def appendPeerlist (A : Allocator) (msg : Message) (peers : List PeerInformation) :
    Except Fault Message := do
  let numPeers := UInt32.ofNat peers.length
  let msg ← msg.write A (Message.word numPeers)
  if numPeers > 0 then appendPeers A msg peers else return msg

/-- The bytes of a `sockaddr_storage` that have been copied to an address. -/
def SockAddr.assign (out : List UInt8) : Except Fault SockAddr :=
  if h : out.length = 128 then .ok (.ofBytes out h) else .error .outOfBounds

/-- The body of the loop of `read_peerlist_from_message`. -/
def readPeerFrom (msg : Message) (peers : List PeerInformation) :
    Except Fault (Message × List PeerInformation) := do
  match ← msg.read 4 with
  | none => throw .uninitialised
  | some (out, msg) =>
      let newPeer := { initializePeer with id := Message.ofWord out }
      match hashFind peers newPeer.id with
      | some _ => return (msg, peers)
      | none =>
          match ← msg.read 128 with
          | none => return (msg, peers ++ [newPeer])
          | some (out, msg) => do
              let addr ← SockAddr.assign out
              return (msg, peers ++ [{ newPeer with addr }])

def readPeersFrom :
    ℕ → Message → List PeerInformation → Except Fault (Message × List PeerInformation)
  | 0, msg, peers => .ok (msg, peers)
  | n + 1, msg, peers => do
      let (msg, peers) ← readPeerFrom msg peers
      readPeersFrom n msg peers

/-- `read_peerlist_from_message`, with the message that is left. -/
def readPeerlistFrom (msg : Message) (peers : List PeerInformation) :
    Except Fault (Message × List PeerInformation) := do
  match ← msg.read 4 with
  | none => return (msg, peers)
  | some (out, msg) => readPeersFrom (Message.ofWord out).toNat msg peers

/-! ## What is written -/

section Append

variable {A : Allocator} {msg : Message} {peers : List PeerInformation}

/-- The byte strings that `append_peerlist_to_message` writes one after the other. -/
def peerlistParts (peers : List PeerInformation) : List (List UInt8) :=
  Message.word (UInt32.ofNat peers.length) ::
    peers.flatMap fun peer ↦ [Message.word peer.id, peer.addr.bytes]

theorem flatten_peerlistParts (peers : List PeerInformation) :
    (peerlistParts peers).flatten = peerlist peers := by
  rw [peerlistParts, peerlist, List.flatten_cons, List.flatten_eq_flatMap, List.flatMap_assoc]
  simp

theorem appendPeers_eq (msg : Message) (peers : List PeerInformation) : appendPeers A msg peers =
    msg.writeAll A (peers.flatMap fun peer ↦ [Message.word peer.id, peer.addr.bytes]) := by
  induction peers generalizing msg with
  | nil => rfl
  | cons peer peers ih =>
      simp only [appendPeers, ih, Message.writeAll, List.flatMap_cons, List.cons_append,
        List.nil_append, List.foldlM_cons]

/-- The test before the loop makes no difference. -/
theorem appendPeerlist_eq (hlt : peers.length < 2 ^ 32) :
    appendPeerlist A msg peers = msg.writeAll A (peerlistParts peers) := by
  rw [appendPeerlist, peerlistParts, Message.writeAll, List.foldlM_cons]
  congr 1
  funext msg
  split
  · exact appendPeers_eq msg peers
  · next hzero =>
      have hnil : peers = [] := by
        rw [gt_iff_lt, UInt32.lt_iff_toNat_lt, UInt32.toNat_ofNat', Nat.mod_eq_of_lt hlt] at hzero
        exact List.length_eq_zero_iff.mp (Nat.eq_zero_of_not_pos hzero)
      subst hnil
      rfl

theorem length_peerlistParts (peers : List PeerInformation) :
    ∀ data ∈ peerlistParts peers, data.length < 2 ^ 32 := by
  intro data hdata
  rcases List.mem_cons.mp hdata with rfl | hdata
  · rw [Message.length_word]
    decide
  · obtain ⟨peer, -, hdata⟩ := List.mem_flatMap.mp hdata
    rcases List.mem_pair.mp hdata with rfl | rfl
    · rw [Message.length_word]
      decide
    · rw [SockAddr.length_bytes]
      decide

/-- There is room for the list, or room can be made. -/
def PeerlistWritable (A : Allocator) (msg : Message) (peers : List PeerInformation) : Prop :=
  msg.sizes.WritableAll A ((peerlistParts peers).map List.length)

theorem appendPeerlist_iff (hwf : msg.WellFormed) (sent : PeerTable) :
    (∃ msg', appendPeerlist A msg sent.peers = .ok msg' ∧
      msg.Appended (peerlist sent.peers) msg') ↔ PeerlistWritable A msg sent.peers := by
  rw [appendPeerlist_eq sent.length_lt, ← flatten_peerlistParts]
  exact Message.writeAll_iff _ hwf (length_peerlistParts sent.peers)

end Append

/-! ## What is read -/

/-- The bytes of one peer in a list. -/
def record (peer : PeerInformation) : List UInt8 := Message.word peer.id ++ peer.addr.bytes

theorem length_record (peer : PeerInformation) : (record peer).length = 132 := by
  rw [record, List.length_append, Message.length_word, SockAddr.length_bytes]

theorem length_records (peers : List PeerInformation) :
    (peers.flatMap record).length = 132 * peers.length := by
  induction peers with
  | nil => rfl
  | cons peer peers ih =>
      rw [List.flatMap_cons, List.length_append, length_record, ih, List.length_cons]
      omega

theorem SockAddr.assign_bytes (addr : SockAddr) : SockAddr.assign addr.bytes = .ok addr := by
  rw [assign, dif_pos addr.length_bytes, ofBytes_bytes]

theorem SockAddr.assign_eq_ok {out : List UInt8} (h : out.length = 128) :
    SockAddr.assign out = .ok (.ofBytes out h) := dif_pos h

section Read

variable {msg msg' : Message} {known table : List PeerInformation} {rest : List UInt8}

/-- The four ways through the body of the loop, by the bytes that there are and the id at their
front. -/
theorem readPeerFrom_cases (hwf : msg.WellFormed) (known : List PeerInformation) :
    (msg.bytes.length < 4 ∧ readPeerFrom msg known = .error .uninitialised) ∨
    (4 ≤ msg.bytes.length ∧ hashFind known (Message.ofWord (msg.bytes.take 4)) ≠ none ∧
      ∃ msg', msg.Consumed 4 msg' ∧ readPeerFrom msg known = .ok (msg', known)) ∨
    (4 ≤ msg.bytes.length ∧ msg.bytes.length < 132 ∧
      hashFind known (Message.ofWord (msg.bytes.take 4)) = none ∧
      ∃ msg', msg.Consumed 4 msg' ∧ readPeerFrom msg known =
        .ok (msg', known ++ [⟨Message.ofWord (msg.bytes.take 4), none, .zero⟩])) ∨
    (132 ≤ msg.bytes.length ∧ hashFind known (Message.ofWord (msg.bytes.take 4)) = none ∧
      ∃ msg' addr, msg.Consumed 132 msg' ∧
        SockAddr.assign ((msg.bytes.drop 4).take 128) = .ok addr ∧ readPeerFrom msg known =
          .ok (msg', known ++ [⟨Message.ofWord (msg.bytes.take 4), none, addr⟩])) := by
  by_cases h4 : 4 ≤ msg.bytes.length
  · obtain ⟨msg₁, hread, hmsg₁⟩ := Message.readPrefix hwf h4
    have hlength : msg₁.bytes.length = msg.bytes.length - 4 := by
      rw [hmsg₁.bytes, List.length_drop]
    cases hfind : hashFind known (Message.ofWord (msg.bytes.take 4)) with
    | some s =>
        refine .inr (.inl ⟨h4, by simp, msg₁, hmsg₁, ?_⟩)
        simp [readPeerFrom, hread, hfind, bind, Except.bind, pure, Except.pure]
    | none =>
        by_cases h132 : 132 ≤ msg.bytes.length
        · obtain ⟨msg₂, hread₂, hmsg₂⟩ : ∃ msg₂,
              msg₁.read 128 = .ok (some (msg₁.bytes.take 128, msg₂)) ∧ msg₁.Consumed 128 msg₂ :=
            Message.read_of_le hmsg₁.wellFormed (by rw [hlength]; simp; omega) (by decide)
          obtain ⟨addr, hassign⟩ : ∃ addr, SockAddr.assign (msg₁.bytes.take 128) = .ok addr :=
            ⟨_, SockAddr.assign_eq_ok (List.length_take_of_le (by omega))⟩
          refine .inr (.inr (.inr ⟨h132, rfl, msg₂, addr, hmsg₁.trans hmsg₂, ?_, ?_⟩))
          · rw [← hmsg₁.bytes]
            exact hassign
          · simp [readPeerFrom, hread, hfind, hread₂, hassign, initializePeer, bind, Except.bind,
              pure, Except.pure]
        · have hshort : msg₁.read 128 = .ok none :=
            Message.read_of_short hmsg₁.wellFormed (by rw [hlength]; simp; omega)
          refine .inr (.inr (.inl ⟨h4, not_le.mp h132, rfl, msg₁, hmsg₁, ?_⟩))
          simp [readPeerFrom, hread, hfind, hshort, initializePeer, bind, Except.bind, pure,
            Except.pure]
  · have hshort : msg.read 4 = .ok none := Message.read_of_short hwf (not_le.mp h4)
    refine .inl ⟨not_le.mp h4, ?_⟩
    simp [readPeerFrom, hshort, bind, Except.bind, throw, throwThe, MonadExceptOf.throw]

theorem front_record {peer : PeerInformation} (hbytes : msg.bytes = record peer ++ rest) :
    132 ≤ msg.bytes.length ∧ Message.ofWord (msg.bytes.take 4) = peer.id ∧
      (msg.bytes.drop 4).take 128 = peer.addr.bytes ∧ msg.bytes.drop 132 = rest := by
  have hword : msg.bytes = Message.word peer.id ++ (peer.addr.bytes ++ rest) := by
    rw [hbytes, record, List.append_assoc]
  refine ⟨?_, ?_, ?_, ?_⟩
  · rw [hbytes, List.length_append, length_record]
    exact Nat.le_add_right _ _
  · rw [hword, List.take_left' (Message.length_word _), Message.ofWord_word]
  · rw [hword, List.drop_left' (Message.length_word _), List.take_left' peer.addr.length_bytes]
  · rw [hbytes, List.drop_left' (length_record peer)]

theorem readPeerFrom_new (hwf : msg.WellFormed) {peer : PeerInformation}
    (hbytes : msg.bytes = record peer ++ rest) (hnew : hashFind known peer.id = none) :
    ∃ msg', readPeerFrom msg known = .ok (msg', known ++ [peer.listed]) ∧ msg'.WellFormed ∧
      msg'.bytes = rest := by
  obtain ⟨hlength, hid, haddr, hrest⟩ := front_record hbytes
  rcases readPeerFrom_cases hwf known with ⟨hlt, -⟩ | ⟨-, hfind, -⟩ | ⟨-, hlt, -⟩ |
    ⟨-, -, msg', addr, hmsg', hassign, hread⟩
  · omega
  · exact absurd hnew (hid ▸ hfind)
  · omega
  · rw [haddr, SockAddr.assign_bytes] at hassign
    cases hassign
    exact ⟨msg', by rw [hread, hid]; rfl, hmsg'.wellFormed, hmsg'.bytes.trans hrest⟩

/-- Of a peer that is known only the id is read. -/
theorem readPeerFrom_known (hwf : msg.WellFormed) {peer : PeerInformation}
    (hbytes : msg.bytes = record peer ++ rest) (hknown : hashFind known peer.id ≠ none) :
    ∃ msg', readPeerFrom msg known = .ok (msg', known) ∧ msg'.WellFormed ∧
      msg'.bytes = peer.addr.bytes ++ rest := by
  obtain ⟨hlength, hid, -, -⟩ := front_record hbytes
  rcases readPeerFrom_cases hwf known with ⟨hlt, -⟩ | ⟨-, -, msg', hmsg', hread⟩ |
    ⟨-, -, hfind, -⟩ | ⟨-, hfind, -⟩
  · omega
  · refine ⟨msg', hread, hmsg'.wellFormed, ?_⟩
    rw [hmsg'.bytes, hbytes, record, List.append_assoc, List.drop_left' (Message.length_word _)]
  · exact absurd (hid ▸ hfind) hknown
  · exact absurd (hid ▸ hfind) hknown

theorem readPeerFrom_le (hwf : msg.WellFormed)
    (hread : readPeerFrom msg known = .ok (msg', table)) :
    msg'.WellFormed ∧ msg.bytes.length ≤ msg'.bytes.length + 132 := by
  have hconsumed : ∀ {size msg₁ table₁}, readPeerFrom msg known = .ok (msg₁, table₁) →
      msg.Consumed size msg₁ → size ≤ 132 →
        msg'.WellFormed ∧ msg.bytes.length ≤ msg'.bytes.length + 132 := by
    intro size msg₁ table₁ hread₁ hmsg₁ hsize
    cases hread.symm.trans hread₁
    refine ⟨hmsg₁.wellFormed, ?_⟩
    rw [hmsg₁.bytes, List.length_drop]
    omega
  rcases readPeerFrom_cases hwf known with ⟨-, herror⟩ | ⟨-, -, msg₁, hmsg₁, hread₁⟩ |
    ⟨-, -, -, msg₁, hmsg₁, hread₁⟩ | ⟨-, -, msg₁, addr, hmsg₁, -, hread₁⟩
  · cases hread.symm.trans herror
  · exact hconsumed hread₁ hmsg₁ (by decide)
  · exact hconsumed hread₁ hmsg₁ (by decide)
  · exact hconsumed hread₁ hmsg₁ le_rfl

theorem readPeersFrom_succ {n : ℕ} :
    readPeersFrom (n + 1) msg known = .ok (msg', table) ↔
      ∃ msg₁ table₁, readPeerFrom msg known = .ok (msg₁, table₁) ∧
        readPeersFrom n msg₁ table₁ = .ok (msg', table) := by
  rw [readPeersFrom, Fault.bind_eq_ok]
  simp

/-- However the records lie, one turn of the loop reads no more than one record. -/
theorem readPeersFrom_le {n : ℕ} (hwf : msg.WellFormed)
    (hread : readPeersFrom n msg known = .ok (msg', table)) :
    msg.bytes.length ≤ msg'.bytes.length + 132 * n := by
  induction n generalizing msg known with
  | zero =>
      cases hread
      exact Nat.le_add_right _ _
  | succ n ih =>
      obtain ⟨msg₁, table₁, hfirst, hrest⟩ := readPeersFrom_succ.mp hread
      obtain ⟨hwf₁, hle⟩ := readPeerFrom_le hwf hfirst
      have hmore := ih hwf₁ hrest
      omega

/-- The loop on the records of peers that are all new. -/
theorem readPeersFrom_new {sent : List PeerInformation} (hwf : msg.WellFormed)
    (hbytes : msg.bytes = sent.flatMap record ++ rest)
    (hnodup : (sent.map PeerInformation.id).Nodup)
    (hnew : ∀ s ∈ sent, hashFind known s.id = none) :
    ∃ msg', readPeersFrom sent.length msg known =
        .ok (msg', known ++ sent.map PeerInformation.listed) ∧
      msg'.WellFormed ∧ msg'.bytes = rest := by
  induction sent generalizing msg known with
  | nil => exact ⟨msg, by simp [readPeersFrom], hwf, by simpa using hbytes⟩
  | cons peer sent ih =>
      rw [List.flatMap_cons, List.append_assoc] at hbytes
      rw [List.map_cons, List.nodup_cons] at hnodup
      rw [List.forall_mem_cons] at hnew
      obtain ⟨msg₁, hfirst, hwf₁, hbytes₁⟩ := readPeerFrom_new hwf hbytes hnew.1
      have hstill : ∀ s ∈ sent, hashFind (known ++ [peer.listed]) s.id = none := by
        intro s hs
        rw [hashFind_eq_none]
        intro t ht
        rcases List.mem_append.mp ht with ht | ht
        · exact hashFind_eq_none.mp (hnew.2 s hs) t ht
        · obtain rfl := List.mem_singleton.mp ht
          exact fun heq ↦ hnodup.1 (List.mem_map.mpr ⟨s, hs, heq.symm⟩)
      obtain ⟨msg', hrest, hwf', hbytes'⟩ := ih hwf₁ hbytes₁ hnodup.2 hstill
      refine ⟨msg', readPeersFrom_succ.mpr ⟨msg₁, _, hfirst, ?_⟩, hwf', hbytes'⟩
      rw [hrest, List.map_cons, List.append_assoc, List.singleton_append]

/-- Bytes of the list are left behind if one of its peers is known. -/
theorem lt_readPeersFrom_of_known {sent : List PeerInformation} (hwf : msg.WellFormed)
    (hbytes : msg.bytes = sent.flatMap record ++ rest)
    (hknown : ∃ s ∈ sent, hashFind known s.id ≠ none)
    (hread : readPeersFrom sent.length msg known = .ok (msg', table)) :
    rest.length < msg'.bytes.length := by
  induction sent generalizing msg known with
  | nil => simp at hknown
  | cons peer sent ih =>
      rw [List.flatMap_cons, List.append_assoc] at hbytes
      obtain ⟨msg₁, table₁, hfirst, hrest⟩ := readPeersFrom_succ.mp hread
      by_cases hpeer : hashFind known peer.id = none
      · obtain ⟨msg₂, hfirst₂, hwf₂, hbytes₂⟩ := readPeerFrom_new hwf hbytes hpeer
        cases hfirst.symm.trans hfirst₂
        refine ih hwf₂ hbytes₂ ?_ hrest
        obtain ⟨s, hs, hfind⟩ := hknown
        rcases List.mem_cons.mp hs with rfl | hs
        · exact absurd hpeer hfind
        · refine ⟨s, hs, fun hnone ↦ hfind (hashFind_eq_none.mpr fun t ht ↦ ?_)⟩
          exact hashFind_eq_none.mp hnone t (List.mem_append_left _ ht)
      · -- the address of `peer` is still there for the remaining turns
        obtain ⟨msg₂, hfirst₂, hwf₂, hbytes₂⟩ := readPeerFrom_known hwf hbytes hpeer
        cases hfirst.symm.trans hfirst₂
        have hle := readPeersFrom_le hwf₂ hrest
        rw [hbytes₂, List.length_append, List.length_append, length_records,
          SockAddr.length_bytes] at hle
        omega

/-! ## The bytes alone -/

/-- The loop makes of the table what it makes of it on the bytes of the message. -/
theorem readPeersFrom_table (n : ℕ) (hwf : msg.WellFormed) (known : List PeerInformation) :
    (readPeersFrom n msg known).map Prod.snd = readPeers n msg.bytes known := by
  induction n generalizing msg known with
  | zero => rfl
  | succ n ih =>
      rw [readPeersFrom]
      rcases readPeerFrom_cases hwf known with ⟨hlt, hread⟩ | ⟨hle, hfind, msg₁, hmsg₁, hread⟩ |
        ⟨hle, hlt, hfind, msg₁, hmsg₁, hread⟩ | ⟨hle, hfind, msg₁, addr, hmsg₁, hassign, hread⟩
      · rw [readPeers, readBytes_of_lt hlt, hread]
        rfl
      · obtain ⟨s, hs⟩ := Option.ne_none_iff_exists'.mp hfind
        rw [readPeers, readBytes_of_le hle, hread]
        simp only [hs, bind, Except.bind]
        rw [ih hmsg₁.wellFormed, hmsg₁.bytes]
      · rw [readPeers, readBytes_of_le hle, hread]
        simp only [hfind, bind, Except.bind]
        rw [dif_neg (by rw [List.length_drop]; omega), ih hmsg₁.wellFormed, hmsg₁.bytes]
        rfl
      · have hrest : 128 ≤ (msg.bytes.drop 4).length := by
          rw [List.length_drop]
          omega
        have haddr := SockAddr.assign_eq_ok (List.length_take_of_le hrest)
        cases hassign.symm.trans haddr
        rw [readPeers, readBytes_of_le (by omega), hread]
        simp only [hfind, bind, Except.bind]
        rw [dif_pos hrest, ih hmsg₁.wellFormed, hmsg₁.bytes, List.drop_drop]
        rfl

theorem readPeerlistFrom_table (hwf : msg.WellFormed) (known : List PeerInformation) :
    (readPeerlistFrom msg known).map Prod.snd = readPeerlist msg.bytes known := by
  rw [readPeerlistFrom, readPeerlist]
  by_cases h4 : 4 ≤ msg.bytes.length
  · obtain ⟨msg₁, hread, hmsg₁⟩ := Message.readPrefix hwf h4
    rw [hread, readBytes_of_le h4, ← hmsg₁.bytes]
    exact readPeersFrom_table _ hmsg₁.wellFormed known
  · have hshort : msg.read 4 = .ok none := Message.read_of_short hwf (not_le.mp h4)
    rw [hshort, readBytes_of_lt (not_le.mp h4)]
    rfl

/-! ## The round trip -/

/-- The reader returns with the sent peers that were missing added to the table, without sockets,
and with `rest` left of the message. -/
def RoundTrips (sent known : List PeerInformation) (received : Message) (rest : List UInt8) :
    Prop :=
  ∃ received' added, readPeerlistFrom received known = .ok (received', known ++ added) ∧
    added.Perm ((sent.filter fun s ↦ (hashFind known s.id).isNone).map PeerInformation.listed) ∧
    received'.WellFormed ∧ received'.bytes = rest

theorem readPeerlistFrom_of_peerlist (hwf : msg.WellFormed) (sent : PeerTable)
    (hbytes : msg.bytes = peerlist sent.peers ++ rest) (known : List PeerInformation) :
    ∃ msg₁, readPeerlistFrom msg known = readPeersFrom sent.peers.length msg₁ known ∧
      msg₁.WellFormed ∧ msg₁.bytes = sent.peers.flatMap record ++ rest := by
  have hcount : (UInt32.ofNat sent.peers.length).toNat = sent.peers.length := by
    rw [UInt32.toNat_ofNat', Nat.mod_eq_of_lt sent.length_lt]
  have hword : msg.bytes = Message.word (UInt32.ofNat sent.peers.length) ++
      (sent.peers.flatMap record ++ rest) := by
    rw [hbytes, peerlist, List.append_assoc]
    rfl
  have h4 : 4 ≤ msg.bytes.length := by
    rw [hword, List.length_append, Message.length_word]
    exact Nat.le_add_right _ _
  obtain ⟨msg₁, hread, hmsg₁⟩ := Message.readPrefix hwf h4
  refine ⟨msg₁, ?_, hmsg₁.wellFormed, ?_⟩
  · rw [hword, List.take_left' (Message.length_word _)] at hread
    rw [readPeerlistFrom, hread]
    simp only [bind, Except.bind, Message.ofWord_word, hcount]
  · rw [hmsg₁.bytes, hword, List.drop_left' (Message.length_word _)]

/-- What a list does to a table that has none of its peers, and what it cannot do to any other. -/
theorem roundTrips_iff (hwf : msg.WellFormed) (sent : PeerTable)
    (hbytes : msg.bytes = peerlist sent.peers ++ rest) :
    RoundTrips sent.peers known msg rest ↔ ∀ s ∈ sent.peers, hashFind known s.id = none := by
  obtain ⟨msg₁, hread, hwf₁, hbytes₁⟩ :=
    readPeerlistFrom_of_peerlist hwf sent hbytes known
  rw [RoundTrips, hread]
  constructor
  · rintro ⟨msg', added, hloop, -, -, hrest⟩
    by_contra hknown
    push Not at hknown
    have hlt := lt_readPeersFrom_of_known hwf₁ hbytes₁ hknown hloop
    rw [hrest] at hlt
    exact lt_irrefl _ hlt
  · intro hnew
    obtain ⟨msg', hloop, hwf', hrest⟩ := readPeersFrom_new hwf₁ hbytes₁ sent.nodup hnew
    have hall : (sent.peers.filter fun s ↦ (hashFind known s.id).isNone) = sent.peers :=
      List.filter_eq_self.mpr fun s hs ↦ by rw [hnew s hs]; rfl
    exact ⟨msg', _, hloop, by rw [hall], hwf', hrest⟩

end Read

/-- A list that can be written is read back into another table if and only if the table has none
of its peers: then exactly they are added, and exactly the bytes of the list are read. -/
theorem peerlist_round_trip_iff {A : Allocator} {msg : Message} (hwf : msg.WellFormed)
    (sent : PeerTable) (hroom : PeerlistWritable A msg sent.peers) :
    ∃ msg' written, appendPeerlist A msg sent.peers = .ok msg' ∧ msg'.WellFormed ∧
      msg'.bytes = msg.bytes ++ written ∧
      ∀ known received rest, received.WellFormed → received.bytes = written ++ rest →
        (RoundTrips sent.peers known received rest ↔
          ∀ s ∈ sent.peers, hashFind known s.id = none) := by
  obtain ⟨msg', hwrite, happended⟩ := (appendPeerlist_iff hwf sent).mpr hroom
  exact ⟨msg', peerlist sent.peers, hwrite, happended.wellFormed, happended.bytes,
    fun known received rest hreceived hbytes ↦ roundTrips_iff hreceived sent hbytes⟩

/-- The response to a joining node, as `edsm_message_create` makes it. -/
def initResponse : Message where
  buffer := List.replicate 200 0
  data := 0
  bufferSize := 200
  headSize := 0
  dataSize := 0
  tailSize := 200

def twoPeers (fd fd' : Fd) : PeerTable where
  peers := [⟨2, some fd, .zero⟩, ⟨3, some fd', .zero⟩]
  nodup := by simp
  length_lt := by simp

theorem initResponse_wellFormed : initResponse.WellFormed where
  sizes := rfl
  buffer := rfl
  data := rfl

theorem initResponse_bytes : initResponse.bytes = [] := rfl

/-- The last address does not fit in the 200 bytes. -/
theorem twoPeers_writable (fd fd' : Fd) :
    PeerlistWritable Allocator.zeroed initResponse (twoPeers fd fd').peers := by
  have hlengths : (peerlistParts (twoPeers fd fd').peers).map List.length =
      [4, 4, 128, 4, 128] := by
    simp [peerlistParts, twoPeers]
  have hfits : ∀ {s : Sizes} {n : ℕ}, n < 2 ^ 31 → n ≤ s.tailSize →
      s.Writable Allocator.zeroed n :=
    fun hint hroom ↦ ⟨hint, fun hfull ↦ by omega, by rwa [Sizes.grown_of_room hroom]⟩
  rw [PeerlistWritable, hlengths]
  change Sizes.WritableAll Allocator.zeroed ⟨0, 0, 200⟩ _
  exact ⟨hfits (by decide) (by decide), hfits (by decide) (by decide),
    hfits (by decide) (by decide), hfits (by decide) (by decide),
    ⟨by decide, fun _ ↦ ⟨rfl, by decide, by decide⟩, by decide⟩, trivial⟩

theorem ofBytes_bytes {written : List UInt8} {msg : Message} (hwf : msg.WellFormed)
    (hbytes : msg.bytes = written) : (Message.ofBytes written).WellFormed ∧
      (Message.ofBytes written).bytes = written := by
  have hlt : written.length < 2 ^ 32 := by
    rw [← hbytes, hwf.length_bytes]
    exact msg.dataSize.toNat_lt
  have hl := Message.layout_ofBytes hlt
  exact ⟨hl.wellFormed, hl.bytes_eq⟩

/-- Both ways round for two peers: a node without peers, and one that knows the first of them. -/
theorem peerlist_round_trip_two : ∃ written,
    RoundTrips (twoPeers 5 6).peers [] (Message.ofBytes written) [] ∧
      ¬ RoundTrips (twoPeers 5 6).peers [⟨2, none, .zero⟩] (Message.ofBytes written) [] := by
  obtain ⟨msg', written, -, hwf', hbytes', hread⟩ :=
    peerlist_round_trip_iff initResponse_wellFormed (twoPeers 5 6) (twoPeers_writable 5 6)
  rw [initResponse_bytes, List.nil_append] at hbytes'
  obtain ⟨hwf, hbytes⟩ := ofBytes_bytes hwf' hbytes'
  have hreceived : (Message.ofBytes written).bytes = written ++ [] := by
    rw [hbytes, List.append_nil]
  refine ⟨written, (hread [] _ [] hwf hreceived).mpr fun s _ ↦ rfl, fun htrips ↦ ?_⟩
  have hnew := (hread _ _ [] hwf hreceived).mp htrips ⟨2, some 5, .zero⟩ List.mem_cons_self
  exact absurd hnew (by decide)

/-- The first of two sent peers is known: its address is read as the second record. -/
theorem not_roundTrips_of_known_peer :
    ¬ ∀ (A : Allocator) (msg msg' : Message) (sent : PeerTable) (written : List UInt8)
      (known : List PeerInformation) (received : Message) (rest : List UInt8),
      msg.WellFormed → appendPeerlist A msg sent.peers = .ok msg' →
      msg'.bytes = msg.bytes ++ written → received.WellFormed →
      received.bytes = written ++ rest → RoundTrips sent.peers known received rest := by
  intro h
  obtain ⟨msg', hwrite, happended⟩ :=
    (appendPeerlist_iff initResponse_wellFormed (twoPeers 5 6)).mpr (twoPeers_writable 5 6)
  obtain ⟨hwf, hbytes⟩ := ofBytes_bytes happended.wellFormed happended.bytes
  have hreceived : (Message.ofBytes (peerlist (twoPeers 5 6).peers)).bytes =
      peerlist (twoPeers 5 6).peers ++ [] := by
    rw [List.append_nil]
    exact hbytes
  have htrips := h _ _ _ _ _ [⟨2, none, .zero⟩] _ [] initResponse_wellFormed hwrite
    happended.bytes hwf hreceived
  have hnew := (roundTrips_iff hwf (twoPeers 5 6) hreceived).mp htrips ⟨2, some 5, .zero⟩
    List.mem_cons_self
  exact absurd hnew (by decide)

end Edsm.Proto
