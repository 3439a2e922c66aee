import Edsm.Proto.Mesh

/-!
# A join from its first connection to its last

The first connection brings the list of the members; from then on every call of
`peer_connect` links the joiner to one more of them.
-/

namespace Edsm.Proto

variable {N : Type*} [DecidableEq N]

namespace World

/-- The world in which `j` has its new id and the list of the peers of `m`, to which it has not
connected yet. -/
def enter (w : World N) (j m : N) (newId : UInt32) (addr : SockAddr) : World N :=
  w.setMember j
    ⟨newId, (w.member m).peers.map PeerInformation.listed ++ [⟨(w.member m).myId, none, addr⟩]⟩

variable {net : Network N} {sockets : Sockets N} {w : World N} {nodes todo : List N} {j m p q : N}
variable {s : PeerInformation} {newId : UInt32} {addr : SockAddr}

theorem enter_member_self : (w.enter j m newId addr).member j =
    ⟨newId, (w.member m).peers.map PeerInformation.listed ++ [⟨(w.member m).myId, none, addr⟩]⟩ :=
  setMember_member_self _ _ _

theorem enter_member_of_ne (h : p ≠ j) : (w.enter j m newId addr).member p = w.member p :=
  setMember_member_of_ne _ _ h

/-! ## One connection -/

theorem setMember_eq_self (w : World N) (p : N) : w.setMember p (w.member p) = w := by
  simp [setMember]

/-- What `handle_new_connection` at `q` does when the id under which it enters the peer is new. -/
theorem handleNewConnection_eq (sockets : Sockets N) {localId : UInt32}
    {peers : List PeerInformation} (myId : UInt32) (port : UInt16)
    (hmember : w.member q = ⟨localId, peers⟩)
    (hnew : ∀ t ∈ peers, t.id ≠ acceptedId localId peers myId) :
    handleNewConnection sockets w q (msgTypeProtoInit, initMessage myId port) =
      .ok (Message.word localId ++
          (if myId = 0 then Message.word (getNextPeerId localId peers) ++ peerlist peers else []),
        w.setMember q ⟨localId, peers ++ [⟨acceptedId localId peers myId,
          some (sockets.acceptorFd q), (sockets.remoteAddr q).setPort port⟩]⟩) := by
  simp only [handleNewConnection, hmember, readAndHandleInitMessage_spec, hashFind_eq_none.mpr hnew]

theorem peerConnect_eq (listed : Bool) {w₁ w₂ : World N} {response : List UInt8} {myId : UInt32}
    {s' : PeerInformation} {peers : List PeerInformation} (hreach : net.reaches s.addr = some q)
    (hw₁ : (if listed then w.setPeer j { s with sockFd := some (sockets.dialerFd q) }
      else w).addConnection ⟨j, sockets.dialerFd q, q, sockets.acceptorFd q⟩ = w₁)
    (hhandle : handleNewConnection sockets w₁ q
      (msgTypeProtoInit, initMessage (w₁.member j).myId (net.listenPort j)) = .ok (response, w₂))
    (hresponse : readAndHandleInitResponse (w₂.member j).myId
      { s with sockFd := some (sockets.dialerFd q) } (w₂.member j).peers
      (msgTypeProtoInit, response) = .ok (some (myId, s', peers)))
    (hkey : listed = true → s'.id = s.id) (fuel : ℕ) :
    peerConnect net sockets (fuel + 1) w j s listed =
      connectToNewPeers net sockets fuel (w₂.setMember j ⟨myId, peers⟩) j 0 := by
  simp only [peerConnect, hreach, hw₁, hhandle, hresponse]
  rw [if_neg fun h ↦ h.2 (hkey h.1)]

/-- A call for a listed peer links the two nodes and goes on with the table. -/
theorem peerConnect_listed {unlinked : N → N → Prop} (h : Tables net w nodes unlinked)
    (hj : j ∈ nodes) (hq : q ∈ nodes) (htodo : Todo net sockets w j q)
    (hs : s ∈ (w.member j).peers) (hsid : s.id = (w.member q).myId)
    (hreach : net.reaches s.addr = some q) (fuel : ℕ) :
    peerConnect net sockets (fuel + 1) w j s true =
      connectToNewPeers net sockets fuel (w.link net sockets j q s) j 0 := by
  have hmyId := h.myId_ne_zero hj
  have hid : acceptedId (w.member q).myId (w.member q).peers (w.member j).myId =
      (w.member j).myId := if_neg hmyId
  obtain ⟨w₁, hw₁⟩ : ∃ w₁, (w.setPeer j { s with
      sockFd := some (sockets.dialerFd q) }).addConnection
        ⟨j, sockets.dialerFd q, q, sockets.acceptorFd q⟩ = w₁ := ⟨_, rfl⟩
  have hmember : w₁.member q = ⟨(w.member q).myId, (w.member q).peers⟩ := by
    rw [← hw₁]
    exact setMember_member_of_ne _ _ htodo.ne
  have hmyId₁ : (w₁.member j).myId = (w.member j).myId := by
    rw [← hw₁]
    simp [addConnection, setPeer]
  have hhandle := handleNewConnection_eq sockets _ (net.listenPort j) hmember
    (fun t ht ↦ hid ▸ htodo.absent t ht)
  rw [hid, if_neg hmyId, List.append_nil] at hhandle
  have hlink : w₁.setMember q ⟨(w.member q).myId, (w.member q).peers ++ [⟨(w.member j).myId,
      some (sockets.acceptorFd q), (sockets.remoteAddr q).setPort (net.listenPort j)⟩]⟩ =
      w.link net sockets j q s := by
    rw [← hw₁]
    rfl
  have hresponse := readAndHandleInitResponse_listed (w.member j).myId
    { s with sockFd := some (sockets.dialerFd q) } ((w.link net sockets j q s).member j).peers
    (h.myId_ne_zero hq) hmyId (by
      rw [link_member_dialer htodo.ne]
      exact ⟨_, List.mem_map.mpr ⟨s, hs, if_pos rfl⟩, hsid⟩)
  rw [hlink] at hhandle
  rw [peerConnect_eq true hreach hw₁ (by rw [hmyId₁]; exact hhandle)
    (by rw [link_myId]; exact hresponse) (fun _ ↦ hsid.symm)]
  congr 1
  conv_rhs => rw [← setMember_eq_self (w.link net sockets j q s) j]
  congr 1
  rw [← link_myId (q := q) (s := s) net sockets j]

/-! ## The first connection -/

/-- All pairs are linked. -/
abbrev Complete (net : Network N) (w : World N) (nodes : List N) : Prop :=
  Tables net w nodes fun _ _ ↦ False

/-- The id that the next node gets. -/
def nextId (nodes : List N) : UInt32 := UInt32.ofNat (nodes.length + 1)

theorem Tables.ne_nextId {unlinked : N → N → Prop} (h : Tables net w nodes unlinked)
    (hlt : nodes.length + 1 < 2 ^ 32) (hp : p ∈ nodes) : (w.member p).myId ≠ nextId nodes := by
  intro heq
  have hle := (h.myId_pos hp).2
  rw [heq, nextId, UInt32.toNat_ofNat', Nat.mod_eq_of_lt hlt] at hle
  omega

theorem Complete.sockFd_isSome (h : Complete net w nodes) (hp : p ∈ nodes)
    (hs : s ∈ (w.member p).peers) : s.sockFd.isSome = true := by
  obtain ⟨q, hq, hne, hsid, -⟩ := h.known p hp s hs
  obtain ⟨s', hs', -, -, fd, -, hsid', hfd, -⟩ := h.linked p hp q hq hne.symm id id
  rw [h.eq_of_id hp hs hs' (hsid.trans hsid'.symm), hfd]
  rfl

theorem Complete.length_peers_le (h : Complete net w nodes) (hp : p ∈ nodes) :
    (w.member p).peers.length ≤ 2 ^ 31 := by
  rw [← List.filterMap_length_eq_length.mpr fun s hs ↦ h.sockFd_isSome hp hs]
  simpa using (h.nodupFds p hp).length_le_card

theorem Complete.length_le (h : Complete net w nodes) (hp : p ∈ nodes) :
    nodes.length ≤ 2 ^ 31 + 1 := by
  have hfds := h.length_peers_le hp
  have hids : (nodes.map fun q ↦ (w.member q).myId) ⊆
      (w.member p).myId :: (w.member p).peers.map PeerInformation.id := by
    intro id hid
    obtain ⟨q, hq, rfl⟩ := List.mem_map.mp hid
    by_cases hqp : q = p
    · subst hqp
      exact List.mem_cons_self
    · obtain ⟨s, hs, -, -, -, -, hsid, -⟩ := h.linked p hp q hq (Ne.symm hqp) id id
      exact List.mem_cons_of_mem _ (hsid ▸ List.mem_map_of_mem hs)
  have hnodup : (nodes.map fun q ↦ (w.member q).myId).Nodup :=
    List.Nodup.map_on (fun a ha b hb heq ↦ h.myId_inj ha hb heq) h.nodup
  have hle := (hnodup.subperm hids).length_le
  simp only [List.length_map, List.length_cons] at hle
  omega

theorem Complete.getNextPeerId_eq (h : Complete net w nodes) (hm : m ∈ nodes)
    (hlt : nodes.length + 1 < 2 ^ 32) :
    getNextPeerId (w.member m).myId (w.member m).peers = nextId nodes := by
  have hnat : (UInt32.ofNat nodes.length).toNat = nodes.length := by
    rw [UInt32.toNat_ofNat', Nat.mod_eq_of_lt (by omega)]
  have hle : ∀ p ∈ nodes, (w.member p).myId ≤ UInt32.ofNat nodes.length := fun p hp ↦ by
    rw [UInt32.le_iff_toNat_le, hnat]
    exact (h.myId_pos hp).2
  rw [nextId, UInt32.ofNat_add]
  refine Proto.getNextPeerId_eq (fun s hs ↦ ?_) (hle m hm) ?_
  · obtain ⟨q, hq, -, hsid, -⟩ := h.known m hm s hs
    exact hsid ▸ hle q hq
  · have hpos := List.length_pos_of_mem hm
    have hlast : nodes.length ∈ nodes.map fun p ↦ (w.member p).myId.toNat := by
      rw [h.ids, List.mem_range'_1]
      omega
    obtain ⟨q, hq, hqid⟩ := List.mem_map.mp hlast
    have hqid' : (w.member q).myId = UInt32.ofNat nodes.length :=
      UInt32.toNat_inj.mp (hqid.trans hnat.symm)
    by_cases hqm : q = m
    · exact .inl (hqm ▸ hqid')
    · obtain ⟨s, hs, -, -, -, -, hsid, -⟩ := h.linked m hm q hq (Ne.symm hqm) id id
      exact .inr ⟨s, hs, hsid.trans hqid'⟩

/-- It does not matter that the joiner takes the list before it is linked to `m` here. -/
theorem link_enter {w₁ : World N} (hne : m ≠ j)
    (hids : ∀ t ∈ (w.member m).peers, t.id ≠ (w.member m).myId)
    (hw₁ : ∀ p, p ≠ j → w₁.member p = w.member p) (hmembers : w₁.members = w.members)
    (hconnections : w₁.connections =
      w.connections ++ [⟨j, sockets.dialerFd m, m, sockets.acceptorFd m⟩]) :
    (w₁.setMember m ⟨(w.member m).myId, (w.member m).peers ++ [⟨newId,
        some (sockets.acceptorFd m), (sockets.remoteAddr m).setPort (net.listenPort j)⟩]⟩).setMember
      j ⟨newId, (w.member m).peers.map PeerInformation.listed ++
        [⟨(w.member m).myId, some (sockets.dialerFd m), addr⟩]⟩ =
      (w.enter j m newId addr).link net sockets j m ⟨(w.member m).myId, none, addr⟩ := by
  apply World.ext
  · funext p
    by_cases hpj : p = j
    · subst hpj
      have hother : ∀ t ∈ (w.member m).peers.map PeerInformation.listed ++ [],
          t.id ≠ (⟨(w.member m).myId, none, addr⟩ : PeerInformation).id := by
        intro t ht
        rw [List.append_nil] at ht
        obtain ⟨t', ht', rfl⟩ := List.mem_map.mp ht
        exact hids t' ht'
      rw [setMember_member_self, link_member_dialer hne, enter_member_self, map_setPeer hother]
    · rw [setMember_member_of_ne _ _ hpj]
      by_cases hpm : p = m
      · subst hpm
        rw [setMember_member_self, link_member_acceptor, enter_member_of_ne hpj, acceptedPeer,
          enter_member_self]
      · rw [setMember_member_of_ne _ _ hpm, link_member_of_ne hpj hpm, enter_member_of_ne hpj,
          hw₁ p hpj]
  · exact hconnections
  · exact hmembers

/-- The first call of `peer_connect` enters the members into the table of the joiner and links it
to the member that it has called. -/
theorem groupJoin_eq (h : Complete net w nodes) (hj : j ∉ nodes) (hfresh : (w.member j).peers = [])
    (hm : m ∈ nodes) (haddr : net.reaches addr = some m) (hlt : nodes.length + 1 < 2 ^ 32)
    (fuel : ℕ) :
    groupJoin net sockets (fuel + 1) w j addr = connectToNewPeers net sockets fuel
      ((w.enter j m (nextId nodes) addr).link net sockets j m ⟨(w.member m).myId, none, addr⟩)
      j 0 := by
  have hne : m ≠ j := fun heq ↦ hj (heq ▸ hm)
  have hnext := h.getNextPeerId_eq hm hlt
  have hid : acceptedId (w.member m).myId (w.member m).peers 0 = nextId nodes := hnext
  obtain ⟨w₁, hw₁⟩ : ∃ w₁, (w.setMember j { w.member j with myId := 0 }).addConnection
      ⟨j, sockets.dialerFd m, m, sockets.acceptorFd m⟩ = w₁ := ⟨_, rfl⟩
  have hmember : w₁.member m = ⟨(w.member m).myId, (w.member m).peers⟩ := by
    rw [← hw₁]
    exact setMember_member_of_ne _ _ hne
  have hmember₁ : w₁.member j = ⟨0, []⟩ := by
    rw [← hw₁, ← hfresh]
    exact setMember_member_self _ _ _
  have hhandle := handleNewConnection_eq sockets 0 (net.listenPort j)
    hmember (fun t ht ↦ by
      obtain ⟨q, hq, -, htid, -⟩ := h.known m hm t ht
      rw [hid, htid]
      exact h.ne_nextId hlt hq)
  rw [hid, hnext, if_pos rfl] at hhandle
  have hlength : (w.member m).peers.length < 2 ^ 32 :=
    (h.length_peers_le hm).trans_lt (by decide)
  have hresponse := readAndHandleInitResponse_new (nextId nodes)
    ⟨0, some (sockets.dialerFd m), addr⟩ [] (h.myId_ne_zero hm) hlength (h.nodupIds m hm)
    (fun t ht ↦ by
      obtain ⟨q, hq, hqm, htid, -⟩ := h.known m hm t ht
      rw [htid]
      exact fun heq ↦ hqm (h.myId_inj hq hm heq))
  have hconnect := peerConnect_eq (w := w.setMember j { w.member j with myId := 0 })
    (s := ⟨0, none, addr⟩) false haddr hw₁ (by rw [hmember₁]; exact hhandle)
    (by rw [setMember_member_of_ne _ _ hne.symm, hmember₁]; exact hresponse)
    (fun h ↦ by cases h) fuel
  refine hconnect.trans ?_
  congr 1
  refine link_enter hne (fun t ht ↦ ?_) (fun p hp ↦ ?_) (by rw [← hw₁]; rfl) (by rw [← hw₁]; rfl)
  · obtain ⟨q, hq, hqm, htid, -⟩ := h.known m hm t ht
    rw [htid]
    exact fun heq ↦ hqm (h.myId_inj hq hm heq)
  · rw [← hw₁]
    exact setMember_member_of_ne _ _ hp

theorem mem_enter {t : PeerInformation} :
    t ∈ ((w.enter j m newId addr).member j).peers ↔
      (∃ s ∈ (w.member m).peers, s.listed = t) ∨ t = ⟨(w.member m).myId, none, addr⟩ := by
  rw [enter_member_self, List.mem_append, List.mem_map, List.mem_singleton]

/-- The joiner lists all members and is linked to none. -/
theorem Complete.enter (h : Complete net w nodes) (hj : j ∉ nodes) (hm : m ∈ nodes)
    (haddr : net.reaches addr = some m) (hlt : nodes.length + 1 < 2 ^ 32) :
    Tables net (w.enter j m (nextId nodes) addr) (nodes ++ [j]) fun a b ↦ a = j ∧ b ∈ nodes := by
  have hne : ∀ p ∈ nodes, p ≠ j := fun p hp heq ↦ hj (heq ▸ hp)
  have hkeep : ∀ p ∈ nodes, (w.enter j m (nextId nodes) addr).member p = w.member p :=
    fun p hp ↦ enter_member_of_ne (hne p hp)
  have hcases : ∀ p ∈ nodes ++ [j], p ∈ nodes ∨ p = j := fun p hp ↦ by simpa using hp
  refine ⟨?_, ?_, fun p hp ↦ ?_, fun p hp ↦ ?_, fun p hp t ht ↦ ?_, fun c hc ↦ ?_,
    fun a ha b hb hab hua hub ↦ ?_⟩
  · exact List.nodup_append.mpr ⟨h.nodup, List.nodup_singleton j,
      fun a ha b hb ↦ List.mem_singleton.mp hb ▸ hne a ha⟩
  · rw [List.map_append, List.map_congr_left fun p hp ↦ by rw [hkeep p hp], h.ids,
      List.length_append, List.length_singleton, List.range'_1_concat]
    rw [List.map_singleton, enter_member_self, nextId, UInt32.toNat_ofNat', Nat.mod_eq_of_lt hlt,
      Nat.add_comm]
  · rcases hcases p hp with hp | rfl
    · rw [hkeep p hp]
      exact h.nodupIds p hp
    · rw [enter_member_self, List.map_append, List.map_map]
      refine List.nodup_append.mpr ⟨h.nodupIds m hm, List.nodup_singleton _, ?_⟩
      intro id hid id' hid' heq
      obtain ⟨t, ht, rfl⟩ := List.mem_map.mp hid
      obtain rfl := List.mem_singleton.mp hid'
      obtain ⟨q, hq, hqm, htid, -⟩ := h.known m hm t ht
      exact hqm (h.myId_inj hq hm (htid.symm.trans heq))
  · rcases hcases p hp with hp | rfl
    · rw [hkeep p hp]
      exact h.nodupFds p hp
    · rw [enter_member_self, List.filterMap_append, List.filterMap_map]
      simp [PeerInformation.listed, Function.comp_def]
  · rcases hcases p hp with hp | rfl
    · rw [hkeep p hp] at ht
      obtain ⟨q, hq, hqp, htid, hreach⟩ := h.known p hp t ht
      exact ⟨q, List.mem_append_left _ hq, hqp, by rw [hkeep q hq, htid], hreach⟩
    · rcases mem_enter.mp ht with ⟨s, hs, rfl⟩ | rfl
      · obtain ⟨q, hq, -, hsid, hreach⟩ := h.known m hm s hs
        exact ⟨q, List.mem_append_left _ hq, hne q hq, by rw [hkeep q hq]; exact hsid, hreach⟩
      · exact ⟨m, List.mem_append_left _ hm, hne m hm, by rw [hkeep m hm], haddr⟩
  · obtain ⟨hdialer, hacceptor⟩ := h.ends c hc
    exact ⟨List.mem_append_left _ hdialer, List.mem_append_left _ hacceptor⟩
  · rcases hcases a ha with ha' | rfl <;> rcases hcases b hb with hb' | rfl
    · have hlinked := h.linked a ha' b hb' hab id id
      exact hlinked.of_keep (by rw [hkeep a ha']) (by rw [hkeep b hb'])
        (fun s hs _ ↦ by rwa [hkeep a ha']) (fun t ht _ ↦ by rwa [hkeep b hb']) rfl
    · exact absurd ⟨rfl, ha'⟩ hub
    · exact absurd ⟨rfl, hb'⟩ hua
    · exact absurd rfl hab

theorem Complete.todo_enter (h : Complete net w nodes) (hj : j ∉ nodes) (hm : m ∈ nodes)
    (hq : q ∈ nodes) (hlt : nodes.length + 1 < 2 ^ 32)
    (hfd : ∀ t ∈ (w.member q).peers, t.sockFd ≠ some (sockets.acceptorFd q)) :
    Todo net sockets (w.enter j m (nextId nodes) addr) j q := by
  have hne : q ≠ j := fun heq ↦ hj (heq ▸ hq)
  have hkeep : (w.enter j m (nextId nodes) addr).member q = w.member q := enter_member_of_ne hne
  refine ⟨hne, ?_, fun t ht ↦ ?_, ?_, fun s hs ↦ ?_, fun t ht ↦ ?_⟩
  · by_cases hqm : q = m
    · subst hqm
      exact ⟨_, mem_enter.mpr (.inr rfl), by rw [hkeep], rfl⟩
    · obtain ⟨s, hs, -, -, -, -, hsid, -⟩ := h.linked m hm q hq (Ne.symm hqm) id id
      exact ⟨s.listed, mem_enter.mpr (.inl ⟨s, hs, rfl⟩), by rw [hkeep]; exact hsid, rfl⟩
  · rw [hkeep] at ht
    obtain ⟨r, hr, -, htid, -⟩ := h.known q hq t ht
    rw [enter_member_self, htid]
    exact h.ne_nextId hlt hr
  · refine List.filter_eq_nil_iff.mpr fun c hc hbetween ↦ ?_
    obtain ⟨hdialer, hacceptor⟩ := h.ends c hc
    simp only [Connection.between, Bool.or_eq_true, Bool.and_eq_true, decide_eq_true_eq]
      at hbetween
    rcases hbetween with ⟨hcj, -⟩ | ⟨-, hcj⟩
    · exact hj (hcj ▸ hdialer)
    · exact hj (hcj ▸ hacceptor)
  · rcases mem_enter.mp hs with ⟨s, -, rfl⟩ | rfl
    · exact fun heq ↦ by cases heq
    · exact fun heq ↦ by cases heq
  · rw [hkeep] at ht
    exact hfd t ht

/-! ## The loop -/

/-- The state of a join that has still to connect to the nodes of `todo`. -/
structure Joining (net : Network N) (sockets : Sockets N) (w : World N) (nodes : List N) (j : N)
    (todo : List N) : Prop where
  tables : Tables net w nodes fun a b ↦ a = j ∧ b ∈ todo
  joiner : j ∈ nodes
  mem : ∀ q ∈ todo, q ∈ nodes
  nodup : todo.Nodup
  each : ∀ q ∈ todo, Todo net sockets w j q
  dialerFd : ∀ p ∈ todo, ∀ q ∈ todo, sockets.dialerFd p = sockets.dialerFd q → p = q
  reaches : ∀ q ∈ todo, net.reaches ((sockets.remoteAddr q).setPort (net.listenPort j)) = some j

/-- One more node is connected. -/
theorem Joining.link (h : Joining net sockets w nodes j todo) (hq : q ∈ todo)
    (hs : s ∈ (w.member j).peers) (hsid : s.id = (w.member q).myId) :
    Joining net sockets (w.link net sockets j q s) nodes j (todo.filter (· ≠ q)) := by
  have hmem : ∀ r ∈ todo.filter (· ≠ q), r ∈ todo ∧ r ≠ q := fun r hr ↦ by simpa using hr
  refine ⟨h.tables.link h.joiner (h.mem q hq) (h.each q hq) hs hsid (h.reaches q hq), h.joiner,
    fun r hr ↦ h.mem r (hmem r hr).1, h.nodup.filter _, fun r hr ↦ ?_,
    fun a ha b hb ↦ h.dialerFd a (hmem a ha).1 b (hmem b hb).1,
    fun r hr ↦ h.reaches r (hmem r hr).1⟩
  obtain ⟨hr, hrq⟩ := hmem r hr
  refine (h.each r hr).link (h.each q hq).ne hrq (fun heq ↦ hrq ?_) fun heq ↦ hrq ?_
  · exact h.tables.myId_inj (h.mem r hr) (h.mem q hq) (heq.symm.trans hsid)
  · exact (h.dialerFd q hq r hr heq).symm

/-- An entry without a socket is one of a node to be connected. -/
theorem Joining.exists_todo (h : Joining net sockets w nodes j todo) (hs : s ∈ (w.member j).peers)
    (hnone : s.sockFd = none) :
    ∃ q ∈ todo, s.id = (w.member q).myId ∧ net.reaches s.addr = some q := by
  obtain ⟨q, hq, hne, hsid, hreach⟩ := h.tables.known j h.joiner s hs
  refine ⟨q, ?_, hsid, hreach⟩
  by_contra hdone
  obtain ⟨s', hs', -, -, fd, -, hsid', hfd, -⟩ := h.tables.linked j h.joiner q hq hne.symm
    (fun hu ↦ hdone hu.2) (fun hu ↦ hne hu.1)
  rw [h.tables.eq_of_id h.joiner hs hs' (hsid.trans hsid'.symm), hfd] at hnone
  cases hnone

theorem length_filter_ne (hnodup : todo.Nodup) (hq : q ∈ todo) :
    (todo.filter (· ≠ q)).length + 1 = todo.length := by
  have herase : todo.filter (· ≠ q) = todo.erase q := by
    rw [hnodup.erase_eq_filter]
    exact List.filter_congr fun x _ ↦ Bool.eq_iff_iff.mpr (by simp)
  rw [herase, List.length_erase_of_mem hq]
  have hpos := List.length_pos_of_mem hq
  omega

/-- Nothing is left to do once every entry has a socket. -/
theorem connectToNewPeers_done (hall : ∀ s ∈ (w.member j).peers, s.sockFd ≠ none) {fuel pos : ℕ}
    (hfuel : (w.member j).peers.length - pos + 1 ≤ fuel) :
    connectToNewPeers net sockets fuel w j pos = some (.ok w) := by
  induction fuel generalizing pos with
  | zero => omega
  | succ fuel ih =>
      rw [connectToNewPeers]
      cases hget : (w.member j).peers[pos]? with
      | none => rfl
      | some s =>
          have hlt := (List.getElem?_eq_some_iff.mp hget).1
          obtain ⟨fd, hfd⟩ := Option.ne_none_iff_exists'.mp (hall s (List.mem_of_getElem? hget))
          simp only [hfd]
          split
          · rfl
          · exact ih (by omega)

theorem Joining.sockFd_ne_none (h : Joining net sockets w nodes j []) :
    ∀ s ∈ (w.member j).peers, s.sockFd ≠ none := by
  intro s hs hnone
  obtain ⟨q, hq, -⟩ := h.exists_todo hs hnone
  cases hq

theorem Joining.eq_nil (h : Joining net sockets w nodes j todo)
    (hall : ∀ s ∈ (w.member j).peers, s.sockFd ≠ none) : todo = [] := by
  refine List.eq_nil_iff_forall_not_mem.mpr fun q hq ↦ ?_
  obtain ⟨s, hs, -, hnone⟩ := (h.each q hq).listed
  exact hall s hs hnone

/-- The nodes that do not take part are as before, and the table of `j` has grown no more. -/
structure Frame (nodes : List N) (j : N) (w w' : World N) : Prop where
  members : w'.members = w.members
  member : ∀ p, p ∉ nodes → w'.member p = w.member p
  length : (w'.member j).peers.length = (w.member j).peers.length

omit [DecidableEq N] in
theorem Frame.refl : Frame nodes j w w := ⟨rfl, fun _ _ ↦ rfl, rfl⟩

omit [DecidableEq N] in
theorem Frame.trans {w₁ w₂ w₃ : World N} (h : Frame nodes j w₁ w₂) (h' : Frame nodes j w₂ w₃) :
    Frame nodes j w₁ w₃ where
  members := h'.members.trans h.members
  member p hp := (h'.member p hp).trans (h.member p hp)
  length := h'.length.trans h.length

theorem frame_link (net : Network N) (sockets : Sockets N) (hj : j ∈ nodes) (hq : q ∈ nodes)
    (hne : q ≠ j) :
    Frame nodes j w (w.link net sockets j q s) where
  members := link_members
  member p hp := link_member_of_ne (fun heq ↦ hp (heq ▸ hj)) fun heq ↦ hp (heq ▸ hq)
  length := by
    rw [link_member_dialer hne]
    exact List.length_map _

/-- From any position on, the loop and the calls inside it come to an end, with all nodes connected.
Each call of `peer_connect` leaves fewer nodes to do for the loop that it starts from the
beginning of the table. -/
theorem connectToNewPeers_spec {fuel pos : ℕ} (h : Joining net sockets w nodes j todo)
    (hpos : ∀ i s, i < pos → (w.member j).peers[i]? = some s → s.sockFd ≠ none)
    (hfuel : todo.length * ((w.member j).peers.length + 3) +
      ((w.member j).peers.length - pos) + 1 ≤ fuel) :
    ∃ w', connectToNewPeers net sockets fuel w j pos = some (.ok w') ∧
      Joining net sockets w' nodes j [] ∧ Frame nodes j w w' := by
  induction fuel using Nat.strong_induction_on generalizing w todo pos with
  | _ fuel ih =>
      obtain ⟨fuel, rfl⟩ : ∃ f, fuel = f + 1 := ⟨fuel - 1, by omega⟩
      have hend : (w.member j).peers.length ≤ pos → todo = [] := by
        refine fun hle ↦ h.eq_nil fun s hs ↦ ?_
        obtain ⟨i, hi, rfl⟩ := List.mem_iff_getElem.mp hs
        exact hpos i _ (hi.trans_le hle) (List.getElem?_eq_getElem hi)
      rw [connectToNewPeers]
      cases hget : (w.member j).peers[pos]? with
      | none =>
          obtain rfl := hend (List.getElem?_eq_none_iff.mp hget)
          exact ⟨w, rfl, h, .refl⟩
      | some s =>
          have hlt := (List.getElem?_eq_some_iff.mp hget).1
          have hs := List.mem_of_getElem? hget
          simp only
          cases hfd : s.sockFd with
          | some fd =>
              have hpos' : ∀ i t, i < pos + 1 → (w.member j).peers[i]? = some t →
                  t.sockFd ≠ none := by
                intro i t hi ht
                rcases Nat.lt_succ_iff_lt_or_eq.mp hi with hi | rfl
                · exact hpos i t hi ht
                · rw [hget] at ht
                  rw [← Option.some.inj ht, hfd]
                  exact Option.some_ne_none fd
              simp only
              split
              · next hlast =>
                  have hall : ∀ t ∈ (w.member j).peers, t.sockFd ≠ none := by
                    intro t ht
                    obtain ⟨i, hi, rfl⟩ := List.mem_iff_getElem.mp ht
                    exact hpos' i _ (by omega) (List.getElem?_eq_getElem hi)
                  obtain rfl := h.eq_nil hall
                  exact ⟨w, rfl, h, .refl⟩
              · exact ih fuel (Nat.lt_succ_self fuel) h hpos' (by omega)
          | none =>
              obtain ⟨q, hq, hsid, hreach⟩ := h.exists_todo hs hfd
              have hne := (h.each q hq).ne
              have hlink := frame_link (w := w) (s := s) net sockets
                h.joiner (h.mem q hq) hne
              have hlength := hlink.length
              have hfewer := length_filter_ne h.nodup hq
              have hmul := Nat.succ_mul (todo.filter (· ≠ q)).length
                ((w.member j).peers.length + 3)
              rw [Nat.succ_eq_add_one, hfewer] at hmul
              obtain ⟨fuel', rfl⟩ : ∃ f, fuel = f + 1 := ⟨fuel - 1, by omega⟩
              obtain ⟨w', hrun, hw', hframe⟩ := ih fuel' (by omega) (h.link hq hs hsid)
                (fun i t hi ↦ absurd hi (Nat.not_lt_zero i)) (by rw [hlength]; omega)
              simp only [peerConnect_listed h.tables h.joiner (h.mem q hq) (h.each q hq) hs hsid
                hreach, hrun]
              refine ⟨w', ?_, hw', hlink.trans hframe⟩
              split
              · rfl
              · exact connectToNewPeers_done hw'.sockFd_ne_none
                  (by rw [(hlink.trans hframe).length]; omega)

/-- Only the second branch is run with more fuel. -/
theorem ite_of_imp {ρ : Type*} {c : Prop} [Decidable c] {first second second' result : ρ}
    (h : (if c then first else second) = result) (hsecond : second = result → second' = result) :
    (if c then first else second') = result := by
  split at h
  · next hc => rwa [if_pos hc]
  · next hc =>
      rw [if_neg hc]
      exact hsecond h

theorem fuel_succ (net : Network N) (sockets : Sockets N) (fuel : ℕ) :
    (∀ w j s listed r, peerConnect net sockets fuel w j s listed = some r →
      peerConnect net sockets (fuel + 1) w j s listed = some r) ∧
    ∀ w j pos r, connectToNewPeers net sockets fuel w j pos = some r →
      connectToNewPeers net sockets (fuel + 1) w j pos = some r := by
  induction fuel with
  | zero =>
      refine ⟨fun w j s listed r h ↦ ?_, fun w j pos r h ↦ ?_⟩
      · rw [peerConnect] at h
        cases h
      · rw [connectToNewPeers] at h
        cases h
  | succ fuel ih =>
      refine ⟨fun w j s listed r h ↦ ?_, fun w j pos r h ↦ ?_⟩
      · rw [peerConnect] at h ⊢
        cases hreach : net.reaches s.addr with
        | none => simpa only [hreach] using h
        | some q =>
            simp only [hreach] at h ⊢
            split at h
            · exact h
            · split at h
              · exact h
              · exact h
              · exact ite_of_imp h (ih.2 _ _ _ _)
      · rw [connectToNewPeers] at h ⊢
        cases hget : (w.member j).peers[pos]? with
        | none => simpa only [hget] using h
        | some s =>
            simp only [hget] at h ⊢
            cases hfd : s.sockFd with
            | some fd =>
                simp only [hfd] at h ⊢
                exact ite_of_imp h (ih.2 _ _ _ _)
            | none =>
                simp only [hfd] at h ⊢
                split at h
                · cases h
                · next hrun =>
                    simp only [ih.1 _ _ _ _ _ hrun]
                    exact h
                · next hrun =>
                    simp only [ih.1 _ _ _ _ _ hrun]
                    exact ite_of_imp h (ih.2 _ _ _ _)

theorem groupJoin_mono {fuel fuel' : ℕ} (hle : fuel ≤ fuel') {r : Except Stop (World N)}
    (h : groupJoin net sockets fuel w j addr = some r) :
    groupJoin net sockets fuel' w j addr = some r := by
  induction hle with
  | refl => exact h
  | step _ ih => exact (fuel_succ net sockets _).1 _ _ _ _ _ ih

/-! ## Joins one after the other -/

/-- Between two joins: the members are linked, and the other nodes have no peers. -/
structure Settled (net : Network N) (w : World N) : Prop where
  complete : Complete net w w.members
  nonempty : w.members ≠ []
  fresh : ∀ p, p ∉ w.members → (w.member p).peers = []

theorem settled_init (net : Network N) (first : N) : Settled net (groups net first).init where
  complete := by
    refine ⟨List.nodup_singleton first, rfl, fun p hp ↦ .nil, fun p hp ↦ .nil,
      fun p hp s hs ↦ (List.not_mem_nil hs).elim, fun c hc ↦ (List.not_mem_nil hc).elim,
      fun a ha b hb hab ↦ ?_⟩
    exact absurd ((List.mem_singleton.mp ha).trans (List.mem_singleton.mp hb).symm) hab
  nonempty := List.cons_ne_nil _ _
  fresh _ _ := rfl

/-- With enough fuel a join ends with `SUCCESS`, and the joiner is linked to all members. -/
theorem Settled.groupJoin (h : Settled net w) {a : Join N} (ha : a.Allowed net w) :
    ∃ fuel₀ w', Settled net { w' with members := w'.members ++ [a.joiner] } ∧ ∀ fuel, fuel₀ ≤ fuel →
      Proto.groupJoin net a.sockets fuel w a.joiner a.addr = some (.ok w') := by
  obtain ⟨j, addr, sockets, _⟩ := a
  obtain ⟨hj, ⟨m, hm, haddr⟩, hdialer, hacceptor, hreaches⟩ := ha
  simp only at hj haddr hdialer hacceptor hreaches
  have hlt : w.members.length + 1 < 2 ^ 32 := by
    have hle := h.complete.length_le hm
    omega
  have hjoining : Joining net sockets (w.enter j m (nextId w.members) addr) (w.members ++ [j]) j
      w.members :=
    ⟨h.complete.enter hj hm haddr hlt, List.mem_append_right _ (List.mem_singleton_self j),
      fun q hq ↦ List.mem_append_left _ hq, h.complete.nodup,
      fun q hq ↦ h.complete.todo_enter hj hm hq hlt (hacceptor q hq), hdialer, hreaches⟩
  have hne : m ≠ j := fun heq ↦ hj (heq ▸ hm)
  have hframe₁ := frame_link (w := w.enter j m (nextId w.members) addr)
    (s := ⟨(w.member m).myId, none, addr⟩) net sockets hjoining.joiner (hjoining.mem m hm) hne
  have hlink := hjoining.link hm (mem_enter.mpr (.inr rfl))
    (by rw [enter_member_of_ne hne])
  obtain ⟨w', hrun, hw', hframe⟩ := connectToNewPeers_spec hlink
    (fun i t (hi : i < 0) ↦ absurd hi (Nat.not_lt_zero i)) le_rfl
  have hmembers : w'.members = w.members := hframe.members.trans hframe₁.members
  refine ⟨_, w', ?_, fun fuel hle ↦ groupJoin_mono hle
    ((groupJoin_eq h.complete hj (h.fresh j hj) hm haddr hlt _).trans hrun)⟩
  rw [hmembers]
  refine ⟨?_, by simp, fun p hp ↦ ?_⟩
  · refine ⟨hw'.tables.nodup, hw'.tables.ids, hw'.tables.nodupIds, hw'.tables.nodupFds,
      hw'.tables.known, hw'.tables.ends, fun a ha b hb hab _ _ ↦ ?_⟩
    exact hw'.tables.linked a ha b hb hab (fun hu ↦ by cases hu.2) (fun hu ↦ by cases hu.2)
  · have hp' : p ∉ w.members ∧ p ≠ j := by simpa using hp
    rw [hframe.member p hp, hframe₁.member p hp, enter_member_of_ne hp'.2]
    exact h.fresh p hp'.1

theorem Settled.step (h : Settled net w) {a : Join N} (ha : a.Allowed net w) {w' : World N}
    (hst : w.step net a = some w') : Settled net w' := by
  obtain ⟨fuel₀, w₁, hw₁, hrun⟩ := h.groupJoin ha
  rw [World.step] at hst
  split at hst
  · next w₂ hrun' =>
      obtain rfl : w₂ = w₁ := by
        have hmore := groupJoin_mono (Nat.le_max_left a.fuel fuel₀) hrun'
        rw [hrun _ (Nat.le_max_right a.fuel fuel₀)] at hmore
        exact (Except.ok.inj (Option.some.inj hmore)).symm
      exact Option.some.inj hst ▸ hw₁
  · cases hst

theorem settled_of_reach {first : N} (h : (groups net first).Reach (Join.Allowed net) w) :
    Settled net w :=
  h.invariant (Settled net) (settled_init net first) fun _ hw ha hst ↦ hw.step ha hst

/-- Every two members have each other in their tables under the right id, with the ends of the only
connection between them and the addresses they listen at; there is nothing else in the tables. -/
structure FullMesh (net : Network N) (w : World N) : Prop where
  nodup : w.members.Nodup
  ids_ne_zero : ∀ p ∈ w.members, (w.member p).myId ≠ 0
  ids_inj : ∀ p ∈ w.members, ∀ q ∈ w.members, (w.member p).myId = (w.member q).myId → p = q
  linked : ∀ p ∈ w.members, ∀ q ∈ w.members, p ≠ q → ∃ s t fd fd',
    hashFind (w.member p).peers (w.member q).myId = some s ∧ s.sockFd = some fd ∧
    hashFind (w.member q).peers (w.member p).myId = some t ∧ t.sockFd = some fd' ∧
    s.addr.port = net.listenPort q ∧ t.addr.port = net.listenPort p ∧
    (w.links p q = [⟨p, fd, q, fd'⟩] ∨ w.links p q = [⟨q, fd', p, fd⟩])
  only : ∀ p ∈ w.members, ((w.member p).peers.map PeerInformation.id).Nodup ∧
    ∀ s ∈ (w.member p).peers, ∃ q ∈ w.members, q ≠ p ∧ s.id = (w.member q).myId
  reaches : ∀ p ∈ w.members, ∀ s ∈ (w.member p).peers, ∀ q ∈ w.members,
    s.id = (w.member q).myId → net.reaches s.addr = some q

theorem Complete.reaches (h : Complete net w nodes) (hp : p ∈ nodes) (hq : q ∈ nodes)
    (hs : s ∈ (w.member p).peers) (hsid : s.id = (w.member q).myId) :
    net.reaches s.addr = some q := by
  obtain ⟨r, hr, -, hrid, hreach⟩ := h.known p hp s hs
  obtain rfl := h.myId_inj hr hq (hrid.symm.trans hsid)
  exact hreach

theorem Complete.hashFind_eq (h : Complete net w nodes) (hp : p ∈ nodes) (hq : q ∈ nodes)
    (hs : s ∈ (w.member p).peers) (hsid : s.id = (w.member q).myId) :
    hashFind (w.member p).peers (w.member q).myId = some s ∧ s.addr.port = net.listenPort q := by
  refine ⟨?_, ?_⟩
  · cases hfind : hashFind (w.member p).peers (w.member q).myId with
    | none => exact absurd hsid (hashFind_eq_none.mp hfind s hs)
    | some t =>
        have htid : t.id = (w.member q).myId := by simpa using List.find?_some hfind
        rw [h.eq_of_id hp (List.mem_of_find?_eq_some hfind) hs (htid.trans hsid.symm)]
  · exact net.port_of_reaches _ _ (h.reaches hp hq hs hsid)

theorem Complete.fullMesh (h : Complete net w w.members) : FullMesh net w where
  nodup := h.nodup
  ids_ne_zero _ hp := h.myId_ne_zero hp
  ids_inj _ hp _ hq := h.myId_inj hp hq
  linked p hp q hq hne := by
    obtain ⟨s, hs, t, ht, fd, fd', hsid, hsfd, htid, htfd, hlinks⟩ := h.linked p hp q hq hne id id
    obtain ⟨hfind, hport⟩ := h.hashFind_eq hp hq hs hsid
    obtain ⟨hfind', hport'⟩ := h.hashFind_eq hq hp ht htid
    exact ⟨s, t, fd, fd', hfind, hsfd, hfind', htfd, hport, hport', hlinks⟩
  only p hp := by
    refine ⟨h.nodupIds p hp, fun s hs ↦ ?_⟩
    obtain ⟨q, hq, hne, hsid, -⟩ := h.known p hp s hs
    exact ⟨q, hq, hne, hsid⟩
  reaches _ hp _ hs _ hq hsid := h.reaches hp hq hs hsid

end World

/-- Joins one after the other build a full mesh: from every state they reach, through any member,
the next join terminates with `SUCCESS`, trips no assertion, and leaves a full mesh again. -/
theorem sequential_joins_mesh (net : Network N) (first : N) {w : World N}
    (h : (groups net first).Reach (Join.Allowed net) w) :
    w.FullMesh net ∧ ∀ a : Join N, a.Allowed net w →
      ∃ fuel₀ w', World.FullMesh net { w' with members := w'.members ++ [a.joiner] } ∧
        ∀ fuel, fuel₀ ≤ fuel → groupJoin net a.sockets fuel w a.joiner a.addr = some (.ok w') := by
  have hw := World.settled_of_reach h
  refine ⟨hw.complete.fullMesh, fun a ha ↦ ?_⟩
  obtain ⟨fuel₀, w', hw', hrun⟩ := hw.groupJoin ha
  exact ⟨fuel₀, w', hw'.complete.fullMesh, hrun⟩

instance (net : Network N) (w : World N) (a : Join N) : Decidable (a.Allowed net w) :=
  decidable_of_iff
    (a.joiner ∉ w.members ∧ (∃ q ∈ w.members, net.reaches a.addr = some q) ∧
      (∀ p ∈ w.members, ∀ q ∈ w.members, a.sockets.dialerFd p = a.sockets.dialerFd q → p = q) ∧
      (∀ q ∈ w.members, ∀ s ∈ (w.member q).peers,
        s.sockFd ≠ some (a.sockets.acceptorFd q)) ∧
      ∀ q ∈ w.members,
        net.reaches ((a.sockets.remoteAddr q).setPort (net.listenPort a.joiner)) = some a.joiner)
    ⟨fun ⟨hfresh, hthrough, hdialer, hacceptor, hremote⟩ ↦
        ⟨hfresh, hthrough, hdialer, hacceptor, hremote⟩,
      fun h ↦ ⟨h.fresh, h.through, h.dialerFd, h.acceptorFd, h.remoteAddr⟩⟩

/-- One host, on which the nodes listen at consecutive ports. -/
def Network.oneHost (n : ℕ) : Network (Fin n) where
  listenPort p := UInt16.ofNat (4000 + p)
  reaches addr := (List.finRange n).find? fun p ↦ addr.port = UInt16.ofNat (4000 + p)
  port_of_reaches addr q h := by simpa using List.find?_some h

/-- The second node joins through the first one, and the third one through the second. -/
theorem sequential_joins_mesh_three :
    ∃ w, (groups (Network.oneHost 3) 0).Reach (Join.Allowed (Network.oneHost 3)) w ∧
      w.members = [0, 1, 2] ∧ w.FullMesh (Network.oneHost 3) := by
  let sockets (joiner : Fd) : Sockets (Fin 3) :=
    ⟨fun q ↦ if q = 0 then 3 else if q = 1 then 4 else 5, fun _ ↦ joiner + 10,
      fun _ ↦ SockAddr.zero.setPort 50000⟩
  obtain ⟨w, hw, hmembers⟩ := (groups (Network.oneHost 3) 0).exists_reach_of_exec
    (Join.Allowed (Network.oneHost 3))
    [⟨1, SockAddr.zero.setPort 4000, sockets 1, 20⟩, ⟨2, SockAddr.zero.setPort 4001, sockets 2, 20⟩]
    (fun w ↦ w.members = [0, 1, 2]) (by decide +kernel)
  exact ⟨w, hw, by simpa using hmembers, (sequential_joins_mesh (Network.oneHost 3) 0 hw).1⟩

end Edsm.Proto
