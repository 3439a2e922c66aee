import Edsm.Proto.Join
import Mathlib.Data.List.Range
import Mathlib.Data.Fintype.Card

/-!
# Sequential joins build a full mesh

While a node joins, its table lists all members; the ones to which it has not
connected yet do not know of it.  Every connection links one more of them.
-/

namespace Edsm.Proto

variable {N : Type*} [DecidableEq N]

/-- The two ends of the connection are `p` and `q`. -/
def Connection.between (p q : N) (c : Connection N) : Bool :=
  (c.dialer = p && c.acceptor = q) || (c.dialer = q && c.acceptor = p)

namespace World

/-- The connections between two nodes. -/
def links (w : World N) (p q : N) : List (Connection N) :=
  w.connections.filter (Connection.between p q)

/-- The nodes have each other in their tables, with the two ends of the only connection between
them. -/
def Linked (w : World N) (p q : N) : Prop :=
  ∃ s ∈ (w.member p).peers, ∃ t ∈ (w.member q).peers, ∃ fd fd',
    s.id = (w.member q).myId ∧ s.sockFd = some fd ∧
    t.id = (w.member p).myId ∧ t.sockFd = some fd' ∧
    (w.links p q = [⟨p, fd, q, fd'⟩] ∨ w.links p q = [⟨q, fd', p, fd⟩])

/-- The tables of `nodes` hold other nodes of the list only, and all of these but the pairs that are
still to be linked. -/
structure Tables (net : Network N) (w : World N) (nodes : List N) (unlinked : N → N → Prop) :
    Prop where
  nodup : nodes.Nodup
  ids : nodes.map (fun p ↦ (w.member p).myId.toNat) = List.range' 1 nodes.length
  nodupIds : ∀ p ∈ nodes, ((w.member p).peers.map PeerInformation.id).Nodup
  nodupFds : ∀ p ∈ nodes, ((w.member p).peers.filterMap PeerInformation.sockFd).Nodup
  known : ∀ p ∈ nodes, ∀ s ∈ (w.member p).peers, ∃ q ∈ nodes, q ≠ p ∧
    s.id = (w.member q).myId ∧ net.reaches s.addr = some q
  ends : ∀ c ∈ w.connections, c.dialer ∈ nodes ∧ c.acceptor ∈ nodes
  linked : ∀ p ∈ nodes, ∀ q ∈ nodes, p ≠ q → ¬ unlinked p q → ¬ unlinked q p → w.Linked p q

/-- `j` has `q` in its table, but has not connected to it yet. -/
structure Todo (net : Network N) (sockets : Sockets N) (w : World N) (j q : N) : Prop where
  ne : q ≠ j
  listed : ∃ s ∈ (w.member j).peers, s.id = (w.member q).myId ∧ s.sockFd = none
  absent : ∀ t ∈ (w.member q).peers, t.id ≠ (w.member j).myId
  links : w.links j q = []
  dialerFd : ∀ s ∈ (w.member j).peers, s.sockFd ≠ some (sockets.dialerFd q)
  acceptorFd : ∀ t ∈ (w.member q).peers, t.sockFd ≠ some (sockets.acceptorFd q)

/-- The entry that the accepting node makes of `j`. -/
def acceptedPeer (net : Network N) (sockets : Sockets N) (w : World N) (j q : N) :
    PeerInformation where
  id := (w.member j).myId
  sockFd := some (sockets.acceptorFd q)
  addr := (sockets.remoteAddr q).setPort (net.listenPort j)

/-- The world after `j` has connected to its peer `s`, which is `q`. -/
def link (net : Network N) (sockets : Sockets N) (w : World N) (j q : N) (s : PeerInformation) :
    World N :=
  ((w.setPeer j { s with sockFd := some (sockets.dialerFd q) }).addConnection
    ⟨j, sockets.dialerFd q, q, sockets.acceptorFd q⟩).setMember q
      { w.member q with peers := (w.member q).peers ++ [w.acceptedPeer net sockets j q] }

/-! ## Reading the world after a change -/

section

variable {net : Network N} {sockets : Sockets N} {w : World N} {nodes : List N} {j p q : N}
variable {s : PeerInformation}

@[simp] theorem setMember_member_self (w : World N) (p : N) (member : Member) :
    (w.setMember p member).member p = member := by simp [setMember]

theorem setMember_member_of_ne (w : World N) (member : Member) (h : q ≠ p) :
    (w.setMember p member).member q = w.member q := by simp [setMember, h]

@[simp] theorem link_connections : (w.link net sockets j q s).connections =
    w.connections ++ [⟨j, sockets.dialerFd q, q, sockets.acceptorFd q⟩] := rfl

@[simp] theorem link_members : (w.link net sockets j q s).members = w.members := rfl

theorem link_member_acceptor : (w.link net sockets j q s).member q =
    { w.member q with peers := (w.member q).peers ++ [w.acceptedPeer net sockets j q] } :=
  setMember_member_self _ _ _

theorem link_member_dialer (h : q ≠ j) : (w.link net sockets j q s).member j =
    { w.member j with
      peers := (w.member j).peers.map fun t ↦
        if t.id = s.id then { s with sockFd := some (sockets.dialerFd q) } else t } :=
  (setMember_member_of_ne _ _ h.symm).trans (setMember_member_self _ _ _)

theorem link_member_of_ne (hj : p ≠ j) (hq : p ≠ q) :
    (w.link net sockets j q s).member p = w.member p :=
  (setMember_member_of_ne _ _ hq).trans (setMember_member_of_ne _ _ hj)

@[simp] theorem link_myId (net : Network N) (sockets : Sockets N) (p : N) :
    ((w.link net sockets j q s).member p).myId = (w.member p).myId := by
  by_cases hq : p = q
  · subst hq
    rw [link_member_acceptor]
  · by_cases hj : p = j
    · subst hj
      rw [link_member_dialer (Ne.symm hq)]
    · rw [link_member_of_ne hj hq]

theorem between_comm (p q : N) : Connection.between p q = Connection.between q p := by
  funext c
  simp [Connection.between, Bool.or_comm]

theorem links_comm (w : World N) (p q : N) : w.links p q = w.links q p := by
  rw [links, links, between_comm]

theorem Linked.symm (h : w.Linked p q) : w.Linked q p := by
  obtain ⟨s, hs, t, ht, fd, fd', hsid, hsfd, htid, htfd, hlinks⟩ := h
  refine ⟨t, ht, s, hs, fd', fd, htid, htfd, hsid, hsfd, ?_⟩
  rw [links_comm]
  exact hlinks.symm

/-- Two nodes that keep their entries and get no further connection stay linked. -/
theorem Linked.of_keep {w' : World N} (h : w.Linked p q)
    (hp : (w'.member p).myId = (w.member p).myId) (hq : (w'.member q).myId = (w.member q).myId)
    (hpeers : ∀ s ∈ (w.member p).peers, s.id = (w.member q).myId → s ∈ (w'.member p).peers)
    (hpeers' : ∀ t ∈ (w.member q).peers, t.id = (w.member p).myId → t ∈ (w'.member q).peers)
    (hlinks : w'.links p q = w.links p q) : w'.Linked p q := by
  obtain ⟨s, hs, t, ht, fd, fd', hsid, hsfd, htid, htfd, hc⟩ := h
  refine ⟨s, hpeers s hs hsid, t, hpeers' t ht htid, fd, fd', ?_, hsfd, ?_, htfd, ?_⟩
  · rw [hq, hsid]
  · rw [hp, htid]
  · rwa [hlinks]

/-! ## Ids and tables -/

variable {unlinked : N → N → Prop}

theorem Tables.myId_pos (h : Tables net w nodes unlinked) (hp : p ∈ nodes) :
    0 < (w.member p).myId.toNat ∧ (w.member p).myId.toNat ≤ nodes.length := by
  have hmem := List.mem_map_of_mem (f := fun p ↦ (w.member p).myId.toNat) hp
  rw [h.ids, List.mem_range'_1] at hmem
  omega

theorem Tables.myId_ne_zero (h : Tables net w nodes unlinked) (hp : p ∈ nodes) :
    (w.member p).myId ≠ 0 := by
  intro hzero
  have hpos := (h.myId_pos hp).1
  simp [hzero] at hpos

theorem Tables.myId_inj (h : Tables net w nodes unlinked) (hp : p ∈ nodes) (hq : q ∈ nodes)
    (heq : (w.member p).myId = (w.member q).myId) : p = q := by
  have hnodup : (nodes.map fun p ↦ (w.member p).myId.toNat).Nodup := by
    rw [h.ids]
    exact List.nodup_range'
  exact List.inj_on_of_nodup_map hnodup hp hq (congrArg UInt32.toNat heq)

theorem Tables.eq_of_id (h : Tables net w nodes unlinked) (hp : p ∈ nodes) {s t : PeerInformation}
    (hs : s ∈ (w.member p).peers) (ht : t ∈ (w.member p).peers) (heq : s.id = t.id) : s = t :=
  List.inj_on_of_nodup_map (h.nodupIds p hp) hs ht heq

/-- An entry and the rest of the table, in which its id does not occur. -/
theorem Tables.split (h : Tables net w nodes unlinked) (hp : p ∈ nodes)
    (hs : s ∈ (w.member p).peers) :
    ∃ before after, (w.member p).peers = before ++ s :: after ∧
      ∀ t ∈ before ++ after, t.id ≠ s.id := by
  obtain ⟨before, after, hsplit⟩ := List.append_of_mem hs
  refine ⟨before, after, hsplit, fun t ht heq ↦ ?_⟩
  have hnodup := h.nodupIds p hp
  rw [hsplit, List.map_append, List.map_cons, List.nodup_middle, ← List.map_append] at hnodup
  exact (List.nodup_cons.mp hnodup).1 (heq ▸ List.mem_map_of_mem ht)

theorem map_setPeer {before after : List PeerInformation} {s' : PeerInformation}
    (hother : ∀ t ∈ before ++ after, t.id ≠ s.id) :
    (before ++ s :: after).map (fun t ↦ if t.id = s.id then s' else t) = before ++ s' :: after := by
  have hbefore : before.map (fun t ↦ if t.id = s.id then s' else t) = before :=
    (List.map_congr_left (g := id) fun t ht ↦
      if_neg (hother t (List.mem_append_left after ht))).trans (List.map_id before)
  have hafter : after.map (fun t ↦ if t.id = s.id then s' else t) = after :=
    (List.map_congr_left (g := id) fun t ht ↦
      if_neg (hother t (List.mem_append_right before ht))).trans (List.map_id after)
  rw [List.map_append, List.map_cons, hbefore, hafter, if_pos rfl]

theorem link_links (a b : N) : (w.link net sockets j q s).links a b = w.links a b ++
    if Connection.between a b ⟨j, sockets.dialerFd q, q, sockets.acceptorFd q⟩
    then [⟨j, sockets.dialerFd q, q, sockets.acceptorFd q⟩] else [] := by
  rw [links, link_connections, List.filter_append, List.filter_singleton, Bool.cond_eq_ite]
  rfl

theorem link_links_of_ne {a b : N} (hab : ¬ (a = j ∧ b = q)) (hba : ¬ (a = q ∧ b = j)) :
    (w.link net sockets j q s).links a b = w.links a b := by
  rw [link_links, if_neg, List.append_nil]
  simp only [Connection.between, Bool.or_eq_true, Bool.and_eq_true, decide_eq_true_eq]
  rintro (⟨rfl, rfl⟩ | ⟨rfl, rfl⟩)
  · exact hab ⟨rfl, rfl⟩
  · exact hba ⟨rfl, rfl⟩

/-- The two ends of a new connection know each other. -/
theorem linked_link (hne : q ≠ j) (hs : s ∈ (w.member j).peers) (hsid : s.id = (w.member q).myId)
    (hlinks : w.links j q = []) : (w.link net sockets j q s).Linked j q := by
  refine ⟨{ s with sockFd := some (sockets.dialerFd q) }, ?_, w.acceptedPeer net sockets j q, ?_,
    sockets.dialerFd q, sockets.acceptorFd q, ?_, rfl, ?_, rfl, .inl ?_⟩
  · rw [link_member_dialer hne]
    exact List.mem_map.mpr ⟨s, hs, if_pos rfl⟩
  · rw [link_member_acceptor]
    exact List.mem_append_right _ (List.mem_singleton_self _)
  · rw [link_myId, hsid]
  · rw [link_myId]
    rfl
  · rw [link_links, hlinks, if_pos (by simp [Connection.between]), List.nil_append]

/-- Nodes that are linked stay so when `j` connects to `q`. -/
theorem Tables.linked_link_of_ne (h : Tables net w nodes unlinked) (hj : j ∈ nodes) (hq : q ∈ nodes)
    (hne : q ≠ j) (hsid : s.id = (w.member q).myId) {a b : N} (ha : a ∈ nodes) (hb : b ∈ nodes)
    (hab : ¬ (a = j ∧ b = q)) (hba : ¬ (a = q ∧ b = j)) (hlinked : w.Linked a b) :
    (w.link net sockets j q s).Linked a b := by
  have hkeep : ∀ c ∈ nodes, ∀ d ∈ nodes, ¬ (c = j ∧ d = q) → ∀ t ∈ (w.member c).peers,
      t.id = (w.member d).myId → t ∈ ((w.link net sockets j q s).member c).peers := by
    intro c hc d hd hcd t ht htid
    by_cases hcq : c = q
    · subst hcq
      rw [link_member_acceptor]
      exact List.mem_append_left _ ht
    · by_cases hcj : c = j
      · subst hcj
        rw [link_member_dialer hne]
        refine List.mem_map.mpr ⟨t, ht, if_neg fun heq ↦ hcd ⟨rfl, ?_⟩⟩
        exact h.myId_inj hd hq (by rw [← htid, heq, hsid])
      · rwa [link_member_of_ne hcj hcq]
  refine hlinked.of_keep (link_myId _ _ a) (link_myId _ _ b) (hkeep a ha b hb hab)
    (hkeep b hb a ha fun hcd ↦ hba ⟨hcd.2, hcd.1⟩) (link_links_of_ne hab hba)

theorem Tables.link {todo : List N} (h : Tables net w nodes fun a b ↦ a = j ∧ b ∈ todo)
    (hj : j ∈ nodes) (hq : q ∈ nodes) (htodo : Todo net sockets w j q)
    (hs : s ∈ (w.member j).peers) (hsid : s.id = (w.member q).myId)
    (hreach : net.reaches ((sockets.remoteAddr q).setPort (net.listenPort j)) = some j) :
    Tables net (w.link net sockets j q s) nodes
      fun a b ↦ a = j ∧ b ∈ todo.filter (· ≠ q) := by
  obtain ⟨before, after, hsplit, hother⟩ := h.split hj hs
  have hdialer : ((w.link net sockets j q s).member j).peers =
      before ++ { s with sockFd := some (sockets.dialerFd q) } :: after := by
    rw [link_member_dialer htodo.ne, ← map_setPeer hother, ← hsplit]
  have hnone : s.sockFd = none := by
    obtain ⟨t, ht, htid, htfd⟩ := htodo.listed
    rw [h.eq_of_id hj hs ht (hsid.trans htid.symm), htfd]
  refine ⟨h.nodup, ?_, fun p hp ↦ ?_, fun p hp ↦ ?_, fun p hp t ht ↦ ?_, fun c hc ↦ ?_,
    fun a ha b hb hab hua hub ↦ ?_⟩
  · simpa using h.ids
  · have hnodup := h.nodupIds p hp
    by_cases hpq : p = q
    · subst hpq
      rw [link_member_acceptor, List.map_append]
      refine List.nodup_append.mpr ⟨hnodup, List.nodup_singleton _, ?_⟩
      intro id hid id' hid' heq
      obtain ⟨t, ht, rfl⟩ := List.mem_map.mp hid
      obtain rfl := List.mem_singleton.mp hid'
      exact htodo.absent t ht heq
    · by_cases hpj : p = j
      · subst hpj
        rw [hdialer]
        rw [hsplit] at hnodup
        simpa using hnodup
      · rwa [link_member_of_ne hpj hpq]
  · have hnodup := h.nodupFds p hp
    by_cases hpq : p = q
    · subst hpq
      rw [link_member_acceptor, List.filterMap_append]
      refine List.nodup_append.mpr ⟨hnodup, by simp [acceptedPeer], ?_⟩
      intro fd hfd fd' hfd' heq
      obtain ⟨t, ht, htfd⟩ := List.mem_filterMap.mp hfd
      obtain rfl : fd' = sockets.acceptorFd p := by simpa [acceptedPeer] using hfd'
      exact htodo.acceptorFd t ht (heq ▸ htfd)
    · by_cases hpj : p = j
      · subst hpj
        rw [hdialer, List.filterMap_append,
          List.filterMap_cons_some (f := PeerInformation.sockFd) rfl, List.nodup_middle,
          ← List.filterMap_append]
        rw [hsplit, List.filterMap_append, List.filterMap_cons_none hnone,
          ← List.filterMap_append] at hnodup
        refine List.nodup_cons.mpr ⟨fun hfd ↦ ?_, hnodup⟩
        obtain ⟨t, ht, htfd⟩ := List.mem_filterMap.mp hfd
        refine htodo.dialerFd t ?_ htfd
        rw [hsplit]
        rcases List.mem_append.mp ht with ht | ht
        · exact List.mem_append_left _ ht
        · exact List.mem_append_right _ (List.mem_cons_of_mem s ht)
      · rwa [link_member_of_ne hpj hpq]
  · simp only [link_myId]
    by_cases hpq : p = q
    · subst hpq
      rw [link_member_acceptor] at ht
      rcases List.mem_append.mp ht with ht | ht
      · exact h.known p hp t ht
      · obtain rfl := List.mem_singleton.mp ht
        exact ⟨j, hj, htodo.ne.symm, rfl, hreach⟩
    · by_cases hpj : p = j
      · subst hpj
        rw [link_member_dialer htodo.ne] at ht
        obtain ⟨t', ht', rfl⟩ := List.mem_map.mp ht
        split
        · exact h.known p hp s hs
        · exact h.known p hp t' ht'
      · rw [link_member_of_ne hpj hpq] at ht
        exact h.known p hp t ht
  · rw [link_connections] at hc
    rcases List.mem_append.mp hc with hc | hc
    · exact h.ends c hc
    · obtain rfl := List.mem_singleton.mp hc
      exact ⟨hj, hq⟩
  · by_cases hjq : a = j ∧ b = q
    · obtain ⟨rfl, rfl⟩ := hjq
      exact linked_link htodo.ne hs hsid htodo.links
    · by_cases hqj : a = q ∧ b = j
      · obtain ⟨rfl, rfl⟩ := hqj
        exact (linked_link htodo.ne hs hsid htodo.links).symm
      · refine h.linked_link_of_ne hj hq htodo.ne hsid ha hb hjq hqj (h.linked a ha b hb hab ?_ ?_)
        · exact fun hu ↦ hua ⟨hu.1, List.mem_filter.mpr
            ⟨hu.2, by simpa using fun hbq ↦ hjq ⟨hu.1, hbq⟩⟩⟩
        · exact fun hu ↦ hub ⟨hu.1, List.mem_filter.mpr
            ⟨hu.2, by simpa using fun haq ↦ hqj ⟨haq, hu.1⟩⟩⟩

theorem Todo.link {r : N} (h : Todo net sockets w j r) (hne : q ≠ j) (hrq : r ≠ q)
    (hid : s.id ≠ (w.member r).myId) (hfd : sockets.dialerFd q ≠ sockets.dialerFd r) :
    Todo net sockets (w.link net sockets j q s) j r := by
  refine ⟨h.ne, ?_, ?_, ?_, ?_, ?_⟩
  · obtain ⟨t, ht, htid, htfd⟩ := h.listed
    refine ⟨t, ?_, by rw [htid, link_myId], htfd⟩
    rw [link_member_dialer hne]
    exact List.mem_map.mpr ⟨t, ht, if_neg fun heq ↦ hid (heq.symm.trans htid)⟩
  · rw [link_member_of_ne h.ne hrq, link_myId]
    exact h.absent
  · rw [link_links_of_ne (fun hr ↦ hrq hr.2) (fun hr ↦ h.ne hr.2), h.links]
  · rw [link_member_dialer hne]
    intro t ht
    obtain ⟨t', ht', rfl⟩ := List.mem_map.mp ht
    split
    · exact fun heq ↦ hfd (Option.some.inj heq)
    · exact h.dialerFd t' ht'
  · rw [link_member_of_ne h.ne hrq]
    exact h.acceptorFd

end

end World

end Edsm.Proto
