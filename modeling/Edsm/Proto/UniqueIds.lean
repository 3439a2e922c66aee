import Edsm.Proto.ConcurrentJoin

/-!
# Ids of nodes that join at the same time

As long as every id is assigned by a node that knows the largest one, ids grow in
the order of their assignment, and a node connects only to nodes with smaller
ids.  So the table of the accepting node cannot hold the id of the other one yet.
-/

namespace Edsm.Proto.Joins

variable {N : Type*} {net : Network N} {s s' : Joins N} {j p q : N}
variable {x y : UInt32} {t u : PeerInformation}

/-- `q` has got its id before the id `x` was assigned, and has not entered `x`. -/
def Owed (s : Joins N) (q : N) (x : UInt32) : Prop :=
  (∃ y, s.given q = some y ∧ y < x) ∧ (∀ u ∈ (s.proc q).peers, u.id ≠ x) ∧
    ∀ u, (s.proc q).accepting = some u → u.id ≠ x

/-- The entry is the one of `q`. -/
def Names (net : Network N) (s : Joins N) (t : PeerInformation) (q : N) : Prop :=
  s.given q = some t.id ∧ net.reaches t.addr = some q

/-- What holds where the main thread is. -/
def MainInv (net : Network N) (s : Joins N) (p : N) : Main N → Prop
  | .fresh => s.given p = none
  | .founder => True
  | .connecting => (s.proc p).myId ≠ 0
  | .dialed peer false acceptor myId => myId = 0 ∧ (s.proc p).myId = 0 ∧ s.given p = none ∧
      net.reaches peer.addr = some acceptor ∧ peer.sockFd ≠ none ∧ s.InGroup acceptor
  | .dialed peer true acceptor myId => myId ≠ 0 ∧ myId = (s.proc p).myId ∧
      s.given acceptor = some peer.id ∧ s.Owed acceptor myId ∧
      (∃ t ∈ (s.proc p).peers, t.id = peer.id) ∧
      ∀ t ∈ (s.proc p).peers, t.sockFd = none → t.id ≠ peer.id
  | .answered peer true response => (s.proc p).myId ≠ 0 ∧
      (∃ t ∈ (s.proc p).peers, t.id = peer.id) ∧
      ∃ y, response = Message.word y ∧ (y = 0 ∨ y = peer.id)
  | .answered peer false response => (s.proc p).myId = 0 ∧ peer.sockFd ≠ none ∧
      ∃ m y x peers, response = Message.word y ++ (Message.word x ++ peerlist peers) ∧
        s.given p = some x ∧ s.given m = some y ∧ net.reaches peer.addr = some m ∧ y < x ∧
        peers.length < 2 ^ 32 ∧ (peers.map PeerInformation.id).Nodup ∧
        ((∀ t ∈ (s.proc p).peers, x < t.id) ∧
          ∀ t, (s.proc p).accepting = some t → x < t.id) ∧
        ∀ t ∈ peers, t.id ≠ y ∧ ∃ q, s.Names net t q ∧ s.Owed q x

/-- What holds of every node. -/
structure ProcInv (net : Network N) (s : Joins N) (p : N) : Prop where
  ungiven : s.given p = none → (s.proc p).peers = [] ∧ (s.proc p).accepting = none
  inGroup : s.InGroup p → s.given p = some (s.proc p).myId
  entry : ∀ t ∈ (s.proc p).peers, ∃ q, s.Names net t q ∧
    (t.sockFd = none → ∃ x, s.given p = some x ∧ s.Owed q x)
  own : ∀ x, s.given p = some x → ∀ t ∈ (s.proc p).peers, t.id ≠ x
  nodupIds : ((s.proc p).peers.map PeerInformation.id).Nodup
  accepting : ∀ t, (s.proc p).accepting = some t → (∃ q, s.Names net t q) ∧ t.sockFd ≠ none ∧
    (∀ u ∈ (s.proc p).peers, u.id ≠ t.id) ∧ ∀ x, s.given p = some x → t.id ≠ x
  main : s.MainInv net p (s.proc p).main
  aborted : (s.proc p).aborted ≠ some .newConnection

structure Inv (net : Network N) (s : Joins N) : Prop where
  given_inj : ∀ p q x, s.given p = some x → s.given q = some x → p = q
  given_ne_zero : ∀ p, s.given p ≠ some 0
  proc : ∀ p, s.ProcInv net p

theorem Inv.unique (h : s.Inv net) : s.Unique := by
  refine ⟨fun p q hp hq heq ↦ ?_, fun q ↦ (h.proc q).aborted⟩
  exact h.given_inj p q _ ((h.proc p).inGroup hp) (heq ▸ (h.proc q).inGroup hq)

/-! ## Steps of the other nodes -/

/-- What a node needs to stay as it is when others take a step. -/
structure Keeps (s s' : Joins N) (p : N) : Prop where
  given : ∀ q x, s.given q = some x → s'.given q = some x
  owed : ∀ q x, s.given p = some x → s.Owed q x → s'.Owed q x
  inGroup : ∀ q, s.InGroup q → s'.InGroup q

theorem Names.keep (h : s.Names net t q)
    (hgiven : ∀ q x, s.given q = some x → s'.given q = some x) : s'.Names net t q :=
  ⟨hgiven q _ h.1, h.2⟩

theorem Owed.keep (h : s.Owed q x) (hgiven : ∀ q x, s.given q = some x → s'.given q = some x)
    (hpeers : ∀ u ∈ (s'.proc q).peers, (∃ v ∈ (s.proc q).peers, v.id = u.id) ∨
      (s.proc q).accepting = some u ∨ u.id ≠ x)
    (haccepting : ∀ u, (s'.proc q).accepting = some u →
      (s.proc q).accepting = some u ∨ u.id ≠ x) : s'.Owed q x := by
  obtain ⟨⟨y, hy, hlt⟩, habsent, habsent'⟩ := h
  refine ⟨⟨y, hgiven q y hy, hlt⟩, fun u hu ↦ ?_, fun u hu ↦ ?_⟩
  · rcases hpeers u hu with ⟨v, hv, heq⟩ | hu | hu
    · exact heq ▸ habsent v hv
    · exact habsent' u hu
    · exact hu
  · rcases haccepting u hu with hu | hu
    · exact habsent' u hu
    · exact hu

theorem Owed.ne (h : s.Owed q x) (hp : s.given p = some x) : q ≠ p := by
  rintro rfl
  obtain ⟨⟨y, hy, hlt⟩, -⟩ := h
  rw [hy] at hp
  exact absurd (Option.some.inj hp ▸ hlt) (UInt32.lt_irrefl x)

theorem inGroup_congr (h : s'.proc p = s.proc p) : s'.InGroup p ↔ s.InGroup p := by
  rw [InGroup, InGroup, h]

/-- The table may have grown by the peer that was being accepted, and a peer may be accepted whose
id is larger. -/
theorem ProcInv.main_keep (h : s.ProcInv net p) (hmyId : (s'.proc p).myId = (s.proc p).myId)
    (hold : ∀ t ∈ (s.proc p).peers, t ∈ (s'.proc p).peers)
    (hnew : ∀ t ∈ (s'.proc p).peers, t ∈ (s.proc p).peers ∨ (s.proc p).accepting = some t)
    (haccepting : ∀ t, (s'.proc p).accepting = some t →
      (s.proc p).accepting = some t ∨ ∀ x, s.given p = some x → x < t.id)
    (hgiven : s'.given p = s.given p) (hk : Keeps s s' p) :
    s'.MainInv net p (s.proc p).main := by
  have hmain := h.main
  cases heq : (s.proc p).main with
  | fresh =>
      rw [heq] at hmain
      exact hgiven.trans hmain
  | founder => trivial
  | connecting =>
      rw [heq] at hmain
      rw [MainInv, hmyId]
      exact hmain
  | dialed peer listed acceptor myId =>
      rw [heq] at hmain
      cases listed with
      | false =>
          obtain ⟨hid, hzero, hnone, hreach, hfd, hgroup⟩ := hmain
          exact ⟨hid, by rw [hmyId, hzero], by rw [hgiven, hnone], hreach, hfd,
            hk.inGroup _ hgroup⟩
      | true =>
          obtain ⟨hid, hown, hacceptor, howed, ⟨u, hu, huid⟩, hconnected⟩ := hmain
          have hx : s.given p = some myId := by
            rw [hown]
            exact h.inGroup ⟨by rw [heq]; trivial, hown ▸ hid⟩
          refine ⟨hid, by rw [hmyId, hown], hk.given _ _ hacceptor, hk.owed _ _ hx howed,
            ⟨u, hold u hu, huid⟩, fun t ht hnone ↦ ?_⟩
          rcases hnew t ht with ht | ht
          · exact hconnected t ht hnone
          · exact absurd hnone (h.accepting t ht).2.1
  | answered peer listed response =>
      rw [heq] at hmain
      cases listed with
      | false =>
          obtain ⟨hzero, hfd, m, y, x, peers, hresponse, hown, hm, hreach, hlt, hlength, hnodup,
            ⟨hearly, hearly'⟩, hpeers⟩ := hmain
          refine ⟨by rw [hmyId, hzero], hfd, m, y, x, peers, hresponse, by rw [hgiven, hown],
            hk.given _ _ hm, hreach, hlt, hlength, hnodup, ⟨fun t ht ↦ ?_, fun t ht ↦ ?_⟩,
            fun t ht ↦ ?_⟩
          · rcases hnew t ht with ht | ht
            · exact hearly t ht
            · exact hearly' t ht
          · rcases haccepting t ht with ht | ht
            · exact hearly' t ht
            · exact ht x hown
          · obtain ⟨hne, q, hq, howed⟩ := hpeers t ht
            exact ⟨hne, q, hq.keep hk.given, hk.owed _ _ hown howed⟩
      | true =>
          obtain ⟨hne, ⟨u, hu, huid⟩, hresponse⟩ := hmain
          exact ⟨by rwa [hmyId], ⟨u, hold u hu, huid⟩, hresponse⟩

theorem ProcInv.keep (h : s.ProcInv net p) (hproc : s'.proc p = s.proc p)
    (hgiven : s'.given p = s.given p) (hk : Keeps s s' p) : s'.ProcInv net p where
  ungiven hnone := by
    rw [hproc]
    exact h.ungiven (hgiven ▸ hnone)
  inGroup hgroup := by
    rw [hgiven, hproc]
    exact h.inGroup ((inGroup_congr hproc).mp hgroup)
  entry t ht := by
    rw [hproc] at ht
    obtain ⟨q, hq, howed⟩ := h.entry t ht
    refine ⟨q, hq.keep hk.given, fun hnone ↦ ?_⟩
    obtain ⟨x, hx, hox⟩ := howed hnone
    exact ⟨x, by rw [hgiven, hx], hk.owed _ _ hx hox⟩
  own x hx := by
    rw [hproc]
    exact h.own x (hgiven ▸ hx)
  nodupIds := by
    rw [hproc]
    exact h.nodupIds
  accepting t ht := by
    rw [hproc] at ht ⊢
    obtain ⟨⟨q, hq⟩, hfd, hnew, hown⟩ := h.accepting t ht
    exact ⟨⟨q, hq.keep hk.given⟩, hfd, hnew, fun x hx ↦ hown x (hgiven ▸ hx)⟩
  main := by
    rw [hproc]
    exact h.main_keep (by rw [hproc]) (fun t ht ↦ by rwa [hproc])
      (fun t ht ↦ .inl (by rwa [hproc] at ht)) (fun t ht ↦ .inl (by rwa [hproc] at ht)) hgiven hk
  aborted := by
    rw [hproc]
    exact h.aborted

/-! ## Steps of one node -/

variable [DecidableEq N]

@[simp] theorem setProc_proc_self (s : Joins N) (p : N) (proc : Process N) :
    (s.setProc p proc).proc p = proc := by simp [setProc]

theorem setProc_proc_of_ne (s : Joins N) (proc : Process N) (h : q ≠ p) :
    (s.setProc p proc).proc q = s.proc q := by simp [setProc, h]

@[simp] theorem setProc_given (s : Joins N) (p : N) (proc : Process N) :
    (s.setProc p proc).given = s.given := rfl

theorem owed_setProc_of_ne (proc : Process N) (h : q ≠ p) :
    (s.setProc p proc).Owed q x ↔ s.Owed q x := by
  rw [Owed, Owed, setProc_proc_of_ne _ _ h, setProc_given]

theorem Inv.setProc (h : s.Inv net) {proc : Process N} (hp : (s.setProc p proc).ProcInv net p)
    (howed : ∀ r x, r ≠ p → s.given r = some x → s.Owed p x → (s.setProc p proc).Owed p x)
    (hgroup : s.InGroup p → (s.setProc p proc).InGroup p) : (s.setProc p proc).Inv net where
  given_inj := h.given_inj
  given_ne_zero := h.given_ne_zero
  proc r := by
    by_cases hrp : r = p
    · exact hrp ▸ hp
    · refine (h.proc r).keep (setProc_proc_of_ne _ _ hrp) rfl ⟨fun _ _ ↦ id, fun q x hx hq ↦ ?_,
        fun q hq ↦ ?_⟩
      · by_cases hqp : q = p
        · subst hqp
          exact howed r x hrp hx hq
        · exact (owed_setProc_of_ne proc hqp).mpr hq
      · by_cases hqp : q = p
        · subst hqp
          exact hgroup hq
        · exact (inGroup_congr (setProc_proc_of_ne _ _ hqp)).mpr hq

theorem inv_join (h : s.Inv net) {addr : SockAddr} {fd : Fd}
    (hst : s.stepJoin net j addr fd = some s') : s'.Inv net := by
  rw [stepJoin] at hst
  split at hst
  · next m hmain hreach =>
      split at hst
      · next hgroup =>
          obtain rfl := Option.some.inj hst
          have hj := h.proc j
          have hnone : s.given j = none := by
            have hm := hj.main
            rwa [hmain] at hm
          obtain ⟨hpeers, haccepting⟩ := hj.ungiven hnone
          have hfresh : ¬ s.InGroup j := fun hg ↦ by
            rw [InGroup, hmain] at hg
            exact hg.1
          refine h.setProc
            ⟨fun _ ↦ by simp [hpeers, haccepting], fun hg ↦ ?_, ?_, ?_, ?_, ?_, ?_, ?_⟩
            (fun r x _ _ hq ↦ ?_) (fun hg ↦ absurd hg hfresh)
          · exact absurd (by simp) hg.2
          · simp [hpeers]
          · simp [hpeers]
          · simp [hpeers]
          · simp [haccepting]
          · rw [setProc_proc_self]
            refine ⟨rfl, by simp, hnone, hreach, Option.some_ne_none fd, ?_⟩
            have hmj : m ≠ j := fun heq ↦ hfresh (heq ▸ hgroup)
            exact (inGroup_congr (setProc_proc_of_ne _ _ hmj)).mpr hgroup
          · simpa using hj.aborted
          · obtain ⟨⟨y, hy, -⟩, -⟩ := hq
            rw [hnone] at hy
            cases hy
      · cases hst
  · cases hst

theorem Owed.setProc_ids {proc : Process N} (h : s.Owed p x)
    (hpeers : ∀ u ∈ proc.peers, ∃ v ∈ (s.proc p).peers, v.id = u.id)
    (haccepting : proc.accepting = (s.proc p).accepting) : (s.setProc p proc).Owed p x := by
  refine h.keep (fun _ _ ↦ id) (fun u hu ↦ .inl (hpeers u ?_)) fun u hu ↦ .inl ?_
  · rwa [setProc_proc_self] at hu
  · rwa [setProc_proc_self, haccepting] at hu

theorem inv_connect (h : s.Inv net) {fd : Fd} (hst : s.stepConnect net j fd = some s') :
    s'.Inv net := by
  rw [stepConnect] at hst
  split at hst
  · next peer hmain habort hfind =>
      split at hst
      · cases hst
      · next q hreach =>
          obtain rfl := Option.some.inj hst
          have hj := h.proc j
          have hpeer := List.mem_of_find?_eq_some hfind
          have hnone : peer.sockFd = none := by simpa using List.find?_some hfind
          have hmyId : (s.proc j).myId ≠ 0 := by
            have hm := hj.main
            rwa [hmain] at hm
          have hown : s.given j = some (s.proc j).myId :=
            hj.inGroup ⟨by rw [hmain]; trivial, hmyId⟩
          obtain ⟨q', ⟨hq', hreach'⟩, howed⟩ := hj.entry peer hpeer
          obtain rfl : q' = q := Option.some.inj (hreach'.symm.trans hreach)
          obtain ⟨x, hx, hox⟩ := howed hnone
          obtain rfl := Option.some.inj (hown.symm.trans hx)
          let peer' := { peer with sockFd := some fd }
          -- every new entry is an old one or has the descriptor
          have hmem : ∀ u ∈ (s.proc j).peers.map (fun t ↦ if t.id = peer'.id then peer' else t),
              u = peer' ∨ u ∈ (s.proc j).peers ∧ u.id ≠ peer.id := by
            intro u hu
            obtain ⟨v, hv, rfl⟩ := List.mem_map.mp hu
            split
            · exact .inl rfl
            · next hne => exact .inr ⟨hv, hne⟩
          have hids : ∀ u ∈ (s.proc j).peers.map (fun t ↦ if t.id = peer'.id then peer' else t),
              ∃ v ∈ (s.proc j).peers, v.id = u.id := by
            intro u hu
            rcases hmem u hu with rfl | ⟨hu, -⟩
            · exact ⟨peer, hpeer, rfl⟩
            · exact ⟨u, hu, rfl⟩
          refine h.setProc ⟨fun hn ↦ ?_, fun _ ↦ by rw [setProc_proc_self]; exact hown, ?_, ?_, ?_,
            ?_, ?_, ?_⟩ (fun r x hr hx hq ↦ hq.setProc_ids hids rfl) (fun _ ↦ ?_)
          · rw [setProc_given, hown] at hn
            cases hn
          · rw [setProc_proc_self]
            intro u hu
            rcases hmem u hu with rfl | ⟨hu, -⟩
            · exact ⟨q', ⟨hq', hreach'⟩, fun hn ↦ by cases hn⟩
            · obtain ⟨r, hr, hor⟩ := hj.entry u hu
              refine ⟨r, hr, fun hn ↦ ?_⟩
              obtain ⟨x, hx, hox⟩ := hor hn
              exact ⟨x, hx, (owed_setProc_of_ne _ (hox.ne hx)).mpr hox⟩
          · rw [setProc_proc_self]
            intro x hx u hu
            obtain ⟨v, hv, heq⟩ := hids u hu
            exact heq ▸ hj.own x hx v hv
          · rw [setProc_proc_self]
            have hmap : ((s.proc j).peers.map fun t ↦ if t.id = peer'.id then peer' else t).map
                PeerInformation.id = (s.proc j).peers.map PeerInformation.id := by
              rw [List.map_map]
              refine List.map_congr_left fun v _ ↦ ?_
              by_cases hv : v.id = peer'.id
              · simp [hv]
              · simp [hv]
            exact (congrArg List.Nodup hmap).mpr hj.nodupIds
          · rw [setProc_proc_self]
            intro a ha
            obtain ⟨hnames, hfd, hnew, hne⟩ := hj.accepting a ha
            refine ⟨hnames, hfd, fun u hu ↦ ?_, hne⟩
            obtain ⟨v, hv, heq⟩ := hids u hu
            exact heq ▸ hnew v hv
          · rw [setProc_proc_self]
            refine ⟨hmyId, by rw [setProc_proc_self], hq', ?_, ?_, ?_⟩
            · exact (owed_setProc_of_ne _ (hox.ne hx)).mpr hox
            · rw [setProc_proc_self]
              exact ⟨peer', List.mem_map.mpr ⟨peer, hpeer, if_pos rfl⟩, rfl⟩
            · rw [setProc_proc_self]
              intro u hu hn
              rcases hmem u hu with rfl | ⟨-, hne⟩
              · cases hn
              · exact hne
          · rw [setProc_proc_self]
            exact hj.aborted
          · rw [InGroup, setProc_proc_self]
            exact ⟨trivial, hmyId⟩
  · cases hst

theorem inv_add (h : s.Inv net) (hst : s.stepAdd q = some s') : s'.Inv net := by
  rw [stepAdd] at hst
  split at hst
  · next peer haccepting habort =>
      have hq := h.proc q
      obtain ⟨⟨r, hr⟩, hfd, hnew, hne⟩ := hq.accepting peer haccepting
      rw [hashFind_eq_none.mpr hnew] at hst
      obtain rfl := Option.some.inj hst
      have hmem : ∀ u ∈ (s.proc q).peers ++ [peer], u ∈ (s.proc q).peers ∨ u = peer :=
        fun u hu ↦ by simpa using hu
      have howed : ∀ {x}, s.Owed q x → (s.setProc q { s.proc q with
          accepting := none
          peers := (s.proc q).peers ++ [peer] }).Owed q x := fun ho ↦ by
        refine ho.keep (fun _ _ ↦ id) (fun u hu ↦ ?_) (fun u hu ↦ ?_)
        · rw [setProc_proc_self] at hu
          rcases hmem u hu with hu | rfl
          · exact .inl ⟨u, hu, rfl⟩
          · exact .inr (.inl haccepting)
        · rw [setProc_proc_self] at hu
          cases hu
      have hgroup : s.InGroup q ↔ (s.setProc q { s.proc q with
          accepting := none
          peers := (s.proc q).peers ++ [peer] }).InGroup q := by
        rw [InGroup, InGroup, setProc_proc_self]
      refine h.setProc ⟨fun hn ↦ ?_, fun hg ↦ ?_, ?_, ?_, ?_, ?_, ?_, ?_⟩ (fun _ _ _ _ ↦ howed)
        hgroup.mp
      · rw [(hq.ungiven hn).2] at haccepting
        cases haccepting
      · rw [setProc_proc_self]
        exact hq.inGroup (hgroup.mpr hg)
      · rw [setProc_proc_self]
        intro u hu
        rcases hmem u hu with hu | rfl
        · obtain ⟨r, hr, hor⟩ := hq.entry u hu
          refine ⟨r, hr, fun hn ↦ ?_⟩
          obtain ⟨x, hx, hox⟩ := hor hn
          exact ⟨x, hx, (owed_setProc_of_ne _ (hox.ne hx)).mpr hox⟩
        · exact ⟨r, hr, fun hn ↦ absurd hn hfd⟩
      · rw [setProc_proc_self]
        intro x hx u hu
        rcases hmem u hu with hu | rfl
        · exact hq.own x hx u hu
        · exact hne x hx
      · rw [setProc_proc_self]
        simp only [List.map_append, List.map_cons, List.map_nil]
        refine List.nodup_append.mpr ⟨hq.nodupIds, List.nodup_singleton _, ?_⟩
        intro id hid id' hid' heq
        obtain ⟨u, hu, rfl⟩ := List.mem_map.mp hid
        obtain rfl := List.mem_singleton.mp hid'
        exact hnew u hu heq
      · rw [setProc_proc_self]
        exact fun a ha ↦ by cases ha
      · rw [setProc_proc_self]
        refine hq.main_keep (by rw [setProc_proc_self]) (fun u hu ↦ ?_) (fun u hu ↦ ?_)
          (fun u hu ↦ ?_) rfl ⟨fun _ _ ↦ id, fun r x hx ho ↦ ?_, fun r hg ↦ ?_⟩
        · rw [setProc_proc_self]
          exact List.mem_append_left _ hu
        · rw [setProc_proc_self] at hu
          rcases hmem u hu with hu | rfl
          · exact .inl hu
          · exact .inr haccepting
        · rw [setProc_proc_self] at hu
          cases hu
        · exact (owed_setProc_of_ne _ (ho.ne hx)).mpr ho
        · by_cases hrq : r = q
          · subst hrq
            exact hgroup.mp hg
          · exact (inGroup_congr (setProc_proc_of_ne _ _ hrq)).mpr hg
      · rw [setProc_proc_self]
        exact hq.aborted
  · cases hst

/-! ## The response -/

theorem Inv.setMain (h : s.Inv net) {main : Main N} {aborted : Option Abort}
    (haborted : aborted ≠ some .newConnection)
    (hgroup : (s.setProc j { s.proc j with main, aborted }).InGroup j ↔ s.InGroup j)
    (hmain : (s.setProc j { s.proc j with main, aborted }).MainInv net j main) :
    (s.setProc j { s.proc j with main, aborted }).Inv net := by
  have hj := h.proc j
  refine h.setProc ⟨fun hn ↦ ?_, fun hg ↦ ?_, ?_, ?_, ?_, ?_, ?_, ?_⟩
    (fun r x _ _ hq ↦ hq.setProc_ids (fun u hu ↦ ⟨u, hu, rfl⟩) rfl) hgroup.mpr
  · rw [setProc_proc_self]
    exact hj.ungiven hn
  · rw [setProc_proc_self]
    exact hj.inGroup (hgroup.mp hg)
  · rw [setProc_proc_self]
    intro t ht
    obtain ⟨q, hq, howed⟩ := hj.entry t ht
    refine ⟨q, hq, fun hn ↦ ?_⟩
    obtain ⟨x, hx, hox⟩ := howed hn
    exact ⟨x, hx, (owed_setProc_of_ne _ (hox.ne hx)).mpr hox⟩
  · rw [setProc_proc_self]
    exact hj.own
  · rw [setProc_proc_self]
    exact hj.nodupIds
  · rw [setProc_proc_self]
    exact hj.accepting
  · rw [setProc_proc_self]
    exact hmain
  · rwa [setProc_proc_self]

/-- A listed peer answers with the id under which it is listed, or with 0. -/
theorem inv_respond_listed (h : s.Inv net) {peer : PeerInformation} {response : List UInt8}
    (hmain : (s.proc j).main = .answered peer true response)
    (hst : s.stepRespond j = some s') : s'.Inv net := by
  have hj := h.proc j
  have hm := hj.main
  rw [hmain] at hm
  obtain ⟨hmyId, hlisted, y, rfl, hy⟩ := hm
  rw [stepRespond, hmain] at hst
  cases habort : (s.proc j).aborted with
  | some abort => simp [habort] at hst
  | none =>
      simp only [habort] at hst
      by_cases hzero : y = 0
      · subst hzero
        have herror : readAndHandleInitResponse (s.proc j).myId peer (s.proc j).peers
            (msgTypeProtoInit, Message.word 0) = .error .assertion := by
          rfl
        simp only [herror] at hst
        obtain rfl := Option.some.inj hst
        refine h.setMain (by decide) ?_ ?_
        · rw [InGroup, InGroup, setProc_proc_self]
        · rw [hmain]
          exact ⟨by rw [setProc_proc_self]; exact hmyId, by rw [setProc_proc_self]; exact hlisted,
            0, rfl, hy⟩
      · obtain rfl : y = peer.id := hy.resolve_left hzero
        simp only [readAndHandleInitResponse_listed _ _ _ hzero hmyId hlisted] at hst
        rw [if_neg fun hkey ↦ hkey.2 rfl] at hst
        obtain rfl := Option.some.inj hst
        refine h.setMain (by decide) ?_ ?_
        · rw [InGroup, InGroup, setProc_proc_self, hmain]
          exact Iff.rfl
        · rw [MainInv, setProc_proc_self]
          exact hmyId

theorem inv_respond_new (h : s.Inv net) {peer : PeerInformation} {response : List UInt8}
    (hmain : (s.proc j).main = .answered peer false response)
    (hst : s.stepRespond j = some s') : s'.Inv net := by
  have hj := h.proc j
  have hm := hj.main
  rw [hmain] at hm
  obtain ⟨hmyId, hfd, m, y, x, peers, rfl, hown, hm, hreach, hlt, hlength, hnodup,
    ⟨hearly, hearly'⟩, hpeers⟩ := hm
  rw [stepRespond, hmain] at hst
  cases habort : (s.proc j).aborted with
  | some abort => simp [habort] at hst
  | none =>
      have hsmall : ∀ t ∈ peers, t.id < x := by
        intro t ht
        obtain ⟨-, q, hq, ⟨z, hz, hzx⟩, -⟩ := hpeers t ht
        exact Option.some.inj (hz.symm.trans hq.1) ▸ hzx
      have hy : y ≠ 0 := fun hzero ↦ h.given_ne_zero m (hzero ▸ hm)
      have hx : x ≠ 0 := fun hzero ↦ h.given_ne_zero j (hzero ▸ hown)
      have hnodup' : (((s.proc j).peers ++ peers).map PeerInformation.id).Nodup := by
        rw [List.map_append]
        refine List.nodup_append.mpr ⟨hj.nodupIds, hnodup, ?_⟩
        intro id hid id' hid' heq
        obtain ⟨t, ht, rfl⟩ := List.mem_map.mp hid
        obtain ⟨u, hu, rfl⟩ := List.mem_map.mp hid'
        exact absurd (UInt32.lt_trans (hsmall u hu) (heq ▸ hearly t ht)) (UInt32.lt_irrefl _)
      have hnew : ∀ t ∈ (s.proc j).peers ++ peers, t.id ≠ y := by
        intro t ht heq
        rcases List.mem_append.mp ht with ht | ht
        · exact absurd (UInt32.lt_trans hlt (heq ▸ hearly t ht)) (UInt32.lt_irrefl y)
        · exact (hpeers t ht).1 heq
      simp only [habort, hmyId,
        readAndHandleInitResponse_new x peer (s.proc j).peers hy hlength hnodup' hnew] at hst
      rw [if_neg fun hkey ↦ by cases hkey.1] at hst
      obtain rfl := Option.some.inj hst
      have hmem : ∀ u ∈ (s.proc j).peers ++ peers.map PeerInformation.listed ++
          [{ peer with id := y }], u ∈ (s.proc j).peers ∨ (∃ t ∈ peers, t.listed = u) ∨
            u = { peer with id := y } := by
        intro u hu
        simpa [or_assoc] using hu
      refine h.setProc ⟨fun hn ↦ ?_, fun _ ↦ by rw [setProc_proc_self]; exact hown, ?_, ?_, ?_, ?_,
        ?_, ?_⟩ (fun r z hrj hr hq ↦ ?_) (fun hg ↦ absurd hmyId hg.2)
      · rw [setProc_given, hown] at hn
        cases hn
      · rw [setProc_proc_self]
        intro u hu
        rcases hmem u hu with hu | ⟨t, ht, rfl⟩ | rfl
        · obtain ⟨q, hq, howed⟩ := hj.entry u hu
          refine ⟨q, hq, fun hn ↦ ?_⟩
          obtain ⟨z, hz, hoz⟩ := howed hn
          exact ⟨z, hz, (owed_setProc_of_ne _ (hoz.ne hz)).mpr hoz⟩
        · obtain ⟨-, q, hq, hox⟩ := hpeers t ht
          exact ⟨q, hq, fun _ ↦ ⟨x, hown, (owed_setProc_of_ne _ (hox.ne hown)).mpr hox⟩⟩
        · exact ⟨m, ⟨hm, hreach⟩, fun hn ↦ absurd hn hfd⟩
      · rw [setProc_proc_self]
        intro z hz u hu
        obtain rfl := Option.some.inj (hown.symm.trans hz)
        rcases hmem u hu with hu | ⟨t, ht, rfl⟩ | rfl
        · exact hj.own x hown u hu
        · exact UInt32.ne_of_lt (hsmall t ht)
        · exact UInt32.ne_of_lt hlt
      · rw [setProc_proc_self]
        have hids : ((s.proc j).peers ++ peers.map PeerInformation.listed ++
            [{ peer with id := y }]).map PeerInformation.id =
            ((s.proc j).peers ++ peers).map PeerInformation.id ++ [y] := by
          simp only [List.map_append, List.map_map]
          rfl
        refine (congrArg List.Nodup hids).mpr
          (List.nodup_append.mpr ⟨hnodup', List.nodup_singleton y, ?_⟩)
        intro id hid id' hid' heq
        obtain ⟨t, ht, rfl⟩ := List.mem_map.mp hid
        exact hnew t ht (heq.trans (List.mem_singleton.mp hid'))
      · rw [setProc_proc_self]
        intro a ha
        obtain ⟨hnames, hafd, hanew, hane⟩ := hj.accepting a ha
        have hax := hearly' a ha
        refine ⟨hnames, hafd, fun u hu ↦ ?_, hane⟩
        rcases hmem u hu with hu | ⟨t, ht, rfl⟩ | rfl
        · exact hanew u hu
        · exact UInt32.ne_of_lt (UInt32.lt_trans (hsmall t ht) hax)
        · exact UInt32.ne_of_lt (UInt32.lt_trans hlt hax)
      · rw [setProc_proc_self, MainInv, setProc_proc_self]
        exact hx
      · rw [setProc_proc_self]
        exact fun hn ↦ by cases hn
      · obtain ⟨w, hw, hwz⟩ := hq.1
        obtain rfl := Option.some.inj (hown.symm.trans hw)
        refine hq.keep (fun _ _ ↦ id) (fun u hu ↦ ?_) (fun u hu ↦ .inl ?_)
        · rw [setProc_proc_self] at hu
          rcases hmem u hu with hu | ⟨t, ht, rfl⟩ | rfl
          · exact .inl ⟨u, hu, rfl⟩
          · exact .inr (.inr (UInt32.ne_of_lt (UInt32.lt_trans (hsmall t ht) hwz)))
          · exact .inr (.inr (UInt32.ne_of_lt (UInt32.lt_trans hlt hwz)))
        · rwa [setProc_proc_self] at hu

theorem inv_respond (h : s.Inv net) (hst : s.stepRespond j = some s') : s'.Inv net := by
  cases hmain : (s.proc j).main with
  | answered peer listed response =>
      cases listed with
      | true => exact inv_respond_listed h hmain hst
      | false => exact inv_respond_new h hmain hst
  | fresh => simp [stepRespond, hmain] at hst
  | founder => simp [stepRespond, hmain] at hst
  | connecting => simp [stepRespond, hmain] at hst
  | dialed => simp [stepRespond, hmain] at hst

/-! ## The init message -/

/-- `q` answers `j` and is about to enter it under the id that `j` has now. -/
theorem Inv.accept (h : s.Inv net) {newPeer peer : PeerInformation} {listed : Bool}
    {response : List UInt8} (hne : q ≠ j)
    (hq' : s'.proc q = { s.proc q with accepting := some newPeer })
    (hj' : s'.proc j = { s.proc j with main := .answered peer listed response })
    (hother : ∀ r, r ≠ q → r ≠ j → s'.proc r = s.proc r)
    (hgiven : ∀ r, r ≠ j → s'.given r = s.given r) (hgivenj : s'.given j = some newPeer.id)
    (hmono : ∀ r z, s.given r = some z → s'.given r = some z)
    (hnew : ∀ r, r ≠ j → s.given r ≠ some newPeer.id) (hzero : newPeer.id ≠ 0)
    (hreach : net.reaches newPeer.addr = some j) (hfd : newPeer.sockFd ≠ none)
    (hy : s.given q = some y) (hlt : y < newPeer.id)
    (habsent : ∀ u ∈ (s.proc q).peers, u.id ≠ newPeer.id) (hjinv : s'.ProcInv net j) :
    s'.Inv net := by
  have hk : ∀ r, r ≠ j → Keeps s s' r := by
    refine fun r hrj ↦ ⟨hmono, fun o z hz ho ↦ ?_, fun o ho ↦ ?_⟩
    · have hzx : newPeer.id ≠ z := fun heq ↦ hnew r hrj (heq ▸ hz)
      by_cases hoq : o = q
      · subst hoq
        refine ho.keep hmono (fun u hu ↦ .inl ⟨u, by rwa [hq'] at hu, rfl⟩) fun u hu ↦ .inr ?_
        rw [hq'] at hu
        exact Option.some.inj hu ▸ hzx
      · have hsame : (s'.proc o).peers = (s.proc o).peers ∧
            (s'.proc o).accepting = (s.proc o).accepting := by
          by_cases hoj : o = j
          · subst hoj
            rw [hj']
            exact ⟨rfl, rfl⟩
          · rw [hother o hoq hoj]
            exact ⟨rfl, rfl⟩
        exact ho.keep hmono (fun u hu ↦ .inl ⟨u, by rwa [hsame.1] at hu, rfl⟩)
          fun u hu ↦ .inl (by rwa [hsame.2] at hu)
    · by_cases hoq : o = q
      · subst hoq
        rw [InGroup, hq']
        exact ho
      · by_cases hoj : o = j
        · subst hoj
          rw [InGroup, hj']
          exact ⟨trivial, ho.2⟩
        · exact (inGroup_congr (hother o hoq hoj)).mpr ho
  refine ⟨fun a b z ha hb ↦ ?_, fun r hr ↦ ?_, fun r ↦ ?_⟩
  · by_cases haj : a = j <;> by_cases hbj : b = j
    · rw [haj, hbj]
    · subst haj
      rw [hgiven b hbj] at hb
      exact absurd (hb.trans (ha.symm.trans hgivenj)) (hnew b hbj)
    · subst hbj
      rw [hgiven a haj] at ha
      exact absurd (ha.trans (hb.symm.trans hgivenj)) (hnew a haj)
    · rw [hgiven a haj] at ha
      rw [hgiven b hbj] at hb
      exact h.given_inj a b z ha hb
  · by_cases hrj : r = j
    · subst hrj
      exact hzero (Option.some.inj (hgivenj.symm.trans hr))
    · exact h.given_ne_zero r (hgiven r hrj ▸ hr)
  · by_cases hrj : r = j
    · exact hrj ▸ hjinv
    by_cases hrq : r = q
    · subst hrq
      have hq := h.proc r
      have hkr := hk r hrj
      refine ⟨fun hn ↦ ?_, fun hg ↦ ?_, fun t ht ↦ ?_, fun z hz ↦ ?_, ?_, fun t ht ↦ ?_, ?_, ?_⟩
      · rw [hgiven r hrj, hy] at hn
        cases hn
      · rw [InGroup, hq'] at hg
        rw [hgiven r hrj, hq']
        exact hq.inGroup hg
      · rw [hq'] at ht
        obtain ⟨o, ho, howed⟩ := hq.entry t ht
        refine ⟨o, ho.keep hmono, fun hn ↦ ?_⟩
        obtain ⟨z, hz, hoz⟩ := howed hn
        exact ⟨z, hmono r z hz, hkr.owed o z hz hoz⟩
      · rw [hq']
        exact hq.own z (hgiven r hrj ▸ hz)
      · rw [hq']
        exact hq.nodupIds
      · rw [hq'] at ht ⊢
        obtain rfl := Option.some.inj ht
        refine ⟨⟨j, hgivenj, hreach⟩, hfd, habsent, fun z hz heq ↦ ?_⟩
        exact hnew r hrj ((hgiven r hrj).symm.trans (heq ▸ hz))
      · rw [hq']
        refine hq.main_keep (by rw [hq']) (fun t ht ↦ by rwa [hq'])
          (fun t ht ↦ .inl (by rwa [hq'] at ht)) (fun t ht ↦ .inr fun z hz ↦ ?_)
          (hgiven r hrj) hkr
        rw [hq'] at ht
        exact Option.some.inj ht ▸ Option.some.inj (hy.symm.trans hz) ▸ hlt
      · rw [hq']
        exact hq.aborted
    · exact (h.proc r).keep (hother r hrq hrj) (hgiven r hrj) (hk r hrj)

theorem inv_accept_listed (h : s.Inv net) {peer newPeer : PeerInformation} {myId : UInt32}
    (hmain : (s.proc j).main = .dialed peer true q myId) (hid : newPeer.id = myId)
    (hreach : net.reaches newPeer.addr = some j) (hfd : newPeer.sockFd ≠ none) :
    ((s.setProc q { s.proc q with accepting := some newPeer }).setProc j { s.proc j with
      main := .answered peer true (Message.word (s.proc q).myId) }).Inv net := by
  have hj := h.proc j
  have hm := hj.main
  rw [hmain] at hm
  obtain ⟨hne, hmyId, hpeer, howed, hlisted, hconnected⟩ := hm
  subst hid
  have hown : s.given j = some newPeer.id := by
    rw [hmyId]
    exact hj.inGroup ⟨by rw [hmain]; trivial, hmyId ▸ hne⟩
  obtain ⟨y, hy, hlt⟩ := howed.1
  have hqj := howed.ne hown
  have hq' := setProc_proc_of_ne (s.setProc q { s.proc q with accepting := some newPeer })
    { s.proc j with main := .answered peer true (Message.word (s.proc q).myId) } hqj
  rw [setProc_proc_self] at hq'
  have hother : ∀ r, r ≠ q → r ≠ j → ((s.setProc q { s.proc q with
      accepting := some newPeer }).setProc j { s.proc j with
        main := .answered peer true (Message.word (s.proc q).myId) }).proc r = s.proc r :=
    fun r hrq hrj ↦ (setProc_proc_of_ne _ _ hrj).trans (setProc_proc_of_ne _ _ hrq)
  refine h.accept hqj hq' (setProc_proc_self _ _ _) hother (fun _ _ ↦ rfl) hown (fun _ _ ↦ id)
    (fun r hrj hr ↦ hrj (h.given_inj r j _ hr hown)) hne hreach hfd hy hlt howed.2.1 ?_
  refine ⟨fun hn ↦ ?_, fun _ ↦ ?_, ?_, ?_, ?_, ?_, ?_, ?_⟩
  · rw [setProc_given, setProc_given, hown] at hn
    cases hn
  · rw [setProc_proc_self, setProc_given, setProc_given, hown, hmyId]
  · rw [setProc_proc_self]
    intro t ht
    obtain ⟨r, hr, hor⟩ := hj.entry t ht
    refine ⟨r, hr, fun hn ↦ ?_⟩
    obtain ⟨z, hz, hoz⟩ := hor hn
    have hrq : r ≠ q := by
      rintro rfl
      exact hconnected t ht hn (Option.some.inj (hr.1.symm.trans hpeer))
    refine ⟨z, hz, (owed_setProc_of_ne _ (hoz.ne hz)).mpr ((owed_setProc_of_ne _ hrq).mpr hoz)⟩
  · rw [setProc_proc_self]
    exact hj.own
  · rw [setProc_proc_self]
    exact hj.nodupIds
  · rw [setProc_proc_self]
    exact hj.accepting
  · rw [setProc_proc_self]
    refine ⟨by rw [setProc_proc_self]; exact hmyId ▸ hne, by rw [setProc_proc_self]; exact hlisted,
      (s.proc q).myId, rfl, ?_⟩
    by_cases hzero : (s.proc q).myId = 0
    · exact .inl hzero
    · refine .inr (Option.some.inj (((h.proc q).inGroup ⟨?_, hzero⟩).symm.trans hpeer))
      have hmq := (h.proc q).main
      cases hmainq : (s.proc q).main with
      | fresh =>
          rw [hmainq] at hmq
          exact absurd (hmq.symm.trans hpeer) (Option.some_ne_none _).symm
      | founder | dialed | answered | connecting => trivial
  · rw [setProc_proc_self]
    exact hj.aborted

/-- There are no more than 2^32 ids. -/
theorem length_ids_le {ids : List UInt32} (h : ids.Nodup) : ids.length ≤ 2 ^ 32 := by
  have hfin : (ids.map UInt32.toFin).Nodup := h.map fun a b hab ↦ UInt32.toFin_inj.mp hab
  have hle := hfin.length_le_card
  rwa [List.length_map, Fintype.card_fin] at hle

omit [DecidableEq N] in
theorem Inv.length_peers_lt (h : s.Inv net) (hq : s.given q = some y) :
    (s.proc q).peers.length < 2 ^ 32 := by
  have hnodup : (y :: (s.proc q).peers.map PeerInformation.id).Nodup := by
    refine List.nodup_cons.mpr ⟨fun hmem ↦ ?_, (h.proc q).nodupIds⟩
    obtain ⟨t, ht, heq⟩ := List.mem_map.mp hmem
    exact (h.proc q).own y hq t ht heq
  have hle := length_ids_le hnodup
  rw [List.length_cons, List.length_map] at hle
  omega

omit [DecidableEq N] in
/-- A node that knows the largest id assigns one that is larger than all. -/
theorem Inv.getNextPeerId_spec (h : s.Inv net) (hgroup : s.InGroup q) {maxId : UInt32}
    (hmax : maxId = (s.proc q).myId ∨ ∃ t ∈ (s.proc q).peers, t.id = maxId)
    (hle : ∀ p x, s.given p = some x → x ≤ maxId) (hlt : maxId.toNat + 1 < 2 ^ 32) :
    ∀ p x, s.given p = some x → x < getNextPeerId (s.proc q).myId (s.proc q).peers := by
  have hown := (h.proc q).inGroup hgroup
  have hnext : getNextPeerId (s.proc q).myId (s.proc q).peers = maxId + 1 := by
    refine getNextPeerId_eq (fun t ht ↦ ?_) (hle q _ hown) (hmax.imp_left Eq.symm)
    obtain ⟨r, hr, -⟩ := (h.proc q).entry t ht
    exact hle r _ hr.1
  intro p x hx
  rw [hnext, UInt32.lt_iff_toNat_lt, UInt32.toNat_add]
  have hxle := UInt32.le_iff_toNat_le.mp (hle p x hx)
  have hone : (1 : UInt32).toNat = 1 := rfl
  rw [hone, Nat.mod_eq_of_lt hlt]
  omega

/-- A node without an id gets one, and the list of the peers of `q`. -/
theorem inv_accept_new (h : s.Inv net) {peer newPeer : PeerInformation} {myId : UInt32}
    (hmain : (s.proc j).main = .dialed peer false q myId)
    (hid : newPeer.id = getNextPeerId (s.proc q).myId (s.proc q).peers)
    (hlarge : ∀ p x, s.given p = some x → x < newPeer.id)
    (hreach : net.reaches newPeer.addr = some j) (hfd : newPeer.sockFd ≠ none) :
    (({ s with given := Function.update s.given j (some newPeer.id) }.setProc q { s.proc q with
      accepting := some newPeer }).setProc j { s.proc j with
        main := .answered peer false (Message.word (s.proc q).myId ++
          (Message.word newPeer.id ++ peerlist (s.proc q).peers)) }).Inv net := by
  have hj := h.proc j
  have hm := hj.main
  rw [hmain] at hm
  obtain ⟨-, hmyId, hnone, hpeer, hpeerFd, hgroup⟩ := hm
  obtain ⟨hnil, haccepting⟩ := hj.ungiven hnone
  have hq := h.proc q
  have hy := hq.inGroup hgroup
  have hqj : q ≠ j := by
    rintro rfl
    exact hgroup.2 hmyId
  -- every id in a table is smaller
  have hentry : ∀ r, ∀ u ∈ (s.proc r).peers, u.id < newPeer.id := fun r u hu ↦ by
    obtain ⟨o, ho, -⟩ := (h.proc r).entry u hu
    exact hlarge o _ ho.1
  have hsmall : ∀ r u, (s.proc r).accepting = some u → u.id < newPeer.id := fun r u hu ↦ by
    obtain ⟨⟨o, ho⟩, -⟩ := (h.proc r).accepting u hu
    exact hlarge o _ ho.1
  obtain ⟨s', hs'⟩ : ∃ s' : Joins N, ({ s with given := Function.update s.given j (some newPeer.id)
      }.setProc q { s.proc q with accepting := some newPeer }).setProc j { s.proc j with
        main := .answered peer false (Message.word (s.proc q).myId ++
          (Message.word newPeer.id ++ peerlist (s.proc q).peers)) } = s' := ⟨_, rfl⟩
  have hj' : s'.proc j = { s.proc j with
      main := .answered peer false (Message.word (s.proc q).myId ++
        (Message.word newPeer.id ++ peerlist (s.proc q).peers)) } := by
    rw [← hs']
    exact setProc_proc_self _ _ _
  have hq' : s'.proc q = { s.proc q with accepting := some newPeer } := by
    rw [← hs']
    exact (setProc_proc_of_ne _ _ hqj).trans (setProc_proc_self _ _ _)
  have hother : ∀ r, r ≠ q → r ≠ j → s'.proc r = s.proc r := fun r hrq hrj ↦ by
    rw [← hs']
    exact (setProc_proc_of_ne _ _ hrj).trans (setProc_proc_of_ne _ _ hrq)
  have hgiven : ∀ r, r ≠ j → s'.given r = s.given r := fun r hrj ↦ by
    rw [← hs']
    exact Function.update_of_ne hrj _ _
  have hgivenj : s'.given j = some newPeer.id := by
    rw [← hs']
    exact Function.update_self _ _ _
  have hmono : ∀ r z, s.given r = some z → s'.given r = some z := fun r z hz ↦ by
    have hrj : r ≠ j := by
      rintro rfl
      rw [hnone] at hz
      cases hz
    rw [hgiven r hrj, hz]
  have hzero : newPeer.id ≠ 0 := fun heq ↦ by
    have hlt := hlarge q _ hy
    rw [heq] at hlt
    exact absurd hlt (by simp [UInt32.lt_iff_toNat_lt])
  rw [hs']
  refine h.accept hqj hq' hj' hother hgiven hgivenj hmono
    (fun r _ hr ↦ UInt32.lt_irrefl _ (hlarge r _ hr)) hzero hreach hfd hy (hlarge q _ hy)
    (fun u hu ↦ UInt32.ne_of_lt (hentry q u hu)) ?_
  refine ⟨fun hn ↦ ?_, fun hg ↦ ?_, ?_, ?_, ?_, ?_, ?_, ?_⟩
  · rw [hgivenj] at hn
    cases hn
  · rw [InGroup, hj'] at hg
    exact absurd hmyId hg.2
  · simp [hj', hnil]
  · simp [hj', hnil]
  · simp [hj', hnil]
  · simp [hj', haccepting]
  · rw [hj']
    refine ⟨by rw [hj']; exact hmyId, hpeerFd, q, _, newPeer.id, (s.proc q).peers, rfl, hgivenj,
      hmono q _ hy, hpeer, hlarge q _ hy, h.length_peers_lt hy, hq.nodupIds,
      ⟨by simp [hj', hnil], by simp [hj', haccepting]⟩, fun t ht ↦ ⟨hq.own _ hy t ht, ?_⟩⟩
    obtain ⟨o, ho, -⟩ := hq.entry t ht
    have hoq : o ≠ q := by
      rintro rfl
      exact hq.own _ ho.1 t ht rfl
    have hoj : o ≠ j := by
      rintro rfl
      exact absurd (hnone.symm.trans ho.1) (Option.some_ne_none _).symm
    refine ⟨o, ho.keep hmono, ⟨t.id, hmono o _ ho.1, hentry q t ht⟩, ?_⟩
    rw [hother o hoq hoj]
    exact ⟨fun u hu ↦ UInt32.ne_of_lt (hentry o u hu),
      fun u hu ↦ UInt32.ne_of_lt (hsmall o u hu)⟩
  · rw [hj']
    exact hj.aborted

theorem inv_accept (h : s.Inv net) {fd : Fd} {addr : SockAddr}
    (hknows : s.Knows (.accept q j fd addr)) (hst : s.stepAccept net q j fd addr = some s') :
    s'.Inv net := by
  rw [stepAccept] at hst
  split at hst
  · next peer listed acceptor myId hmain haccepting habort =>
      split at hst
      · next hguard =>
          obtain ⟨rfl, hreach⟩ := hguard
          rw [readAndHandleInitMessage_spec] at hst
          have hm := (h.proc j).main
          rw [hmain] at hm
          cases listed with
          | true =>
              obtain ⟨hne, hmyId, -, howed, -⟩ := hm
              have hqj : acceptor ≠ j := by
                refine howed.ne ((h.proc j).inGroup ⟨by rw [hmain]; trivial, hmyId ▸ hne⟩ ▸ ?_)
                rw [hmyId]
              simp only [if_neg hne, List.append_nil] at hst
              obtain rfl := Option.some.inj hst
              rw [setProc_proc_of_ne _ _ hqj.symm]
              exact inv_accept_listed h hmain (if_neg hne) hreach (Option.some_ne_none fd)
          | false =>
              obtain ⟨rfl, hmyId, -, -, -, hgroup⟩ := hm
              have hqj : acceptor ≠ j := by
                rintro rfl
                exact hgroup.2 hmyId
              obtain ⟨maxId, hmax, hle, hlt⟩ := hknows (by rw [hmain, Main.initId])
              simp only [if_true] at hst
              obtain rfl := Option.some.inj hst
              rw [setProc_proc_of_ne _ _ hqj.symm]
              have hid : acceptedId (s.proc acceptor).myId (s.proc acceptor).peers 0 =
                  getNextPeerId (s.proc acceptor).myId (s.proc acceptor).peers := if_pos rfl
              rw [hid]
              exact inv_accept_new h hmain rfl
                (h.getNextPeerId_spec hgroup hmax hle hlt) hreach (Option.some_ne_none fd)
      · cases hst
  · cases hst

theorem inv_step (h : s.Inv net) {a : Action N} (ha : s.Knows a) (hst : s.step net a = some s') :
    s'.Inv net := by
  cases a with
  | join j addr fd => exact inv_join h hst
  | accept q j fd addr => exact inv_accept h ha hst
  | add q => exact inv_add h hst
  | respond j => exact inv_respond h hst
  | connect j fd => exact inv_connect h hst

/-! ## The start -/

theorem init_proc_of_mem {w : World N} (hp : p ∈ w.members) :
    (init w).proc p = ⟨(w.member p).myId, (w.member p).peers, none, .founder, none⟩ :=
  if_pos hp

theorem init_proc_of_not_mem {w : World N} (hp : p ∉ w.members) :
    (init w).proc p = ⟨1, [], none, .fresh, none⟩ :=
  if_neg hp

theorem init_given {w : World N} (hx : (init w).given p = some x) :
    p ∈ w.members ∧ (w.member p).myId = x := by
  simp only [init] at hx
  split at hx
  · next hp => exact ⟨hp, Option.some.inj hx⟩
  · cases hx

theorem inv_init {w : World N} (hmesh : w.FullMesh net) : (init w).Inv net := by
  have hgiven : ∀ p ∈ w.members, (init w).given p = some (w.member p).myId :=
    fun p hp ↦ if_pos hp
  refine ⟨fun p q x hp hq ↦ ?_, fun p hp ↦ ?_, fun p ↦ ?_⟩
  · obtain ⟨hp, hpx⟩ := init_given hp
    obtain ⟨hq, hqx⟩ := init_given hq
    exact hmesh.ids_inj p hp q hq (hpx.trans hqx.symm)
  · obtain ⟨hp, hp0⟩ := init_given hp
    exact hmesh.ids_ne_zero p hp hp0
  · by_cases hp : p ∈ w.members
    · obtain ⟨hnodup, honly⟩ := hmesh.only p hp
      refine ⟨fun hn ↦ ?_, fun _ ↦ ?_, ?_, ?_, ?_, ?_, ?_, ?_⟩
      · rw [hgiven p hp] at hn
        cases hn
      · rw [hgiven p hp, init_proc_of_mem hp]
      · rw [init_proc_of_mem hp]
        intro t ht
        obtain ⟨q, hq, hqp, htid⟩ := honly t ht
        refine ⟨q, ⟨by rw [hgiven q hq, htid], hmesh.reaches p hp t ht q hq htid⟩, fun hn ↦ ?_⟩
        obtain ⟨u, -, fd, -, hfind, hfd, -⟩ := hmesh.linked p hp q hq hqp.symm
        have hut : u = t := by
          have huid : u.id = (w.member q).myId := by simpa using List.find?_some hfind
          exact List.inj_on_of_nodup_map hnodup (List.mem_of_find?_eq_some hfind) ht
            (huid.trans htid.symm)
        rw [← hut, hfd] at hn
        cases hn
      · rw [init_proc_of_mem hp]
        intro x hx t ht
        obtain ⟨q, hq, hqp, htid⟩ := honly t ht
        obtain rfl := (init_given hx).2
        exact fun heq ↦ hqp (hmesh.ids_inj q hq p hp (htid.symm.trans heq))
      · rw [init_proc_of_mem hp]
        exact hnodup
      · rw [init_proc_of_mem hp]
        exact fun t ht ↦ by cases ht
      · rw [init_proc_of_mem hp]
        trivial
      · rw [init_proc_of_mem hp]
        exact fun hn ↦ by cases hn
    · have hnone : (init w).given p = none := if_neg hp
      refine ⟨fun _ ↦ ?_, fun hg ↦ ?_, ?_, ?_, ?_, ?_, ?_, ?_⟩
      · rw [init_proc_of_not_mem hp]
        exact ⟨rfl, rfl⟩
      · rw [InGroup, init_proc_of_not_mem hp] at hg
        exact hg.1.elim
      · rw [init_proc_of_not_mem hp]
        exact fun t ht ↦ (List.not_mem_nil ht).elim
      · intro x hx
        rw [hnone] at hx
        cases hx
      · rw [init_proc_of_not_mem hp]
        exact .nil
      · rw [init_proc_of_not_mem hp]
        exact fun t ht ↦ by cases ht
      · rw [init_proc_of_not_mem hp]
        exact hnone
      · rw [init_proc_of_not_mem hp]
        exact fun hn ↦ by cases hn

end Edsm.Proto.Joins

namespace Edsm.Proto

/-- Nodes that join a full mesh at the same time get different ids, and no node finds the id of a
peer in its table, in every run in which ids are assigned by nodes that know the largest one. -/
theorem unique_of_knows {N : Type*} [DecidableEq N] (net : Network N) {w : World N}
    (hmesh : w.FullMesh net) {s : Joins N} (h : (concurrentJoins net w).Reach Joins.Knows s) :
    s.Unique := by
  have hinv : s.Inv net := h.invariant (Joins.Inv net) (Joins.inv_init hmesh)
    fun _ hs ha hst ↦ Joins.inv_step hs ha hst
  exact hinv.unique

/-- Two members, with the ids 1 and 2, and two nodes that have not joined. -/
def World.twoMembers : World (Fin 4) where
  member p :=
    if p.val = 0 then ⟨1, [⟨2, some ⟨4, by decide⟩, SockAddr.zero.setPort 4001⟩]⟩
    else if p.val = 1 then ⟨2, [⟨1, some ⟨4, by decide⟩, SockAddr.zero.setPort 4000⟩]⟩
    else ⟨1, []⟩
  connections := [⟨1, ⟨4, by decide⟩, 0, ⟨4, by decide⟩⟩]
  members := [0, 1]

theorem fullMesh_twoMembers : World.twoMembers.FullMesh (Network.oneHost 4) where
  nodup := by decide
  ids_ne_zero := by decide
  ids_inj := by decide
  linked p hp q hq hne := by
    simp only [World.twoMembers, List.mem_cons, List.not_mem_nil, or_false] at hp hq
    rcases hp with rfl | rfl <;> rcases hq with rfl | rfl
    · exact absurd rfl hne
    · exact ⟨_, _, 4, 4, rfl, rfl, rfl, rfl, rfl, rfl, .inr rfl⟩
    · exact ⟨_, _, 4, 4, rfl, rfl, rfl, rfl, rfl, rfl, .inl rfl⟩
    · exact absurd rfl hne
  only := by decide
  reaches := by decide

instance {N : Type*} [DecidableEq N] [Fintype N] (s : Joins N) (q : N) :
    Decidable (s.KnowsLargest q) :=
  decidable_of_iff
    (((s.proc q).myId :: (s.proc q).peers.map PeerInformation.id).any fun maxId ↦
      (∀ p, (s.given p).all (· ≤ maxId)) ∧ maxId.toNat + 1 < 2 ^ 32)
    (by simp [Joins.KnowsLargest, Option.all_eq_true])

instance {N : Type*} [DecidableEq N] [Fintype N] (s : Joins N) (a : Joins.Action N) :
    Decidable (s.Knows a) :=
  match a with
  | .accept q j _ _ =>
      inferInstanceAs (Decidable ((s.proc j).main.initId = some 0 → s.KnowsLargest q))
  | .join .. | .add _ | .respond _ | .connect .. => .isTrue trivial

/-- The third and the fourth node join through the first member, one after the other. -/
theorem unique_of_knows_two : ∃ s : Joins (Fin 4),
    (concurrentJoins (Network.oneHost 4) World.twoMembers).Reach Joins.Knows s ∧
      (s.proc 2).myId = 3 ∧ (s.proc 3).myId = 4 ∧ s.Unique := by
  let addr (port : UInt16) := SockAddr.zero.setPort port
  obtain ⟨s, hs, hend⟩ :=
    (concurrentJoins (Network.oneHost 4) World.twoMembers).exists_reach_of_exec Joins.Knows
      [.join 2 (addr 4000) 4, .join 3 (addr 4000) 4, .accept 0 2 5 (addr 50000), .add 0,
        .accept 0 3 6 (addr 50001), .add 0, .respond 2, .respond 3]
      (fun s ↦ (s.proc 2).myId == 3 && (s.proc 3).myId == 4)
      (by decide +kernel)
  obtain ⟨htwo, hthree⟩ : (s.proc 2).myId = 3 ∧ (s.proc 3).myId = 4 := by simpa using hend
  exact ⟨s, hs, htwo, hthree,
    unique_of_knows (Network.oneHost 4) fullMesh_twoMembers hs⟩

/-- The third node joins through the first member, and the fourth one through the second member at
the same time: both get the id 3, and the second member finds it in its table when the third node
connects. -/
theorem not_unique : ∃ (net : Network (Fin 4)) (w : World (Fin 4)), w.FullMesh net ∧
    ∃ s, (concurrentJoins net w).Reachable s ∧
      (s.InGroup 2 ∧ s.InGroup 3 ∧ (s.proc 2).myId = (s.proc 3).myId) ∧
      (s.proc 1).aborted = some .newConnection := by
  let addr (port : UInt16) := SockAddr.zero.setPort port
  obtain ⟨s, hs, hend⟩ :=
    (concurrentJoins (Network.oneHost 4) World.twoMembers).exists_reach_of_exec
      LabelledSystem.anyStep
      [.join 2 (addr 4000) 4, .join 3 (addr 4001) 4, .accept 0 2 5 (addr 50000),
        .accept 1 3 5 (addr 50000), .add 0, .add 1, .respond 2, .respond 3, .connect 2 5,
        .accept 1 2 6 (addr 50000), .add 1]
      (fun s ↦ decide (s.InGroup 2 ∧ s.InGroup 3 ∧ (s.proc 2).myId = (s.proc 3).myId) &&
        (s.proc 1).aborted == some .newConnection)
      (by decide +kernel)
  refine ⟨Network.oneHost 4, World.twoMembers, fullMesh_twoMembers, s, hs, ?_⟩
  simpa using hend

end Edsm.Proto
