import Edsm.Memory.Network
import Edsm.NBody.Calls

/-!
# The copies of the bodies

What `init_simulation` has written, and that the diffs which the nodes send and handle stay
encodings of what their senders had.
-/

namespace Edsm.NBody

open Memory

variable {F : Type} [Double F] {S : Setup F} {s s' : State F}

/-! ## What `init_simulation` writes -/

/-- The bytes of a region with the bodies. -/
def Setup.image (S : Setup F) (bodies : ℕ → Body F) : ℕ → UInt8 := fun k ↦
  if k < Body.size * S.bodyCount.toNat then byteOf bodies k else 0

/-- A store, with its traps, of the application. -/
structure Stores (pagesize size : ℕ) (r r' : Replica) : Prop where
  valid : r'.Valid pagesize size
  base : r'.region.base pagesize = r.region.base pagesize
  receiving : r'.receiving = r.receiving

theorem Stores.store {pagesize size addr : ℕ} {value : UInt8} {r r' : Replica}
    (h : r.Valid pagesize size) (hst : r.store pagesize addr value = some r') :
    Stores pagesize size r r' ∧ r'.region.bytes = Function.update r.region.bytes addr value := by
  have hvalid := h.store hst
  obtain ⟨region, hstore, rfl⟩ := Replica.store_eq_some hst
  refine ⟨⟨hvalid, h.wellFormed.base_store hstore, rfl⟩, ?_⟩
  obtain ⟨-, -, rfl⟩ := Region.store_eq_some hstore
  rfl

theorem Stores.txBegin {pagesize size addr : ℕ} {r r' : Replica} (h : r.Valid pagesize size)
    (hst : r.txBegin pagesize addr = some r') :
    Stores pagesize size r r' ∧ r'.region.bytes = r.region.bytes := by
  have hvalid := h.txBegin hst
  obtain ⟨-, rfl⟩ := Replica.txBegin_eq_some hst
  exact ⟨⟨hvalid, Region.base_txBegin addr, rfl⟩, Region.bytes_txBegin addr⟩

theorem Stores.trans {pagesize size : ℕ} {r r' r'' : Replica} (h : Stores pagesize size r r')
    (h' : Stores pagesize size r' r'') : Stores pagesize size r r'' :=
  ⟨h'.valid, h'.base.trans h.base, h'.receiving.trans h.receiving⟩

theorem writeByte_spec {pagesize size addr : ℕ} {value : UInt8} {r r' : Replica}
    (h : r.Valid pagesize size) (hst : writeByte pagesize r addr value = some r') :
    Stores pagesize size r r' ∧ r'.region.bytes = Function.update r.region.bytes addr value := by
  unfold writeByte at hst
  split at hst
  · next hstore => exact Option.some.inj hst ▸ Stores.store h hstore
  · obtain ⟨r₁, hbegin, hstore⟩ := Option.bind_eq_some_iff.mp hst
    obtain ⟨hstores, hbytes⟩ := Stores.txBegin h hbegin
    obtain ⟨hstores', hbytes'⟩ := Stores.store hstores.valid hstore
    exact ⟨hstores.trans hstores', by rw [hbytes', hbytes]⟩

theorem writeBytes_spec {pagesize size : ℕ} (value : ℕ → UInt8) {r r' : Replica}
    (h : r.Valid pagesize size) {n : ℕ}
    (hst : (List.range n).foldlM (fun r k ↦ writeByte pagesize r k (value k)) r = some r') :
    Stores pagesize size r r' ∧
      ∀ k, r'.region.bytes k = if k < n then value k else r.region.bytes k := by
  induction n generalizing r' with
  | zero =>
      obtain rfl : r = r' := by simpa using hst
      exact ⟨⟨h, rfl, rfl⟩, fun k ↦ rfl⟩
  | succ n ih =>
      rw [List.range_succ, List.foldlM_append] at hst
      obtain ⟨r₁, hfirst, hlast⟩ := Option.bind_eq_some_iff.mp hst
      obtain ⟨hstores, hbytes⟩ := ih hfirst
      obtain ⟨hstores', hbytes'⟩ := writeByte_spec hstores.valid (by simpa using hlast)
      refine ⟨hstores.trans hstores', fun k ↦ ?_⟩
      rw [hbytes']
      by_cases hk : k = n
      · subst hk
        simp
      · rw [Function.update_of_ne hk, hbytes]
        exact if_congr (by omega) rfl rfl

namespace Setup

variable (S : Setup F)

theorem pagesize_pos : 0 < S.pagesize := (Region.wellFormed_regionGet S.get).2.1

theorem stored_spec : Stores S.pagesize S.region.size (.initial S.region) S.stored ∧
    S.stored.region.bytes = S.image S.bodies := by
  have hzero := (Region.wellFormed_regionGet S.get).2.2
  obtain ⟨hstores, hbytes⟩ := writeBytes_spec (byteOf S.bodies)
    (Replica.valid_initial S.get) S.stored_eq
  refine ⟨hstores, funext fun k ↦ (hbytes k).trans ?_⟩
  rw [Setup.image]
  exact if_congr Iff.rfl rfl (congrFun hzero k)

/-- No field of a diff is too narrow. -/
theorem fits {region : Region} (hwf : region.WellFormed S.pagesize)
    (hsize : region.size = S.region.size) : ∀ d ∈ region.pageDiffs S.pagesize, d.Fits := by
  intro d hd
  obtain ⟨twin, htwin, rfl⟩ := List.mem_map.mp hd
  have hhead := hwf.inside _ (Region.mem_heads htwin)
  have hpagesize := S.pagesize_lt
  refine pageDiff_fits_of_length ?_ hpagesize.le fun x hx ↦ ?_
  · rw [hsize] at hhead
    exact hhead.trans_le S.size_le
  · have hinside := (inside_of_mem_sectionsOf hx).1
    omega

end Setup

/-! ## The diffs -/

def Msg.frame? : Msg → Option Frame
  | diff f => some f
  | upCall _ | notification _ => none

/-- The memory of the nodes, and the diffs alone. -/
def State.network (s : State F) : Network where
  node := s.node
  sender := s.sender
  net q p := (s.net q p).filterMap Msg.frame?

omit [Double F] in
theorem mem_network {q p : UInt32} {f : Frame} :
    f ∈ s.network.net q p ↔ .diff f ∈ s.net q p := by
  simp only [State.network, List.mem_filterMap]
  constructor
  · rintro ⟨m, hm, hframe⟩
    cases m with
    | diff f' => rwa [← Option.some.inj hframe]
    | upCall | notification => cases hframe
  · exact fun hm ↦ ⟨.diff f, hm, rfl⟩

structure Frames (S : Setup F) (s : State F) : Prop where
  valid : ∀ p, (s.node p).Valid S.pagesize S.region.size
  sound : ∀ q p f, .diff f ∈ s.net q p → f.Sound S.pagesize S.region.size
  unsent : ∀ th f rest, s.notify? th = some (.sendingDiff f rest) →
    f.Sound S.pagesize S.region.size
  busy : ∀ p, (s.node p).receiving ≠ none → s.sender p ∈ S.G.ids ∧ p ∈ S.G.peers (s.sender p)

namespace Frames

theorem network_sound (h : Frames S s) (hsends : Sends S s) :
    s.network.Sound S.G S.pagesize S.region.size where
  valid := h.valid
  frames q p f hf := h.sound q p f (mem_network.mp hf)
  peer q p hne := by
    have hpeer : q ∈ S.G.ids ∧ p ∈ S.G.peers q := by
      obtain ⟨patch, hpatch⟩ := List.exists_mem_of_ne_nil _ hne
      obtain ⟨d, hd, -⟩ := List.mem_map.mp hpatch
      rcases List.mem_append.mp hd with hd | hd
      · split at hd
        · next hq =>
            refine hq ▸ h.busy p fun hidle ↦ ?_
            have hnil : (s.network.node p).rest = [] := (h.valid p).idle hidle
            rw [hnil] at hd
            cases hd
        · cases hd
      · obtain ⟨f, hf, -⟩ := List.mem_flatMap.mp hd
        exact hsends.channel q p _ (mem_network.mp hf)
    exact ⟨hpeer.1, fun heq ↦ ((S.G.mem_peers q hpeer.1 p).mp hpeer.2).2 heq.symm⟩

theorem frame (h : Frames S s) (hnode : ∀ p, s'.node p = s.node p) (hsender : s'.sender = s.sender)
    (hnet : ∀ q p f, .diff f ∈ s'.net q p → .diff f ∈ s.net q p)
    (hnotify : ∀ th f rest, s'.notify? th = some (.sendingDiff f rest) →
      ∃ rest', s.notify? th = some (.sendingDiff f rest')) : Frames S s' where
  valid p := by
    rw [hnode]
    exact h.valid p
  sound q p f hf := h.sound q p f (hnet q p f hf)
  unsent th f rest hth := by
    obtain ⟨rest', hth'⟩ := hnotify th f rest hth
    exact h.unsent th f rest' hth'
  busy p := by
    rw [hnode, hsender]
    exact h.busy p

theorem setNotify (h : Frames S s) (th : Thread) {n : Notify} (hth : s.notify? th = some n)
    {next : Option Notify}
    (hnext : ∀ f rest, next = some (.sendingDiff f rest) → f.Sound S.pagesize S.region.size) :
    Frames S (s.setNotify th next) := by
  obtain ⟨hnode, hsender, -, hnet, -⟩ := State.setNotify_frame s th next
  refine ⟨by rw [hnode]; exact h.valid, by rw [hnet]; exact h.sound, fun th' f rest hth' ↦ ?_,
    by rw [hnode, hsender]; exact h.busy⟩
  by_cases hne : th' = th
  · subst hne
    rw [State.notify?_setNotify_self hth] at hth'
    exact hnext f rest hth'
  · rw [State.notify?_setNotify_ne hne] at hth'
    exact h.unsent th' f rest hth'

/-- The node goes on, and its listener is where it was. -/
theorem setNode (h : Frames S s) {p : UInt32} {r : Replica}
    (hvalid : r.Valid S.pagesize S.region.size)
    (hbusy : r.receiving ≠ none → (s.node p).receiving ≠ none) : Frames S (s.setNode p r) where
  valid q := by
    by_cases hq : q = p
    · subst hq
      simpa [State.setNode] using hvalid
    · simpa [State.setNode, hq] using h.valid q
  sound := h.sound
  unsent := h.unsent
  busy q hq := by
    refine h.busy q fun hidle ↦ ?_
    by_cases hqp : q = p
    · subst hqp
      exact hbusy (by simpa [State.setNode] using hq) hidle
    · exact hq (by simpa [State.setNode, hqp] using hidle)

theorem send (h : Frames S s) {p q : UInt32} {m : Msg}
    (hm : ∀ f, m = .diff f → f.Sound S.pagesize S.region.size) : Frames S (s.send p q m) where
  valid := h.valid
  sound a b f hf := by
    rcases mem_send.mp hf with hf | ⟨-, heq⟩
    · exact h.sound a b f hf
    · exact hm f heq.symm
  unsent := h.unsent
  busy := h.busy

/-- A thread that is not about to send a diff. -/
theorem setWorker (h : Frames S s) {w : ℕ} {x : Worker F}
    (hx : ∀ last f rest, x.pc ≠ .notifying last (.sendingDiff f rest)) :
    Frames S (s.setWorker w x) :=
  h.frame (fun _ ↦ rfl) rfl (fun _ _ _ ↦ id) fun _ f rest hth ↦
    ⟨rest, (State.notify?_setWorker hth).resolve_left fun ⟨last, hpc⟩ ↦ hx last f rest hpc⟩

theorem setMain (h : Frames S s) {m : MainPc}
    (hm : ∀ f rest, m ≠ .notifying (.sendingDiff f rest)) : Frames S { s with main := m } := by
  refine h.frame (fun _ ↦ rfl) rfl (fun _ _ _ ↦ id) fun th f rest hth ↦ ?_
  cases th with
  | main => exact absurd (State.notify?_main hth) (hm f rest)
  | worker w => exact ⟨rest, hth⟩

theorem setWaiter (h : Frames S s) (b : Barrier) (p : UInt32) (waiter : ReplyWaiter) :
    Frames S (s.setWaiter b p waiter) :=
  h.frame (fun _ ↦ rfl) rfl (fun _ _ _ ↦ id) fun _ _ rest hth ↦ ⟨rest, hth⟩

/-- A message is handled that is not a diff. -/
theorem pop (h : Frames S s) {q p : UInt32} {m : Msg} {rest : List Msg}
    (hnet : s.net q p = m :: rest) : Frames S { s with net := s.net.set q p rest } :=
  h.frame (fun _ ↦ rfl) rfl (fun _ _ _ ↦ mem_of_mem_set hnet) fun _ _ rest hth ↦ ⟨rest, hth⟩

theorem receiveDiff (h : Frames S s) (hsends : Sends S s) {q p : UInt32} {f : Frame}
    {rest : List Msg} {r : Replica} (hnet : s.net q p = .diff f :: rest)
    (hst : (s.node p).receive f.payload f.pages = some r) :
    Frames S { s.setNode p r with
      sender := Function.update s.sender p q
      net := s.net.set q p rest } where
  valid a := by
    by_cases ha : a = p
    · subst ha
      simpa [State.setNode] using (h.valid a).receive (h.sound q a f (by simp [hnet])) hst
    · simpa [State.setNode, ha] using h.valid a
  sound a b f' hf' := h.sound a b f' (mem_of_mem_set hnet hf')
  unsent := h.unsent
  busy a ha := by
    by_cases hap : a = p
    · subst hap
      simpa using hsends.channel q a (.diff f) (by simp [hnet])
    · simp only [Function.update_of_ne hap]
      exact h.busy a (by simpa [State.setNode, hap] using ha)

theorem effect (h : Frames S s) (hsends : Sends S s) (he : Effect S s s') : Frames S s' := by
  cases he with
  | arm hmain => exact (h.setWaiter _ _ _).setMain (by simp)
  | rearm hmain => exact (h.setWaiter _ _ _).setMain (by simp)
  | leave hmain hready => exact h.setMain (by simp)
  | finish hmain hready => exact h.setMain (by simp)
  | callsDone hmain hi => exact h.setMain (by simp)
  | callSelf hmain hi hhost => exact (h.setWorker (by simp)).setMain (by simp)
  | callPeer hmain hi hhost => exact (h.send (by simp)).setMain (by simp)
  | @txEnd th r payload hth hst =>
      have hnode := h.valid (S.nodeOf th)
      have hr := Replica.txEnd_eq_some hst
      have hset : Frames S (s.setNode (S.nodeOf th) r) :=
        h.setNode (hnode.txEnd hst) fun hbusy ↦ by rwa [hr.2] at hbusy
      refine hset.setNotify th hth fun f rest hnext ↦ ?_
      have hsound := (hnode.frames (S.fits hnode.wellFormed hnode.size_eq) hst).1
      cases hframes : (s.node (S.nodeOf th)).frames S.pagesize payload with
      | nil =>
          rw [hframes] at hnext
          cases hnext
      | cons f' fs =>
          rw [hframes] at hnext hsound
          obtain ⟨rfl, -⟩ := Notify.sendingDiff.inj (Option.some.inj hnext)
          exact hsound f' List.mem_cons_self
  | @sendDiff th f q rest hth =>
      have hf := h.unsent th f _ hth
      refine (h.send fun f' hf' ↦ ?_).setNotify th hth fun f' rest' hnext ↦ ?_
      · exact Msg.diff.inj hf' ▸ hf
      · obtain ⟨rfl, -⟩ := Notify.sendingDiff.inj (Option.some.inj hnext)
        exact hf
  | @diffSent th f hth => exact h.setNotify th hth (by simp)
  | @notifySelf th rest hth => exact (h.setWaiter _ _ _).setNotify th hth (by simp)
  | @notifyPeer th q rest hth hq => exact (h.send (by simp)).setNotify th hth (by simp)
  | @notified th hth => exact h.setNotify th hth (by simp)
  | start hpc => exact (h.setWaiter _ _ _).setWorker (by simp)
  | work hwork =>
      refine h.setWorker fun last f rest heq ↦ ?_
      cases hwork <;> cases heq
  | store hpc hk hst =>
      obtain ⟨hstores, -⟩ := Stores.store (h.valid _) hst
      exact (h.setNode hstores.valid fun hbusy ↦ hstores.receiving ▸ hbusy).setWorker (by simp)
  | trap hpc hk hst =>
      obtain ⟨hstores, -⟩ := Stores.txBegin (h.valid _) hst
      exact h.setNode hstores.valid fun hbusy ↦ hstores.receiving ▸ hbusy
  | @handlePage p r hst =>
      refine h.setNode ((h.valid p).handlePage hst) fun _ hidle ↦ ?_
      rw [Replica.handlePage, hidle] at hst
      cases hst
  | receiveDiff hnet hst => exact h.receiveDiff hsends hnet hst
  | receiveNotification hnet hidle => exact (h.pop hnet).setWaiter _ _ _
  | receiveCall hnet hidle => exact (h.pop hnet).setWorker (by simp)

theorem initial : Frames S (system S).init where
  valid p := by
    simp only [system]
    split
    · exact (S.stored_spec.1.valid).txEnd S.ended_eq
    · exact Replica.valid_initial S.get
  sound q p f hf := by
    simp only [system] at hf
    split at hf
    · have hstored := S.stored_spec.1.valid
      have hsound := (hstored.frames (S.fits hstored.wellFormed hstored.size_eq) S.ended_eq).1
      exact hsound f (by simpa using hf)
    · cases hf
  unsent th f rest hth := by
    cases th with
    | main => cases hth
    | worker w => cases hth
  busy p hbusy := by
    refine absurd ?_ hbusy
    simp only [system]
    split
    · rw [(Replica.txEnd_eq_some S.ended_eq).2]
      exact S.stored_spec.1.receiving
    · rfl

end Frames

theorem frames_of_reach {ok : State F → Action → Prop} (h : (system S).Reach ok s) :
    Frames S s :=
  h.invariant (Frames S) .initial fun hs ih _ hst ↦
    ih.effect (calls_of_reach hs).2 (effect_of_step hst)

end Edsm.NBody
