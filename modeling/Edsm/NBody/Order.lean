import Edsm.NBody.Frames
import Edsm.NBody.Rounds

/-!
# What arrives before what

The diffs of `init_simulation` reach a node before the up calls of its threads do, and until
`run_simulation` lets the threads go on there are no others.  The diffs of a thread reach `home`
before its last notification.
-/

namespace Edsm.NBody

open Memory

variable {F : Type} [Double F] {S : Setup F} {s s' : State F}

/-! ## Until the threads go on -/

omit [Double F] in
theorem released_setNotify (s : State F) (th : Thread) {n : Notify} (hth : s.notify? th = some n)
    {next : Option Notify}
    (hnext : ∀ rest, n = .sending rest → next = none ∨ ∃ rest', next = some (.sending rest'))
    (h : s.main.Released) : (s.setNotify th next).main.Released := by
  cases th with
  | main =>
      rw [State.notify?_main hth] at h
      exact (MainPc.leads_notifying hnext).released h
  | worker w =>
      obtain ⟨last, hpc⟩ := State.notify?_worker hth
      rwa [State.setNotify_worker hpc]

theorem Effect.released (he : Effect S s s') (h : s.main.Released) : s'.main.Released := by
  cases he with
  | arm hmain | rearm hmain | leave hmain hready | callsDone hmain hi | callSelf hmain hi hhost
  | callPeer hmain hi hhost => simp [hmain, MainPc.Released] at h
  | finish hmain hready => trivial
  | txEnd hth hst => exact released_setNotify (s.setNode _ _) _ hth (by simp) h
  | sendDiff hth => exact released_setNotify (s.send _ _ _) _ hth (by simp) h
  | diffSent hth => exact released_setNotify s _ hth (by simp) h
  | notifySelf hth => exact released_setNotify (s.addReply _ _ _) _ hth (by simp) h
  | notifyPeer hth hq => exact released_setNotify (s.send _ _ _) _ hth (by simp) h
  | notified hth => exact released_setNotify s _ hth (by simp) h
  | start | work | store | trap | receiveDiff | receiveCall | receiveNotification | handlePage =>
      exact h

structure Before (S : Setup F) (s : State F) : Prop where
  twins : ∀ p, (s.node p).region.twins = []
  unsent : ∀ th f rest, s.notify? th ≠ some (.sendingDiff f rest)
  diffs : ∀ q p f, .diff f ∈ s.net q p → q = S.home
  order : ∀ p, (s.net S.home p).Pairwise fun m m' ↦ (∃ w, m = .upCall w) → ∀ f, m' ≠ .diff f
  home : (s.node S.home).receiving = none
  started : ∀ w, (s.worker w).pc ≠ .idle →
    (s.node (S.host w)).receiving = none ∧ ∀ f, .diff f ∉ s.net S.home (S.host w)

namespace Before

theorem frame (h : Before S s) (hnode : s'.node = s.node)
    (hnet : ∀ q p, (s'.net q p).Sublist (s.net q p))
    (hunsent : ∀ th f rest, s'.notify? th = some (.sendingDiff f rest) →
      s.notify? th = some (.sendingDiff f rest))
    (hidle : ∀ w, (s'.worker w).pc ≠ .idle → (s.worker w).pc ≠ .idle) : Before S s' where
  twins := by
    rw [hnode]
    exact h.twins
  unsent th f rest hth := h.unsent th f rest (hunsent th f rest hth)
  diffs q p f hf := h.diffs q p f ((hnet q p).subset hf)
  order p := (h.order p).sublist (hnet _ p)
  home := by
    rw [hnode]
    exact h.home
  started w hw := by
    obtain ⟨hrecv, hnone⟩ := h.started w (hidle w hw)
    rw [hnode]
    exact ⟨hrecv, fun f hf ↦ hnone f ((hnet _ _).subset hf)⟩

theorem setNode (h : Before S s) {p : UInt32} {r : Replica} (htwins : r.region.twins = [])
    (hrecv : (s.node p).receiving = none → r.receiving = none) : Before S (s.setNode p r) := by
  have hidle : ∀ q, (s.node q).receiving = none →
      ((s.setNode p r).node q).receiving = none := by
    intro q hq
    by_cases hqp : q = p
    · subst hqp
      simpa [State.setNode] using hrecv hq
    · simpa [State.setNode, hqp] using hq
  refine ⟨fun q ↦ ?_, h.unsent, h.diffs, h.order, hidle _ h.home,
    fun w hw ↦ (h.started w hw).imp_left (hidle _)⟩
  by_cases hqp : q = p
  · subst hqp
    simpa [State.setNode] using htwins
  · simpa [State.setNode, hqp] using h.twins q

theorem send (h : Before S s) {p q : UInt32} {m : Msg} (hm : ∀ f, m ≠ .diff f) :
    Before S (s.send p q m) where
  twins := h.twins
  unsent := h.unsent
  diffs a b f hf := by
    rcases mem_send.mp hf with hf | ⟨-, heq⟩
    · exact h.diffs a b f hf
    · exact absurd heq.symm (hm f)
  order b := by
    change (s.net.send p q m S.home b).Pairwise _
    rw [Channels.send_apply]
    split
    · refine List.pairwise_append.mpr ⟨h.order b, List.pairwise_singleton _ m,
        fun _ _ m' hm' _ f ↦ ?_⟩
      rw [List.mem_singleton.mp hm']
      exact hm f
    · exact h.order b
  home := h.home
  started w hw := by
    obtain ⟨hrecv, hnone⟩ := h.started w hw
    refine ⟨hrecv, fun f hf ↦ ?_⟩
    rcases mem_send.mp hf with hf | ⟨-, heq⟩
    · exact hnone f hf
    · exact hm f heq.symm

theorem setNotify (h : Before S s) (th : Thread) {n : Notify} (hth : s.notify? th = some n)
    {next : Option Notify} (hnext : ∀ f rest, next ≠ some (.sendingDiff f rest)) :
    Before S (s.setNotify th next) := by
  obtain ⟨hnode, -, -, hnet, -⟩ := State.setNotify_frame s th next
  refine h.frame hnode (fun q p ↦ by rw [hnet]) (fun th' f rest hth' ↦ ?_) fun w hw hidle ↦
    hw (State.idle_setNotify.mpr hidle)
  by_cases hne : th' = th
  · subst hne
    rw [State.notify?_setNotify_self hth] at hth'
    exact absurd hth' (hnext f rest)
  · rwa [State.notify?_setNotify_ne hne] at hth'

theorem setMain (h : Before S s) {m : MainPc} (hm : ∀ n, m = .notifying n → n = .ending) :
    Before S { s with main := m } := by
  refine h.frame rfl (fun _ _ ↦ .refl _) (fun th f rest hth ↦ ?_) fun _ ↦ id
  cases th with
  | main => cases hm _ (State.notify?_main hth)
  | worker w => exact hth

theorem setWorker (h : Before S s) {w : ℕ} {x : Worker F}
    (hx : ∀ last f rest, x.pc ≠ .notifying last (.sendingDiff f rest))
    (hne : (s.worker w).pc ≠ .idle) : Before S (s.setWorker w x) := by
  refine h.frame rfl (fun _ _ ↦ .refl _)
    (fun th f rest hth ↦ (State.notify?_setWorker hth).resolve_left ?_) fun v hv ↦ ?_
  · rintro ⟨last, hpc⟩
    exact hx last f rest hpc
  · by_cases hvw : v = w
    · exact hvw ▸ hne
    · rwa [State.setWorker_ne s hvw] at hv

theorem setWaiter (h : Before S s) (b : Barrier) (p : UInt32) (waiter : ReplyWaiter) :
    Before S (s.setWaiter b p waiter) :=
  h.frame rfl (fun _ _ ↦ .refl _) (fun _ _ _ ↦ id) fun _ ↦ id

/-- A thread starts where all diffs have been handled. -/
theorem setCalled (h : Before S s) {w : ℕ} (hidle : (s.node (S.host w)).receiving = none)
    (hnone : ∀ f, .diff f ∉ s.net S.home (S.host w)) : Before S (s.setPc w .called) where
  twins := h.twins
  unsent th f rest hth := by
    rcases State.notify?_setWorker hth with ⟨last, hpc⟩ | hth
    · cases hpc
    · exact h.unsent th f rest hth
  diffs := h.diffs
  order := h.order
  home := h.home
  started v hv := by
    by_cases hvw : v = w
    · subst hvw
      exact ⟨hidle, hnone⟩
    · rw [State.setPc_ne s hvw] at hv
      exact h.started v hv

/-- A node cannot send to itself. -/
theorem net_self (hsends : Sends S s) (p : UInt32) (m : Msg) : m ∉ s.net p p := fun hm ↦ by
  obtain ⟨hp, hpeer⟩ := hsends.channel p p m hm
  exact ((S.G.mem_peers p hp p).mp hpeer).2 rfl

/-- Without twins there is no diff. -/
theorem frames_eq_nil (h : Before S s) (hframes : Frames S s) {p : UInt32} {r : Replica}
    {payload : Option (List UInt8)}
    (hst : (s.node p).txEnd S.A S.pagesize true = some (r, payload)) :
    (s.node p).frames S.pagesize payload = [] := by
  have hvalid := hframes.valid p
  obtain ⟨hend, -⟩ := Replica.txEnd_eq_some hst
  have hmeets := (txEnd_meets (S.fits hvalid.wellFormed hvalid.size_eq) true).of_eq_ok hend
  obtain ⟨-, rfl⟩ := Prod.mk.inj hmeets.1
  rw [Region.payload, if_pos ⟨rfl, h.twins p⟩]
  rfl

theorem receiveDiff (h : Before S s) (hsends : Sends S s) (hframes : Frames S s) {q p : UInt32}
    {f : Frame} {rest : List Msg} {r : Replica} (hnet : s.net q p = .diff f :: rest)
    (hst : (s.node p).receive f.payload f.pages = some r) :
    Before S { s.setNode p r with
      sender := Function.update s.sender p q
      net := s.net.set q p rest } := by
  have hmem : .diff f ∈ s.net q p := by simp [hnet]
  obtain rfl := h.diffs q p f hmem
  have hp : p ≠ S.home := fun heq ↦ net_self hsends S.home (.diff f) (heq ▸ hmem)
  have hother : ∀ a, a ≠ p → (s.setNode p r).node a = s.node a := fun a ha ↦ by
    simp [State.setNode, ha]
  obtain ⟨msg, ts, head, hr, -⟩ := Replica.receive_eq_some (hframes.sound _ p f hmem) hst
  refine ⟨fun a ↦ ?_, h.unsent, fun a b f' hf' ↦ h.diffs a b f' (mem_of_mem_set hnet hf'),
    fun b ↦ ?_, (congrArg Replica.receiving (hother S.home (Ne.symm hp))).trans h.home,
    fun w hw ↦ ?_⟩
  · change ((s.setNode p r).node a).region.twins = []
    by_cases ha : a = p
    · subst ha
      simpa [State.setNode, hr, Region.setLamportTimestamp] using h.twins a
    · rw [hother a ha]
      exact h.twins a
  · change (s.net.set S.home p rest S.home b).Pairwise _
    rw [Channels.set_apply]
    split
    · next hb =>
        have horder := h.order p
        rw [hnet] at horder
        exact horder.of_cons
    · exact h.order b
  · obtain ⟨hrecv, hnone⟩ := h.started w hw
    -- the node of a thread that runs has no diff to handle
    have hhost : S.host w ≠ p := fun heq ↦ hnone f (heq ▸ hmem)
    exact ⟨(congrArg Replica.receiving (hother _ hhost)).trans hrecv,
      fun f' hf' ↦ hnone f' (mem_of_mem_set hnet hf')⟩

theorem effect (h : Before S s) (hc : Calls S s) (hsends : Sends S s) (hrounds : Rounds S s)
    (hframes : Frames S s) (hnot : ¬ s.main.Released) (he : Effect S s s') : Before S s' := by
  have hlate := (hrounds.held hnot).2.1
  have hpop : ∀ {q p : UInt32} {m : Msg} {rest : List Msg}, s.net q p = m :: rest →
      Before S { s with net := s.net.set q p rest } := by
    intro q p m rest hnet
    refine h.frame rfl (fun a b ↦ ?_) (fun _ _ _ ↦ id) fun _ ↦ id
    change (s.net.set q p rest a b).Sublist _
    rw [Channels.set_apply]
    split
    · next hab =>
        rw [hab.1, hab.2, hnet]
        exact List.sublist_cons_self m rest
    · exact .refl _
  cases he with
  | arm hmain => exact (h.setWaiter _ _ _).setMain (by simp)
  | rearm hmain => exact (h.setWaiter _ _ _).setMain (by simp)
  | leave hmain hready => exact h.setMain (by simp)
  | finish hmain hready => exact h.setMain (by simp)
  | callsDone hmain hi => exact h.setMain (by simp)
  | callSelf hmain hi hhost =>
      refine Before.setMain (h.setCalled ?_ fun f ↦ ?_) (by simp)
      · rw [hhost]
        exact h.home
      · rw [hhost]
        exact net_self hsends S.home _
  | callPeer hmain hi hhost => exact (h.send (by simp)).setMain (by simp)
  | @txEnd th r payload hth hst =>
      have hr := (Replica.txEnd_eq_some hst).2
      have hset : Before S (s.setNode (S.nodeOf th) r) :=
        h.setNode (by rw [hr]; exact Region.diffed_twins) fun hidle ↦ by rwa [hr]
      rw [h.frames_eq_nil hframes hst]
      exact hset.setNotify th hth (by simp [Notify.sendFirst])
  | sendDiff hth => exact absurd hth (h.unsent _ _ _)
  | diffSent hth => exact absurd hth (h.unsent _ _ _)
  | @notifySelf th rest hth => exact (h.setWaiter _ _ _).setNotify th hth (by simp)
  | @notifyPeer th q rest hth hq => exact (h.send (by simp)).setNotify th hth (by simp)
  | @notified th hth => exact h.setNotify th hth (by simp)
  | @start w hpc =>
      have hne : (s.worker w).pc ≠ .idle := by simp [hpc]
      exact (h.setWaiter _ _ _).setWorker (by simp) hne
  | work hwork =>
      refine h.setWorker (fun last f rest heq ↦ ?_) hwork.ne_idle.2
      cases hwork <;> cases heq
  | @store w k r hpc hk hst => exact absurd (by rw [hpc]; trivial) (hlate w)
  | @trap w k r hpc hk hst => exact absurd (by rw [hpc]; trivial) (hlate w)
  | @handlePage p r hst =>
      refine h.setNode ?_ fun hidle ↦ ?_
      · rcases (hframes.valid p).handlePage_cases hst with
          ⟨-, rfl⟩ | ⟨d, rest, msg, k, head, tail, -, rfl, -⟩
        · exact h.twins p
        · simp [Region.twins_applyPage, h.twins p]
      · rw [Replica.handlePage, hidle] at hst
        cases hst
  | receiveDiff hnet hst => exact h.receiveDiff hsends hframes hnet hst
  | receiveNotification hnet hidle => exact (hpop hnet).setWaiter _ _ _
  | @receiveCall q p w rest hnet hidle =>
      obtain ⟨rfl, rfl, -⟩ := hc.call q p w (by simp [hnet])
      refine (hpop hnet).setCalled hidle fun f hf ↦ ?_
      have horder := h.order (S.host w)
      rw [hnet, List.pairwise_cons] at horder
      change Msg.diff f ∈ s.net.set S.home (S.host w) rest S.home (S.host w) at hf
      rw [Channels.set_self] at hf
      exact horder.1 _ hf ⟨w, rfl⟩ f rfl

theorem initial : Before S (system S).init where
  twins p := by
    simp only [system]
    split
    · rw [(Replica.txEnd_eq_some S.ended_eq).2]
      exact Region.diffed_twins
    · exact Region.twins_regionGet S.get
  unsent th f rest hth := by
    cases th with
    | main => cases hth
    | worker w => cases hth
  diffs q p f hf := by
    simp only [system] at hf
    split at hf
    · next hqp => exact hqp.1
    · cases hf
  order p := by
    simp only [system]
    split
    · refine List.pairwise_of_forall_mem_list fun m hm m' _ hw ↦ ?_
      obtain ⟨w, rfl⟩ := hw
      simp at hm
    · exact .nil
  home := by
    simp only [system, if_true]
    rw [(Replica.txEnd_eq_some S.ended_eq).2]
    exact S.stored_spec.1.receiving
  started w hw := absurd rfl hw

end Before

theorem before_of_reach {ok : State F → Action → Prop} (h : (system S).Reach ok s)
    (hnot : ¬ s.main.Released) : Before S s := by
  refine h.invariant (fun s ↦ ¬ s.main.Released → Before S s) (fun _ ↦ .initial)
    (fun hs ih _ hst hnot ↦ ?_) hnot
  have he := effect_of_step hst
  have hnot' := fun hr ↦ hnot (he.released hr)
  exact (ih hnot').effect (calls_of_reach hs).1 (calls_of_reach hs).2 (rounds_of_reach hs)
    (frames_of_reach hs) hnot' he

/-! ## The last notifications -/

/-- A thread of the node has yet to notify `home` for the last time. -/
def State.Owes (S : Setup F) (s : State F) (p : UInt32) : Prop :=
  ∃ w < S.threadCount, S.host w = p ∧ (s.worker w).pc.owes S.home true = true

/-- Behind a diff that `home` has not handled there is a notification, or one is to come. -/
structure Trailing (S : Setup F) (s : State F) : Prop where
  last : ∀ p f, (s.net p S.home).getLast? = some (.diff f) → s.Owes S p
  handling : (s.node S.home).receiving ≠ none → s.net (s.sender S.home) S.home = [] →
    s.Owes S (s.sender S.home)

namespace Trailing

theorem owes_congr
    (howes : ∀ w last, (s'.worker w).pc.owes S.home last = (s.worker w).pc.owes S.home last)
    {p : UInt32} (h : s.Owes S p) : s'.Owes S p := by
  obtain ⟨w, hw, hhost, hpc⟩ := h
  exact ⟨w, hw, hhost, by rw [howes, hpc]⟩

theorem frame (h : Trailing S s)
    (howes : ∀ w last, (s'.worker w).pc.owes S.home last = (s.worker w).pc.owes S.home last)
    (hnet : ∀ p, s'.net p S.home = s.net p S.home) (hsender : s'.sender S.home = s.sender S.home)
    (hrecv : (s'.node S.home).receiving ≠ none → (s.node S.home).receiving ≠ none) :
    Trailing S s' where
  last p f hlast := by
    rw [hnet] at hlast
    exact owes_congr howes (h.last p f hlast)
  handling hbusy hnil := by
    rw [hnet, hsender] at hnil
    rw [hsender]
    exact owes_congr howes (h.handling (hrecv hbusy) hnil)

theorem send (h : Trailing S s) {p q : UInt32} {m : Msg}
    (hm : q = S.home → ∀ f, m = .diff f → s.Owes S p) : Trailing S (s.send p q m) where
  last a f hlast := by
    change (s.net.send p q m a S.home).getLast? = _ at hlast
    rw [Channels.send_apply] at hlast
    split at hlast
    · next hab =>
        rw [List.getLast?_concat] at hlast
        exact hab.1 ▸ hm hab.2.symm f (Option.some.inj hlast)
    · exact h.last a f hlast
  handling hbusy hnil := by
    change s.net.send p q m (s.sender S.home) S.home = [] at hnil
    rw [Channels.send_apply] at hnil
    split at hnil
    · exact absurd hnil (List.append_ne_nil_of_right_ne_nil _ (List.cons_ne_nil _ _))
    · exact h.handling hbusy hnil

/-- A thread notifies `home`, and nothing of its node is left before the notification. -/
theorem told (h : Trailing S s) {w : ℕ} (hother : ∀ v, v ≠ w → s'.worker v = s.worker v)
    (hlast : ∀ p f, (s'.net p S.home).getLast? = some (.diff f) →
      (s.net p S.home).getLast? = some (.diff f) ∧ p ≠ S.host w)
    (hsender : s'.sender = s.sender)
    (hhandling : (s'.node S.home).receiving ≠ none → s'.net (s.sender S.home) S.home = [] →
      ((s.node S.home).receiving ≠ none ∧ s.net (s.sender S.home) S.home = []) ∧
        s.sender S.home ≠ S.host w) : Trailing S s' := by
  have howes : ∀ p, p ≠ S.host w → s.Owes S p → s'.Owes S p := by
    rintro p hp ⟨v, hv, rfl, hpc⟩
    have hvw : v ≠ w := fun heq ↦ hp (heq ▸ rfl)
    exact ⟨v, hv, rfl, by rw [hother v hvw, hpc]⟩
  refine ⟨fun p f hf ↦ ?_, fun hbusy hnil ↦ ?_⟩
  · obtain ⟨hf, hp⟩ := hlast p f hf
    exact howes p hp (h.last p f hf)
  · rw [hsender] at hnil ⊢
    obtain ⟨⟨hbusy, hnil⟩, hne⟩ := hhandling hbusy hnil
    exact howes _ hne (h.handling hbusy hnil)

/-- The listener of `p` takes the next message from `q`. -/
theorem receive (h : Trailing S s) {q p : UInt32} {m : Msg} {rest : List Msg}
    (hnet : s.net q p = m :: rest) (hs' : s'.net = s.net.set q p rest)
    (howes : ∀ w last, (s'.worker w).pc.owes S.home last = (s.worker w).pc.owes S.home last)
    (hother : p ≠ S.home → (s'.node S.home).receiving = (s.node S.home).receiving ∧
      s'.sender S.home = s.sender S.home)
    (hself : p = S.home → (s'.node S.home).receiving ≠ none →
      (∃ f, m = .diff f) ∧ s'.sender S.home = q) : Trailing S s' := by
  by_cases hp : p = S.home
  · subst hp
    refine ⟨fun a f hlast ↦ ?_, fun hbusy hnil ↦ ?_⟩
    · rw [hs', Channels.set_apply] at hlast
      refine owes_congr howes (h.last a f ?_)
      split at hlast
      · next hab =>
          rw [hab.1, hnet]
          cases rest with
          | nil => cases hlast
          | cons m' rest => exact hlast
      · exact hlast
    · obtain ⟨⟨f, rfl⟩, hq⟩ := hself rfl hbusy
      rw [hq, hs', Channels.set_self] at hnil
      rw [hq]
      refine owes_congr howes (h.last q f ?_)
      rw [hnet, hnil]
      rfl
  · obtain ⟨hrecv, hsender⟩ := hother hp
    refine h.frame howes (fun a ↦ ?_) hsender fun hbusy ↦ hrecv ▸ hbusy
    rw [hs', Channels.set_apply, if_neg fun hab ↦ hp hab.2.symm]

theorem setNotify (h : Trailing S s) (th : Thread) {n : Notify} (hth : s.notify? th = some n)
    {next : Option Notify}
    (howes : th ≠ .main → next.elim false (Notify.owes S.home) = n.owes S.home) :
    Trailing S (s.setNotify th next) := by
  obtain ⟨hnode, hsender, -, hnet, -⟩ := State.setNotify_frame s th next
  refine h.frame (Rounds.owes_setNotify th hth howes) (fun p ↦ ?_) ?_ fun hbusy ↦ ?_
  · rw [hnet]
  · rw [hsender]
  · rwa [hnode] at hbusy

theorem setWorker (h : Trailing S s) {w : ℕ} {x : Worker F}
    (hx : ∀ last, x.pc.owes S.home last = (s.worker w).pc.owes S.home last) :
    Trailing S (s.setWorker w x) :=
  h.frame (Rounds.owes_setWorker hx) (fun _ ↦ rfl) rfl id

theorem setNode (h : Trailing S s) {p : UInt32} {r : Replica}
    (hrecv : r.receiving ≠ none → (s.node p).receiving ≠ none) : Trailing S (s.setNode p r) := by
  refine h.frame (fun _ _ ↦ rfl) (fun _ ↦ rfl) rfl fun hbusy ↦ ?_
  by_cases hp : S.home = p
  · subst hp
    exact hrecv (by simpa [State.setNode] using hbusy)
  · simpa [State.setNode, hp] using hbusy

/-- A thread is in a call of `edsm_barrier_notify` that has not come to `home`. -/
theorem owes_of_notify {w : ℕ} {n : Notify} (hc : Calls S s)
    (hth : s.notify? (.worker w) = some n) (hn : n.owes S.home = true) : s.Owes S (S.host w) := by
  obtain ⟨last, hpc⟩ := State.notify?_worker hth
  refine ⟨w, hc.lt_threadCount (by simp [hpc]), rfl, ?_⟩
  rw [hpc]
  cases last
  · rfl
  · exact hn

theorem notifyPeer (h : Trailing S s) {th : Thread} {q : UInt32} {rest : List UInt32}
    (hth : s.notify? th = some (.sending (q :: rest))) :
    Trailing S ((s.send (S.nodeOf th) q (.notification th.barrier)).setNotify th
      (some (.sending rest))) := by
  cases th with
  | main => exact (h.send (by simp)).setNotify .main hth fun hne ↦ absurd rfl hne
  | worker w =>
      by_cases hq : q = S.home
      · subst hq
        obtain ⟨last, hpc⟩ := State.notify?_worker hth
        have hset := State.setNotify_worker
          (s := s.send (S.host w) S.home (.notification .completion)) hpc (some (.sending rest))
        change Trailing S ((s.send (S.host w) S.home (.notification .completion)).setNotify
          (.worker w) (some (.sending rest)))
        rw [hset]
        have hnet : ∀ p, p ≠ S.host w →
            s.net.send (S.host w) S.home (.notification .completion) p S.home =
              s.net p S.home := fun p hp ↦ by
          rw [Channels.send_apply, if_neg fun hab ↦ hp hab.1]
        have hlast : (s.net.send (S.host w) S.home (.notification .completion) (S.host w)
            S.home).getLast? = some (.notification .completion) := by
          rw [Channels.send_apply, if_pos ⟨rfl, rfl⟩, List.getLast?_concat]
        refine h.told (fun v hv ↦ State.setPc_ne _ hv _) (fun p f hf ↦ ?_) rfl fun hbusy hnil ↦ ?_
        · have hp : p ≠ S.host w := by
            rintro rfl
            cases hlast.symm.trans hf
          exact ⟨(congrArg List.getLast? (hnet p hp)).symm.trans hf, hp⟩
        · have hp : s.sender S.home ≠ S.host w := by
            intro heq
            rw [heq] at hnil
            cases hlast.symm.trans (congrArg List.getLast? hnil)
          exact ⟨⟨hbusy, (hnet _ hp).symm.trans hnil⟩, hp⟩
      · refine (h.send (by simp)).setNotify (.worker w) hth fun _ ↦ ?_
        simp [Notify.owes, Ne.symm hq]

theorem notifySelf (h : Trailing S s) (hsends : Sends S s) (hframes : Frames S s) {th : Thread}
    {rest : List UInt32} (hth : s.notify? th = some (.sending (S.nodeOf th :: rest))) :
    Trailing S ((s.addReply th.barrier (S.nodeOf th) (S.nodeOf th)).setNotify th
      (some (.sending rest))) := by
  have hset : Trailing S (s.addReply th.barrier (S.nodeOf th) (S.nodeOf th)) :=
    h.frame (fun _ _ ↦ rfl) (fun _ ↦ rfl) rfl id
  cases th with
  | main => exact hset.setNotify .main hth fun hne ↦ absurd rfl hne
  | worker w =>
      by_cases hhome : S.host w = S.home
      · -- `home` sends itself nothing
        obtain ⟨last, hpc⟩ := State.notify?_worker hth
        have hpc' : ((s.addReply .completion (S.host w) (S.host w)).worker w).pc =
            .notifying last (.sending (S.host w :: rest)) := hpc
        change Trailing S ((s.addReply .completion (S.host w) (S.host w)).setNotify (.worker w)
          (some (.sending rest)))
        rw [State.setNotify_worker hpc', hhome]
        refine h.told (fun v hv ↦ State.setPc_ne _ hv _) (fun p f hf ↦ ⟨hf, ?_⟩) rfl
          fun hbusy hnil ↦ ⟨⟨hbusy, hnil⟩, ?_⟩
        · rintro rfl
          rw [hhome] at hf
          exact Before.net_self hsends S.home _ (List.mem_of_getLast? hf)
        · intro heq
          obtain ⟨hids, hpeer⟩ := hframes.busy S.home hbusy
          exact ((S.G.mem_peers _ hids S.home).mp hpeer).2 (heq.trans hhome).symm
      · refine hset.setNotify (.worker w) hth fun _ ↦ ?_
        simp [Notify.owes, Setup.nodeOf, Ne.symm hhome]

theorem effect (h : Trailing S s) (hc : Calls S s) (hsends : Sends S s) (hframes : Frames S s)
    (he : Effect S s s') : Trailing S s' := by
  cases he with
  | arm hmain | rearm hmain | leave hmain hready | finish hmain hready | callsDone hmain hi =>
      exact h.frame (fun _ _ ↦ rfl) (fun _ ↦ rfl) rfl id
  | @callSelf i hmain hi hhost =>
      have hidle := hc.idle_of_calling hmain
      have hset : Trailing S (s.setPc i .called) := by
        refine h.setWorker fun last ↦ ?_
        rw [hidle]
        cases last <;> rfl
      exact hset.frame (fun _ _ ↦ rfl) (fun _ ↦ rfl) rfl id
  | @callPeer i hmain hi hhost =>
      have hsend : Trailing S (s.send S.home (S.host i) (.upCall i)) := h.send (by simp)
      exact hsend.frame (fun _ _ ↦ rfl) (fun _ ↦ rfl) rfl id
  | @txEnd th r payload hth hst =>
      have hset : Trailing S (s.setNode (S.nodeOf th) r) :=
        h.setNode fun hbusy ↦ by rwa [(Replica.txEnd_eq_some hst).2] at hbusy
      exact hset.setNotify th hth fun _ ↦ Rounds.owes_sendFirst S (S.nodeOf_mem th) _
  | @sendDiff th f q rest hth =>
      refine (h.send fun hq _ _ ↦ ?_).setNotify th hth fun _ ↦ rfl
      cases th with
      | main =>
          have hleft : q :: rest <:+ S.G.peers S.home := hsends.left _ _ hth
          have hpeer := (S.G.mem_peers S.home S.home_mem q).mp (hleft.subset List.mem_cons_self)
          exact absurd hq hpeer.2
      | worker w => exact owes_of_notify hc hth rfl
  | @diffSent th f hth =>
      refine h.setNotify th hth fun _ ↦ ?_
      exact decide_eq_true ((S.mem_everyone (S.nodeOf_mem th)).mpr S.home_mem)
  | notifySelf hth => exact h.notifySelf hsends hframes hth
  | notifyPeer hth hq => exact h.notifyPeer hth
  | notified hth => exact h.setNotify _ hth fun _ ↦ rfl
  | @start w hpc =>
      have hset : Trailing S (s.setWaiter .client (S.host w) [S.home]) :=
        h.frame (fun _ _ ↦ rfl) (fun _ ↦ rfl) rfl id
      refine hset.setWorker fun last ↦ ?_
      change _ = (s.worker w).pc.owes S.home last
      rw [hpc]
      cases last <;> rfl
  | work hwork => exact h.setWorker (Rounds.owes_work hwork)
  | @store w k r hpc hk hst =>
      obtain ⟨hstores, -⟩ := Stores.store (hframes.valid _) hst
      have hset := h.setNode (p := S.host w) fun hbusy ↦ hstores.receiving ▸ hbusy
      refine hset.setWorker fun last ↦ ?_
      change _ = (s.worker w).pc.owes S.home last
      rw [hpc]
      cases last <;> rfl
  | trap hpc hk hst =>
      obtain ⟨hstores, -⟩ := Stores.txBegin (hframes.valid _) hst
      exact h.setNode fun hbusy ↦ hstores.receiving ▸ hbusy
  | @handlePage p r hst =>
      refine h.setNode fun _ hidle ↦ ?_
      rw [Replica.handlePage, hidle] at hst
      cases hst
  | @receiveDiff q p f rest r hnet hst =>
      refine h.receive hnet rfl (fun _ _ ↦ rfl) (fun hp ↦ ?_) fun hp _ ↦ ⟨⟨f, rfl⟩, ?_⟩
      · simp [State.setNode, Ne.symm hp]
      · simp [hp]
  | receiveNotification hnet hidle =>
      refine h.receive hnet rfl (fun _ _ ↦ rfl) (fun _ ↦ ⟨rfl, rfl⟩) fun hp hbusy ↦ ?_
      exact absurd (hp ▸ hidle) hbusy
  | @receiveCall q p w rest hnet hidle =>
      obtain ⟨-, -, hpc, -⟩ := hc.call q p w (by simp [hnet])
      refine h.receive hnet rfl (Rounds.owes_setWorker fun last ↦ ?_) (fun _ ↦ ⟨rfl, rfl⟩)
        fun hp hbusy ↦ ?_
      · rw [hpc]
        cases last <;> rfl
      · exact absurd (hp ▸ hidle) hbusy

theorem initial : Trailing S (system S).init where
  last p f hlast := by
    have hp : ¬ (p = S.home ∧ S.home ∈ S.G.peers S.home) := fun hp ↦
      ((S.G.mem_peers S.home S.home_mem S.home).mp hp.2).2 rfl
    simp only [system, if_neg hp] at hlast
    cases hlast
  handling hbusy := by
    refine absurd ?_ hbusy
    simp only [system, if_true]
    rw [(Replica.txEnd_eq_some S.ended_eq).2]
    exact S.stored_spec.1.receiving

end Trailing

theorem trailing_of_reach {ok : State F → Action → Prop} (h : (system S).Reach ok s) :
    Trailing S s :=
  h.invariant (Trailing S) .initial fun hs ih _ hst ↦
    ih.effect (calls_of_reach hs).1 (calls_of_reach hs).2 (frames_of_reach hs) (effect_of_step hst)

end Edsm.NBody
