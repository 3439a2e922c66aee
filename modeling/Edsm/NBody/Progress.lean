import Edsm.NBody.Result

/-!
# No run gets stuck

A thread that waits to go on has been told, or will be; and where nothing is on its way and no
thread can take a step, `run_simulation` has returned.  Every node has joined the client barrier
before, so nobody waits for a `GET_REPLY`.
-/

namespace Edsm.NBody

open Memory

variable {F : Type} [Double F] {S : Setup F} {s s' : State F}

/-! ## The client barriers -/

/-- The node has been told that its threads may go on, or will be. -/
def State.Telling (S : Setup F) (s : State F) (p : UInt32) : Prop :=
  (∃ rest, s.main = .notifying (.sending rest) ∧ p ∈ rest) ∨
    .notification .client ∈ s.net S.home p

structure Client (S : Setup F) (s : State F) : Prop where
  entries : ∀ p, s.waiter .client p = [] ∨ s.waiter .client p = [S.home]
  telling : s.main.Released → ∀ w, (s.worker w).pc.Armed → s.waiter .client (S.host w) ≠ [] →
    s.Telling S (S.host w)

namespace Client

theorem telling_congr (hmain : s'.main = s.main) {p : UInt32}
    (hnet : .notification .client ∈ s.net S.home p → .notification .client ∈ s'.net S.home p)
    (h : s.Telling S p) : s'.Telling S p := by
  unfold State.Telling
  rw [hmain]
  exact h.imp_right hnet

theorem frame (h : Client S s) (hclient : s'.waiter .client = s.waiter .client)
    (hreleased : s'.main.Released → s.main.Released)
    (harmed : ∀ w, (s'.worker w).pc.Armed → (s.worker w).pc.Armed)
    (htelling : s'.main.Released → ∀ p, s.Telling S p → s'.Telling S p) : Client S s' where
  entries := by
    rw [hclient]
    exact h.entries
  telling hr w hw hne := by
    rw [hclient] at hne
    exact htelling hr _ (h.telling (hreleased hr) w (harmed w hw) hne)

/-- `run_simulation` is where it was, and no notification of the client barrier is lost. -/
theorem keep (h : Client S s) (hclient : s'.waiter .client = s.waiter .client)
    (hmain : s'.main = s.main) (harmed : ∀ w, (s'.worker w).pc.Armed → (s.worker w).pc.Armed)
    (hnet : ∀ p, .notification .client ∈ s.net S.home p →
      .notification .client ∈ s'.net S.home p) : Client S s' :=
  h.frame hclient (fun hr ↦ hmain ▸ hr) harmed fun _ p ↦ telling_congr hmain (hnet p)

theorem setWorker (h : Client S s) {w : ℕ} {x : Worker F}
    (hx : x.pc.Armed → (s.worker w).pc.Armed) : Client S (s.setWorker w x) := by
  refine h.keep rfl rfl (fun v hv ↦ ?_) fun _ ↦ id
  by_cases hvw : v = w
  · subst hvw
    rw [State.setWorker_self] at hv
    exact hx hv
  · rwa [State.setWorker_ne s hvw] at hv

/-- A node is told. -/
theorem told (h : Client S s) {p : UInt32} (hmain : s'.main = s.main)
    (hworker : s'.worker = s.worker)
    (hwaiter : s'.waiter .client =
      Function.update (s.waiter .client) p ((s.waiter .client p).erase S.home))
    (hnet : ∀ a, a ≠ p → s'.net S.home a = s.net S.home a) : Client S s' := by
  have hempty : (s.waiter .client p).erase S.home = [] := by
    rcases h.entries p with hp | hp <;> simp [hp]
  refine ⟨fun a ↦ ?_, fun hr w hw hne ↦ ?_⟩
  · rw [hwaiter]
    by_cases ha : a = p
    · subst ha
      rw [Function.update_self, hempty]
      exact .inl rfl
    · rw [Function.update_of_ne ha]
      exact h.entries a
  · rw [hwaiter] at hne
    have hp : S.host w ≠ p := by
      rintro rfl
      rw [Function.update_self, hempty] at hne
      exact hne rfl
    rw [Function.update_of_ne hp] at hne
    rw [hmain] at hr
    rw [hworker] at hw
    exact telling_congr hmain (by rw [hnet _ hp]; exact id) (h.telling hr w hw hne)

theorem setNotify (h : Client S s) (th : Thread) {n : Notify} (hth : s.notify? th = some n)
    {next : Option Notify}
    (hmain : th = .main → (next.elim (.waiting true) MainPc.notifying).Released → ∀ p ∈ S.G.ids,
      s.waiter .client p ≠ [] → (s.main.Released → s.Telling S p) →
        (s.setNotify th next).Telling S p) :
    Client S (s.setNotify th next) := by
  obtain ⟨-, -, hwaiter, hnet, -⟩ := State.setNotify_frame s th next
  cases th with
  | main =>
      exact ⟨h.entries, fun hr w hw hne ↦ hmain rfl hr _ (S.host_mem w) hne fun hreleased ↦
        h.telling hreleased w hw hne⟩
  | worker v =>
      obtain ⟨last, hpc⟩ := State.notify?_worker hth
      rw [State.setNotify_worker hpc]
      refine h.setWorker fun _ ↦ ?_
      rw [hpc]
      trivial

/-- `run_simulation` has yet to tell everyone. -/
theorem telling_everyone {p : UInt32} (hp : p ∈ S.G.ids)
    (hmain : s.main = .notifying (.sending (S.everyone S.home))) : s.Telling S p :=
  .inl ⟨_, hmain, (S.mem_everyone S.home_mem).mpr hp⟩

/-- While `run_simulation` tells the nodes, those it has left are the ones still to be told. -/
theorem mem_of_telling {p : UInt32} {left : List UInt32}
    (hmain : s.main = .notifying (.sending left)) (h : s.main.Released → s.Telling S p) :
    p ∈ left ∨ .notification .client ∈ s.net S.home p := by
  have hreleased : s.main.Released := by
    rw [hmain]
    trivial
  rcases h hreleased with ⟨rest, hrest, hmem⟩ | hmem
  · obtain rfl : left = rest := by
      simpa using hmain.symm.trans hrest
    exact .inl hmem
  · exact .inr hmem

theorem effect (h : Client S s) (hc : Calls S s) (hsends : Sends S s) (hrounds : Rounds S s)
    (he : Effect S s s') : Client S s' := by
  have hnode : ∀ p r, Client S (s.setNode p r) := fun _ _ ↦
    h.keep rfl rfl (fun _ ↦ id) fun _ ↦ id
  have hsend : ∀ p q m, Client S (s.send p q m) := fun _ _ _ ↦
    h.keep rfl rfl (fun _ ↦ id) fun _ hm ↦ mem_send.mpr (.inl hm)
  have hpop : ∀ {q p : UInt32} {m : Msg} {rest : List Msg} (node : UInt32 → Replica)
      (sender : UInt32 → UInt32), s.net q p = m :: rest → .notification .client ≠ m →
      Client S { s with node, sender, net := s.net.set q p rest } := fun _ _ hnet hne ↦
    h.keep rfl rfl (fun _ ↦ id) fun _ ↦ mem_set_of_ne hnet hne
  have hcompletion : ∀ p waiter, Client S (s.setWaiter .completion p waiter) := fun _ _ ↦
    h.keep (by simp [State.setWaiter]) rfl (fun _ ↦ id) fun _ ↦ id
  have hheld : ∀ {t : State F} {m : MainPc}, Client S t → ¬ m.Released →
      Client S { t with main := m } := fun ht hm ↦
    ⟨ht.entries, fun hr ↦ absurd hr hm⟩
  cases he with
  | arm hmain => exact hheld (hcompletion _ _) id
  | rearm hmain => exact hheld (hcompletion _ _) id
  | callSelf hmain hi hhost => exact hheld (h.setWorker False.elim) id
  | callPeer hmain hi hhost => exact hheld (hsend _ _ _) id
  | callsDone hmain hi => exact hheld h id
  | leave hmain hready => exact hheld h id
  | finish hmain hready =>
      refine h.frame rfl (fun _ ↦ by rw [hmain]; trivial) (fun _ ↦ id) fun _ p hp ↦ ?_
      refine hp.imp_left fun hsending ↦ ?_
      obtain ⟨rest, heq, -⟩ := hsending
      cases hmain.symm.trans heq
  | @txEnd th r payload hth hst =>
      refine (hnode _ _).setNotify th hth fun hmain hr p hp _ _ ↦ ?_
      subst hmain
      cases hfs : (s.node (S.nodeOf .main)).frames S.pagesize payload with
      | nil => exact telling_everyone hp rfl
      | cons f fs =>
          rw [hfs] at hr
          exact hr.elim
  | sendDiff hth => exact (hsend _ _ _).setNotify _ hth fun _ hr ↦ hr.elim
  | @diffSent th f hth =>
      refine h.setNotify th hth fun hmain _ p hp _ _ ↦ ?_
      subst hmain
      exact telling_everyone hp rfl
  | @notifySelf th rest hth =>
      cases th with
      | main =>
          have hnodup : (S.home :: rest).Nodup :=
            (S.nodup_everyone S.home_mem).sublist (hsends.left .main _ hth).sublist
          have htold : Client S (s.addReply .client S.home S.home) :=
            h.told (p := S.home) rfl rfl
              (by simp [State.addReply, State.setWaiter, ReplyWaiter.addReply]) fun _ _ ↦ rfl
          refine htold.setNotify .main hth fun _ _ p _ hne htelling ↦ ?_
          have hmain : s.main = .notifying (.sending (S.home :: rest)) := State.notify?_main hth
          have hp : p ≠ S.home := by
            rintro rfl
            have hempty : (s.addReply .client S.home S.home).waiter .client S.home = [] := by
              rcases h.entries S.home with hentry | hentry <;>
                simp [State.addReply, State.setWaiter, ReplyWaiter.addReply, hentry]
            exact hne hempty
          rcases mem_of_telling (s := s) hmain htelling with hmem | hmem
          · exact .inl ⟨rest, rfl, (List.mem_cons.mp hmem).resolve_left hp⟩
          · exact .inr hmem
      | worker w => exact (hcompletion _ _).setNotify (.worker w) hth (by simp)
  | @notifyPeer th q rest hth hq =>
      refine (hsend _ _ _).setNotify th hth fun hmain _ p _ _ htelling ↦ ?_
      subst hmain
      have hmain : s.main = .notifying (.sending (q :: rest)) := State.notify?_main hth
      rcases mem_of_telling (s := s.send _ _ _) hmain htelling with hmem | hmem
      · rcases List.mem_cons.mp hmem with rfl | hmem
        · exact .inr (mem_send.mpr (.inr ⟨⟨rfl, rfl⟩, rfl⟩))
        · exact .inl ⟨rest, rfl, hmem⟩
      · exact .inr hmem
  | @notified th hth =>
      refine h.setNotify th hth fun hmain _ p _ _ htelling ↦ ?_
      subst hmain
      rcases mem_of_telling (State.notify?_main hth) htelling with hmem | hmem
      · cases hmem
      · exact .inr hmem
  | @start w hpc =>
      have hw := hc.lt_threadCount (w := w) (by simp [hpc])
      have hnot : ¬ s.main.Released := fun hr ↦ by
        have howed := hrounds.owed (MainPc.round_of_released hr).1 w hw
        rw [hpc] at howed
        cases howed
      refine ⟨fun p ↦ ?_, fun hr ↦ absurd hr hnot⟩
      change (s.setWaiter .client (S.host w) [S.home]).waiter .client p = [] ∨
        (s.setWaiter .client (S.host w) [S.home]).waiter .client p = [S.home]
      by_cases hp : p = S.host w
      · simp [State.setWaiter, hp]
      · simpa [State.setWaiter, hp] using h.entries p
  | @work w pc tmp hwork =>
      refine h.setWorker fun _ ↦ ?_
      cases hwork with
      | update hpc | nextStep hpc | computed hpc | enter hpc | copied hpc =>
          rw [hpc]
          trivial
  | @store w k r hpc hk hst =>
      refine (hnode _ _).setWorker fun _ ↦ ?_
      change (s.worker w).pc.Armed
      rw [hpc]
      trivial
  | trap hpc hk hst => exact hnode _ _
  | handlePage hst => exact hnode _ _
  | receiveDiff hnet hst => exact hpop _ _ hnet (by simp)
  | @receiveCall q p w rest hnet hidle => exact (hpop _ _ hnet (by simp)).setWorker False.elim
  | @receiveNotification q p b rest hnet hidle =>
      cases b with
      | client =>
          obtain rfl := hsends.client q p (by simp [hnet])
          refine h.told (p := p) rfl rfl
            (by simp [State.addReply, State.setWaiter, ReplyWaiter.addReply]) fun a ha ↦ ?_
          change s.net.set S.home p rest S.home a = _
          rw [Channels.set_apply, if_neg fun hab ↦ ha hab.2]
      | completion =>
          refine h.keep (by simp [State.addReply, State.setWaiter]) rfl (fun _ ↦ id)
            fun _ ↦ mem_set_of_ne hnet (by simp)

theorem initial : Client S (system S).init where
  entries _ := .inl rfl
  telling hr := hr.elim

end Client

theorem client_of_reach {ok : State F → Action → Prop} (h : (system S).Reach ok s) :
    Client S s :=
  h.invariant (Client S) .initial fun hs ih _ hst ↦
    ih.effect (calls_of_reach hs).1 (calls_of_reach hs).2 (rounds_of_reach hs) (effect_of_step hst)

/-! ## Where no step is possible -/

theorem Setup.size_le_region (S : Setup F) :
    Body.size * S.bodyCount.toNat ≤ S.region.size := by
  have hget := S.get
  have hcount := S.bodyCount.toNat_lt
  have hpagesize := S.pagesize_lt
  unfold regionGet at hget
  simp only at hget
  split at hget
  · rw [← Option.some.inj hget]
    simp only
    split
    · have hrem := Nat.mod_lt (Body.size * S.bodyCount.toNat) S.pagesize_pos
      have hfits : Body.size * S.bodyCount.toNat + S.pagesize -
          Body.size * S.bodyCount.toNat % S.pagesize < 2 ^ 64 := by
        unfold Body.size at *
        omega
      rw [Nat.mod_eq_of_lt hfits]
      omega
    · exact le_rfl
  · cases hget

/-- `malloc` succeeds and no diff is too long for a message. -/
def State.Grants (S : Setup F) (s : State F) : Prop :=
  ∀ p, S.A.Grants (encodeDiff ((s.node p).region.lamportTimestamp + 1)
    ((s.node p).region.pageDiffs S.pagesize)).length

/-- In a region of a few megabytes every diff is short enough. -/
theorem State.grants_of_size (hA : S.A.Succeeds) (hsize : 8 + 11 * S.region.size < 2 ^ 29)
    (hframes : Frames S s) : s.Grants S := fun p ↦ by
  have hvalid := hframes.valid p
  have hlength := hvalid.wellFormed.length_encodeDiff_le S.pagesize_pos
    ((s.node p).region.lamportTimestamp + 1)
  rw [hvalid.size_eq] at hlength
  exact ⟨hA, by omega⟩

def State.Stuck (S : Setup F) (s : State F) : Prop := ∀ a s', step S s a ≠ some s'

namespace State.Stuck

theorem notify (h : s.Stuck S) (hframes : Frames S s) (hgrants : s.Grants S) (th : Thread)
    (n : Notify) : s.notify? th ≠ some n := by
  intro hth
  obtain ⟨s', hst⟩ : ∃ s', notifyStep S s th n = some s' := by
    match n with
    | .ending =>
        have hvalid := hframes.valid (S.nodeOf th)
        obtain ⟨result, hend, -⟩ := (txEnd_meets (S.fits hvalid.wellFormed hvalid.size_eq)
          true).exists_ok (hgrants _)
        exact ⟨_, by rw [notifyStep, Replica.txEnd, hend]; rfl⟩
    | .sendingDiff f [] => exact ⟨_, rfl⟩
    | .sendingDiff f (q :: rest) => exact ⟨_, rfl⟩
    | .sending [] => exact ⟨_, rfl⟩
    | .sending (q :: rest) =>
        rw [notifyStep]
        split <;> exact ⟨_, rfl⟩
  cases th with
  | main =>
      refine h .main s' ?_
      rw [step, mainStep, notify?_main hth]
      exact hst
  | worker w =>
      obtain ⟨last, hpc⟩ := notify?_worker hth
      refine h (.worker w) s' ?_
      rw [step, workerStep, hpc]
      exact hst

theorem main (h : s.Stuck S) (hframes : Frames S s) (hgrants : s.Grants S) :
    s.main = .finished ∨ ∃ last, s.main = .waiting last ∧ s.waiter .completion S.home ≠ [] := by
  cases hmain : s.main with
  | arming =>
      have hst := h .main
      rw [step, mainStep, hmain] at hst
      exact absurd rfl (hst _)
  | calling i =>
      have hst := h .main
      rw [step, mainStep, hmain] at hst
      simp only at hst
      split at hst
      · split at hst <;> exact absurd rfl (hst _)
      · exact absurd rfl (hst _)
  | waiting last =>
      refine .inr ⟨last, rfl, fun hready ↦ ?_⟩
      have hst := h .main
      rw [step, mainStep, hmain] at hst
      simp only [ReplyWaiter.Ready, hready, if_true] at hst
      exact hst _ rfl
  | rearming =>
      have hst := h .main
      rw [step, mainStep, hmain] at hst
      exact absurd rfl (hst _)
  | notifying n =>
      exact absurd (by simp [notify?, hmain]) (h.notify hframes hgrants .main n)
  | finished => exact .inl rfl

theorem receiving (h : s.Stuck S) (hframes : Frames S s) (p : UInt32) :
    (s.node p).receiving = none := by
  by_contra hbusy
  obtain ⟨⟨r, n⟩, hrecv⟩ := Option.ne_none_iff_exists'.mp hbusy
  have hst := h (.handlePage p)
  rw [step, Replica.handlePage, hrecv] at hst
  cases n with
  | zero => exact hst _ rfl
  | succ n =>
      obtain ⟨d, rest, msg, head, tail, -, -, hpage, -⟩ := (hframes.valid p).next_page hrecv
      simp only [hpage] at hst
      exact hst _ rfl

theorem net (h : s.Stuck S) (hframes : Frames S s) (q p : UInt32) : s.net q p = [] := by
  cases hnet : s.net q p with
  | nil => rfl
  | cons m rest =>
      have hidle := h.receiving hframes p
      have hst := h (.deliver q p)
      rw [step, deliverStep, hnet, hidle] at hst
      cases m with
      | upCall w => exact absurd rfl (hst _)
      | notification b => exact absurd rfl (hst _)
      | diff f =>
          have hsound := hframes.sound q p f (by simp [hnet])
          obtain ⟨ts, hpayload⟩ := hsound.payload
          obtain ⟨msg, head, hreceive, -⟩ :=
            Replica.receive_spec (hpayload ▸ hsound.length) hidle
          simp only [hpayload, hreceive] at hst
          exact absurd rfl (hst _)

/-- A thread that has been started is done or waits to be told to go on. -/
theorem worker (h : s.Stuck S) (hframes : Frames S s) (hgrants : s.Grants S) {w : ℕ}
    (hw : w < S.threadCount) : (s.worker w).pc = .idle ∨ (s.worker w).pc = .done ∨
      (s.worker w).pc = .waiting ∧ s.waiter .client (S.host w) ≠ [] := by
  have hst := h (.worker w)
  rw [step, workerStep] at hst
  cases hpc : (s.worker w).pc with
  | idle => exact .inl rfl
  | done => exact .inr (.inl rfl)
  | called =>
      rw [hpc] at hst
      exact absurd rfl (hst _)
  | computing t i =>
      rw [hpc] at hst
      simp only at hst
      split at hst
      · split at hst <;> exact absurd rfl (hst _)
      · exact absurd rfl (hst _)
  | notifying last n =>
      exact absurd (notify?_of_pc hpc) (h.notify hframes hgrants (.worker w) n)
  | waiting =>
      refine .inr (.inr ⟨rfl, fun hready ↦ ?_⟩)
      rw [hpc] at hst
      simp only [ReplyWaiter.Ready, hready, if_true] at hst
      exact hst _ rfl
  | copying k =>
      rw [hpc] at hst
      simp only at hst
      split at hst
      · next hk =>
          have hinside : S.start w * Body.size + k < (s.node (S.host w)).region.size := by
            rw [(hframes.valid (S.host w)).size_eq]
            refine lt_of_lt_of_le ?_ S.size_le_region
            have hi : k / Body.size < S.count := Nat.div_lt_of_lt_mul hk
            have hlt := (Setup.start_add_lt hw hi).2
            unfold Body.size at *
            omega
          cases hstore : (s.node (S.host w)).store S.pagesize (S.start w * Body.size + k)
              (byteOf (s.worker w).tmp k) with
          | some r =>
              simp only [hstore] at hst
              exact absurd rfl (hst _)
          | none =>
              simp only [hstore, Replica.txBegin, if_pos hinside] at hst
              exact absurd rfl (hst _)
      · exact absurd rfl (hst _)

end State.Stuck

/-- As long as `run_simulation` has not returned some step is possible. -/
theorem exists_step {ok : State F → Action → Prop} (h : (system S).Reach ok s)
    (hgrants : s.Grants S) (hrun : s.main ≠ .finished) : ∃ a s', step S s a = some s' := by
  by_contra hnone
  have hstuck : s.Stuck S := fun a s' hst ↦ hnone ⟨a, s', hst⟩
  obtain ⟨hc, -⟩ := calls_of_reach h
  have hframes := frames_of_reach h
  have hrounds := rounds_of_reach h
  have hnet := hstuck.net hframes
  obtain ⟨last, hmain, hwaiter⟩ := (hstuck.main hframes hgrants).resolve_left hrun
  -- a thread of some node has not notified for the round
  obtain ⟨p, hp⟩ := List.exists_mem_of_ne_nil _ hwaiter
  have hbalance := hrounds.balance (by simp [hmain, MainPc.Unarmed]) p
  rw [hnet, List.countP_nil, Nat.add_zero] at hbalance
  have hcard := List.count_pos_iff.mpr hp
  rw [hbalance, Finset.card_pos] at hcard
  obtain ⟨w, hmem⟩ := hcard
  obtain ⟨hrange, -, howes⟩ := Finset.mem_filter.mp hmem
  have hw := Finset.mem_range.mp hrange
  rcases hstuck.worker hframes hgrants hw with hpc | hpc | ⟨hpc, hclient⟩
  · have hcall := hc.sent w (by rwa [hmain]) hpc
    rw [hnet] at hcall
    cases hcall
  · rw [hpc] at howes
    cases hround : s.main.round <;> rw [hround] at howes <;> cases howes
  · have hround : s.main.round = true := by
      by_contra hround
      rw [hpc, Bool.eq_false_iff.mpr hround] at howes
      cases howes
    have hreleased : s.main.Released := by
      rw [hmain] at hround ⊢
      cases last with
      | true => trivial
      | false => cases hround
    rcases (client_of_reach h).telling hreleased w (by rw [hpc]; trivial) hclient with
      ⟨rest, heq, -⟩ | hmem
    · cases hmain.symm.trans heq
    · rw [hnet] at hmem
      cases hmem

/-- Every thread waits, and none is ready. -/
def State.allWait (s : State Bool) : Bool :=
  match s.main, (s.worker 0).pc, (s.worker 1).pc with
  | .waiting false, .waiting, .waiting =>
      s.waiter .completion 1 ≠ [] ∧ s.waiter .client 1 ≠ [] ∧ s.waiter .client 2 ≠ []
  | _, _, _ => false

/-- Only a listener can take a step. -/
theorem exists_step_two_bodies : ∃ s : State Bool, (system TwoBodies.setup).Reachable s ∧
    s.allWait = true ∧ ∃ a s', step TwoBodies.setup s a = some s' := by
  obtain ⟨s, hs, hwait⟩ := LabelledSystem.exists_reach_of_exec (system TwoBodies.setup)
    LabelledSystem.anyStep TwoBodies.waiting State.allWait (by decide +kernel)
  have hrun : s.main ≠ .finished := by
    intro hfin
    rw [State.allWait, hfin] at hwait
    cases hwait
  exact ⟨s, hs, hwait, exists_step hs
    (State.grants_of_size Allocator.zeroed_succeeds (by decide +kernel) (frames_of_reach hs)) hrun⟩

end Edsm.NBody
