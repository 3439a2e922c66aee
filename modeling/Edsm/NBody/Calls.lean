import Edsm.NBody.System

/-!
# The up calls of a simulation

Every thread is started once, on its node, and the channels carry what `run_simulation` and the
threads send.
-/

namespace Edsm.NBody

variable {F : Type}

/-- How many of the `n` threads have been called. -/
def MainPc.calls (n : ℕ) : MainPc → ℕ
  | arming => 0
  | calling i => min i n
  | waiting _ | rearming | notifying _ | finished => n

theorem MainPc.calls_le (n : ℕ) (m : MainPc) : m.calls n ≤ n := by
  cases m with
  | arming => exact Nat.zero_le n
  | calling i => exact Nat.min_le_right i n
  | waiting | rearming | notifying | finished => exact Nat.le_refl n

def Msg.call? : Msg → Option ℕ
  | upCall w => some w
  | diff _ | notification _ => none

theorem mem_filterMap_call {ms : List Msg} {w : ℕ} :
    w ∈ ms.filterMap Msg.call? ↔ .upCall w ∈ ms := by
  rw [List.mem_filterMap]
  constructor
  · rintro ⟨m, hm, hcall⟩
    cases m with
    | upCall v => rwa [← Option.some.inj hcall]
    | diff | notification => cases hcall
  · exact fun hm ↦ ⟨.upCall w, hm, rfl⟩

/-! ## What is on its way -/

section Net

variable {net : Channels UInt32 Msg} {p q a b : UInt32} {m m' : Msg} {rest : List Msg}

theorem filterMap_send {β : Type} {f : Msg → Option β} (hm : f m = none) :
    (net.send p q m a b).filterMap f = (net a b).filterMap f := by
  rw [Channels.send_apply]
  split
  · rw [List.filterMap_append, List.filterMap_cons_none hm, List.filterMap_nil, List.append_nil]
  · rfl

theorem filterMap_set {β : Type} {f : Msg → Option β} (hnet : net p q = m :: rest)
    (hm : f m = none) : (net.set p q rest a b).filterMap f = (net a b).filterMap f := by
  rw [Channels.set_apply]
  split
  · next hab => rw [hab.1, hab.2, hnet, List.filterMap_cons_none hm]
  · rfl

theorem mem_send : m' ∈ net.send p q m a b ↔ m' ∈ net a b ∨ (a = p ∧ b = q) ∧ m' = m := by
  rw [Channels.send_apply]
  split
  · next hab => simp [hab]
  · next hab => simp [hab]

theorem mem_of_mem_set (hnet : net p q = m :: rest) (hm : m' ∈ net.set p q rest a b) :
    m' ∈ net a b := by
  rw [Channels.set_apply] at hm
  split at hm
  · next hab =>
      rw [hab.1, hab.2, hnet]
      exact List.mem_cons_of_mem m hm
  · exact hm

theorem mem_set_of_ne (hnet : net p q = m :: rest) (hne : m' ≠ m) (hm : m' ∈ net a b) :
    m' ∈ net.set p q rest a b := by
  rw [Channels.set_apply]
  split
  · next hab =>
      rw [hab.1, hab.2, hnet] at hm
      exact (List.mem_cons.mp hm).resolve_left hne
  · exact hm

end Net

/-! ## The callers of `edsm_barrier_notify` -/

namespace State

variable {s : State F} {th th' : Thread} {n : Notify} {next : Option Notify} {w : ℕ}

theorem notify?_of_pc {last : Bool} (hpc : (s.worker w).pc = .notifying last n) :
    s.notify? (.worker w) = some n := by
  simp [notify?, hpc]

theorem notify?_setNotify_self (hth : s.notify? th = some n) :
    (s.setNotify th next).notify? th = next := by
  cases th with
  | main => cases next <;> rfl
  | worker w =>
      obtain ⟨last, hpc⟩ := notify?_worker hth
      rw [setNotify_worker hpc, notify?]
      simp only [setPc_self]
      cases next <;> cases last <;> rfl

theorem notify?_setNotify_ne (hne : th' ≠ th) :
    (s.setNotify th next).notify? th' = s.notify? th' := by
  have hset : ∀ w pc, .worker w ≠ th' → (s.setPc w pc).notify? th' = s.notify? th' := by
    intro w pc hw
    cases th' with
    | main => rfl
    | worker w' =>
        have hww : w' ≠ w := fun heq ↦ hw (heq ▸ rfl)
        simp only [notify?, setPc_ne s hww]
  cases th with
  | main =>
      cases th' with
      | main => exact absurd rfl hne
      | worker w => rfl
  | worker w =>
      unfold setNotify
      simp only
      split
      · exact hset w _ hne.symm
      all_goals rfl

theorem idle_setNotify : ((s.setNotify th next).worker w).pc = .idle ↔ (s.worker w).pc = .idle := by
  cases th with
  | main => exact Iff.rfl
  | worker w' =>
      unfold setNotify
      simp only
      split
      · next last n hpc =>
          by_cases hw : w = w'
          · subst hw
            rw [setPc_self, hpc]
            cases next <;> cases last <;> simp
          · rw [setPc_ne s hw]
      all_goals exact Iff.rfl

theorem calls_setNotify {m : ℕ} (hth : s.notify? th = some n) :
    (s.setNotify th next).main.calls m = s.main.calls m := by
  cases th with
  | main =>
      rw [notify?_main hth]
      cases next <;> rfl
  | worker w =>
      obtain ⟨last, hpc⟩ := notify?_worker hth
      rw [setNotify_worker hpc]
      rfl

theorem idle_setWorker {x : Worker F} (hpc : x.pc ≠ .idle) (hw : (s.worker w).pc ≠ .idle)
    (w' : ℕ) : ((s.setWorker w x).worker w').pc = .idle ↔ (s.worker w').pc = .idle := by
  by_cases hww : w' = w
  · subst hww
    rw [setWorker_self]
    exact iff_of_false hpc hw
  · rw [setWorker_ne s hww]

theorem notify?_setWorker {x : Worker F} (hth : (s.setWorker w x).notify? th = some n) :
    (∃ last, x.pc = .notifying last n) ∨ s.notify? th = some n := by
  cases th with
  | main => exact .inr hth
  | worker w' =>
      obtain ⟨last, hpc⟩ := notify?_worker hth
      by_cases hw : w' = w
      · subst hw
        rw [setWorker_self] at hpc
        exact .inl ⟨last, hpc⟩
      · rw [setWorker_ne s hw] at hpc
        exact .inr (notify?_of_pc hpc)

end State

variable [Double F] {S : Setup F} {s s' : State F}

theorem Work.ne_idle {w : ℕ} {pc : Pc} {tmp : ℕ → Body F} (h : Work S s w pc tmp) :
    pc ≠ .idle ∧ (s.worker w).pc ≠ .idle := by
  cases h with
  | update hpc | nextStep hpc | computed hpc | enter hpc | copied hpc => simp [hpc]

/-! ## Every thread is called once -/

structure Calls (S : Setup F) (s : State F) : Prop where
  call : ∀ q p w, .upCall w ∈ s.net q p → q = S.home ∧ p = S.host w ∧
    (s.worker w).pc = .idle ∧ w < s.main.calls S.threadCount
  called : ∀ w, (s.worker w).pc ≠ .idle → w < s.main.calls S.threadCount
  once : ∀ q p, ((s.net q p).filterMap Msg.call?).Nodup
  sent : ∀ w < s.main.calls S.threadCount, (s.worker w).pc = .idle →
    .upCall w ∈ s.net S.home (S.host w)

namespace Calls

theorem lt_threadCount (h : Calls S s) {w : ℕ} (hpc : (s.worker w).pc ≠ .idle) :
    w < S.threadCount :=
  (h.called w hpc).trans_le (MainPc.calls_le _ _)

/-- The thread that is called next has not been started. -/
theorem idle_of_calling (h : Calls S s) {i : ℕ} (hmain : s.main = .calling i) :
    (s.worker i).pc = .idle := by
  by_contra hne
  have hlt := h.called i hne
  rw [hmain] at hlt
  exact absurd (hlt.trans_le (Nat.min_le_left i _)) (Nat.lt_irrefl i)

theorem frame (h : Calls S s)
    (hnet : ∀ q p, (s'.net q p).filterMap Msg.call? = (s.net q p).filterMap Msg.call?)
    (hidle : ∀ w, (s'.worker w).pc = .idle ↔ (s.worker w).pc = .idle)
    (hcalls : s'.main.calls S.threadCount = s.main.calls S.threadCount) : Calls S s' where
  call q p w hw := by
    rw [← mem_filterMap_call, hnet, mem_filterMap_call] at hw
    rw [hidle, hcalls]
    exact h.call q p w hw
  called w hw := by
    rw [hcalls]
    exact h.called w fun hidle' ↦ hw ((hidle w).mpr hidle')
  once q p := by
    rw [hnet]
    exact h.once q p
  sent w hw hpc := by
    rw [← mem_filterMap_call, hnet, mem_filterMap_call]
    exact h.sent w (hcalls ▸ hw) ((hidle w).mp hpc)

theorem setNotify (h : Calls S s) {th : Thread} {n : Notify} (hth : s.notify? th = some n)
    (next : Option Notify) : Calls S (s.setNotify th next) := by
  obtain ⟨-, -, -, hnet, -⟩ := State.setNotify_frame s th next
  exact h.frame (fun _ _ ↦ by rw [hnet]) (fun _ ↦ State.idle_setNotify)
    (State.calls_setNotify hth)

theorem send (h : Calls S s) {p q : UInt32} {m : Msg} (hm : m.call? = none) :
    Calls S (s.send p q m) :=
  h.frame (fun _ _ ↦ filterMap_send hm) (fun _ ↦ Iff.rfl) rfl

theorem effect (h : Calls S s) (he : Effect S s s') : Calls S s' := by
  have hset : ∀ {w} {x : Worker F}, x.pc ≠ .idle → (s.worker w).pc ≠ .idle →
      Calls S (s.setWorker w x) :=
    fun hpc hw ↦ h.frame (fun _ _ ↦ rfl) (State.idle_setWorker hpc hw) rfl
  cases he with
  | arm hmain | rearm hmain | leave hmain hready | finish hmain hready =>
      exact h.frame (fun _ _ ↦ rfl) (fun _ ↦ Iff.rfl) (by simp [MainPc.calls, hmain])
  | callsDone hmain hi =>
      refine h.frame (fun _ _ ↦ rfl) (fun _ ↦ Iff.rfl) ?_
      rw [hmain]
      exact (Nat.min_eq_right (not_lt.mp hi)).symm
  | @callSelf i hmain hi hhost =>
      have hcalls : s.main.calls S.threadCount = i := by
        rw [hmain]
        exact Nat.min_eq_left hi.le
      have hnext : (MainPc.calling (i + 1)).calls S.threadCount = i + 1 := Nat.min_eq_left hi
      refine ⟨fun q p w hw ↦ ?_, fun w hw ↦ ?_, h.once, fun w hw hpc ↦ ?_⟩
      · obtain ⟨hq, hp, hidle, hlt⟩ := h.call q p w hw
        rw [hcalls] at hlt
        exact ⟨hq, hp, by rwa [State.setPc_ne s hlt.ne], by rw [hnext]; omega⟩
      · rw [hnext]
        by_cases hwi : w = i
        · omega
        · rw [State.setPc_ne s hwi] at hw
          have hlt := h.called w hw
          omega
      · have hwi : w ≠ i := by
          rintro rfl
          rw [State.setPc_self] at hpc
          cases hpc
        rw [State.setPc_ne s hwi] at hpc
        rw [hnext] at hw
        exact h.sent w (by omega) hpc
  | @callPeer i hmain hi hhost =>
      have hcalls : s.main.calls S.threadCount = i := by
        rw [hmain]
        exact Nat.min_eq_left hi.le
      have hnext : (MainPc.calling (i + 1)).calls S.threadCount = i + 1 := Nat.min_eq_left hi
      have hidle := h.idle_of_calling hmain
      refine ⟨fun q p w hw ↦ ?_, fun w hw ↦ ?_, fun q p ↦ ?_, fun w hw hpc ↦ ?_⟩
      · rcases mem_send.mp hw with hw | ⟨⟨rfl, rfl⟩, heq⟩
        · obtain ⟨hq, hp, hpc, hlt⟩ := h.call q p w hw
          exact ⟨hq, hp, hpc, by rw [hnext]; omega⟩
        · obtain rfl := Msg.upCall.inj heq
          exact ⟨rfl, rfl, hidle, by rw [hnext]; omega⟩
      · have hlt := h.called w hw
        rw [hnext]
        omega
      · change ((s.net.send S.home (S.host i) (.upCall i) q p).filterMap Msg.call?).Nodup
        rw [Channels.send_apply]
        split
        · rw [List.filterMap_append]
          refine List.nodup_append.mpr ⟨h.once q p, by simp [Msg.call?], fun w hw w' hw' ↦ ?_⟩
          have hlt := (h.call q p w (mem_filterMap_call.mp hw)).2.2.2
          obtain rfl : w' = i := by simpa [Msg.call?] using hw'
          omega
        · exact h.once q p
      · by_cases hwi : w = i
        · subst hwi
          exact mem_send.mpr (.inr ⟨⟨rfl, rfl⟩, rfl⟩)
        · rw [hnext] at hw
          exact mem_send.mpr (.inl (h.sent w (by omega) hpc))
  | txEnd hth hst =>
      exact (h.frame (fun _ _ ↦ rfl) (fun _ ↦ Iff.rfl) rfl : Calls S (s.setNode _ _)).setNotify
        hth _
  | sendDiff hth => exact (h.send rfl).setNotify hth _
  | diffSent hth => exact h.setNotify hth _
  | notifySelf hth =>
      exact (h.frame (fun _ _ ↦ rfl) (fun _ ↦ Iff.rfl) rfl :
        Calls S (s.addReply _ _ _)).setNotify hth _
  | notifyPeer hth hq => exact (h.send rfl).setNotify hth _
  | notified hth => exact h.setNotify hth _
  | @start w hpc =>
      have hne : (s.worker w).pc ≠ .idle := by simp [hpc]
      exact h.frame (fun _ _ ↦ rfl) (State.idle_setWorker (by simp) hne) rfl
  | work hwork => exact hset hwork.ne_idle.1 hwork.ne_idle.2
  | @store w k r hpc hk hst =>
      have hne : (s.worker w).pc ≠ .idle := by simp [hpc]
      exact h.frame (fun _ _ ↦ rfl) (State.idle_setWorker (by simp) hne) rfl
  | trap hpc hk hst => exact h.frame (fun _ _ ↦ rfl) (fun _ ↦ Iff.rfl) rfl
  | handlePage hst => exact h.frame (fun _ _ ↦ rfl) (fun _ ↦ Iff.rfl) rfl
  | receiveDiff hnet hst =>
      exact h.frame (fun _ _ ↦ filterMap_set hnet rfl) (fun _ ↦ Iff.rfl) rfl
  | receiveNotification hnet hidle =>
      exact h.frame (fun _ _ ↦ filterMap_set hnet rfl) (fun _ ↦ Iff.rfl) rfl
  | @receiveCall q p w rest hnet hidle =>
      obtain ⟨rfl, rfl, hpc, hlt⟩ := h.call q p w (by simp [hnet])
      have hcall : (Msg.upCall w).call? = some w := rfl
      -- no other up call of the thread is on its way
      have hgone : ∀ a b, .upCall w ∉ s.net.set S.home (S.host w) rest a b := by
        intro a b hmem
        obtain ⟨rfl, rfl, -⟩ := h.call a b w (mem_of_mem_set hnet hmem)
        have hnodup := h.once S.home (S.host w)
        rw [Channels.set_self] at hmem
        rw [hnet, List.filterMap_cons_some hcall, List.nodup_cons] at hnodup
        exact hnodup.1 (mem_filterMap_call.mpr hmem)
      refine ⟨fun a b v hv ↦ ?_, fun v hv ↦ ?_, fun a b ↦ ?_, fun v hv hidle' ↦ ?_⟩
      · have hvw : v ≠ w := by
          rintro rfl
          exact hgone a b hv
        obtain ⟨ha, hb, hv', hlt'⟩ := h.call a b v (mem_of_mem_set hnet hv)
        exact ⟨ha, hb, by rwa [State.setPc_ne s hvw], hlt'⟩
      · by_cases hvw : v = w
        · exact hvw ▸ hlt
        · rw [State.setPc_ne s hvw] at hv
          exact h.called v hv
      · have hnodup := h.once a b
        change ((s.net.set S.home (S.host w) rest a b).filterMap Msg.call?).Nodup
        rw [Channels.set_apply]
        split
        · next hab =>
            rw [hab.1, hab.2, hnet, List.filterMap_cons_some hcall, List.nodup_cons] at hnodup
            exact hnodup.2
        · exact hnodup
      · have hvw : v ≠ w := by
          rintro rfl
          rw [State.setPc_self] at hidle'
          cases hidle'
        rw [State.setPc_ne s hvw] at hidle'
        exact mem_set_of_ne hnet (by simpa using hvw) (h.sent v hv hidle')

theorem initial : Calls S (system S).init where
  call q p w hw := by
    simp only [system] at hw
    split at hw
    · simp at hw
    · cases hw
  called w hw := absurd rfl hw
  once q p := by
    have hnone : ∀ fs : List Memory.Frame,
        (fs.map Msg.diff ++ [Msg.notification .completion]).filterMap Msg.call? = [] := by
      intro fs
      rw [List.filterMap_eq_nil_iff]
      intro m hm
      rcases List.mem_append.mp hm with hm | hm
      · obtain ⟨f, -, rfl⟩ := List.mem_map.mp hm
        rfl
      · rw [List.mem_singleton.mp hm]
        rfl
    simp only [system]
    split
    · rw [hnone]
      exact List.nodup_nil
    · exact List.nodup_nil
  sent w hw := absurd hw (Nat.not_lt_zero w)

end Calls

/-! ## Who sends to whom -/

theorem Setup.host_mem (S : Setup F) (w : ℕ) : S.host w ∈ S.G.ids := by
  have hhosts : ∀ p ∈ S.hosts, p ∈ S.G.ids := by
    intro p hp
    unfold Setup.hosts runOn at hp
    obtain ⟨ps, hps, hp⟩ := List.mem_flatten.mp hp
    rw [List.eq_of_mem_replicate hps, List.mem_append, Option.mem_toList] at hp
    rcases hp with hp | hp
    · exact ((S.G.mem_peers S.home S.home_mem p).mp (List.mem_of_head? hp)).1
    · rw [List.mem_singleton.mp hp]
      exact S.home_mem
  unfold Setup.host
  rw [List.getD_eq_getElem?_getD]
  cases hget : S.hosts[w]? with
  | none => exact S.home_mem
  | some p => exact hhosts p (List.mem_of_getElem? hget)

theorem Setup.nodeOf_mem (S : Setup F) (th : Thread) : S.nodeOf th ∈ S.G.ids := by
  cases th with
  | main => exact S.home_mem
  | worker w => exact S.host_mem w

theorem Setup.mem_everyone (S : Setup F) {p q : UInt32} (hp : p ∈ S.G.ids) :
    q ∈ S.everyone p ↔ q ∈ S.G.ids := by
  rw [Setup.everyone, List.mem_append, S.G.mem_peers p hp, List.mem_singleton]
  constructor
  · rintro (⟨hq, -⟩ | rfl)
    · exact hq
    · exact hp
  · intro hq
    by_cases hqp : q = p
    · exact .inr hqp
    · exact .inl ⟨hq, hqp⟩

theorem Setup.nodup_everyone (S : Setup F) {p : UInt32} (hp : p ∈ S.G.ids) :
    (S.everyone p).Nodup := by
  have hnot : p ∉ S.G.peers p := fun hmem ↦ ((S.G.mem_peers p hp p).mp hmem).2 rfl
  rw [Setup.everyone, List.nodup_append]
  refine ⟨S.G.peers_nodup p hp, List.nodup_singleton p, fun q hq q' hq' ↦ ?_⟩
  rw [List.mem_singleton.mp hq']
  rintro rfl
  exact hnot hq

/-- The nodes that are left are the last ones of the list. -/
def Notify.Left (S : Setup F) (p : UInt32) : Notify → Prop
  | ending => True
  | sendingDiff _ rest => rest <:+ S.G.peers p
  | sending rest => rest <:+ S.everyone p

structure Sends (S : Setup F) (s : State F) : Prop where
  channel : ∀ q p, ∀ m ∈ s.net q p, q ∈ S.G.ids ∧ p ∈ S.G.peers q
  client : ∀ q p, .notification .client ∈ s.net q p → q = S.home
  left : ∀ th n, s.notify? th = some n → n.Left S (S.nodeOf th)

namespace Sends

theorem frame (h : Sends S s) (hnet : ∀ q p m, m ∈ s'.net q p → m ∈ s.net q p)
    (hnotify : ∀ th n, s'.notify? th = some n → n = .ending ∨ s.notify? th = some n) :
    Sends S s' where
  channel q p m hm := h.channel q p m (hnet q p m hm)
  client q p hm := h.client q p (hnet q p _ hm)
  left th n hth := by
    rcases hnotify th n hth with rfl | hth
    · trivial
    · exact h.left th n hth

theorem setNotify (h : Sends S s) {th : Thread} {n : Notify} (hth : s.notify? th = some n)
    {next : Option Notify} (hnext : ∀ n' ∈ next, n'.Left S (S.nodeOf th)) :
    Sends S (s.setNotify th next) := by
  obtain ⟨-, -, -, hnet, -⟩ := State.setNotify_frame s th next
  refine ⟨by rw [hnet]; exact h.channel, by rw [hnet]; exact h.client, fun th' n' hth' ↦ ?_⟩
  by_cases hne : th' = th
  · subst hne
    rw [State.notify?_setNotify_self hth] at hth'
    exact hnext n' hth'
  · rw [State.notify?_setNotify_ne hne] at hth'
    exact h.left th' n' hth'

theorem send (h : Sends S s) {p q : UInt32} {m : Msg} (hp : p ∈ S.G.ids) (hq : q ∈ S.G.peers p)
    (hm : m = .notification .client → p = S.home) : Sends S (s.send p q m) where
  channel a b m' hm' := by
    rcases mem_send.mp hm' with hm' | ⟨⟨rfl, rfl⟩, -⟩
    · exact h.channel a b m' hm'
    · exact ⟨hp, hq⟩
  client a b hm' := by
    rcases mem_send.mp hm' with hm' | ⟨⟨rfl, -⟩, heq⟩
    · exact h.client a b hm'
    · exact hm heq.symm
  left := h.left

theorem left_sendFirst (S : Setup F) (p : UInt32) (fs : List Memory.Frame) :
    (Notify.sendFirst (S.G.peers p) (S.everyone p) fs).Left S p := by
  cases fs with
  | nil => exact List.suffix_refl _
  | cons f fs => exact List.suffix_refl _

theorem effect (h : Sends S s) (he : Effect S s s') : Sends S s' := by
  have hkeep : ∀ th n, s.notify? th = some n → n = .ending ∨ s.notify? th = some n :=
    fun _ _ ↦ .inr
  have hmain : ∀ {t : State F} {m : MainPc}, t.net = s.net → t.worker = s.worker → t.main = m →
      (∀ n, m = .notifying n → n = .ending) → Sends S t := by
    intro t m hnet hworker hm hending
    refine h.frame (fun _ _ _ ↦ by rw [hnet]; exact id) fun th n hth ↦ ?_
    cases th with
    | main => exact .inl (hending n (hm ▸ State.notify?_main hth))
    | worker w =>
        obtain ⟨last, hpc⟩ := State.notify?_worker hth
        exact .inr (State.notify?_of_pc (hworker ▸ hpc))
  cases he with
  | arm hpc => exact hmain rfl rfl rfl (by simp)
  | rearm hpc => exact hmain rfl rfl rfl (by simp)
  | leave hpc hready => exact hmain rfl rfl rfl (by simp)
  | finish hpc hready => exact hmain rfl rfl rfl (by simp)
  | callsDone hpc hi => exact hmain rfl rfl rfl (by simp)
  | @callSelf i hpc hi hhost =>
      refine h.frame (fun _ _ _ ↦ id) fun th n hth ↦ ?_
      cases th with
      | main => cases State.notify?_main hth
      | worker w =>
          have hset : (s.setPc i .called).notify? (.worker w) = some n := hth
          exact .inr ((State.notify?_setWorker hset).resolve_left (by simp))
  | @callPeer i hpc hi hhost =>
      have hpeer := (S.G.mem_peers S.home S.home_mem (S.host i)).mpr ⟨S.host_mem i, hhost⟩
      refine (h.send (m := .upCall i) S.home_mem hpeer (by simp)).frame (fun _ _ _ ↦ id)
        fun th n hth ↦ ?_
      cases th with
      | main => cases State.notify?_main hth
      | worker w => exact .inr hth
  | @txEnd th r payload hth hst =>
      have hset : Sends S (s.setNode (S.nodeOf th) r) := h.frame (fun _ _ _ ↦ id) hkeep
      refine hset.setNotify hth fun n hn ↦ ?_
      obtain rfl := Option.some.inj hn
      exact left_sendFirst S _ _
  | @sendDiff th f q rest hth =>
      have hleft : q :: rest <:+ S.G.peers (S.nodeOf th) := h.left th _ hth
      refine (h.send (S.nodeOf_mem th) (hleft.subset (by simp)) (by simp)).setNotify hth
        fun n hn ↦ ?_
      obtain rfl := Option.some.inj hn
      exact (List.suffix_cons q rest).trans hleft
  | diffSent hth =>
      refine h.setNotify hth fun n hn ↦ ?_
      obtain rfl := Option.some.inj hn
      exact List.suffix_refl _
  | @notifySelf th rest hth =>
      have hleft : S.nodeOf th :: rest <:+ S.everyone (S.nodeOf th) := h.left th _ hth
      have hset : Sends S (s.addReply th.barrier (S.nodeOf th) (S.nodeOf th)) :=
        h.frame (fun _ _ _ ↦ id) hkeep
      refine hset.setNotify hth fun n hn ↦ ?_
      obtain rfl := Option.some.inj hn
      exact (List.suffix_cons _ rest).trans hleft
  | @notifyPeer th q rest hth hq =>
      have hleft : q :: rest <:+ S.everyone (S.nodeOf th) := h.left th _ hth
      have hmem := (S.mem_everyone (S.nodeOf_mem th)).mp (hleft.subset List.mem_cons_self)
      have hpeer := (S.G.mem_peers _ (S.nodeOf_mem th) q).mpr ⟨hmem, hq⟩
      refine (h.send (S.nodeOf_mem th) hpeer fun hm ↦ ?_).setNotify hth fun n hn ↦ ?_
      · cases th with
        | main => rfl
        | worker w => cases hm
      · obtain rfl := Option.some.inj hn
        exact (List.suffix_cons _ rest).trans hleft
  | notified hth => exact h.setNotify hth (by simp)
  | start hpc =>
      exact h.frame (fun _ _ _ ↦ id) fun th n hth ↦
        .inr ((State.notify?_setWorker hth).resolve_left (by simp))
  | work hwork =>
      refine h.frame (fun _ _ _ ↦ id) fun th n hth ↦ ?_
      refine (State.notify?_setWorker hth).imp_left fun ⟨last, hpc⟩ ↦ ?_
      cases hwork with
      | update | nextStep | enter => cases hpc
      | computed | copied => exact (Pc.notifying.inj hpc).2.symm
  | store hpc hk hst =>
      exact h.frame (fun _ _ _ ↦ id) fun th n hth ↦
        .inr ((State.notify?_setWorker hth).resolve_left (by simp))
  | trap hpc hk hst => exact h.frame (fun _ _ _ ↦ id) hkeep
  | handlePage hst => exact h.frame (fun _ _ _ ↦ id) hkeep
  | receiveDiff hnet hst => exact h.frame (fun _ _ _ ↦ mem_of_mem_set hnet) hkeep
  | receiveNotification hnet hidle => exact h.frame (fun _ _ _ ↦ mem_of_mem_set hnet) hkeep
  | receiveCall hnet hidle =>
      exact h.frame (fun _ _ _ ↦ mem_of_mem_set hnet) fun th n hth ↦
        .inr ((State.notify?_setWorker hth).resolve_left (by simp))

theorem initial : Sends S (system S).init where
  channel q p m hm := by
    simp only [system] at hm
    split at hm
    · next hqp => exact ⟨hqp.1 ▸ S.home_mem, hqp.1 ▸ hqp.2⟩
    · cases hm
  client q p hm := by
    simp only [system] at hm
    split at hm
    · next hqp => exact hqp.1
    · cases hm
  left th n hth := by
    cases th with
    | main => cases hth
    | worker w => cases hth

end Sends

theorem calls_of_reach {ok : State F → Action → Prop} (h : (system S).Reach ok s) :
    Calls S s ∧ Sends S s :=
  h.invariant (fun s ↦ Calls S s ∧ Sends S s) ⟨.initial, .initial⟩ fun _ ih _ hst ↦
    ⟨ih.1.effect (effect_of_step hst), ih.2.effect (effect_of_step hst)⟩

end Edsm.NBody
