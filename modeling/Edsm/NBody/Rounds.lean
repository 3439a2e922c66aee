import Edsm.NBody.Calls
import Mathlib.Algebra.Order.BigOperators.Group.Finset

/-!
# The two rounds of the completion barrier

`run_simulation` arms the barrier with one entry for each thread.  An entry of a node stands for a
thread there that has not notified, or for a notification on its way; and no thread gets past its
wait before the first round is over.
-/

namespace Edsm.NBody

open Memory

/-- The second round. -/
def MainPc.round : MainPc → Bool
  | arming | calling _ | waiting false => false
  | rearming | notifying _ | waiting true | finished => true

/-- The threads may have been told to go on. -/
def MainPc.Released : MainPc → Prop
  | notifying (.sending _) | waiting true | finished => True
  | arming | calling _ | waiting false | rearming | notifying .ending |
    notifying (.sendingDiff ..) => False

/-- The barrier is not armed. -/
def MainPc.Unarmed : MainPc → Prop
  | arming | rearming => True
  | calling _ | waiting _ | notifying _ | finished => False

/-- `home` has yet to be told. -/
def Notify.owes (home : UInt32) : Notify → Bool
  | ending | sendingDiff .. => true
  | sending rest => decide (home ∈ rest)

namespace Pc

/-- The notification for the first or for the last round is still to come. -/
def owes (home : UInt32) : Bool → Pc → Bool
  | _, idle | _, called | _, computing .. => true
  | false, notifying false n => n.owes home
  | false, notifying true _ | false, waiting | false, copying _ | false, done => false
  | true, notifying false _ | true, waiting | true, copying _ => true
  | true, notifying true n => n.owes home
  | true, done => false

/-- After the wait. -/
def Late : Pc → Prop
  | idle | called | computing .. | notifying false _ | waiting => False
  | notifying true _ | copying _ | done => True

/-- After `edsm_barrier_arm` of the client barrier. -/
def Armed : Pc → Prop
  | idle | called => False
  | computing .. | notifying .. | waiting | copying _ | done => True

end Pc

def Msg.isCompletion : Msg → Bool
  | notification .completion => true
  | notification .client | diff _ | upCall _ => false

variable {F : Type} [Double F] {S : Setup F} {s s' : State F}

/-- The threads of a node that have not notified `home` for the round. -/
def State.owing (S : Setup F) (s : State F) (last : Bool) (p : UInt32) : Finset ℕ :=
  (Finset.range S.threadCount).filter fun w ↦
    S.host w = p ∧ (s.worker w).pc.owes S.home last = true

structure Rounds (S : Setup F) (s : State F) : Prop where
  held : ¬ s.main.Released → (∀ q p, .notification .client ∉ s.net q p) ∧
    (∀ w, ¬ (s.worker w).pc.Late) ∧
    ∀ w, (s.worker w).pc.Armed → s.waiter .client (S.host w) = [S.home]
  owed : s.main.round = true → ∀ w < S.threadCount, (s.worker w).pc.owes S.home false = false
  quiet : s.main.Unarmed → ∀ p, (s.net p S.home).countP Msg.isCompletion = 0
  balance : ¬ s.main.Unarmed → ∀ p, (s.waiter .completion S.home).count p =
    (s.owing S s.main.round p).card + (s.net p S.home).countP Msg.isCompletion
  finished : s.main = .finished → s.waiter .completion S.home = []

/-- As far as the rounds are concerned a call of `edsm_barrier_notify` goes on. -/
structure MainPc.Leads (m m' : MainPc) : Prop where
  round : m'.round = m.round
  released : m.Released → m'.Released
  unarmed : m'.Unarmed ↔ m.Unarmed
  finished : m' = .finished → m = .finished

theorem MainPc.Leads.refl (m : MainPc) : m.Leads m := ⟨rfl, id, Iff.rfl, id⟩

theorem MainPc.leads_notifying {n : Notify} {next : Option Notify}
    (hnext : ∀ rest, n = .sending rest → next = none ∨ ∃ rest', next = some (.sending rest')) :
    (MainPc.notifying n).Leads (next.elim (.waiting true) .notifying) where
  round := by cases next <;> rfl
  released hr := by
    cases n with
    | ending | sendingDiff => exact hr.elim
    | sending rest => rcases hnext rest rfl with rfl | ⟨rest', rfl⟩ <;> trivial
  unarmed := by cases next <;> exact Iff.rfl
  finished hfin := by cases next <;> cases hfin

theorem MainPc.round_of_released {m : MainPc} (h : m.Released) : m.round = true ∧ ¬ m.Unarmed := by
  match m with
  | .notifying (.sending _) | .waiting true | .finished => exact ⟨rfl, id⟩

namespace Rounds

/-! ## Counting -/

theorem owing_congr {last : Bool}
    (howes : ∀ w, (s'.worker w).pc.owes S.home last = (s.worker w).pc.owes S.home last)
    (p : UInt32) : s'.owing S last p = s.owing S last p := by
  unfold State.owing
  simp only [howes]

/-- One thread notifies. -/
theorem card_owing {last : Bool} {w : ℕ} (hw : w < S.threadCount)
    (hbefore : (s.worker w).pc.owes S.home last = true)
    (hafter : (s'.worker w).pc.owes S.home last = false)
    (hother : ∀ v, v ≠ w → s'.worker v = s.worker v) (p : UInt32) :
    (s.owing S last p).card = (s'.owing S last p).card + if S.host w = p then 1 else 0 := by
  split
  · next hp =>
      have hmem : w ∈ s.owing S last p := by
        simp [State.owing, hw, hp, hbefore]
      have herase : s'.owing S last p = (s.owing S last p).erase w := by
        ext v
        rw [Finset.mem_erase]
        by_cases hv : v = w
        · subst hv
          simp [State.owing, hafter]
        · simp [State.owing, hother v hv, hv]
      rw [herase, Finset.card_erase_add_one hmem]
  · next hp =>
      have hsame : s'.owing S last p = s.owing S last p := by
        ext v
        by_cases hv : v = w
        · subst hv
          simp [State.owing, hp]
        · simp [State.owing, hother v hv]
      rw [hsame, Nat.add_zero]

theorem countP_set {net : Channels UInt32 Msg} {q p a b : UInt32} {m : Msg} {rest : List Msg}
    (hnet : net q p = m :: rest) (hm : m.isCompletion = false) :
    (net.set q p rest a b).countP Msg.isCompletion = (net a b).countP Msg.isCompletion := by
  rw [Channels.set_apply]
  split
  · next hab => rw [hab.1, hab.2, hnet, List.countP_cons_of_neg (by simp [hm])]
  · rfl

theorem countP_send {net : Channels UInt32 Msg} {q p a b : UInt32} {m : Msg}
    (hm : m.isCompletion = false ∨ b ≠ p) :
    (net.send q p m a b).countP Msg.isCompletion = (net a b).countP Msg.isCompletion := by
  rw [Channels.send_apply]
  split
  · next hab =>
      rw [List.countP_append, List.countP_singleton, if_neg, Nat.add_zero]
      rw [hm.resolve_right (not_not.mpr hab.2)]
      exact Bool.false_ne_true
  · rfl

theorem count_hosts (S : Setup F) (p : UInt32) :
    S.hosts.count p = ((Finset.range S.threadCount).filter fun w ↦ S.host w = p).card := by
  have hmap : S.hosts = (List.range S.threadCount).map S.host := by
    refine List.ext_getElem (by simp [Setup.threadCount]) fun i hi hi' ↦ ?_
    simp [Setup.host, hi]
  conv_lhs => rw [hmap]
  rw [List.count, List.countP_map, List.countP_eq_length_filter, Finset.card_def, Finset.filter_val,
    Finset.range_val, Multiset.range, Multiset.filter_coe, Multiset.coe_card]
  refine congrArg List.length (List.filter_congr fun w _ ↦ ?_)
  exact Bool.beq_eq_decide_eq _ _

/-! ## What leaves the rounds as they are -/

theorem frame (h : Rounds S s) (hmain : s.main.Leads s'.main)
    (howes : ∀ w last, (s'.worker w).pc.owes S.home last = (s.worker w).pc.owes S.home last)
    (hlate : ¬ s.main.Released → ∀ w, (s'.worker w).pc.Late → (s.worker w).pc.Late)
    (hwaiter : s'.waiter .completion S.home = s.waiter .completion S.home)
    (harmed : ¬ s'.main.Released → ∀ w, (s'.worker w).pc.Armed →
      s'.waiter .client (S.host w) = [S.home])
    (hclient : ¬ s'.main.Released → ∀ q p, .notification .client ∈ s'.net q p →
      .notification .client ∈ s.net q p)
    (hcount : ∀ p, (s'.net p S.home).countP Msg.isCompletion =
      (s.net p S.home).countP Msg.isCompletion) : Rounds S s' where
  held hnot := by
    have hnot' : ¬ s.main.Released := fun hr ↦ hnot (hmain.released hr)
    obtain ⟨hnone, hearly, -⟩ := h.held hnot'
    exact ⟨fun q p hm ↦ hnone q p (hclient hnot q p hm), fun w hl ↦ hearly w (hlate hnot' w hl),
      harmed hnot⟩
  owed hround w hw := by
    rw [howes]
    exact h.owed (hmain.round ▸ hround) w hw
  quiet hunarmed p := by
    rw [hcount]
    exact h.quiet (hmain.unarmed.mp hunarmed) p
  balance hunarmed p := by
    rw [hwaiter, hcount, hmain.round, owing_congr fun w ↦ howes w _]
    exact h.balance (fun hu ↦ hunarmed (hmain.unarmed.mpr hu)) p
  finished hfin := by
    rw [hwaiter]
    exact h.finished (hmain.finished hfin)

theorem send (h : Rounds S s) {p q : UInt32} {m : Msg}
    (hm : m.isCompletion = false ∨ S.home ≠ q)
    (hclient : m = .notification .client → s.main.Released) : Rounds S (s.send p q m) := by
  refine h.frame (.refl _) (fun _ _ ↦ rfl) (fun _ _ ↦ id) rfl (fun hnot ↦ (h.held hnot).2.2)
    (fun hnot a b hmem ↦ ?_) fun _ ↦ countP_send hm
  rcases mem_send.mp hmem with hmem | ⟨-, heq⟩
  · exact hmem
  · exact absurd (hclient heq.symm) hnot

theorem owes_setWorker {w : ℕ} {x : Worker F}
    (hx : ∀ last, x.pc.owes S.home last = (s.worker w).pc.owes S.home last) (v : ℕ) (last : Bool) :
    ((s.setWorker w x).worker v).pc.owes S.home last = (s.worker v).pc.owes S.home last := by
  by_cases hv : v = w
  · subst hv
    rw [State.setWorker_self, hx]
  · rw [State.setWorker_ne s hv]

/-- As long as the node is told or is still to be told. -/
theorem owes_setNotify (th : Thread) {n : Notify} (hth : s.notify? th = some n)
    {next : Option Notify}
    (howes : th ≠ .main → next.elim false (Notify.owes S.home) = n.owes S.home) (w : ℕ)
    (last : Bool) : ((s.setNotify th next).worker w).pc.owes S.home last =
      (s.worker w).pc.owes S.home last := by
  cases th with
  | main => rfl
  | worker v =>
      obtain ⟨l, hpc⟩ := State.notify?_worker hth
      have heq := howes (by simp)
      rw [State.setNotify_worker hpc]
      refine owes_setWorker (fun last ↦ ?_) w last
      rw [hpc]
      cases next <;> cases l <;> cases last <;> simp_all [Pc.owes]

theorem owes_work {w : ℕ} {pc : Pc} {tmp : ℕ → Body F} (hwork : Work S s w pc tmp) (last : Bool) :
    pc.owes S.home last = (s.worker w).pc.owes S.home last := by
  cases hwork with
  | update hpc | nextStep hpc | computed hpc | enter hpc | copied hpc =>
      rw [hpc]
      cases last <;> rfl

/-- A thread that goes on before the end of its wait. -/
theorem setWorker (h : Rounds S s) {w : ℕ} {x : Worker F} {m : MainPc} (hmain : s.main.Leads m)
    (hx : ∀ last, x.pc.owes S.home last = (s.worker w).pc.owes S.home last)
    (hlate : ¬ s.main.Released → x.pc.Late → (s.worker w).pc.Late)
    (harmed : x.pc.Armed → (s.worker w).pc.Armed) :
    Rounds S { s.setWorker w x with main := m } := by
  refine h.frame hmain (owes_setWorker hx) (fun hnot v hv ↦ ?_) rfl (fun hnot v hv ↦ ?_)
    (fun _ _ _ ↦ id) fun _ ↦ rfl
  · change ((s.setWorker w x).worker v).pc.Late at hv
    by_cases hvw : v = w
    · subst hvw
      rw [State.setWorker_self] at hv
      exact hlate hnot hv
    · rwa [State.setWorker_ne s hvw] at hv
  · refine (h.held fun hr ↦ hnot (hmain.released hr)).2.2 v ?_
    change ((s.setWorker w x).worker v).pc.Armed at hv
    by_cases hvw : v = w
    · subst hvw
      rw [State.setWorker_self] at hv
      exact harmed hv
    · rwa [State.setWorker_ne s hvw] at hv

theorem setNotify (h : Rounds S s) (th : Thread) {n : Notify} (hth : s.notify? th = some n)
    {next : Option Notify}
    (hnext : ∀ rest, n = .sending rest → next = none ∨ ∃ rest', next = some (.sending rest'))
    (howes : th ≠ .main → next.elim false (Notify.owes S.home) = n.owes S.home) :
    Rounds S (s.setNotify th next) := by
  cases th with
  | main =>
      have hpc := State.notify?_main hth
      have hleads := hpc.symm ▸ MainPc.leads_notifying hnext
      exact h.frame hleads (fun _ _ ↦ rfl) (fun _ _ ↦ id) rfl
        (fun hnot ↦ (h.held fun hr ↦ hnot (hleads.released hr)).2.2) (fun _ _ _ ↦ id) fun _ ↦ rfl
  | worker w =>
      have hsame := owes_setNotify (.worker w) hth howes
      obtain ⟨last, hpc⟩ := State.notify?_worker hth
      rw [State.setNotify_worker hpc] at hsame ⊢
      refine h.setWorker (.refl _) (fun l ↦ ?_) (fun _ hl ↦ ?_) fun _ ↦ ?_
      · rw [← hsame w l, State.setPc_self]
      · rw [hpc]
        cases next <;> cases last <;> exact hl
      · rw [hpc]
        trivial

/-! ## A thread notifies `home` -/

theorem owes_of_not_late {pc : Pc} (h : ¬ pc.Late) (home : UInt32) : pc.owes home true = true := by
  match pc with
  | .idle | .called | .computing .. | .notifying false _ | .waiting => rfl
  | .notifying true _ | .copying _ | .done => exact absurd trivial h

/-- The barrier is armed for the round that a thread notifies for. -/
theorem round_of_owes (h : Rounds S s) (hc : Calls S s) {w : ℕ} {last : Bool} {n : Notify}
    (hpc : (s.worker w).pc = .notifying last n) (hn : n.owes S.home = true) :
    s.main.round = last ∧ ¬ s.main.Unarmed := by
  have hne : (s.worker w).pc ≠ .idle := by simp [hpc]
  have harming : s.main ≠ .arming := by
    intro hmain
    have hlt := hc.called w hne
    rw [hmain] at hlt
    exact Nat.not_lt_zero w hlt
  cases last with
  | false =>
      have hround : s.main.round = false := by
        by_contra hround
        have howed := h.owed (by simpa using hround) w (hc.lt_threadCount hne)
        rw [hpc, Pc.owes, hn] at howed
        cases howed
      refine ⟨hround, fun hunarmed ↦ ?_⟩
      cases hmain : s.main with
      | arming => exact harming hmain
      | rearming => simp [hmain, MainPc.round] at hround
      | calling | waiting | notifying | finished => simp [hmain, MainPc.Unarmed] at hunarmed
  | true =>
      refine MainPc.round_of_released ?_
      by_contra hnot
      exact (h.held hnot).2.1 w (by rw [hpc]; trivial)

/-- The entry of a thread goes, or its notification is on its way. -/
theorem notify_home (h : Rounds S s) (hc : Calls S s) {w : ℕ} {last : Bool} {rest : List UInt32}
    (hpc : (s.worker w).pc = .notifying last (.sending (S.home :: rest))) (hrest : S.home ∉ rest)
    (hmain : s'.main = s.main) (hpc' : (s'.worker w).pc = .notifying last (.sending rest))
    (hother : ∀ v, v ≠ w → s'.worker v = s.worker v)
    (hclient : s'.waiter .client = s.waiter .client)
    (hnet : ∀ q p, .notification .client ∈ s'.net q p → .notification .client ∈ s.net q p)
    (hmove : S.host w ∈ s.waiter .completion S.home → ∀ p,
      (s'.waiter .completion S.home).count p + (s.net p S.home).countP Msg.isCompletion +
        (if S.host w = p then 1 else 0) = (s.waiter .completion S.home).count p +
          (s'.net p S.home).countP Msg.isCompletion)
    (hfin : s.waiter .completion S.home = [] → s'.waiter .completion S.home = []) :
    Rounds S s' := by
  have hne : (s.worker w).pc ≠ .idle := by simp [hpc]
  have hw := hc.lt_threadCount hne
  obtain ⟨hround, harmed⟩ := h.round_of_owes hc hpc (by simp [Notify.owes])
  have hbefore : (s.worker w).pc.owes S.home last = true := by
    rw [hpc]
    cases last <;> simp [Pc.owes, Notify.owes]
  have hafter : (s'.worker w).pc.owes S.home last = false := by
    rw [hpc']
    cases last <;> simp [Pc.owes, Notify.owes, hrest]
  have hcard := card_owing hw hbefore hafter hother
  have hbalance := h.balance harmed
  rw [hround] at hbalance
  have hmem : S.host w ∈ s.waiter .completion S.home := by
    rw [← List.count_pos_iff, hbalance, hcard, if_pos rfl]
    omega
  refine ⟨fun hnot ↦ ?_, fun hr v hv ↦ ?_, fun hunarmed ↦ ?_, fun _ p ↦ ?_, fun hfinished ↦ ?_⟩
  · rw [hmain] at hnot
    obtain ⟨hnone, hearly, hwait⟩ := h.held hnot
    refine ⟨fun q p hm ↦ hnone q p (hnet q p hm), fun v hl ↦ ?_, fun v hv ↦ ?_⟩
    · by_cases hvw : v = w
      · subst hvw
        refine hearly v ?_
        rw [hpc'] at hl
        rw [hpc]
        cases last <;> exact hl
      · rw [hother v hvw] at hl
        exact hearly v hl
    · rw [hclient]
      refine hwait v ?_
      by_cases hvw : v = w
      · subst hvw
        rw [hpc]
        trivial
      · rwa [hother v hvw] at hv
  · rw [hmain] at hr
    by_cases hvw : v = w
    · subst hvw
      obtain rfl : true = last := hr ▸ hround
      rw [hpc', Pc.owes]
    · rw [hother v hvw]
      exact h.owed hr v hv
  · exact absurd (hmain ▸ hunarmed) harmed
  · have hp := hbalance p
    have hmoved := hmove hmem p
    rw [hmain, hround]
    rw [hcard p] at hp
    omega
  · exact hfin (h.finished (hmain ▸ hfinished))

/-! ## The steps -/

theorem all_idle (hc : Calls S s) (hmain : s.main = .arming) (w : ℕ) :
    (s.worker w).pc = .idle := by
  by_contra hne
  have hlt := hc.called w hne
  rw [hmain] at hlt
  exact Nat.not_lt_zero w hlt

/-- The barrier is armed while all threads owe a notification for the round. -/
theorem rearm (h : Rounds S s) {m : MainPc} (hunarmed : s.main.Unarmed) (hm : ¬ m.Unarmed)
    (hround : m.round = s.main.round) (hfin : m ≠ .finished)
    (howes : ∀ w < S.threadCount, (s.worker w).pc.owes S.home m.round = true) :
    Rounds S { s.setWaiter .completion S.home S.hosts with main := m } where
  held _ := h.held (by cases hmain : s.main <;> simp_all [MainPc.Unarmed, MainPc.Released])
  owed hr := h.owed (hround ▸ hr)
  quiet hu := absurd hu hm
  balance _ p := by
    have howing : s.owing S m.round p =
        (Finset.range S.threadCount).filter fun w ↦ S.host w = p := by
      refine Finset.filter_congr fun w hw ↦ ?_
      rw [howes w (Finset.mem_range.mp hw)]
      simp
    have hwaiter : (s.setWaiter .completion S.home S.hosts).waiter .completion S.home =
        S.hosts := by
      simp [State.setWaiter]
    change List.count p ((s.setWaiter .completion S.home S.hosts).waiter .completion S.home) =
      (s.owing S m.round p).card + _
    rw [hwaiter, count_hosts, howing]
    exact (Nat.add_eq_left.mpr (h.quiet hunarmed p)).symm
  finished hf := absurd hf hfin

theorem leave (h : Rounds S s) (hmain : s.main = .waiting false)
    (hready : s.waiter .completion S.home = []) : Rounds S { s with main := .rearming } := by
  have hzero : ∀ p, (s.owing S false p).card = 0 ∧
      (s.net p S.home).countP Msg.isCompletion = 0 := by
    intro p
    have hbalance := h.balance (by simp [hmain, MainPc.Unarmed]) p
    rw [hready, hmain, List.count_nil] at hbalance
    exact Nat.add_eq_zero_iff.mp hbalance.symm
  refine ⟨fun _ ↦ h.held (by simp [hmain, MainPc.Released]), fun _ w hw ↦ ?_,
    fun _ p ↦ (hzero p).2, fun hu ↦ absurd trivial hu, fun hf ↦ by cases hf⟩
  have hempty := Finset.card_eq_zero.mp (hzero (S.host w)).1
  cases howes : (s.worker w).pc.owes S.home false with
  | false => rfl
  | true =>
      have hmem : w ∈ s.owing S false (S.host w) := by simp [State.owing, hw, howes]
      rw [hempty] at hmem
      cases hmem

/-- A notification is handled. -/
theorem receive (h : Rounds S s) {q p : UInt32} {b : Barrier} {rest : List Msg}
    (hnet : s.net q p = .notification b :: rest) :
    Rounds S { s.addReply b p q with net := s.net.set q p rest } := by
  have hhome : ∀ a, p ≠ S.home → s.net.set q p rest a S.home = s.net a S.home := by
    intro a hp
    rw [Channels.set_apply, if_neg fun hab ↦ hp hab.2.symm]
  cases b with
  | client =>
      refine h.frame (.refl _) (fun _ _ ↦ rfl) (fun _ _ ↦ id) ?_ (fun hnot ↦ ?_)
        (fun _ _ _ ↦ mem_of_mem_set hnet) fun a ↦ countP_set hnet rfl
      · simp [State.addReply, State.setWaiter]
      · exact absurd (by simp [hnet]) ((h.held hnot).1 q p)
  | completion =>
      have hclient : (s.addReply .completion p q).waiter .client = s.waiter .client := by
        simp [State.addReply, State.setWaiter]
      by_cases hp : p = S.home
      · subst hp
        have hwaiter : (s.addReply .completion S.home q).waiter .completion S.home =
            (s.waiter .completion S.home).erase q := by
          simp [State.addReply, State.setWaiter, ReplyWaiter.addReply]
        have hcount : ∀ a, (s.net a S.home).countP Msg.isCompletion =
            (s.net.set q S.home rest a S.home).countP Msg.isCompletion +
              if a = q then 1 else 0 := by
          intro a
          rw [Channels.set_apply]
          by_cases ha : a = q
          · subst ha
            rw [if_pos ⟨rfl, rfl⟩, if_pos rfl, hnet, List.countP_cons_of_pos rfl]
          · rw [if_neg fun hab ↦ ha hab.1, if_neg ha, Nat.add_zero]
        refine ⟨fun hnot ↦ ?_, h.owed, fun hu a ↦ ?_, fun hu a ↦ ?_, fun hf ↦ ?_⟩
        · obtain ⟨hnone, hearly, hwait⟩ := h.held hnot
          exact ⟨fun a b hm ↦ hnone a b (mem_of_mem_set hnet hm), hearly,
            fun w hw ↦ (congrFun hclient _).trans (hwait w hw)⟩
        · have hzero := h.quiet hu a
          rw [hcount a] at hzero
          exact Nat.eq_zero_of_add_eq_zero_right hzero
        · have hbalance := h.balance hu a
          change ((s.addReply .completion S.home q).waiter .completion S.home).count a =
            (s.owing S s.main.round a).card + (s.net.set q S.home rest a S.home).countP _
          rw [hcount a] at hbalance
          rw [hwaiter, List.count_erase]
          by_cases ha : a = q
          · subst ha
            simp only [beq_self_eq_true, if_true] at hbalance ⊢
            omega
          · have hqa : (q == a) = false := beq_eq_false_iff_ne.mpr (Ne.symm ha)
            simp only [hqa, ha, if_false, Bool.false_eq_true] at hbalance ⊢
            omega
        · change (s.addReply .completion S.home q).waiter .completion S.home = []
          rw [hwaiter, h.finished hf]
          rfl
      · refine h.frame (.refl _) (fun _ _ ↦ rfl) (fun _ _ ↦ id) ?_ (fun hnot w hw ↦ ?_)
          (fun _ _ _ ↦ mem_of_mem_set hnet) fun a ↦ congrArg _ (hhome a hp)
        · simp [State.addReply, State.setWaiter, Ne.symm hp]
        · exact (congrFun hclient _).trans ((h.held hnot).2.2 w hw)

/-- A thread tells the next node. -/
theorem notifyPeer (h : Rounds S s) (hc : Calls S s) (hsends : Sends S s) {th : Thread}
    {q : UInt32} {rest : List UInt32} (hth : s.notify? th = some (.sending (q :: rest)))
    (hq : q ≠ S.nodeOf th) :
    Rounds S ((s.send (S.nodeOf th) q (.notification th.barrier)).setNotify th
      (some (.sending rest))) := by
  have hnodup : (q :: rest).Nodup :=
    (S.nodup_everyone (S.nodeOf_mem th)).sublist (hsends.left th _ hth).sublist
  by_cases hmain : th = .main
  · subst hmain
    have hreleased : s.main.Released := by
      rw [State.notify?_main hth]
      trivial
    exact (h.send (.inl rfl) fun _ ↦ hreleased).setNotify .main hth (by simp)
      fun hne ↦ absurd rfl hne
  · obtain ⟨w, rfl⟩ : ∃ w, th = .worker w := by
      cases th with
      | main => exact absurd rfl hmain
      | worker w => exact ⟨w, rfl⟩
    obtain ⟨last, hpc⟩ := State.notify?_worker hth
    by_cases hhome : q = S.home
    · subst hhome
      have hset := State.setNotify_worker
        (s := s.send (S.host w) S.home (.notification .completion)) hpc (some (.sending rest))
      change Rounds S ((s.send (S.host w) S.home (.notification .completion)).setNotify
        (.worker w) (some (.sending rest)))
      rw [hset]
      refine h.notify_home hc hpc (List.nodup_cons.mp hnodup).1 rfl (State.setPc_self _ _ _)
        (fun v hv ↦ State.setPc_ne _ hv _) rfl (fun a b hm ↦ ?_) (fun _ p ↦ ?_) id
      · rcases mem_send.mp hm with hm | ⟨-, heq⟩
        · exact hm
        · cases heq
      · change _ = _ + (s.net.send (S.host w) S.home (.notification .completion) p S.home).countP _
        rw [Channels.send_apply]
        change (s.waiter .completion S.home).count p + _ + _ = _
        by_cases hp : S.host w = p
        · subst hp
          rw [if_pos rfl, if_pos ⟨rfl, rfl⟩, List.countP_append]
          exact Nat.add_assoc _ _ _
        · rw [if_neg hp, if_neg fun hab ↦ hp hab.1.symm, Nat.add_zero]
    · refine (h.send (.inr (Ne.symm hhome)) (by simp [Thread.barrier])).setNotify (.worker w) hth
        (by simp) fun _ ↦ ?_
      simp [Notify.owes, Ne.symm hhome]

/-- A thread removes the entry of its own node. -/
theorem notifySelf (h : Rounds S s) (hc : Calls S s) (hsends : Sends S s) {th : Thread}
    {rest : List UInt32} (hth : s.notify? th = some (.sending (S.nodeOf th :: rest))) :
    Rounds S ((s.addReply th.barrier (S.nodeOf th) (S.nodeOf th)).setNotify th
      (some (.sending rest))) := by
  have hnodup : (S.nodeOf th :: rest).Nodup :=
    (S.nodup_everyone (S.nodeOf_mem th)).sublist (hsends.left th _ hth).sublist
  cases th with
  | main =>
      have hreleased : s.main.Released := by
        rw [State.notify?_main hth]
        trivial
      have hset : Rounds S (s.addReply .client S.home S.home) := by
        refine h.frame (.refl _) (fun _ _ ↦ rfl) (fun _ _ ↦ id) ?_
          (fun hnot ↦ absurd hreleased hnot) (fun _ _ _ ↦ id) fun _ ↦ rfl
        simp [State.addReply, State.setWaiter]
      exact hset.setNotify .main hth (by simp) fun hne ↦ absurd rfl hne
  | worker w =>
      obtain ⟨last, hpc⟩ := State.notify?_worker hth
      have hclient : (s.addReply .completion (S.host w) (S.host w)).waiter .client =
          s.waiter .client := by
        simp [State.addReply, State.setWaiter]
      by_cases hhome : S.host w = S.home
      · have hset := State.setNotify_worker
          (s := s.addReply .completion (S.host w) (S.host w)) hpc (some (.sending rest))
        have hwaiter : (s.addReply .completion (S.host w) (S.host w)).waiter .completion S.home =
            (s.waiter .completion S.home).erase S.home := by
          simp [State.addReply, State.setWaiter, ReplyWaiter.addReply, hhome]
        change Rounds S ((s.addReply .completion (S.host w) (S.host w)).setNotify (.worker w)
          (some (.sending rest)))
        rw [hset]
        have hpc' : (s.worker w).pc = .notifying last (.sending (S.home :: rest)) := hhome ▸ hpc
        refine h.notify_home hc hpc' (hhome ▸ (List.nodup_cons.mp hnodup).1) rfl
          (State.setPc_self _ _ _) (fun v hv ↦ State.setPc_ne _ hv _) hclient (fun _ _ ↦ id)
          (fun hmem p ↦ ?_) fun hnil ↦ ?_
        · change (State.waiter (s.addReply .completion (S.host w) (S.host w)) .completion
            S.home).count p + _ + _ = _ + (s.net p S.home).countP _
          rw [hwaiter, hhome, List.count_erase]
          rw [hhome] at hmem
          by_cases hp : S.home = p
          · subst hp
            have hpos := List.count_pos_iff.mpr hmem
            simp only [beq_self_eq_true, if_true]
            omega
          · have hne : (S.home == p) = false := beq_eq_false_iff_ne.mpr hp
            simp only [hne, hp, if_false, Bool.false_eq_true]
            omega
        · change State.waiter (s.addReply .completion (S.host w) (S.host w)) .completion S.home = []
          rw [hwaiter, hnil]
          rfl
      · have hset : Rounds S (s.addReply .completion (S.host w) (S.host w)) := by
          refine h.frame (.refl _) (fun _ _ ↦ rfl) (fun _ _ ↦ id) ?_
            (fun hnot v hv ↦ (congrFun hclient _).trans ((h.held hnot).2.2 v hv))
            (fun _ _ _ ↦ id) fun _ ↦ rfl
          simp [State.addReply, State.setWaiter, Ne.symm hhome]
        refine hset.setNotify (.worker w) hth (by simp) fun _ ↦ ?_
        simp [Notify.owes, Setup.nodeOf, Ne.symm hhome]

theorem owes_sendFirst (S : Setup F) {p : UInt32} (hp : p ∈ S.G.ids) (fs : List Frame) :
    (Notify.sendFirst (S.G.peers p) (S.everyone p) fs).owes S.home = true := by
  cases fs with
  | nil => exact decide_eq_true ((S.mem_everyone hp).mpr S.home_mem)
  | cons f fs => rfl

theorem effect (h : Rounds S s) (hc : Calls S s) (hsends : Sends S s) (he : Effect S s s') :
    Rounds S s' := by
  have hnode : ∀ p r, Rounds S (s.setNode p r) := fun p r ↦
    h.frame (.refl _) (fun _ _ ↦ rfl) (fun _ _ ↦ id) rfl (fun hnot ↦ (h.held hnot).2.2)
      (fun _ _ _ ↦ id) fun _ ↦ rfl
  have hpop : ∀ {q p : UInt32} {m : Msg} {rest : List Msg} (node : UInt32 → Replica)
      (sender : UInt32 → UInt32), s.net q p = m :: rest → m.isCompletion = false →
      Rounds S { s with node, sender, net := s.net.set q p rest } := fun node sender hnet hm ↦
    h.frame (.refl _) (fun _ _ ↦ rfl) (fun _ _ ↦ id) rfl (fun hnot ↦ (h.held hnot).2.2)
      (fun _ _ _ ↦ mem_of_mem_set hnet) fun _ ↦ countP_set hnet hm
  cases he with
  | arm hmain =>
      refine h.rearm (by simp [hmain, MainPc.Unarmed]) id (by simp [hmain, MainPc.round])
        (by simp) fun w _ ↦ ?_
      rw [all_idle hc hmain]
      rfl
  | rearm hmain =>
      refine h.rearm (by simp [hmain, MainPc.Unarmed]) id (by simp [hmain, MainPc.round])
        (by simp) fun w _ ↦ owes_of_not_late ?_ _
      exact (h.held (by simp [hmain, MainPc.Released])).2.1 w
  | leave hmain hready => exact h.leave hmain hready
  | finish hmain hready =>
      refine ⟨fun hnot ↦ absurd trivial hnot, fun _ ↦ h.owed (by simp [hmain, MainPc.round]),
        fun hu ↦ hu.elim, fun _ p ↦ ?_, fun _ ↦ hready⟩
      have hbalance := h.balance (by simp [hmain, MainPc.Unarmed]) p
      rwa [hmain] at hbalance
  | callsDone hmain hi =>
      have hleads : s.main.Leads (.waiting false) := by
        rw [hmain]
        exact ⟨rfl, id, Iff.rfl, by simp⟩
      exact h.frame hleads (fun _ _ ↦ rfl) (fun _ _ ↦ id) rfl
        (fun hnot ↦ (h.held fun hr ↦ hnot (hleads.released hr)).2.2) (fun _ _ _ ↦ id) fun _ ↦ rfl
  | @callSelf i hmain hi hhost =>
      have hleads : s.main.Leads (.calling (i + 1)) := by
        rw [hmain]
        exact ⟨rfl, id, Iff.rfl, by simp⟩
      have hidle := hc.idle_of_calling hmain
      refine h.setWorker hleads (fun last ↦ ?_) (fun _ ↦ False.elim) False.elim
      rw [hidle]
      cases last <;> rfl
  | @callPeer i hmain hi hhost =>
      have hleads : s.main.Leads (.calling (i + 1)) := by
        rw [hmain]
        exact ⟨rfl, id, Iff.rfl, by simp⟩
      refine h.frame hleads (fun _ _ ↦ rfl) (fun _ _ ↦ id) rfl
        (fun hnot ↦ (h.held fun hr ↦ hnot (hleads.released hr)).2.2) (fun _ q p hm ↦ ?_)
        fun _ ↦ countP_send (.inl rfl)
      rcases mem_send.mp hm with hm | ⟨-, heq⟩
      · exact hm
      · cases heq
  | @txEnd th r payload hth hst =>
      exact (hnode _ r).setNotify th hth (by simp) fun _ ↦ owes_sendFirst S (S.nodeOf_mem th) _
  | sendDiff hth => exact (h.send (.inl rfl) (by simp)).setNotify _ hth (by simp) fun _ ↦ rfl
  | @diffSent th f hth =>
      refine h.setNotify th hth (by simp) fun _ ↦ ?_
      exact decide_eq_true ((S.mem_everyone (S.nodeOf_mem th)).mpr S.home_mem)
  | notifySelf hth => exact h.notifySelf hc hsends hth
  | notifyPeer hth hq => exact h.notifyPeer hc hsends hth hq
  | notified hth => exact h.setNotify _ hth (fun _ _ ↦ .inl rfl) fun _ ↦ rfl
  | @start w hpc =>
      have hown : ∀ last, (Pc.computing 0 0).owes S.home last =
          ((s.setWaiter .client (S.host w) [S.home]).worker w).pc.owes S.home last := by
        intro last
        have hpc' : ((s.setWaiter .client (S.host w) [S.home]).worker w).pc = .called := hpc
        rw [hpc']
        cases last <;> rfl
      refine h.frame (.refl _) (owes_setWorker hown) (fun hnot v hl ↦ ?_) ?_ (fun hnot v hv ↦ ?_)
        (fun _ _ _ ↦ id) fun _ ↦ rfl
      · by_cases hvw : v = w
        · subst hvw
          rw [State.setWorker_self] at hl
          exact hl.elim
        · rwa [State.setWorker_ne _ hvw] at hl
      · change (s.setWaiter .client (S.host w) [S.home]).waiter .completion S.home = _
        simp [State.setWaiter]
      · change (s.setWaiter .client (S.host w) [S.home]).waiter .client (S.host v) = [S.home]
        by_cases hhost : S.host v = S.host w
        · simp [State.setWaiter, hhost]
        · have hvw : v ≠ w := fun heq ↦ hhost (heq ▸ rfl)
          rw [State.setWorker_ne _ hvw] at hv
          simpa [State.setWaiter, hhost] using (h.held hnot).2.2 v hv
  | @work w pc tmp hwork =>
      refine h.setWorker (.refl _) (owes_work hwork) (fun hnot hl ↦ ?_) fun _ ↦ ?_
      · cases hwork with
        | update | nextStep | computed => exact hl.elim
        | enter hpc hready =>
            have hwait := (h.held hnot).2.2 w (by rw [hpc]; trivial)
            rw [hready] at hwait
            cases hwait
        | copied hpc =>
            rw [hpc]
            trivial
      · cases hwork with
        | update hpc | nextStep hpc | computed hpc | enter hpc | copied hpc =>
            rw [hpc]
            trivial
  | @store w k r hpc hk hst =>
      have hpc' : ((s.setNode (S.host w) r).worker w).pc = .copying k := hpc
      refine (hnode (S.host w) r).setWorker (.refl _) (fun last ↦ ?_) (fun _ _ ↦ ?_) fun _ ↦ ?_
      · rw [hpc']
        cases last <;> rfl
      · rw [hpc']
        trivial
      · rw [hpc']
        trivial
  | trap hpc hk hst => exact hnode _ _
  | handlePage hst => exact hnode _ _
  | receiveDiff hnet hst => exact hpop _ _ hnet rfl
  | receiveNotification hnet hidle => exact h.receive hnet
  | @receiveCall q p w rest hnet hidle =>
      obtain ⟨-, -, hpc, -⟩ := hc.call q p w (by simp [hnet])
      refine (hpop s.node s.sender hnet rfl).setWorker (.refl _) (fun last ↦ ?_)
        (fun _ ↦ False.elim) False.elim
      change _ = (s.worker w).pc.owes S.home last
      rw [hpc]
      cases last <;> rfl

theorem initial : Rounds S (system S).init where
  held _ := by
    refine ⟨fun q p hm ↦ ?_, fun w ↦ id, fun w ↦ False.elim⟩
    simp only [system] at hm
    split at hm
    · simp at hm
    · cases hm
  owed hr := by cases hr
  quiet _ p := by
    have hp : ¬ (p = S.home ∧ S.home ∈ S.G.peers S.home) := fun hp ↦
      ((S.G.mem_peers S.home S.home_mem S.home).mp hp.2).2 rfl
    simp only [system, if_neg hp]
    rfl
  balance hu := absurd trivial hu
  finished hf := by cases hf

end Rounds

theorem rounds_of_reach {ok : State F → Action → Prop} (h : (system S).Reach ok s) :
    Rounds S s :=
  h.invariant (Rounds S) .initial fun hs ih _ hst ↦
    ih.effect (calls_of_reach hs).1 (calls_of_reach hs).2 (effect_of_step hst)

end Edsm.NBody
