import Edsm.NBody.Copies

/-!
# The result of a run

Nothing is assumed of the order of the steps: while a thread computes, its node has the bodies as
`init_simulation` wrote them, and when `run_simulation` returns every body has been updated by
the thread that has it in its share.
-/

namespace Edsm.NBody

open Memory

variable {F : Type} [Double F] {S : Setup F} {s s' : State F}

namespace Setup

/-- What a thread has in `tmp_bodies` after all time steps. -/
def share (S : Setup F) (w : ℕ) : ℕ → Body F :=
  tmpAfter S.bodies S.bodyCount.toNat (S.start w) S.count S.dt S.microSteps S.stepCount 0

theorem load_image {bodies : ℕ → Body F} {j : ℕ} (hj : j < S.bodyCount.toNat) :
    Body.load (S.image bodies) j = bodies j := by
  refine load_eq fun k hk ↦ ?_
  rw [image, if_pos]
  unfold Body.size at *
  omega

theorem start_add_lt {w i : ℕ} (hw : w < S.threadCount) (hi : i < S.count) :
    InShare S.bodyCount S.threadCount w (i + S.start w) ∧ i + S.start w < S.bodyCount.toNat := by
  have hin : InShare S.bodyCount S.threadCount w (i + S.start w) := by
    change S.start w ≤ _ ∧ _ < S.start w + S.count
    omega
  exact ⟨hin, hin.lt_bodyCount S.threads_lt S.shares_lt hw⟩

/-- What a thread copies is the result for its share. -/
theorem byteOf_share {w k : ℕ} (hw : w < S.threadCount) (hk : k < Body.size * S.count) :
    byteOf (S.share w) k = S.new true (S.start w * Body.size + k) := by
  have hi : k / Body.size < S.count := Nat.div_lt_of_lt_mul hk
  obtain ⟨hin, hlt⟩ := start_add_lt hw hi
  have hdiv : (S.start w * Body.size + k) / Body.size = k / Body.size + S.start w := by
    rw [Nat.add_comm, Nat.add_mul_div_right _ _ (by decide)]
  have hmod : (S.start w * Body.size + k) % Body.size = k % Body.size := by
    rw [Nat.add_comm, Nat.add_mul_mod_self_right]
  have hbody : S.share w (k / Body.size) = S.result (k / Body.size + S.start w) := by
    have hshared : ∃ v < S.threadCount,
        InShare S.bodyCount S.threadCount v (k / Body.size + S.start w) := ⟨w, hw, hin⟩
    simp only [share, tmpAfter, result, if_pos hshared, hi, true_and, Nat.not_lt_zero, or_false]
  have hinside : S.start w * Body.size + k < Body.size * S.bodyCount.toNat := by
    unfold Body.size at *
    omega
  rw [new, if_pos rfl, image, if_pos hinside, byteOf, byteOf, hdiv, hmod, hbody]

theorem owner_false (S : Setup F) (k : ℕ) : S.owner false k = S.home := rfl

end Setup

/-! ## What a node has when its threads run -/

theorem flight_eq_nil (hframes : Frames S s) {q p : UInt32} (hidle : (s.node p).receiving = none)
    (hnone : ∀ f, .diff f ∉ s.net q p) : (s.network.view S.pagesize).flight q p = [] := by
  have hrest : (s.network.node p).rest = [] := (hframes.valid p).idle hidle
  have hnet : s.network.net q p = [] :=
    List.eq_nil_iff_forall_not_mem.mpr fun f hf ↦ hnone f (mem_network.mp hf)
  simp [Network.view, Network.inFlight, hrest, hnet]

/-- A node whose threads have been started has handled all diffs there are. -/
theorem Before.not_pending (h : Before S s) (hsends : Sends S s) (hframes : Frames S s)
    {p : UInt32} (hp : p = S.home ∨ ∃ w, S.host w = p ∧ (s.worker w).pc ≠ .idle) (q : UInt32)
    (f : Patch ℕ UInt8) : ¬ s.Pending S q p f := by
  obtain ⟨hidle, hnone⟩ :
      (s.node p).receiving = none ∧ ∀ q f, .diff f ∉ s.net q p := by
    rcases hp with rfl | ⟨w, rfl, hw⟩
    · refine ⟨h.home, fun q f hf ↦ ?_⟩
      obtain rfl := h.diffs q S.home f hf
      exact net_self hsends S.home _ hf
    · obtain ⟨hidle, hnone⟩ := h.started w hw
      refine ⟨hidle, fun q f hf ↦ ?_⟩
      obtain rfl := h.diffs q _ f hf
      exact hnone f hf
  rintro (hf | ⟨th, n, hth, -, hf⟩)
  · rw [flight_eq_nil hframes hidle (hnone q)] at hf
    cases hf
  · cases n with
    | sendingDiff fr rest => exact h.unsent th fr rest hth
    | ending | sending => exact hf

namespace State.Copies

/-- Such a node has the bodies as they were at the start. -/
theorem bytes_eq (h : s.Copies S) (hbefore : Before S s) (hsends : Sends S s)
    (hframes : Frames S s) (hround : s.main.round = false) {p : UInt32}
    (hgroup : p ∈ S.home :: S.hosts)
    (hp : p = S.home ∨ ∃ w, S.host w = p ∧ (s.worker w).pc ≠ .idle) :
    (s.node p).region.bytes = S.image S.bodies ∧
      (s.node p).region.base S.pagesize = S.image S.bodies := by
  have hsent : ∀ k, s.Sent S k := fun k hr ↦ by
    rw [hround] at hr
    cases hr
  have hnew : S.new s.main.round = S.image S.bodies := by
    rw [hround]
    rfl
  have hvalue : ∀ k, (s.node p).region.bytes k = S.image S.bodies k := by
    intro k
    rw [← hnew]
    exact WriteOnce.value_eq h hgroup (hsent k)
      fun f hf ↦ absurd hf (hbefore.not_pending hsends hframes hp _ f)
  refine ⟨funext hvalue, funext fun k ↦ ?_⟩
  by_cases hhome : p = S.home
  · subst hhome
    have hknown := (WriteOnce.sent h k (hsent k)).2
    rw [hnew, hround] at hknown
    exact hknown
  · have hclean := WriteOnce.clean h p hgroup k (by rw [hround]; exact hhome)
    exact hclean.symm.trans (hvalue k)

/-- The threads have computed, and nobody has written yet. -/
theorem leave (h : s.Copies S) (hbefore : Before S s) (hsends : Sends S s) (hrounds : Rounds S s)
    (hframes : Frames S s) (hmain : s.main = .waiting false)
    (hready : s.waiter .completion S.home = []) :
    ({ s with main := .rearming } : State F).Copies S := by
  have hround : s.main.round = false := by
    rw [hmain]
    rfl
  have hlate := (hrounds.held (by simp [hmain, MainPc.Released])).2.1
  have hgroup : ∀ p ∈ S.home :: S.hosts,
      p = S.home ∨ ∃ w, S.host w = p ∧ (s.worker w).pc ≠ .idle := by
    intro p hp
    refine (List.mem_cons.mp hp).imp_right fun hp ↦ ?_
    obtain ⟨w, hw, rfl⟩ := List.mem_iff_getElem.mp hp
    refine ⟨w, by simp [Setup.host, hw], fun hidle ↦ ?_⟩
    have howes := (hrounds.leave hmain hready).owed rfl w hw
    change (s.worker w).pc.owes S.home false = false at howes
    rw [hidle] at howes
    cases howes
  have hbytes := fun p hp ↦ bytes_eq h hbefore hsends hframes hround hp (hgroup p hp)
  have hpending : ∀ q p f, ({ s with main := .rearming } : State F).Pending S q p f ↔
      s.Pending S q p f := fun _ _ _ ↦
    State.pending_congr rfl (fun _ _ ↦ State.notify?_setMain (by simp))
      fun _ _ hth ↦ .inr (State.notify?_setMain_of_ne (by simp [hmain]) hth)
  refine ⟨Setup.owner_mem true, fun p hp k _ ↦ ?_, fun k _ ↦ ?_, fun k hk ↦ ?_, fun k hk ↦ ?_,
    fun q p hp f hf ↦ ?_, fun p hp k _ ↦ .inl ?_⟩
  · exact congrFun ((hbytes p hp).1.trans (hbytes p hp).2.symm) k
  · have howner := hbytes _ (Setup.owner_mem (S := S) true k)
    exact ⟨congrFun howner.1 k, congrFun howner.2 k⟩
  · obtain ⟨w, -, hcopied⟩ := hk rfl
    exact absurd hcopied.late (hlate w)
  · obtain ⟨w, -, ht⟩ := hk rfl
    exact absurd ht.late (hlate w)
  · exact absurd ((hpending q p f).mp hf) (hbefore.not_pending hsends hframes (hgroup p hp) q f)
  · exact congrFun ((hbytes p hp).2.trans (hbytes _ (Setup.owner_mem true k)).2.symm) k

end State.Copies

/-! ## What a thread has computed -/

def Worker.Holds (S : Setup F) (w : ℕ) (x : Worker F) : Prop :=
  match x.pc with
  | .idle | .called => True
  | .computing t i => t ≤ S.stepCount ∧ i ≤ S.count ∧ (t = S.stepCount → i = 0) ∧
      x.tmp = tmpAfter S.bodies S.bodyCount.toNat (S.start w) S.count S.dt S.microSteps t i
  | .notifying .. | .waiting | .copying _ | .done => x.tmp = S.share w

def State.Computed (S : Setup F) (s : State F) : Prop := ∀ w, (s.worker w).Holds S w

namespace State.Computed

theorem setWorker (h : s.Computed S) {w : ℕ} {x : Worker F} (hx : x.Holds S w) :
    (s.setWorker w x).Computed S := by
  intro v
  by_cases hv : v = w
  · subst hv
    rwa [setWorker_self]
  · rw [setWorker_ne s hv]
    exact h v

theorem setNotify (h : s.Computed S) (th : Thread) {n : Notify} (hth : s.notify? th = some n)
    (next : Option Notify) : (s.setNotify th next).Computed S := by
  cases th with
  | main => exact h
  | worker w =>
      obtain ⟨last, hpc⟩ := notify?_worker hth
      have htmp := h w
      rw [Worker.Holds, hpc] at htmp
      rw [setNotify_worker hpc]
      refine h.setWorker ?_
      cases next <;> cases last <;> exact htmp

/-- The bodies are read as they were at the start. -/
theorem work (h : s.Computed S) (hc : Calls S s)
    (hbytes : ∀ w t i, (s.worker w).pc = .computing t i →
      (s.node (S.host w)).region.bytes = S.image S.bodies) {w : ℕ} {pc : Pc} {tmp : ℕ → Body F}
    (hwork : Work S s w pc tmp) : (s.setWorker w { pc, tmp }).Computed S := by
  refine h.setWorker ?_
  have hw := hc.lt_threadCount hwork.ne_idle.2
  have hold := h w
  cases hwork with
  | @update t i hpc ht hi =>
      rw [Worker.Holds, hpc] at hold
      obtain ⟨hle, -, -, htmp⟩ := hold
      refine ⟨hle, hi, fun heq ↦ absurd ht (by omega), ?_⟩
      have hload : ∀ j < S.bodyCount.toNat,
          Body.load (s.node (S.host w)).region.bytes j = S.bodies j := fun j hj ↦ by
        rw [hbytes w t i hpc, Setup.load_image hj]
      change updateBody _ (s.worker w).tmp _ _ _ _ _ = _
      rw [htmp, ← updateBody_tmpAfter S.dt S.microSteps t hi, updateBody_eq, updateBody_eq,
        nextBody_congr hload (Setup.start_add_lt hw hi).2]
  | @nextStep t i hpc ht hi =>
      rw [Worker.Holds, hpc] at hold
      obtain ⟨-, hle, -, htmp⟩ := hold
      obtain rfl : i = S.count := by omega
      refine ⟨ht, Nat.zero_le _, fun _ ↦ rfl, ?_⟩
      change (s.worker w).tmp = _
      rw [htmp, tmpAfter_count]
  | @computed t i hpc ht =>
      rw [Worker.Holds, hpc] at hold
      obtain ⟨hle, -, hzero, htmp⟩ := hold
      obtain rfl : t = S.stepCount := by omega
      obtain rfl := hzero rfl
      exact htmp
  | enter hpc | copied hpc =>
      rw [Worker.Holds, hpc] at hold
      exact hold

theorem effect (h : s.Computed S) (hc : Calls S s)
    (hbytes : ∀ w t i, (s.worker w).pc = .computing t i →
      (s.node (S.host w)).region.bytes = S.image S.bodies) (he : Effect S s s') :
    s'.Computed S := by
  cases he with
  | arm | callPeer | callsDone | leave | rearm | finish | trap | handlePage | receiveDiff
  | receiveNotification => exact h
  | callSelf => exact h.setWorker trivial
  | receiveCall => exact h.setWorker trivial
  | txEnd hth => exact setNotify (s := s.setNode _ _) h _ hth _
  | sendDiff hth => exact setNotify (s := s.send _ _ _) h _ hth _
  | diffSent hth => exact h.setNotify _ hth _
  | notifySelf hth => exact setNotify (s := s.addReply _ _ _) h _ hth _
  | notifyPeer hth => exact setNotify (s := s.send _ _ _) h _ hth _
  | notified hth => exact h.setNotify _ hth _
  | start hpc =>
      refine setWorker (s := s.setWaiter _ _ _) h ⟨Nat.zero_le _, Nat.zero_le _, fun _ ↦ rfl, ?_⟩
      funext j
      simp [tmpAfter]
  | work hwork => exact h.work hc hbytes hwork
  | @store w k r hpc hk hst =>
      have hold := h w
      rw [Worker.Holds, hpc] at hold
      exact setWorker (s := s.setNode _ _) h hold

theorem initial : (system S).init.Computed S := fun _ ↦ trivial

end State.Computed

/-! ## The steps together -/

namespace State.Copies

theorem effect (h : s.Copies S) (hcomputed : s.Computed S) (hc : Calls S s) (hsends : Sends S s)
    (hrounds : Rounds S s) (hframes : Frames S s) (hbefore : ¬ s.main.Released → Before S s)
    (he : Effect S s s') : s'.Copies S := by
  cases he with
  | arm hmain => exact (h.setWaiter _ _ _).setMain hmain rfl (by simp) (by simp)
  | rearm hmain => exact (h.setWaiter _ _ _).setMain hmain rfl (by simp) (by simp)
  | @callSelf i hmain hi hhost =>
      have hidle := hc.idle_of_calling hmain
      have hset : (s.setPc i .called).Copies S := by
        refine h.setWorker (fun k _ ↦ ?_) False.elim (by simp [hidle]) (by simp)
        rw [hidle]
        exact Iff.rfl
      exact hset.setMain hmain rfl (by simp) (by simp)
  | callPeer hmain hi hhost => exact (h.send rfl).setMain hmain rfl (by simp) (by simp)
  | callsDone hmain hi => exact h.setMain hmain rfl (by simp) (by simp)
  | leave hmain hready =>
      exact h.leave (hbefore (by simp [hmain, MainPc.Released])) hsends hrounds hframes hmain hready
  | finish hmain hready => exact h.setMain hmain rfl (by simp) (by simp)
  | txEnd hth hst => exact h.txEnd hc hframes hth hst
  | sendDiff hth => exact h.sendDiff hth
  | diffSent hth => exact h.setNotify _ hth trivial (by simp [Notify.Unsent])
  | notifySelf hth =>
      exact State.Copies.setNotify (s := s.addReply _ _ _) (h.setWaiter _ _ _) _ hth trivial
        (by simp [Notify.Unsent])
  | notifyPeer hth hq =>
      exact State.Copies.setNotify (s := s.send _ _ _) (h.send rfl) _ hth trivial
        (by simp [Notify.Unsent])
  | notified hth => exact h.setNotify _ hth trivial (by simp [Notify.Unsent])
  | @start w hpc =>
      have hpc' : ((s.setWaiter .client (S.host w) [S.home]).worker w).pc = .called := hpc
      refine (h.setWaiter _ _ _).setWorker (fun k _ ↦ ?_) False.elim (by simp [hpc']) (by simp)
      rw [hpc']
      exact Iff.rfl
  | @work w pc tmp hwork =>
      refine h.setWorker (fun k hk ↦ ?_) (fun ht ↦ ?_) (fun last n heq ↦ ?_) fun last n heq ↦ ?_
      · cases hwork with
        | update hpc | nextStep hpc | computed hpc =>
            rw [hpc]
            exact Iff.rfl
        | enter hpc =>
            rw [hpc]
            exact iff_of_false (Nat.not_lt_zero k) id
        | copied hpc hlast =>
            rw [hpc]
            exact iff_of_true trivial (hk.trans_le (not_lt.mp hlast))
      · cases hwork <;> exact ht.elim
      · cases hwork with
        | update hpc | nextStep hpc | computed hpc | enter hpc | copied hpc =>
            cases hpc.symm.trans heq
      · cases hwork <;> cases heq <;> rfl
  | @store w k r hpc hk hst =>
      have hne : (s.worker w).pc ≠ .idle := by simp [hpc]
      have hreleased : s.main.Released := by
        by_contra hnot
        exact (hrounds.held hnot).2.1 w (by rw [hpc]; trivial)
      have htmp := hcomputed w
      rw [Worker.Holds, hpc] at htmp
      have hw := hc.lt_threadCount hne
      refine h.store hsends hframes (MainPc.round_of_released hreleased).1 hw hpc hk ?_ hst
      rw [htmp]
      exact Setup.byteOf_share hw hk
  | trap hpc hk hst => exact h.trap hst
  | receiveDiff hnet hst => exact h.receiveDiff hsends hframes hnet hst
  | receiveNotification hnet hidle => exact (h.pop hnet rfl).setWaiter _ _ _
  | @receiveCall q p w rest hnet hidle =>
      obtain ⟨-, -, hpc, -⟩ := hc.call q p w (by simp [hnet])
      refine State.Copies.setWorker (s := { s with net := s.net.set q p rest }) (h.pop hnet rfl)
        (fun k _ ↦ ?_) False.elim (by simp [hpc]) (by simp)
      change _ ↔ (s.worker w).pc.Copied k
      rw [hpc]
      exact Iff.rfl
  | handlePage hst => exact h.handlePage hsends hframes hst

/-- `home` has written the bodies and lets the others know. -/
theorem initial : (system S).init.Copies S := by
  have hstored := S.stored_spec.1.valid
  obtain ⟨-, hended⟩ := Replica.txEnd_eq_some S.ended_eq
  have hpages := (hstored.frames (S.fits hstored.wellFormed hstored.size_eq) S.ended_eq).2
  have hzero : S.region.bytes = fun _ ↦ 0 := (Region.wellFormed_regionGet S.get).2.2
  have hbase : S.region.base S.pagesize = fun _ ↦ 0 :=
    (Region.base_of_twins_eq_nil (Region.twins_regionGet S.get)).trans hzero
  have hvalue : ∀ p, ((system S).init.network.view S.pagesize).value p =
      if p = S.home then S.image S.bodies else fun _ ↦ 0 := by
    intro p
    change ((system S).init.node p).region.bytes = _
    simp only [system]
    split
    · rw [hended, Region.diffed_bytes, S.stored_spec.2]
    · exact hzero
  have hknown : ∀ p, ((system S).init.network.view S.pagesize).known p =
      if p = S.home then S.image S.bodies else fun _ ↦ 0 := by
    intro p
    change ((system S).init.node p).region.base S.pagesize = _
    simp only [system]
    split
    · rw [hended, Region.base_of_twins_eq_nil Region.diffed_twins, Region.diffed_bytes,
        S.stored_spec.2]
    · exact hbase
  have hrest : ∀ p, ((system S).init.network.node p).rest = [] := by
    intro p
    change ((system S).init.node p).rest = []
    simp only [system]
    split
    · rw [hended]
      exact hstored.idle S.stored_spec.1.receiving
    · rfl
  have hnet : ∀ q p, (system S).init.network.net q p =
      if q = S.home ∧ p ∈ S.G.peers S.home then S.stored.frames S.pagesize S.payload else [] := by
    intro q p
    simp only [State.network, system]
    split
    · rw [List.filterMap_append, List.filterMap_map]
      exact (List.append_nil _).trans List.filterMap_some
    · rfl
  have hflight : ∀ q p f, f ∈ ((system S).init.network.view S.pagesize).flight q p ↔
      (q = S.home ∧ p ∈ S.G.peers S.home) ∧
        f ∈ (S.stored.region.pageDiffs S.pagesize).map (PageDiff.patch S.pagesize) := by
    intro q p f
    simp only [Network.view, Network.inFlight, hrest, hnet, ite_self, List.nil_append]
    split
    · next hqp => simp only [hpages, hqp, true_and, and_self]
    · next hqp => simp [hqp]
  have hstart : WriteOnce (S.home :: S.hosts) (S.owner false) ((system S).init.Written S)
      (fun _ ↦ False) (S.image S.bodies) (S.new false)
      ((system S).init.network.view S.pagesize).value (fun _ _ ↦ 0) (fun _ _ _ ↦ False) := {
    owner_mem := Setup.owner_mem false
    clean := fun p _ k hne ↦ by
      rw [S.owner_false] at hne
      rw [hvalue, if_neg hne]
    before := fun k hk ↦ absurd (fun hr ↦ by cases hr) hk
    after := fun k _ ↦ by
      rw [hvalue, if_pos (Setup.owner_false S k)]
      rfl
    sent := fun _ hk ↦ hk.elim
    carried := fun _ _ _ _ hf ↦ hf.elim
    catchUp := fun _ _ _ _ ↦ .inl rfl }
  have htells := tells_pageDiffs hstored.wellFormed S.pagesize_pos
  rw [S.stored_spec.1.base, S.stored_spec.2] at htells
  change Patch.Tells _ (S.region.base S.pagesize) _ at htells
  rw [hbase] at htells
  refine hstart.publish (p := S.home) (by rw [hvalue, if_pos rfl]; exact htells)
    List.mem_cons_self ?_ (fun k _ ↦ .inr ⟨rfl, fun hr ↦ by cases hr⟩) (fun q p f hf ↦ .inr ?_)
    (fun _ _ _ hf ↦ hf.elim) fun p hp hne f hf ↦ .inl ?_
  · funext p
    by_cases hp : p = S.home
    · subst hp
      rw [hknown, if_pos rfl, Function.update_self, hvalue, if_pos rfl]
    · rw [hknown, if_neg hp, Function.update_of_ne hp]
  · rcases hf with hf | ⟨th, n, hth, -, hf⟩
    · have hmem := (hflight q p f).mp hf
      exact ⟨hmem.1.1, hmem.2⟩
    · cases th with
      | main => cases hth
      | worker w => cases hth
  · refine (hflight S.home p f).mpr ⟨⟨rfl, ?_⟩, hf⟩
    exact (S.G.mem_peers S.home S.home_mem p).mpr ⟨mem_ids_of_mem_group hp, hne⟩

end State.Copies

/-! ## Two bodies on two nodes -/

/-- 0 and 1 are the only numbers that the run below computes with. -/
instance : Double Bool where
  add x y := x || y
  sub x y := x && !y
  mul x y := x && y
  div x _ := x
  pow x _ := x
  lt x y := !x && y
  le x y := !x || y
  eq x y := x == y
  lit n _ := decide (n ≠ 0)
  bytes x := if x then [0, 0, 0, 0, 0, 0, 0xf0, 0x3f] else List.replicate 8 0
  ofBytes bytes := decide (bytes = [0, 0, 0, 0, 0, 0, 0xf0, 0x3f])
  length_bytes x := by cases x <;> rfl
  ofBytes_bytes x := by cases x <;> decide

namespace TwoBodies

/-- The first one moves, the second one has no mass. -/
def bodies (i : ℕ) : Body Bool where
  x := false
  y := false
  vx := decide (i = 0)
  vy := false
  mass := decide (i = 0)

def region : Region := (regionGet 128 (Body.size * (2 : UInt32).toNat)).get (by decide)

def stored : Replica := (writeBodies 128 bodies 2 (.initial region)).get (by decide +kernel)

theorem stored_eq : writeBodies 128 bodies 2 (.initial region) = some stored :=
  (Option.some_get _).symm

def ended : Replica × Option (List UInt8) :=
  (stored.txEnd .zeroed 128 true).get (by decide +kernel)

theorem ended_eq : stored.txEnd .zeroed 128 true = some (ended.1, ended.2) := by
  rw [Prod.mk.eta]
  exact (Option.some_get _).symm

/-- The thread of the first body is on the other node. -/
def setup : Setup Bool where
  G := .ofIds [1, 2] (by decide) (by decide)
  home := 1
  home_mem := by decide
  A := .zeroed
  pagesize := 128
  bodies := bodies
  bodyCount := 2
  timestep := true
  stepCount := 1
  microStepCount := 1
  threadsPerNode := 1
  region := region
  get := (Option.some_get _).symm
  stored := stored
  stored_eq := stored_eq
  ended := ended.1
  payload := ended.2
  ended_eq := ended_eq
  pagesize_lt := by decide
  size_le := by decide +kernel
  threads_lt := by decide
  shares_lt := by decide

/-- Both threads have been called and the first one has updated its body. -/
def computing : List Action :=
  List.replicate 4 .main ++
    [.deliver 1 2, .handlePage 2, .handlePage 2, .deliver 1 2, .deliver 1 2, .worker 0, .worker 0]

/-- Both threads have notified and wait, and so does `run_simulation`. -/
def waiting : List Action :=
  computing ++ List.replicate 6 (.worker 0) ++ List.replicate 8 (.worker 1)

/-- The first thread is past its wait. -/
def copying : List Action :=
  waiting ++ [.deliver 2 1] ++ List.replicate 6 .main ++ [.deliver 1 2, .deliver 1 2, .worker 0]

/-- `run_simulation` has returned. -/
def finished : List Action :=
  copying ++ List.replicate 48 (.worker 0) ++ List.replicate 49 (.worker 1) ++
    [.deliver 2 1, .handlePage 1, .handlePage 1, .deliver 2 1, .main]

end TwoBodies

/-! ## Every run -/

/-- A node has the bodies of the start as long as one of its threads computes. -/
theorem bytes_of_computing (h : s.Copies S) (hc : Calls S s) (hsends : Sends S s)
    (hrounds : Rounds S s) (hframes : Frames S s) (hbefore : ¬ s.main.Released → Before S s)
    {w t i : ℕ} (hpc : (s.worker w).pc = .computing t i) :
    (s.node (S.host w)).region.bytes = S.image S.bodies := by
  have hne : (s.worker w).pc ≠ .idle := by simp [hpc]
  have hw := hc.lt_threadCount hne
  have hround : s.main.round = false := by
    by_contra hround
    have howed := hrounds.owed (by simpa using hround) w hw
    rw [hpc] at howed
    cases howed
  have hnot : ¬ s.main.Released := fun hreleased ↦ by
    rw [(MainPc.round_of_released hreleased).1] at hround
    cases hround
  exact (h.bytes_eq (hbefore hnot) hsends hframes hround
    (List.mem_cons_of_mem _ (Setup.host_mem_hosts hw)) (.inr ⟨w, rfl, hne⟩)).1

theorem copies_of_reach {ok : State F → Action → Prop} (h : (system S).Reach ok s) :
    s.Copies S ∧ s.Computed S := by
  refine h.invariant (fun s ↦ s.Copies S ∧ s.Computed S) ⟨.initial, .initial⟩ fun hs ih _ hst ↦ ?_
  obtain ⟨hcopies, hcomputed⟩ := ih
  obtain ⟨hc, hsends⟩ := calls_of_reach hs
  have hrounds := rounds_of_reach hs
  have hframes := frames_of_reach hs
  have he := effect_of_step hst
  exact ⟨hcopies.effect hcomputed hc hsends hrounds hframes (before_of_reach hs) he,
    hcomputed.effect hc (fun _ _ _ hpc ↦
      bytes_of_computing hcopies hc hsends hrounds hframes (before_of_reach hs) hpc) he⟩

/-- No thread sees another one's results, or a copy that is not complete. -/
theorem load_of_computing {ok : State F → Action → Prop} (h : (system S).Reach ok s)
    {w t i : ℕ} (hpc : (s.worker w).pc = .computing t i) :
    (∀ j < S.bodyCount.toNat, Body.load (s.node (S.host w)).region.bytes j = S.bodies j) ∧
      ∀ j, (s.worker w).tmp j = tmpAfter S.bodies S.bodyCount.toNat (S.start w) S.count S.dt
        S.microSteps t i j := by
  obtain ⟨hcopies, hcomputed⟩ := copies_of_reach h
  obtain ⟨hc, hsends⟩ := calls_of_reach h
  have hbytes := bytes_of_computing hcopies hc hsends (rounds_of_reach h) (frames_of_reach h)
    (before_of_reach h) hpc
  have hholds := hcomputed w
  rw [Worker.Holds, hpc] at hholds
  refine ⟨fun j hj ↦ ?_, fun j ↦ congrFun hholds.2.2.2 j⟩
  rw [hbytes, Setup.load_image hj]

theorem load_of_computing_two_bodies : ∃ s : State Bool,
    (system TwoBodies.setup).Reachable s ∧
      Body.load (s.node 2).region.bytes 0 = TwoBodies.bodies 0 ∧
      (s.worker 0).tmp 0 = ⟨true, false, true, false, true⟩ := by
  obtain ⟨s, hs, hp⟩ := LabelledSystem.exists_reach_of_exec (system TwoBodies.setup)
    LabelledSystem.anyStep TwoBodies.computing
    (fun s ↦ match (s.worker 0).pc with
      | .computing 0 1 => true
      | _ => false) (by decide +kernel)
  have hpc : (s.worker 0).pc = .computing 0 1 := by
    split at hp
    · assumption
    · cases hp
  obtain ⟨hload, htmp⟩ := load_of_computing hs hpc
  exact ⟨s, hs, hload 0 (by decide), (htmp 0).trans (by decide +kernel)⟩

/-- While one thread is past its wait no thread computes: all have notified before. -/
theorem owes_of_late {ok : State F → Action → Prop} (h : (system S).Reach ok s) {v w : ℕ}
    (hlate : (s.worker w).pc.Late) (hv : v < S.threadCount) :
    (s.worker v).pc.owes S.home false = false := by
  have hrounds := rounds_of_reach h
  refine hrounds.owed (MainPc.round_of_released ?_).1 v hv
  by_contra hnot
  exact (hrounds.held hnot).2.1 w hlate

theorem owes_of_late_two_bodies : ∃ s : State Bool, (system TwoBodies.setup).Reachable s ∧
    (s.worker 0).pc.Late ∧ (s.worker 1).pc.owes 1 false = false := by
  obtain ⟨s, hs, hp⟩ := LabelledSystem.exists_reach_of_exec (system TwoBodies.setup)
    LabelledSystem.anyStep TwoBodies.copying
    (fun s ↦ match (s.worker 0).pc with
      | .copying 0 => true
      | _ => false) (by decide +kernel)
  have hlate : (s.worker 0).pc.Late := by
    split at hp
    · next hpc =>
        rw [hpc]
        trivial
    · cases hp
  exact ⟨s, hs, hlate, owes_of_late hs hlate (by decide)⟩

/-! ## When `run_simulation` returns -/

/-- Every thread has notified for the last time, and all notifications have been handled. -/
theorem Rounds.all_told (h : Rounds S s) (hfin : s.main = .finished) (p : UInt32) :
    ¬ s.Owes S p ∧ (s.net p S.home).countP Msg.isCompletion = 0 := by
  have hbalance := h.balance (by simp [hfin, MainPc.Unarmed]) p
  rw [h.finished hfin, hfin, List.count_nil] at hbalance
  obtain ⟨hcard, hcount⟩ := Nat.add_eq_zero_iff.mp hbalance.symm
  refine ⟨?_, hcount⟩
  rintro ⟨w, hw, hhost, howes⟩
  have hmem : w ∈ s.owing S MainPc.finished.round p :=
    Finset.mem_filter.mpr ⟨Finset.mem_range.mpr hw, hhost, howes⟩
  rw [Finset.card_eq_zero.mp hcard] at hmem
  cases hmem

/-- Nothing is on its way to `home` any more. -/
theorem net_home_eq_nil (hc : Calls S s) (hsends : Sends S s) (hrounds : Rounds S s)
    (htrailing : Trailing S s) (hfin : s.main = .finished) (q : UInt32) :
    s.net q S.home = [] := by
  by_contra hne
  have hlast := List.getLast?_eq_some_getLast hne
  have hmem := List.getLast_mem hne
  have hq : q ≠ S.home := by
    rintro rfl
    exact Before.net_self hsends S.home _ hmem
  obtain ⟨howes, hcount⟩ := hrounds.all_told hfin q
  cases hm : (s.net q S.home).getLast hne with
  | diff f => exact howes (htrailing.last q f (hlast.trans (congrArg some hm)))
  | upCall w => exact hq (hc.call q S.home w (hm ▸ hmem)).1
  | notification b =>
      cases b with
      | client => exact hq (hsends.client q S.home (hm ▸ hmem))
      | completion =>
          exact List.countP_eq_zero.mp hcount _ (hm ▸ hmem) rfl

/-- The listener of `home` has handled all pages. -/
theorem receiving_home_eq_none (hc : Calls S s) (hsends : Sends S s) (hrounds : Rounds S s)
    (htrailing : Trailing S s) (hfin : s.main = .finished) :
    (s.node S.home).receiving = none := by
  by_contra hbusy
  exact (hrounds.all_told hfin _).1
    (htrailing.handling hbusy (net_home_eq_nil hc hsends hrounds htrailing hfin _))

theorem not_pending_home (hc : Calls S s) (hsends : Sends S s) (hrounds : Rounds S s)
    (hframes : Frames S s) (htrailing : Trailing S s) (hfin : s.main = .finished) (q : UInt32)
    (f : Patch ℕ UInt8) : ¬ s.Pending S q S.home f := by
  have hnet := net_home_eq_nil hc hsends hrounds htrailing hfin
  have hidle := receiving_home_eq_none hc hsends hrounds htrailing hfin
  rintro (hf | ⟨th, n, hth, -, hf⟩)
  · rw [flight_eq_nil hframes hidle (by simp [hnet])] at hf
    cases hf
  · cases n with
    | ending | sending => exact hf
    | sendingDiff fr rest =>
        cases th with
        | main => cases hfin.symm.trans (State.notify?_main hth)
        | worker w =>
            exact (hrounds.all_told hfin (S.host w)).1 (Trailing.owes_of_notify hc hth rfl)

theorem Pc.taken_of_owes {pc : Pc} {home : UInt32} (h : pc.owes home true = false) : pc.Taken := by
  match pc with
  | .notifying true (.sending _) | .done => trivial

/-- Whatever the order of the steps, every body has been updated from the bodies of the start
by the one thread that has it in its share, the bodies in no share are as they were, and nothing
is left that could change them. -/
theorem result_of_finished {ok : State F → Action → Prop} (h : (system S).Reach ok s)
    (hfin : s.main = .finished) :
    (∀ j < S.bodyCount.toNat, Body.load (s.node S.home).region.bytes j = S.result j) ∧
      (∀ q, s.net q S.home = []) ∧ (s.node S.home).receiving = none := by
  obtain ⟨hcopies, -⟩ := copies_of_reach h
  obtain ⟨hc, hsends⟩ := calls_of_reach h
  have hrounds := rounds_of_reach h
  have htrailing := trailing_of_reach h
  have hround : s.main.round = true := by
    rw [hfin]
    rfl
  refine ⟨fun j hj ↦ ?_, net_home_eq_nil hc hsends hrounds htrailing hfin,
    receiving_home_eq_none hc hsends hrounds htrailing hfin⟩
  refine load_eq fun k hk ↦ ?_
  have hdiv : (j * Body.size + k) / Body.size = j := by
    rw [Nat.add_comm, Nat.add_mul_div_right _ _ (by decide), Nat.div_eq_of_lt hk, Nat.zero_add]
  have hinside : j * Body.size + k < Body.size * S.bodyCount.toNat := by
    unfold Body.size at *
    omega
  cases hthread : S.thread? j with
  | some w =>
      have hw := (Setup.thread?_eq_some.mp hthread).1
      have howes : (s.worker w).pc.owes S.home true = false := by
        by_contra howes
        exact (hrounds.all_told hfin (S.host w)).1 ⟨w, hw, rfl, by simpa using howes⟩
      have hsent : s.Sent S (j * Body.size + k) :=
        fun _ ↦ ⟨w, by rw [hdiv, hthread], Pc.taken_of_owes howes⟩
      have hvalue := WriteOnce.value_eq hcopies List.mem_cons_self hsent fun f hf ↦ absurd hf
        (not_pending_home hc hsends hrounds (frames_of_reach h) htrailing hfin _ f)
      rw [hround, Setup.new, if_pos rfl, Setup.image, if_pos hinside] at hvalue
      exact hvalue
  | none =>
      have hnone : ¬ ∃ w < S.threadCount, InShare S.bodyCount S.threadCount w j := by
        rintro ⟨w, hw, hin⟩
        cases hthread.symm.trans (Setup.thread?_eq_some.mpr ⟨hw, hin⟩)
      have howner : S.owner s.main.round (j * Body.size + k) = S.home := by
        rw [hround]
        simp [Setup.owner, hdiv, hthread]
      have hwritten : ¬ s.Written S (j * Body.size + k) := fun hwritten ↦ by
        obtain ⟨w, hw, -⟩ := hwritten hround
        rw [hdiv, hthread] at hw
        cases hw
      have hvalue := (WriteOnce.before hcopies _ hwritten).1
      rw [howner, Setup.image, if_pos hinside] at hvalue
      refine hvalue.trans ?_
      rw [byteOf, byteOf, hdiv, Setup.result, if_neg hnone]

/-- The first body has moved, by what the other node has computed. -/
theorem result_of_finished_two_bodies : ∃ s : State Bool,
    (system TwoBodies.setup).Reachable s ∧ s.main = .finished ∧
      Body.load (s.node 1).region.bytes 0 = ⟨true, false, true, false, true⟩ := by
  obtain ⟨s, hs, hp⟩ := LabelledSystem.exists_reach_of_exec (system TwoBodies.setup)
    LabelledSystem.anyStep TwoBodies.finished
    (fun s ↦ match s.main with
      | .finished => true
      | _ => false) (by decide +kernel)
  have hfin : s.main = .finished := by
    split at hp
    · assumption
    · cases hp
  exact ⟨s, hs, hfin, ((result_of_finished hs hfin).1 0 (by decide)).trans (by decide +kernel)⟩

end Edsm.NBody
