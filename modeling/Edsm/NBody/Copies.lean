import Edsm.Library.WriteOnce
import Edsm.NBody.Order

/-!
# Who has which bytes

Until the threads go on every byte is one that `home` has written and sent.  From then on the
bytes of a body are written once, by the thread that has the body in its share, or not at all.
-/

namespace Edsm.NBody

open Memory

namespace Notify

/-- The diff has been taken. -/
def Taken : Notify → Prop
  | ending => False
  | sendingDiff .. | sending _ => True

/-- A patch that has been taken and is still to be sent to `p`. -/
def Unsent (pagesize : ℕ) (p : UInt32) (f : Patch ℕ UInt8) : Notify → Prop
  | sendingDiff fr rest => p ∈ rest ∧ f ∈ fr.pages.map (PageDiff.patch pagesize)
  | ending | sending _ => False

end Notify

namespace Pc

/-- The byte `i` of the share has been copied. -/
def Copied (i : ℕ) : Pc → Prop
  | idle | called | computing .. | notifying false _ | waiting => False
  | copying k => i < k
  | notifying true _ | done => True

/-- The diff with the share has been taken. -/
def Taken : Pc → Prop
  | idle | called | computing .. | notifying false _ | waiting | copying _ => False
  | notifying true n => n.Taken
  | done => True

theorem Copied.late {pc : Pc} {i : ℕ} (h : pc.Copied i) : pc.Late := by
  match pc with
  | .copying _ | .notifying true _ | .done => trivial

theorem Taken.late {pc : Pc} (h : pc.Taken) : pc.Late := by
  match pc with
  | .notifying true _ | .done => trivial

end Pc

variable {F : Type} [Double F] {S : Setup F} {s s' : State F}

/-! ## The shares -/

namespace Setup

variable (S : Setup F)

/-- The thread that has the body in its share. -/
def thread? (j : ℕ) : Option ℕ :=
  (List.range S.threadCount).find? fun w ↦ decide (InShare S.bodyCount S.threadCount w j)

/-- Who writes the byte `k`, before and after the threads go on. -/
def owner (round : Bool) (k : ℕ) : UInt32 :=
  match round, S.thread? (k / Body.size) with
  | true, some w => S.host w
  | true, none | false, _ => S.home

/-- What becomes of a body, whoever is faster. -/
def result (j : ℕ) : Body F :=
  if ∃ w < S.threadCount, InShare S.bodyCount S.threadCount w j then
    if 0 < S.stepCount then nextBody S.bodies S.bodyCount.toNat j S.dt S.microSteps .zero
    else .zero
  else S.bodies j

/-- What the writers write. -/
def new (round : Bool) : ℕ → UInt8 := S.image (if round = true then S.result else S.bodies)

variable {S}

theorem thread?_eq_some {j w : ℕ} :
    S.thread? j = some w ↔ w < S.threadCount ∧ InShare S.bodyCount S.threadCount w j := by
  constructor
  · intro hw
    exact ⟨List.mem_range.mp (List.mem_of_find?_eq_some hw), by simpa using List.find?_some hw⟩
  · rintro ⟨hw, hin⟩
    cases hfind : S.thread? j with
    | none =>
        have hnone := List.find?_eq_none.mp hfind w (List.mem_range.mpr hw)
        exact absurd (decide_eq_true hin) hnone
    | some v =>
        have hv := List.mem_range.mp (List.mem_of_find?_eq_some hfind)
        have hvin : InShare S.bodyCount S.threadCount v j := by simpa using List.find?_some hfind
        rw [InShare.unique S.threads_lt S.shares_lt hv hw hvin hin]

/-- Where a byte of a share is in the share. -/
theorem offset_lt {k w : ℕ} (hw : S.thread? (k / Body.size) = some w) :
    S.start w * Body.size ≤ k ∧ k - S.start w * Body.size < Body.size * S.count := by
  obtain ⟨hle, hlt⟩ := (thread?_eq_some.mp hw).2
  have hle' : S.start w ≤ k / Body.size := hle
  have hlt' : k / Body.size < S.start w + S.count := hlt
  unfold Body.size at *
  omega

theorem thread?_start {w k : ℕ} (hw : w < S.threadCount) (hk : k < Body.size * S.count) :
    S.thread? ((S.start w * Body.size + k) / Body.size) = some w := by
  refine thread?_eq_some.mpr ⟨hw, ?_⟩
  change S.start w ≤ _ ∧ _ < S.start w + S.count
  unfold Body.size at *
  omega

theorem host_mem_hosts {w : ℕ} (hw : w < S.threadCount) : S.host w ∈ S.hosts := by
  unfold host
  rw [List.getD_eq_getElem?_getD, List.getElem?_eq_getElem hw]
  exact List.getElem_mem hw

theorem owner_of_thread? {k w : ℕ} (hw : S.thread? (k / Body.size) = some w) :
    S.owner true k = S.host w := by
  simp [owner, hw]

theorem owner_mem (round : Bool) (k : ℕ) : S.owner round k ∈ S.home :: S.hosts := by
  unfold owner
  split
  · next w hw => exact List.mem_cons_of_mem _ (host_mem_hosts (thread?_eq_some.mp hw).1)
  all_goals exact List.mem_cons_self

end Setup

/-! ## What a node has not applied yet -/

namespace State

/-- The patches from `q` that `p` has not applied, those included that `q` has yet to send. -/
def Pending (S : Setup F) (s : State F) (q p : UInt32) (f : Patch ℕ UInt8) : Prop :=
  f ∈ (s.network.view S.pagesize).flight q p ∨
    ∃ th n, s.notify? th = some n ∧ S.nodeOf th = q ∧ n.Unsent S.pagesize p f

variable {th : Thread} {n : Notify} {next : Option Notify} {p q : UInt32} {f : Patch ℕ UInt8}

theorem pending_congr
    (hflight : (s'.network.view S.pagesize).flight = (s.network.view S.pagesize).flight)
    (hforth : ∀ th n, s'.notify? th = some n → n = .ending ∨ s.notify? th = some n)
    (hback : ∀ th n, s.notify? th = some n → n = .ending ∨ s'.notify? th = some n) :
    s'.Pending S q p f ↔ s.Pending S q p f := by
  unfold Pending
  rw [hflight]
  refine or_congr Iff.rfl ⟨?_, ?_⟩
  · rintro ⟨th, n, hth, hq, hf⟩
    rcases hforth th n hth with rfl | hth
    · exact hf.elim
    · exact ⟨th, n, hth, hq, hf⟩
  · rintro ⟨th, n, hth, hq, hf⟩
    rcases hback th n hth with rfl | hth
    · exact hf.elim
    · exact ⟨th, n, hth, hq, hf⟩

omit [Double F] in
theorem notify?_setWorker_of_ne {w : ℕ} {x : Worker F}
    (hpc : ∀ last n, (s.worker w).pc ≠ .notifying last n) (hth : s.notify? th = some n) :
    (s.setWorker w x).notify? th = some n := by
  cases th with
  | main => exact hth
  | worker v =>
      obtain ⟨last, hlast⟩ := notify?_worker hth
      have hvw : v ≠ w := fun heq ↦ hpc last n (heq ▸ hlast)
      exact notify?_of_pc ((congrArg Worker.pc (setWorker_ne s hvw x)).trans hlast)

omit [Double F] in
theorem notify?_setMain {m : MainPc} (hm : ∀ n, m = .notifying n → n = .ending)
    (hth : ({ s with main := m } : State F).notify? th = some n) :
    n = .ending ∨ s.notify? th = some n := by
  cases th with
  | main => exact .inl (hm n (notify?_main hth))
  | worker w => exact .inr hth

omit [Double F] in
theorem notify?_setMain_of_ne {m : MainPc} (hmain : ∀ n, s.main ≠ .notifying n)
    (hth : s.notify? th = some n) : ({ s with main := m } : State F).notify? th = some n := by
  cases th with
  | main => exact absurd (notify?_main hth) (hmain n)
  | worker w => exact hth

omit [Double F] in
theorem network_setNotify (s : State F) (th : Thread) (next : Option Notify) :
    (s.setNotify th next).network = s.network := by
  obtain ⟨hnode, hsender, -, hnet, -⟩ := setNotify_frame s th next
  unfold network
  rw [hnode, hsender, hnet]

/-- One thread goes on in its call of `edsm_barrier_notify`. -/
theorem pending_setNotify (hth : s.notify? th = some n) : (s.setNotify th next).Pending S q p f ↔
    f ∈ (s.network.view S.pagesize).flight q p ∨
      (S.nodeOf th = q ∧ ∃ n' ∈ next, n'.Unsent S.pagesize p f) ∨
      ∃ th' n', th' ≠ th ∧ s.notify? th' = some n' ∧ S.nodeOf th' = q ∧
        n'.Unsent S.pagesize p f := by
  unfold Pending
  rw [network_setNotify]
  refine or_congr Iff.rfl ⟨?_, ?_⟩
  · rintro ⟨th', n', hth', hq, hf⟩
    by_cases hne : th' = th
    · subst hne
      rw [notify?_setNotify_self hth] at hth'
      exact .inl ⟨hq, n', hth', hf⟩
    · rw [notify?_setNotify_ne hne] at hth'
      exact .inr ⟨th', n', hne, hth', hq, hf⟩
  · rintro (⟨hq, n', hn', hf⟩ | ⟨th', n', hne, hth', hq, hf⟩)
    · exact ⟨th, n', (notify?_setNotify_self hth).trans hn', hq, hf⟩
    · exact ⟨th', n', (notify?_setNotify_ne hne).trans hth', hq, hf⟩

theorem pending_of_notify (hth : s.notify? th = some n) : s.Pending S q p f ↔
    f ∈ (s.network.view S.pagesize).flight q p ∨
      (S.nodeOf th = q ∧ n.Unsent S.pagesize p f) ∨
      ∃ th' n', th' ≠ th ∧ s.notify? th' = some n' ∧ S.nodeOf th' = q ∧
        n'.Unsent S.pagesize p f := by
  refine or_congr Iff.rfl ⟨?_, ?_⟩
  · rintro ⟨th', n', hth', hq, hf⟩
    by_cases hne : th' = th
    · subst hne
      obtain rfl := Option.some.inj (hth.symm.trans hth')
      exact .inl ⟨hq, hf⟩
    · exact .inr ⟨th', n', hne, hth', hq, hf⟩
  · rintro (⟨hq, hf⟩ | ⟨th', n', -, hth', hq, hf⟩)
    · exact ⟨th, n, hth, hq, hf⟩
    · exact ⟨th', n', hth', hq, hf⟩

/-- A node sends, and what was not a diff is not one on the channel. -/
theorem flight_send (s : State F) (a b : UInt32) (m : Msg) (q p : UInt32) :
    ((s.send a b m).network.view S.pagesize).flight q p =
      (s.network.view S.pagesize).flight q p ++ if q = a ∧ p = b then
        (m.frame?.toList.flatMap Frame.pages).map (PageDiff.patch S.pagesize) else [] := by
  have hnet : (s.send a b m).network.net q p =
      s.network.net q p ++ if q = a ∧ p = b then m.frame?.toList else [] := by
    simp only [network, send, Channels.send_apply]
    split
    · rw [List.filterMap_append]
      cases hm : m.frame? <;> simp [hm]
    · rw [List.append_nil]
  have hinFlight : (s.send a b m).network.inFlight q p =
      s.network.inFlight q p ++
        if q = a ∧ p = b then m.frame?.toList.flatMap Frame.pages else [] := by
    unfold Network.inFlight
    rw [hnet, List.flatMap_append, ← List.append_assoc, apply_ite (List.flatMap Frame.pages)]
    rfl
  unfold Network.view
  simp only
  rw [hinFlight, List.map_append, apply_ite (List.map (PageDiff.patch S.pagesize))]
  rfl

omit [Double F] in
/-- The listener handles a message that is not a diff. -/
theorem network_set {rest : List Msg} {m : Msg} (hnet : s.net q p = m :: rest)
    (hm : m.frame? = none) : ({ s with net := s.net.set q p rest } : State F).network =
      s.network := by
  unfold network
  simp only [filterMap_set hnet hm]

/-- The positions that have been written by those who write them now. -/
def Written (S : Setup F) (s : State F) (k : ℕ) : Prop :=
  s.main.round = true → ∃ w, S.thread? (k / Body.size) = some w ∧
    (s.worker w).pc.Copied (k - S.start w * Body.size)

/-- The positions whose writers have taken a diff since. -/
def Sent (S : Setup F) (s : State F) (k : ℕ) : Prop :=
  s.main.round = true → ∃ w, S.thread? (k / Body.size) = some w ∧ (s.worker w).pc.Taken

def Copies (S : Setup F) (s : State F) : Prop :=
  WriteOnce (S.home :: S.hosts) (S.owner s.main.round) (s.Written S) (s.Sent S)
    (S.image S.bodies) (S.new s.main.round) (s.network.view S.pagesize).value
    (s.network.view S.pagesize).known (s.Pending S)

end State

/-! ## The steps -/

namespace State.Copies

theorem congr (h : s.Copies S) (hround : s'.main.round = s.main.round)
    (hvalue : (s'.network.view S.pagesize).value = (s.network.view S.pagesize).value)
    (hknown : (s'.network.view S.pagesize).known = (s.network.view S.pagesize).known)
    (hcopied : ∀ w, ∀ i < Body.size * S.count,
      (s'.worker w).pc.Copied i ↔ (s.worker w).pc.Copied i)
    (htaken : ∀ w, (s'.worker w).pc.Taken → (s.worker w).pc.Taken)
    (hpending : ∀ q p f, s'.Pending S q p f ↔ s.Pending S q p f) : s'.Copies S := by
  unfold State.Copies
  rw [hround, hvalue, hknown]
  refine WriteOnce.congr h (fun k ↦ ?_) (fun k hk hr ↦ ?_) hpending
  · unfold State.Written
    rw [hround]
    refine imp_congr Iff.rfl (exists_congr fun w ↦ and_congr_right fun hw ↦ ?_)
    exact hcopied w _ (Setup.offset_lt hw).2
  · obtain ⟨w, hw, hpc⟩ := hk (hround.trans hr)
    exact ⟨w, hw, htaken w hpc⟩

/-- The memory is as before, and no call of `edsm_barrier_notify` goes on. -/
theorem frame (h : s.Copies S) (hround : s'.main.round = s.main.round)
    (hnetwork : s'.network = s.network)
    (hcopied : ∀ w, ∀ i < Body.size * S.count,
      (s'.worker w).pc.Copied i ↔ (s.worker w).pc.Copied i)
    (htaken : ∀ w, (s'.worker w).pc.Taken → (s.worker w).pc.Taken)
    (hforth : ∀ th n, s'.notify? th = some n → n = .ending ∨ s.notify? th = some n)
    (hback : ∀ th n, s.notify? th = some n → n = .ending ∨ s'.notify? th = some n) :
    s'.Copies S :=
  congr h hround (by rw [hnetwork]) (by rw [hnetwork]) hcopied htaken fun _ _ _ ↦
    State.pending_congr (by rw [hnetwork]) hforth hback

theorem setMain (h : s.Copies S) {m m' : MainPc} (hmain : s.main = m) (hround : m'.round = m.round)
    (hm : ∀ n, m ≠ .notifying n) (hm' : ∀ n, m' = .notifying n → n = .ending) :
    ({ s with main := m' } : State F).Copies S :=
  frame h (hround.trans (congrArg MainPc.round hmain).symm) rfl (fun _ _ _ ↦ Iff.rfl) (fun _ ↦ id)
    (fun _ _ ↦ State.notify?_setMain hm') fun _ _ hth ↦
      .inr (State.notify?_setMain_of_ne (fun n heq ↦ hm n (hmain.symm.trans heq)) hth)

theorem setWorker (h : s.Copies S) {w : ℕ} {x : Worker F}
    (hcopied : ∀ i < Body.size * S.count, x.pc.Copied i ↔ (s.worker w).pc.Copied i)
    (htaken : x.pc.Taken → (s.worker w).pc.Taken)
    (hpc : ∀ last n, (s.worker w).pc ≠ .notifying last n)
    (hx : ∀ last n, x.pc = .notifying last n → n = .ending) : (s.setWorker w x).Copies S := by
  refine frame h rfl rfl (fun v i hi ↦ ?_) (fun v hv ↦ ?_) (fun th n hth ↦ ?_)
    fun th n hth ↦ .inr ?_
  · by_cases hvw : v = w
    · subst hvw
      rw [State.setWorker_self]
      exact hcopied i hi
    · rw [State.setWorker_ne s hvw]
  · by_cases hvw : v = w
    · subst hvw
      rw [State.setWorker_self] at hv
      exact htaken hv
    · rwa [State.setWorker_ne s hvw] at hv
  · exact (State.notify?_setWorker hth).imp_left fun ⟨last, hlast⟩ ↦ hx last n hlast
  · exact State.notify?_setWorker_of_ne hpc hth

theorem setWaiter (h : s.Copies S) (b : Barrier) (p : UInt32) (waiter : ReplyWaiter) :
    (s.setWaiter b p waiter).Copies S :=
  frame h rfl rfl (fun _ _ _ ↦ Iff.rfl) (fun _ ↦ id) (fun _ _ ↦ .inr) fun _ _ ↦ .inr

/-- A message is handled that is not a diff. -/
theorem pop (h : s.Copies S) {q p : UInt32} {m : Msg} {rest : List Msg}
    (hnet : s.net q p = m :: rest) (hm : m.frame? = none) :
    ({ s with net := s.net.set q p rest } : State F).Copies S :=
  frame h rfl (State.network_set hnet hm) (fun _ _ _ ↦ Iff.rfl) (fun _ ↦ id) (fun _ _ ↦ .inr)
    fun _ _ ↦ .inr

/-- A message is sent that is not a diff. -/
theorem send (h : s.Copies S) {p q : UInt32} {m : Msg} (hm : m.frame? = none) :
    (s.send p q m).Copies S := by
  refine congr h rfl rfl rfl (fun _ _ _ ↦ Iff.rfl) (fun _ ↦ id) fun a b f ↦
    State.pending_congr ?_ (fun _ _ ↦ .inr) fun _ _ ↦ .inr
  funext a b
  rw [State.flight_send, hm]
  split <;> exact List.append_nil _

omit [Double F] in
theorem copied_setNotify {th : Thread} {n : Notify} (hth : s.notify? th = some n)
    (next : Option Notify) (w i : ℕ) : ((s.setNotify th next).worker w).pc.Copied i ↔
      (s.worker w).pc.Copied i := by
  cases th with
  | main => exact Iff.rfl
  | worker v =>
      obtain ⟨last, hpc⟩ := State.notify?_worker hth
      rw [State.setNotify_worker hpc]
      by_cases hw : w = v
      · subst hw
        rw [State.setPc_self, hpc]
        cases next <;> cases last <;> exact Iff.rfl
      · rw [State.setPc_ne s hw]

omit [Double F] in
theorem taken_setNotify {th : Thread} {n : Notify} (hth : s.notify? th = some n)
    {next : Option Notify} {w : ℕ} (ht : ((s.setNotify th next).worker w).pc.Taken) :
    (s.worker w).pc.Taken ∨ th = .worker w ∧ (s.worker w).pc = .notifying true n := by
  cases th with
  | main => exact .inl ht
  | worker v =>
      obtain ⟨last, hpc⟩ := State.notify?_worker hth
      rw [State.setNotify_worker hpc] at ht
      by_cases hw : w = v
      · subst hw
        rw [State.setPc_self] at ht
        cases last with
        | false => cases next <;> exact ht.elim
        | true => exact .inr ⟨rfl, hpc⟩
      · rw [State.setPc_ne s hw] at ht
        exact .inl ht

omit [Double F] in
theorem round_setNotify {th : Thread} {n : Notify} (hth : s.notify? th = some n)
    (next : Option Notify) : (s.setNotify th next).main.round = s.main.round := by
  cases th with
  | main =>
      rw [State.notify?_main hth]
      cases next <;> rfl
  | worker w =>
      obtain ⟨last, hpc⟩ := State.notify?_worker hth
      rw [State.setNotify_worker hpc]
      rfl

/-- A call of `edsm_barrier_notify` goes on and nothing is left out. -/
theorem setNotify (h : s.Copies S) (th : Thread) {n : Notify} (hth : s.notify? th = some n)
    (hn : n.Taken) {next : Option Notify}
    (hnext : ∀ p f, (∃ n' ∈ next, n'.Unsent S.pagesize p f) ↔ n.Unsent S.pagesize p f) :
    (s.setNotify th next).Copies S := by
  refine congr h (round_setNotify hth next) ?_ ?_ (fun w i _ ↦ copied_setNotify hth next w i)
    (fun w hw ↦ ?_) fun q p f ↦ ?_
  · rw [State.network_setNotify]
  · rw [State.network_setNotify]
  · rcases taken_setNotify hth hw with ht | ⟨-, hpc⟩
    · exact ht
    · rw [hpc]
      exact hn
  · rw [State.pending_setNotify hth, State.pending_of_notify hth, hnext]

/-! ## The diffs -/

/-- The patches of a diff say what has changed and nothing else. -/
theorem tells_pageDiffs {pagesize : ℕ} {region : Region} (h : region.WellFormed pagesize)
    (hpos : 0 < pagesize) : Patch.Tells ((region.pageDiffs pagesize).map (PageDiff.patch pagesize))
      (region.base pagesize) region.bytes := by
  have hdiff := Region.isDiff_pageDiffs h hpos
  have heq : ∀ f ∈ (region.pageDiffs pagesize).map (PageDiff.patch pagesize), ∀ k a,
      f k = some a → a = region.bytes k := by
    intro f hf k a ha
    obtain ⟨d, hd, rfl⟩ := List.mem_map.mp hf
    obtain ⟨twin, -, rfl⟩ := List.mem_map.mp hd
    rw [Region.pageDiff_patch] at ha
    split at ha
    · exact (Option.some.inj ha).symm
    · cases ha
  refine ⟨fun f hf k a ha ↦ ⟨heq f hf k a ha, fun hsame ↦ ?_⟩, fun k hne ↦ ?_⟩
  · rw [hdiff.eq_none k hsame f hf] at ha
    cases ha
  · by_contra hnone
    refine hne ((Patch.applyAll_of_forall_none fun f hf ↦ ?_).symm.trans
      (congrFun hdiff.applyAll k))
    cases hk : f k with
    | none => rfl
    | some a => exact absurd ⟨f, hf, hk.trans (congrArg some (heq f hf k a hk))⟩ hnone

theorem unsent_sendFirst {pagesize : ℕ} {peers everyone : List UInt32} {fs : List Frame}
    (hfs : fs.length ≤ 1) {p : UInt32} {f : Patch ℕ UInt8} :
    (Notify.sendFirst peers everyone fs).Unsent pagesize p f ↔
      p ∈ peers ∧ f ∈ (fs.flatMap Frame.pages).map (PageDiff.patch pagesize) := by
  match fs with
  | [] => simp [Notify.sendFirst, Notify.Unsent]
  | [fr] => simp [Notify.sendFirst, Notify.Unsent]
  | _ :: _ :: _ => simp at hfs

theorem nodeOf_mem_group (hc : Calls S s) {th : Thread} {n : Notify} (hth : s.notify? th = some n) :
    S.nodeOf th ∈ S.home :: S.hosts := by
  cases th with
  | main => exact List.mem_cons_self
  | worker w =>
      obtain ⟨last, hpc⟩ := State.notify?_worker hth
      exact List.mem_cons_of_mem _ (Setup.host_mem_hosts (hc.lt_threadCount (by simp [hpc])))

theorem mem_ids_of_mem_group {p : UInt32} (hp : p ∈ S.home :: S.hosts) : p ∈ S.G.ids := by
  rcases List.mem_cons.mp hp with rfl | hp
  · exact S.home_mem
  · obtain ⟨w, hw, rfl⟩ := List.mem_iff_getElem.mp hp
    have hhost := S.host_mem w
    rwa [Setup.host, List.getD_eq_getElem?_getD, List.getElem?_eq_getElem hw] at hhost

theorem txEnd (h : s.Copies S) (hc : Calls S s) (hframes : Frames S s) {th : Thread} {r : Replica}
    {payload : Option (List UInt8)} (hth : s.notify? th = some .ending)
    (hst : (s.node (S.nodeOf th)).txEnd S.A S.pagesize true = some (r, payload)) :
    ((s.setNode (S.nodeOf th) r).setNotify th (some (.sendFirst (S.G.peers (S.nodeOf th))
      (S.everyone (S.nodeOf th)) ((s.node (S.nodeOf th)).frames S.pagesize payload)))).Copies
        S := by
  have hvalid := hframes.valid (S.nodeOf th)
  obtain ⟨-, hr⟩ := Replica.txEnd_eq_some hst
  have hpages := (hvalid.frames (S.fits hvalid.wellFormed hvalid.size_eq) hst).2
  have hunsent : ∀ p f, (Notify.sendFirst (S.G.peers (S.nodeOf th)) (S.everyone (S.nodeOf th))
      ((s.node (S.nodeOf th)).frames S.pagesize payload)).Unsent S.pagesize p f ↔
        p ∈ S.G.peers (S.nodeOf th) ∧
          f ∈ ((s.node (S.nodeOf th)).region.pageDiffs S.pagesize).map
            (PageDiff.patch S.pagesize) := by
    intro p f
    rw [unsent_sendFirst (by cases payload <;> simp [Replica.frames]), hpages]
  have hth' : (s.setNode (S.nodeOf th) r).notify? th = some .ending := hth
  have hvalue : ((s.setNode (S.nodeOf th) r).network.view S.pagesize).value =
      (s.network.view S.pagesize).value := by
    refine (Network.value_setNode S.pagesize s.network (S.nodeOf th) r).trans
      (Function.update_eq_self_iff.mpr ?_)
    rw [hr, Region.diffed_bytes]
    rfl
  have hknown : ((s.setNode (S.nodeOf th) r).network.view S.pagesize).known =
      Function.update (s.network.view S.pagesize).known (S.nodeOf th)
        ((s.network.view S.pagesize).value (S.nodeOf th)) := by
    refine (Network.known_setNode S.pagesize s.network (S.nodeOf th) r).trans
      (congrArg (Function.update _ _) ?_)
    rw [hr, Region.base_of_twins_eq_nil Region.diffed_twins, Region.diffed_bytes]
    rfl
  have hflight : ((s.setNode (S.nodeOf th) r).network.view S.pagesize).flight =
      (s.network.view S.pagesize).flight :=
    Network.flight_setNode (n := s.network) (by rw [hr]; rfl)
  have hcopied := copied_setNotify hth' (some (.sendFirst (S.G.peers (S.nodeOf th))
    (S.everyone (S.nodeOf th)) ((s.node (S.nodeOf th)).frames S.pagesize payload)))
  unfold State.Copies
  rw [round_setNotify hth', State.network_setNotify, hvalue]
  refine WriteOnce.publish (WriteOnce.congr h (fun k ↦ ?_) (fun _ ↦ id) fun _ _ _ ↦ Iff.rfl)
    (tells_pageDiffs hvalid.wellFormed S.pagesize_pos) (nodeOf_mem_group hc hth) hknown
    (fun k hk ↦ ?_) (fun q p f hf ↦ ?_) (fun q p f hf ↦ ?_) fun p hp hne f hf ↦ ?_
  · unfold State.Written
    rw [round_setNotify hth']
    simp only [hcopied]
    rfl
  · by_cases hround : s.main.round = true
    · obtain ⟨w, hw, ht⟩ := hk ((round_setNotify hth' _).trans hround)
      rcases taken_setNotify hth' ht with ht | ⟨rfl, hpc⟩
      · exact .inl fun _ ↦ ⟨w, hw, ht⟩
      · -- the thread that takes the diff has copied all of its share
        refine .inr ⟨?_, fun _ ↦ ⟨w, hw, ?_⟩⟩
        · change S.owner s.main.round k = S.host w
          rw [hround, Setup.owner_of_thread? hw]
        · rw [hcopied]
          exact hpc ▸ trivial
    · exact .inl fun hr ↦ absurd hr hround
  · rw [State.pending_setNotify hth', hflight] at hf
    rcases hf with hf | ⟨hq, n, hn, hf⟩ | hf
    · exact .inl (.inl hf)
    · obtain rfl := Option.some.inj hn
      exact .inr ⟨hq.symm, ((hunsent p f).mp hf).2⟩
    · exact .inl ((State.pending_of_notify hth).mpr (.inr (.inr hf)))
  · rw [State.pending_setNotify hth', hflight]
    rcases (State.pending_of_notify hth).mp hf with hf | ⟨-, hf⟩ | hf
    · exact .inl hf
    · exact hf.elim
    · exact .inr (.inr hf)
  · rw [State.pending_setNotify hth']
    have hpeer := (S.G.mem_peers _ (S.nodeOf_mem th) p).mpr ⟨mem_ids_of_mem_group hp, hne⟩
    exact .inr (.inl ⟨rfl, _, rfl, (hunsent p f).mpr ⟨hpeer, hf⟩⟩)

theorem sendDiff (h : s.Copies S) {th : Thread} {f : Frame} {q : UInt32} {rest : List UInt32}
    (hth : s.notify? th = some (.sendingDiff f (q :: rest))) :
    ((s.send (S.nodeOf th) q (.diff f)).setNotify th (some (.sendingDiff f rest))).Copies S := by
  have hth' : (s.send (S.nodeOf th) q (.diff f)).notify? th = some (.sendingDiff f (q :: rest)) :=
    hth
  refine congr h (round_setNotify hth' _) ?_ ?_ (fun w i _ ↦ copied_setNotify hth' _ w i)
    (fun w hw ↦ ?_) fun a b g ↦ ?_
  · rw [State.network_setNotify]
    rfl
  · rw [State.network_setNotify]
    rfl
  · rcases taken_setNotify hth' hw with ht | ⟨-, hpc⟩
    · exact ht
    · change (s.worker w).pc = _ at hpc
      rw [hpc]
      trivial
  · have hothers : ∀ th', (s.send (S.nodeOf th) q (.diff f)).notify? th' = s.notify? th' :=
      fun _ ↦ rfl
    have hflight : g ∈ ((s.send (S.nodeOf th) q (.diff f)).network.view S.pagesize).flight a b ↔
        g ∈ (s.network.view S.pagesize).flight a b ∨
          S.nodeOf th = a ∧ b = q ∧ g ∈ f.pages.map (PageDiff.patch S.pagesize) := by
      rw [State.flight_send, List.mem_append]
      refine or_congr Iff.rfl ?_
      split
      · next hab => simp [hab, Msg.frame?]
      · next hab =>
          refine iff_of_false List.not_mem_nil ?_
          rintro ⟨ha, hb, -⟩
          exact hab ⟨ha.symm, hb⟩
    rw [State.pending_setNotify hth', State.pending_of_notify hth, hflight, or_assoc]
    simp only [hothers, Notify.Unsent, Option.mem_def, Option.some.injEq, exists_eq_left',
      List.mem_cons]
    rw [← or_assoc (a := S.nodeOf th = a ∧ _), ← and_or_left, ← or_and_right]

/-- The network is seen as before. -/
theorem congr_view (h : s.Copies S) (hmain : s'.main = s.main) (hworker : s'.worker = s.worker)
    (hview : s'.network.view S.pagesize = s.network.view S.pagesize) : s'.Copies S := by
  have hnotify : ∀ th, s'.notify? th = s.notify? th := by
    intro th
    unfold State.notify?
    rw [hmain, hworker]
  refine congr h (by rw [hmain]) (by rw [hview]) (by rw [hview]) (fun w _ _ ↦ by rw [hworker])
    (fun w ↦ by rw [hworker]; exact id) fun _ _ _ ↦ State.pending_congr (by rw [hview])
      (fun th n hth ↦ .inr (hnotify th ▸ hth)) fun th n hth ↦ .inr ((hnotify th).trans hth)

theorem trap (h : s.Copies S) {p : UInt32} {addr : ℕ} {r : Replica}
    (hst : (s.node p).txBegin S.pagesize addr = some r) : (s.setNode p r).Copies S :=
  congr_view h rfl rfl (Network.view_txBegin (n := s.network) hst)

theorem receiveDiff (h : s.Copies S) (hsends : Sends S s) (hframes : Frames S s) {q p : UInt32}
    {f : Frame} {rest : List Msg} {r : Replica} (hnet : s.net q p = .diff f :: rest)
    (hst : (s.node p).receive f.payload f.pages = some r) :
    ({ s.setNode p r with
      sender := Function.update s.sender p q
      net := s.net.set q p rest } : State F).Copies S := by
  have hcons : s.network.net q p = f :: rest.filterMap Msg.frame? := by
    change (s.net q p).filterMap Msg.frame? = _
    rw [hnet]
    rfl
  have hnetwork : ({ s.setNode p r with
      sender := Function.update s.sender p q
      net := s.net.set q p rest } : State F).network =
        { s.network.setNode p r with
          sender := Function.update s.network.sender p q
          net := s.network.net.set q p (rest.filterMap Msg.frame?) } := by
    unfold State.network Network.setNode
    simp only [State.setNode, Network.mk.injEq, true_and]
    funext a b
    rw [Channels.set_apply, Channels.set_apply]
    split <;> rfl
  refine congr_view h rfl rfl ?_
  rw [hnetwork]
  exact Network.view_receive (hframes.network_sound hsends) hcons hst

theorem handlePage (h : s.Copies S) (hsends : Sends S s) (hframes : Frames S s) {p : UInt32}
    {r : Replica} (hst : (s.node p).handlePage S.pagesize = some r) :
    (s.setNode p r).Copies S := by
  have hsound := hframes.network_sound hsends
  rcases Network.view_handlePage S.pagesize_pos hsound hst with
    hview | ⟨d, rest, -, hcons, hview⟩
  · exact congr_view h rfl rfl hview
  · have hmem : d.patch S.pagesize ∈
        (s.network.view S.pagesize).flight (s.network.sender p) p := by simp [hcons]
    have hqp := (hsound.peer _ p (List.ne_nil_of_mem hmem)).2
    have hview' : (s.setNode p r).network.view S.pagesize = _ := hview
    refine WriteOnce.deliver h hqp (.inl hmem) (congrArg Copies.value hview')
      (congrArg Copies.known hview') (fun a b f hf ↦ ?_) fun a b f hf ↦ ?_
    · refine hf.imp_left fun hf ↦ ?_
      rw [hview'] at hf
      exact Copies.mem_flight_deliver hcons hf
    · rcases hf with hf | hf
      · unfold State.Pending
        rw [hview', Copies.deliver]
        by_cases hab : a = s.network.sender p ∧ b = p
        · rw [hab.1, hab.2, hcons, List.mem_cons] at hf
          rcases hf with rfl | hf
          · exact .inr ⟨hab.2, rfl⟩
          · exact .inl (.inl (by simpa only [if_pos hab] using hf))
        · exact .inl (.inl (by simpa only [if_neg hab] using hf))
      · exact .inl (.inr hf)

/-- A thread copies the next byte of its share. -/
theorem store (h : s.Copies S) (hsends : Sends S s) (hframes : Frames S s)
    (hround : s.main.round = true) {w k : ℕ} {r : Replica} (hw : w < S.threadCount)
    (hpc : (s.worker w).pc = .copying k) (hk : k < Body.size * S.count)
    (hbyte : byteOf (s.worker w).tmp k = S.new true (S.start w * Body.size + k))
    (hst : (s.node (S.host w)).store S.pagesize (S.start w * Body.size + k)
      (byteOf (s.worker w).tmp k) = some r) :
    ((s.setNode (S.host w) r).setPc w (.copying (k + 1))).Copies S := by
  have hthread := Setup.thread?_start hw hk
  have hview : (s.setNode (S.host w) r).network.view S.pagesize =
      (s.network.view S.pagesize).write (S.host w) (S.start w * Body.size + k)
        (byteOf (s.worker w).tmp k) :=
    Network.view_store (hframes.network_sound hsends) hst
  have hflight : ((s.setNode (S.host w) r).network.view S.pagesize).flight =
      (s.network.view S.pagesize).flight := by
    rw [hview]
    rfl
  have hpc' : ∀ last n, ((s.setNode (S.host w) r).worker w).pc ≠ .notifying last n := by
    intro last n hlast
    cases hpc.symm.trans hlast
  have hcopied : ∀ v i,
      (((s.setNode (S.host w) r).setPc w (.copying (k + 1))).worker v).pc.Copied i ↔
        (s.worker v).pc.Copied i ∨ v = w ∧ i = k := by
    intro v i
    by_cases hvw : v = w
    · subst hvw
      rw [State.setPc_self, hpc]
      exact Nat.lt_succ_iff_lt_or_eq.trans (or_congr Iff.rfl (and_iff_right rfl).symm)
    · rw [State.setPc_ne _ hvw]
      exact (or_iff_left fun hv ↦ hvw hv.1).symm
  unfold State.Copies at h ⊢
  change WriteOnce _ (S.owner s.main.round) _ _ _ (S.new s.main.round)
    ((s.setNode (S.host w) r).network.view S.pagesize).value
    ((s.setNode (S.host w) r).network.view S.pagesize).known _
  rw [hview]
  rw [hround] at h ⊢
  refine (WriteOnce.write h (Setup.owner_of_thread? hthread) (fun hwritten ↦ ?_) (fun k' ↦ ?_)
    ?_).congr (fun _ ↦ Iff.rfl) (fun k' hk' hr ↦ ?_) fun q p f ↦ State.pending_congr hflight
      (fun th n hth ↦ (State.notify?_setWorker hth).imp_left fun ⟨last, hlast⟩ ↦ ?_)
      fun th n hth ↦ .inr (State.notify?_setWorker_of_ne hpc' hth)
  · obtain ⟨v, hv, hcopied⟩ := hwritten hround
    obtain rfl := Option.some.inj (hthread.symm.trans hv)
    rw [hpc, Nat.add_sub_cancel_left] at hcopied
    exact absurd hcopied (Nat.lt_irrefl k)
  · change (s.main.round = true → _) ↔ (s.main.round = true → _) ∨ _
    simp only [hround, true_imp_iff, hcopied]
    constructor
    · rintro ⟨v, hv, hk' | ⟨rfl, hk'⟩⟩
      · exact .inl ⟨v, hv, hk'⟩
      · have hle := (Setup.offset_lt hv).1
        exact .inr (by omega)
    · rintro (⟨v, hv, hk'⟩ | rfl)
      · exact ⟨v, hv, .inl hk'⟩
      · exact ⟨w, hthread, .inr ⟨rfl, Nat.add_sub_cancel_left _ _⟩⟩
  · rw [← hbyte]
    rfl
  · obtain ⟨v, hv, ht⟩ := hk' hr
    have hvw : v ≠ w := by
      rintro rfl
      rw [State.setPc_self] at ht
      exact ht
    rw [State.setPc_ne _ hvw] at ht
    exact ⟨v, hv, ht⟩
  · cases hlast

end State.Copies

end Edsm.NBody
