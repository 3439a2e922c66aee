import Edsm.Group
import Edsm.Library.Channels
import Edsm.Library.Reachability
import Edsm.Memory.Replica
import Edsm.NBody.RunOn
import Edsm.NBody.Update
import Edsm.ReplyWaiter

/-!
# A run of the n-body simulation

`run_simulation` on one node and the threads that its up calls start, with the listeners of all
nodes.  The group has joined the region and the completion barrier in `init_simulation`.  That
every node has joined the client barrier too is assumed: `edsm_barrier_get` then returns at once,
in `run_simulation` and in the up calls, and does not wait for the peers.  A critical section is
one step, and so are the send to one peer, the work on one body, and the store of one byte by
`memcpy`.
-/

namespace Edsm.NBody

open Memory

/-! ## The start -/

section Init

variable {F : Type} [Double F]

/-- A store whose first try may trap. -/
def writeByte (pagesize : ℕ) (r : Replica) (addr : ℕ) (value : UInt8) : Option Replica :=
  match r.store pagesize addr value with
  | some r => some r
  | none => (r.txBegin pagesize addr).bind fun r ↦ r.store pagesize addr value

/-- The loop of `init_simulation` over the bodies. -/
def writeBodies (pagesize : ℕ) (bodies : ℕ → Body F) (bodyCount : UInt32) (r : Replica) :
    Option Replica :=
  (List.range (Body.size * bodyCount.toNat)).foldlM
    (fun r k ↦ writeByte pagesize r k (byteOf bodies k)) r

variable (F) in
/-- What `init_simulation` leaves: `current_sim`, and the region of the node that runs it before
and after `edsm_memory_tx_end`. -/
structure Setup where
  G : Group
  /-- The node that `run_simulation` is called on. -/
  home : UInt32
  home_mem : home ∈ G.ids
  A : Allocator
  pagesize : ℕ
  bodies : ℕ → Body F
  bodyCount : UInt32
  timestep : F
  stepCount : ℕ
  microStepCount : UInt32
  threadsPerNode : ℕ
  region : Region
  get : regionGet pagesize (Body.size * bodyCount.toNat) = some region
  stored : Replica
  stored_eq : writeBodies pagesize bodies bodyCount (.initial region) = some stored
  ended : Replica
  payload : Option (List UInt8)
  ended_eq : stored.txEnd A pagesize true = some (ended, payload)
  /-- The fields of the diffs are wide enough. -/
  pagesize_lt : pagesize < 2 ^ 16
  size_le : region.size ≤ 2 ^ 32
  /-- `thread_count` is an `int`, and `start` is computed in 32 bits. -/
  threads_lt : (runOn (G.peers home) home threadsPerNode).length < 2 ^ 31
  shares_lt : (runOn (G.peers home) home threadsPerNode).length * bodyCount.toNat < 2 ^ 32

end Init

inductive Barrier
  | client
  | completion
  deriving DecidableEq

inductive Msg
  | diff (f : Frame)
  /-- The up call that starts thread `w`, with its `start` and `count`. -/
  | upCall (w : ℕ)
  | notification (b : Barrier)

/-- Where a call of `edsm_barrier_notify` is. -/
inductive Notify
  /-- Before `diff_region`. -/
  | ending
  /-- In `edsm_dobj_send` of the diff, with these peers left. -/
  | sendingDiff (f : Frame) (rest : List UInt32)
  /-- With these nodes left to be notified, the node itself being the last one. -/
  | sending (rest : List UInt32)

/-- Where the thread of an up call is; the call of `edsm_barrier_notify` before the wait is the
first one and that after `memcpy` the last one. -/
inductive Pc
  | idle
  | called
  | computing (t i : ℕ)
  | notifying (last : Bool) (n : Notify)
  | waiting
  | copying (k : ℕ)
  | done

/-- Where `run_simulation` is. -/
inductive MainPc
  | arming
  | calling (i : ℕ)
  | waiting (last : Bool)
  | rearming
  | notifying (n : Notify)
  | finished

variable {F : Type}

structure Worker (F : Type) where
  pc : Pc
  tmp : ℕ → Body F

structure State (F : Type) where
  main : MainPc
  worker : ℕ → Worker F
  node : UInt32 → Replica
  /-- Whose diff the listener of a node handles; no function reads this field. -/
  sender : UInt32 → UInt32
  waiter : Barrier → UInt32 → ReplyWaiter
  net : Channels UInt32 Msg

inductive Action
  | main
  | worker (w : ℕ)
  /-- The listener of `p` handles the oldest message from `q`, or begins to. -/
  | deliver (q p : UInt32)
  /-- The listener handles the next page of a diff. -/
  | handlePage (p : UInt32)

/-- The callers of `edsm_barrier_notify`. -/
inductive Thread
  | main
  | worker (w : ℕ)

def Thread.barrier : Thread → Barrier
  | main => .client
  | worker _ => .completion

namespace State

variable (s : State F)

def setNode (p : UInt32) (r : Replica) : State F :=
  { s with node := Function.update s.node p r }

def setWorker (w : ℕ) (x : Worker F) : State F :=
  { s with worker := Function.update s.worker w x }

def setPc (w : ℕ) (pc : Pc) : State F := s.setWorker w { s.worker w with pc }

def setWaiter (b : Barrier) (p : UInt32) (waiter : ReplyWaiter) : State F :=
  { s with waiter := Function.update s.waiter b (Function.update (s.waiter b) p waiter) }

def addReply (b : Barrier) (p q : UInt32) : State F :=
  s.setWaiter b p ((s.waiter b p).addReply q)

def send (p q : UInt32) (m : Msg) : State F := { s with net := s.net.send p q m }

/-- The call of `edsm_barrier_notify` that a thread is in. -/
def notify? : Thread → Option Notify
  | .main =>
      match s.main with
      | .notifying n => some n
      | .arming | .calling _ | .waiting _ | .rearming | .finished => none
  | .worker w =>
      match (s.worker w).pc with
      | .notifying _ n => some n
      | .idle | .called | .computing .. | .waiting | .copying _ | .done => none

/-- The call goes on, or returns. -/
def setNotify : Thread → Option Notify → State F
  | .main, n => { s with main := n.elim (.waiting true) .notifying }
  | .worker w, n =>
      match (s.worker w).pc with
      | .notifying last _ =>
          s.setPc w (n.elim (if last = true then .done else .waiting) (.notifying last))
      | .idle | .called | .computing .. | .waiting | .copying _ | .done => s

end State

namespace State

variable {s : State F} {th : Thread} {w : ℕ} {n : Notify}

theorem notify?_main (h : s.notify? .main = some n) : s.main = .notifying n := by
  unfold notify? at h
  simp only at h
  split at h
  · next hmain => rw [hmain, Option.some.inj h]
  all_goals cases h

theorem notify?_worker (h : s.notify? (.worker w) = some n) :
    ∃ last, (s.worker w).pc = .notifying last n := by
  unfold notify? at h
  simp only at h
  split at h
  · next last n' hpc => exact ⟨last, by rw [hpc, Option.some.inj h]⟩
  all_goals cases h

theorem setNotify_worker {last : Bool} (hpc : (s.worker w).pc = .notifying last n)
    (next : Option Notify) : s.setNotify (.worker w) next =
      s.setPc w (next.elim (if last = true then .done else .waiting) (.notifying last)) := by
  rw [setNotify, hpc]

/-- The rest of the state is as before. -/
theorem setNotify_frame (s : State F) (th : Thread) (next : Option Notify) :
    (s.setNotify th next).node = s.node ∧ (s.setNotify th next).sender = s.sender ∧
      (s.setNotify th next).waiter = s.waiter ∧ (s.setNotify th next).net = s.net ∧
      ∀ w, ((s.setNotify th next).worker w).tmp = (s.worker w).tmp := by
  have hpc : ∀ w pc, ∀ w', ((s.setPc w pc).worker w').tmp = (s.worker w').tmp := by
    intro w pc w'
    by_cases hw : w' = w
    · subst hw
      simp [setPc, setWorker]
    · simp [setPc, setWorker, hw]
  cases th with
  | main => exact ⟨rfl, rfl, rfl, rfl, fun _ ↦ rfl⟩
  | worker w =>
      unfold setNotify
      simp only
      split
      · exact ⟨rfl, rfl, rfl, rfl, hpc w _⟩
      all_goals exact ⟨rfl, rfl, rfl, rfl, fun _ ↦ rfl⟩

theorem setWorker_self (s : State F) (w : ℕ) (x : Worker F) : (s.setWorker w x).worker w = x := by
  simp [setWorker]

theorem setWorker_ne (s : State F) {w w' : ℕ} (h : w' ≠ w) (x : Worker F) :
    (s.setWorker w x).worker w' = s.worker w' := by
  simp [setWorker, h]

theorem setPc_self (s : State F) (w : ℕ) (pc : Pc) : ((s.setPc w pc).worker w).pc = pc :=
  congrArg Worker.pc (setWorker_self s w _)

theorem setPc_ne (s : State F) {w w' : ℕ} (h : w' ≠ w) (pc : Pc) :
    (s.setPc w pc).worker w' = s.worker w' :=
  setWorker_ne s h _

end State

variable [Double F]

namespace Setup

variable (S : Setup F)

def hosts : List UInt32 := runOn (S.G.peers S.home) S.home S.threadsPerNode

def threadCount : ℕ := S.hosts.length

/-- The node of a thread. -/
def host (w : ℕ) : UInt32 := S.hosts.getD w S.home

def start (w : ℕ) : ℕ := (NBody.start S.bodyCount S.threadCount w).toNat

def count : ℕ := (NBody.count S.bodyCount S.threadCount).toNat

def dt : F := S.timestep / Double.lit S.microStepCount.toNat 0

/-- The argument of `update_body`, which is an `int`. -/
def microSteps : ℤ := S.microStepCount.toInt32.toInt

/-- Whom `edsm_barrier_notify` tells. -/
def everyone (p : UInt32) : List UInt32 := S.G.peers p ++ [p]

def nodeOf : Thread → UInt32
  | .main => S.home
  | .worker w => S.host w

end Setup

/-- `edsm_barrier_notify` after `edsm_memory_tx_end` has taken the diff, if there is one. -/
def Notify.sendFirst (peers everyone : List UInt32) : List Frame → Notify
  | [] => .sending everyone
  | f :: _ => .sendingDiff f peers

section Step

variable (S : Setup F) (s : State F)

def notifyStep (th : Thread) : Notify → Option (State F)
  | .ending =>
      ((s.node (S.nodeOf th)).txEnd S.A S.pagesize true).map fun (r, payload) ↦
        (s.setNode (S.nodeOf th) r).setNotify th (some (.sendFirst (S.G.peers (S.nodeOf th))
          (S.everyone (S.nodeOf th)) ((s.node (S.nodeOf th)).frames S.pagesize payload)))
  | .sendingDiff f (q :: rest) =>
      some ((s.send (S.nodeOf th) q (.diff f)).setNotify th (some (.sendingDiff f rest)))
  | .sendingDiff _ [] => some (s.setNotify th (some (.sending (S.everyone (S.nodeOf th)))))
  | .sending (q :: rest) =>
      if q = S.nodeOf th then
        some ((s.addReply th.barrier q q).setNotify th (some (.sending rest)))
      else
        some ((s.send (S.nodeOf th) q (.notification th.barrier)).setNotify th
          (some (.sending rest)))
  | .sending [] => some (s.setNotify th none)

/-- `run_simulation` after its calls of `edsm_memory_region_get` and `edsm_barrier_get`; an up call
to the node itself is made at once. -/
def mainStep : Option (State F) :=
  match s.main with
  | .arming => some { s.setWaiter .completion S.home S.hosts with main := .calling 0 }
  | .calling i =>
      if i < S.threadCount then
        if S.host i = S.home then some { s.setPc i .called with main := .calling (i + 1) }
        else some { s.send S.home (S.host i) (.upCall i) with main := .calling (i + 1) }
      else some { s with main := .waiting false }
  | .waiting last =>
      if (s.waiter .completion S.home).Ready then
        some { s with main := if last = true then .finished else .rearming }
      else none
  | .rearming => some { s.setWaiter .completion S.home S.hosts with main := .notifying .ending }
  | .notifying n => notifyStep S s .main n
  | .finished => none

/-- The `event == 1` branch of `up_call`. -/
def workerStep (w : ℕ) : Option (State F) :=
  let p := S.host w
  match (s.worker w).pc with
  | .idle | .done => none
  | .called =>
      -- the region and the barriers are there
      some ((s.setWaiter .client p [S.home]).setWorker w
        { pc := .computing 0 0, tmp := fun _ ↦ .zero })
  | .computing t i =>
      if t < S.stepCount then
        if i < S.count then
          some (s.setWorker w
            { pc := .computing t (i + 1)
              tmp := updateBody (Body.load (s.node p).region.bytes) (s.worker w).tmp
                S.bodyCount.toNat (S.start w) i S.dt S.microSteps })
        else some (s.setPc w (.computing (t + 1) 0))
      else some (s.setPc w (.notifying false .ending))
  | .notifying _ n => notifyStep S s (.worker w) n
  | .waiting =>
      if (s.waiter .client p).Ready then some (s.setPc w (.copying 0)) else none
  | .copying k =>
      if k < Body.size * S.count then
        let addr := S.start w * Body.size + k
        match (s.node p).store S.pagesize addr (byteOf (s.worker w).tmp k) with
        | some r => some ((s.setNode p r).setPc w (.copying (k + 1)))
        | none => ((s.node p).txBegin S.pagesize addr).map fun r ↦ s.setNode p r
      else some (s.setPc w (.notifying true .ending))

def deliverStep (q p : UInt32) : Option (State F) :=
  match s.net q p, (s.node p).receiving with
  | m :: rest, none =>
      let s := { s with net := s.net.set q p rest }
      match m with
      | .diff f => ((s.node p).receive f.payload f.pages).map fun r ↦
          { s.setNode p r with sender := Function.update s.sender p q }
      | .upCall w => some (s.setPc w .called)
      | .notification b => some (s.addReply b p q)
  | _, _ => none

def step : Action → Option (State F)
  | .main => mainStep S s
  | .worker w => workerStep S s w
  | .deliver q p => deliverStep s q p
  | .handlePage p => ((s.node p).handlePage S.pagesize).map (s.setNode p)

end Step

/-! ## What a step does -/

/-- A step of a thread that changes nothing else: where it is then, and its bodies. -/
inductive Work (S : Setup F) (s : State F) (w : ℕ) : Pc → (ℕ → Body F) → Prop
  | update {t i : ℕ} (hpc : (s.worker w).pc = .computing t i) (ht : t < S.stepCount)
      (hi : i < S.count) :
      Work S s w (.computing t (i + 1)) (updateBody (Body.load (s.node (S.host w)).region.bytes)
        (s.worker w).tmp S.bodyCount.toNat (S.start w) i S.dt S.microSteps)
  | nextStep {t i : ℕ} (hpc : (s.worker w).pc = .computing t i) (ht : t < S.stepCount)
      (hi : ¬ i < S.count) : Work S s w (.computing (t + 1) 0) (s.worker w).tmp
  | computed {t i : ℕ} (hpc : (s.worker w).pc = .computing t i) (ht : ¬ t < S.stepCount) :
      Work S s w (.notifying false .ending) (s.worker w).tmp
  | enter (hpc : (s.worker w).pc = .waiting) (hready : s.waiter .client (S.host w) = []) :
      Work S s w (.copying 0) (s.worker w).tmp
  | copied {k : ℕ} (hpc : (s.worker w).pc = .copying k) (hk : ¬ k < Body.size * S.count) :
      Work S s w (.notifying true .ending) (s.worker w).tmp

inductive Effect (S : Setup F) (s : State F) : State F → Prop
  | arm (hmain : s.main = .arming) :
      Effect S s { s.setWaiter .completion S.home S.hosts with main := .calling 0 }
  | callSelf {i : ℕ} (hmain : s.main = .calling i) (hi : i < S.threadCount)
      (hhost : S.host i = S.home) : Effect S s { s.setPc i .called with main := .calling (i + 1) }
  | callPeer {i : ℕ} (hmain : s.main = .calling i) (hi : i < S.threadCount)
      (hhost : S.host i ≠ S.home) :
      Effect S s { s.send S.home (S.host i) (.upCall i) with main := .calling (i + 1) }
  | callsDone {i : ℕ} (hmain : s.main = .calling i) (hi : ¬ i < S.threadCount) :
      Effect S s { s with main := .waiting false }
  | leave (hmain : s.main = .waiting false) (hready : s.waiter .completion S.home = []) :
      Effect S s { s with main := .rearming }
  | rearm (hmain : s.main = .rearming) :
      Effect S s { s.setWaiter .completion S.home S.hosts with main := .notifying .ending }
  | finish (hmain : s.main = .waiting true) (hready : s.waiter .completion S.home = []) :
      Effect S s { s with main := .finished }
  | txEnd {th : Thread} {r : Replica} {payload : Option (List UInt8)}
      (hth : s.notify? th = some .ending)
      (hst : (s.node (S.nodeOf th)).txEnd S.A S.pagesize true = some (r, payload)) :
      Effect S s ((s.setNode (S.nodeOf th) r).setNotify th
        (some (.sendFirst (S.G.peers (S.nodeOf th)) (S.everyone (S.nodeOf th))
          ((s.node (S.nodeOf th)).frames S.pagesize payload))))
  | sendDiff {th : Thread} {f : Frame} {q : UInt32} {rest : List UInt32}
      (hth : s.notify? th = some (.sendingDiff f (q :: rest))) :
      Effect S s ((s.send (S.nodeOf th) q (.diff f)).setNotify th (some (.sendingDiff f rest)))
  | diffSent {th : Thread} {f : Frame} (hth : s.notify? th = some (.sendingDiff f [])) :
      Effect S s (s.setNotify th (some (.sending (S.everyone (S.nodeOf th)))))
  | notifySelf {th : Thread} {rest : List UInt32}
      (hth : s.notify? th = some (.sending (S.nodeOf th :: rest))) :
      Effect S s ((s.addReply th.barrier (S.nodeOf th) (S.nodeOf th)).setNotify th
        (some (.sending rest)))
  | notifyPeer {th : Thread} {q : UInt32} {rest : List UInt32}
      (hth : s.notify? th = some (.sending (q :: rest))) (hq : q ≠ S.nodeOf th) :
      Effect S s ((s.send (S.nodeOf th) q (.notification th.barrier)).setNotify th
        (some (.sending rest)))
  | notified {th : Thread} (hth : s.notify? th = some (.sending [])) :
      Effect S s (s.setNotify th none)
  | start {w : ℕ} (hpc : (s.worker w).pc = .called) :
      Effect S s ((s.setWaiter .client (S.host w) [S.home]).setWorker w
        { pc := .computing 0 0, tmp := fun _ ↦ .zero })
  | work {w : ℕ} {pc : Pc} {tmp : ℕ → Body F} (hwork : Work S s w pc tmp) :
      Effect S s (s.setWorker w { pc, tmp })
  | store {w k : ℕ} {r : Replica} (hpc : (s.worker w).pc = .copying k)
      (hk : k < Body.size * S.count)
      (hst : (s.node (S.host w)).store S.pagesize (S.start w * Body.size + k)
        (byteOf (s.worker w).tmp k) = some r) :
      Effect S s ((s.setNode (S.host w) r).setPc w (.copying (k + 1)))
  | trap {w k : ℕ} {r : Replica} (hpc : (s.worker w).pc = .copying k)
      (hk : k < Body.size * S.count)
      (hst : (s.node (S.host w)).txBegin S.pagesize (S.start w * Body.size + k) = some r) :
      Effect S s (s.setNode (S.host w) r)
  | receiveDiff {q p : UInt32} {f : Frame} {rest : List Msg} {r : Replica}
      (hnet : s.net q p = .diff f :: rest)
      (hst : (s.node p).receive f.payload f.pages = some r) :
      Effect S s { s.setNode p r with
        sender := Function.update s.sender p q
        net := s.net.set q p rest }
  | receiveCall {q p : UInt32} {w : ℕ} {rest : List Msg} (hnet : s.net q p = .upCall w :: rest)
      (hidle : (s.node p).receiving = none) :
      Effect S s { s.setPc w .called with net := s.net.set q p rest }
  | receiveNotification {q p : UInt32} {b : Barrier} {rest : List Msg}
      (hnet : s.net q p = .notification b :: rest) (hidle : (s.node p).receiving = none) :
      Effect S s { s.addReply b p q with net := s.net.set q p rest }
  | handlePage {p : UInt32} {r : Replica} (hst : (s.node p).handlePage S.pagesize = some r) :
      Effect S s (s.setNode p r)

section Effect

variable {S : Setup F} {s s' : State F}

theorem effect_of_notifyStep {th : Thread} {n : Notify} (hth : s.notify? th = some n)
    (hst : notifyStep S s th n = some s') : Effect S s s' := by
  match n with
  | .ending =>
      obtain ⟨⟨r, payload⟩, hr, rfl⟩ := Option.map_eq_some_iff.mp hst
      exact .txEnd hth hr
  | .sendingDiff f (q :: rest) => exact Option.some.inj hst ▸ .sendDiff hth
  | .sendingDiff f [] => exact Option.some.inj hst ▸ .diffSent hth
  | .sending (q :: rest) =>
      rw [notifyStep] at hst
      split at hst
      · next hq =>
          subst hq
          exact Option.some.inj hst ▸ .notifySelf hth
      · next hq => exact Option.some.inj hst ▸ .notifyPeer hth hq
  | .sending [] => exact Option.some.inj hst ▸ .notified hth

theorem effect_of_mainStep (hst : mainStep S s = some s') : Effect S s s' := by
  unfold mainStep at hst
  split at hst
  · next hmain => exact Option.some.inj hst ▸ .arm hmain
  · next i hmain =>
      split at hst
      · next hi =>
          split at hst
          · next hhost => exact Option.some.inj hst ▸ .callSelf hmain hi hhost
          · next hhost => exact Option.some.inj hst ▸ .callPeer hmain hi hhost
      · next hi => exact Option.some.inj hst ▸ .callsDone hmain hi
  · next last hmain =>
      obtain ⟨hready, hst⟩ := Option.ite_none_right_eq_some.mp hst
      cases last with
      | false => exact Option.some.inj hst ▸ .leave hmain hready
      | true => exact Option.some.inj hst ▸ .finish hmain hready
  · next hmain => exact Option.some.inj hst ▸ .rearm hmain
  · next n hmain => exact effect_of_notifyStep (by simp [State.notify?, hmain]) hst
  · cases hst

theorem effect_of_workerStep {w : ℕ} (hst : workerStep S s w = some s') : Effect S s s' := by
  unfold workerStep at hst
  split at hst
  · cases hst
  · cases hst
  · next hpc => exact Option.some.inj hst ▸ .start hpc
  · next t i hpc =>
      split at hst
      · next ht =>
          split at hst
          · next hi => exact Option.some.inj hst ▸ .work (.update hpc ht hi)
          · next hi => exact Option.some.inj hst ▸ .work (.nextStep hpc ht hi)
      · next ht => exact Option.some.inj hst ▸ .work (.computed hpc ht)
  · next last n hpc => exact effect_of_notifyStep (by simp [State.notify?, hpc]) hst
  · next hpc =>
      obtain ⟨hready, hst⟩ := Option.ite_none_right_eq_some.mp hst
      exact Option.some.inj hst ▸ .work (.enter hpc hready)
  · next k hpc =>
      split at hst
      · next hk =>
          dsimp only at hst
          split at hst
          · next r hr => exact Option.some.inj hst ▸ .store hpc hk hr
          · obtain ⟨r, hr, rfl⟩ := Option.map_eq_some_iff.mp hst
            exact .trap hpc hk hr
      · next hk => exact Option.some.inj hst ▸ .work (.copied hpc hk)

theorem effect_of_deliverStep {q p : UInt32} (hst : deliverStep s q p = some s') :
    Effect S s s' := by
  unfold deliverStep at hst
  split at hst
  · next m rest hnet hidle =>
      cases m with
      | diff f =>
          obtain ⟨r, hr, rfl⟩ := Option.map_eq_some_iff.mp hst
          exact .receiveDiff hnet hr
      | upCall w => exact Option.some.inj hst ▸ .receiveCall hnet hidle
      | notification b => exact Option.some.inj hst ▸ .receiveNotification hnet hidle
  · cases hst

theorem effect_of_step {a : Action} (hst : step S s a = some s') : Effect S s s' := by
  cases a with
  | main => exact effect_of_mainStep hst
  | worker w => exact effect_of_workerStep hst
  | deliver q p => exact effect_of_deliverStep hst
  | handlePage p =>
      obtain ⟨r, hr, rfl⟩ := Option.map_eq_some_iff.mp hst
      exact .handlePage hr

end Effect

/-- The runs of `run_simulation` from the moment `init_simulation` returns. -/
def system (S : Setup F) : LabelledSystem (State F) Action where
  init := {
    main := .arming
    worker := fun _ ↦ { pc := .idle, tmp := fun _ ↦ .zero }
    node := fun p ↦ if p = S.home then S.ended else .initial S.region
    sender := fun _ ↦ 0
    waiter := fun _ _ ↦ []
    net := fun a b ↦ if a = S.home ∧ b ∈ S.G.peers S.home then
        (S.stored.frames S.pagesize S.payload).map .diff ++ [.notification .completion]
      else [] }
  step := step S

end Edsm.NBody
