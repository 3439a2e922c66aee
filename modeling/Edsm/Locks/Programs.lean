import Edsm.Library.Reachability
import Edsm.ReplyWaiter
import Mathlib.Data.Set.Insert
import Mathlib.Logic.Function.Basic

/-!
# The locks of one node

What the threads of a node have still to do, as far as it touches the locks, the reply waits
and the tables that decide which locks come next.  The locks of the reply waiters, of the
Lamport timestamps and of the sockets are never held over another acquisition or a wait, and
are left out.
-/

namespace Edsm.Locks

inductive Lock
  /-- `edsm_memory_regions_lock`. -/
  | regionsLock
  | localLock
  /-- `lock` of a mutex. -/
  | lock (mutexId : UInt32)
  | localMutex (mutexId : UInt32)
  | regionLock (regionId : UInt32)
  deriving DecidableEq

inductive Mode
  | read
  | write
  deriving DecidableEq

/-- The reply waiter of an object that is being got, of a mutex and of a barrier. -/
inductive Waiter
  | dobj (dobjId : UInt32)
  | mutex (mutexId : UInt32)
  | barrier (barrierId : UInt32)
  deriving DecidableEq

/-- The rest of a thread's call. -/
inductive Prog
  | done
  | acquire (lock : Lock) (mode : Mode) (next : Prog)
  | release (lock : Lock) (next : Prog)
  | setWaitOn (waiter : Waiter) (peers : List UInt32) (next : Prog)
  | addReply (waiter : Waiter) (peerId : UInt32) (next : Prog)
  /-- `edsm_reply_waiter_wait`. -/
  | wait (waiter : Waiter) (next : Prog)
  /-- `HASH_FIND_INT` in the objects table. -/
  | find (dobjId : UInt32) (found missing : Prog)
  /-- `HASH_ADD_INT` to the objects table. -/
  | addObject (dobjId : UInt32) (next : Prog)
  /-- `edsm_dobj_test_and_init`. -/
  | testAndInit (dobjId : UInt32) (inited fresh : Prog)
  /-- `LL_PREPEND` to `edsm_memory_regions`. -/
  | addRegion (regionId : UInt32) (next : Prog)
  /-- The loop of `edsm_memory_tx_end` over the regions. -/
  | forRegions (next : Prog)
  deriving DecidableEq

/-! ## The functions -/

/-- `edsm_dobj_get`; `peers` is what `edsm_proto_get_peer_ids` returns. -/
def dobjGet (dobjId : UInt32) (peers : List UInt32) (next : Prog) : Prog :=
  .acquire .localLock .write <|
    .find dobjId
      (.release .localLock next)
      (.addObject dobjId <|
        .release .localLock <|
        .setWaitOn (.dobj dobjId) peers <|
        .wait (.dobj dobjId) <|
        .acquire .localLock .write <|
        .release .localLock next)

/-- `edsm_memory_region_get`; `allocated` tells whether `posix_memalign` succeeds. -/
def memoryRegionGet (regionId : UInt32) (peers : List UInt32) (allocated : Bool) : Prog :=
  .acquire .regionsLock .write <|
    dobjGet regionId peers <|
    .testAndInit regionId
      (.release .regionsLock .done)
      (if allocated then .addRegion regionId (.release .regionsLock .done)
        else .release .regionsLock .done)

/-- `edsm_mutex_lock`; `peers` is what `edsm_dobj_get_peers` returns. -/
def mutexLock (mutexId : UInt32) (peers : List UInt32) : Prog :=
  .acquire (.localMutex mutexId) .write <|
    .acquire (.lock mutexId) .write <|
    .setWaitOn (.mutex mutexId) peers <|
    .release (.lock mutexId) <|
    .wait (.mutex mutexId) .done

/-- `diff_region`, and what `edsm_memory_handle_message` does for a page with sections. -/
def lockRegion (regionId : UInt32) (next : Prog) : Prog :=
  .acquire (.regionLock regionId) .write (.release (.regionLock regionId) next)

/-- `edsm_memory_tx_end` for all regions. -/
def memoryTxEnd (next : Prog) : Prog :=
  .acquire .regionsLock .read <|
    .forRegions <|
    .release .regionsLock next

def mutexUnlock (mutexId : UInt32) : Prog :=
  .acquire (.lock mutexId) .write <|
    memoryTxEnd <|
    .release (.lock mutexId) <|
    .release (.localMutex mutexId) .done

def barrierNotify (localId barrierId : UInt32) : Prog :=
  memoryTxEnd <|
    .addReply (.barrier barrierId) localId .done

inductive Call
  | memoryRegionGet (regionId : UInt32) (peers : List UInt32) (allocated : Bool)
  | mutexLock (mutexId : UInt32) (peers : List UInt32)
  | mutexUnlock (mutexId : UInt32)
  | barrierNotify (barrierId : UInt32)

def Call.prog (localId : UInt32) : Call → Prog
  | .memoryRegionGet regionId peers allocated => Locks.memoryRegionGet regionId peers allocated
  | .mutexLock mutexId peers => Locks.mutexLock mutexId peers
  | .mutexUnlock mutexId => Locks.mutexUnlock mutexId
  | .barrierNotify barrierId => Locks.barrierNotify localId barrierId

/-- The messages for whose handlers a lock or a reply waiter matters. -/
inductive Msg
  | get (dobjId : UInt32)
  | getReply (dobjId : UInt32)
  | mutexRequest (mutexId : UInt32)
  | mutexReply (mutexId : UInt32)
  /-- A diff with sections in so many pages. -/
  | memory (regionId : UInt32) (pages : ℕ)
  | barrier (barrierId : UInt32)

/-- The handlers, which the listener runs. -/
def Msg.prog (peerId : UInt32) : Msg → Prog
  | .get _ => .acquire .localLock .write (.release .localLock .done)
  | .getReply dobjId => .addReply (.dobj dobjId) peerId .done
  | .mutexRequest mutexId => .acquire (.lock mutexId) .write (.release (.lock mutexId) .done)
  | .mutexReply mutexId =>
      .acquire (.lock mutexId) .write <|
        .addReply (.mutex mutexId) peerId <|
        .release (.lock mutexId) .done
  | .memory regionId pages => (lockRegion regionId)^[pages] .done
  | .barrier barrierId => .addReply (.barrier barrierId) peerId .done

/-! ## The node -/

inductive Thread (T : Type*)
  | listener
  | app (t : T)
  deriving DecidableEq

structure State (T : Type*) where
  /-- Who holds the lock, and how. -/
  holders : Lock → List (Thread T × Mode)
  prog : Thread T → Prog
  objects : List UInt32
  inited : List UInt32
  regions : List UInt32
  waitOn : Waiter → ReplyWaiter

inductive Action (T : Type*)
  | call (t : T) (c : Call)
  /-- The listener reads a message and calls the handler. -/
  | take (peerId : UInt32) (msg : Msg)
  /-- One step of a thread. -/
  | run (th : Thread T)

variable {T : Type*}

namespace State

/-- A lock is shared by readers. -/
def Free (s : State T) (lock : Lock) (mode : Mode) : Prop :=
  ∀ h ∈ s.holders lock, mode = .read ∧ h.2 = .read

instance (s : State T) (lock : Lock) (mode : Mode) : Decidable (s.Free lock mode) :=
  inferInstanceAs (Decidable (∀ h ∈ s.holders lock, _))

variable [DecidableEq T]

def setProg (s : State T) (th : Thread T) (p : Prog) : State T :=
  { s with prog := Function.update s.prog th p }

def setHolders (s : State T) (lock : Lock) (hs : List (Thread T × Mode)) : State T :=
  { s with holders := Function.update s.holders lock hs }

def setWaiter (s : State T) (waiter : Waiter) (peers : ReplyWaiter) : State T :=
  { s with waitOn := Function.update s.waitOn waiter peers }

/-- One step of a thread that has this to do. -/
def advance (s : State T) (th : Thread T) : Prog → Option (State T)
  | .done => none
  | .acquire lock mode next =>
      if s.Free lock mode then
        some ((s.setHolders lock ((th, mode) :: s.holders lock)).setProg th next)
      else none
  | .release lock next =>
      some ((s.setHolders lock ((s.holders lock).filter (·.1 ≠ th))).setProg th next)
  | .setWaitOn waiter peers next =>
      some ((s.setWaiter waiter ((s.waitOn waiter).setWaitOn peers)).setProg th next)
  | .addReply waiter peerId next =>
      some ((s.setWaiter waiter ((s.waitOn waiter).addReply peerId)).setProg th next)
  | .wait waiter next => if (s.waitOn waiter).Ready then some (s.setProg th next) else none
  | .find dobjId found missing =>
      some (s.setProg th (if dobjId ∈ s.objects then found else missing))
  | .addObject dobjId next => some ({ s with objects := dobjId :: s.objects }.setProg th next)
  | .testAndInit dobjId inited fresh =>
      if dobjId ∈ s.inited then some (s.setProg th inited)
      else some ({ s with inited := dobjId :: s.inited }.setProg th fresh)
  | .addRegion regionId next => some ({ s with regions := regionId :: s.regions }.setProg th next)
  | .forRegions next => some (s.setProg th (s.regions.foldr lockRegion next))

end State

/-- Only a thread that has locked the mutex unlocks it. -/
def Call.Allowed (s : State T) (t : T) : Call → Prop
  | .mutexUnlock mutexId => (.app t, .write) ∈ s.holders (.localMutex mutexId)
  | .memoryRegionGet .. | .mutexLock .. | .barrierNotify _ => True

instance [DecidableEq T] (s : State T) (t : T) : (c : Call) → Decidable (c.Allowed s t)
  | .mutexUnlock mutexId =>
      inferInstanceAs (Decidable ((.app t, .write) ∈ s.holders (.localMutex mutexId)))
  | .memoryRegionGet .. | .mutexLock .. | .barrierNotify _ => inferInstanceAs (Decidable True)

def step [DecidableEq T] (localId : UInt32) (s : State T) : Action T → Option (State T)
  | .call t c =>
      if s.prog (.app t) = .done ∧ c.Allowed s t then
        some (s.setProg (.app t) (c.prog localId))
      else none
  | .take peerId msg =>
      if s.prog .listener = .done then some (s.setProg .listener (msg.prog peerId)) else none
  | .run th => s.advance th (s.prog th)

def system (T : Type*) [DecidableEq T] (localId : UInt32) :
    LabelledSystem (State T) (Action T) where
  init := {
    holders := fun _ ↦ []
    prog := fun _ ↦ .done
    objects := []
    inited := []
    regions := []
    waitOn := fun _ ↦ [] }
  step := step localId

end Edsm.Locks
