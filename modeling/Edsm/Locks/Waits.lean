import Edsm.Library.LockRank
import Edsm.Locks.Programs

/-!
# Waiting for the listener

The locks are ordered: `localMutex`, `lock`, `regionsLock`, and last `localLock` and the
`regionLock` of a region.  A thread that waits for replies holds at most `regionsLock` and
mutexes, so the listener can only be cut off from it through an unlocking thread that wants
`regionsLock` while it holds the lock that the listener wants.
-/

namespace Edsm.Locks

open Relation (TransGen)

def rank : Lock → ℕ
  | .localMutex _ => 0
  | .lock _ => 1
  | .regionsLock => 2
  | .localLock | .regionLock _ => 3

/-- The mutex whose lock it is. -/
def Lock.mutexId : Lock → Option UInt32
  | lock mutexId => some mutexId
  | regionsLock | localLock | localMutex _ | regionLock _ => none

def Waiter.dobjId : Waiter → Option UInt32
  | dobj dobjId => some dobjId
  | mutex _ | barrier _ => none

namespace Prog

/-- The lock that the next step takes. -/
def wants : Prog → Option Lock
  | acquire lock _ _ => some lock
  | done | release .. | setWaitOn .. | addReply .. | wait .. | find .. | addObject ..
  | testAndInit .. | addRegion .. | forRegions _ => none

/-- The reply waiter that the thread is in. -/
def awaits : Prog → Option Waiter
  | wait waiter _ => some waiter
  | done | acquire .. | release .. | setWaitOn .. | addReply .. | find .. | addObject ..
  | testAndInit .. | addRegion .. | forRegions _ => none

/-- The object whose replies the thread waits for in `edsm_dobj_get`. -/
def gets (p : Prog) : Option UInt32 := p.awaits.bind Waiter.dobjId

end Prog

namespace State

variable {T : Type*}

def Holds (s : State T) (th : Thread T) (lock : Lock) : Prop :=
  ∃ mode, (th, mode) ∈ s.holders lock

/-- A thread is blocked on a lock by a thread that holds it. -/
def WaitsFor (s : State T) (a b : Thread T) : Prop :=
  ∃ lock mode next mode', s.prog a = .acquire lock mode next ∧ (b, mode') ∈ s.holders lock ∧
    ¬(mode = .read ∧ mode' = .read)

/-- The thread waits for a message, which only the listener handles. -/
def InReplyWait (s : State T) (th : Thread T) : Prop :=
  ∃ waiter, (s.prog th).awaits = some waiter ∧ s.waitOn waiter ≠ []

/-- The listener is blocked, directly or through further locks, on a thread that waits for a
message. -/
def Deadlocked (s : State T) : Prop :=
  ∃ th, TransGen s.WaitsFor .listener th ∧ s.InReplyWait th

/-- The mutex whose lock the listener is about to take. -/
def taken (s : State T) : Option UInt32 := (s.prog .listener).wants.bind Lock.mutexId

/-- `edsm_mutex_unlock` holds the lock of the mutex and has not got `regionsLock`. -/
def Unlocking (s : State T) (mutexId : UInt32) : Prop :=
  ∃ h ∈ s.holders (.lock mutexId), (s.prog h.1).wants = some .regionsLock

/-- `edsm_memory_region_get` waits for replies. -/
def Getting (s : State T) : Prop :=
  ∃ h ∈ s.holders .regionsLock, ∃ dobjId ∈ (s.prog h.1).gets, s.waitOn (.dobj dobjId) ≠ []

end State

def Msg.mutexId : Msg → Option UInt32
  | mutexRequest mutexId | mutexReply mutexId => some mutexId
  | get _ | getReply _ | memory .. | barrier _ => none

/-- The next step of a thread does not bring about the last of the three. -/
def State.KeepsApartNext {T : Type*} (s : State T) : Prog → Prop
  | .acquire lock _ next =>
      ∀ mutexId ∈ lock.mutexId, next.wants = some .regionsLock →
        ¬(s.taken = some mutexId ∧ s.Getting)
  | .setWaitOn waiter peers _ =>
      waiter.dobjId.isSome → peers ≠ [] → ∀ mutexId ∈ s.taken, ¬s.Unlocking mutexId
  | .done | .release .. | .addReply .. | .wait .. | .find .. | .addObject .. | .testAndInit ..
  | .addRegion .. | .forRegions _ => True

/-- The step does not bring these three together: the listener wants the lock of a mutex,
`edsm_mutex_unlock` of the mutex wants `regionsLock`, and `edsm_memory_region_get` waits for
replies. -/
def State.KeepsApart {T : Type*} (s : State T) : Action T → Prop
  | .call .. => True
  | .take _ msg => ∀ mutexId ∈ msg.mutexId, ¬(s.Unlocking mutexId ∧ s.Getting)
  | .run th => s.KeepsApartNext (s.prog th)

/-! ## What the functions keep to -/

namespace Prog

/-- Locks are taken in the order of their ranks, and replies are waited for with no lock but
mutexes, and `regionsLock` where an object is got. -/
def Disciplined : Set Lock → Prog → Prop
  | held, done => ∀ h ∈ held, rank h = 0
  | held, acquire lock _ next =>
      (∀ h ∈ held, rank h = 0 ∨ rank h < rank lock) ∧ Disciplined (insert lock held) next
  | held, release lock next => Disciplined (held \ {lock}) next
  | held, wait waiter next =>
      (∀ h ∈ held, rank h = 0 ∨ h = .regionsLock ∧ waiter.dobjId.isSome) ∧ Disciplined held next
  | held, setWaitOn _ _ next | held, addReply _ _ next | held, addObject _ next
  | held, addRegion _ next => Disciplined held next
  | held, find _ p q | held, testAndInit _ p q => Disciplined held p ∧ Disciplined held q
  | held, forRegions next => (∀ h ∈ held, rank h < 3) ∧ Disciplined held next

/-- The lock is taken somewhere in the rest of the call. -/
def Acquires (lock : Lock) : Prog → Prop
  | done => False
  | acquire lock' _ next => lock = lock' ∨ Acquires lock next
  | release _ next | setWaitOn _ _ next | addReply _ _ next | wait _ next | addObject _ next
  | addRegion _ next => Acquires lock next
  | find _ p q | testAndInit _ p q => Acquires lock p ∨ Acquires lock q
  | forRegions next => (∃ regionId, lock = .regionLock regionId) ∨ Acquires lock next

/-- It starts with none of the three steps that `KeepsApart` is about. -/
def Plain (p : Prog) : Prop :=
  p.wants ≠ some .regionsLock ∧ (∀ mutexId, p.wants ≠ some (.lock mutexId)) ∧ p.gets = none

/-- What comes before the steps that `KeepsApart` is about. -/
def Linked : Prog → Prop
  | done => True
  | acquire lock _ next =>
      (next.wants = some .regionsLock → lock.mutexId.isSome) ∧
        (∀ mutexId, next.wants = some (.lock mutexId) → rank lock = 0) ∧
        next.gets = none ∧ Linked next
  | setWaitOn waiter _ next =>
      next.wants = none ∧ (next.gets = none ∨ next.gets = waiter.dobjId) ∧ Linked next
  | release _ next | addReply _ _ next | wait _ next | addObject _ next | addRegion _ next
  | forRegions next => next.Plain ∧ Linked next
  | find _ p q | testAndInit _ p q => (p.Plain ∧ Linked p) ∧ q.Plain ∧ Linked q

variable {held held' : Set Lock} {p : Prog}

theorem Disciplined.mono (h : p.Disciplined held) (hsub : held' ⊆ held) :
    p.Disciplined held' := by
  induction p generalizing held held' with
  | done => exact fun l hl ↦ h l (hsub hl)
  | acquire lock mode next ih =>
      exact ⟨fun l hl ↦ h.1 l (hsub hl), ih h.2 (Set.insert_subset_insert hsub)⟩
  | release lock next ih => exact ih h fun l hl ↦ ⟨hsub hl.1, hl.2⟩
  | wait waiter next ih => exact ⟨fun l hl ↦ h.1 l (hsub hl), ih h.2 hsub⟩
  | setWaitOn waiter peers next ih | addReply waiter peerId next ih | addObject dobjId next ih
  | addRegion regionId next ih => exact ih h hsub
  | find dobjId p q ihp ihq | testAndInit dobjId p q ihp ihq =>
      exact ⟨ihp h.1 hsub, ihq h.2 hsub⟩
  | forRegions next ih => exact ⟨fun l hl ↦ h.1 l (hsub hl), ih h.2 hsub⟩

theorem Disciplined.lockRegion (h : p.Disciplined held) (hheld : ∀ l ∈ held, rank l < 3)
    (regionId : UInt32) : (lockRegion regionId p).Disciplined held := by
  refine ⟨fun l hl ↦ .inr (hheld l hl), h.mono ?_⟩
  rintro l ⟨hl, hne⟩
  exact (Set.mem_insert_iff.mp hl).resolve_left hne

theorem Disciplined.foldr (h : p.Disciplined held) (hheld : ∀ l ∈ held, rank l < 3)
    (regions : List UInt32) : (regions.foldr Locks.lockRegion p).Disciplined held := by
  induction regions with
  | nil => exact h
  | cons regionId regions ih => exact ih.lockRegion hheld regionId

theorem acquires_foldr {lock : Lock} {regions : List UInt32}
    (h : (regions.foldr lockRegion p).Acquires lock) :
    (∃ regionId, lock = .regionLock regionId) ∨ p.Acquires lock := by
  induction regions with
  | nil => exact .inr h
  | cons regionId regions ih =>
      rcases h with rfl | h
      · exact .inl ⟨regionId, rfl⟩
      · exact ih h

theorem plain_lockRegion (regionId : UInt32) : (lockRegion regionId p).Plain :=
  ⟨by simp [wants, lockRegion], by simp [wants, lockRegion], rfl⟩

theorem Linked.foldr (hplain : p.Plain) (h : p.Linked) (regions : List UInt32) :
    (regions.foldr lockRegion p).Plain ∧ (regions.foldr lockRegion p).Linked := by
  induction regions with
  | nil => exact ⟨hplain, h⟩
  | cons regionId regions ih =>
      exact ⟨plain_lockRegion regionId, by simp [wants], by simp [wants], rfl, ih⟩

theorem disciplined_dobjGet (h : p.Disciplined held) (hheld : ∀ l ∈ held, rank l < 3)
    (hwait : ∀ l ∈ held, rank l = 0 ∨ l = .regionsLock) (dobjId : UInt32) (peers : List UInt32) :
    (dobjGet dobjId peers p).Disciplined held := by
  have hback : insert .localLock held \ {.localLock} ⊆ held := fun l hl ↦
    (Set.mem_insert_iff.mp hl.1).resolve_left hl.2
  have hrank : ∀ l ∈ held, rank l = 0 ∨ rank l < rank .localLock := fun l hl ↦ .inr (hheld l hl)
  refine ⟨hrank, h.mono hback, fun l hl ↦ (hwait l (hback hl)).imp_right (⟨·, rfl⟩), ?_, ?_⟩
  · exact fun l hl ↦ hrank l (hback hl)
  · exact h.mono fun l hl ↦ (Set.mem_insert_iff.mp hl.1).elim (absurd · hl.2) (hback ·)

theorem disciplined_txEnd (h : p.Disciplined held) (hheld : ∀ l ∈ held, rank l < 2) :
    (memoryTxEnd p).Disciplined held := by
  refine ⟨fun l hl ↦ .inr (hheld l hl), fun l hl ↦ ?_, h.mono fun l hl ↦
    (Set.mem_insert_iff.mp hl.1).resolve_left hl.2⟩
  rcases Set.mem_insert_iff.mp hl with rfl | hl
  · decide
  · exact (hheld l hl).trans (by decide)

theorem disciplined_call (localId : UInt32) (c : Call) (hheld : ∀ l ∈ held, rank l = 0) :
    (c.prog localId).Disciplined held := by
  have hlt : ∀ l ∈ held, ∀ n, rank l < n + 1 := fun l hl n ↦ hheld l hl ▸ Nat.succ_pos n
  cases c with
  | memoryRegionGet regionId peers allocated =>
      have hback : ∀ l ∈ insert .regionsLock held \ {.regionsLock}, rank l = 0 := fun l hl ↦
        hheld l ((Set.mem_insert_iff.mp hl.1).resolve_left hl.2)
      refine ⟨fun l hl ↦ .inl (hheld l hl), disciplined_dobjGet ?_ ?_ ?_ _ _⟩
      · cases allocated with
        | true => exact ⟨hback, hback⟩
        | false => exact ⟨hback, hback⟩
      · rintro l (rfl | hl)
        · decide
        · exact hlt l hl 2
      · rintro l (rfl | hl)
        · exact .inr rfl
        · exact .inl (hheld l hl)
  | mutexLock mutexId peers =>
      have hmutex : ∀ l ∈ insert (.localMutex mutexId) held, rank l = 0 := by
        rintro l (rfl | hl)
        · rfl
        · exact hheld l hl
      have hback : ∀ l ∈ insert (.lock mutexId) (insert (.localMutex mutexId) held) \
          {.lock mutexId}, rank l = 0 := fun l hl ↦
        hmutex l ((Set.mem_insert_iff.mp hl.1).resolve_left hl.2)
      exact ⟨fun l hl ↦ .inl (hheld l hl), fun l hl ↦ .inl (hmutex l hl),
        fun l hl ↦ .inl (hback l hl), hback⟩
  | mutexUnlock mutexId =>
      refine ⟨fun l hl ↦ .inl (hheld l hl), disciplined_txEnd (fun l hl ↦ ?_) fun l hl ↦ ?_⟩
      · exact hheld l ((Set.mem_insert_iff.mp hl.1.1).resolve_left hl.1.2)
      · rcases Set.mem_insert_iff.mp hl with rfl | hl
        · exact Nat.one_lt_two
        · exact hlt l hl 1
  | barrierNotify barrierId => exact disciplined_txEnd hheld fun l hl ↦ hlt l hl 1

theorem disciplined_handler (peerId : UInt32) (msg : Msg) (hheld : ∀ l ∈ held, rank l = 0) :
    (msg.prog peerId).Disciplined held := by
  have hback : ∀ lock, ∀ l ∈ insert lock held \ {lock}, rank l = 0 := fun lock l hl ↦
    hheld l ((Set.mem_insert_iff.mp hl.1).resolve_left hl.2)
  cases msg with
  | get | mutexRequest | mutexReply => exact ⟨fun l hl ↦ .inl (hheld l hl), hback _⟩
  | getReply | barrier => exact hheld
  | memory regionId pages =>
      have hlt : ∀ l ∈ held, rank l < 3 := fun l hl ↦ hheld l hl ▸ by decide
      induction pages with
      | zero => exact hheld
      | succ pages ih =>
          rw [Msg.prog, Function.iterate_succ_apply']
          exact ih.lockRegion hlt regionId

theorem linked_call (localId : UInt32) (c : Call) : (c.prog localId).Linked := by
  cases c with
  | memoryRegionGet regionId peers allocated =>
      cases allocated <;>
        simp [Call.prog, memoryRegionGet, dobjGet, Linked, Plain, wants, gets, awaits,
          Waiter.dobjId]
  | mutexLock =>
      simp [Call.prog, mutexLock, Linked, Plain, wants, gets, awaits, Waiter.dobjId, rank]
  | mutexUnlock =>
      simp [Call.prog, mutexUnlock, memoryTxEnd, Linked, Plain, wants, gets, awaits,
        Lock.mutexId]
  | barrierNotify =>
      simp [Call.prog, barrierNotify, memoryTxEnd, Linked, Plain, wants, gets, awaits]

theorem linked_handler (peerId : UInt32) (msg : Msg) : (msg.prog peerId).Linked := by
  cases msg with
  | get | mutexRequest | mutexReply | getReply | barrier =>
      simp [Msg.prog, Linked, Plain, wants, gets, awaits]
  | memory regionId pages =>
      suffices h : ∀ n, ((lockRegion regionId)^[n] done).Plain ∧
          ((lockRegion regionId)^[n] done).Linked from (h pages).2
      intro n
      induction n with
      | zero => simp [Linked, Plain, wants, gets, awaits]
      | succ n ih =>
          rw [Function.iterate_succ_apply']
          exact ⟨plain_lockRegion regionId, by simp [wants], by simp [wants], rfl, ih⟩

theorem acquires_handler {peerId : UInt32} {msg : Msg} {lock : Lock}
    (h : (msg.prog peerId).Acquires lock) : rank lock = 1 ∨ rank lock = 3 := by
  cases msg with
  | get | mutexRequest | mutexReply =>
      obtain rfl := h.resolve_right id
      simp [rank]
  | getReply | barrier => exact h.elim
  | memory regionId pages =>
      have hiterate : ∀ n, ((lockRegion regionId)^[n] done).Acquires lock →
          lock = .regionLock regionId := by
        intro n hn
        induction n with
        | zero => exact hn.elim
        | succ n ih =>
            rw [Function.iterate_succ_apply'] at hn
            exact hn.elim id ih
      exact .inr (hiterate pages h ▸ rfl)

theorem handler_start (peerId : UInt32) (msg : Msg) : (msg.prog peerId).gets = none ∧
    ∀ mutexId, (msg.prog peerId).wants = some (.lock mutexId) → mutexId ∈ msg.mutexId := by
  cases msg with
  | get | mutexRequest | mutexReply | getReply | barrier =>
      simp [Msg.prog, wants, gets, awaits, Msg.mutexId]
  | memory regionId pages =>
      cases pages with
      | zero => simp [Msg.prog, wants, gets, awaits]
      | succ n =>
          rw [Msg.prog, Function.iterate_succ_apply']
          simp [lockRegion, wants, gets, awaits]

theorem gets_call (localId : UInt32) (c : Call) : (c.prog localId).gets = none := by
  cases c with
  | memoryRegionGet | mutexLock | mutexUnlock | barrierNotify => rfl

theorem acquires_of_wants {lock : Lock} (h : p.wants = some lock) : p.Acquires lock := by
  cases p with
  | acquire lock' mode next => exact .inl (Option.some.inj h).symm
  | done | release | setWaitOn | addReply | wait | find | addObject | testAndInit | addRegion
  | forRegions => cases h

theorem Disciplined.above {lock : Lock} (h : p.Disciplined held) (hwants : p.wants = some lock) :
    ∀ l ∈ held, rank l = 0 ∨ rank l < rank lock := by
  cases p with
  | acquire lock' mode next => exact Option.some.inj hwants ▸ h.1
  | done | release | setWaitOn | addReply | wait | find | addObject | testAndInit | addRegion
  | forRegions => cases hwants

theorem Disciplined.awaiting {waiter : Waiter} (h : p.Disciplined held)
    (hawaits : p.awaits = some waiter) :
    ∀ l ∈ held, rank l = 0 ∨ l = .regionsLock ∧ waiter.dobjId.isSome := by
  cases p with
  | wait waiter' next => exact Option.some.inj hawaits ▸ h.1
  | done | acquire | release | setWaitOn | addReply | find | addObject | testAndInit | addRegion
  | forRegions => cases hawaits

/-- What remains after a step that changes no holder. -/
structure Leads (p p' : Prog) : Prop where
  linked : p.Linked → p'.Plain ∧ p'.Linked
  disciplined : ∀ held, p.Disciplined held → p'.Disciplined held
  acquires : ∀ lock, p'.Acquires lock → p.Acquires lock

end Prog

/-! ## One step of a thread -/

namespace State

variable {T : Type*} [DecidableEq T] {s s' : State T} {th u : Thread T} {p : Prog}

/-- The kinds of steps: to take or release a lock, to set a `wait_on` list, and the rest, which
changes no holder and makes no `wait_on` list longer. -/
theorem advance_cases (h : s.advance th p = some s') :
    (∃ lock mode next, p = .acquire lock mode next ∧ s.Free lock mode ∧
      s' = (s.setHolders lock ((th, mode) :: s.holders lock)).setProg th next) ∨
    (∃ lock next, p = .release lock next ∧
      s' = (s.setHolders lock ((s.holders lock).filter (·.1 ≠ th))).setProg th next) ∨
    (∃ waiter peers next, p = .setWaitOn waiter peers next ∧
      s' = (s.setWaiter waiter peers).setProg th next) ∨
    ∃ p', p.Leads p' ∧ s'.prog = Function.update s.prog th p' ∧ s'.holders = s.holders ∧
      ∀ waiter, s'.waitOn waiter ≠ [] → s.waitOn waiter ≠ [] := by
  cases p with
  | done => cases h
  | acquire lock mode next =>
      obtain ⟨hfree, h⟩ := Option.ite_none_right_eq_some.mp h
      exact .inl ⟨lock, mode, next, rfl, hfree, (Option.some.inj h).symm⟩
  | release lock next => exact .inr (.inl ⟨lock, next, rfl, (Option.some.inj h).symm⟩)
  | setWaitOn waiter peers next =>
      exact .inr (.inr (.inl ⟨waiter, peers, next, rfl, (Option.some.inj h).symm⟩))
  | addReply waiter peerId next =>
      obtain rfl := Option.some.inj h
      refine .inr (.inr (.inr ⟨next, ⟨id, fun _ ↦ id, fun _ ↦ id⟩, rfl, rfl, fun w hw ↦ ?_⟩))
      by_cases hne : w = waiter
      · subst hne
        rintro hnil
        simp [setWaiter, setProg, ReplyWaiter.addReply, hnil] at hw
      · simpa [setWaiter, setProg, hne] using hw
  | wait waiter next =>
      obtain ⟨-, h⟩ := Option.ite_none_right_eq_some.mp h
      obtain rfl := Option.some.inj h
      exact .inr (.inr (.inr ⟨next, ⟨id, fun _ h ↦ h.2, fun _ ↦ id⟩, rfl, rfl, fun _ ↦ id⟩))
  | find dobjId found missing =>
      by_cases hmem : dobjId ∈ s.objects
      · rw [advance, if_pos hmem] at h
        obtain rfl := Option.some.inj h
        exact .inr (.inr (.inr ⟨found, ⟨And.left, fun _ ↦ And.left, fun _ ↦ .inl⟩, rfl, rfl,
          fun _ ↦ id⟩))
      · rw [advance, if_neg hmem] at h
        obtain rfl := Option.some.inj h
        exact .inr (.inr (.inr ⟨missing, ⟨And.right, fun _ ↦ And.right, fun _ ↦ .inr⟩, rfl, rfl,
          fun _ ↦ id⟩))
  | addObject dobjId next | addRegion regionId next =>
      obtain rfl := Option.some.inj h
      exact .inr (.inr (.inr ⟨next, ⟨id, fun _ ↦ id, fun _ ↦ id⟩, rfl, rfl, fun _ ↦ id⟩))
  | testAndInit dobjId inited fresh =>
      rw [advance] at h
      split at h
      · obtain rfl := Option.some.inj h
        exact .inr (.inr (.inr ⟨inited, ⟨And.left, fun _ ↦ And.left, fun _ ↦ .inl⟩, rfl, rfl,
          fun _ ↦ id⟩))
      · obtain rfl := Option.some.inj h
        exact .inr (.inr (.inr ⟨fresh, ⟨And.right, fun _ ↦ And.right, fun _ ↦ .inr⟩, rfl, rfl,
          fun _ ↦ id⟩))
  | forRegions next =>
      obtain rfl := Option.some.inj h
      exact .inr (.inr (.inr ⟨_, ⟨fun h ↦ Prog.Linked.foldr h.1 h.2 s.regions,
        fun _ h ↦ Prog.Disciplined.foldr h.2 h.1 s.regions, fun _ ↦ Prog.acquires_foldr⟩, rfl, rfl,
        fun _ ↦ id⟩))

/-! ## The invariant -/

/-- Every thread keeps to the order of the locks, and the three steps have been kept apart. -/
structure Inv (s : State T) : Prop where
  disciplined : ∀ th, (s.prog th).Disciplined {lock | s.Holds th lock}
  linked : ∀ th, (s.prog th).Linked
  listener : ∀ lock, (s.prog .listener).Acquires lock → rank lock = 1 ∨ rank lock = 3
  apart : ∀ mutexId, s.taken = some mutexId → s.Unlocking mutexId → ¬s.Getting

/-- A thread goes on with `p`, and no other thread holds more than before. -/
structure Moves (s s' : State T) (th : Thread T) (p : Prog) : Prop where
  prog : s'.prog = Function.update s.prog th p
  others : ∀ u lock mode, u ≠ th → (u, mode) ∈ s'.holders lock → (u, mode) ∈ s.holders lock

namespace Moves

variable {mutexId : UInt32}

theorem self (h : Moves s s' th p) : s'.prog th = p := by
  rw [h.prog, Function.update_self]

theorem other (h : Moves s s' th p) (hu : u ≠ th) : s'.prog u = s.prog u := by
  rw [h.prog, Function.update_of_ne hu]

theorem inv (hmoves : Moves s s' th p) (h : s.Inv)
    (hdisciplined : p.Disciplined {lock | s'.Holds th lock}) (hlinked : p.Linked)
    (hlistener : th = .listener → ∀ lock, p.Acquires lock → rank lock = 1 ∨ rank lock = 3)
    (hapart : ∀ mutexId, s'.taken = some mutexId → s'.Unlocking mutexId → ¬s'.Getting) :
    s'.Inv := by
  refine ⟨fun u ↦ ?_, fun u ↦ ?_, fun lock hlock ↦ ?_, hapart⟩
  · by_cases hu : u = th
    · subst hu
      rwa [hmoves.self]
    · rw [hmoves.other hu]
      refine (h.disciplined u).mono ?_
      rintro lock ⟨mode, hmem⟩
      exact ⟨mode, hmoves.others u lock mode hu hmem⟩
  · by_cases hu : u = th
    · subst hu
      rwa [hmoves.self]
    · exact hmoves.other hu ▸ h.linked u
  · by_cases hu : Thread.listener = th
    · subst hu
      rw [hmoves.self] at hlock
      exact hlistener rfl lock hlock
    · rw [hmoves.other hu] at hlock
      exact h.listener lock hlock

theorem taken (hmoves : Moves s s' th p)
    (hp : th = .listener → ∀ mutexId, p.wants ≠ some (.lock mutexId))
    (htaken : s'.taken = some mutexId) : s.taken = some mutexId := by
  by_cases hu : Thread.listener = th
  · subst hu
    rw [State.taken, hmoves.self] at htaken
    obtain ⟨lock, hwants, hlock⟩ := Option.bind_eq_some_iff.mp htaken
    cases lock with
    | lock => exact absurd hwants (hp rfl _)
    | regionsLock | localLock | localMutex | regionLock => cases hlock
  · rwa [State.taken, hmoves.other hu] at htaken

theorem unlocking (hmoves : Moves s s' th p) (hp : p.wants ≠ some .regionsLock)
    (h : s'.Unlocking mutexId) : s.Unlocking mutexId := by
  obtain ⟨⟨u, mode⟩, hmem, hwants⟩ := h
  have hu : u ≠ th := by
    rintro rfl
    exact hp (hmoves.self ▸ hwants)
  exact ⟨(u, mode), hmoves.others u _ mode hu hmem, hmoves.other hu ▸ hwants⟩

theorem getting (hmoves : Moves s s' th p) (hp : p.gets = none)
    (hwait : ∀ dobjId, s'.waitOn (.dobj dobjId) ≠ [] → s.waitOn (.dobj dobjId) ≠ [])
    (h : s'.Getting) : s.Getting := by
  obtain ⟨⟨u, mode⟩, hmem, dobjId, hgets, hne⟩ := h
  have hu : u ≠ th := by
    rintro rfl
    rw [hmoves.self, hp] at hgets
    cases hgets
  exact ⟨(u, mode), hmoves.others u _ mode hu hmem, dobjId, hmoves.other hu ▸ hgets,
    hwait dobjId hne⟩

theorem apart (hmoves : Moves s s' th p) (h : s.Inv) (hp : p.Plain)
    (hwait : ∀ dobjId, s'.waitOn (.dobj dobjId) ≠ [] → s.waitOn (.dobj dobjId) ≠ [])
    (mutexId : UInt32) (htaken : s'.taken = some mutexId) (hunlocking : s'.Unlocking mutexId) :
    ¬s'.Getting :=
  fun hgetting ↦ h.apart mutexId (hmoves.taken (fun _ ↦ hp.2.1) htaken)
    (hmoves.unlocking hp.1 hunlocking) (hmoves.getting hp.2.2 hwait hgetting)

end Moves

theorem mem_acquire {lock l : Lock} {mode m : Mode} {next : Prog}
    (h : (u, m) ∈ ((s.setHolders lock ((th, mode) :: s.holders lock)).setProg th next).holders l) :
    (u, m) ∈ s.holders l ∨ l = lock ∧ u = th := by
  by_cases hl : l = lock
  · subst hl
    have hmem : (u, m) = (th, mode) ∨ (u, m) ∈ s.holders l := by
      simpa [setHolders, setProg] using h
    exact hmem.elim (fun heq ↦ .inr ⟨rfl, (Prod.mk.inj heq).1⟩) .inl
  · exact .inl (by simpa [setHolders, setProg, hl] using h)

theorem mem_release {lock l : Lock} {m : Mode} {next : Prog}
    (h : (u, m) ∈ ((s.setHolders lock ((s.holders lock).filter (·.1 ≠ th))).setProg th
      next).holders l) : (u, m) ∈ s.holders l ∧ ¬(l = lock ∧ u = th) := by
  by_cases hl : l = lock
  · subst hl
    have hmem : (u, m) ∈ s.holders l ∧ u ≠ th := by simpa [setHolders, setProg] using h
    exact ⟨hmem.1, fun heq ↦ hmem.2 heq.2⟩
  · exact ⟨by simpa [setHolders, setProg, hl] using h, fun heq ↦ hl heq.1⟩

omit [DecidableEq T] in
theorem Inv.acquires (h : s.Inv) (th : Thread T) (hth : th = .listener) (lock : Lock)
    (hlock : (s.prog th).Acquires lock) : rank lock = 1 ∨ rank lock = 3 := by
  subst hth
  exact h.listener lock hlock

theorem inv_acquire (h : s.Inv) {lock : Lock} {mode : Mode} {next : Prog}
    (hp : s.prog th = .acquire lock mode next) (hok : s.KeepsApart (.run th)) :
    ((s.setHolders lock ((th, mode) :: s.holders lock)).setProg th next).Inv := by
  have hmoves : Moves s ((s.setHolders lock ((th, mode) :: s.holders lock)).setProg th next) th
      next := ⟨rfl, fun u l m hu hmem ↦ (mem_acquire hmem).resolve_right fun heq ↦ hu heq.2⟩
  have hdisciplined := h.disciplined th
  have hlinked := h.linked th
  have hlistener := h.acquires th
  rw [hp] at hdisciplined hlinked hlistener
  refine hmoves.inv h (hdisciplined.2.mono ?_) hlinked.2.2.2
    (fun hth l hl ↦ hlistener hth l (.inr hl)) fun mutexId htaken hunlocking hgetting ↦ ?_
  · rintro l ⟨m, hmem⟩
    exact (mem_acquire hmem).elim (fun hold ↦ .inr ⟨m, hold⟩) fun heq ↦ .inl heq.1
  · have htaken' := hmoves.taken (fun hth m hwants ↦ by
      rcases hlistener hth lock (.inl rfl) with hone | hthree
      · exact absurd (hone.symm.trans (hlinked.2.1 m hwants)) (by decide)
      · exact absurd (hthree.symm.trans (hlinked.2.1 m hwants)) (by decide)) htaken
    have hgetting' := hmoves.getting hlinked.2.2.1 (fun _ ↦ id) hgetting
    by_cases hwants : next.wants = some .regionsLock
    · obtain ⟨⟨u, m⟩, hmem, hu⟩ := hunlocking
      rcases mem_acquire hmem with hold | ⟨rfl, rfl⟩
      · by_cases hth : u = th
        · -- The thread takes the lock of one mutex and holds that of another.
          subst hth
          obtain ⟨mutexId', hlock⟩ := Option.isSome_iff_exists.mp (hlinked.1 hwants)
          have hrank := hdisciplined.1 (.lock mutexId) ⟨m, hold⟩
          cases lock with
          | lock => simp [rank] at hrank
          | regionsLock | localLock | localMutex | regionLock => cases hlock
        · exact h.apart mutexId htaken' ⟨(u, m), hold, hmoves.other hth ▸ hu⟩ hgetting'
      · rw [KeepsApart, hp, KeepsApartNext] at hok
        exact hok mutexId rfl hwants ⟨htaken', hgetting'⟩
    · exact h.apart mutexId htaken' (hmoves.unlocking hwants hunlocking) hgetting'

theorem inv_release (h : s.Inv) {lock : Lock} {next : Prog}
    (hp : s.prog th = .release lock next) :
    ((s.setHolders lock ((s.holders lock).filter (·.1 ≠ th))).setProg th next).Inv := by
  have hmoves : Moves s ((s.setHolders lock ((s.holders lock).filter (·.1 ≠ th))).setProg th next)
      th next := ⟨rfl, fun u l m _ hmem ↦ (mem_release hmem).1⟩
  have hdisciplined := h.disciplined th
  have hlinked := h.linked th
  have hlistener := h.acquires th
  rw [hp] at hdisciplined hlinked hlistener
  have hnext : next.Disciplined ({l | s.Holds th l} \ {lock}) := hdisciplined
  refine hmoves.inv h (hnext.mono ?_) hlinked.2 hlistener (hmoves.apart h hlinked.1 fun _ ↦ id)
  rintro l ⟨m, hmem⟩
  obtain ⟨hold, hne⟩ := mem_release hmem
  exact ⟨⟨m, hold⟩, fun heq ↦ hne ⟨heq, rfl⟩⟩

theorem inv_setWaitOn (h : s.Inv) {waiter : Waiter} {peers : List UInt32} {next : Prog}
    (hp : s.prog th = .setWaitOn waiter peers next) (hok : s.KeepsApart (.run th)) :
    ((s.setWaiter waiter peers).setProg th next).Inv := by
  have hmoves : Moves s ((s.setWaiter waiter peers).setProg th next) th next :=
    ⟨rfl, fun _ _ _ _ ↦ id⟩
  have hdisciplined := h.disciplined th
  have hlinked := h.linked th
  have hlistener := h.acquires th
  rw [hp] at hdisciplined hlinked hlistener
  obtain ⟨hwants, hgets, hlinked'⟩ := hlinked
  refine hmoves.inv h hdisciplined hlinked' hlistener
    fun mutexId htaken hunlocking hgetting ↦ ?_
  have htaken' := hmoves.taken (fun _ m heq ↦ by simp [hwants] at heq) htaken
  have hunlocking' := hmoves.unlocking (by simp [hwants]) hunlocking
  obtain ⟨⟨u, m⟩, hmem, dobjId, hu, hne⟩ := hgetting
  by_cases hwaiter : waiter = .dobj dobjId
  · subst hwaiter
    have hpeers : peers ≠ [] := by simpa [setWaiter, setProg] using hne
    rw [KeepsApart, hp, KeepsApartNext] at hok
    exact hok rfl hpeers mutexId htaken' hunlocking'
  · have hne' : s.waitOn (.dobj dobjId) ≠ [] := by
      simpa [setWaiter, setProg, Ne.symm hwaiter] using hne
    have hth : u ≠ th := by
      rintro rfl
      rw [hmoves.self] at hu
      rcases hgets with hnone | heq
      · simp [hnone] at hu
      · have hid : waiter.dobjId = some dobjId := heq.symm.trans hu
        cases waiter with
        | dobj => exact hwaiter (congrArg Waiter.dobj (Option.some.inj hid))
        | mutex | barrier => cases hid
    exact h.apart mutexId htaken' hunlocking'
      ⟨(u, m), hmem, dobjId, hmoves.other hth ▸ hu, hne'⟩

theorem inv_advance (h : s.Inv) (hok : s.KeepsApart (.run th))
    (hst : s.advance th (s.prog th) = some s') : s'.Inv := by
  rcases advance_cases hst with ⟨lock, mode, next, hp, -, rfl⟩ | ⟨lock, next, hp, rfl⟩ |
    ⟨waiter, peers, next, hp, rfl⟩ | ⟨p', hleads, hprog, hholders, hwait⟩
  · exact inv_acquire h hp hok
  · exact inv_release h hp
  · exact inv_setWaitOn h hp hok
  · have hmoves : Moves s s' th p' := ⟨hprog, fun u lock mode _ hmem ↦ hholders ▸ hmem⟩
    obtain ⟨hplain, hlinked⟩ := hleads.linked (h.linked th)
    refine hmoves.inv h ?_ hlinked (fun hth lock hlock ↦ ?_) (hmoves.apart h hplain fun _ ↦ hwait _)
    · have hsame : {lock | s'.Holds th lock} = {lock | s.Holds th lock} := by
        simp only [Holds, hholders]
      exact hsame ▸ hleads.disciplined _ (h.disciplined th)
    · subst hth
      exact h.listener lock (hleads.acquires lock hlock)

theorem inv_call (h : s.Inv) {localId : UInt32} {t : T} {c : Call}
    (hdone : s.prog (.app t) = .done) : (s.setProg (.app t) (c.prog localId)).Inv := by
  have hmoves : Moves s (s.setProg (.app t) (c.prog localId)) (.app t) (c.prog localId) :=
    ⟨rfl, fun _ _ _ _ ↦ id⟩
  have hheld : ∀ lock ∈ {lock | s.Holds (.app t) lock}, rank lock = 0 := by
    have hdisciplined := h.disciplined (.app t)
    rwa [hdone] at hdisciplined
  refine hmoves.inv h (Prog.disciplined_call localId c hheld) (Prog.linked_call localId c)
    (fun heq ↦ by cases heq) fun mutexId htaken hunlocking hgetting ↦ ?_
  obtain ⟨⟨u, mode⟩, hmem, hu⟩ := hunlocking
  have hne : u ≠ .app t := by
    rintro rfl
    exact absurd (hheld (.lock mutexId) ⟨mode, hmem⟩) Nat.one_ne_zero
  exact h.apart mutexId (hmoves.taken (fun heq ↦ by cases heq) htaken)
    ⟨(u, mode), hmem, hmoves.other hne ▸ hu⟩
    (hmoves.getting (Prog.gets_call localId c) (fun _ ↦ id) hgetting)

theorem inv_take (h : s.Inv) {peerId : UInt32} {msg : Msg} (hdone : s.prog .listener = .done)
    (hok : s.KeepsApart (.take peerId msg)) : (s.setProg .listener (msg.prog peerId)).Inv := by
  have hmoves : Moves s (s.setProg .listener (msg.prog peerId)) .listener (msg.prog peerId) :=
    ⟨rfl, fun _ _ _ _ ↦ id⟩
  have hheld : ∀ lock ∈ {lock | s.Holds .listener lock}, rank lock = 0 := by
    have hdisciplined := h.disciplined .listener
    rwa [hdone] at hdisciplined
  obtain ⟨hgets, hstart⟩ := Prog.handler_start peerId msg
  refine hmoves.inv h (Prog.disciplined_handler peerId msg hheld) (Prog.linked_handler peerId msg)
    (fun _ _ ↦ Prog.acquires_handler) fun mutexId htaken hunlocking hgetting ↦ ?_
  rw [State.taken, hmoves.self] at htaken
  obtain ⟨lock, hwants, hlock⟩ := Option.bind_eq_some_iff.mp htaken
  have hregions : (msg.prog peerId).wants ≠ some .regionsLock := fun heq ↦ by
    simpa [rank] using Prog.acquires_handler (Prog.acquires_of_wants heq)
  cases lock with
  | lock =>
      obtain rfl := Option.some.inj hlock
      exact hok _ (hstart _ hwants) ⟨hmoves.unlocking hregions hunlocking,
        hmoves.getting hgets (fun _ ↦ id) hgetting⟩
  | regionsLock | localLock | localMutex | regionLock => cases hlock

theorem inv_step {localId : UInt32} {a : Action T} (h : s.Inv) (hok : s.KeepsApart a)
    (hst : step localId s a = some s') : s'.Inv := by
  cases a with
  | call t c =>
      obtain ⟨⟨hdone, -⟩, hst⟩ := Option.ite_none_right_eq_some.mp hst
      exact Option.some.inj hst ▸ inv_call h hdone
  | take peerId msg =>
      obtain ⟨hdone, hst⟩ := Option.ite_none_right_eq_some.mp hst
      exact Option.some.inj hst ▸ inv_take h hdone hok
  | run th => exact inv_advance h hok hst

theorem inv_init (localId : UInt32) : (system T localId).init.Inv where
  disciplined th l hl := by
    obtain ⟨mode, hmem⟩ := hl
    cases hmem
  linked _ := trivial
  listener _ hl := hl.elim
  apart _ htaken := by cases htaken

/-! ## Chains -/

omit [DecidableEq T] in
theorem Inv.ordered (h : s.Inv) :
    LockRank.Ordered (fun th lock ↦ (s.prog th).wants = some lock) s.Holds rank where
  one ha ha' := Option.some.inj (ha.symm.trans ha')
  above hwants hholds := (h.disciplined _).above hwants _ hholds

omit [DecidableEq T] in
theorem WaitsFor.lock {a b : Thread T} (h : s.WaitsFor a b) :
    LockRank.WaitsFor (fun th lock ↦ (s.prog th).wants = some lock) s.Holds a b := by
  obtain ⟨lock, mode, next, mode', hprog, hmem, -⟩ := h
  exact ⟨lock, congrArg Prog.wants hprog, mode', hmem⟩

omit [DecidableEq T] in
/-- The only chain leads from the lock of a mutex over `regionsLock` to a thread that gets a
region. -/
theorem Inv.exists_of_deadlocked (h : s.Inv) (hdead : s.Deadlocked) :
    ∃ mutexId, s.taken = some mutexId ∧ s.Unlocking mutexId ∧ s.Getting := by
  obtain ⟨th, hchain, waiter, hawaits, hne⟩ := hdead
  -- What the thread at the end holds is `regionsLock` or a mutex.
  have hend : ∀ l, s.Holds th l → rank l = 0 ∨ l = .regionsLock ∧ waiter.dobjId.isSome :=
    (h.disciplined th).awaiting hawaits
  have hlocks := TransGen.mono (fun _ _ ↦ WaitsFor.lock) _ _ hchain
  obtain ⟨b, ⟨lock, hwants, hholds⟩, hrest⟩ := Relation.TransGen.head'_iff.mp hlocks
  have hlistener := h.listener lock (Prog.acquires_of_wants hwants)
  have hpos : 0 < rank lock := by omega
  have hregions : ∀ {c : Thread T} {l : Lock}, (s.prog c).wants = some l → 0 < rank l →
      TransGen (LockRank.WaitsFor (fun th lock ↦ (s.prog th).wants = some lock) s.Holds) c th →
      (l = .regionsLock ∨ rank l < 2) ∧ s.Holds th .regionsLock ∧ waiter.dobjId.isSome := by
    intro c l hl hrank htrans
    obtain ⟨l', hl', heq | hlt⟩ := h.ordered.held_of_chain htrans hl hrank
    · rcases hend l' hl' with hzero | ⟨rfl, hdobj⟩
      · exact absurd (heq ▸ hzero) hrank.ne'
      · exact ⟨.inl heq.symm, hl', hdobj⟩
    · rcases hend l' hl' with hzero | ⟨rfl, hdobj⟩
      · omega
      · exact ⟨.inr hlt, hl', hdobj⟩
  obtain ⟨hlock, ⟨mode, hmem⟩, hdobj⟩ := hregions hwants hpos hlocks
  have hgetting : s.Getting := by
    cases waiter with
    | dobj dobjId =>
        refine ⟨(th, mode), hmem, dobjId, ?_, hne⟩
        simp [Prog.gets, hawaits, Waiter.dobjId]
    | mutex | barrier => cases hdobj
  cases lock with
  | lock mutexId =>
      refine ⟨mutexId, by simp [taken, hwants, Lock.mutexId], ?_, hgetting⟩
      obtain ⟨mode', hmem'⟩ := hholds
      rcases Relation.reflTransGen_iff_eq_or_transGen.mp hrest with rfl | htrans
      · rcases hend _ ⟨mode', hmem'⟩ with hzero | ⟨heq, -⟩
        · cases hzero
        · cases heq
      · obtain ⟨-, ⟨l, hl, -⟩, -⟩ := Relation.TransGen.head'_iff.mp htrans
        have habove : rank (.lock mutexId) < rank l :=
          ((h.disciplined b).above hl _ ⟨mode', hmem'⟩).resolve_left Nat.one_ne_zero
        have hone : 1 < rank l := habove
        rcases (hregions hl (by omega) htrans).1 with rfl | hlt
        · exact ⟨(b, mode'), hmem', hl⟩
        · omega
  | regionsLock | localMutex => simp [rank] at hlistener
  | localLock | regionLock =>
      rcases hlock with heq | hlt
      · cases heq
      · simp [rank] at hlt

end State

/-- While the three steps are kept apart, the listener waits neither for a thread that needs a
message nor for itself. -/
theorem not_deadlocked {T : Type*} [DecidableEq T] {localId : UInt32} {s : State T}
    (h : (system T localId).Reach State.KeepsApart s) :
    ¬s.Deadlocked ∧ ¬TransGen s.WaitsFor .listener .listener := by
  have hinv : s.Inv := h.invariant State.Inv (State.inv_init localId)
    fun _ hs hok hst ↦ State.inv_step hs hok hst
  refine ⟨fun hdead ↦ ?_, fun hcycle ↦ ?_⟩
  · obtain ⟨mutexId, htaken, hunlocking, hgetting⟩ := hinv.exists_of_deadlocked hdead
    exact hinv.apart mutexId htaken hunlocking hgetting
  · have hlocks := TransGen.mono (fun _ _ ↦ State.WaitsFor.lock) _ _ hcycle
    obtain ⟨b, ⟨lock, hwants, -⟩, -⟩ := Relation.TransGen.head'_iff.mp hlocks
    have hlistener := hinv.listener lock (Prog.acquires_of_wants hwants)
    exact hinv.ordered.irrefl_of_pos hwants (by omega) hlocks

instance {T : Type*} (s : State T) (mutexId : UInt32) : Decidable (s.Unlocking mutexId) :=
  inferInstanceAs (Decidable (∃ h ∈ s.holders (.lock mutexId), _))

instance {T : Type*} (s : State T) : Decidable s.Getting :=
  inferInstanceAs (Decidable (∃ h ∈ s.holders .regionsLock, ∃ dobjId ∈ (s.prog h.1).gets, _))

instance {T : Type*} (s : State T) : (p : Prog) → Decidable (s.KeepsApartNext p)
  | .acquire lock _ _ => Option.decidableForallMem lock.mutexId
  | .setWaitOn waiter peers _ =>
      inferInstanceAs (Decidable (waiter.dobjId.isSome → peers ≠ [] → ∀ mutexId ∈ s.taken, _))
  | .done | .release .. | .addReply .. | .wait .. | .find .. | .addObject .. | .testAndInit ..
  | .addRegion .. | .forRegions _ => .isTrue trivial

instance {T : Type*} (s : State T) : (a : Action T) → Decidable (s.KeepsApart a)
  | .call .. => .isTrue trivial
  | .take _ msg => Option.decidableForallMem msg.mutexId
  | .run th => inferInstanceAs (Decidable (s.KeepsApartNext (s.prog th)))

/-- Thread 0 locks mutex 3 and gets the reply of node 2. -/
def locked : List (Action (Fin 2)) :=
  [.call 0 (.mutexLock 3 [2]), .run (.app 0), .run (.app 0), .run (.app 0), .run (.app 0),
    .take 2 (.mutexReply 3), .run .listener, .run .listener, .run .listener, .run (.app 0)]

/-- Thread 1 gets region 5 and waits for the reply of node 2. -/
def getting : List (Action (Fin 2)) :=
  [.call 1 (.memoryRegionGet 5 [2] true), .run (.app 1), .run (.app 1), .run (.app 1),
    .run (.app 1), .run (.app 1), .run (.app 1)]

/-- Thread 0 unlocks the mutex, and the listener takes a request for it. -/
def unlocking : List (Action (Fin 2)) :=
  [.call 0 (.mutexUnlock 3), .run (.app 0), .take 2 (.mutexRequest 3)]

/-- The request waits for the unlocking thread, which nobody keeps from `regionsLock`. -/
theorem not_deadlocked_unlocking : ∃ s, (system (Fin 2) 1).Reach State.KeepsApart s ∧
    s.WaitsFor .listener (.app 0) ∧ ¬s.Deadlocked := by
  obtain ⟨s, hs, hend⟩ := (system (Fin 2) 1).exists_reach_of_exec State.KeepsApart
    (locked ++ unlocking)
    (fun s ↦ s.prog .listener == .acquire (.lock 3) .write (.release (.lock 3) .done) &&
      s.holders (.lock 3) == [(.app 0, .write)])
    (by decide +kernel)
  obtain ⟨hprog, hholders⟩ : s.prog .listener =
      .acquire (.lock 3) .write (.release (.lock 3) .done) ∧
      s.holders (.lock 3) = [(.app 0, .write)] := by simpa using hend
  exact ⟨s, hs, ⟨.lock 3, .write, _, .write, hprog, by simp [hholders], by simp⟩,
    (not_deadlocked hs).1⟩

/-- The listener waits for the unlocking thread, that thread for the one that gets a region, and
this one for a message. -/
theorem deadlocked : ∃ s, (system (Fin 2) 1).Reachable s ∧ s.Deadlocked := by
  obtain ⟨s, hs, hend⟩ := (system (Fin 2) 1).exists_reach_of_exec LabelledSystem.anyStep
    (locked ++ getting ++ unlocking)
    (fun s ↦ s.prog .listener == .acquire (.lock 3) .write (.release (.lock 3) .done) &&
      s.holders (.lock 3) == [(.app 0, .write)] &&
      s.prog (.app 0) == memoryTxEnd (.release (.lock 3) (.release (.localMutex 3) .done)) &&
      s.holders .regionsLock == [(.app 1, .write)] &&
      (s.prog (.app 1)).awaits == some (.dobj 5) && s.waitOn (.dobj 5) == [2])
    (by decide +kernel)
  obtain ⟨⟨⟨⟨⟨hlistener, hlock⟩, hunlocking⟩, hregions⟩, hawaits⟩, hwait⟩ :
      ((((s.prog .listener = .acquire (.lock 3) .write (.release (.lock 3) .done) ∧
        s.holders (.lock 3) = [(.app 0, .write)]) ∧
        s.prog (.app 0) = memoryTxEnd (.release (.lock 3) (.release (.localMutex 3) .done))) ∧
        s.holders .regionsLock = [(.app 1, .write)]) ∧
        (s.prog (.app 1)).awaits = some (.dobj 5)) ∧ s.waitOn (.dobj 5) = [2] := by
    simpa using hend
  have hfirst : s.WaitsFor .listener (.app 0) :=
    ⟨.lock 3, .write, _, .write, hlistener, by simp [hlock], by simp⟩
  have hsecond : s.WaitsFor (.app 0) (.app 1) :=
    ⟨.regionsLock, .read, _, .write, hunlocking, by simp [hregions], by simp⟩
  exact ⟨s, hs, .app 1, .tail (.single hfirst) hsecond, .dobj 5, hawaits, by simp [hwait]⟩

end Edsm.Locks
