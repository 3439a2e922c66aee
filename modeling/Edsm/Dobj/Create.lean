import Edsm.Mutex.Turns

/-!
# Object ids

`edsm_dobj_create` takes the next id of a counter that every node keeps a copy
of: it increments its copy under `object_lock`, broadcasts the new value, and
reads the copy once more after the lock is released.
-/

namespace Edsm.Dobj

/-- Where a thread stands in `edsm_dobj_create`. -/
inductive CreatePc
  | idle
  /-- It is inside `edsm_mutex_lock`. -/
  | locking
  | locked
  | incremented
  /-- The `CREATE` message holds `id` and has not been sent. -/
  | written (id : UInt32)
  | sent
  /-- It is inside `edsm_mutex_unlock` and has released the distributed mutex. -/
  | unlocking
  /-- `edsm_mutex_unlock` has returned; the return value has not been read. -/
  | unlocked
  deriving DecidableEq, Repr

namespace CreatePc

/-- The calls of the mutex in the order of `edsm_dobj_create`. -/
def afterLock {T : Type*} : CreatePc → Mutex.ThreadAction T → Option CreatePc
  | .idle, .acquire _ => some .locking
  | .locking, .request _ => some .locking
  | .locking, .enter _ => some .locked
  | .sent, .unlock _ => some .unlocking
  | .unlocking, .release _ => some .unlocked
  | _, _ => none

/-- The call has incremented the counter and has not sent the new value. -/
def Unsent : CreatePc → Prop
  | .incremented | .written _ => True
  | _ => False

/-- The call holds an id it has not returned yet. -/
def Pending : CreatePc → Prop
  | .idle | .locking | .locked => False
  | .incremented | .written _ | .sent | .unlocking | .unlocked => True

/-- The call has given up `object_lock` and still has to read its return value. -/
def Exposed : CreatePc → Prop
  | .unlocking | .unlocked => True
  | _ => False

instance : (pc : CreatePc) → Decidable pc.Exposed
  | .unlocking | .unlocked => inferInstanceAs (Decidable True)
  | .idle | .locking | .locked | .incremented | .written _ | .sent =>
      inferInstanceAs (Decidable False)

/-- Where the same thread stands in its lock cycle. -/
def Agrees : CreatePc → Mutex.Pc → Prop
  | .idle, pc | .unlocked, pc => pc = .outside
  | .locking, pc => pc = .locking ∨ pc = .waiting
  | .locked, pc | .incremented, pc | .written _, pc | .sent, pc => pc = .critical
  | .unlocking, pc => pc = .unlocking

end CreatePc

structure CreateState (T : Type*) where
  objectLock : Mutex.State T UInt32
  /-- `_max_obj_id` of each node. -/
  maxObjId : UInt32 → UInt32
  pc : UInt32 → T → CreatePc
  /-- The ids that calls anywhere in the group have returned. -/
  returned : List UInt32
  /-- The number of increments so far; no function reads it. -/
  issued : ℕ

inductive CreateAction (T : Type*)
  /-- A step of `edsm_mutex_lock` or `edsm_mutex_unlock`. -/
  | lock (p : UInt32) (a : Mutex.ThreadAction T)
  | increment (p : UInt32) (t : T)
  | write (p : UInt32) (t : T)
  | send (p : UInt32) (t : T)
  | leave (p : UInt32) (t : T)
  | deliver (q p : UInt32)

/-- `edsm_dobj_handle_create`: the counter is overwritten. -/
def handleCreate (_maxObjId id : UInt32) : UInt32 := id

variable {T : Type*} [DecidableEq T]

namespace CreateState

def setPc (s : CreateState T) (p : UInt32) (t : T) (pc : CreatePc) : CreateState T :=
  { s with pc := Function.update s.pc p (Function.update (s.pc p) t pc) }

/-- The counter of `p` after its listener has taken the first of these frames. -/
def counterAfter (s : CreateState T) (p : UInt32) : List (Mutex.Frame UInt32) → UInt32
  | .data id :: _ => handleCreate (s.maxObjId p) id
  | _ => s.maxObjId p

end CreateState

def createStep (G : Group) (s : CreateState T) : CreateAction T → Option (CreateState T)
  | .lock p a =>
      ((s.pc p a.thread).afterLock a).bind fun pc ↦
        (Mutex.step G s.objectLock (.thread p a)).map fun lock ↦
          { s.setPc p a.thread pc with objectLock := lock }
  | .increment p t =>
      if s.pc p t = .locked then
        some { s.setPc p t .incremented with
          maxObjId := Function.update s.maxObjId p (s.maxObjId p + 1)
          issued := s.issued + 1 }
      else none
  | .write p t =>
      if s.pc p t = .incremented then some (s.setPc p t (.written (s.maxObjId p))) else none
  | .send p t =>
      match s.pc p t with
      | .written id =>
          (Mutex.step G s.objectLock (.publish p t id)).map fun lock ↦
            { s.setPc p t .sent with objectLock := lock }
      | _ => none
  | .leave p t =>
      if s.pc p t = .unlocked then
        some { s.setPc p t .idle with returned := s.returned ++ [s.maxObjId p] }
      else none
  | .deliver q p =>
      (Mutex.step G s.objectLock (.deliver q p)).map fun lock ↦
        { s with
          objectLock := lock
          maxObjId := Function.update s.maxObjId p (s.counterAfter p (s.objectLock.net q p)) }

/-- `edsm_dobj_init` has returned on every node and no object exists. -/
def createSystem (T : Type*) [DecidableEq T] (G : Group) :
    LabelledSystem (CreateState T) (CreateAction T) where
  init := {
    objectLock := (Mutex.system T UInt32 G).init
    maxObjId := fun _ ↦ 0
    pc := fun _ _ ↦ .idle
    returned := []
    issued := 0 }
  step := createStep G

/-! ## Conditions on the steps -/

/-- `object_lock` excludes. -/
def LockExcludes (G : Group) (s : CreateState T) : CreateAction T → Prop
  | .lock p a => Mutex.Excludes G s.objectLock (.thread p a)
  | _ => True

/-- A reply that a node counts has no `CREATE` of its sender behind it, and a `CREATE` is sent
only while every other node with an open request still waits for its sender. -/
def CreatesFirst (G : Group) (s : CreateState T) : CreateAction T → Prop
  | .send p _ => Mutex.Awaited G s.objectLock p
  | .deliver q p => Mutex.CountsLast s.objectLock (.deliver q p)
  | _ => True

/-- Whoever enters knows the ids of all turns before. -/
def LockTurns (G : Group) (s : CreateState T) (a : CreateAction T) : Prop :=
  LockExcludes G s a ∧ CreatesFirst G s a

instance [Fintype T] (G : Group) (s : CreateState T) :
    (a : CreateAction T) → Decidable (LockExcludes G s a)
  | .lock _ _ => inferInstanceAs (Decidable (Mutex.Excludes G s.objectLock _))
  | .increment _ _ | .write _ _ | .send _ _ | .leave _ _ | .deliver _ _ =>
      inferInstanceAs (Decidable True)

instance (G : Group) (s : CreateState T) : (a : CreateAction T) → Decidable (CreatesFirst G s a)
  | .send _ _ => inferInstanceAs (Decidable (Mutex.Awaited G s.objectLock _))
  | .deliver q p => inferInstanceAs (Decidable (Mutex.CountsLast s.objectLock (.deliver q p)))
  | .lock _ _ | .increment _ _ | .write _ _ | .leave _ _ => inferInstanceAs (Decidable True)

instance [Fintype T] (G : Group) (s : CreateState T) (a : CreateAction T) :
    Decidable (LockTurns G s a) :=
  inferInstanceAs (Decidable (_ ∧ _))

/-- No call on `p` still has to read its return value. -/
def Settled (s : CreateState T) (p : UInt32) : Prop := ∀ t, ¬ (s.pc p t).Exposed

instance [Fintype T] (s : CreateState T) (p : UInt32) : Decidable (Settled s p) :=
  inferInstanceAs (Decidable (∀ _, _))

/-- If the first of these frames is a `CREATE`, it does not lower the counter of `p`. -/
def RaisesCounter (s : CreateState T) (p : UInt32) : List (Mutex.Frame UInt32) → Prop
  | .data id :: _ => Settled s p ∧ s.maxObjId p ≤ id
  | _ => True

/-- The counter of a node is neither lowered nor wrapped, and it changes only while
no call on the node still has to read its return value. -/
def KeepsIds (s : CreateState T) : CreateAction T → Prop
  | .increment p _ => Settled s p ∧ (s.maxObjId p).toNat + 1 < 2 ^ 32
  | .deliver q p => RaisesCounter s p (s.objectLock.net q p)
  | _ => True

instance [Fintype T] (s : CreateState T) (p : UInt32) :
    (frames : List (Mutex.Frame UInt32)) → Decidable (RaisesCounter s p frames)
  | .data _ :: _ => inferInstanceAs (Decidable (_ ∧ _))
  | .mutex _ :: _ | [] => inferInstanceAs (Decidable True)

instance [Fintype T] (s : CreateState T) : (a : CreateAction T) → Decidable (KeepsIds s a)
  | .increment _ _ => inferInstanceAs (Decidable (_ ∧ _))
  | .deliver _ _ => inferInstanceAs (Decidable (RaisesCounter _ _ _))
  | .lock _ _ | .write _ _ | .send _ _ | .leave _ _ => inferInstanceAs (Decidable True)

/-! ## The invariant -/

structure IssueInv (G : Group) (s : CreateState T) : Prop where
  agrees : ∀ p t, (s.pc p t).Agrees ((s.objectLock.node p).pc t)
  member : ∀ p t, s.pc p t ≠ .idle → p ∈ G.ids
  written : ∀ p t id, s.pc p t = .written id → id = s.maxObjId p
  issued_lt : s.issued < 2 ^ 32
  counter_le : ∀ p, (s.maxObjId p).toNat ≤ s.issued
  inFlight_le : ∀ q p, ∀ id ∈ s.objectLock.inFlight q p, id.toNat ≤ s.issued
  /-- A node knows the last id, or is about to be told. -/
  latest : ∀ p ∈ G.ids, (s.maxObjId p).toNat = s.issued ∨
    (∃ q ∈ G.ids, ∃ id ∈ s.objectLock.inFlight q p, id.toNat = s.issued) ∨
    ∃ q t, q ≠ p ∧ (s.pc q t).Unsent
  unsent : ∀ p t, (s.pc p t).Unsent → (s.maxObjId p).toNat = s.issued
  alone : ∀ p t u, (s.pc p t).Pending → (s.pc p u).Pending → t = u
  distinct : ∀ p q t u, p ≠ q → (s.pc p t).Pending → (s.pc q u).Pending →
    s.maxObjId p ≠ s.maxObjId q
  pending : ∀ p t, (s.pc p t).Pending → 0 < (s.maxObjId p).toNat ∧ s.maxObjId p ∉ s.returned
  returned : ∀ id ∈ s.returned, 0 < id.toNat ∧ id.toNat ≤ s.issued
  nodup : s.returned.Nodup

section Step

variable {G : Group} {s s' : CreateState T} {p q : UInt32} {t u : T}

theorem CreatePc.pending_of_unsent {pc : CreatePc} (h : pc.Unsent) : pc.Pending := by
  cases pc <;> simp_all [CreatePc.Unsent, CreatePc.Pending]

theorem CreatePc.critical_of_unsent {pc : CreatePc} {mpc : Mutex.Pc} (h : pc.Unsent)
    (ha : pc.Agrees mpc) : mpc = .critical := by
  cases pc <;> simp_all [CreatePc.Unsent, CreatePc.Agrees]

/-- A pending call is exposed or still holds `object_lock`. -/
theorem CreatePc.critical_of_pending {pc : CreatePc} {mpc : Mutex.Pc} (h : pc.Pending)
    (hexposed : ¬ pc.Exposed) (ha : pc.Agrees mpc) : mpc = .critical := by
  cases pc <;> simp_all [CreatePc.Pending, CreatePc.Exposed, CreatePc.Agrees]

theorem setPc_pc (p : UInt32) (t : T) (pc : CreatePc) (x : UInt32) (u : T) :
    (s.setPc p t pc).pc x u = if x = p ∧ u = t then pc else s.pc x u := by
  unfold CreateState.setPc
  by_cases hx : x = p
  · subst hx
    simp [Function.update_apply]
  · simp [hx]

/-- What holds of every thread still does after one of them has moved. -/
theorem forall_setPc (P : UInt32 → T → CreatePc → Prop) {pc : CreatePc} (hnew : P p t pc)
    (hold : ∀ x u, P x u (s.pc x u)) (x : UInt32) (u : T) : P x u ((s.setPc p t pc).pc x u) := by
  rw [setPc_pc]
  split
  · next hxu =>
      obtain ⟨rfl, rfl⟩ := hxu
      exact hnew
  · exact hold x u

theorem send_eq_some (h : createStep G s (.send p t) = some s') :
    ∃ id lock, s.pc p t = .written id ∧ Mutex.step G s.objectLock (.publish p t id) = some lock ∧
      s' = { s.setPc p t .sent with objectLock := lock } := by
  cases hpc : s.pc p t with
  | written id =>
      obtain ⟨lock, hlock, rfl⟩ := by simpa [createStep, hpc] using h
      exact ⟨id, lock, rfl, hlock, rfl⟩
  | _ => simp [createStep, hpc] at h

omit [DecidableEq T] in
/-- What a step of the lock calls does to the position of the thread. -/
theorem afterLock_eq_some {pc pc' : CreatePc} {a : Mutex.ThreadAction T}
    (h : pc.afterLock a = some pc') :
    pc'.Agrees a.target ∧ (pc'.Pending ↔ pc.Pending) ∧ (¬ pc'.Unsent ∧ ¬ pc.Unsent) ∧
      (∀ id, pc' ≠ .written id) := by
  cases pc <;> cases a <;> simp [CreatePc.afterLock] at h <;> subst h <;>
  simp [CreatePc.Agrees, CreatePc.Pending, CreatePc.Unsent, Mutex.ThreadAction.target]

omit [DecidableEq T] in
/-- A step that leaves the counters, the `CREATE` messages and the ids held alone. -/
theorem IssueInv.of_eq (h : IssueInv G s)
    (hagrees : ∀ p t, (s'.pc p t).Agrees ((s'.objectLock.node p).pc t))
    (hmember : ∀ p t, s'.pc p t ≠ .idle → p ∈ G.ids)
    (hwritten : ∀ p t id, s'.pc p t = .written id → id = s'.maxObjId p)
    (hpending : ∀ p t, (s'.pc p t).Pending ↔ (s.pc p t).Pending)
    (hunsent : ∀ p t, (s'.pc p t).Unsent ↔ (s.pc p t).Unsent)
    (hinFlight : s'.objectLock.inFlight = s.objectLock.inFlight)
    (hmax : s'.maxObjId = s.maxObjId) (hreturned : s'.returned = s.returned)
    (hissued : s'.issued = s.issued) : IssueInv G s' where
  agrees := hagrees
  member := hmember
  written := hwritten
  issued_lt := hissued ▸ h.issued_lt
  counter_le p := by
    rw [hmax, hissued]
    exact h.counter_le p
  inFlight_le q p id hid := by
    rw [hissued]
    exact h.inFlight_le q p id (hinFlight ▸ hid)
  latest p hp := by
    simp only [hmax, hissued, hinFlight, hunsent]
    exact h.latest p hp
  unsent p t ht := by
    rw [hmax, hissued]
    exact h.unsent p t ((hunsent p t).mp ht)
  alone p t u ht hu := h.alone p t u ((hpending p t).mp ht) ((hpending p u).mp hu)
  distinct p q t u hpq ht hu := by
    rw [hmax]
    exact h.distinct p q t u hpq ((hpending p t).mp ht) ((hpending q u).mp hu)
  pending p t ht := by
    rw [hmax, hreturned]
    exact h.pending p t ((hpending p t).mp ht)
  returned id hid := by
    rw [hissued]
    exact h.returned id (hreturned ▸ hid)
  nodup := hreturned ▸ h.nodup

theorem IssueInv.lock (hwf : Mutex.WellFormed G s.objectLock) (h : IssueInv G s)
    {a : Mutex.ThreadAction T} (hst : createStep G s (.lock p a) = some s') : IssueInv G s' := by
  obtain ⟨pc, hpc, lock, hlock, rfl⟩ := by
    simpa [createStep, Option.bind_eq_some_iff] using hst
  obtain ⟨hagrees, hpending, hunsent, hwritten⟩ := afterLock_eq_some hpc
  refine h.of_eq (fun x u ↦ ?_)
    (forall_setPc (fun x _ pc ↦ pc ≠ .idle → x ∈ G.ids) (fun _ ↦ (Mutex.pc_source hlock).1)
      h.member)
    (forall_setPc (fun x _ pc ↦ ∀ id, pc = .written id → id = s.maxObjId x)
      (fun id hid ↦ absurd hid (hwritten id)) h.written)
    (forall_setPc (fun x u pc ↦ pc.Pending ↔ (s.pc x u).Pending) hpending fun _ _ ↦ .rfl)
    (forall_setPc (fun x u pc ↦ pc.Unsent ↔ (s.pc x u).Unsent) (by simp [hunsent]) fun _ _ ↦ .rfl)
    (Mutex.inFlight_thread hwf hlock) rfl rfl rfl
  change ((s.setPc p a.thread pc).pc x u).Agrees ((lock.node x).pc u)
  rw [setPc_pc, Mutex.pc_thread hlock]
  split
  · exact hagrees
  · exact h.agrees x u

omit [DecidableEq T] in
/-- No other call of the group is between the increment and the return of its lock. -/
theorem IssueInv.pending_eq (h : IssueInv G s) (hex : Mutex.Exclusive G s.objectLock)
    (hsettled : Settled s p) (ht : (s.objectLock.node p).pc t = .critical) (hp : p ∈ G.ids)
    (hu : (s.pc p u).Pending) : u = t :=
  (hex p hp p hp u t (CreatePc.critical_of_pending hu (hsettled u) (h.agrees p u)) ht).2

omit [DecidableEq T] in
theorem IssueInv.unsent_eq (h : IssueInv G s) (hex : Mutex.Exclusive G s.objectLock)
    (ht : (s.objectLock.node p).pc t = .critical) (hp : p ∈ G.ids)
    (hu : (s.pc q u).Unsent) : q = p ∧ u = t := by
  have hne : s.pc q u ≠ .idle := by
    intro hidle
    simp [hidle, CreatePc.Unsent] at hu
  exact hex q (h.member q u hne) p hp u t (CreatePc.critical_of_unsent hu (h.agrees q u)) ht

omit [DecidableEq T] in
/-- The holder of `object_lock` knows the last id before it increments. -/
theorem IssueInv.counter_eq (h : IssueInv G s) (hex : Mutex.Exclusive G s.objectLock)
    (hnil : ∀ q ∈ G.ids, s.objectLock.inFlight q p = [])
    (ht : (s.objectLock.node p).pc t = .critical) (hp : p ∈ G.ids) :
    (s.maxObjId p).toNat = s.issued := by
  rcases h.latest p hp with heq | ⟨q, hq, id, hid, -⟩ | ⟨q, u, hqp, hu⟩
  · exact heq
  · simp [hnil q hq] at hid
  · exact absurd (h.unsent_eq hex ht hp hu).1 hqp

theorem IssueInv.increment (h : IssueInv G s) (hex : Mutex.Exclusive G s.objectLock)
    (hnil : ∀ u, (s.objectLock.node p).pc u = .critical →
      ∀ q ∈ G.ids, s.objectLock.inFlight q p = [])
    (hkeeps : KeepsIds s (.increment p t)) (hst : createStep G s (.increment p t) = some s') :
    IssueInv G s' := by
  obtain ⟨hlocked, rfl⟩ := by simpa [createStep] using hst
  obtain ⟨hsettled, hfits⟩ := hkeeps
  have hp : p ∈ G.ids := h.member p t (by simp [hlocked])
  have ht : (s.objectLock.node p).pc t = .critical := by
    simpa [hlocked, CreatePc.Agrees] using h.agrees p t
  have hcounter := h.counter_eq hex (hnil t ht) ht hp
  have hnext : (s.maxObjId p + 1).toNat = s.issued + 1 := by
    rw [UInt32.toNat_add, UInt32.toNat_one]
    omega
  have hothers : ∀ {x}, x ≠ p → Function.update s.maxObjId p (s.maxObjId p + 1) x =
      s.maxObjId x := fun hx ↦ by simp [hx]
  have hnew : Function.update s.maxObjId p (s.maxObjId p + 1) p = s.maxObjId p + 1 := by simp
  -- apart from `t`, what is pending now was pending on another node
  have hpending : ∀ {x u}, ((s.setPc p t .incremented).pc x u).Pending →
      (x = p ∧ u = t) ∨ (x ≠ p ∧ (s.pc x u).Pending) := by
    intro x u hu
    rw [setPc_pc] at hu
    split at hu
    · next hxu => exact .inl hxu
    · next hxu =>
        by_cases hx : x = p
        · subst hx
          exact absurd ⟨rfl, h.pending_eq hex hsettled ht hp hu⟩ hxu
        · exact .inr ⟨hx, hu⟩
  have hunsent : ∀ {x u}, ((s.setPc p t .incremented).pc x u).Unsent → x = p ∧ u = t := by
    intro x u hu
    rw [setPc_pc] at hu
    split at hu
    · next hxu => exact hxu
    · exact h.unsent_eq hex ht hp hu
  refine ⟨forall_setPc (fun x u pc ↦ pc.Agrees ((s.objectLock.node x).pc u)) ht h.agrees,
    forall_setPc (fun x _ pc ↦ pc ≠ .idle → x ∈ G.ids) (fun _ ↦ hp) h.member,
    fun x u id hid ↦ ?_, ?_, fun x ↦ ?_,
    fun q x id hid ↦ (h.inFlight_le q x id hid).trans (Nat.le_succ _), fun x hx ↦ ?_,
    fun x u hu ↦ ?_, fun x u v hu hv ↦ ?_, fun x y u v hxy hu hv ↦ ?_, fun x u hu ↦ ?_,
    fun id hid ↦ ?_, h.nodup⟩
  · change (s.setPc p t .incremented).pc x u = .written id at hid
    have hxu := hunsent (x := x) (u := u) (by simp [hid, CreatePc.Unsent])
    simp [setPc_pc, hxu] at hid
  · change s.issued + 1 < 2 ^ 32
    omega
  · change (Function.update s.maxObjId p (s.maxObjId p + 1) x).toNat ≤ s.issued + 1
    by_cases hx : x = p
    · rw [hx, hnew, hnext]
    · rw [hothers hx]
      exact (h.counter_le x).trans (Nat.le_succ _)
  · by_cases hxp : x = p
    · refine .inl ?_
      subst hxp
      simpa using hnext
    · exact .inr (.inr ⟨p, t, Ne.symm hxp, by simp [setPc_pc, CreatePc.Unsent]⟩)
  · rw [(hunsent hu).1]
    simpa using hnext
  · rcases hpending hu with ⟨rfl, rfl⟩ | ⟨hx, hu⟩
    · exact ((hpending hv).resolve_right fun hc ↦ hc.1 rfl).2.symm
    · rcases hpending hv with ⟨hx', -⟩ | ⟨-, hv⟩
      · exact absurd hx' hx
      · exact h.alone x u v hu hv
  · change Function.update s.maxObjId p (s.maxObjId p + 1) x ≠
      Function.update s.maxObjId p (s.maxObjId p + 1) y
    have hgt : ∀ z, s.maxObjId p + 1 ≠ s.maxObjId z := by
      intro z heq
      have hle := h.counter_le z
      rw [← heq, hnext] at hle
      omega
    rcases hpending hu with ⟨rfl, rfl⟩ | ⟨hx, hu⟩
    · rw [hnew, hothers (Ne.symm hxy)]
      exact hgt y
    · rcases hpending hv with ⟨rfl, rfl⟩ | ⟨hy, hv⟩
      · rw [hnew, hothers hx]
        exact (hgt x).symm
      · rw [hothers hx, hothers hy]
        exact h.distinct x y u v hxy hu hv
  · change 0 < (Function.update s.maxObjId p (s.maxObjId p + 1) x).toNat ∧
      Function.update s.maxObjId p (s.maxObjId p + 1) x ∉ s.returned
    rcases hpending hu with ⟨rfl, rfl⟩ | ⟨hx, hu⟩
    · rw [hnew, hnext]
      refine ⟨Nat.succ_pos _, fun hmem ↦ ?_⟩
      have hle := (h.returned _ hmem).2
      omega
    · rw [hothers hx]
      exact h.pending x u hu
  · have hid := h.returned id hid
    exact ⟨hid.1, hid.2.trans (Nat.le_succ _)⟩

theorem IssueInv.write (h : IssueInv G s) (hst : createStep G s (.write p t) = some s') :
    IssueInv G s' := by
  obtain ⟨hpc, rfl⟩ := by simpa [createStep] using hst
  have ht : (s.objectLock.node p).pc t = .critical := by
    simpa [hpc, CreatePc.Agrees] using h.agrees p t
  exact h.of_eq (forall_setPc (fun x u pc ↦ pc.Agrees ((s.objectLock.node x).pc u)) ht h.agrees)
    (forall_setPc (fun x _ pc ↦ pc ≠ .idle → x ∈ G.ids) (fun _ ↦ h.member p t (by simp [hpc]))
      h.member)
    (forall_setPc (fun x _ pc ↦ ∀ id, pc = .written id → id = s.maxObjId x)
      (fun id hid ↦ (CreatePc.written.inj hid).symm) h.written)
    (forall_setPc (fun x u pc ↦ pc.Pending ↔ (s.pc x u).Pending)
      (by simp [hpc, CreatePc.Pending]) fun _ _ ↦ .rfl)
    (forall_setPc (fun x u pc ↦ pc.Unsent ↔ (s.pc x u).Unsent)
      (by simp [hpc, CreatePc.Unsent]) fun _ _ ↦ .rfl) rfl rfl rfl rfl

theorem IssueInv.send (hwf : Mutex.WellFormed G s.objectLock) (h : IssueInv G s)
    (hst : createStep G s (.send p t) = some s') : IssueInv G s' := by
  obtain ⟨id, lock, hpc, hlock, rfl⟩ := send_eq_some hst
  have hp : p ∈ G.ids := h.member p t (by simp [hpc])
  have ht : (s.objectLock.node p).pc t = .critical := by
    simpa [hpc, CreatePc.Agrees] using h.agrees p t
  have hlatest : (s.maxObjId p).toNat = s.issued := h.unsent p t (by simp [hpc, CreatePc.Unsent])
  have hid : id.toNat = s.issued := by rw [h.written p t id hpc, hlatest]
  have hpending : ∀ x u, ((s.setPc p t .sent).pc x u).Pending → (s.pc x u).Pending :=
    forall_setPc (fun x u pc ↦ pc.Pending → (s.pc x u).Pending) (by simp [hpc, CreatePc.Pending])
      fun _ _ hu ↦ hu
  have hunsent : ∀ x u, ((s.setPc p t .sent).pc x u).Unsent → (s.pc x u).Unsent :=
    forall_setPc (fun x u pc ↦ pc.Unsent → (s.pc x u).Unsent) (by simp [CreatePc.Unsent])
      fun _ _ hu ↦ hu
  refine ⟨?_, forall_setPc (fun x _ pc ↦ pc ≠ .idle → x ∈ G.ids) (fun _ ↦ hp) h.member,
    forall_setPc (fun x _ pc ↦ ∀ id, pc = .written id → id = s.maxObjId x) (by simp) h.written,
    h.issued_lt, h.counter_le, fun q x n hn ↦ ?_, fun x hx ↦ ?_,
    fun x u hu ↦ h.unsent x u (hunsent x u hu),
    fun x u v hu hv ↦ h.alone x u v (hpending x u hu) (hpending x v hv),
    fun x y u v hxy hu hv ↦ h.distinct x y u v hxy (hpending x u hu) (hpending y v hv),
    fun x u hu ↦ h.pending x u (hpending x u hu), h.returned, h.nodup⟩
  · change ∀ x u, ((s.setPc p t .sent).pc x u).Agrees ((lock.node x).pc u)
    rw [Mutex.pc_publish hlock]
    exact forall_setPc (fun x u pc ↦ pc.Agrees ((s.objectLock.node x).pc u)) ht h.agrees
  · change n ∈ lock.inFlight q x at hn
    change n.toNat ≤ s.issued
    rw [Mutex.inFlight_publish hwf hlock] at hn
    split at hn
    · rcases List.mem_append.mp hn with hn | hn
      · exact h.inFlight_le q x n hn
      · rw [List.mem_singleton.mp hn, hid]
    · exact h.inFlight_le q x n hn
  · by_cases hxp : x = p
    · exact .inl (hxp ▸ hlatest)
    · -- the message is now on the way to `x`
      refine .inr (.inl ⟨p, hp, id, ?_, hid⟩)
      change id ∈ lock.inFlight p x
      rw [Mutex.inFlight_publish hwf hlock, if_pos ⟨rfl, hx, hxp⟩]
      simp

theorem IssueInv.leave (h : IssueInv G s) (hst : createStep G s (.leave p t) = some s') :
    IssueInv G s' := by
  obtain ⟨hpc, rfl⟩ := by simpa [createStep] using hst
  have hout : (s.objectLock.node p).pc t = .outside := by
    simpa [hpc, CreatePc.Agrees] using h.agrees p t
  have ht : (s.pc p t).Pending := by simp [hpc, CreatePc.Pending]
  have hpending : ∀ {x u}, ((s.setPc p t .idle).pc x u).Pending → x ≠ p ∧ (s.pc x u).Pending := by
    intro x u hu
    rw [setPc_pc] at hu
    split at hu
    · simp [CreatePc.Pending] at hu
    · next hxu =>
        refine ⟨?_, hu⟩
        rintro rfl
        exact hxu ⟨rfl, h.alone x u t hu ht⟩
  have hunsent : ∀ x u, ((s.setPc p t .idle).pc x u).Unsent ↔ (s.pc x u).Unsent :=
    forall_setPc (fun x u pc ↦ pc.Unsent ↔ (s.pc x u).Unsent) (by simp [hpc, CreatePc.Unsent])
      fun _ _ ↦ .rfl
  refine ⟨forall_setPc (fun x u pc ↦ pc.Agrees ((s.objectLock.node x).pc u)) hout h.agrees,
    forall_setPc (fun x _ pc ↦ pc ≠ .idle → x ∈ G.ids) (by simp) h.member,
    forall_setPc (fun x _ pc ↦ ∀ id, pc = .written id → id = s.maxObjId x) (by simp) h.written,
    h.issued_lt, h.counter_le, h.inFlight_le, fun x hx ↦ ?_,
    fun x u hu ↦ h.unsent x u ((hunsent x u).mp hu),
    fun x u v hu hv ↦ h.alone x u v (hpending hu).2 (hpending hv).2,
    fun x y u v hxy hu hv ↦ h.distinct x y u v hxy (hpending hu).2 (hpending hv).2,
    fun x u hu ↦ ?_, fun id hid ↦ ?_, ?_⟩
  · refine (h.latest x hx).imp id (Or.imp id ?_)
    rintro ⟨q, u, hq, hu⟩
    exact ⟨q, u, hq, (hunsent q u).mpr hu⟩
  · obtain ⟨hx, hu⟩ := hpending hu
    refine ⟨(h.pending x u hu).1, fun hmem ↦ ?_⟩
    rcases List.mem_append.mp hmem with hmem | hmem
    · exact (h.pending x u hu).2 hmem
    · exact h.distinct x p u t hx hu ht (List.mem_singleton.mp hmem)
  · rcases List.mem_append.mp hid with hid | hid
    · exact h.returned id hid
    · rw [List.mem_singleton.mp hid]
      exact ⟨(h.pending p t ht).1, h.counter_le p⟩
  · exact List.nodup_append.mpr ⟨h.nodup, by simp, by
      rintro id hid _ hmem rfl
      rw [List.mem_singleton.mp hmem] at hid
      exact (h.pending p t ht).2 hid⟩

/-- The listener takes a message of the mutex. -/
theorem IssueInv.deliver_mutex (hwf : Mutex.WellFormed G s.objectLock) (h : IssueInv G s)
    {msg : Mutex.Msg} {rest : List (Mutex.Frame UInt32)}
    (hhead : s.objectLock.net q p = .mutex msg :: rest)
    (hst : createStep G s (.deliver q p) = some s') : IssueInv G s' := by
  obtain ⟨lock, hlock, rfl⟩ := Option.map_eq_some_iff.mp hst
  refine h.of_eq (fun x u ↦ ?_) h.member (fun x u id hid ↦ ?_) (fun _ _ ↦ .rfl) (fun _ _ ↦ .rfl)
    (Mutex.inFlight_deliver_mutex hwf hhead hlock) ?_ rfl rfl
  · change (s.pc x u).Agrees ((lock.node x).pc u)
    rw [Mutex.pc_deliver hlock]
    exact h.agrees x u
  · simpa [hhead, CreateState.counterAfter] using h.written x u id hid
  · simp [hhead, CreateState.counterAfter]

/-- The listener takes a `CREATE`. -/
theorem IssueInv.deliver_create (h : IssueInv G s)
    (hnil : ∀ u, (s.objectLock.node p).pc u = .critical →
      ∀ q ∈ G.ids, s.objectLock.inFlight q p = [])
    {id : UInt32} {rest : List (Mutex.Frame UInt32)}
    (hhead : s.objectLock.net q p = .data id :: rest) (hq : q ∈ G.ids) (hsettled : Settled s p)
    (hle : s.maxObjId p ≤ id) (hst : createStep G s (.deliver q p) = some s') :
    IssueInv G s' := by
  obtain ⟨lock, hlock, rfl⟩ := Option.map_eq_some_iff.mp hst
  obtain ⟨htaken, hothers⟩ := Mutex.inFlight_deliver_data hhead hlock
  have hmem : id ∈ s.objectLock.inFlight q p := by simp [htaken]
  have hid := h.inFlight_le q p id hmem
  have hmono : ∀ {x y n}, n ∈ lock.inFlight x y → n ∈ s.objectLock.inFlight x y := by
    intro x y n hn
    by_cases hxy : x = q ∧ y = p
    · obtain ⟨rfl, rfl⟩ := hxy
      rw [htaken]
      exact List.mem_cons_of_mem _ hn
    · rwa [hothers x y hxy] at hn
  have hmax : Function.update s.maxObjId p (s.counterAfter p (s.objectLock.net q p)) =
      Function.update s.maxObjId p id := by
    rw [hhead]
    rfl
  -- a pending call on `p` would be critical, and then nothing is in flight to `p`
  have hidle : ∀ u, ¬ (s.pc p u).Pending := by
    intro u hu
    have hnone := hnil u (CreatePc.critical_of_pending hu (hsettled u) (h.agrees p u)) q hq
    simp [hnone] at hmem
  have hne : ∀ {x u}, (s.pc x u).Pending → x ≠ p := by
    rintro x u hu rfl
    exact hidle u hu
  have hkeep : ∀ {x}, x ≠ p → Function.update s.maxObjId p id x = s.maxObjId x :=
    fun hx ↦ by simp [hx]
  rw [hmax]
  refine ⟨fun x u ↦ ?_, h.member, fun x u n hn ↦ ?_, h.issued_lt, fun x ↦ ?_,
    fun x y n hn ↦ h.inFlight_le x y n (hmono hn), fun x hx ↦ ?_, fun x u hu ↦ ?_, h.alone,
    fun x y u v hxy hu hv ↦ ?_, fun x u hu ↦ ?_, h.returned, h.nodup⟩
  · change (s.pc x u).Agrees ((lock.node x).pc u)
    rw [Mutex.pc_deliver hlock]
    exact h.agrees x u
  · change s.pc x u = .written n at hn
    change n = Function.update s.maxObjId p id x
    rw [hkeep (hne (u := u) (by simp [hn, CreatePc.Pending]))]
    exact h.written x u n hn
  · change (Function.update s.maxObjId p id x).toNat ≤ s.issued
    by_cases hx : x = p
    · subst hx
      simpa using hid
    · rw [hkeep hx]
      exact h.counter_le x
  · change (Function.update s.maxObjId p id x).toNat = s.issued ∨ _
    by_cases hxp : x = p
    · subst hxp
      have hcounter : (Function.update s.maxObjId x id x).toNat = id.toNat := by simp
      rw [hcounter]
      rcases h.latest x hx with heq | ⟨r, hr, n, hn, hissued⟩ | hlast
      · have hle : (s.maxObjId x).toNat ≤ id.toNat := UInt32.le_iff_toNat_le.mp hle
        exact .inl (by omega)
      · by_cases hrq : r = q
        · subst hrq
          rw [htaken] at hn
          rcases List.mem_cons.mp hn with rfl | hn
          · exact .inl hissued
          · exact .inr (.inl ⟨r, hr, n, hn, hissued⟩)
        · refine .inr (.inl ⟨r, hr, n, ?_, hissued⟩)
          change n ∈ lock.inFlight r x
          rwa [hothers r x fun hc ↦ hrq hc.1]
      · exact .inr (.inr hlast)
    · rw [hkeep hxp]
      rcases h.latest x hx with heq | ⟨r, hr, n, hn, hissued⟩ | hlast
      · exact .inl heq
      · refine .inr (.inl ⟨r, hr, n, ?_, hissued⟩)
        change n ∈ lock.inFlight r x
        rwa [hothers r x fun hc ↦ hxp hc.2]
      · exact .inr (.inr hlast)
  · change (Function.update s.maxObjId p id x).toNat = s.issued
    rw [hkeep (hne (CreatePc.pending_of_unsent hu))]
    exact h.unsent x u hu
  · change Function.update s.maxObjId p id x ≠ Function.update s.maxObjId p id y
    rw [hkeep (hne hu), hkeep (hne hv)]
    exact h.distinct x y u v hxy hu hv
  · change 0 < (Function.update s.maxObjId p id x).toNat ∧
      Function.update s.maxObjId p id x ∉ s.returned
    rw [hkeep (hne hu)]
    exact h.pending x u hu

end Step

/-! ## Runs -/

variable {G : Group} {s : CreateState T}

theorem objectLock_reach (h : (createSystem T G).Reach (LockTurns G) s) :
    (Mutex.system T UInt32 G).Reach (Mutex.TakesTurns G) s.objectLock := by
  refine h.simulates CreateState.objectLock rfl fun {s a s'} _ ha hst ih ↦ ?_
  cases a with
  | lock p a =>
      obtain ⟨pc, -, lock, hlock, rfl⟩ := by
        simpa [createSystem, createStep, Option.bind_eq_some_iff] using hst
      exact ih.step (a := .thread p a) ⟨ha.1, trivial, trivial⟩ hlock
  | send p t =>
      obtain ⟨id, lock, -, hlock, rfl⟩ := send_eq_some hst
      exact ih.step (a := .publish p t id) ⟨trivial, trivial, ha.2⟩ hlock
  | deliver q p =>
      obtain ⟨lock, hlock, rfl⟩ := Option.map_eq_some_iff.mp hst
      exact ih.step (a := .deliver q p) ⟨trivial, ha.2, trivial⟩ hlock
  | increment p t =>
      obtain ⟨-, rfl⟩ := by simpa [createSystem, createStep] using hst
      exact ih
  | write p t =>
      obtain ⟨-, rfl⟩ := by simpa [createSystem, createStep] using hst
      exact ih
  | leave p t =>
      obtain ⟨-, rfl⟩ := by simpa [createSystem, createStep] using hst
      exact ih

/-- `object_lock` takes turns and every call returns the id it has just broadcast. -/
def Careful (G : Group) (s : CreateState T) (a : CreateAction T) : Prop :=
  LockTurns G s a ∧ KeepsIds s a

instance [Fintype T] (G : Group) (s : CreateState T) (a : CreateAction T) :
    Decidable (Careful G s a) :=
  inferInstanceAs (Decidable (_ ∧ _))

theorem issueInv_init : IssueInv G (createSystem T G).init where
  agrees _ _ := rfl
  member _ _ hne := absurd rfl hne
  written _ _ _ hid := by cases hid
  issued_lt := Nat.two_pow_pos 32
  counter_le _ := le_rfl
  inFlight_le _ _ id hid := by cases hid
  latest _ _ := .inl rfl
  unsent _ _ hu := hu.elim
  alone _ _ _ hu _ := hu.elim
  distinct _ _ _ _ _ hu _ := hu.elim
  pending _ _ hu := hu.elim
  returned _ hid := by cases hid
  nodup := .nil

theorem issueInv_of_reach (h : (createSystem T G).Reach (Careful G) s) : IssueInv G s := by
  refine h.invariant (IssueInv G) issueInv_init fun {s a s'} hs ih ha hst ↦ ?_
  have hlock := objectLock_reach (hs.mono And.left)
  have hwf := Mutex.wellFormed_of_reach hlock
  have hex := Mutex.exclusive_of_excludes (hlock.mono And.left)
  have hfirst : (Mutex.system T UInt32 G).Reach (Mutex.DataFirst G) s.objectLock :=
    hlock.mono And.right
  cases a with
  | lock p a => exact ih.lock hwf hst
  | increment p t =>
      have hp : s.pc p t ≠ .idle := by
        obtain ⟨hpc, -⟩ := by simpa [createSystem, createStep] using hst
        simp [hpc]
      exact ih.increment hex
        (fun u hu q hq ↦ Mutex.inFlight_eq_nil_of_critical hfirst (ih.member p t hp) hq hu) ha.2 hst
  | write p t => exact ih.write hst
  | send p t => exact ih.send hwf hst
  | leave p t => exact ih.leave hst
  | deliver q p =>
      obtain ⟨lock, hstep, -⟩ := Option.map_eq_some_iff.mp hst
      obtain ⟨⟨hq, hp⟩, -⟩ := by simpa [Mutex.step] using hstep
      cases hhead : s.objectLock.net q p with
      | nil => simp [Mutex.step, hhead] at hstep
      | cons frame rest =>
          cases frame with
          | mutex msg => exact ih.deliver_mutex hwf hhead hst
          | data id =>
              obtain ⟨hsettled, hle⟩ : Settled s p ∧ s.maxObjId p ≤ id := by
                simpa [KeepsIds, hhead, RaisesCounter] using ha.2
              exact ih.deliver_create
                (fun u hu r hr ↦ Mutex.inFlight_eq_nil_of_critical hfirst hp hr hu)
                hhead hq hsettled hle hst

/-- No two calls return the same id, and none returns 0. -/
theorem create_returns_unique (h : (createSystem T G).Reach (Careful G) s) :
    s.returned.Nodup ∧ 0 ∉ s.returned := by
  have hinv := issueInv_of_reach h
  exact ⟨hinv.nodup, fun h0 ↦ absurd (hinv.returned 0 h0).1 (by decide)⟩

/-- The unlock of node 1 answers the calls of nodes 2 and 3. -/
def threeCreates : List (CreateAction Unit) :=
  [.lock 1 (.acquire ()), .lock 1 (.request ()), .deliver 1 2, .deliver 1 3, .deliver 2 1,
    .deliver 3 1, .lock 1 (.enter ()), .deliver 2 3, .deliver 3 2, .lock 2 (.acquire ()),
    .lock 2 (.request ()), .lock 3 (.acquire ()), .lock 3 (.request ()), .deliver 2 1,
    .deliver 3 1, .deliver 2 3, .deliver 3 2, .deliver 3 2, .increment 1 (), .write 1 (),
    .send 1 (), .lock 1 (.unlock ()), .lock 1 (.release ()), .leave 1 (), .deliver 1 2,
    .deliver 1 2, .lock 2 (.enter ()), .increment 2 (), .write 2 (), .send 2 (),
    .lock 2 (.unlock ()), .lock 2 (.release ()), .leave 2 (), .deliver 1 3, .deliver 1 3,
    .deliver 2 3, .deliver 2 3, .lock 3 (.enter ()), .increment 3 (), .write 3 (), .send 3 (),
    .lock 3 (.unlock ()), .lock 3 (.release ()), .leave 3 ()]

theorem create_returns_unique_three_nodes :
    ∃ s : CreateState Unit, s.returned = [1, 2, 3] ∧ s.returned.Nodup ∧ 0 ∉ s.returned := by
  let G : Group := .ofIds [1, 2, 3] (by decide) (by decide)
  obtain ⟨s, hs, hp⟩ := LabelledSystem.exists_reach_of_exec (createSystem Unit G) (Careful G)
    threeCreates (fun s ↦ s.returned = [1, 2, 3]) (by decide +kernel)
  have hreturned : s.returned = [1, 2, 3] := by simpa using hp
  exact ⟨s, hreturned, create_returns_unique hs⟩

/-- The `CREATE` of node 2 arrives at node 1 before the call of node 1 returns. -/
def lateReturn : List (CreateAction Unit) :=
  [.lock 1 (.acquire ()), .lock 1 (.request ()), .deliver 1 2, .deliver 2 1, .lock 1 (.enter ()),
    .increment 1 (), .write 1 (), .send 1 (), .lock 1 (.unlock ()), .lock 1 (.release ()),
    .lock 2 (.acquire ()), .lock 2 (.request ()), .deliver 2 1, .deliver 1 2, .deliver 1 2,
    .lock 2 (.enter ()), .increment 2 (), .write 2 (), .send 2 (), .deliver 2 1, .leave 1 (),
    .lock 2 (.unlock ()), .lock 2 (.release ()), .leave 2 ()]

theorem not_returns_unique_of_lockTurns :
    ¬ ∀ (G : Group) (s : CreateState Unit), (createSystem Unit G).Reach (LockTurns G) s →
      s.returned.Nodup ∧ 0 ∉ s.returned := by
  intro h
  let G : Group := .ofIds [1, 2] (by decide) (by decide)
  obtain ⟨s, hs, hp⟩ := LabelledSystem.exists_reach_of_exec (createSystem Unit G) (LockTurns G)
    lateReturn (fun s ↦ s.returned = [2, 2]) (by decide)
  have hreturned : s.returned = [2, 2] := by simpa using hp
  have hnodup := (h G s hs).1
  simp [hreturned] at hnodup

/-- Node 2 counts a reply that node 3 has sent for node 1, and the `CREATE` of node 3 is
behind it. -/
def earlyReply : List (CreateAction Unit) :=
  [.lock 3 (.acquire ()), .lock 3 (.request ()), .lock 1 (.acquire ()), .lock 1 (.request ()),
    .deliver 3 2, .deliver 1 2, .deliver 1 3, .deliver 2 3, .deliver 3 1, .deliver 2 1,
    .deliver 3 1, .lock 1 (.enter ()), .increment 1 (), .write 1 (), .send 1 (),
    .lock 1 (.unlock ()), .lock 1 (.release ()), .leave 1 (), .deliver 1 3, .deliver 1 3,
    .lock 3 (.enter ()), .increment 3 (), .write 3 (), .send 3 (), .lock 2 (.acquire ()),
    .lock 2 (.request ()), .deliver 2 3, .deliver 2 3, .lock 3 (.unlock ()), .lock 3 (.release ()),
    .leave 3 (), .deliver 2 1, .deliver 2 1, .deliver 1 2, .deliver 1 2, .deliver 3 2,
    .lock 2 (.enter ()), .increment 2 (), .write 2 (), .send 2 (), .lock 2 (.unlock ()),
    .lock 2 (.release ()), .leave 2 ()]

/-- Exclusion alone does not bring the `CREATE` of one turn to the next one. -/
theorem not_returns_unique_of_lockExcludes :
    ¬ ∀ (G : Group) (s : CreateState Unit),
      (createSystem Unit G).Reach (fun s a ↦ LockExcludes G s a ∧ KeepsIds s a) s →
        s.returned.Nodup ∧ 0 ∉ s.returned := by
  intro h
  let G : Group := .ofIds [1, 2, 3] (by decide) (by decide)
  obtain ⟨s, hs, hp⟩ := LabelledSystem.exists_reach_of_exec (createSystem Unit G)
    (fun s a ↦ LockExcludes G s a ∧ KeepsIds s a) earlyReply (fun s ↦ s.returned = [1, 2, 2])
    (by decide +kernel)
  have hreturned : s.returned = [1, 2, 2] := by simpa using hp
  have hnodup := (h G s hs).1
  simp [hreturned] at hnodup

end Edsm.Dobj
