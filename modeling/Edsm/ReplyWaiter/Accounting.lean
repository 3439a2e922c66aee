import Edsm.Library.Reachability
import Edsm.ReplyWaiter.Cells
import Mathlib.Data.Multiset.AddSub
import Mathlib.Logic.Function.Basic

/-!
# Waiting for replies

A list of ids has been set, replies are counted in any order, and threads wait.
`edsm_reply_waiter_add_reply` releases the lock before it broadcasts, so a thread
may test the list or fall asleep between the two; a thread may also wake up
without a broadcast.
-/

namespace Edsm.ReplyWaiter.Wait

/-- Where a thread stands in `edsm_reply_waiter_wait`. -/
inductive Pc
  /-- It takes the lock next, and tests the list. -/
  | testing
  /-- In `pthread_cond_wait`. -/
  | asleep
  | returned
  deriving DecidableEq, Repr

structure State (T : Type*) where
  cells : Cells
  /-- The calls of `edsm_reply_waiter_add_reply` so far. -/
  replies : List UInt32
  /-- How many of them have not broadcast yet. -/
  broadcasts : ℕ
  pc : T → Pc

inductive Action (T : Type*)
  /-- `edsm_reply_waiter_add_reply` up to the unlock. -/
  | addReply (peerId : UInt32)
  | broadcast
  | test (t : T)
  /-- A wakeup that no broadcast has caused. -/
  | wake (t : T)

/-- What brings a waiting thread to its return: no reply, and no wakeup by chance. -/
def Action.OfWait {T : Type*} : Action T → Prop
  | .broadcast | .test _ => True
  | .addReply _ | .wake _ => False

section System

variable {T : Type*} [DecidableEq T]

def step (s : State T) : Action T → Option (State T)
  | .addReply peerId => (s.cells.addReply peerId).map fun cells ↦
      { s with
        cells
        replies := s.replies ++ [peerId]
        broadcasts := s.broadcasts + 1 }
  | .broadcast =>
      if 0 < s.broadcasts then
        some { s with
          broadcasts := s.broadcasts - 1
          pc := fun t ↦ if s.pc t = .asleep then .testing else s.pc t }
      else none
  | .test t =>
      if s.pc t = .testing then
        some { s with
          pc := Function.update s.pc t (if s.cells.waitOn = none then .returned else .asleep) }
      else none
  | .wake t =>
      if s.pc t = .asleep then some { s with pc := Function.update s.pc t .testing } else none

/-- `edsm_reply_waiter_set_wait_on` has run; broadcasts of earlier calls may be still to come. -/
def system (T : Type*) [DecidableEq T] (cells : Cells) (peers : Option ℕ) (pending : ℕ) :
    LabelledSystem (State T) (Action T) where
  init :=
    { cells := cells.setWaitOn peers
      replies := []
      broadcasts := pending
      pc := fun _ ↦ .testing }
  step := step

/-- The thread returns without any further reply. -/
def CanReturn (s : State T) (t : T) : Prop :=
  ∃ s', LabelledSystem.Reach { init := s, step := step } (fun _ a ↦ a.OfWait) s' ∧
    s'.pc t = .returned

end System

/-! ## Lists without the replies -/

variable {ids replies : List UInt32}

theorem coe_diff (ids replies : List UInt32) :
    ((ids.diff replies : List UInt32) : Multiset UInt32) = ↑ids - ↑replies :=
  (Multiset.coe_sub ids replies).symm

theorem diff_snoc (ids replies : List UInt32) (peerId : UInt32) :
    ids.diff (replies ++ [peerId]) = addReply (ids.diff replies) peerId := by
  rw [List.diff_append, List.diff_cons, List.diff_nil]
  rfl

theorem count_diff (ids replies : List UInt32) (id : UInt32) :
    (ids.diff replies).count id = ids.count id - replies.count id := by
  rw [← Multiset.coe_count, coe_diff, Multiset.count_sub, Multiset.coe_count, Multiset.coe_count]

theorem diff_eq_nil_iff : ids.diff replies = [] ↔ ∀ id, ids.count id ≤ replies.count id := by
  simp only [List.eq_nil_iff_forall_not_mem, ← List.count_eq_zero, count_diff,
    Nat.sub_eq_zero_iff_le]

/-! ## The invariant -/

section Inv

variable {T : Type*} [DecidableEq T] {s s' : State T} {t : T} {a : Action T}

/-- What is left of the list, and that no thread sleeps through the last reply. -/
structure Inv (ids : List UInt32) (s : State T) : Prop where
  holds : s.cells.Holds (ids.diff s.replies)
  awake : ∀ t, s.pc t = .asleep → ids.diff s.replies ≠ [] ∨ 0 < s.broadcasts
  returned : ∀ t, s.pc t = .returned → ids.diff s.replies = []

omit [DecidableEq T] in
theorem Inv.waitOn_eq_none (h : Inv ids s) :
    s.cells.waitOn = none ↔ ids.diff s.replies = [] :=
  h.holds.waitOn_eq_none

theorem Inv.addReply (h : Inv ids s) (peerId : UInt32) :
    ∃ s', step s (.addReply peerId) = some s' ∧ s'.replies = s.replies ++ [peerId] ∧
      Inv ids s' := by
  obtain ⟨cells, hreply, hholds⟩ := h.holds.addReply peerId
  rw [← diff_snoc] at hholds
  refine ⟨_, by rw [step, hreply]; rfl, rfl, hholds, fun t _ ↦ .inr (Nat.succ_pos _),
    fun t ht ↦ ?_⟩
  change ids.diff (s.replies ++ [peerId]) = []
  rw [diff_snoc, h.returned t ht]
  rfl

theorem Inv.step (h : Inv ids s) (hstep : step s a = some s') : Inv ids s' := by
  cases a with
  | addReply peerId =>
      obtain ⟨s₁, hs₁, -, hinv⟩ := h.addReply peerId
      cases hs₁.symm.trans hstep
      exact hinv
  | broadcast =>
      obtain ⟨-, rfl⟩ := by simpa [Wait.step] using hstep
      refine ⟨h.holds, fun t ht ↦ ?_, fun t ht ↦ ?_⟩
      · -- nobody is asleep behind a broadcast
        simp only at ht
        split at ht
        · cases ht
        · next hne => exact absurd ht hne
      · simp only at ht
        split at ht
        · cases ht
        · exact h.returned t ht
  | test t =>
      obtain ⟨-, rfl⟩ := by simpa [Wait.step] using hstep
      refine ⟨h.holds, fun u hu ↦ ?_, fun u hu ↦ ?_⟩
      · simp only [Function.update_apply] at hu
        split at hu
        · split at hu
          · cases hu
          · next hne => exact .inl (mt h.waitOn_eq_none.mpr hne)
        · exact h.awake u hu
      · simp only [Function.update_apply] at hu
        split at hu
        · split at hu
          · next hnone => exact h.waitOn_eq_none.mp hnone
          · cases hu
        · exact h.returned u hu
  | wake t =>
      obtain ⟨-, rfl⟩ := by simpa [Wait.step] using hstep
      refine ⟨h.holds, fun u hu ↦ ?_, fun u hu ↦ ?_⟩
      · simp only [Function.update_apply] at hu
        split at hu
        · cases hu
        · exact h.awake u hu
      · simp only [Function.update_apply] at hu
        split at hu
        · cases hu
        · exact h.returned u hu

/-! ## Returning -/

theorem Inv.run {ok : State T → Action T → Prop} (h : Inv ids s)
    (hrun : LabelledSystem.Reach { init := s, step := Wait.step } ok s') : Inv ids s' :=
  hrun.invariant (Inv ids) h fun _ ih _ hst ↦ ih.step hst

/-- A thread that only waits adds no reply. -/
theorem replies_of_ofWait
    (hrun : LabelledSystem.Reach { init := s, step := step } (fun _ a ↦ a.OfWait) s') :
    s'.replies = s.replies := by
  refine hrun.invariant (fun s' ↦ s'.replies = s.replies) rfl ?_
  intro s₁ a s₂ _ ih hok hstep
  cases a with
  | addReply peerId => exact hok.elim
  | broadcast =>
      obtain ⟨-, rfl⟩ := by simpa [step] using hstep
      exact ih
  | test t =>
      obtain ⟨-, rfl⟩ := by simpa [step] using hstep
      exact ih
  | wake t => exact hok.elim

theorem Inv.canReturn_of_testing (h : Inv ids s) (hnil : ids.diff s.replies = [])
    (ht : s.pc t = .testing) : CanReturn s t := by
  refine ⟨_, .step .init (a := .test t) trivial (if_pos ht), ?_⟩
  simp [h.waitOn_eq_none.mpr hnil]

theorem CanReturn.of_step {t : T} (h : CanReturn s' t) (ha : a.OfWait)
    (hstep : step s a = some s') : CanReturn s t := by
  obtain ⟨s'', hrun, ht⟩ := h
  exact ⟨s'', hrun.invariant _ (.step .init ha hstep) fun _ ih hok hst ↦ ih.step hok hst, ht⟩

theorem Inv.canReturn_iff (h : Inv ids s) : CanReturn s t ↔ ids.diff s.replies = [] := by
  constructor
  · rintro ⟨s', hrun, ht⟩
    rw [← replies_of_ofWait hrun]
    exact (h.run hrun).returned t ht
  · intro hnil
    cases hpc : s.pc t with
    | testing => exact h.canReturn_of_testing hnil hpc
    | asleep =>
        -- the broadcast of the last reply is still to come
        have hpending := (h.awake t hpc).resolve_left (· hnil)
        have hbroadcast : Wait.step s .broadcast = some _ := if_pos hpending
        have hreturn := (h.step hbroadcast).canReturn_of_testing hnil (if_pos hpc)
        exact hreturn.of_step (a := .broadcast) trivial hbroadcast
    | returned => exact ⟨s, .init, hpc⟩

end Inv

/-! ## Runs -/

section Runs

open LinkedList

variable {T : Type*} [DecidableEq T] {cells : Cells} {nodes : List (ℕ × UInt32)} {pending : ℕ}
  {s : State T}

theorem inv_of_reach (hpeers : Segment cells.heap nodes none)
    (h : (system T cells (first nodes none) pending).Reachable s) :
    Inv (nodes.map Prod.snd) s := by
  refine h.invariant (Inv (nodes.map Prod.snd))
    ⟨Cells.setWaitOn_holds hpeers, fun t ht ↦ ?_, fun t ht ↦ ?_⟩ fun _ ih _ hst ↦ ih.step hst
  · cases ht
  · cases ht

theorem exists_reach_replies (hpeers : Segment cells.heap nodes none) (replies : List UInt32) :
    ∃ s, (system T cells (first nodes none) pending).Reachable s ∧ s.replies = replies := by
  induction replies using List.reverseRecOn with
  | nil => exact ⟨_, .init, rfl⟩
  | append_singleton replies peerId ih =>
      obtain ⟨s, hs, rfl⟩ := ih
      obtain ⟨s', hstep, hreplies, -⟩ := (inv_of_reach hpeers hs).addReply peerId
      exact ⟨s', hs.step (a := .addReply peerId) trivial hstep, hreplies⟩

/-- The list may be any list of cells in memory, and nothing is known of the list that it
replaces.  Replies can be counted at any time, in any order; what is left of the list is its
difference with them, in its own order, and a thread can return exactly if that is nothing. -/
theorem reply_accounting (pending : ℕ) (hpeers : Segment cells.heap nodes none) :
    (∀ replies, ∃ s, (system T cells (first nodes none) pending).Reachable s ∧
      s.replies = replies) ∧
    ∀ s, (system T cells (first nodes none) pending).Reachable s →
      (∀ peerId, ∃ s', step s (.addReply peerId) = some s') ∧
      (∃ left, s.cells.Holds left ∧
        (left : Multiset UInt32) = ↑(nodes.map Prod.snd) - ↑s.replies ∧
        left.Sublist (nodes.map Prod.snd)) ∧
      (∀ t, CanReturn s t ↔ ∀ id, (nodes.map Prod.snd).count id ≤ s.replies.count id) ∧
      ∀ s', (system T cells (first nodes none) pending).Reachable s' →
        s.replies.Perm s'.replies → ∀ left, s.cells.Holds left ↔ s'.cells.Holds left := by
  refine ⟨exists_reach_replies hpeers, fun s hs ↦ ?_⟩
  have hinv := inv_of_reach hpeers hs
  refine ⟨fun peerId ↦ ?_, ⟨_, hinv.holds, coe_diff _ _, List.diff_sublist _ _⟩,
    fun t ↦ hinv.canReturn_iff.trans diff_eq_nil_iff, fun s' hs' hperm left ↦ ?_⟩
  · obtain ⟨s', hstep, -⟩ := hinv.addReply peerId
    exact ⟨s', hstep⟩
  · have hholds := hinv.holds
    have hholds' := (inv_of_reach hpeers hs').holds
    rw [hperm.diff_left] at hholds
    constructor
    · intro hleft
      exact hholds.unique hleft ▸ hholds'
    · intro hleft
      exact hholds'.unique hleft ▸ hholds

/-- The ids 1, 2 and 1, at the places 0, 2 and 1; an earlier list, of the id 9, is at 3. -/
def threeCells : Cells where
  heap := [some ⟨1, some 2⟩, some ⟨1, none⟩, some ⟨2, some 1⟩, some ⟨9, none⟩]
  waitOn := some 3

theorem threeCells_segment : Segment threeCells.heap [(0, 1), (2, 2), (1, 1)] none :=
  ⟨rfl, rfl, rfl, trivial⟩

/-- A thread that has fallen asleep before the replies, one of which is not awaited. -/
theorem reply_accounting_three : ∃ s : State Unit, s.replies = [1, 7, 2, 1] ∧
    s.pc () = .asleep ∧ CanReturn s () := by
  obtain ⟨s, hs, hp⟩ := LabelledSystem.exists_reach_of_exec
    (system Unit threeCells (some 0) 0) LabelledSystem.anyStep
    [.test (), .addReply 1, .addReply 7, .addReply 2, .addReply 1]
    (fun s ↦ s.replies = [1, 7, 2, 1] ∧ s.pc () = .asleep) (by decide)
  obtain ⟨hreplies, hpc⟩ : s.replies = [1, 7, 2, 1] ∧ s.pc () = .asleep := by simpa using hp
  have hreturn := ((reply_accounting 0 threeCells_segment).2 s hs).2.2.1 ()
  refine ⟨s, hreplies, hpc, hreturn.mpr fun id ↦ ?_⟩
  rw [hreplies]
  exact List.Subperm.count_le (by decide) id

end Runs

end Edsm.ReplyWaiter.Wait
