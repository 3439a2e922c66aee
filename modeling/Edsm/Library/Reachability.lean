import Mathlib.Data.List.Basic

/-!
# Runs of a labelled system under a step condition

A system has a start and a partial step for each action.  `Reach ok` collects
the states reached by runs whose every step satisfies the condition `ok`, which
reads the state before the step and the action.  The rules below are the only
inductions over runs that a development on top of this module needs.
-/

structure LabelledSystem (σ α : Type*) where
  init : σ
  step : σ → α → Option σ

namespace LabelledSystem

variable {σ α τ β : Type*} {M : LabelledSystem σ α} {N : LabelledSystem τ β}
variable {ok ok' : σ → α → Prop}

/-- States reached by runs whose every step, seen from the state before it,
satisfies `ok`. -/
inductive Reach (M : LabelledSystem σ α) (ok : σ → α → Prop) : σ → Prop
  | init : Reach M ok M.init
  | step {s t : σ} {a : α} (hs : Reach M ok s) (ha : ok s a)
      (hst : M.step s a = some t) : Reach M ok t

/-- No condition on the steps. -/
def anyStep : σ → α → Prop := fun _ _ ↦ True

instance (s : σ) (a : α) : Decidable (anyStep s a) := inferInstanceAs (Decidable True)

abbrev Reachable (M : LabelledSystem σ α) : σ → Prop := M.Reach anyStep

/-- The invariant rule.  The step may also use that its source is reached. -/
theorem Reach.invariant (Inv : σ → Prop) (hinit : Inv M.init)
    (hstep : ∀ {s a t}, M.Reach ok s → Inv s → ok s a → M.step s a = some t → Inv t)
    {s : σ} (h : M.Reach ok s) : Inv s := by
  induction h with
  | init => exact hinit
  | step hs ha hst ih => exact hstep hs ih ha hst

/-- A condition that holds of every step of the runs under another one may
replace it. -/
theorem Reach.strengthen
    (himp : ∀ {s a t}, M.Reach ok s → ok s a → M.step s a = some t → ok' s a)
    {s : σ} (h : M.Reach ok s) : M.Reach ok' s := by
  induction h with
  | init => exact .init
  | step hs ha hst ih => exact .step ih (himp hs ha hst) hst

theorem Reach.mono (himp : ∀ {s a}, ok s a → ok' s a) {s : σ}
    (h : M.Reach ok s) : M.Reach ok' s :=
  h.strengthen fun _ ha _ ↦ himp ha

theorem Reach.reachable {s : σ} (h : M.Reach ok s) : M.Reachable s :=
  h.mono fun _ ↦ trivial

/-- Simulation through a map: each step of `M` is matched by a run of `N`. -/
theorem Reach.simulates {okN : τ → β → Prop} (f : σ → τ) (hinit : f M.init = N.init)
    (hstep : ∀ {s a t}, M.Reach ok s → ok s a → M.step s a = some t →
      N.Reach okN (f s) → N.Reach okN (f t))
    {s : σ} (h : M.Reach ok s) : N.Reach okN (f s) := by
  refine h.invariant (fun s ↦ N.Reach okN (f s)) ?_ fun hs ih ha hst ↦ hstep hs ha hst ih
  rw [hinit]
  exact .init

/-- Run a list of actions, checking the condition before every step. -/
def exec (M : LabelledSystem σ α) (ok : σ → α → Prop) [∀ s a, Decidable (ok s a)] :
    σ → List α → Option σ
  | s, [] => some s
  | s, a :: as => if ok s a then (M.step s a).bind (M.exec ok · as) else none

theorem exec_cons {s : σ} {a : α} {as : List α} :
    M.exec anyStep s (a :: as) = (M.step s a).bind (M.exec anyStep · as) :=
  if_pos trivial

theorem Reach.exec [∀ s a, Decidable (ok s a)] {s t : σ} (h : M.Reach ok s) {as : List α}
    (ht : M.exec ok s as = some t) : M.Reach ok t := by
  induction as generalizing s with
  | nil =>
      have hst : s = t := by simpa [LabelledSystem.exec] using ht
      exact hst ▸ h
  | cons a as ih =>
      by_cases ha : ok s a
      · obtain ⟨u, hu, hrest⟩ : ∃ u, M.step s a = some u ∧ M.exec ok u as = some t := by
          simpa [LabelledSystem.exec, ha, Option.bind_eq_some_iff] using ht
        exact ih (h.step ha hu) hrest
      · simp [LabelledSystem.exec, ha] at ht

/-- A run of actions that meet the condition in every state. -/
theorem Reach.exec_of_forall {s t : σ} (h : M.Reach ok s) {as : List α}
    (hok : ∀ s, ∀ a ∈ as, ok s a) (ht : M.exec anyStep s as = some t) : M.Reach ok t := by
  induction as generalizing s with
  | nil =>
      obtain rfl : s = t := Option.some.inj ht
      exact h
  | cons a as ih =>
      obtain ⟨u, hu, hrest⟩ := Option.bind_eq_some_iff.mp (exec_cons.symm.trans ht)
      exact ih (h.step (hok s a List.mem_cons_self) hu)
        (fun s b hb ↦ hok s b (List.mem_cons_of_mem a hb)) hrest

/-- A run computed from the start that ends in a state passing the test `p`. -/
theorem exists_reach_of_exec (M : LabelledSystem σ α) (ok : σ → α → Prop)
    [∀ s a, Decidable (ok s a)] (as : List α) (p : σ → Bool)
    (h : (M.exec ok M.init as).any p = true) : ∃ s, M.Reach ok s ∧ p s = true := by
  obtain ⟨s, hs, hp⟩ := (Option.any_eq_true _ _).mp h
  exact ⟨s, Reach.init.exec hs, hp⟩

end LabelledSystem
