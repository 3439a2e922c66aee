import Mathlib.Data.List.Basic
import Mathlib.Logic.Function.Basic

/-!
# Overlays

A patch is a partial function; applied to a total one it replaces the values it
has and leaves the others.  A later patch wins over an earlier one.
-/

abbrev Patch (ι α : Type*) := ι → Option α

namespace Patch

variable {ι α : Type*}

/-- The patch with nothing to replace. -/
def empty : Patch ι α := fun _ ↦ none

def apply (f : Patch ι α) (g : ι → α) : ι → α := fun i ↦ (f i).getD (g i)

/-- `f` after `g`. -/
def after (f g : Patch ι α) : Patch ι α := fun i ↦ (f i).or (g i)

/-- Several patches, the first of the list first. -/
def applyAll (fs : List (Patch ι α)) (g : ι → α) : ι → α := fs.foldl (fun g f ↦ f.apply g) g

/-- Several patches as one. -/
def join (fs : List (Patch ι α)) : Patch ι α := fs.foldl (fun g f ↦ f.after g) empty

@[simp] theorem apply_empty (g : ι → α) : (empty : Patch ι α).apply g = g := rfl

theorem apply_of_eq_none {f : Patch ι α} {g : ι → α} {i : ι} (h : f i = none) :
    f.apply g i = g i := by
  simp [apply, h]

theorem apply_of_eq_some {f : Patch ι α} {g : ι → α} {i : ι} {a : α} (h : f i = some a) :
    f.apply g i = a := by
  simp [apply, h]

/-- Two functions under one patch differ where they did before, unless the patch covers it. -/
theorem apply_ne_apply_iff {f : Patch ι α} {g g' : ι → α} {i : ι} :
    f.apply g i ≠ f.apply g' i ↔ f i = none ∧ g i ≠ g' i := by
  cases h : f i <;> simp [apply, h]

theorem apply_after (f f' : Patch ι α) (g : ι → α) :
    (f.after f').apply g = f.apply (f'.apply g) := by
  funext i
  cases h : f i <;> simp [apply, after, h]

@[simp] theorem applyAll_nil (g : ι → α) : applyAll [] g = g := rfl

@[simp] theorem applyAll_cons (f : Patch ι α) (fs : List (Patch ι α)) (g : ι → α) :
    applyAll (f :: fs) g = applyAll fs (f.apply g) := rfl

theorem applyAll_append (fs fs' : List (Patch ι α)) (g : ι → α) :
    applyAll (fs ++ fs') g = applyAll fs' (applyAll fs g) :=
  List.foldl_append

theorem applyAll_of_forall_none {fs : List (Patch ι α)} {g : ι → α} {i : ι}
    (h : ∀ f ∈ fs, f i = none) : applyAll fs g i = g i := by
  induction fs generalizing g with
  | nil => rfl
  | cons f fs ih =>
      rw [applyAll_cons, ih fun f' hf' ↦ h f' (List.mem_cons_of_mem f hf')]
      exact apply_of_eq_none (h f List.mem_cons_self)

theorem applyAll_congr {fs : List (Patch ι α)} {g g' : ι → α} {i : ι} (h : g i = g' i) :
    applyAll fs g i = applyAll fs g' i := by
  induction fs generalizing g g' with
  | nil => exact h
  | cons f fs ih => exact ih (by simp [apply, h])

theorem apply_join (fs : List (Patch ι α)) (g : ι → α) : (join fs).apply g = applyAll fs g := by
  suffices h : ∀ f₀ : Patch ι α, (fs.foldl (fun g f ↦ f.after g) f₀).apply g =
      applyAll fs (f₀.apply g) from h empty
  induction fs with
  | nil => exact fun _ ↦ rfl
  | cons f fs ih =>
      intro f₀
      rw [List.foldl_cons, ih, apply_after, applyAll_cons]

theorem foldl_after (fs : List (Patch ι α)) (f₀ : Patch ι α) (i : ι) :
    fs.foldl (fun g f ↦ f.after g) f₀ i = (join fs i).or (f₀ i) := by
  unfold join
  induction fs generalizing f₀ with
  | nil => rfl
  | cons f fs ih =>
      rw [List.foldl_cons, List.foldl_cons, ih, ih (f.after empty), after, after, empty,
        Option.or_none, Option.or_assoc]

theorem join_append (fs fs' : List (Patch ι α)) (i : ι) :
    join (fs ++ fs') i = (join fs' i).or (join fs i) := by
  rw [join, List.foldl_append, foldl_after, ← join]

@[simp] theorem join_nil (i : ι) : join ([] : List (Patch ι α)) i = none := rfl

theorem join_cons (f : Patch ι α) (fs : List (Patch ι α)) (i : ι) :
    join (f :: fs) i = (join fs i).or (f i) := by
  rw [join, List.foldl_cons, foldl_after, after, empty, Option.or_none]

theorem join_eq_none {fs : List (Patch ι α)} {i : ι} : join fs i = none ↔ ∀ f ∈ fs, f i = none := by
  suffices h : ∀ f₀ : Patch ι α, fs.foldl (fun g f ↦ f.after g) f₀ i = none ↔
      f₀ i = none ∧ ∀ f ∈ fs, f i = none by simpa [empty, join] using h empty
  induction fs with
  | nil => simp
  | cons f fs ih =>
      intro f₀
      rw [List.foldl_cons, ih, after, Option.or_eq_none_iff, List.forall_mem_cons]
      tauto

/-- Patches that agree at a point have their common value there. -/
theorem join_eq_some {fs : List (Patch ι α)} {i : ι} {a : α} (hsome : ∃ f ∈ fs, (f i).isSome)
    (hagree : ∀ f ∈ fs, (f i).isSome → f i = some a) : join fs i = some a := by
  suffices h : ∀ f₀ : Patch ι α, ((f₀ i).isSome → f₀ i = some a) →
      ((f₀ i).isSome ∨ ∃ f ∈ fs, (f i).isSome) →
        fs.foldl (fun g f ↦ f.after g) f₀ i = some a from h empty (by simp [empty]) (.inr hsome)
  clear hsome
  induction fs with
  | nil => exact fun f₀ h₀ hsome ↦ h₀ (by simpa using hsome)
  | cons f fs ih =>
      intro f₀ h₀ hsome
      have hf := hagree f List.mem_cons_self
      refine ih (fun f' hf' ↦ hagree f' (List.mem_cons_of_mem f hf')) (f.after f₀) ?_ ?_
      · cases h : f i <;> simp_all [after]
      · rcases hsome with hsome | ⟨f', hf', hsome⟩
        · left
          cases h : f i <;> simp_all [after]
        · rcases List.mem_cons.mp hf' with rfl | hf'
          · left
            cases h : f' i <;> simp_all [after]
          · exact .inr ⟨f', hf', hsome⟩

end Patch
