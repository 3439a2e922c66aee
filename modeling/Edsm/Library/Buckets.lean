import Mathlib.Algebra.BigOperators.Group.List.Lemmas
import Mathlib.Data.List.GetD

/-!
# Chains of a hash table

The members of a list are spread over chains, each into the one that `index` gives.
The order within a chain is left open, since a table that grows turns it around.
-/

namespace Buckets

variable {α : Type*} {index : α → ℕ} {chains : List (List α)} {xs ys : List α} {x : α}

/-- Each member is in the chain of its index, and no chain has anything else. -/
structure Distributed (index : α → ℕ) (chains : List (List α)) (xs : List α) : Prop where
  index_lt : ∀ x ∈ xs, index x < chains.length
  perm : ∀ i, (chains.getD i []).Perm (xs.filter fun x ↦ index x = i)

def push (index : α → ℕ) (chains : List (List α)) (x : α) : List (List α) :=
  chains.set (index x) (x :: chains.getD (index x) [])

theorem distributed_nil (index : α → ℕ) (n : ℕ) :
    Distributed index (List.replicate n []) ([] : List α) where
  index_lt := by simp
  perm i := by
    rw [List.getD_eq_getElem?_getD, List.getElem?_replicate]
    split <;> exact .refl _

theorem Distributed.of_perm (h : Distributed index chains xs) (hperm : xs.Perm ys) :
    Distributed index chains ys where
  index_lt y hy := h.index_lt y (hperm.mem_iff.mpr hy)
  perm i := (h.perm i).trans (hperm.filter _)

theorem Distributed.push (h : Distributed index chains xs) (hx : index x < chains.length) :
    Distributed index (push index chains x) (x :: xs) where
  index_lt y hy := by
    rw [Buckets.push, List.length_set]
    rcases List.mem_cons.mp hy with rfl | hy
    · exact hx
    · exact h.index_lt y hy
  perm i := by
    have hperm := h.perm i
    rw [Buckets.push, List.getD_eq_getElem?_getD, List.filter_cons]
    by_cases hi : index x = i
    · subst hi
      rw [List.getElem?_set_self hx]
      simpa using hperm
    · rw [List.getElem?_set_ne hi, ← List.getD_eq_getElem?_getD]
      simpa [hi] using hperm

theorem Distributed.mem_iff (h : Distributed index chains xs) {i : ℕ} :
    x ∈ chains.getD i [] ↔ x ∈ xs ∧ index x = i := by
  rw [(h.perm i).mem_iff, List.mem_filter, decide_eq_true_iff]

/-- The chains together. -/
theorem Distributed.flatten_perm (h : Distributed index chains xs) : chains.flatten.Perm xs := by
  classical
  rw [List.perm_iff_count]
  intro a
  have hcounts : chains.map (List.count a) =
      (List.range chains.length).map fun i ↦ if i = index a then xs.count a else 0 := by
    refine List.ext_getElem (by simp) fun i hi _ ↦ ?_
    rw [List.length_map] at hi
    have hperm := h.perm i
    rw [List.getD_eq_getElem _ _ hi] at hperm
    rw [List.getElem_map, List.getElem_map, List.getElem_range, hperm.count_eq]
    by_cases hia : i = index a
    · rw [if_pos hia, List.count_filter (by simp [hia])]
    · rw [if_neg hia, List.count_eq_zero]
      intro hmem
      have hindex : index a = i := by simpa using (List.mem_filter.mp hmem).2
      exact hia hindex.symm
  rw [List.count_flatten, hcounts,
    List.sum_map_eq_nsmul_single (index a) _ fun i hi _ ↦ if_neg hi, if_pos rfl]
  by_cases ha : a ∈ xs
  · have hmem := List.mem_range.mpr (h.index_lt a ha)
    rw [List.count_eq_one_of_mem List.nodup_range hmem, one_nsmul]
  · rw [List.count_eq_zero.mpr ha, nsmul_zero]

end Buckets
