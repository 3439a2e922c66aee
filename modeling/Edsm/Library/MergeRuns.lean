import Mathlib.Data.List.Sort

/-!
# Merging neighbouring runs

A list is cut into runs of `n` members, and each run is merged with the next one.
If the runs were sorted, those of twice the length are then, and what started with
runs of one member ends with a single sorted one.
-/

namespace MergeRuns

variable {α : Type*} (le : α → α → Bool)

def pass (n : ℕ) (xs : List α) : List α :=
  if xs = [] ∨ n = 0 then xs
  else (xs.take n).merge ((xs.drop n).take n) le ++ pass n (xs.drop (2 * n))
termination_by xs.length
decreasing_by
  rename_i h
  rw [not_or] at h
  have hpos := List.length_pos_iff.mpr h.1
  rw [List.length_drop]
  omega

/-- How many times two runs are merged. -/
def merges (n : ℕ) (xs : List α) : ℕ := (xs.length + 2 * n - 1) / (2 * n)

def RunsSorted (n : ℕ) (xs : List α) : Prop :=
  ∀ k, ((xs.drop (k * n)).take n).Pairwise fun a b ↦ le a b

variable {le} {n : ℕ} {xs : List α}

theorem pass_nil (n : ℕ) : pass le n ([] : List α) = [] := by
  rw [pass, if_pos (.inl rfl)]

theorem pass_of_ne_nil (hn : 0 < n) (h : xs ≠ []) :
    pass le n xs = (xs.take n).merge ((xs.drop n).take n) le ++ pass le n (xs.drop (2 * n)) := by
  rw [pass, if_neg (not_or.mpr ⟨h, by omega⟩)]

theorem take_take_drop (n : ℕ) (xs : List α) :
    xs.take n ++ (xs.drop n).take n = xs.take (2 * n) := by
  rw [Nat.two_mul, List.take_add]

variable (le) in
theorem pass_perm (n : ℕ) (xs : List α) : (pass le n xs).Perm xs := by
  induction xs using pass.induct n with
  | case1 xs h =>
      rw [pass, if_pos h]
  | case2 xs h ih =>
      rw [pass, if_neg h]
      calc (xs.take n).merge ((xs.drop n).take n) le ++ pass le n (xs.drop (2 * n))
          |>.Perm (xs.take n ++ (xs.drop n).take n ++ xs.drop (2 * n)) :=
            (List.merge_perm_append le).append ih
        _ = xs := by rw [take_take_drop, List.take_append_drop]

theorem length_pass (n : ℕ) (xs : List α) : (pass le n xs).length = xs.length :=
  (pass_perm le n xs).length_eq

theorem runsSorted_one (xs : List α) : RunsSorted le 1 xs := by
  intro k
  match (xs.drop (k * 1)).take 1, List.length_take_le 1 (xs.drop (k * 1)) with
  | [], _ => exact .nil
  | [a], _ => exact List.pairwise_singleton _ a

theorem RunsSorted.drop (h : RunsSorted le n xs) (j : ℕ) : RunsSorted le n (xs.drop (j * n)) := by
  intro k
  rw [List.drop_drop, ← Nat.add_mul]
  exact h (j + k)

theorem RunsSorted.take (h : RunsSorted le n xs) : (xs.take n).Pairwise fun a b ↦ le a b := by
  simpa using h 0

/-- A list that is one run is sorted. -/
theorem RunsSorted.pairwise (h : RunsSorted le n xs) (hn : xs.length ≤ n) :
    xs.Pairwise fun a b ↦ le a b := by
  have htake := h.take
  rwa [List.take_of_length_le hn] at htake

variable (le) in
theorem length_merged (n : ℕ) (xs : List α) :
    ((xs.take n).merge ((xs.drop n).take n) le).length = min (2 * n) xs.length := by
  rw [List.length_merge, ← List.length_append, take_take_drop, List.length_take]

/-- The first two runs become the first one of the result, and the others the rest. -/
theorem take_drop_pass (hn : 0 < n) (xs : List α) :
    (pass le n xs).take (2 * n) = (xs.take n).merge ((xs.drop n).take n) le ∧
      (pass le n xs).drop (2 * n) = pass le n (xs.drop (2 * n)) := by
  by_cases hnil : xs = []
  · subst hnil
    simp [pass_nil]
  · rw [pass_of_ne_nil hn hnil]
    have hlength := length_merged le n xs
    by_cases hle : 2 * n ≤ xs.length
    · rw [Nat.min_eq_left hle] at hlength
      exact ⟨List.take_left' hlength, List.drop_left' hlength⟩
    · have hrest : xs.drop (2 * n) = [] := List.drop_of_length_le (by omega)
      rw [hrest, pass_nil, List.append_nil]
      exact ⟨List.take_of_length_le (by omega), List.drop_of_length_le (by omega)⟩

theorem RunsSorted.pass (htrans : ∀ a b c, le a b → le b c → le a c)
    (htotal : ∀ a b, le a b || le b a) (hn : 0 < n) (h : RunsSorted le n xs) :
    RunsSorted le (2 * n) (pass le n xs) := by
  intro k
  induction k generalizing xs with
  | zero =>
      rw [Nat.zero_mul, List.drop_zero, (take_drop_pass hn xs).1]
      exact List.pairwise_merge htrans htotal _ _ h.take (by simpa using (h.drop 1).take)
  | succ k ih =>
      rw [Nat.succ_mul k, Nat.add_comm (k * (2 * n)), ← List.drop_drop, (take_drop_pass hn xs).2]
      exact ih (h.drop 2)

theorem merges_nil (hn : 0 < n) : merges n ([] : List α) = 0 := by
  rw [merges, List.length_nil]
  exact Nat.div_eq_of_lt (by omega)

theorem merges_of_ne_nil (hn : 0 < n) (h : xs ≠ []) :
    merges n xs = merges n (xs.drop (2 * n)) + 1 := by
  have hpos := List.length_pos_iff.mpr h
  rw [merges, merges, List.length_drop]
  by_cases hle : 2 * n ≤ xs.length
  · rw [show xs.length + 2 * n - 1 = xs.length - 2 * n + 2 * n - 1 + 2 * n by omega,
      Nat.add_div_right _ (by omega)]
  · rw [show xs.length - 2 * n + 2 * n - 1 = 2 * n - 1 by omega,
      Nat.div_eq_of_lt (a := 2 * n - 1) (by omega)]
    exact Nat.div_eq_of_lt_le (by omega) (by omega)

/-- The pass has merged everything into one run. -/
theorem length_le_of_merges (hn : 0 < n) (h : merges n xs ≤ 1) : xs.length ≤ 2 * n := by
  have hlt : (xs.length + 2 * n - 1) / (2 * n) < 2 := by
    rw [merges] at h
    omega
  rw [Nat.div_lt_iff_lt_mul (by omega)] at hlt
  omega

theorem lt_length_of_merges (hn : 0 < n) (h : ¬ merges n xs ≤ 1) : 2 * n < xs.length := by
  by_contra hle
  refine h (Nat.lt_succ_iff.mp ?_)
  rw [merges, Nat.div_lt_iff_lt_mul (by omega)]
  omega

end MergeRuns
