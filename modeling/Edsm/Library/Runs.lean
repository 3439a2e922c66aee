import Mathlib.Data.List.Range
import Mathlib.Order.Basic

/-!
# Maximal runs of a predicate

The runs of a predicate on `0, …, n - 1`, found in one pass from left to right:
the next number extends the last run or starts a new one.
-/

/-- The numbers `start, …, start + length - 1`. -/
structure Run where
  start : ℕ
  length : ℕ
  deriving DecidableEq, Repr

namespace Run

/-- The first number after the run. -/
def stop (r : Run) : ℕ := r.start + r.length

instance : Membership ℕ Run := ⟨fun r i ↦ r.start ≤ i ∧ i < r.stop⟩

theorem mem_def {r : Run} {i : ℕ} : i ∈ r ↔ r.start ≤ i ∧ i < r.start + r.length := .rfl

def extend (r : Run) : Run := { r with length := r.length + 1 }

/-- One more number: it belongs to the last run if that run ends there. -/
def push (n : ℕ) (rs : List Run) : List Run :=
  match rs.getLast? with
  | some r => if r.stop = n then rs.dropLast ++ [r.extend] else rs ++ [⟨n, 1⟩]
  | none => [⟨n, 1⟩]

end Run

/-- The runs of `p` below `n`. -/
def runs (p : ℕ → Bool) : ℕ → List Run
  | 0 => []
  | n + 1 => if p n then Run.push n (runs p n) else runs p n

/-- The runs of `p` below `n`: not empty, as long as possible, in increasing
order, and together everything below `n` where `p` holds. -/
structure MaximalRuns (p : ℕ → Bool) (n : ℕ) (rs : List Run) : Prop where
  pos : ∀ r ∈ rs, 0 < r.length
  le : ∀ r ∈ rs, r.stop ≤ n
  increasing : rs.Pairwise fun r r' ↦ r.stop < r'.start
  sound : ∀ r ∈ rs, ∀ i ∈ r, p i = true
  complete : ∀ i < n, p i = true → ∃ r ∈ rs, i ∈ r
  left : ∀ r ∈ rs, ∀ i, i + 1 = r.start → p i = false
  right : ∀ r ∈ rs, r.stop < n → p r.stop = false

namespace Run

/-- The length of the last run if it ends at `n`. -/
def trailing (n : ℕ) (rs : List Run) : ℕ :=
  match rs.getLast? with
  | some r => if r.stop = n then r.length else 0
  | none => 0

variable {n : ℕ} {rs : List Run} {r : Run}

@[simp] theorem push_nil : push n [] = [⟨n, 1⟩] := rfl

theorem push_concat_of_eq (h : r.stop = n) : push n (rs ++ [r]) = rs ++ [r.extend] := by
  simp [push, h]

theorem push_concat_of_ne (h : r.stop ≠ n) : push n (rs ++ [r]) = rs ++ [r] ++ [⟨n, 1⟩] := by
  simp [push, h]

@[simp] theorem trailing_nil : trailing n [] = 0 := rfl

@[simp] theorem trailing_concat : trailing n (rs ++ [r]) = if r.stop = n then r.length else 0 := by
  simp [trailing]

end Run

variable {p : ℕ → Bool} {n : ℕ} {rs : List Run} {r : Run}

namespace MaximalRuns

theorem init : MaximalRuns p 0 [] := by
  constructor <;> simp

theorem skip (h : MaximalRuns p n rs) (hn : p n = false) : MaximalRuns p (n + 1) rs where
  pos := h.pos
  le r hr := (h.le r hr).trans n.le_succ
  increasing := h.increasing
  sound := h.sound
  complete i hi hp := by
    have hne : i ≠ n := by
      rintro rfl
      simp [hn] at hp
    exact h.complete i (by omega) hp
  left := h.left
  right r hr hlt := by
    rcases Nat.lt_succ_iff_lt_or_eq.mp hlt with hlt | heq
    · exact h.right r hr hlt
    · rw [heq, hn]

theorem start (h : MaximalRuns p n rs) (hn : p n = true) (hstop : ∀ r ∈ rs, r.stop ≠ n) :
    MaximalRuns p (n + 1) (rs ++ [⟨n, 1⟩]) where
  pos r hr := by
    rcases List.mem_append.mp hr with hr | hr
    · exact h.pos r hr
    · simp [List.mem_singleton.mp hr]
  le r hr := by
    rcases List.mem_append.mp hr with hr | hr
    · exact (h.le r hr).trans n.le_succ
    · rw [List.mem_singleton.mp hr]
      rfl
  increasing := by
    refine List.pairwise_append.mpr ⟨h.increasing, by simp, fun r hr r' hr' ↦ ?_⟩
    rw [List.mem_singleton.mp hr']
    exact lt_of_le_of_ne (h.le r hr) (hstop r hr)
  sound r hr i hi := by
    rcases List.mem_append.mp hr with hr | hr
    · exact h.sound r hr i hi
    · rw [List.mem_singleton.mp hr] at hi
      obtain rfl : n = i := Nat.le_antisymm hi.1 (Nat.lt_succ_iff.mp hi.2)
      exact hn
  complete i hi hp := by
    rcases Nat.lt_succ_iff_lt_or_eq.mp hi with hi | rfl
    · obtain ⟨r, hr, hmem⟩ := h.complete i hi hp
      exact ⟨r, List.mem_append_left _ hr, hmem⟩
    · exact ⟨⟨i, 1⟩, by simp, by simp [Run.mem_def]⟩
  left r hr i hi := by
    rcases List.mem_append.mp hr with hr | hr
    · exact h.left r hr i hi
    · -- a run that contains the number before would end at `n`
      obtain hi : i + 1 = n := by rw [hi, List.mem_singleton.mp hr]
      by_contra hp
      obtain ⟨r', hr', hmem⟩ := h.complete i (by omega) (by simpa using hp)
      have hle : r'.start + r'.length ≤ n := h.le r' hr'
      have hne : r'.start + r'.length ≠ n := hstop r' hr'
      rw [Run.mem_def] at hmem
      omega
  right r hr hlt := by
    rcases List.mem_append.mp hr with hr | hr
    · exact h.right r hr (lt_of_le_of_ne (h.le r hr) (hstop r hr))
    · rw [List.mem_singleton.mp hr] at hlt
      simp [Run.stop] at hlt

theorem extend (h : MaximalRuns p n (rs ++ [r])) (hn : p n = true) (hstop : r.stop = n) :
    MaximalRuns p (n + 1) (rs ++ [r.extend]) := by
  have hr : r ∈ rs ++ [r] := by simp
  have hmem : ∀ i, i ∈ r.extend ↔ i ∈ r ∨ i = n := by
    intro i
    simp only [Run.mem_def, Run.extend]
    have hpos := h.pos r hr
    unfold Run.stop at hstop
    omega
  have hext : r.extend.stop = n + 1 := by
    rw [← hstop]
    rfl
  have hold : ∀ r' ∈ rs ++ [r.extend], r' ∈ rs ∨ r' = r.extend := by simp
  refine ⟨fun r' hr' ↦ ?_, fun r' hr' ↦ ?_, ?_, fun r' hr' i hi ↦ ?_, fun i hi hp ↦ ?_,
    fun r' hr' i hi ↦ ?_, fun r' hr' hlt ↦ ?_⟩
  · rcases hold r' hr' with hr' | rfl
    · exact h.pos r' (List.mem_append_left _ hr')
    · exact Nat.succ_pos _
  · rcases hold r' hr' with hr' | rfl
    · exact (h.le r' (List.mem_append_left _ hr')).trans n.le_succ
    · exact hext.le
  · obtain ⟨hrs, -, hlt⟩ := List.pairwise_append.mp h.increasing
    refine List.pairwise_append.mpr ⟨hrs, by simp, fun r' hr' r'' hr'' ↦ ?_⟩
    rw [List.mem_singleton.mp hr'']
    exact hlt r' hr' r (by simp)
  · rcases hold r' hr' with hr' | rfl
    · exact h.sound r' (List.mem_append_left _ hr') i hi
    · rcases (hmem i).mp hi with hi | rfl
      · exact h.sound r hr i hi
      · exact hn
  · rcases Nat.lt_succ_iff_lt_or_eq.mp hi with hi | rfl
    · obtain ⟨r', hr', hi⟩ := h.complete i hi hp
      rcases List.mem_append.mp hr' with hr' | hr'
      · exact ⟨r', List.mem_append_left _ hr', hi⟩
      · rw [List.mem_singleton.mp hr'] at hi
        exact ⟨r.extend, by simp, (hmem i).mpr (.inl hi)⟩
    · exact ⟨r.extend, by simp, (hmem i).mpr (.inr rfl)⟩
  · rcases hold r' hr' with hr' | rfl
    · exact h.left r' (List.mem_append_left _ hr') i hi
    · exact h.left r hr i hi
  · rcases hold r' hr' with hr' | rfl
    · refine h.right r' (List.mem_append_left _ hr') ?_
      have hlt' := (List.pairwise_append.mp h.increasing).2.2 r' hr' r (by simp)
      calc r'.stop < r.start := hlt'
        _ ≤ r.stop := Nat.le_add_right _ _
        _ = n := hstop
    · omega

theorem stop_ne (h : MaximalRuns p n (rs ++ [r])) (hstop : r.stop ≠ n) :
    ∀ r' ∈ rs ++ [r], r'.stop ≠ n := by
  intro r' hr'
  rcases List.mem_append.mp hr' with hr' | hr'
  · have hlt := (List.pairwise_append.mp h.increasing).2.2 r' hr' r (by simp)
    have hle : r.start + r.length ≤ n := h.le r (by simp)
    unfold Run.stop at hlt hstop ⊢
    omega
  · rwa [List.mem_singleton.mp hr']

theorem push (h : MaximalRuns p n rs) (hn : p n = true) :
    MaximalRuns p (n + 1) (Run.push n rs) := by
  obtain rfl | ⟨rs, r, rfl⟩ := rs.eq_nil_or_concat'
  · exact h.start hn (by simp)
  · by_cases hstop : r.stop = n
    · rw [Run.push_concat_of_eq hstop]
      exact h.extend hn hstop
    · rw [Run.push_concat_of_ne hstop]
      exact h.start hn (h.stop_ne hstop)

/-- Runs are apart, so there is a number between two of them. -/
theorem two_mul_length_le (h : MaximalRuns p n rs) : 2 * rs.length ≤ n + 1 := by
  suffices hbound : ∀ rs : List Run, (∀ r ∈ rs, 0 < r.length) →
      (rs.Pairwise fun r r' ↦ r.stop < r'.start) → ∀ m, (∀ r ∈ rs, r.stop ≤ m) →
        2 * rs.length ≤ m + 1 from hbound rs h.pos h.increasing n h.le
  intro rs
  induction rs using List.reverseRecOn with
  | nil => simp
  | append_singleton rs r ih =>
      intro hpos hinc m hle
      obtain ⟨hrs, -, hlt⟩ := List.pairwise_append.mp hinc
      have hr : r.start + r.length ≤ m := hle r (by simp)
      have hlen := hpos r (by simp)
      have hbefore : 2 * rs.length ≤ r.start - 1 + 1 := by
        refine ih (fun r' hr' ↦ hpos r' (List.mem_append_left _ hr')) hrs (r.start - 1) ?_
        intro r' hr'
        have := hlt r' hr' r (by simp)
        omega
      rw [List.length_append, List.length_singleton]
      cases rs with
      | nil => simp; omega
      | cons r' rs =>
          have := hlt r' (by simp) r (by simp)
          omega

end MaximalRuns

theorem maximalRuns_runs (p : ℕ → Bool) (n : ℕ) : MaximalRuns p n (runs p n) := by
  induction n with
  | zero => exact .init
  | succ n ih =>
      rw [runs]
      split
      · next hn => exact ih.push hn
      · next hn => exact ih.skip (by simpa using hn)

theorem exists_mem_runs_iff {i : ℕ} : (∃ r ∈ runs p n, i ∈ r) ↔ i < n ∧ p i = true := by
  have h := maximalRuns_runs p n
  constructor
  · rintro ⟨r, hr, hi⟩
    exact ⟨hi.2.trans_le (h.le r hr), h.sound r hr i hi⟩
  · rintro ⟨hi, hp⟩
    exact h.complete i hi hp

/-- Where the predicate holds everywhere there is one run. -/
theorem exists_length_eq_of_forall (hpos : 0 < n) (h : ∀ i < n, p i = true) :
    ∃ r ∈ runs p n, r.length = n := by
  have hmax := maximalRuns_runs p n
  obtain ⟨r, hr, hmem⟩ := hmax.complete 0 hpos (h 0 hpos)
  have hstart : r.start = 0 := Nat.le_zero.mp hmem.1
  have hle := hmax.le r hr
  refine ⟨r, hr, ?_⟩
  by_contra hne
  have hlt : r.stop < n := by
    unfold Run.stop at hle ⊢
    omega
  have hfalse := hmax.right r hr hlt
  rw [h r.stop hlt] at hfalse
  cases hfalse

/-- A run as long as everything below `n` leaves nothing out. -/
theorem forall_of_length_eq (hr : r ∈ runs p n) (hlength : r.length = n) :
    ∀ i < n, p i = true := by
  have hmax := maximalRuns_runs p n
  have hle := hmax.le r hr
  unfold Run.stop at hle
  intro i hi
  exact hmax.sound r hr i (Run.mem_def.mpr ⟨by omega, by omega⟩)

theorem trailing_runs_succ (p : ℕ → Bool) (n : ℕ) :
    Run.trailing (n + 1) (runs p (n + 1)) =
      if p n then Run.trailing n (runs p n) + 1 else 0 := by
  have h := maximalRuns_runs p n
  rw [runs]
  split
  · next hn =>
      obtain hnil | ⟨rs, r, hconcat⟩ := (runs p n).eq_nil_or_concat'
      · rw [hnil, Run.push_nil]
        exact if_pos rfl
      · rw [hconcat, Run.trailing_concat]
        by_cases hstop : r.stop = n
        · rw [Run.push_concat_of_eq hstop, Run.trailing_concat, if_pos hstop]
          exact if_pos (by rw [← hstop]; rfl)
        · rw [Run.push_concat_of_ne hstop, Run.trailing_concat, if_neg hstop]
          exact if_pos rfl
  · obtain hnil | ⟨rs, r, hconcat⟩ := (runs p n).eq_nil_or_concat'
    · rw [hnil, Run.trailing_nil]
    · rw [hconcat, Run.trailing_concat, if_neg]
      have hle := h.le r (by simp [hconcat])
      omega

theorem trailing_of_forall (h : ∀ i < n, p i = true) : Run.trailing n (runs p n) = n := by
  induction n with
  | zero => rfl
  | succ n ih =>
      rw [trailing_runs_succ, if_pos (h n n.lt_succ_self), ih fun i hi ↦ h i (by omega)]

/-- The next number extends the last run or starts a new one. -/
theorem runs_succ_of_true (hn : p n = true) :
    (∃ rs r, runs p n = rs ++ [r] ∧ r.stop = n ∧ runs p (n + 1) = rs ++ [r.extend] ∧
        Run.trailing n (runs p n) = r.length) ∨
      (runs p (n + 1) = runs p n ++ [⟨n, 1⟩] ∧ Run.trailing n (runs p n) = 0) := by
  rw [runs, if_pos hn]
  obtain hnil | ⟨rs, r, hconcat⟩ := (runs p n).eq_nil_or_concat'
  · exact .inr ⟨by simp [hnil], by simp [hnil]⟩
  · rw [hconcat, Run.trailing_concat]
    by_cases hstop : r.stop = n
    · exact .inl ⟨rs, r, rfl, hstop, Run.push_concat_of_eq hstop, if_pos hstop⟩
    · exact .inr ⟨Run.push_concat_of_ne hstop, if_neg hstop⟩

theorem runs_succ_of_false (hn : p n = false) : runs p (n + 1) = runs p n := by
  simp [runs, hn]

theorem length_lt_of_runs_succ {b : ℕ} (h : ∀ r ∈ runs p (n + 1), r.length < b) :
    ∀ r ∈ runs p n, r.length < b := by
  cases hn : p n with
  | false => rwa [runs_succ_of_false hn] at h
  | true =>
      rcases runs_succ_of_true hn with ⟨rs, r, hruns, -, hsucc, -⟩ | ⟨hsucc, -⟩
      · rw [hsucc, List.forall_mem_append, List.forall_mem_singleton] at h
        rw [hruns, List.forall_mem_append, List.forall_mem_singleton]
        exact ⟨h.1, (Nat.lt_succ_self r.length).trans h.2⟩
      · rw [hsucc, List.forall_mem_append] at h
        exact h.1

/-- The run in progress is not longer than the runs in the end. -/
theorem trailing_lt_of_length_lt {b : ℕ} (hb : 0 < b) (h : ∀ r ∈ runs p n, r.length < b) :
    ∀ i ≤ n, Run.trailing i (runs p i) < b := by
  induction n with
  | zero =>
      intro i hi
      obtain rfl := Nat.le_zero.mp hi
      exact hb
  | succ n ih =>
      intro i hi
      rcases Nat.le_succ_iff.mp hi with hi | rfl
      · exact ih (length_lt_of_runs_succ h) i hi
      · obtain hnil | ⟨rs, r, hconcat⟩ := (runs p (n + 1)).eq_nil_or_concat'
        · rwa [hnil]
        · have hr := h r (by simp [hconcat])
          rw [hconcat, Run.trailing_concat]
          split
          · exact hr
          · exact hb

theorem trailing_runs_le (p : ℕ → Bool) (n : ℕ) : Run.trailing n (runs p n) ≤ n := by
  obtain hnil | ⟨rs, r, hconcat⟩ := (runs p n).eq_nil_or_concat'
  · simp [hnil]
  · have hle := (maximalRuns_runs p n).le r (by simp [hconcat])
    rw [hconcat, Run.trailing_concat]
    unfold Run.stop at hle ⊢
    split <;> omega
