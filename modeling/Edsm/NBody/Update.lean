import Edsm.Message
import Mathlib.Algebra.BigOperators.Group.Finset.Basic
import Mathlib.Order.Interval.Finset.Nat

/-!
# The work of one thread of the n-body simulation

`test/nbody.c`.  Nothing is said of the arithmetic of `double`: the operations and the
eight bytes of a number are parameters.
-/

namespace Edsm.NBody

/-- `double` -/
class Double (F : Type) extends Add F, Sub F, Mul F, Div F where
  pow : F → F → F
  lt : F → F → Bool
  le : F → F → Bool
  eq : F → F → Bool
  /-- The number `n / 10 ^ k`. -/
  lit (n k : ℕ) : F
  bytes : F → List UInt8
  ofBytes : List UInt8 → F
  length_bytes : ∀ x, (bytes x).length = 8
  ofBytes_bytes : ∀ x, ofBytes (bytes x) = x

/-- `body` -/
structure Body (F : Type) where
  x : F
  y : F
  vx : F
  vy : F
  mass : F
  deriving DecidableEq

variable {F : Type} [Double F]

namespace Body

/-- `sizeof(body)` -/
def size : ℕ := 40

def bytes (b : Body F) : List UInt8 :=
  Double.bytes b.x ++ Double.bytes b.y ++ Double.bytes b.vx ++ Double.bytes b.vy ++
    Double.bytes b.mass

/-- The element `i` of an array of bodies in memory. -/
def load (memory : ℕ → UInt8) (i : ℕ) : Body F :=
  let field (k : ℕ) : F := Double.ofBytes ((List.range 8).map fun j ↦ memory (i * size + 8 * k + j))
  ⟨field 0, field 1, field 2, field 3, field 4⟩

/-- `memset` to 0. -/
def zero : Body F := load (fun _ ↦ 0) 0

end Body

def length (x1 y1 x2 y2 : F) : F :=
  Double.pow (Double.pow (x1 - x2) (Double.lit 2 0) + Double.pow (y1 - y2) (Double.lit 2 0))
    (Double.lit 5 1)

def radius (mass : F) : F := Double.pow (mass / Double.lit 200 0) (Double.lit 5 1)

/-- The local variables of the loop over the other bodies. -/
structure Sum (F : Type) where
  fx : F
  fy : F
  update : Body F

/-- Two bodies that have met become one. -/
def Body.merge (update other : Body F) : Body F where
  vx := (update.mass * update.vx + other.mass * other.vx) / (update.mass + other.mass)
  vy := (update.mass * update.vy + other.mass * other.vy) / (update.mass + other.mass)
  x := (update.mass * update.x + other.mass * other.x) / (update.mass + other.mass)
  y := (update.mass * update.y + other.mass * other.y) / (update.mass + other.mass)
  mass := update.mass + other.mass

/-- The body of the loop over the other bodies; `none` is the `return` of a body that is taken
in by another one. -/
def interact (bodies : ℕ → Body F) (self : ℕ) (s : Sum F) (i : ℕ) : Option (Sum F) :=
  let other := bodies i
  if i = self ∨ Double.le other.mass (Double.lit 0 0) = true then some s
  else
    let d := length other.x other.y s.update.x s.update.y
    if Double.lt d (radius s.update.mass + radius other.mass) = true then
      if Double.lt other.mass s.update.mass = true ∨
          (Double.eq s.update.mass other.mass = true ∧ i < self) then
        some { s with update := s.update.merge other }
      else none
    else
      let f := Double.lit 67 12 * other.mass * s.update.mass / d
      some { s with
        fx := s.fx + f * (other.x - s.update.x) / d
        fy := s.fy + f * (other.y - s.update.y) / d }

/-- The position is moved with the velocity that has just been changed. -/
def Sum.move (s : Sum F) (dt : F) : Body F :=
  let vx := s.update.vx + s.fx / s.update.mass * dt
  let vy := s.update.vy + s.fy / s.update.mass * dt
  { s.update with
    vx
    vy
    x := vx * dt + s.update.x
    y := vy * dt + s.update.y }

def microStep (bodies : ℕ → Body F) (count self : ℕ) (dt : F) (update : Body F) :
    Option (Body F) :=
  ((List.range count).foldlM (interact bodies self)
    { fx := Double.lit 0 0, fy := Double.lit 0 0, update }).map (·.move dt)

/-- `update_body`, which changes one element of `tmp_bodies`; a negative `micro_step_count` makes no
loop. -/
def updateBody (bodies tmpBodies : ℕ → Body F) (count offset index : ℕ) (dt : F)
    (microStepCount : ℤ) : ℕ → Body F :=
  let update := bodies (index + offset)
  if Double.le update.mass (Double.lit 0 0) = true then tmpBodies
  else
    match (List.range microStepCount.toNat).foldlM
      (fun update _ ↦ microStep bodies count (index + offset) dt update) update with
    | none => Function.update tmpBodies index { tmpBodies index with mass := Double.lit 0 0 }
    | some update => Function.update tmpBodies index update

/-! ## What is written to an element -/

/-- The new value of the element of the body `self`; of a body that another one takes in only the
mass is written, and of one without mass nothing. -/
def nextBody (bodies : ℕ → Body F) (count self : ℕ) (dt : F) (microStepCount : ℤ) (old : Body F) :
    Body F :=
  if Double.le (bodies self).mass (Double.lit 0 0) = true then old
  else
    match (List.range microStepCount.toNat).foldlM
      (fun update _ ↦ microStep bodies count self dt update) (bodies self) with
    | none => { old with mass := Double.lit 0 0 }
    | some update => update

theorem updateBody_eq (bodies tmpBodies : ℕ → Body F) (count offset index : ℕ) (dt : F)
    (microStepCount : ℤ) : updateBody bodies tmpBodies count offset index dt microStepCount =
      Function.update tmpBodies index
        (nextBody bodies count (index + offset) dt microStepCount (tmpBodies index)) := by
  unfold updateBody nextBody
  simp only
  split
  · exact (Function.update_eq_self index tmpBodies).symm
  · split <;> rfl

/-- The bodies themselves do not move, so a second time step computes the same again. -/
theorem nextBody_nextBody (bodies : ℕ → Body F) (count self : ℕ) (dt : F) (microStepCount : ℤ)
    (old : Body F) : nextBody bodies count self dt microStepCount
      (nextBody bodies count self dt microStepCount old) =
        nextBody bodies count self dt microStepCount old := by
  unfold nextBody
  split
  · rfl
  · split <;> rfl

theorem interact_congr {bodies bodies' : ℕ → Body F} {self i : ℕ} (h : bodies i = bodies' i)
    (s : Sum F) : interact bodies self s i = interact bodies' self s i := by
  unfold interact
  rw [h]

theorem microStep_congr {bodies bodies' : ℕ → Body F} {count self : ℕ}
    (h : ∀ i < count, bodies i = bodies' i) (dt : F) (update : Body F) :
    microStep bodies count self dt update = microStep bodies' count self dt update := by
  have hfold : ∀ (is : List ℕ) (s : Sum F), (∀ i ∈ is, i < count) →
      is.foldlM (interact bodies self) s = is.foldlM (interact bodies' self) s := by
    intro is
    induction is with
    | nil => exact fun _ _ ↦ rfl
    | cons i is ih =>
        intro s his
        rw [List.foldlM_cons, List.foldlM_cons, interact_congr (h i (his i List.mem_cons_self))]
        exact congrArg _ (funext fun s ↦ ih s fun j hj ↦ his j (List.mem_cons_of_mem i hj))
  unfold microStep
  rw [hfold _ _ fun i hi ↦ List.mem_range.mp hi]

/-- Only the elements of the array are read. -/
theorem nextBody_congr {bodies bodies' : ℕ → Body F} {count self : ℕ}
    (h : ∀ i < count, bodies i = bodies' i) (hself : self < count) (dt : F) (microStepCount : ℤ)
    (old : Body F) : nextBody bodies count self dt microStepCount old =
      nextBody bodies' count self dt microStepCount old := by
  have hstep : (fun (update : Body F) (_ : ℕ) ↦ microStep bodies count self dt update) =
      fun update _ ↦ microStep bodies' count self dt update := by
    funext update _
    exact microStep_congr h dt update
  unfold nextBody
  rw [h self hself, hstep]

/-- `tmp_bodies` after `t` time steps and the first `i` bodies of the next one. -/
def tmpAfter (bodies : ℕ → Body F) (bodyCount start count : ℕ) (dt : F) (microStepCount : ℤ)
    (t i : ℕ) : ℕ → Body F := fun j ↦
  if j < count ∧ (0 < t ∨ j < i) then
    nextBody bodies bodyCount (j + start) dt microStepCount .zero
  else .zero

theorem updateBody_tmpAfter {bodies : ℕ → Body F} {bodyCount start count i : ℕ} (dt : F)
    (microStepCount : ℤ) (t : ℕ) (hi : i < count) :
    updateBody bodies (tmpAfter bodies bodyCount start count dt microStepCount t i) bodyCount start
      i dt microStepCount =
        tmpAfter bodies bodyCount start count dt microStepCount t (i + 1) := by
  rw [updateBody_eq]
  funext j
  by_cases hj : j = i
  · subst hj
    have hnext : j < count ∧ (0 < t ∨ j < j + 1) := ⟨hi, .inr j.lt_succ_self⟩
    rw [Function.update_self, tmpAfter, tmpAfter, if_pos hnext]
    split
    · exact nextBody_nextBody _ _ _ _ _ _
    · rfl
  · have hlt : j < i ↔ j < i + 1 := by omega
    simp only [Function.update_of_ne hj, tmpAfter, hlt]

theorem tmpAfter_count (bodies : ℕ → Body F) (bodyCount start count : ℕ) (dt : F)
    (microStepCount : ℤ) (t : ℕ) : tmpAfter bodies bodyCount start count dt microStepCount t count =
      tmpAfter bodies bodyCount start count dt microStepCount (t + 1) 0 := by
  funext j
  rw [tmpAfter, tmpAfter]
  by_cases hj : j < count <;> simp [hj]

/-! ## Bodies in memory -/

/-- The byte `k` of an array of bodies. -/
def byteOf (bodies : ℕ → Body F) (k : ℕ) : UInt8 :=
  (bodies (k / Body.size)).bytes.getD (k % Body.size) 0

theorem map_range_getD (as bs cs : List UInt8) :
    (List.range bs.length).map (fun j ↦ (as ++ (bs ++ cs)).getD (as.length + j) 0) = bs := by
  refine List.ext_getElem (by simp) fun i hi hi' ↦ ?_
  simp only [List.getElem_map, List.getElem_range]
  rw [List.getD_eq_getElem?_getD, List.getElem?_append_right (Nat.le_add_right _ _),
    Nat.add_sub_cancel_left, List.getElem?_append_left hi', List.getElem?_eq_getElem hi']
  rfl

theorem load_eq {memory : ℕ → UInt8} {bodies : ℕ → Body F} {i : ℕ}
    (h : ∀ k < Body.size, memory (i * Body.size + k) = byteOf bodies (i * Body.size + k)) :
    Body.load memory i = bodies i := by
  have hbyte : ∀ k < Body.size, memory (i * Body.size + k) = (bodies i).bytes.getD k 0 := by
    intro k hk
    rw [h k hk, byteOf, Nat.mul_comm, Nat.mul_add_div (by decide), Nat.mul_add_mod,
      Nat.div_eq_of_lt hk, Nat.mod_eq_of_lt hk, Nat.add_zero]
  have hfield : ∀ (as cs : List UInt8) (x : F) (k : ℕ), as.length = 8 * k → k < 5 →
      (bodies i).bytes = as ++ (Double.bytes x ++ cs) →
        Double.ofBytes ((List.range 8).map fun j ↦ memory (i * Body.size + 8 * k + j)) = x := by
    intro as cs x k has hk hbytes
    have hrange := map_range_getD as (Double.bytes x) cs
    rw [Double.length_bytes, has, ← hbytes] at hrange
    rw [← Double.ofBytes_bytes x, ← hrange]
    refine congrArg _ (List.map_congr_left fun j hj ↦ ?_)
    have hlt : 8 * k + j < Body.size := by
      have := List.mem_range.mp hj
      rw [Body.size]
      omega
    rw [Nat.add_assoc, hbyte _ hlt]
  have hlength : ∀ x : F, (Double.bytes x).length = 8 := Double.length_bytes
  rcases hbody : bodies i with ⟨x, y, vx, vy, mass⟩
  have hbytes : (bodies i).bytes = Double.bytes x ++ (Double.bytes y ++ (Double.bytes vx ++
      (Double.bytes vy ++ Double.bytes mass))) := by
    simp [hbody, Body.bytes]
  simp only [Body.load, Body.mk.injEq]
  refine ⟨?_, ?_, ?_, ?_, ?_⟩
  · exact hfield [] _ x 0 rfl (by decide) hbytes
  · exact hfield (Double.bytes x) _ y 1 (by simp [hlength]) (by decide) hbytes
  · exact hfield (Double.bytes x ++ Double.bytes y) (Double.bytes vy ++ Double.bytes mass) vx 2
      (by simp [hlength]) (by decide) (by simp [hbytes])
  · exact hfield (Double.bytes x ++ Double.bytes y ++ Double.bytes vx) (Double.bytes mass) vy 3
      (by simp [hlength]) (by decide) (by simp [hbytes])
  · exact hfield (Double.bytes x ++ Double.bytes y ++ Double.bytes vx ++ Double.bytes vy) [] mass 4
      (by simp [hlength]) (by decide) (by simp [hbytes])

/-! ## The share of a thread -/

/-- `i * body_count / thread_count`; the product is one of `uint32_t`. -/
def start (bodyCount : UInt32) (threadCount i : ℕ) : UInt32 :=
  UInt32.ofNat i * bodyCount / UInt32.ofNat threadCount

/-- `body_count / thread_count` -/
def count (bodyCount : UInt32) (threadCount : ℕ) : UInt32 := bodyCount / UInt32.ofNat threadCount

/-- The thread `i` updates the body `j`. -/
def InShare (bodyCount : UInt32) (threadCount i j : ℕ) : Prop :=
  (start bodyCount threadCount i).toNat ≤ j ∧
    j < (start bodyCount threadCount i).toNat + (count bodyCount threadCount).toNat

instance (bodyCount : UInt32) (threadCount i j : ℕ) :
    Decidable (InShare bodyCount threadCount i j) :=
  inferInstanceAs (Decidable (_ ∧ _))

section Share

variable {bodyCount : UInt32} {threadCount : ℕ}

theorem toNat_count (hthreads : threadCount < 2 ^ 31) :
    (count bodyCount threadCount).toNat = bodyCount.toNat / threadCount := by
  rw [count, UInt32.toNat_div, UInt32.toNat_ofNat', Nat.mod_eq_of_lt (by omega)]

theorem toNat_start (hthreads : threadCount < 2 ^ 31)
    (hfits : threadCount * bodyCount.toNat < 2 ^ 32) {i : ℕ} (hi : i < threadCount) :
    (start bodyCount threadCount i).toNat = i * bodyCount.toNat / threadCount := by
  have hproduct : i * bodyCount.toNat < 2 ^ 32 :=
    (Nat.mul_le_mul_right _ hi.le).trans_lt hfits
  rw [start, UInt32.toNat_div, UInt32.toNat_mul, UInt32.toNat_ofNat', UInt32.toNat_ofNat',
    Nat.mod_eq_of_lt (a := i) (by omega), Nat.mod_eq_of_lt (a := threadCount) (by omega),
    Nat.mod_eq_of_lt hproduct]

/-- The share of a thread ends where the next one begins, or before. -/
theorem start_add_count_le (hthreads : threadCount < 2 ^ 31)
    (hfits : threadCount * bodyCount.toNat < 2 ^ 32) {i k : ℕ} (hik : i < k)
    (hk : k ≤ threadCount) :
    (start bodyCount threadCount i).toNat + (count bodyCount threadCount).toNat ≤
      k * bodyCount.toNat / threadCount := by
  rw [toNat_start hthreads hfits (hik.trans_le hk), toNat_count hthreads]
  calc i * bodyCount.toNat / threadCount + bodyCount.toNat / threadCount
      ≤ (i * bodyCount.toNat + bodyCount.toNat) / threadCount := Nat.div_add_div_le_add_div
    _ = (i + 1) * bodyCount.toNat / threadCount := by rw [Nat.succ_mul]
    _ ≤ k * bodyCount.toNat / threadCount :=
        Nat.div_le_div_right (Nat.mul_le_mul_right _ hik)

theorem InShare.unique (hthreads : threadCount < 2 ^ 31)
    (hfits : threadCount * bodyCount.toNat < 2 ^ 32) {i k j : ℕ} (hi : i < threadCount)
    (hk : k < threadCount) (hij : InShare bodyCount threadCount i j)
    (hkj : InShare bodyCount threadCount k j) : i = k := by
  obtain ⟨hle, hlt⟩ := hij
  obtain ⟨hle', hlt'⟩ := hkj
  rcases Nat.lt_trichotomy i k with hik | rfl | hki
  · have hend := start_add_count_le hthreads hfits hik hk.le
    rw [← toNat_start hthreads hfits hk] at hend
    omega
  · rfl
  · have hend := start_add_count_le hthreads hfits hki hi.le
    rw [← toNat_start hthreads hfits hi] at hend
    omega

theorem InShare.lt_bodyCount (hthreads : threadCount < 2 ^ 31)
    (hfits : threadCount * bodyCount.toNat < 2 ^ 32) {i j : ℕ} (hi : i < threadCount)
    (hij : InShare bodyCount threadCount i j) : j < bodyCount.toNat := by
  have hend := start_add_count_le hthreads hfits hi le_rfl
  rw [Nat.mul_div_cancel_left _ (Nat.zero_lt_of_lt hi)] at hend
  exact hij.2.trans_le hend

/-- No body has two threads, no thread has a body that does not exist, and as many bodies have no
thread as the division leaves over. -/
theorem shares_partition (hthreads : threadCount < 2 ^ 31)
    (hfits : threadCount * bodyCount.toNat < 2 ^ 32) :
    (∀ j, ∀ i < threadCount, ∀ k < threadCount, InShare bodyCount threadCount i j →
      InShare bodyCount threadCount k j → i = k) ∧
    (∀ j, ∀ i < threadCount, InShare bodyCount threadCount i j → j < bodyCount.toNat) ∧
    ((Finset.range bodyCount.toNat).filter fun j ↦
      ∀ i < threadCount, ¬ InShare bodyCount threadCount i j).card =
        bodyCount.toNat % threadCount := by
  refine ⟨fun j i hi k hk ↦ InShare.unique hthreads hfits hi hk,
    fun j i hi ↦ InShare.lt_bodyCount hthreads hfits hi, ?_⟩
  let share (i : ℕ) : Finset ℕ := (Finset.range bodyCount.toNat).filter
    (InShare bodyCount threadCount i)
  have hcard : ∀ i ∈ Finset.range threadCount, (share i).card = bodyCount.toNat / threadCount := by
    intro i hi
    have heq : share i = Finset.Ico (start bodyCount threadCount i).toNat
        ((start bodyCount threadCount i).toNat + (count bodyCount threadCount).toNat) := by
      ext j
      simp only [share, Finset.mem_filter, Finset.mem_range, Finset.mem_Ico]
      exact ⟨And.right, fun hj ↦
        ⟨InShare.lt_bodyCount hthreads hfits (Finset.mem_range.mp hi) hj, hj⟩⟩
    rw [heq, Nat.card_Ico, Nat.add_sub_cancel_left, toNat_count hthreads]
  have hdisjoint : ∀ i ∈ Finset.range threadCount, ∀ k ∈ Finset.range threadCount, i ≠ k →
      Disjoint (share i) (share k) := by
    intro i hi k hk hne
    refine Finset.disjoint_left.mpr fun j hij hkj ↦ hne ?_
    exact InShare.unique hthreads hfits (Finset.mem_range.mp hi) (Finset.mem_range.mp hk)
      (Finset.mem_filter.mp hij).2 (Finset.mem_filter.mp hkj).2
  have hassigned : ((Finset.range threadCount).biUnion share).card =
      threadCount * (bodyCount.toNat / threadCount) := by
    rw [Finset.card_biUnion hdisjoint, Finset.sum_const_nat hcard, Finset.card_range]
  have hsplit : (Finset.range bodyCount.toNat).filter (fun j ↦
      ∀ i < threadCount, ¬ InShare bodyCount threadCount i j) =
      Finset.range bodyCount.toNat \ (Finset.range threadCount).biUnion share := by
    ext j
    simp only [share, Finset.mem_filter, Finset.mem_sdiff, Finset.mem_biUnion, Finset.mem_range]
    refine and_congr_right fun hj ↦ ⟨?_, fun hnot i hi hin ↦ hnot ⟨i, hi, hj, hin⟩⟩
    rintro hnone ⟨i, hi, -, hin⟩
    exact hnone i hi hin
  have hsub : (Finset.range threadCount).biUnion share ⊆ Finset.range bodyCount.toNat :=
    Finset.biUnion_subset.mpr fun i _ ↦ Finset.filter_subset _ _
  rw [hsplit, Finset.card_sdiff_of_subset hsub, hassigned, Finset.card_range]
  have hdiv := Nat.div_add_mod bodyCount.toNat threadCount
  omega

/-- Five bodies for two threads, of which one has no thread. -/
theorem shares_partition_five :
    ((Finset.range 5).filter fun j ↦ ∀ i < (2 : ℕ), ¬ InShare 5 2 i j).card = 1 :=
  (@shares_partition 5 2 (by decide) (by decide)).2.2

end Share

end Edsm.NBody
