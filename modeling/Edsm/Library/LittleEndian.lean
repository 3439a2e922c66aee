import Mathlib.Algebra.Group.Nat.Defs
import Mathlib.Data.List.Basic

/-!
# Little-endian integers

A number as a fixed count of bytes, the least significant byte first.
-/

namespace LittleEndian

/-- The last `w` base-256 digits of `n`. -/
def toBytes : ℕ → ℕ → List UInt8
  | 0, _ => []
  | w + 1, n => UInt8.ofNat n :: toBytes w (n / 256)

def ofBytes : List UInt8 → ℕ
  | [] => 0
  | b :: bs => b.toNat + 256 * ofBytes bs

@[simp] theorem length_toBytes (w n : ℕ) : (toBytes w n).length = w := by
  induction w generalizing n with
  | zero => rfl
  | succ w ih => rw [toBytes, List.length_cons, ih]

/-- The low digits come first. -/
theorem toBytes_add (v w n : ℕ) : toBytes (v + w) n = toBytes v n ++ toBytes w (n / 256 ^ v) := by
  induction v generalizing n with
  | zero => simp [toBytes]
  | succ v ih =>
      rw [Nat.succ_add, toBytes, toBytes, ih, List.cons_append, pow_succ', Nat.div_div_eq_div_mul]

theorem ofBytes_toBytes (w n : ℕ) : ofBytes (toBytes w n) = n % 256 ^ w := by
  induction w generalizing n with
  | zero => simp [toBytes, ofBytes, Nat.mod_one]
  | succ w ih =>
      have hdigit : (UInt8.ofNat n).toNat = n % 256 := UInt8.toNat_ofNat'
      rw [toBytes, ofBytes, ih, hdigit, pow_succ', Nat.mod_mul]

theorem ofBytes_toBytes_eq_iff {w n : ℕ} : ofBytes (toBytes w n) = n ↔ n < 256 ^ w := by
  rw [ofBytes_toBytes]
  exact ⟨fun h ↦ h ▸ Nat.mod_lt n (Nat.pow_pos (by decide)), Nat.mod_eq_of_lt⟩

theorem ofBytes_lt (bs : List UInt8) : ofBytes bs < 256 ^ bs.length := by
  induction bs with
  | nil => exact Nat.one_pos
  | cons b bs ih =>
      have hb := b.toNat_lt
      rw [ofBytes, List.length_cons, pow_succ']
      omega

theorem toBytes_ofBytes (bs : List UInt8) : toBytes bs.length (ofBytes bs) = bs := by
  induction bs with
  | nil => rfl
  | cons b bs ih =>
      have hb := b.toNat_lt
      have hdigit : UInt8.ofNat (b.toNat + 256 * ofBytes bs) = b := by
        apply UInt8.toNat_inj.mp
        rw [UInt8.toNat_ofNat']
        omega
      have hrest : (b.toNat + 256 * ofBytes bs) / 256 = ofBytes bs := by omega
      rw [ofBytes, List.length_cons, toBytes, hdigit, hrest, ih]

theorem toBytes_mod (w n : ℕ) : toBytes w (n % 256 ^ w) = toBytes w n := by
  induction w generalizing n with
  | zero => rfl
  | succ w ih =>
      have hdigit : UInt8.ofNat (n % 256 ^ (w + 1)) = UInt8.ofNat n := by
        apply UInt8.toNat_inj.mp
        rw [UInt8.toNat_ofNat', UInt8.toNat_ofNat', pow_succ']
        exact Nat.mod_mul_right_mod n 256 (256 ^ w)
      have hrest : n % 256 ^ (w + 1) / 256 = n / 256 % 256 ^ w := by
        rw [pow_succ', Nat.mod_mul_right_div_self]
      rw [toBytes, toBytes, hdigit, hrest, ih]

theorem uint32_ofBytes_toBytes (v : UInt32) :
    UInt32.ofNat (ofBytes (toBytes 4 v.toNat)) = v := by
  have hlt : v.toNat < 256 ^ 4 := v.toNat_lt
  rw [ofBytes_toBytes, Nat.mod_eq_of_lt hlt, UInt32.ofNat_toNat]

theorem uint16_ofBytes_toBytes (v : UInt16) :
    UInt16.ofNat (ofBytes (toBytes 2 v.toNat)) = v := by
  have hlt : v.toNat < 256 ^ 2 := v.toNat_lt
  rw [ofBytes_toBytes, Nat.mod_eq_of_lt hlt, UInt16.ofNat_toNat]

end LittleEndian
