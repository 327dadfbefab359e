import Mathlib.Data.UInt
import Mathlib.Tactic.Common

/-! Saturating and checked arithmetic on machine words, read back as natural numbers. -/
namespace Saturating

def sub64 (a b : UInt64) : UInt64 := if b ≤ a then a-b else 0
def mul64 (a b : UInt64) : UInt64 := UInt64.ofNat (min (a.toNat*b.toNat) (2^64-1))
def add64 (a b : UInt64) : UInt64 := UInt64.ofNat (min (a.toNat+b.toNat) (2^64-1))
def add32 (a b : UInt32) : UInt32 := UInt32.ofNat (min (a.toNat+b.toNat) (2^32-1))
def sub32 (a b : UInt32) : UInt32 := if b ≤ a then a-b else 0
def pow32 (a k : UInt32) : UInt32 := UInt32.ofNat (min (a.toNat^k.toNat) (2^32-1))

/-- The overflow check of a result in `w` bits; `none` is the panic. -/
def fits (w n : Nat) : Option Unit := if n < 2^w then some () else none

@[simp] theorem sub64_toNat (a b : UInt64) : (sub64 a b).toNat = a.toNat-b.toNat := by
  rw [sub64]
  split
  · next h => exact UInt64.toNat_sub_of_le a b h
  · next h =>
    rw [UInt64.le_iff_toNat_le] at h
    simp only [UInt64.toNat_zero]
    omega

@[simp] theorem sub32_toNat (a b : UInt32) : (sub32 a b).toNat = a.toNat-b.toNat := by
  rw [sub32]
  split
  · next h => exact UInt32.toNat_sub_of_le a b h
  · next h =>
    rw [UInt32.le_iff_toNat_le] at h
    simp only [UInt32.toNat_zero]
    omega

@[simp] theorem mul64_toNat (a b : UInt64) :
    (mul64 a b).toNat = min (a.toNat*b.toNat) (2^64-1) := by
  rw [mul64]
  exact UInt64.toNat_ofNat_of_lt' (by simp only [UInt64.size]; omega)

@[simp] theorem add64_toNat (a b : UInt64) :
    (add64 a b).toNat = min (a.toNat+b.toNat) (2^64-1) := by
  rw [add64]
  exact UInt64.toNat_ofNat_of_lt' (by simp only [UInt64.size]; omega)

@[simp] theorem add32_toNat (a b : UInt32) :
    (add32 a b).toNat = min (a.toNat+b.toNat) (2^32-1) := by
  rw [add32]
  exact UInt32.toNat_ofNat_of_lt' (by simp only [UInt32.size]; omega)

@[simp] theorem pow32_toNat (a k : UInt32) :
    (pow32 a k).toNat = min (a.toNat^k.toNat) (2^32-1) := by
  rw [pow32]
  exact UInt32.toNat_ofNat_of_lt' (by simp only [UInt32.size]; omega)

theorem add64_one_of_lt {a : UInt64} (h : (add64 a 1).toNat < 2^64-1) :
    (add64 a 1).toNat = a.toNat+1 := by
  rw [add64_toNat,UInt64.toNat_one] at h ⊢
  omega

theorem le_add64_one (a : UInt64) : a.toNat ≤ (add64 a 1).toNat := by
  have := a.toNat_lt
  rw [add64_toNat,UInt64.toNat_one]
  omega

theorem min32_toNat (a b : UInt32) : (min a b).toNat = min a.toNat b.toNat := by
  rw [show min a b = if a ≤ b then a else b from rfl,Nat.min_def]
  simp only [UInt32.le_iff_toNat_le]
  split <;> rfl

theorem max32_toNat (a b : UInt32) : (max a b).toNat = max a.toNat b.toNat := by
  rw [show max a b = if a ≤ b then b else a from rfl,Nat.max_def]
  simp only [UInt32.le_iff_toNat_le]
  split <;> rfl

theorem min64_toNat (a b : UInt64) : (min a b).toNat = min a.toNat b.toNat := by
  rw [show min a b = if a ≤ b then a else b from rfl,Nat.min_def]
  simp only [UInt64.le_iff_toNat_le]
  split <;> rfl

section
variable {α : Type} {w n : Nat} {f : Unit → Option α}

theorem fits_bind_of_lt (h : n < 2^w) : (fits w n >>= f) = f () := by
  rw [fits,if_pos h]
  rfl

theorem fits_bind_eq_some {v : α} : (fits w n >>= f) = some v ↔ n < 2^w ∧ f () = some v := by
  by_cases h : n < 2^w
  · rw [fits_bind_of_lt h]
    exact ⟨fun hf => ⟨h,hf⟩,fun hf => hf.2⟩
  · rw [fits,if_neg h]
    exact ⟨fun hf => absurd hf.symm (Option.some_ne_none v),fun hf => absurd hf.1 h⟩

end

/-- A cap hides a clamp of the exponent at which the power alone reaches it. -/
theorem min_clamped_pow {base cap k : Nat} (n : Nat) (hbase : 1 ≤ base) (hcap : cap ≤ 2^k) :
    min (base*2^min n k) cap = min (base*2^n) cap := by
  rcases le_total n k with h | h
  · rw [min_eq_left h]
  · have hclamped : 2^k ≤ base*2^k := Nat.le_mul_of_pos_left _ hbase
    have hpow : base*2^k ≤ base*2^n := Nat.mul_le_mul_left _ (Nat.pow_le_pow_right (by omega) h)
    rw [min_eq_right h,min_eq_right (hcap.trans hclamped),
      min_eq_right (hcap.trans (hclamped.trans hpow))]

end Saturating
