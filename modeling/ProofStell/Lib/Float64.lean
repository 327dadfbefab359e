import Mathlib.Data.Int.Log
import Mathlib.Data.Rat.Floor
import Mathlib.Tactic.Linarith
import Mathlib.Tactic.NormNum

/-! Double precision: a finite value is the rational it stands for, and an operation is the exact
one followed by a single rounding. Infinities and NaN are left out, so this covers magnitudes up
to `2^1023`. -/
namespace Float64

def nearest (q : ℚ) : ℤ :=
  if Int.fract q < 1/2 then ⌊q⌋
  else if 1/2 < Int.fract q then ⌊q⌋+1
  else if ⌊q⌋%2 = 0 then ⌊q⌋ else ⌊q⌋+1

/-- The distance of neighbouring values around `x`: 53 significant bits, and no finer than the
subnormal numbers. -/
def spacing (x : ℚ) : ℚ := 2^max (Int.log 2 |x|-52) (-1074)

def fl (x : ℚ) : ℚ := nearest (x/spacing x)*spacing x

def add (x y : ℚ) : ℚ := fl (x+y)
def mul (x y : ℚ) : ℚ := fl (x*y)
def div (x y : ℚ) : ℚ := fl (x/y)

/-- To an integer, halves away from zero, as `f64::round` does. -/
def roundAway (x : ℚ) : ℤ := if 0 ≤ x then ⌊x+1/2⌋ else -⌊-x+1/2⌋

/-- `as u64`: towards zero, and saturating at both ends. -/
def toU64 (x : ℚ) : UInt64 := UInt64.ofNat (min ⌊x⌋.toNat (2^64-1))

theorem nearest_error (q : ℚ) : |nearest q-q| ≤ 1/2 := by
  have hsplit : (⌊q⌋ : ℚ)+Int.fract q = q := Int.floor_add_fract q
  have hpos := Int.fract_nonneg q
  have hlt := Int.fract_lt_one q
  rw [nearest,abs_le]
  split
  · constructor <;> linarith
  · split
    · push_cast
      constructor <;> linarith
    · split
      · constructor <;> linarith
      · push_cast
        constructor <;> linarith

theorem spacing_pos (x : ℚ) : 0 < spacing x := zpow_pos (by norm_num) _

theorem spacing_le {x : ℚ} (h : 0 ≤ x) : spacing x ≤ (x+1)/2^52 := by
  rw [spacing,abs_of_nonneg h]
  rcases le_total (Int.log 2 x-52) (-1074) with hmax | hmax
  · rw [max_eq_right hmax]
    calc (2:ℚ)^(-1074:ℤ) ≤ 2^(-52:ℤ) := zpow_le_zpow_right₀ (by norm_num) (by norm_num)
      _ = 1/2^52 := by norm_num
      _ ≤ (x+1)/2^52 := div_le_div_of_nonneg_right (by linarith) (by norm_num)
  · have hlog : (2:ℚ)^Int.log 2 x ≤ x+1 := by
      rcases h.eq_or_lt with rfl | hpos
      · simp
      · have hself := Int.zpow_log_le_self (b := 2) (by norm_num) hpos
        rw [Nat.cast_ofNat] at hself
        linarith
    rw [max_eq_left hmax,zpow_sub₀ (by norm_num),show (2:ℚ)^(52:ℤ) = 2^52 by norm_num]
    exact div_le_div_of_nonneg_right hlog (by norm_num)

/-- One rounding: half a unit in the last place of `x+1`. -/
theorem fl_error {x : ℚ} (h : 0 ≤ x) : |fl x-x| ≤ (x+1)/2^53 := by
  have hspacing := spacing_pos x
  have hfactor : fl x-x = (nearest (x/spacing x)-x/spacing x)*spacing x := by
    rw [fl,sub_mul,div_mul_cancel₀ x hspacing.ne']
  rw [hfactor,abs_mul,abs_of_pos hspacing]
  calc |(nearest (x/spacing x):ℚ)-x/spacing x| * spacing x ≤ 1/2*spacing x :=
        mul_le_mul_of_nonneg_right (nearest_error _) hspacing.le
    _ ≤ 1/2*((x+1)/2^52) := mul_le_mul_of_nonneg_left (spacing_le h) (by norm_num)
    _ = (x+1)/2^53 := by ring

theorem nearest_nonneg {q : ℚ} (h : 0 ≤ q) : 0 ≤ nearest q := by
  have hfloor : 0 ≤ ⌊q⌋ := Int.floor_nonneg.mpr h
  rw [nearest]
  split
  · exact hfloor
  · split
    · omega
    · split <;> omega

theorem fl_nonneg {x : ℚ} (h : 0 ≤ x) : 0 ≤ fl x :=
  mul_nonneg (Int.cast_nonneg (nearest_nonneg (div_nonneg h (spacing_pos x).le)))
    (spacing_pos x).le

@[simp] theorem fl_zero : fl 0 = 0 := by
  simp [fl,nearest]

@[simp] theorem roundAway_zero : roundAway 0 = 0 := by
  norm_num [roundAway]

theorem toU64_toNat (n : ℤ) : (toU64 n).toNat = min n.toNat (2^64-1) := by
  rw [toU64,Int.floor_intCast]
  exact UInt64.toNat_ofNat_of_lt' (by simp only [UInt64.size]; omega)

theorem roundAway_le {x : ℚ} (h : 0 ≤ x) : (roundAway x:ℚ) ≤ x+1/2 := by
  rw [roundAway,if_pos h]
  exact Int.floor_le _

end Float64
