import ProofStell.Lib.Float64
import Mathlib.Data.UInt
import Mathlib.Tactic.Ring

/-! Spans of time with nanosecond resolution, up to `u64::MAX` seconds. -/

structure Duration where
  nanos : Nat
  bounded : nanos < 2^64*10^9
  deriving DecidableEq

namespace Duration

@[ext] theorem ext {a b : Duration} (h : a.nanos = b.nanos) : a = b := by
  cases a
  cases b
  simpa using h

def ofMillis (ms : UInt64) : Duration where
  nanos := ms.toNat*10^6
  bounded := by
    have := ms.toNat_lt
    omega

def checkedMul (d : Duration) (k : UInt32) : Option Duration :=
  if h : d.nanos*k.toNat < 2^64*10^9 then some ⟨d.nanos*k.toNat,h⟩ else none

def min (a b : Duration) : Duration := if a.nanos ≤ b.nanos then a else b

def asMillis (d : Duration) : Nat := d.nanos/10^6

/-- The seconds and the part below them, each converted, then added. -/
def asSecsF64 (d : Duration) : ℚ :=
  Float64.add (Float64.fl (d.nanos/10^9 : Nat))
    (Float64.div (Float64.fl (d.nanos%10^9 : Nat)) (10^9))

@[simp] theorem ofMillis_nanos (ms : UInt64) : (ofMillis ms).nanos = ms.toNat*10^6 := rfl

theorem ofMillis_inj {a b : UInt64} : ofMillis a = ofMillis b ↔ a = b := by
  constructor
  · intro h
    have hnanos : a.toNat*10^6 = b.toNat*10^6 := congrArg nanos h
    exact UInt64.toNat_inj.mp (by omega)
  · intro h
    rw [h]

@[simp] theorem min_nanos (a b : Duration) : (a.min b).nanos = Nat.min a.nanos b.nanos := by
  rw [min]
  change _ = if a.nanos ≤ b.nanos then a.nanos else b.nanos
  split <;> rfl

theorem checkedMul_of_lt {d : Duration} {k : UInt32} (h : d.nanos*k.toNat < 2^64*10^9) :
    d.checkedMul k = some ⟨d.nanos*k.toNat,h⟩ := dif_pos h

theorem asSecsF64_nonneg (d : Duration) : 0 ≤ d.asSecsF64 :=
  Float64.fl_nonneg (add_nonneg (Float64.fl_nonneg (Nat.cast_nonneg _))
    (Float64.fl_nonneg (div_nonneg (Float64.fl_nonneg (Nat.cast_nonneg _)) (by norm_num))))

theorem asSecsF64_error (d : Duration) :
    |d.asSecsF64-(d.nanos:ℚ)/10^9| ≤ ((d.nanos:ℚ)/10^9+2)/2^50 := by
  have hsplit : (d.nanos:ℚ) = 10^9*(d.nanos/10^9 : Nat)+(d.nanos%10^9 : Nat) := by
    exact_mod_cast (Nat.div_add_mod d.nanos (10^9)).symm
  have hsub : ((d.nanos%10^9 : Nat):ℚ) ≤ 10^9 := by
    exact_mod_cast (Nat.mod_lt _ (by norm_num)).le
  have hsecs : (0:ℚ) ≤ (d.nanos/10^9 : Nat) := Nat.cast_nonneg _
  have hrest : (0:ℚ) ≤ (d.nanos%10^9 : Nat) := Nat.cast_nonneg _
  have hw := Float64.fl_nonneg hsecs
  have hn := Float64.fl_nonneg hrest
  have hq := Float64.fl_nonneg (div_nonneg hn (show (0:ℚ) ≤ 10^9 by norm_num))
  have ⟨ewl,ewr⟩ := abs_le.mp (Float64.fl_error hsecs)
  have ⟨enl,enr⟩ := abs_le.mp (Float64.fl_error hrest)
  have ⟨eql,eqr⟩ := abs_le.mp
    (Float64.fl_error (div_nonneg hn (show (0:ℚ) ≤ 10^9 by norm_num)))
  have ⟨esl,esr⟩ := abs_le.mp (Float64.fl_error (add_nonneg hw hq))
  rw [asSecsF64,Float64.add,Float64.div,abs_le,hsplit]
  constructor <;> linarith

end Duration
