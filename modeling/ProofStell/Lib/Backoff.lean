import Mathlib.Algebra.BigOperators.Group.Finset.Basic
import Mathlib.Tactic.Common

/-! Exponential back-off: pauses that double up to a cap, their sums, and events that keep such
pauses between them. -/
namespace Backoff

def delay (base cap n : Nat) : Nat := min (base*2^n) cap

def total (base cap k : Nat) : Nat := ∑ n∈Finset.range k, delay base cap n

variable {base cap : Nat}

theorem delay_le_cap (n : Nat) : delay base cap n ≤ cap := Nat.min_le_right _ _

theorem delay_of_ge {n j : Nat} (hj : cap ≤ base*2^j) (h : j ≤ n) : delay base cap n = cap :=
  min_eq_right (hj.trans (Nat.mul_le_mul_left _ (Nat.pow_le_pow_right (by omega) h)))

theorem total_zero : total base cap 0 = 0 := Finset.sum_range_zero _

theorem total_succ (k : Nat) : total base cap (k+1) = total base cap k+delay base cap k :=
  Finset.sum_range_succ _ _

theorem total_mono {k l : Nat} (h : k ≤ l) : total base cap k ≤ total base cap l := by
  induction h with
  | refl => rfl
  | step _ ih => exact ih.trans (total_succ _ ▸ Nat.le_add_right _ _)

theorem total_capped {j : Nat} (hj : cap ≤ base*2^j) (k : Nat) :
    total base cap (j+k) = total base cap j+k*cap := by
  induction k with
  | zero => rw [Nat.zero_mul,Nat.add_zero,Nat.add_zero]
  | succ k ih =>
    rw [← Nat.add_assoc,total_succ,ih,delay_of_ge hj (Nat.le_add_right j k),Nat.succ_mul]
    omega

/-- Compared with pauses that all take the cap, at most the first `j` save something. -/
theorem cap_mul_le {j : Nat} (hj : cap ≤ base*2^j) (k : Nat) :
    k*cap+total base cap j ≤ total base cap k+j*cap := by
  have short (n m : Nat) : total base cap (n+m) ≤ total base cap n+m*cap := by
    induction m with
    | zero => rw [Nat.zero_mul,Nat.add_zero,Nat.add_zero]
    | succ m ih =>
      have hcap : delay base cap (n+m) ≤ cap := delay_le_cap (n+m)
      rw [← Nat.add_assoc,total_succ,Nat.succ_mul]
      omega
  obtain h | h := le_total j k
  · obtain ⟨m,rfl⟩ := Nat.exists_eq_add_of_le h
    rw [total_capped hj,Nat.add_mul]
    omega
  · obtain ⟨m,rfl⟩ := Nat.exists_eq_add_of_le h
    have hshort := short k m
    rw [Nat.add_mul]
    omega

/-- Between the instants of `l` lie at least the pauses from the `n`-th on, in units of `unit`. -/
def Spaced (unit base cap : Nat) : Nat → List Nat → Prop
  | _, [] | _, [_] => True
  | n, t::u::l => t+delay base cap n*unit ≤ u ∧ Spaced unit base cap (n+1) (u::l)

theorem Spaced.snoc {unit n t u : Nat} {l : List Nat} (h : Spaced unit base cap n (l++[t]))
    (hu : t+delay base cap (n+l.length)*unit ≤ u) : Spaced unit base cap n (l++[t,u]) := by
  induction l generalizing n with
  | nil => exact ⟨hu,trivial⟩
  | cons s l ih =>
    have hshift : n+1+l.length = n+(s::l).length := by
      rw [List.length_cons]
      omega
    cases l with
    | nil => exact ⟨h.1,ih h.2 (by rwa [hshift])⟩
    | cons r l => exact ⟨h.1,ih h.2 (by rwa [hshift])⟩

theorem Spaced.span {unit n t u : Nat} {l : List Nat} (h : Spaced unit base cap n (t::l))
    (hu : (t::l).getLast? = some u) :
    t+total base cap (n+l.length)*unit ≤ u+total base cap n*unit := by
  induction l generalizing n t with
  | nil =>
    obtain rfl : t = u := by simpa using hu
    exact le_refl _
  | cons s l ih =>
    have hrest := ih h.2 (by simpa using hu)
    have hfirst := h.1
    rw [total_succ,Nat.add_mul] at hrest
    rw [List.length_cons,Nat.add_comm l.length 1,← Nat.add_assoc]
    omega

end Backoff
