import Mathlib.Data.Finset.Card
import Mathlib.Logic.Function.Basic

/-! Permits of a semaphore. Those that are free and those that are held make up its size, as long
as each acquisition takes a free one and each release gives one back. A lock is a semaphore of
one permit. -/
namespace Semaphore
variable {κ : Type*} {size free : Nat} {holds : κ → Bool}

def Balanced (size free : Nat) (holds : κ → Bool) : Prop :=
  ∃ holders : Finset κ, (∀ k, k∈holders ↔ holds k = true) ∧ free+holders.card = size

theorem balanced_start (size : Nat) : Balanced size size fun _ : κ => false :=
  ⟨∅,by simp,rfl⟩

inductive Move (free : Nat) (held : Bool) : Nat → Bool → Prop
  | stay : Move free held free held
  | take : free≠0 → held = false → Move free held (free-1) true
  | give : held = true → Move free held (free+1) false

namespace Balanced

section
variable [DecidableEq κ] {k : κ}

theorem acquire (h : Balanced size free holds) (hfree : free≠0) (hk : holds k = false) :
    Balanced size (free-1) (Function.update holds k true) := by
  obtain ⟨holders,hmem,hcard⟩ := h
  have hnew : k∉holders := by rw [hmem,hk]; exact Bool.false_ne_true
  refine ⟨insert k holders,fun j => ?_,?_⟩
  · by_cases hj : j = k
    · subst hj
      simp
    · simp [hj,hmem]
  · rw [Finset.card_insert_of_notMem hnew]
    omega

theorem release (h : Balanced size free holds) (hk : holds k = true) :
    Balanced size (free+1) (Function.update holds k false) := by
  obtain ⟨holders,hmem,hcard⟩ := h
  have hin : k∈holders := (hmem k).mpr hk
  refine ⟨holders.erase k,fun j => ?_,?_⟩
  · by_cases hj : j = k
    · subst hj
      simp
    · simp [hj,hmem]
  · have hpos := Finset.card_pos.mpr ⟨k,hin⟩
    rw [Finset.card_erase_of_mem hin]
    omega

theorem move (h : Balanced size free holds) {free' : Nat} {held' : Bool}
    (hmove : Move free (holds k) free' held') :
    Balanced size free' (Function.update holds k held') := by
  cases hmove with
  | stay => rwa [Function.update_eq_self]
  | take hfree hk => exact h.acquire hfree hk
  | give hk => exact h.release hk

end

theorem card_le (h : Balanced size free holds) {S : Finset κ} (hS : ∀ k∈S, holds k = true) :
    free+S.card ≤ size := by
  obtain ⟨holders,hmem,hcard⟩ := h
  have hsub := Finset.card_le_card fun k hk => (hmem k).mpr (hS k hk)
  omega

theorem none_free_iff (h : Balanced size free holds) :
    free = 0 ↔ ∃ S : Finset κ, S.card = size ∧ ∀ k∈S, holds k = true := by
  obtain ⟨holders,hmem,hcard⟩ := h
  constructor
  · exact fun hfree => ⟨holders,by omega,fun k hk => (hmem k).mp hk⟩
  · rintro ⟨S,hsize,hS⟩
    have hle := card_le ⟨holders,hmem,hcard⟩ hS
    omega

theorem all_free_iff (h : Balanced size free holds) : free = size ↔ ∀ k, holds k = false := by
  obtain ⟨holders,hmem,hcard⟩ := h
  have hempty : free = size ↔ holders = ∅ := by
    rw [← Finset.card_eq_zero]
    omega
  rw [hempty,Finset.eq_empty_iff_forall_notMem]
  simp only [hmem,Bool.not_eq_true]

theorem held_of_held (h : Balanced size free holds) {k : κ} (hk : holds k = true) : free < size := by
  have hle := h.card_le (S := {k}) fun j hj => Finset.mem_singleton.mp hj ▸ hk
  rw [Finset.card_singleton] at hle
  omega

end Balanced
end Semaphore
