import ProofStell.Lib.Machine
import Mathlib.Data.Fintype.Basic
import Mathlib.Logic.Function.Basic

/-! Check, then act: any number of callers look at a shared flag, and those who find it down
put it up in a later step. The flag keeps a second caller out only if nobody looks between the
two steps of another. -/
namespace CheckThenAct
variable {κ : Type*}

inductive Phase where
  | idle | checked | won | lost
  deriving DecidableEq, Repr

structure State (κ : Type*) where
  taken : Bool
  phase : κ → Phase

inductive Step (κ : Type*) where
  | check (k : κ) | act (k : κ) | pass

def start (taken : Bool) : State κ := ⟨taken,fun _ => .idle⟩

/-- A check is made while nobody is between a check and an act. -/
def alone (s : State κ) : Step κ → Prop
  | .check k => s.phase k = .idle → ∀ j, s.phase j≠.checked
  | .act _ | .pass => True

def Idle (s : State κ) : Prop := ∀ k, s.phase k≠.checked

def AtMostOne (s : State κ) : Prop := ∀ i j, s.phase i = .won → s.phase j = .won → i = j

section
variable [DecidableEq κ]

def State.move (s : State κ) (taken : Bool) (k : κ) (phase : Phase) : State κ :=
  ⟨taken,Function.update s.phase k phase⟩

@[simp] theorem State.move_taken (s : State κ) (taken : Bool) (k : κ) (phase : Phase) :
    (s.move taken k phase).taken = taken := rfl

@[simp] theorem State.move_phase (s : State κ) (taken : Bool) (k j : κ) (phase : Phase) :
    (s.move taken k phase).phase j = if j = k then phase else s.phase j :=
  Function.update_apply _ _ _ _

theorem State.move_self (s : State κ) (k : κ) : s.move s.taken k (s.phase k) = s := by
  rw [move,Function.update_eq_self]

def step (x : Step κ) (s : State κ) : Unit × State κ :=
  match x with
  | .check k =>
    ((),if s.phase k = .idle then s.move s.taken k (if s.taken then .lost else .checked) else s)
  | .act k => ((),if s.phase k = .checked then s.move true k .won else s)
  | .pass => ((),s)

/-- As long as the flag is down, at most one caller is about to put it up; once it is up, at
most one has done so and nobody else is about to. -/
structure Orderly (s : State κ) : Prop where
  down : s.taken = false → (∀ k, s.phase k≠.won) ∧
    ∀ i j, s.phase i = .checked → s.phase j = .checked → i = j
  up : s.taken = true → Idle s ∧ AtMostOne s

omit [DecidableEq κ] in
theorem orderly_start (taken : Bool) : Orderly (start taken : State κ) :=
  ⟨fun _ => ⟨by simp [start],by simp [start]⟩,
    fun _ => ⟨by simp [Idle,start],by simp [AtMostOne,start]⟩⟩

omit [DecidableEq κ] in
theorem Orderly.atMostOne {s : State κ} (h : Orderly s) : AtMostOne s := by
  cases htaken : s.taken with
  | true => exact (h.up htaken).2
  | false => exact fun i _ hi _ => absurd hi ((h.down htaken).1 i)

theorem Orderly.check {s : State κ} (h : Orderly s) (k : κ) (hidle : Idle s) :
    Orderly (s.move s.taken k (if s.taken then .lost else .checked)) := by
  cases htaken : s.taken with
  | false =>
    obtain ⟨hnone,_⟩ := h.down htaken
    have only (m : κ) (hm : (s.move false k .checked).phase m = .checked) : m = k := by
      by_contra hne
      exact hidle m (by simpa [hne] using hm)
    refine ⟨fun _ => ⟨?_,?_⟩,fun hup => (by cases hup)⟩
    · intro j
      rw [State.move_phase]
      split
      · simp
      · exact hnone j
    · intro i j hi hj
      rw [only i hi,only j hj]
  | true =>
    obtain ⟨_,hone⟩ := h.up htaken
    have before (m : κ) (hm : (s.move true k .lost).phase m = .won) : s.phase m = .won := by
      rw [State.move_phase] at hm
      split at hm
      · cases hm
      · exact hm
    refine ⟨fun hdown => (by cases hdown),fun _ => ⟨?_,?_⟩⟩
    · intro j
      rw [if_pos rfl,State.move_phase]
      split
      · simp
      · exact hidle j
    · intro i j hi hj
      exact hone i j (before i hi) (before j hj)

theorem Orderly.act {s : State κ} (h : Orderly s) {k : κ} (hk : s.phase k = .checked) :
    Orderly (s.move true k .won) := by
  have hdown : s.taken = false := by
    cases htaken : s.taken with
    | false => rfl
    | true => exact absurd hk ((h.up htaken).1 k)
  obtain ⟨hnone,hsingle⟩ := h.down hdown
  have only (m : κ) (hm : (s.move true k .won).phase m = .won) : m = k := by
    by_contra hne
    exact hnone m (by simpa [hne] using hm)
  refine ⟨fun hdown => (by cases hdown),fun _ => ⟨?_,?_⟩⟩
  · intro j
    rw [State.move_phase]
    split
    · simp
    · next hne => exact fun hj => hne (hsingle j k hj hk)
  · intro i j hi hj
    rw [only i hi,only j hj]

theorem Orderly.step {s : State κ} (h : Orderly s) {x : Step κ} (hx : alone s x) :
    Orderly (step x s).2 := by
  cases x with
  | pass => exact h
  | check k =>
    simp only [CheckThenAct.step]
    split
    · next hk => exact h.check k (hx hk)
    · exact h
  | act k =>
    simp only [CheckThenAct.step]
    split
    · next hk => exact h.act hk
    · exact h

/-- Whoever has found the flag down will have put it up in the end. -/
def Through (s : State κ) (k : κ) : Prop := s.phase k = .checked ∨ s.phase k = .won

theorem Through.step {s : State κ} {k : κ} (h : Through s k) (x : Step κ) :
    Through (step x s).2 k := by
  cases x with
  | pass => exact h
  | check j =>
    simp only [CheckThenAct.step]
    split
    · next hj =>
      have hne : k≠j := by
        intro heq
        simp [Through,heq,hj] at h
      simpa [Through,hne] using h
    · exact h
  | act j =>
    simp only [CheckThenAct.step]
    split
    · rw [Through,State.move_phase]
      split
      · exact Or.inr rfl
      · exact h
    · exact h

theorem through_run (l : List (Step κ)) {s : State κ} {k : κ} (h : Through s k) :
    Through (Machine.final step l s) k :=
  Machine.final_invariant (P := fun s => Through s k) (fun x _ hs => Through.step hs x) l s h

/-- A check that is not made alone, while the flag is down, lets a second caller through. -/
theorem two_through {s : State κ} (h : Orderly s) {x : Step κ} (hx : ¬alone s x) :
    ∃ i j, i≠j ∧ Through (step x s).2 i ∧ Through (step x s).2 j := by
  cases x with
  | pass | act _ => exact absurd trivial hx
  | check k =>
    simp only [alone,Classical.not_imp,not_forall,not_not] at hx
    obtain ⟨hk,j,hj⟩ := hx
    have hne : j≠k := by
      intro heq
      simp [heq,hk] at hj
    have hdown : s.taken = false := by
      cases htaken : s.taken with
      | false => rfl
      | true => exact absurd hj ((h.up htaken).1 j)
    refine ⟨j,k,hne,Through.step (Or.inl hj) _,Or.inl ?_⟩
    simp [step,hk,hdown]

/-- When nobody is between a check and an act, at most one caller has put the flag up exactly if
every check of the run was made alone. -/
theorem atMostOne_iff (l : List (Step κ)) {s : State κ} (h : Orderly s)
    (hidle : Idle (Machine.final step l s)) :
    AtMostOne (Machine.final step l s) ↔ Machine.Along step alone l s := by
  induction l generalizing s with
  | nil => simpa [Machine.Along,Machine.final] using h.atMostOne
  | cons x l ih =>
    by_cases hx : alone s x
    · simpa [Machine.final,Machine.Along,hx] using ih (h.step hx) hidle
    · obtain ⟨i,j,hne,hi,hj⟩ := two_through h hx
      have won (m : κ) (hm : Through (step x s).2 m) :
          (Machine.final step (x::l) s).phase m = .won :=
        (through_run l hm).resolve_left (hidle m)
      constructor
      · intro hone
        exact absurd (hone i j (won i hi) (won j hj)) hne
      · intro halong
        exact absurd halong.1 hx

/-- A flag that was down at first and is up has been put up by somebody, and nobody has lost
before that. -/
structure Earned (s : State κ) : Prop where
  down : s.taken = false → ∀ k, s.phase k≠.lost
  up : s.taken = true → ∃ k, s.phase k = .won

theorem Earned.step {s : State κ} (h : Earned s) (x : Step κ) : Earned (step x s).2 := by
  cases x with
  | pass => exact h
  | check k =>
    simp only [CheckThenAct.step]
    split
    · next hk =>
      refine ⟨fun hdown j => ?_,fun hup => ?_⟩
      · rw [State.move_taken] at hdown
        rw [State.move_phase]
        split
        · simp [hdown]
        · exact h.down hdown j
      · obtain ⟨j,hj⟩ := h.up hup
        have hne : j≠k := by
          intro heq
          simp [heq,hk] at hj
        exact ⟨j,by simpa [hne] using hj⟩
    · exact h
  | act k =>
    simp only [CheckThenAct.step]
    split
    · exact ⟨fun hdown => (by cases hdown),fun _ => ⟨k,by simp⟩⟩
    · exact h

/-- When somebody has gone through with both steps, somebody has won. -/
theorem exists_won (l : List (Step κ)) {k : κ}
    (hidle : Idle (Machine.final step l (start false)))
    (hk : (Machine.final step l (start false)).phase k≠.idle) :
    ∃ j, (Machine.final step l (start false)).phase j = .won := by
  have hearned : Earned (Machine.final step l (start false)) :=
    Machine.final_invariant (fun x _ hs => hs.step x) l _ ⟨by simp [start],by simp [start]⟩
  cases htaken : (Machine.final step l (start false)).taken with
  | true => exact hearned.up htaken
  | false =>
    cases hphase : (Machine.final step l (start false)).phase k with
    | idle => exact absurd hphase hk
    | checked => exact absurd hphase (hidle k)
    | won => exact ⟨k,hphase⟩
    | lost => exact absurd hphase (hearned.down htaken k)

end
end CheckThenAct
