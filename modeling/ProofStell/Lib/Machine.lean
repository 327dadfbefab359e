import Mathlib.Data.List.Basic
import Mathlib.Tactic.Common

/-! Deterministic machines with inputs and outputs: whole runs, invariants over
them, and the unwinding rule that compares a run with a purged copy of it. -/
namespace Machine
variable {σ ι ο : Type*}

def final (step : ι → σ → ο × σ) : List ι → σ → σ
  | [], s => s
  | i::l, s => final step l (step i s).2

def outputs (step : ι → σ → ο × σ) : List ι → σ → List (ι × ο)
  | [], _ => []
  | i::l, s => (i,(step i s).1) :: outputs step l (step i s).2

theorem final_append (step : ι → σ → ο × σ) (u v : List ι) (s : σ) :
    final step (u++v) s = final step v (final step u s) := by
  induction u generalizing s with
  | nil => rfl
  | cons i u ih => exact ih (step i s).2

theorem final_snoc (step : ι → σ → ο × σ) (u : List ι) (i : ι) (s : σ) :
    final step (u++[i]) s = (step i (final step u s)).2 := by
  rw [final_append]
  rfl

theorem outputs_append (step : ι → σ → ο × σ) (u v : List ι) (s : σ) :
    outputs step (u++v) s = outputs step u s ++ outputs step v (final step u s) := by
  induction u generalizing s with
  | nil => rfl
  | cons i u ih => exact congrArg ((i,(step i s).1) :: ·) (ih (step i s).2)

theorem outputs_take (step : ι → σ → ο × σ) (n : Nat) (l : List ι) (s : σ) :
    (outputs step l s).take n = outputs step (l.take n) s := by
  induction l generalizing n s with
  | nil => simp [outputs]
  | cons i l ih => cases n <;> simp [outputs,ih]

theorem outputs_drop (step : ι → σ → ο × σ) (n : Nat) (l : List ι) (s : σ) :
    (outputs step l s).drop n = outputs step (l.drop n) (final step (l.take n) s) := by
  induction l generalizing n s with
  | nil => simp [outputs]
  | cons i l ih => cases n <;> simp [outputs,final,ih]

theorem outputs_getElem? (step : ι → σ → ο × σ) (n : Nat) (l : List ι) (s : σ) :
    (outputs step l s)[n]? = l[n]?.map fun i => (i,(step i (final step (l.take n) s)).1) := by
  induction l generalizing n s with
  | nil => simp [outputs]
  | cons i l ih => cases n <;> simp [outputs,final,ih]

theorem outputs_map_fst (step : ι → σ → ο × σ) (l : List ι) (s : σ) :
    (outputs step l s).map Prod.fst = l := by
  induction l generalizing s with
  | nil => rfl
  | cons i l ih => exact congrArg (i :: ·) (ih (step i s).2)

theorem mem_of_mem_outputs {step : ι → σ → ο × σ} {l : List ι} {s : σ} {p : ι × ο}
    (h : p∈outputs step l s) : p.1∈l := by
  induction l generalizing s with
  | nil => cases h
  | cons i l ih =>
    obtain h | h := List.mem_cons.mp h
    · rw [h]
      exact List.mem_cons_self
    · exact List.mem_cons_of_mem i (ih h)

/-- What the steps of a run leave behind in a record. -/
def trace {μ : Type*} (step : ι → σ → ο × σ) (mark : ι → σ → List μ) : List ι → σ → List μ
  | [], _ => []
  | i::l, s => mark i s ++ trace step mark l (step i s).2

theorem trace_snoc {μ : Type*} (step : ι → σ → ο × σ) (mark : ι → σ → List μ) (u : List ι)
    (i : ι) (s : σ) :
    trace step mark (u++[i]) s = trace step mark u s ++ mark i (final step u s) := by
  induction u generalizing s with
  | nil => simp [trace,final]
  | cons j u ih => simp [trace,final,ih]

/-- What every step keeps together with the record, every run keeps. -/
theorem trace_invariant {μ : Type*} {step : ι → σ → ο × σ} {mark : ι → σ → List μ}
    {P : List μ → σ → Prop} (hstep : ∀ i h s, P h s → P (h++mark i s) (step i s).2)
    (l : List ι) (h : List μ) (s : σ) (hs : P h s) :
    P (h++trace step mark l s) (final step l s) := by
  induction l generalizing h s with
  | nil => simpa [trace,final] using hs
  | cons i l ih => simpa [trace,final] using ih _ _ (hstep i h s hs)

theorem trace_append {μ : Type*} (step : ι → σ → ο × σ) (mark : ι → σ → List μ) (u v : List ι)
    (s : σ) : trace step mark (u++v) s = trace step mark u s++trace step mark v (final step u s) := by
  induction u generalizing s with
  | nil => rfl
  | cons i u ih => simp [trace,final,ih,List.append_assoc]

/-- Every step of the run meets `P` in the state in which it is taken. -/
def Along (step : ι → σ → ο × σ) (P : σ → ι → Prop) : List ι → σ → Prop
  | [], _ => True
  | i::l, s => P s i ∧ Along step P l (step i s).2

instance Along.decidable (step : ι → σ → ο × σ) (P : σ → ι → Prop) [∀ s i, Decidable (P s i)] :
    (l : List ι) → (s : σ) → Decidable (Along step P l s)
  | [], _ => isTrue trivial
  | i::l, s => @instDecidableAnd _ _ _ (Along.decidable step P l (step i s).2)

theorem along_append {step : ι → σ → ο × σ} {P : σ → ι → Prop} (u v : List ι) (s : σ) :
    Along step P (u++v) s ↔ Along step P u s ∧ Along step P v (final step u s) := by
  induction u generalizing s with
  | nil => simp [Along,final]
  | cons i u ih => simp [Along,final,ih,and_assoc]

theorem along_snoc {step : ι → σ → ο × σ} {P : σ → ι → Prop} (u : List ι) (i : ι) (s : σ) :
    Along step P (u++[i]) s ↔ Along step P u s ∧ P (final step u s) i := by
  rw [along_append]
  simp [Along]

theorem along_of_forall {step : ι → σ → ο × σ} {P : σ → ι → Prop} {l : List ι}
    (h : ∀ i∈l, ∀ s, P s i) (s : σ) : Along step P l s := by
  induction l generalizing s with
  | nil => trivial
  | cons i l ih =>
    exact ⟨h i List.mem_cons_self s,ih (fun j hj => h j (List.mem_cons_of_mem i hj)) _⟩

theorem along_iff {step : ι → σ → ο × σ} {P : σ → ι → Prop} {l : List ι} {s : σ} :
    Along step P l s ↔ ∀ n i, l[n]? = some i → P (final step (l.take n) s) i := by
  induction l generalizing s with
  | nil => simp [Along]
  | cons i l ih =>
    rw [Along,ih]
    constructor
    · intro h n j hj
      cases n with
      | zero =>
        obtain rfl : i = j := by simpa using hj
        exact h.1
      | succ n => exact h.2 n j hj
    · intro h
      exact ⟨h 0 i rfl,fun n j hj => h (n+1) j hj⟩

/-- What every step that meets `P` keeps, a run along `P` keeps. -/
theorem along_invariant {step : ι → σ → ο × σ} {P : σ → ι → Prop} {I : σ → Prop}
    (hstep : ∀ s i, I s → P s i → I (step i s).2) {l : List ι} {s : σ} (h : Along step P l s)
    (hs : I s) : I (final step l s) := by
  induction l generalizing s with
  | nil => exact hs
  | cons i l ih => exact ih h.2 (hstep s i hs h.1)

/-- With an invariant, steps that meet `P` meet `Q`. -/
theorem along_of_invariant {step : ι → σ → ο × σ} {P Q : σ → ι → Prop} {I : σ → Prop}
    (hstep : ∀ s i, I s → P s i → I (step i s).2 ∧ Q s i) {l : List ι} {s : σ}
    (h : Along step P l s) (hs : I s) : Along step Q l s := by
  induction l generalizing s with
  | nil => trivial
  | cons i l ih =>
    obtain ⟨hnext,hQ⟩ := hstep s i hs h.1
    exact ⟨hQ,ih h.2 hnext⟩

theorem trace_along {μ : Type*} {step : ι → σ → ο × σ} {mark : ι → σ → List μ}
    {C : σ → ι → Prop} {P : List μ → σ → Prop}
    (hstep : ∀ i h s, P h s → C s i → P (h++mark i s) (step i s).2) {l : List ι} {h : List μ}
    {s : σ} (hs : P h s) (hl : Along step C l s) :
    P (h++trace step mark l s) (final step l s) := by
  induction l generalizing h s with
  | nil => simpa [trace,final] using hs
  | cons i l ih => simpa [trace,final] using ih (hstep i h s hs hl.1) hl.2

/-- An invariant that may look at the steps to come. -/
theorem along_of_lookahead {step : ι → σ → ο × σ} {Q : σ → ι → Prop} {I : List ι → σ → Prop}
    (hstep : ∀ i l s, I (i::l) s → I l (step i s).2 ∧ Q s i) {l : List ι} {s : σ} (h : I l s) :
    Along step Q l s := by
  induction l generalizing s with
  | nil => trivial
  | cons i l ih =>
    obtain ⟨hnext,hQ⟩ := hstep i l s h
    exact ⟨hQ,ih hnext⟩

/-- If an invariant, which may look at the steps to come, makes `P` and `Q` agree on the next
step, and steps that meet `P` keep it, then runs along `P` are runs along `Q`. -/
theorem along_congr {step : ι → σ → ο × σ} {P Q : σ → ι → Prop} {I : List ι → σ → Prop}
    (hiff : ∀ i l s, I (i::l) s → (P s i ↔ Q s i))
    (hstep : ∀ i l s, I (i::l) s → P s i → I l (step i s).2) {l : List ι} {s : σ} (h : I l s) :
    Along step P l s ↔ Along step Q l s := by
  induction l generalizing s with
  | nil => rfl
  | cons i l ih =>
    rw [Along,Along,← hiff i l s h]
    exact and_congr_right fun hP => ih (hstep i l s h hP)

/-- If a step keeps `Q` exactly when it meets `P`, then `Q` holds throughout a run exactly
when all its steps meet `P`. -/
theorem throughout_iff_along {step : ι → σ → ο × σ} {P : σ → ι → Prop} {I Q : σ → Prop}
    (hinv : ∀ i s, I s → I (step i s).2)
    (hstep : ∀ i s, I s → Q s → (Q (step i s).2 ↔ P s i)) (l : List ι) {s : σ} (hI : I s)
    (hQ : Q s) : (∀ n, Q (final step (l.take n) s)) ↔ Along step P l s := by
  induction l generalizing s with
  | nil => simpa [final,Along] using hQ
  | cons i l ih =>
    have hfirst := hstep i s hI hQ
    rw [Along,← hfirst]
    constructor
    · intro h
      have hone : Q (step i s).2 := h 1
      exact ⟨hone,(ih (hinv i s hI) hone).mp fun n => h (n+1)⟩
    · intro h n
      cases n with
      | zero => exact hQ
      | succ n => exact (ih (hinv i s hI) h.1).mpr h.2 n

/-- A measure that stays where the steps meet `P` and grows where they do not tells at the end
of a run whether all of them did. -/
theorem measure_iff_along {step : ι → σ → ο × σ} {P : σ → ι → Prop} {I : σ → Prop} (f : σ → Nat)
    (hinv : ∀ i s, I s → I (step i s).2) (hkeep : ∀ i s, I s → P s i → f (step i s).2 = f s)
    (hgrow : ∀ i s, I s → ¬P s i → f s < f (step i s).2) (l : List ι) {s : σ} (hI : I s) :
    f s ≤ f (final step l s) ∧ (f (final step l s) = f s ↔ Along step P l s) := by
  induction l generalizing s with
  | nil => simp [final,Along]
  | cons i l ih =>
    obtain ⟨hle,hiff⟩ := ih (hinv i s hI)
    simp only [final,Along]
    by_cases hP : P s i
    · rw [hkeep i s hI hP] at hle hiff
      exact ⟨hle,hiff.trans (by simp [hP])⟩
    · have hlt := hgrow i s hI hP
      refine ⟨by omega,⟨fun h => ?_,fun h => absurd h.1 hP⟩⟩
      omega

def total (step : ι → σ → ο × σ) (count : ι → σ → Nat) : List ι → σ → Nat
  | [], _ => 0
  | i::l, s => count i s+total step count l (step i s).2

theorem total_append (step : ι → σ → ο × σ) (count : ι → σ → Nat) (u v : List ι) (s : σ) :
    total step count (u++v) s = total step count u s+total step count v (final step u s) := by
  induction u generalizing s with
  | nil => simp [total,final]
  | cons i u ih => simp [total,final,ih,Nat.add_assoc]

theorem total_zero (step : ι → σ → ο × σ) (l : List ι) (s : σ) :
    total step (fun _ _ => 0) l s = 0 := by
  induction l generalizing s with
  | nil => rfl
  | cons i l ih => simp only [total,ih]

theorem total_balance {step : ι → σ → ο × σ} {I : σ → Prop} (f : σ → Nat)
    (gain loss : ι → σ → Nat) (hinv : ∀ i s, I s → I (step i s).2)
    (hstep : ∀ i s, I s → f (step i s).2+loss i s = f s+gain i s) (l : List ι) {s : σ}
    (hI : I s) : f (final step l s)+total step loss l s = f s+total step gain l s := by
  induction l generalizing s with
  | nil => rfl
  | cons i l ih =>
    have hone := hstep i s hI
    have hrest := ih (hinv i s hI)
    simp only [final,total]
    omega

/-- An abstraction function that commutes with every step commutes with every run. -/
theorem simulation {τ ι' ο' : Type*} {step : ι → σ → ο × σ} {step' : ι' → τ → ο' × τ}
    (f : σ → τ) (g : ι → ι') (h : ο → ο') {l : List ι}
    (hstep : ∀ i∈l, ∀ s, step' (g i) (f s) = (h (step i s).1,f (step i s).2)) (s : σ) :
    final step' (l.map g) (f s) = f (final step l s) ∧
      outputs step' (l.map g) (f s) = (outputs step l s).map (Prod.map g h) := by
  induction l generalizing s with
  | nil => exact ⟨rfl,rfl⟩
  | cons i l ih =>
    have hi := hstep i List.mem_cons_self s
    obtain ⟨hfinal,houts⟩ := ih (fun j hj => hstep j (List.mem_cons_of_mem i hj)) (step i s).2
    constructor
    · simp only [List.map_cons,final,hi]
      exact hfinal
    · simp only [List.map_cons,outputs,hi,houts]
      rfl

/-- If, under an invariant, every step is matched by the step that `g` picks for it, then every
run is matched, and a condition on the steps can be read through the abstraction function. -/
theorem along_simulation {τ ι' ο' : Type*} {step : ι → σ → ο × σ} {step' : ι' → τ → ο' × τ}
    {P : σ → ι → Prop} {P' : τ → ι' → Prop} {I : σ → Prop} (f : σ → τ) (g : ι → σ → ι')
    (hinv : ∀ i s, I s → I (step i s).2)
    (hstep : ∀ i s, I s → (step' (g i s) (f s)).2 = f (step i s).2)
    (hiff : ∀ i s, I s → (P s i ↔ P' (f s) (g i s))) (l : List ι) {s : σ} (hs : I s) :
    final step' (trace step (fun i s => [g i s]) l s) (f s) = f (final step l s) ∧
      (Along step P l s ↔ Along step' P' (trace step (fun i s => [g i s]) l s) (f s)) := by
  induction l generalizing s with
  | nil => exact ⟨rfl,Iff.rfl⟩
  | cons i l ih =>
    obtain ⟨hfinal,halong⟩ := ih (hinv i s hs)
    simp only [trace,List.singleton_append,final,Along,hstep i s hs]
    exact ⟨hfinal,and_congr (hiff i s hs) halong⟩

theorem final_invariant {step : ι → σ → ο × σ} {P : σ → Prop}
    (hstep : ∀ i s, P s → P (step i s).2) (l : List ι) (s : σ) (h : P s) :
    P (final step l s) := by
  induction l generalizing s with
  | nil => exact h
  | cons i l ih => exact ih (step i s).2 (hstep i s h)

/-- Unwinding: `R` relates states that look alike. Dropped inputs must stay invisible, kept ones
preserve `R`, and the outputs of the seen ones not tell related states apart. -/
theorem unwinding {step : ι → σ → ο × σ} (R : σ → σ → Prop) (keep seen : ι → Bool)
    {l : List ι} (hsub : ∀ i∈l, seen i = true → keep i = true)
    (hdrop : ∀ i∈l, keep i = false → ∀ s t, R s t → R (step i s).2 t)
    (hkeep : ∀ i∈l, keep i = true → ∀ s t, R s t → R (step i s).2 (step i t).2)
    (hout : ∀ i∈l, seen i = true → ∀ s t, R s t → (step i s).1 = (step i t).1)
    (s t : σ) (h : R s t) :
    (outputs step l s).filter (fun p => seen p.1) =
        (outputs step (l.filter keep) t).filter (fun p => seen p.1) ∧
      R (final step l s) (final step (l.filter keep) t) := by
  induction l generalizing s t with
  | nil => exact ⟨rfl,h⟩
  | cons i l ih =>
    have hi : i∈i::l := List.mem_cons_self
    have tail (j : ι) (hj : j∈l) : j∈i::l := List.mem_cons_of_mem i hj
    have ih' := ih (fun j hj => hsub j (tail j hj)) (fun j hj => hdrop j (tail j hj))
      (fun j hj => hkeep j (tail j hj)) (fun j hj => hout j (tail j hj))
    cases hk : keep i with
    | false =>
      have hs : seen i = false := by
        cases hs : seen i
        · rfl
        · exact absurd (hsub i hi hs) (by simp [hk])
      obtain ⟨ho,hr⟩ := ih' (step i s).2 t (hdrop i hi hk s t h)
      simp only [List.filter_cons,hk,Bool.false_eq_true,if_false]
      exact ⟨by simpa [outputs,hs] using ho,hr⟩
    | true =>
      obtain ⟨ho,hr⟩ := ih' (step i s).2 (step i t).2 (hkeep i hi hk s t h)
      simp only [List.filter_cons,hk,if_true]
      refine ⟨?_,hr⟩
      cases hs : seen i with
      | false => simpa [outputs,hs] using ho
      | true => simpa [outputs,hs,hout i hi hs s t h] using ho

/-- The run and its purged copy look the same to `view` and give the kept inputs the
same outputs. -/
def SameView {ω : Type*} (step : ι → σ → ο × σ) (keep : ι → Bool) (view : σ → ω)
    (l : List ι) (s t : σ) : Prop :=
  view (final step l s) = view (final step (l.filter keep) t) ∧
    (outputs step l s).filter (fun p => keep p.1) = outputs step (l.filter keep) t

/-- If dropped inputs show in the `view` at once unless they are `quiet`, purging them goes
unnoticed throughout a run exactly when all of them are quiet. -/
theorem same_view_iff {ω : Type*} {step : ι → σ → ο × σ} (R : σ → σ → Prop) (keep : ι → Bool)
    (view : σ → ω) (quiet : σ → ι → Prop) (hview : ∀ s t, R s t → view s = view t)
    (hquiet : ∀ i s t, keep i = false → R s t → quiet s i → R (step i s).2 t)
    (hloud : ∀ i s t, keep i = false → R s t → ¬quiet s i → view (step i s).2≠view t)
    (hkeep : ∀ i s t, keep i = true → R s t →
      (step i s).1 = (step i t).1 ∧ R (step i s).2 (step i t).2)
    (l : List ι) (s t : σ) (h : R s t) :
    (∀ n, SameView step keep view (l.take n) s t) ↔
      ∀ n i, l[n]? = some i → keep i = false → quiet (final step (l.take n) s) i := by
  have start (s t : σ) (h : R s t) : SameView step keep view [] s t := ⟨hview s t h,rfl⟩
  induction l generalizing s t with
  | nil =>
    constructor
    · intro _ n i hi
      simp at hi
    · intro _ n
      simpa using start s t h
  | cons i l ih =>
    cases hk : keep i with
    | true =>
      obtain ⟨hout,hR⟩ := hkeep i s t hk h
      have next (n : Nat) : SameView step keep view ((i::l).take (n+1)) s t ↔
          SameView step keep view (l.take n) (step i s).2 (step i t).2 := by
        simp [SameView,final,outputs,hk,hout]
      have tail := ih (step i s).2 (step i t).2 hR
      constructor
      · intro hall n j hj hdrop
        cases n with
        | zero =>
          have hij : i = j := by simpa using hj
          simp [← hij,hk] at hdrop
        | succ n => exact tail.mp (fun n => (next n).mp (hall (n+1))) n j hj hdrop
      · intro hall n
        cases n with
        | zero => exact start s t h
        | succ n => exact (next n).mpr (tail.mpr (fun n j hj => hall (n+1) j hj) n)
    | false =>
      have next (n : Nat) : SameView step keep view ((i::l).take (n+1)) s t ↔
          SameView step keep view (l.take n) (step i s).2 t := by
        simp [SameView,final,outputs,hk]
      have tail (hq : quiet s i) := ih (step i s).2 t (hquiet i s t hk h hq)
      constructor
      · intro hall
        have hq : quiet s i := by
          by_contra hq
          exact hloud i s t hk h hq ((next 0).mp (hall 1)).1
        intro n j hj hdrop
        cases n with
        | zero =>
          have hij : i = j := by simpa using hj
          rw [← hij]
          exact hq
        | succ n => exact (tail hq).mp (fun n => (next n).mp (hall (n+1))) n j hj hdrop
      · intro hall n
        have hq : quiet s i := hall 0 i rfl hk
        cases n with
        | zero => exact start s t h
        | succ n => exact (next n).mpr ((tail hq).mpr (fun n j hj => hall (n+1) j hj) n)

/-- Two runs side by side: if related inputs give the same outputs in related states and keep the
states related, then related sequences of inputs do. -/
theorem related {step : ι → σ → ο × σ} (R : σ → σ → Prop) (S : ι → ι → Prop)
    (hstep : ∀ i j s t, S i j → R s t →
      (step i s).1 = (step j t).1 ∧ R (step i s).2 (step j t).2)
    {l m : List ι} (hl : List.Forall₂ S l m) {s t : σ} (h : R s t) :
    (outputs step l s).map Prod.snd = (outputs step m t).map Prod.snd ∧
      R (final step l s) (final step m t) := by
  induction hl generalizing s t with
  | nil => exact ⟨rfl,h⟩
  | cons hij _ ih =>
    obtain ⟨hout,hR⟩ := hstep _ _ s t hij h
    obtain ⟨houts,hfinal⟩ := ih hR
    simp only [outputs,final,List.map_cons,hout,houts]
    exact ⟨trivial,hfinal⟩

end Machine
