import ProofStell.Stellar.Transitions

/-! Calls that overlap: any number of them may be between `allow_call` and `record_result`,
and they finish in any order with any result. -/
namespace ProofStell.Stellar
variable {κ α : Type} [DecidableEq κ]

/-- The breaker and the calls that are admitted and not recorded; a probe carries the number of its
half-open period. The last two fields are history. -/
structure Calls (κ : Type) where
  breaker : CircuitBreaker
  pending : List (κ × Option Nat)
  period : Nat
  probeSuccesses : Nat

namespace Calls

inductive Step (κ α : Type) where
  | arrive (k : κ) (now : Nat)
  | finish (k : κ) (now : Nat) (result : StellarResult α)

inductive Reply where
  | ignored | admitted | rejected (err : StellarError) | recorded
  deriving DecidableEq, Repr

def new (config : CircuitBreakerConfig) : Calls κ := ⟨.new config,[],0,0⟩

def fresh (s : Calls κ) (k : κ) : Bool := s.pending.all fun p => p.1 ≠ k

def allow (s : Calls κ) (k : κ) (b : CircuitBreaker) : Calls κ :=
  let period := if s.breaker.state = .isOpen then s.period+1 else s.period
  { breaker := b
    pending := (k,if b.state = .halfOpen then some period else none)::s.pending
    period := period
    probeSuccesses := if s.breaker.state = .isOpen then 0 else s.probeSuccesses }

def record (s : Calls κ) (k : κ) (probe : Option Nat) (o : Outcome) (b : CircuitBreaker) :
    Calls κ :=
  { breaker := b
    pending := s.pending.filter fun p => p.1 ≠ k
    period := s.period
    probeSuccesses :=
      if probe = some s.period ∧ o = .success then s.probeSuccesses+1 else s.probeSuccesses }

def step (x : Step κ α) (s : Calls κ) : Reply × Calls κ :=
  match x with
  | .arrive k now =>
    if s.fresh k then
      match s.breaker.allowCall now with
      | (.error err,b) => (.rejected err,{ s with breaker := b })
      | (.ok _,b) => (.admitted,s.allow k b)
    else (.ignored,s)
  | .finish k now result =>
    match s.pending.lookup k with
    | some probe =>
      (.recorded,s.record k probe (outcome result) (s.breaker.recordResult now result))
    | none => (.ignored,s)

inductive Moves (s : Calls κ) : Step κ α → Reply → Calls κ → Prop
  | ignored {x : Step κ α} : Moves s x .ignored s
  | rejected {k : κ} {now : Nat} {err : StellarError} {b : CircuitBreaker} :
      s.breaker.Allowed now (.error err) b →
      Moves s (.arrive k now) (.rejected err) { s with breaker := b }
  | admitted {k : κ} {now : Nat} {b : CircuitBreaker} : s.fresh k = true →
      s.breaker.Allowed now (.ok ()) b →
      Moves s (.arrive k now) .admitted (s.allow k b)
  | recorded {k : κ} {now : Nat} {result : StellarResult α} {probe : Option Nat}
      {b : CircuitBreaker} : s.pending.lookup k = some probe →
      s.breaker.Recorded now (outcome result) b →
      Moves s (.finish k now result) .recorded (s.record k probe (outcome result) b)

theorem step_moves (x : Step κ α) (s : Calls κ) : Moves s x (step x s).1 (step x s).2 := by
  cases x with
  | arrive k now =>
    have hallowed := s.breaker.allowCall_allowed now
    simp only [step]
    split
    · next hk =>
      split
      · next err b heq =>
        rw [heq] at hallowed
        exact .rejected hallowed
      · next u b heq =>
        rw [heq] at hallowed
        exact .admitted hk hallowed
    · exact .ignored
  | finish k now result =>
    simp only [step]
    split
    · next probe hk => exact .recorded hk (s.breaker.recordResult_recorded now result)
    · exact .ignored

theorem admitted_state {b b' : CircuitBreaker} {now : Nat} (h : b.Allowed now (.ok ()) b') :
    (b.state = .isOpen ∧ b.openOver now = true ∧ b' = b.enterHalfOpen) ∨
      (b.state≠.isOpen ∧ b'.state = b.state ∧ b'.config = b.config ∧
        b'.halfOpenSuccesses = b.halfOpenSuccesses ∧ b'.metrics = b.metrics) := by
  cases h with
  | passed hs => exact Or.inr ⟨by simp [hs],rfl,rfl,rfl,rfl⟩
  | entered hs hover => exact Or.inl ⟨hs,hover,rfl⟩
  | probe hs _ => exact Or.inr ⟨by simp [hs],rfl,rfl,rfl,rfl⟩

theorem rejected_breaker {b b' : CircuitBreaker} {now : Nat} {err : StellarError}
    (h : b.Allowed now (.error err) b') :
    b' = b.incrementRejectedCalls ∧ ∃ state wait, err = .circuitOpen state wait := by
  cases h with
  | waiting _ _ _ => exact ⟨rfl,_,_,rfl⟩
  | crowded _ _ => exact ⟨rfl,_,_,rfl⟩

end Calls
end ProofStell.Stellar
