import ProofStell.Cache.BreakerRuns

/-! Cache operations that overlap: each asks `should_allow` and, if it is let through, records
one result later, while any number of others are under way. -/
namespace ProofStell.Cache
open CacheCircuitBreaker
variable {κ : Type} [DecidableEq κ]

/-- The breaker, and the operations it has let through that have not recorded their result. The
flag marks a probe: an operation that was admitted in or into `HalfOpen`. -/
structure Operations (κ : Type) where
  breaker : CacheCircuitBreaker
  pending : List (κ × Bool)

namespace Operations

inductive Step (κ : Type) where
  | arrive (k : κ) (now : Nat)
  | finish (k : κ) (now : Nat) (success : Bool)

inductive Reply where
  | ignored | admitted | rejected | recorded
  deriving DecidableEq, Repr

def new (config : CacheCircuitBreakerConfig) : Operations κ := ⟨.new config,[]⟩

def fresh (s : Operations κ) (k : κ) : Bool := s.pending.all fun p => p.1 ≠ k

def result (now : Nat) (success : Bool) : BreakerCall :=
  if success then .recordSuccess now else .recordFailure now

/-- A step of an operation that is not at that step is ignored. -/
def step (x : Step κ) (s : Operations κ) : Reply × Operations κ :=
  match x with
  | .arrive k now =>
    if s.fresh k then
      let (allowed,breaker) := s.breaker.shouldAllow now
      if allowed then (.admitted,⟨breaker,(k,breaker.state == .halfOpen)::s.pending⟩)
      else (.rejected,⟨breaker,s.pending⟩)
    else (.ignored,s)
  | .finish k now success =>
    if s.fresh k then (.ignored,s)
    else (.recorded,⟨(s.breaker.call (result now success)).2,
      s.pending.filter fun p => p.1 ≠ k⟩)

def openProbes (s : Operations κ) : Nat := s.pending.countP (·.2)

def probing (s : Operations κ) (now : Nat) : Bool :=
  s.breaker.state == .halfOpen || s.breaker.state == .isOpen && s.breaker.due now

/-- Whoever comes to a half-open breaker, or to an open one whose backoff is over, finds fewer
than `half_open_max_calls` probes under way. -/
def findsRoom (config : CacheCircuitBreakerConfig) (s : Operations κ) (x : Step κ) : Bool :=
  match x with
  | .arrive k now =>
    !(s.fresh k && s.probing now) || s.openProbes < config.halfOpenMaxCalls.toNat
  | .finish .. => true

/-- The limit is the configured one, and a half-open breaker turns nobody away. -/
structure Welcoming (config : CacheCircuitBreakerConfig) (s : Operations κ) : Prop where
  keeps : s.breaker.Keeps config
  room : s.breaker.state = .halfOpen → s.breaker.halfOpenCalls < s.breaker.halfOpenMaxCalls

omit [DecidableEq κ] in
theorem Welcoming.call {config : CacheCircuitBreakerConfig}
    (hprobes : 0 < config.halfOpenMaxCalls.toNat) {s : Operations κ} (h : s.Welcoming config)
    (x : BreakerCall) (pending : List (κ × Bool)) :
    (⟨(s.breaker.call x).2,pending⟩ : Operations κ).Welcoming config := by
  have hcall := call_called x s.breaker
  exact ⟨h.keeps.call hcall,hcall.room (h.keeps.probes ▸ hprobes) h.room⟩

theorem Welcoming.step {config : CacheCircuitBreakerConfig}
    (hprobes : 0 < config.halfOpenMaxCalls.toNat) (x : Step κ) {s : Operations κ}
    (h : s.Welcoming config) : (step x s).2.Welcoming config := by
  cases x with
  | arrive k now =>
    have hcall := h.call hprobes (.shouldAllow now)
    simp only [Operations.step]
    split
    · split
      · exact hcall _
      · exact hcall _
    · exact h
  | finish k now success =>
    simp only [Operations.step]
    split
    · exact h
    · exact h.call hprobes _ _

/-- A fresh operation is one probe more exactly if the breaker is half-open or due. -/
theorem openProbes_arrive {config : CacheCircuitBreakerConfig} {s : Operations κ}
    (h : s.Welcoming config) {k : κ} (hk : s.fresh k = true) (now : Nat) :
    (step (.arrive k now) s).2.openProbes =
      if s.probing now then s.openProbes+1 else s.openProbes := by
  simp only [step,hk,if_true]
  cases hs : s.breaker.state with
  | closed => simp [shouldAllow,hs,openProbes,probing]
  | halfOpen => simp [shouldAllow,hs,h.room hs,openProbes,probing]
  | isOpen =>
    rw [shouldAllow_isOpen now hs]
    cases hdue : s.breaker.due now <;> simp [openProbes,probing,transitionTo,hs,hdue]

theorem openProbes_finish (k : κ) (now : Nat) (success : Bool) (s : Operations κ) :
    (step (.finish k now success) s).2.openProbes ≤ s.openProbes := by
  simp only [step]
  split
  · exact le_rfl
  · exact List.filter_sublist.countP_le

/-- The probes under way stay within `half_open_max_calls` exactly if everybody who comes to a
half-open or due breaker finds fewer of them. -/
theorem probe_limit_iff {config : CacheCircuitBreakerConfig}
    (hprobes : 0 < config.halfOpenMaxCalls.toNat) (l : List (Step κ)) :
    (∀ n, (Machine.final step (l.take n) (new config)).openProbes ≤
        config.halfOpenMaxCalls.toNat) ↔
      Machine.Along step (fun s x => s.findsRoom config x = true) l (new config) := by
  have hnew : (new config : Operations κ).Welcoming config :=
    ⟨keeps_new config,by simp [new,CacheCircuitBreaker.new]⟩
  refine Machine.throughout_iff_along
    (Q := fun s => s.openProbes ≤ config.halfOpenMaxCalls.toNat)
    (fun x s h => h.step hprobes x) ?_ l hnew (Nat.zero_le _)
  intro x s h hlimit
  cases x with
  | finish k now success =>
    simpa [findsRoom] using (openProbes_finish k now success s).trans hlimit
  | arrive k now =>
    cases hk : s.fresh k with
    | false => simpa [findsRoom,step,hk] using hlimit
    | true =>
      rw [openProbes_arrive h hk]
      cases hprobe : s.probing now with
      | false => simpa [findsRoom,hprobe] using hlimit
      | true =>
        have hroom : s.findsRoom config (.arrive k now) = true ↔
            s.openProbes < config.halfOpenMaxCalls.toNat := by simp [findsRoom,hk,hprobe]
        rw [hroom]
        exact Nat.succ_le_iff

theorem probe_limit_with_patient_callers :
    (Machine.final step (([.arrive 1 0,.finish 1 0 false,.arrive 2 100000000,
      .finish 2 100000001 true,.arrive 3 100000002] : List (Step Nat)).take 3)
      (new ⟨1,30000,1,100,30000⟩)).openProbes ≤ 1 :=
  (probe_limit_iff (by decide) _).mpr (by decide +kernel) 3

/-- One probe is allowed, and two are under way. -/
theorem two_cache_probes_under_way :
    ¬∀ (config : CacheCircuitBreakerConfig) (l : List (Step Nat)),
      0 < config.halfOpenMaxCalls.toNat →
      ∀ n, (Machine.final step (l.take n) (new config)).openProbes ≤
        config.halfOpenMaxCalls.toNat := by
  intro hall
  have hlimit := hall ⟨1,30000,1,100,30000⟩ [.arrive 1 0,.finish 1 0 false,.arrive 2 100000000,
    .arrive 3 100000001] (by decide) 4
  revert hlimit
  decide +kernel

end Operations
end ProofStell.Cache
