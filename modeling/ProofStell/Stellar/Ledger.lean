import ProofStell.Stellar.Overlap

/-! The metrics of the breaker as a ledger of its transitions, under overlapping calls. -/
namespace ProofStell.Stellar.Calls
variable {κ α : Type} [DecidableEq κ]

structure Below (m : CircuitBreakerMetrics) : Prop where
  trips : m.trips.toNat < 2^64-1
  recoveries : m.recoveries.toNat < 2^64-1
  halfOpenSuccesses : m.halfOpenSuccesses.toNat < 2^64-1
  halfOpenFailures : m.halfOpenFailures.toNat < 2^64-1
  rejectedCalls : m.rejectedCalls.toNat < 2^64-1

/-- Each trip is paid back by a recovery or a failed half-open period, except the one the
breaker is in; the successes since the last entry into `HalfOpen` are not yet spent. -/
structure Balanced (config : CircuitBreakerConfig) (rejections : Nat) (b : CircuitBreaker) :
    Prop where
  same : b.config = config
  trips : b.metrics.trips.toNat = b.metrics.recoveries.toNat+b.metrics.halfOpenFailures.toNat+
    if b.state = .closed then 0 else 1
  rejected : b.metrics.rejectedCalls.toNat = rejections
  spent : config.probes*b.metrics.recoveries.toNat ≤ b.metrics.halfOpenSuccesses.toNat
  unspent : b.state = .halfOpen → b.halfOpenSuccesses.toNat < config.probes ∧
    config.probes*b.metrics.recoveries.toNat+b.halfOpenSuccesses.toNat ≤
      b.metrics.halfOpenSuccesses.toNat

theorem balanced_new (config : CircuitBreakerConfig) : Balanced config 0 (.new config) where
  same := rfl
  trips := rfl
  rejected := rfl
  spent := Nat.le_of_eq (Nat.mul_zero _)
  unspent h := by cases h

section
variable {config : CircuitBreakerConfig} {n now : Nat} {b b' : CircuitBreaker}

structure Grows (m m' : CircuitBreakerMetrics) : Prop where
  trips : m.trips.toNat ≤ m'.trips.toNat
  recoveries : m.recoveries.toNat ≤ m'.recoveries.toNat
  halfOpenSuccesses : m.halfOpenSuccesses.toNat ≤ m'.halfOpenSuccesses.toNat
  halfOpenFailures : m.halfOpenFailures.toNat ≤ m'.halfOpenFailures.toNat
  rejectedCalls : m.rejectedCalls.toNat ≤ m'.rejectedCalls.toNat

theorem Below.before {m m' : CircuitBreakerMetrics} (h : Below m') (hg : Grows m m') : Below m :=
  ⟨hg.trips.trans_lt h.trips,hg.recoveries.trans_lt h.recoveries,
    hg.halfOpenSuccesses.trans_lt h.halfOpenSuccesses,
    hg.halfOpenFailures.trans_lt h.halfOpenFailures,hg.rejectedCalls.trans_lt h.rejectedCalls⟩

theorem grows_of_same {m m' : CircuitBreakerMetrics} (h : CircuitBreaker.SameTransitions m' m) :
    Grows m m' :=
  ⟨by rw [h.trips],by rw [h.recoveries],by rw [h.halfOpenSuccesses],by rw [h.halfOpenFailures],
    by rw [h.rejectedCalls]⟩

theorem grows_allowed {answer : StellarResult Unit} (h : b.Allowed now answer b') :
    Grows b.metrics b'.metrics := by
  have hsame : Grows b.metrics b.metrics := grows_of_same ⟨rfl,rfl,rfl,rfl,rfl⟩
  cases h with
  | passed _ | entered _ _ | probe _ _ => exact hsame
  | waiting _ _ _ | crowded _ _ =>
    exact ⟨hsame.trips,hsame.recoveries,hsame.halfOpenSuccesses,hsame.halfOpenFailures,
      Saturating.le_add64_one _⟩

theorem grows_recorded {o : Outcome} (h : b.Recorded now o b') : Grows b.metrics b'.metrics := by
  cases h with
  | neutral | isOpen _ => exact grows_of_same ⟨rfl,rfl,rfl,rfl,rfl⟩
  | success _ hm | failure _ hm _ => exact grows_of_same hm
  | tripped _ hm _ =>
    have hg := grows_of_same hm
    exact ⟨hg.trips.trans (Saturating.le_add64_one _),hg.recoveries,hg.halfOpenSuccesses,
      hg.halfOpenFailures,hg.rejectedCalls⟩
  | probed _ hm _ =>
    have hg := grows_of_same hm
    exact ⟨hg.trips,hg.recoveries,hg.halfOpenSuccesses.trans (Saturating.le_add64_one _),
      hg.halfOpenFailures,hg.rejectedCalls⟩
  | recovered _ hm _ =>
    have hg := grows_of_same hm
    exact ⟨hg.trips,hg.recoveries.trans (Saturating.le_add64_one _),
      hg.halfOpenSuccesses.trans (Saturating.le_add64_one _),hg.halfOpenFailures,hg.rejectedCalls⟩
  | reopened _ hm =>
    have hg := grows_of_same hm
    exact ⟨hg.trips.trans (Saturating.le_add64_one _),hg.recoveries,hg.halfOpenSuccesses,
      hg.halfOpenFailures.trans (Saturating.le_add64_one _),hg.rejectedCalls⟩

theorem Balanced.admitted (h : Balanced config n b) (ha : b.Allowed now (.ok ()) b') :
    Balanced config n b' := by
  cases ha with
  | passed _ => exact h
  | entered hs _ =>
    refine ⟨h.same,?_,h.rejected,h.spent,fun _ => ⟨config.probes_pos,h.spent⟩⟩
    have htrips := h.trips
    simp only [hs] at htrips
    exact htrips
  | probe hs _ => exact ⟨h.same,h.trips,h.rejected,h.spent,h.unspent⟩

theorem Balanced.rejects {err : StellarError} (h : Balanced config n b)
    (ha : b.Allowed now (.error err) b') (hb : Below b'.metrics) : Balanced config (n+1) b' := by
  obtain ⟨rfl,_⟩ := rejected_breaker ha
  have hone := Saturating.add64_one_of_lt hb.rejectedCalls
  rw [h.rejected] at hone
  exact ⟨h.same,h.trips,hone,h.spent,h.unspent⟩

theorem Balanced.of_same (h : Balanced config n b) (hc : b'.config = b.config)
    (hs : b'.state = b.state) (hk : b'.halfOpenSuccesses = b.halfOpenSuccesses)
    (hm : CircuitBreaker.SameTransitions b'.metrics b.metrics) : Balanced config n b' where
  same := hc.trans h.same
  trips := by
    rw [hm.trips,hm.recoveries,hm.halfOpenFailures,hs]
    exact h.trips
  rejected := by
    rw [hm.rejectedCalls]
    exact h.rejected
  spent := by
    rw [hm.recoveries,hm.halfOpenSuccesses]
    exact h.spent
  unspent hhalf := by
    rw [hm.recoveries,hm.halfOpenSuccesses,hk]
    exact h.unspent (hs ▸ hhalf)

theorem Balanced.records {o : Outcome} (h : Balanced config n b) (hr : b.Recorded now o b')
    (hb : Below b'.metrics) : Balanced config n b' := by
  -- the counters outside the ledger first, then the transition
  have hsame {m : CircuitBreakerMetrics} (hm : CircuitBreaker.SameTransitions m b.metrics) :
      Balanced config n { b with metrics := m } := h.of_same rfl rfl rfl hm
  cases hr with
  | neutral | isOpen _ => exact h
  | success _ hm | failure _ hm _ => exact h.of_same rfl rfl rfl hm
  | @tripped m hs hm _ =>
    obtain ⟨_,htrips,hrejected,hspent,_⟩ := hsame hm
    dsimp only at htrips
    have hone : (Saturating.add64 m.trips 1).toNat = m.trips.toNat+1 :=
      Saturating.add64_one_of_lt hb.trips
    rw [if_pos hs] at htrips
    refine ⟨h.same,?_,hrejected,hspent,fun hs' => by cases hs'⟩
    simp only [CircuitBreaker.incrementTrips,CircuitBreaker.count,hone,htrips,reduceCtorEq,
      if_false,Nat.add_zero]
  | @probed m hs hm hless =>
    obtain ⟨_,htrips,hrejected,hspent,hunspent⟩ := hsame hm
    obtain ⟨hlt,hleft⟩ := hunspent hs
    dsimp only at hlt hleft
    have hone : (Saturating.add64 m.halfOpenSuccesses 1).toNat = m.halfOpenSuccesses.toNat+1 :=
      Saturating.add64_one_of_lt hb.halfOpenSuccesses
    have hnext := toNat_succ rfl hlt config.probes_lt
    rw [h.same] at hless
    refine ⟨h.same,htrips,hrejected,?_,fun _ => ⟨hless,?_⟩⟩
    · exact hspent.trans (Saturating.le_add64_one m.halfOpenSuccesses)
    · simp only [CircuitBreaker.incrementHalfOpenSuccesses,CircuitBreaker.count,hone,hnext]
      omega
  | @recovered m hs hm hmore =>
    obtain ⟨_,htrips,hrejected,_,hunspent⟩ := hsame hm
    obtain ⟨hlt,hleft⟩ := hunspent hs
    dsimp only at htrips hlt hleft
    have hone : (Saturating.add64 m.halfOpenSuccesses 1).toNat = m.halfOpenSuccesses.toNat+1 :=
      Saturating.add64_one_of_lt hb.halfOpenSuccesses
    have hrec : (Saturating.add64 m.recoveries 1).toNat = m.recoveries.toNat+1 :=
      Saturating.add64_one_of_lt hb.recoveries
    rw [if_neg (by simp [hs])] at htrips
    rw [toNat_succ rfl hlt config.probes_lt,h.same] at hmore
    refine ⟨h.same,?_,hrejected,?_,fun hs' => by cases hs'⟩
    · simp only [CircuitBreaker.incrementRecoveries,CircuitBreaker.incrementHalfOpenSuccesses,
        CircuitBreaker.count,hrec,if_true]
      omega
    · simp only [CircuitBreaker.incrementRecoveries,CircuitBreaker.incrementHalfOpenSuccesses,
        CircuitBreaker.count,hrec,hone,Nat.mul_succ]
      omega
  | @reopened m hs hm =>
    obtain ⟨_,htrips,hrejected,hspent,_⟩ := hsame hm
    dsimp only at htrips
    have hone : (Saturating.add64 m.trips 1).toNat = m.trips.toNat+1 :=
      Saturating.add64_one_of_lt hb.trips
    have hfail : (Saturating.add64 m.halfOpenFailures 1).toNat = m.halfOpenFailures.toNat+1 :=
      Saturating.add64_one_of_lt hb.halfOpenFailures
    rw [if_neg (by simp [hs])] at htrips
    refine ⟨h.same,?_,hrejected,hspent,fun hs' => by cases hs'⟩
    simp only [CircuitBreaker.incrementTrips,CircuitBreaker.incrementHalfOpenFailures,
      CircuitBreaker.count,hone,hfail,reduceCtorEq,if_false]
    omega

end

/-- `allow_call` answered with `CircuitOpen`; no operation of the client builds that error. -/
def circuitOpen : Reply → Bool
  | .rejected (.circuitOpen _ _) => true
  | _ => false

theorem balanced_step {config : CircuitBreakerConfig} {n : Nat} {s : Calls κ} (x : Step κ α)
    (h : Below s.breaker.metrics → Balanced config n s.breaker)
    (hb : Below (step x s).2.breaker.metrics) :
    Balanced config (n+(circuitOpen (step x s).1).toNat) (step x s).2.breaker := by
  have hmoves := step_moves x s
  generalize (step x s).1 = reply at hmoves ⊢
  generalize (step x s).2 = s' at hb hmoves ⊢
  cases hmoves with
  | ignored => exact h hb
  | rejected ha =>
    obtain ⟨_,state,wait,rfl⟩ := rejected_breaker ha
    exact (h (hb.before (grows_allowed ha))).rejects ha hb
  | admitted _ ha => exact (h (hb.before (grows_allowed ha))).admitted ha
  | recorded _ hr => exact (h (hb.before (grows_recorded hr))).records hr hb

theorem balanced_run (config : CircuitBreakerConfig) (l : List (Step κ α))
    (hb : Below (Machine.final step l (new config)).breaker.metrics) :
    Balanced config ((Machine.outputs step l (new config)).countP fun p => circuitOpen p.2)
      (Machine.final step l (new config)).breaker := by
  induction l using List.reverseRecOn with
  | nil => exact balanced_new config
  | append_singleton l x ih =>
    rw [Machine.final_snoc] at hb ⊢
    have hnext := balanced_step x ih hb
    rw [Machine.outputs_append,List.countP_append]
    simp only [Machine.outputs,List.countP_cons,List.countP_nil,Nat.zero_add]
    cases hc : circuitOpen (step x (Machine.final step l (new config))).1 <;>
      simpa [hc] using hnext

/-- The metrics account for every transition and every rejection of a run. -/
theorem metrics_account (config : CircuitBreakerConfig) (l : List (Step κ α))
    (hbelow : Below (Machine.final step l (new config)).breaker.metrics) :
    let b := (Machine.final step l (new config)).breaker
    let m := b.metrics
    m.trips.toNat = m.recoveries.toNat+m.halfOpenFailures.toNat+
        (if b.state = .closed then 0 else 1) ∧
      m.rejectedCalls.toNat =
        (Machine.outputs step l (new config)).countP (fun p => circuitOpen p.2) ∧
      config.probes*m.recoveries.toNat ≤ m.halfOpenSuccesses.toNat := by
  have h := balanced_run config l hbelow
  exact ⟨h.trips,h.rejected,h.spent⟩

theorem metrics_account_for_a_rejection :
    let l : List (Step Nat Unit) := [.arrive 1 0,.arrive 2 0,
      .finish 1 0 (.error (.timeout "url" 5)),.arrive 3 4,.arrive 4 10,.finish 2 11 (.ok ())]
    let b := (Machine.final step l (new ⟨1,10,2⟩)).breaker
    let m := b.metrics
    m.trips.toNat = m.recoveries.toNat+m.halfOpenFailures.toNat+
        (if b.state = .closed then 0 else 1) ∧
      m.rejectedCalls.toNat =
        (Machine.outputs step l (new ⟨1,10,2⟩)).countP (fun p => circuitOpen p.2) ∧
      CircuitBreakerConfig.probes ⟨1,10,2⟩*m.recoveries.toNat ≤ m.halfOpenSuccesses.toNat :=
  metrics_account ⟨1,10,2⟩ _
    ⟨by decide +kernel,by decide +kernel,by decide +kernel,by decide +kernel,by decide +kernel⟩

end ProofStell.Stellar.Calls
