import ProofStell.Stellar.Overlap

/-! Probes of a half-open breaker under overlapping calls: how many there are, and whose
results decide the recovery. -/
namespace ProofStell.Stellar.Calls
variable {κ α : Type} [DecidableEq κ]

def openProbes (s : Calls κ) : Nat := s.pending.countP (·.2.isSome)

/-- The documented limit, and the counter that should keep it. -/
def HalfOpenLimit (config : CircuitBreakerConfig) (s : Calls κ) : Prop :=
  s.openProbes ≤ config.probes ∧
    (s.breaker.state = .halfOpen → s.breaker.halfOpenInFlight.toNat = s.openProbes)

/-- No call arrives at an open breaker whose open period is over. -/
def staysOut (s : Calls κ) (x : Step κ α) : Bool :=
  match x with
  | .arrive k now => !(s.fresh k && s.breaker.state == .isOpen && s.breaker.openOver now)
  | .finish .. => true

structure Out (s : Calls κ) : Prop where
  state : s.breaker.state≠.halfOpen
  pending : ∀ p∈s.pending, p.2 = none

omit [DecidableEq κ] in
theorem Out.limit {s : Calls κ} (h : s.Out) (config : CircuitBreakerConfig) :
    s.HalfOpenLimit config := by
  have hnone : s.openProbes = 0 := by
    rw [openProbes,List.countP_eq_zero]
    intro p hp
    simp [h.pending p hp]
  exact ⟨by omega,fun hs => absurd hs h.state⟩

theorem recorded_out {b b' : CircuitBreaker} {now : Nat} {o : Outcome}
    (h : b.Recorded now o b') (hs : b.state≠.halfOpen) : b'.state≠.halfOpen := by
  cases h with
  | neutral | isOpen _ | success _ _ | failure _ _ _ => exact hs
  | tripped _ _ _ =>
    intro h
    cases h
  | probed hs' _ _ | recovered hs' _ _ | reopened hs' _ => exact absurd hs' hs

theorem Out.step {s : Calls κ} (x : Step κ α) (h : s.Out) (hx : staysOut s x = true) :
    (step x s).2.Out := by
  have hmoves := step_moves x s
  generalize (Calls.step x s).1 = reply at hmoves
  generalize (Calls.step x s).2 = s' at hmoves ⊢
  cases hmoves with
  | ignored => exact h
  | rejected hallowed =>
    obtain ⟨rfl,_⟩ := rejected_breaker hallowed
    exact ⟨h.state,h.pending⟩
  | @admitted k now b hk hallowed =>
    obtain ⟨hs,hover,_⟩ | ⟨_,hs,_⟩ := admitted_state hallowed
    · simp [staysOut,hk,hs,hover] at hx
    · have hout : b.state≠.halfOpen := by
        rw [hs]
        exact h.state
      refine ⟨hout,?_⟩
      intro p hp
      obtain hp | hp := List.mem_cons.mp hp
      · rw [hp,if_neg hout]
      · exact h.pending p hp
  | recorded hk hrecorded =>
    refine ⟨recorded_out hrecorded h.state,?_⟩
    intro p hp
    exact h.pending p (List.mem_filter.mp hp).1

/-- A call that arrives after the open period is a probe, and the counter does not know it. -/
theorem entering_uncounted {s : Calls κ} {k : κ} {now : Nat} (hk : s.fresh k = true)
    (hs : s.breaker.state = .isOpen) (hover : s.breaker.openOver now = true) :
    let s' := (step (.arrive k now : Step κ α) s).2
    s'.breaker.state = .halfOpen ∧ s'.breaker.halfOpenInFlight.toNat = 0 ∧ 0 < s'.openProbes := by
  simp only [step,hk,if_true,CircuitBreaker.allowCall_over hs hover]
  refine ⟨rfl,rfl,?_⟩
  simp [openProbes,allow,CircuitBreaker.enterHalfOpen]

/-- The half-open limit holds in every state of a run exactly if the breaker never enters
`HalfOpen` in it: already the call that opens the period is admitted without being counted. -/
theorem half_open_limit_iff (config : CircuitBreakerConfig) (l : List (Step κ α)) :
    (∀ n, (Machine.final step (l.take n) (new config)).HalfOpenLimit config) ↔
      Machine.Along step (fun s x => staysOut s x = true) l (new config) := by
  constructor
  · intro h
    rw [Machine.along_iff]
    intro n x hx
    by_contra hnot
    have hlimit := (h (n+1)).2
    rw [List.take_add_one,hx,Option.toList_some,Machine.final_snoc] at hlimit
    cases x with
    | finish k now result => exact hnot rfl
    | arrive k now =>
      have henter : ((Machine.final step (l.take n) (new config)).fresh k = true ∧
          (Machine.final step (l.take n) (new config)).breaker.state = .isOpen) ∧
          (Machine.final step (l.take n) (new config)).breaker.openOver now = true := by
        simpa [staysOut,and_assoc] using hnot
      obtain ⟨⟨hk,hs⟩,hover⟩ := henter
      obtain ⟨hhalf,hzero,hpos⟩ := entering_uncounted hk hs hover
      have := hlimit hhalf
      omega
  · intro h n
    rw [← List.take_append_drop n l] at h
    have hrun := ((Machine.along_append _ _ _).mp h).1
    have hout : (new config : Calls κ).Out := ⟨by simp [new,CircuitBreaker.new],by simp [new]⟩
    exact (Machine.along_invariant (fun s x hs hx => hs.step x hx) hrun hout).limit config

/-- One probe is allowed, and two are under way. -/
theorem two_probes_under_way :
    ¬∀ (config : CircuitBreakerConfig) (l : List (Step Nat Unit)) (n : Nat),
      (Machine.final step (l.take n) (new config)).HalfOpenLimit config := by
  intro hall
  have hlimit := (hall ⟨1,10,1⟩ [.arrive 1 0,.finish 1 0 (.error (.timeout "url" 5)),.arrive 2 10,
    .arrive 3 10] 4).1
  revert hlimit
  decide

/-- Only probes of the current period decide: successes close the breaker, a failure opens it
again, and no call from a closed period moves it. -/
def ProbesDecide (config : CircuitBreakerConfig) (s : Calls κ) (x : Step κ α) : Prop :=
  s.breaker.state = .halfOpen →
    ((step x s).2.breaker.state = .closed → config.probes ≤ (step x s).2.probeSuccesses) ∧
    ((step x s).2.breaker.state = .isOpen → ∃ k now result, x = .finish k now result ∧
      s.pending.lookup k = some (some s.period) ∧ outcome result = .failure) ∧
    ∀ k now result, x = .finish k now result → s.pending.lookup k = some none →
      (step x s).2.breaker.state = .halfOpen

/-- A half-open breaker is told a success or a failure only by a probe of its period. -/
def onlyProbes (s : Calls κ) (x : Step κ α) : Bool :=
  match x with
  | .arrive .. => true
  | .finish k _ result =>
    s.breaker.state ≠ .halfOpen || outcome result = .neutral || s.pending.lookup k = none ||
      s.pending.lookup k = some (some s.period)

structure CountsProbes (config : CircuitBreakerConfig) (s : Calls κ) : Prop where
  same : s.breaker.config = config
  count : s.breaker.state = .halfOpen →
    s.breaker.halfOpenSuccesses.toNat = s.probeSuccesses ∧ s.probeSuccesses < config.probes

omit [DecidableEq κ] in
theorem countsProbes_new (config : CircuitBreakerConfig) :
    (new config : Calls κ).CountsProbes config :=
  ⟨rfl,fun h => by cases h⟩

/-- A result that only probes report keeps the count, and moves the breaker as documented. -/
theorem CountsProbes.record {config : CircuitBreakerConfig} {s : Calls κ}
    (h : s.CountsProbes config) (k : κ) {now : Nat} {o : Outcome} {probe : Option Nat}
    {b : CircuitBreaker} (hrecorded : s.breaker.Recorded now o b)
    (hprobe : s.breaker.state = .halfOpen → o≠.neutral → probe = some s.period) :
    (s.record k probe o b).CountsProbes config ∧
      (s.breaker.state = .halfOpen →
        (b.state = .closed → config.probes ≤ (s.record k probe o b).probeSuccesses) ∧
        (b.state = .isOpen → o = .failure ∧ probe = some s.period) ∧
        (probe = none → b.state = .halfOpen)) := by
  have hsame := h.same
  cases hrecorded with
  | neutral =>
    refine ⟨⟨hsame,?_⟩,fun hs => ⟨by simp [hs],by simp [hs],fun _ => hs⟩⟩
    simpa [Calls.record] using h.count
  | isOpen hs => exact ⟨⟨hsame,by simp [Calls.record,hs]⟩,by simp [hs]⟩
  | success hs _ => exact ⟨⟨hsame,by simp [Calls.record,hs]⟩,by simp [hs]⟩
  | failure hs _ _ => exact ⟨⟨hsame,by simp [Calls.record,hs]⟩,by simp [hs]⟩
  | tripped hs _ _ => exact ⟨⟨hsame,fun hs' => by cases hs'⟩,by simp [hs]⟩
  | probed hs _ hless =>
    obtain ⟨hcount,hlt⟩ := h.count hs
    have hp := hprobe hs (by simp)
    rw [toNat_succ hcount hlt config.probes_lt,hsame] at hless
    refine ⟨⟨hsame,fun _ => ?_⟩,fun _ => ⟨?_,?_,by simp [hp]⟩⟩
    · simp only [Calls.record,hp,and_self,if_true]
      exact ⟨toNat_succ hcount hlt config.probes_lt,hless⟩
    · intro hs'
      cases hs.symm.trans hs'
    · intro hs'
      cases hs.symm.trans hs'
  | recovered hs _ hmore =>
    obtain ⟨hcount,hlt⟩ := h.count hs
    have hp := hprobe hs (by simp)
    rw [toNat_succ hcount hlt config.probes_lt,hsame] at hmore
    refine ⟨⟨hsame,fun hs' => by cases hs'⟩,fun _ => ⟨fun _ => ?_,?_,by simp [hp]⟩⟩
    · simp only [Calls.record,hp,and_self,if_true]
      exact hmore
    · intro hs'
      cases hs'
  | reopened hs _ =>
    have hp := hprobe hs (by simp)
    refine ⟨⟨hsame,fun hs' => by cases hs'⟩,fun _ => ⟨?_,fun _ => ⟨rfl,hp⟩,by simp [hp]⟩⟩
    intro hs'
    cases hs'

theorem CountsProbes.step {config : CircuitBreakerConfig} {s : Calls κ} (x : Step κ α)
    (h : s.CountsProbes config) (hx : onlyProbes s x = true) :
    (step x s).2.CountsProbes config ∧ ProbesDecide config s x := by
  rw [ProbesDecide]
  have hmoves := step_moves x s
  generalize (Calls.step x s).1 = reply at hmoves
  generalize (Calls.step x s).2 = s' at hmoves ⊢
  cases hmoves with
  | ignored => exact ⟨h,fun hs => ⟨by simp [hs],by simp [hs],fun _ _ _ _ _ => hs⟩⟩
  | rejected hallowed =>
    obtain ⟨rfl,_⟩ := rejected_breaker hallowed
    refine ⟨⟨h.same,h.count⟩,fun hs => ?_⟩
    have hs' : s.breaker.incrementRejectedCalls.state = .halfOpen := hs
    exact ⟨by simp [hs'],by simp [hs'],by simp⟩
  | @admitted k now b hk hallowed =>
    obtain ⟨hs,_,rfl⟩ | ⟨hnot,hs,hsame,hsucc,_⟩ := admitted_state hallowed
    · refine ⟨⟨h.same,fun _ => ?_⟩,by simp [hs]⟩
      simp only [allow,hs,if_true]
      exact ⟨rfl,config.probes_pos⟩
    · constructor
      · refine ⟨hsame.trans h.same,fun hhalf => ?_⟩
        simp only [allow,if_neg hnot,hsucc]
        exact h.count (hs ▸ hhalf)
      · intro hhalf
        simp [allow,hs,hhalf]
  | @recorded k now result probe b hk hrecorded =>
    have hprobe (hs : s.breaker.state = .halfOpen) (ho : outcome result≠.neutral) :
        probe = some s.period := by
      simpa [onlyProbes,hs,ho,hk] using hx
    obtain ⟨hcounts,hdecide⟩ := h.record k hrecorded hprobe
    refine ⟨hcounts,fun hs => ?_⟩
    obtain ⟨hclosed,hopen,hstay⟩ := hdecide hs
    refine ⟨hclosed,?_,?_⟩
    · intro hs'
      obtain ⟨ho,hp⟩ := hopen hs'
      exact ⟨k,now,result,rfl,by rw [hk,hp],ho⟩
    · intro k' now' result' heq hk'
      cases heq
      exact hstay (Option.some.inj (hk.symm.trans hk'))

/-- In a run in which a half-open breaker hears of successes and failures only from the probes
of its period, only probes decide at every step. -/
theorem only_probes_decide (config : CircuitBreakerConfig) (l : List (Step κ α))
    (h : Machine.Along step (fun s x => onlyProbes s x = true) l (new config)) :
    Machine.Along step (ProbesDecide config) l (new config) :=
  Machine.along_of_invariant (fun _ x hs hx => hs.step x hx) h (countsProbes_new config)

theorem only_probes_decide_in_one_recovery :
    Machine.Along step (ProbesDecide ⟨1,10,1⟩)
      ([.arrive 1 0,.finish 1 0 (.error (.timeout "url" 5)),.arrive 2 10,.finish 2 11 (.ok ())] :
        List (Step Nat Unit)) (new ⟨1,10,1⟩) :=
  only_probes_decide _ _ (by decide)

/-- Call 2 was admitted before the trip. It succeeds while probe 3 is under way, and the breaker
closes without a single successful probe. -/
theorem old_call_closes_the_breaker :
    ¬∀ (config : CircuitBreakerConfig) (l : List (Step Nat Unit)),
      Machine.Along step (ProbesDecide config) l (new config) := by
  intro hall
  have hdecide := hall ⟨1,10,1⟩ [.arrive 1 0,.arrive 2 0,
    .finish 1 0 (.error (.timeout "url" 5)),.arrive 3 10,.finish 2 11 (.ok ())]
  have hlast := (hdecide.2.2.2.2.1 (by decide)).1 (by decide)
  revert hlast
  decide

end ProofStell.Stellar.Calls
