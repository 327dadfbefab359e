import ProofStell.Cache.BreakerWaits

/-! How the waiting time of the cache breaker changes from one opening to the next. -/
namespace ProofStell.Cache
open CacheCircuitBreaker

/-- The breaker with the failures recorded since it opened and the backoff that the latest probe
had to wait for, unless the breaker has closed since. -/
structure Paced where
  breaker : CacheCircuitBreaker
  late : Nat
  waited : Option UInt64

namespace Paced

def new (config : CacheCircuitBreakerConfig) : Paced := ⟨.new config,0,none⟩

def log (s : Paced) (x : BreakerCall) (b : CacheCircuitBreaker) : Paced where
  breaker := b
  late := if s.breaker.state ≠ .isOpen then 0 else if x.fails then s.late+1 else s.late
  waited :=
    if b.state = .closed then none
    else if s.breaker.state = .isOpen ∧ b.state = .halfOpen then some s.breaker.currentBackoff
    else s.waited

def pace (x : BreakerCall) (s : Paced) : Option Bool × Paced :=
  ((s.breaker.call x).1,s.log x (s.breaker.call x).2)

def largestBackoff (config : CacheCircuitBreakerConfig) : Nat :=
  min (64*config.backoffBaseMs.toNat) config.backoffMaxMs.toNat

/-- Whoever asks a breaker that a failed probe has opened again is held to twice the backoff that
this probe had to wait for, up to the largest. -/
def BackoffGrows (config : CacheCircuitBreakerConfig) (s : Paced) (x : BreakerCall) : Prop :=
  ∀ now, x = .shouldAllow now → s.breaker.state = .isOpen → ∀ waited, s.waited = some waited →
    min (2*waited.toNat) (largestBackoff config) ≤ s.breaker.currentBackoff.toNat

/-- Whoever asks a breaker that a failed probe has opened again finds that more failures have been
recorded since, or that the counter or the backoff had come to its limit before. -/
def asksLate (config : CacheCircuitBreakerConfig) (s : Paced) (x : BreakerCall) : Bool :=
  match x with
  | .shouldAllow _ => s.breaker.state ≠ .isOpen || s.waited.isNone || 0 < s.late ||
      7 ≤ s.breaker.consecutiveFailures.toNat ||
      config.backoffMaxMs.toNat ≤
        config.backoffBaseMs.toNat*2^(s.breaker.consecutiveFailures.toNat-1)
  | .recordSuccess _ | .recordFailure _ => true

def OnlyProbesFail (s : Paced) (x : BreakerCall) : Prop :=
  s.breaker.state = .isOpen → x.fails = false

theorem doubled_iff {base e' : Nat} (cap e : Nat) (hbase : 0 < base) (he' : e' ≤ 6) :
    min (2*min (base*2^e) cap) (min (64*base) cap) ≤ min (base*2^e') cap ↔
      e < e' ∨ e' = 6 ∨ cap ≤ base*2^e' := by
  have hpos : 0 < base*2^e' := Nat.mul_pos hbase (Nat.two_pow_pos e')
  have hgrown (h : e < e') : 2*(base*2^e) ≤ base*2^e' := by
    calc 2*(base*2^e) = base*2^(e+1) := by rw [pow_succ]; ring
      _ ≤ base*2^e' := Nat.mul_le_mul_left base (Nat.pow_le_pow_right (by decide) h)
  have hsame (h : e' ≤ e) : base*2^e' ≤ base*2^e :=
    Nat.mul_le_mul_left base (Nat.pow_le_pow_right (by decide) h)
  have hbelow (h : e' < 6) : 2*(base*2^e') ≤ 64*base := by
    calc 2*(base*2^e') = base*2^(e'+1) := by rw [pow_succ]; ring
      _ ≤ base*2^6 := Nat.mul_le_mul_left base (Nat.pow_le_pow_right (by decide) h)
      _ = 64*base := by ring
  constructor
  · intro h
    by_contra hnot
    simp only [not_or,not_lt,not_le] at hnot
    have := hsame hnot.1
    have := hbelow (lt_of_le_of_ne he' hnot.2.1)
    omega
  · intro h
    obtain h | rfl | h := h
    · have := hgrown h
      omega
    · omega
    · omega

theorem backoffAt_doubled_iff {config : CacheCircuitBreakerConfig}
    (hconfig : Config.Accepted config) (late : Nat) {count : Nat} (hlate : late < count) :
    min (2*backoffAt config (count-late)) (largestBackoff config) ≤ backoffAt config count ↔
      0 < late ∨ 7 ≤ count ∨
        config.backoffMaxMs.toNat ≤ config.backoffBaseMs.toNat*2^(count-1) := by
  rw [backoffAt,backoffAt,largestBackoff,
    doubled_iff config.backoffMaxMs.toNat _ hconfig.base.1 (Nat.min_le_right _ _)]
  by_cases hcount : 7 ≤ count
  · have hcap : min (count-1) 6 = 6 := by omega
    simp [hcap,hcount]
  · have hexp : min (count-1) 6 = count-1 := by omega
    rw [hexp]
    have hless : min (count-late-1) 6 < count-1 ↔ 0 < late := by omega
    have hsix : count-1≠6 := by omega
    simp [hless,hsix,hcount]

structure Steady (config : CacheCircuitBreakerConfig) (l : List BreakerCall) (s : Paced) :
    Prop where
  keeps : s.breaker.Keeps config
  room : s.breaker.consecutiveFailures.toNat+failuresIn l < 2^32
  closed : s.breaker.state = .closed → s.waited = none
  isOpen : s.breaker.state = .isOpen → s.late < s.breaker.consecutiveFailures.toNat ∧
    ∀ waited, s.waited = some waited →
      waited.toNat = backoffAt config (s.breaker.consecutiveFailures.toNat-s.late)
  halfOpen : s.breaker.state = .halfOpen → 0 < s.breaker.consecutiveFailures.toNat ∧
    ∀ waited, s.waited = some waited →
      waited.toNat = backoffAt config s.breaker.consecutiveFailures.toNat

theorem Steady.grows_iff {config : CacheCircuitBreakerConfig} (hconfig : Config.Accepted config)
    {x : BreakerCall} {l : List BreakerCall} {s : Paced} (h : s.Steady config l) :
    s.BackoffGrows config x ↔ s.asksLate config x = true := by
  cases x with
  | recordSuccess now => simp [BackoffGrows,asksLate]
  | recordFailure now => simp [BackoffGrows,asksLate]
  | shouldAllow now =>
    by_cases hs : s.breaker.state = .isOpen
    · obtain ⟨hlate,hwaited⟩ := h.isOpen hs
      cases hw : s.waited with
      | none => simp [BackoffGrows,asksLate,hw]
      | some waited =>
        have hiff := backoffAt_doubled_iff hconfig _ hlate
        rw [← hwaited waited hw,← h.keeps.backoff hconfig] at hiff
        simpa [BackoffGrows,asksLate,hs,hw,or_assoc] using hiff
    · simp [BackoffGrows,asksLate,hs]

theorem Steady.pace {config : CacheCircuitBreakerConfig} (hconfig : Config.Accepted config)
    {x : BreakerCall} {l : List BreakerCall} {s : Paced} (h : s.Steady config (x::l)) :
    (pace x s).2.Steady config l := by
  have hcall := call_called x s.breaker
  have hkeeps := h.keeps.call hcall
  obtain ⟨hroom,-⟩ := hcall.counter h.room
  have hnext : x.fails = true → (s.breaker.consecutiveFailures+1).toNat =
      s.breaker.consecutiveFailures.toNat+1 := fun hx => by
    have hroom := h.room
    rw [failuresIn,List.countP_cons_of_pos hx] at hroom
    rw [UInt32.toNat_add,UInt32.toNat_one]
    omega
  rw [Paced.pace]
  generalize (s.breaker.call x).1 = reply at hcall
  generalize (s.breaker.call x).2 = b at hcall hkeeps hroom ⊢
  cases hcall with
  | passed hs | cleared hs | counted hs _ =>
    exact ⟨hkeeps,hroom,fun _ => by simp [log,hs],fun hs' => (by cases hs.symm.trans hs'),
      fun hs' => (by cases hs.symm.trans hs')⟩
  | recovered hs _ =>
    exact ⟨hkeeps,hroom,fun _ => by simp [log,transitionTo],fun hs' => (by cases hs'),
      fun hs' => (by cases hs')⟩
  | waiting hs _ | lateSuccess hs =>
    refine ⟨hkeeps,hroom,fun hs' => (by cases hs.symm.trans hs'),fun _ => ?_,
      fun hs' => (by cases hs.symm.trans hs')⟩
    simpa [log,hs,BreakerCall.fails] using h.isOpen hs
  | probe hs | probed hs _ =>
    refine ⟨hkeeps,hroom,fun hs' => (by cases hs.symm.trans hs'),
      fun hs' => (by cases hs.symm.trans hs'),fun _ => ?_⟩
    simpa [log,hs] using h.halfOpen hs
  | entered hs _ =>
    refine ⟨hkeeps,hroom,fun hs' => (by cases hs'),fun hs' => (by cases hs'),fun _ => ?_⟩
    refine ⟨(Nat.zero_le _).trans_lt (h.isOpen hs).1,fun waited hw => ?_⟩
    obtain rfl : s.breaker.currentBackoff = waited := by simpa [log,transitionTo,hs] using hw
    exact h.keeps.backoff hconfig
  | tripped hs _ =>
    refine ⟨hkeeps,hroom,fun hs' => (by cases hs'),fun _ => ?_,fun hs' => (by cases hs')⟩
    have hone := hnext rfl
    simp [log,transitionTo,hs,hone,h.closed hs]
  | reopened hs =>
    refine ⟨hkeeps,hroom,fun hs' => (by cases hs'),fun _ => ?_,fun hs' => (by cases hs')⟩
    simpa [log,transitionTo,hs] using h.halfOpen hs
  | lateFailure hs =>
    refine ⟨hkeeps,hroom,fun hs' => (by cases hs.symm.trans hs'),fun _ => ?_,
      fun hs' => (by cases hs.symm.trans hs')⟩
    have hone := hnext rfl
    simpa [log,hs,hone,BreakerCall.fails] using h.isOpen hs

structure Driven (config : CacheCircuitBreakerConfig) (s : Paced) : Prop where
  keeps : s.breaker.Keeps config
  closed : s.breaker.state = .closed →
    s.breaker.consecutiveFailures.toNat < config.failureThreshold.toNat ∧ s.waited = none
  tripped : s.breaker.state≠.closed →
    s.breaker.consecutiveFailures.toNat = config.failureThreshold.toNat
  waited : ∀ waited, s.waited = some waited →
    waited.toNat = backoffAt config config.failureThreshold.toNat

theorem driven_new {config : CacheCircuitBreakerConfig} (hconfig : Config.Accepted config) :
    (new config).Driven config :=
  ⟨keeps_new config,fun _ => ⟨hconfig.threshold,rfl⟩,fun hs => absurd rfl hs,
    fun _ h => (by cases h)⟩

theorem Driven.pace {config : CacheCircuitBreakerConfig} (hconfig : Config.Accepted config)
    {x : BreakerCall} {s : Paced} (h : s.Driven config) (hx : s.OnlyProbesFail x) :
    (pace x s).2.Driven config := by
  have hcall := call_called x s.breaker
  have hkeeps := h.keeps.call hcall
  have hnext (hs : s.breaker.state = .closed) : (s.breaker.consecutiveFailures+1).toNat =
      s.breaker.consecutiveFailures.toNat+1 :=
    Watched.toNat_add_one ((h.closed hs).1.trans_eq (congrArg _ h.keeps.threshold.symm))
  have hwait (hs : s.breaker.state≠.closed) : s.breaker.currentBackoff.toNat =
      backoffAt config config.failureThreshold.toNat := by
    rw [h.keeps.backoff hconfig,h.tripped hs]
  rw [Paced.pace]
  generalize (s.breaker.call x).1 = reply at hcall
  generalize (s.breaker.call x).2 = b at hcall hkeeps ⊢
  cases hcall with
  | passed hs =>
    exact ⟨hkeeps,fun _ => ⟨(h.closed hs).1,by simp [log,hs]⟩,fun hs' => absurd hs hs',
      by simp [log,hs]⟩
  | cleared hs =>
    exact ⟨hkeeps,fun _ => ⟨hconfig.threshold,by simp [log,hs]⟩,fun hs' => absurd hs hs',
      by simp [log,hs]⟩
  | recovered hs _ =>
    exact ⟨hkeeps,fun _ => ⟨hconfig.threshold,by simp [log,transitionTo]⟩,
      fun hs' => absurd rfl hs',by simp [log,transitionTo]⟩
  | counted hs hless =>
    rw [UInt32.lt_iff_toNat_lt,h.keeps.threshold] at hless
    exact ⟨hkeeps,fun _ => ⟨hless,by simp [log,hs]⟩,fun hs' => absurd hs hs',by simp [log,hs]⟩
  | tripped hs hmet =>
    have hbelow := (h.closed hs).1
    rw [UInt32.not_lt,UInt32.le_iff_toNat_le,h.keeps.threshold,hnext hs] at hmet
    refine ⟨hkeeps,fun hs' => (by cases hs'),fun _ => ?_,?_⟩
    · simp only [log,transitionTo,hnext hs]
      omega
    · simp [log,transitionTo,hs,(h.closed hs).2]
  | waiting hs _ | probe hs | probed hs _ | lateSuccess hs =>
    exact ⟨hkeeps,fun hs' => (by cases hs.symm.trans hs'),fun _ => h.tripped (by simp [hs]),
      by simpa [log,hs] using h.waited⟩
  | entered hs _ =>
    refine ⟨hkeeps,fun hs' => (by cases hs'),fun _ => h.tripped (by simp [hs]),fun w hw => ?_⟩
    obtain rfl : s.breaker.currentBackoff = w := by simpa [log,transitionTo,hs] using hw
    exact hwait (by simp [hs])
  | reopened hs =>
    exact ⟨hkeeps,fun hs' => (by cases hs'),fun _ => h.tripped (by simp [hs]),
      by simpa [log,transitionTo,hs] using h.waited⟩
  | lateFailure hs => cases hx hs

/-- With nothing but failed probes the backoff stays where the trip has put it. -/
theorem Driven.grows {config : CacheCircuitBreakerConfig} (hconfig : Config.Accepted config)
    {x : BreakerCall} {s : Paced} (h : s.Driven config)
    (hlimit : 7 ≤ config.failureThreshold.toNat ∨ config.backoffMaxMs.toNat ≤
      config.backoffBaseMs.toNat*2^(config.failureThreshold.toNat-1)) :
    s.BackoffGrows config x := by
  intro now _ hs w hw
  have hiff := backoffAt_doubled_iff hconfig 0 hconfig.threshold
  rw [h.waited w hw,h.keeps.backoff hconfig,h.tripped (by simp [hs])]
  exact hiff.mpr (Or.inr hlimit)

theorem pace_breaker (l : List BreakerCall) (config : CacheCircuitBreakerConfig) :
    (Machine.final pace l (new config)).breaker = Machine.final call l (.new config) := by
  have hstep (x : BreakerCall) (_ : x∈l) (s : Paced) :
      call (id x) s.breaker = (id (pace x s).1,(pace x s).2.breaker) := rfl
  have h := (Machine.simulation Paced.breaker id id hstep (new config)).1
  rw [List.map_id] at h
  exact h.symm

def probeFails (config : CacheCircuitBreakerConfig) (now : Nat) : List BreakerCall :=
  List.replicate config.failureThreshold.toNat (.recordFailure 0) ++
    [.shouldAllow now,.recordFailure now,.shouldAllow now]

theorem onlyProbesFail_trip {config : CacheCircuitBreakerConfig}
    (hconfig : Config.Accepted config) : Machine.Along pace OnlyProbesFail
      (List.replicate config.failureThreshold.toNat (.recordFailure 0)) (new config) := by
  rw [Machine.along_iff]
  intro n x hx hs
  have hn : n < config.failureThreshold.toNat := by
    simpa using (List.getElem?_eq_some_iff.mp hx).1
  rw [pace_breaker,List.take_replicate,Nat.min_eq_left hn.le] at hs
  rw [(after_failures hconfig.threshold n).2.2.1 hn] at hs
  cases hs

theorem limit_of_probeFails {config : CacheCircuitBreakerConfig}
    (hconfig : Config.Accepted config)
    (h : ∀ now, Machine.Along pace OnlyProbesFail (probeFails config now) (new config) →
      Machine.Along pace (BackoffGrows config) (probeFails config now) (new config)) :
    7 ≤ config.failureThreshold.toNat ∨ config.backoffMaxMs.toNat ≤
      config.backoffBaseMs.toNat*2^(config.failureThreshold.toNat-1) := by
  have htrip := onlyProbesFail_trip hconfig
  obtain ⟨hkeeps,hcount,-,hopen⟩ := after_failures hconfig.threshold config.failureThreshold.toNat
  simp only [probeFails,Machine.along_append] at h
  rw [← pace_breaker] at hkeeps hcount hopen
  generalize Machine.final pace (List.replicate config.failureThreshold.toNat (.recordFailure 0))
    (new config) = s at h hkeeps hcount hopen
  obtain ⟨hs,hopened⟩ := hopen le_rfl
  let now := millis s.breaker.currentBackoff
  have hask : (pace (.shouldAllow now) s).2 = ⟨s.breaker.transitionTo now .halfOpen,s.late,
      some s.breaker.currentBackoff⟩ := by
    have hdue : s.breaker.due now = true := due_of_le hopened (Nat.le_of_eq rfl)
    rw [pace,call,shouldAllow_isOpen now hs,hdue]
    simp [log,hs,transitionTo,BreakerCall.fails]
  have hfail : (pace (.recordFailure now) (pace (.shouldAllow now) s).2).2 =
      ⟨(s.breaker.transitionTo now .halfOpen).transitionTo now .isOpen,0,
        some s.breaker.currentBackoff⟩ := by
    rw [hask]
    rfl
  have honly : s.OnlyProbesFail (.shouldAllow now) ∧
      (pace (.shouldAllow now) s).2.OnlyProbesFail (.recordFailure now) := by
    refine ⟨fun _ => rfl,fun hs' => ?_⟩
    rw [hask] at hs'
    cases hs'
  obtain ⟨-,-,-,hagain,-⟩ := h now ⟨htrip,honly.1,honly.2,fun _ => rfl,trivial⟩
  rw [hfail] at hagain
  have hgrows : min (2*s.breaker.currentBackoff.toNat) (largestBackoff config) ≤
      s.breaker.currentBackoff.toNat := hagain now rfl rfl _ rfl
  have hiff := backoffAt_doubled_iff hconfig 0 hconfig.threshold
  rw [hkeeps.backoff hconfig,hcount,UInt32.ofNat_toNat] at hgrows
  exact (hiff.mp hgrows).resolve_left (Nat.lt_irrefl 0)

/-- The waiting times double, up to the largest, exactly if nobody asks a reopened breaker before
another failure has been recorded, unless the limit had been reached. -/
theorem backoff_grows_iff {env : Config.Env} {config : CacheCircuitBreakerConfig}
    (hconfig : Config.cacheCircuitBreaker env = (config,[])) :
    (∀ l : List BreakerCall, failuresIn l < 2^32 →
      (Machine.Along pace (BackoffGrows config) l (new config) ↔
        Machine.Along pace (fun s x => s.asksLate config x = true) l (new config))) ∧
    ((∀ l : List BreakerCall, Machine.Along pace OnlyProbesFail l (new config) →
        Machine.Along pace (BackoffGrows config) l (new config)) ↔
      7 ≤ config.failureThreshold.toNat ∨ config.backoffMaxMs.toNat ≤
        config.backoffBaseMs.toNat*2^(config.failureThreshold.toNat-1)) := by
  have hconfig := Config.cacheCircuitBreaker_accepted hconfig
  refine ⟨fun l hroom => ?_,fun h => limit_of_probeFails hconfig fun now => h _,
    fun hlimit l h => ?_⟩
  · refine Machine.along_congr (I := Steady config) (fun x l s h => h.grows_iff hconfig)
      (fun x l s h _ => h.pace hconfig) ⟨keeps_new config,?_,fun _ => rfl,?_,?_⟩
    · simpa [new,CacheCircuitBreaker.new] using hroom
    · intro hs
      cases hs
    · intro hs
      cases hs
  · exact Machine.along_of_invariant (I := Driven config)
      (fun s x hs hx => ⟨hs.pace hconfig hx,hs.grows hconfig hlimit⟩) h (driven_new hconfig)

/-- Three seconds after a failed probe of the default breaker another failure comes in late, and
whoever asks then is held to 3.2 seconds. -/
theorem backoff_grows_with_a_late_failure :
    Machine.Along pace (BackoffGrows .default)
      (List.replicate 5 (.recordFailure 0) ++ [.shouldAllow 1600000000,.recordFailure 1600000001,
        .recordFailure 4600000000,.shouldAllow 4800000000,.shouldAllow 4800000001])
      (new .default) := by
  have hconfig : Config.cacheCircuitBreaker (fun _ => none) = (.default,[]) := by decide +kernel
  exact ((backoff_grows_iff hconfig).1 _ (by decide)).mpr (by decide +kernel)

/-- Five failures open the default breaker for 1.6 seconds, and after a failed probe it asks for
another 1.6 seconds instead of 3.2. -/
theorem backoff_stands_still :
    ¬∀ (env : Config.Env) (config : CacheCircuitBreakerConfig) (l : List BreakerCall),
      Config.cacheCircuitBreaker env = (config,[]) →
      Machine.Along pace (BackoffGrows config) l (new config) := by
  intro hall
  have hrun := hall (fun _ => none) .default
    (List.replicate 5 (.recordFailure 0) ++ [.shouldAllow 1600000000,.recordFailure 1600000001,
      .shouldAllow 1600000002]) (by decide +kernel)
  have hlast := hrun.2.2.2.2.2.2.2.1 1600000002 rfl (by decide +kernel) _ rfl
  revert hlast
  decide +kernel

end Paced
end ProofStell.Cache
