import ProofStell.Cache.BreakerRuns

/-! How long the cache breaker keeps callers waiting after it has opened. -/
namespace ProofStell.Cache

def BreakerCall.fails : BreakerCall → Bool
  | .recordFailure _ => true
  | .shouldAllow _ | .recordSuccess _ => false

def failuresIn (l : List BreakerCall) : Nat := l.countP BreakerCall.fails

/-- The waiting time in milliseconds after so many counted failures. -/
def backoffAt (config : CacheCircuitBreakerConfig) (failures : Nat) : Nat :=
  min (config.backoffBaseMs.toNat*2^min (failures-1) 6) config.backoffMaxMs.toNat

theorem backoffAt_mono (config : CacheCircuitBreakerConfig) {m n : Nat} (h : m ≤ n) :
    backoffAt config m ≤ backoffAt config n := by
  have hexp : min (m-1) 6 ≤ min (n-1) 6 := by omega
  exact min_le_min_right _ (Nat.mul_le_mul_left _ (Nat.pow_le_pow_right (by decide) hexp))

namespace CacheCircuitBreaker

theorem Keeps.backoff {config : CacheCircuitBreakerConfig} (hconfig : Config.Accepted config)
    {b : CacheCircuitBreaker} (h : b.Keeps config) :
    b.currentBackoff.toNat = backoffAt config b.consecutiveFailures.toNat := by
  have hbase : b.backoffBase.toNat ≤ 300000 := h.base ▸ hconfig.base.2
  have hexp : b.exponent = min (b.consecutiveFailures.toNat-1) 6 := by
    rw [exponent]
    omega
  rw [currentBackoff_toNat hbase,h.base,h.max,hexp,backoffAt]

theorem Called.counter {b b' : CacheCircuitBreaker} {x : BreakerCall} {reply : Option Bool}
    (hcall : Called b x reply b') {l : List BreakerCall}
    (hroom : b.consecutiveFailures.toNat+failuresIn (x::l) < 2^32) :
    b'.consecutiveFailures.toNat+failuresIn l < 2^32 ∧ (b'.state≠.closed →
      b.consecutiveFailures.toNat ≤ b'.consecutiveFailures.toNat) := by
  have hnext : b.consecutiveFailures.toNat+1 < 2^32 →
      (b.consecutiveFailures+1).toNat = b.consecutiveFailures.toNat+1 := fun h => by
    rw [UInt32.toNat_add,UInt32.toNat_one,Nat.mod_eq_of_lt h]
  simp only [failuresIn,List.countP_cons] at hroom ⊢
  cases hcall with
  | passed _ | waiting _ _ | entered _ _ | probe _ | probed _ _ | lateSuccess _ =>
    exact ⟨by simpa [BreakerCall.fails,transitionTo] using hroom,fun _ => le_rfl⟩
  | cleared hs =>
    simp only [BreakerCall.fails,Bool.false_eq_true,if_false] at hroom
    exact ⟨by simp only [UInt32.toNat_zero]; omega,fun hs' => absurd hs hs'⟩
  | recovered _ _ =>
    simp only [BreakerCall.fails,Bool.false_eq_true,if_false] at hroom
    exact ⟨by simp only [transitionTo,UInt32.toNat_zero]; omega,fun hs' => absurd rfl hs'⟩
  | counted _ _ | tripped _ _ | lateFailure _ =>
    simp only [BreakerCall.fails,if_true] at hroom
    have hone := hnext (by omega)
    simp only [transitionTo,hone]
    omega
  | reopened _ =>
    simp only [BreakerCall.fails,if_true] at hroom
    exact ⟨by simp only [transitionTo]; omega,fun _ => le_rfl⟩

theorem after_failures {config : CacheCircuitBreakerConfig}
    (hthreshold : 0 < config.failureThreshold.toNat) (n : Nat) :
    let b := Machine.final call (List.replicate n (.recordFailure 0)) (.new config)
    b.Keeps config ∧ b.consecutiveFailures = UInt32.ofNat n ∧
      (n < config.failureThreshold.toNat → b.state = .closed) ∧
      (config.failureThreshold.toNat ≤ n → b.state = .isOpen ∧ b.openedAt = some 0) := by
  induction n with
  | zero => exact ⟨keeps_new config,rfl,fun _ => rfl,fun h => absurd hthreshold (by omega)⟩
  | succ n ih =>
    rw [List.replicate_succ',Machine.final_snoc]
    generalize Machine.final call (List.replicate n (.recordFailure 0)) (.new config) = a at ih ⊢
    obtain ⟨hkeeps,hcount,hclosed,hopen⟩ := ih
    have hcall := call_called (.recordFailure 0) a
    have hsum : UInt32.ofNat n+1 = UInt32.ofNat (n+1) := by simp
    have hsize := config.failureThreshold.toNat_lt
    have hnext (hn : n < config.failureThreshold.toNat) :
        a.consecutiveFailures+1 < a.failureThreshold ↔ n+1 < config.failureThreshold.toNat := by
      rw [hcount,hsum,hkeeps.threshold,UInt32.lt_iff_toNat_lt,UInt32.toNat_ofNat']
      omega
    generalize (call (.recordFailure 0) a).1 = reply at hcall
    generalize (call (.recordFailure 0) a).2 = b at hcall ⊢
    have hkeeps' := hkeeps.call hcall
    have htripped (hs : a.state = .closed) : n < config.failureThreshold.toNat := by
      by_contra hn
      rw [(hopen (Nat.not_lt.mp hn)).1] at hs
      cases hs
    have hlate (hs : a.state = .isOpen) : config.failureThreshold.toNat ≤ n := by
      by_contra hn
      rw [hclosed (Nat.not_le.mp hn)] at hs
      cases hs
    cases hcall with
    | counted hs hless =>
      have hless := (hnext (htripped hs)).mp hless
      exact ⟨hkeeps',by simp only [hcount,hsum],fun _ => hs,fun h => absurd hless (by omega)⟩
    | tripped hs hless =>
      have hless := fun h => hless ((hnext (htripped hs)).mpr h)
      exact ⟨hkeeps',by simp only [transitionTo,hcount,hsum],fun h => absurd h hless,
        fun _ => ⟨rfl,rfl⟩⟩
    | reopened hs =>
      obtain hn | hn := Nat.lt_or_ge n config.failureThreshold.toNat
      · rw [hclosed hn] at hs
        cases hs
      · rw [(hopen hn).1] at hs
        cases hs
    | lateFailure hs =>
      have hn := hlate hs
      exact ⟨hkeeps',by simp only [hcount,hsum],fun h => absurd h (by omega),fun _ => hopen hn⟩

end CacheCircuitBreaker

namespace Watched
open CacheCircuitBreaker

/-- Whoever is let through comes at least `open_duration` after every opening. -/
def HonoursOpenDuration (config : CacheCircuitBreakerConfig) (s : Watched) (x : BreakerCall) :
    Prop :=
  (s.breaker.call x).1 = some true →
    ∀ t∈s.openings, t+millis config.openDurationMs ≤ x.now

/-- An open breaker remembers its latest opening, and a breaker that is not open has outlasted
`open_duration` at every step to come. -/
structure Dated (config : CacheCircuitBreakerConfig) (l : List BreakerCall) (s : Watched) :
    Prop where
  clock : l.Pairwise fun x y => x.now ≤ y.now
  past : ∀ t∈s.openings, ∀ x∈l, t ≤ x.now
  isOpen : s.breaker.state = .isOpen →
    ∃ t∈s.openings, s.breaker.openedAt = some t ∧ ∀ u∈s.openings, u ≤ t
  out : s.breaker.state≠.isOpen →
    ∀ t∈s.openings, ∀ x∈l, t+millis config.openDurationMs ≤ x.now

theorem dated_new {config : CacheCircuitBreakerConfig} {l : List BreakerCall}
    (hclock : l.Pairwise fun x y => x.now ≤ y.now) : (new config).Dated config l :=
  ⟨hclock,by simp [new],fun hs => (by cases hs),by simp [new]⟩

theorem Dated.honours {config : CacheCircuitBreakerConfig} {x : BreakerCall}
    {l : List BreakerCall} {s : Watched} (h : s.Dated config (x::l))
    (hwait : s.breaker.state = .isOpen →
      config.openDurationMs.toNat ≤ s.breaker.currentBackoff.toNat) :
    s.HonoursOpenDuration config x := by
  intro hallowed u hu
  by_cases hs : s.breaker.state = .isOpen
  · obtain ⟨t,ht,hopened,hlatest⟩ := h.isOpen hs
    have hmillis : millis config.openDurationMs ≤ millis s.breaker.currentBackoff :=
      Nat.mul_le_mul_right _ (hwait hs)
    have hpast := h.past t ht x List.mem_cons_self
    have hu := hlatest u hu
    cases x with
    | recordSuccess _ | recordFailure _ => cases hallowed
    | shouldAllow now =>
      rw [call,shouldAllow_isOpen now hs] at hallowed
      cases hdue : s.breaker.due now with
      | false => simp [hdue] at hallowed
      | true =>
        rw [due,hopened,Option.any_some,decide_eq_true_eq] at hdue
        simp only [BreakerCall.now] at hpast ⊢
        omega
  · exact h.out hs u hu x List.mem_cons_self

theorem Dated.stay {config : CacheCircuitBreakerConfig} {x : BreakerCall} {l : List BreakerCall}
    {s : Watched} (h : s.Dated config (x::l)) {b : CacheCircuitBreaker}
    (hstate : b.state = .isOpen ↔ s.breaker.state = .isOpen)
    (hopened : b.openedAt = s.breaker.openedAt ∨ b.state≠.isOpen) :
    (s.log x b).Dated config l := by
  have hsame : (s.log x b).openings = s.openings := by simp [log,hstate]
  refine ⟨(List.pairwise_cons.mp h.clock).2,?_,?_,?_⟩
  · intro t ht y hy
    exact h.past t (hsame ▸ ht) y (List.mem_cons_of_mem x hy)
  · intro hs
    rw [hsame]
    obtain hopened | hnot := hopened
    · exact hopened.symm ▸ h.isOpen (hstate.mp hs)
    · exact absurd hs hnot
  · intro hs t ht y hy
    exact h.out (fun hopen => hs (hstate.mpr hopen)) t (hsame ▸ ht) y (List.mem_cons_of_mem x hy)

theorem Dated.opens {config : CacheCircuitBreakerConfig} {x : BreakerCall} {l : List BreakerCall}
    {s : Watched} (h : s.Dated config (x::l)) {b : CacheCircuitBreaker}
    (hs : s.breaker.state≠.isOpen) (hs' : b.state = .isOpen) (hopened : b.openedAt = some x.now) :
    (s.log x b).Dated config l := by
  obtain ⟨hnext,hclock⟩ := List.pairwise_cons.mp h.clock
  have hopenings : (s.log x b).openings = x.now::s.openings := by simp [log,hs,hs']
  refine ⟨hclock,?_,?_,fun hnot => absurd hs' hnot⟩
  · intro t ht y hy
    rw [hopenings] at ht
    obtain rfl | ht := List.mem_cons.mp ht
    · exact hnext y hy
    · exact h.past t ht y (List.mem_cons_of_mem x hy)
  · intro _
    rw [hopenings]
    refine ⟨x.now,List.mem_cons_self,hopened,?_⟩
    intro u hu
    obtain rfl | hu := List.mem_cons.mp hu
    · exact le_rfl
    · exact h.past u hu x List.mem_cons_self

theorem Dated.watch {config : CacheCircuitBreakerConfig} {x : BreakerCall} {l : List BreakerCall}
    {s : Watched} (h : s.Dated config (x::l)) (hhonours : s.HonoursOpenDuration config x) :
    (watch x s).2.Dated config l := by
  have hcall := call_called x s.breaker
  rw [HonoursOpenDuration] at hhonours
  rw [Watched.watch]
  generalize (s.breaker.call x).1 = reply at hcall hhonours
  generalize (s.breaker.call x).2 = b at hcall ⊢
  cases hcall with
  | passed _ | waiting _ _ | probe _ | lateSuccess _ | cleared _ | probed _ _ | counted _ _
  | lateFailure _ => exact h.stay Iff.rfl (Or.inl rfl)
  | recovered hs _ => exact h.stay (by simp [transitionTo,hs]) (Or.inr (by simp [transitionTo]))
  | tripped hs _ => exact h.opens (by simp [hs]) rfl rfl
  | reopened hs => exact h.opens (by simp [hs]) rfl rfl
  | @entered now hs hdue =>
    obtain ⟨hnext,hclock⟩ := List.pairwise_cons.mp h.clock
    have hsame : (s.log (.shouldAllow now) (s.breaker.transitionTo now .halfOpen)).openings =
        s.openings := by simp [log,transitionTo]
    refine ⟨hclock,?_,fun hs' => (by cases hs'),?_⟩
    · intro t ht y hy
      exact h.past t (hsame ▸ ht) y (List.mem_cons_of_mem _ hy)
    · intro _ t ht y hy
      exact (hhonours rfl t (hsame ▸ ht)).trans (hnext y hy)

/-- If an invariant keeps the backoff of an open breaker above `open_duration`, every run with a
non-decreasing clock honours it. -/
theorem honours_of_invariant {config : CacheCircuitBreakerConfig}
    {I : List BreakerCall → Watched → Prop}
    (hstep : ∀ x l s, I (x::l) s → I l (watch x s).2)
    (hwait : ∀ l s, I l s → s.breaker.state = .isOpen →
      config.openDurationMs.toNat ≤ s.breaker.currentBackoff.toNat)
    {l : List BreakerCall} (hclock : l.Pairwise fun x y => x.now ≤ y.now)
    (hnew : I l (new config)) :
    Machine.Along watch (HonoursOpenDuration config) l (new config) := by
  refine Machine.along_of_lookahead (I := fun l s => s.Dated config l ∧ I l s) ?_
    ⟨dated_new hclock,hnew⟩
  intro x l s h
  have hhonours := h.1.honours (hwait _ s h.2)
  exact ⟨⟨h.1.watch hhonours,hstep x l s h.2⟩,hhonours⟩

/-- Outside `Closed` the counter is at the threshold at least, and it has room for every failure
to come. -/
structure Counted (config : CacheCircuitBreakerConfig) (l : List BreakerCall) (s : Watched) :
    Prop where
  sound : s.Sound config
  room : s.breaker.consecutiveFailures.toNat+failuresIn l < 2^32
  tripped : s.breaker.state≠.closed →
    config.failureThreshold.toNat ≤ s.breaker.consecutiveFailures.toNat

theorem Counted.watch {config : CacheCircuitBreakerConfig} (hconfig : Config.Accepted config)
    {x : BreakerCall} {l : List BreakerCall} {s : Watched} (h : s.Counted config (x::l)) :
    (watch x s).2.Counted config l := by
  have hcall := call_called x s.breaker
  obtain ⟨hroom,hgrows⟩ := hcall.counter h.room
  refine ⟨h.sound.log hconfig hcall,hroom,fun hs' => ?_⟩
  have hs' : (s.breaker.call x).2.state≠.closed := hs'
  change _ ≤ (s.breaker.call x).2.consecutiveFailures.toNat
  generalize (s.breaker.call x).1 = reply at hcall
  generalize (s.breaker.call x).2 = b at hcall hgrows hs' ⊢
  by_cases hs : s.breaker.state = .closed
  · cases hcall with
    | tripped _ hmet =>
      rw [UInt32.not_lt,UInt32.le_iff_toNat_le,h.sound.keeps.threshold] at hmet
      exact hmet
    | passed _ | cleared _ | counted _ _ => exact absurd hs hs'
    | waiting hs₂ _ | entered hs₂ _ | probe hs₂ | probed hs₂ _ | recovered hs₂ _
    | lateSuccess hs₂ | reopened hs₂ | lateFailure hs₂ => cases hs.symm.trans hs₂
  · exact (h.tripped hs).trans (hgrows hs')

/-- A run of failures at time 0 that opens the breaker, and somebody who asks as soon as the
backoff is over. -/
def askedInTime (config : CacheCircuitBreakerConfig) (failures : Nat) : List BreakerCall :=
  List.replicate failures (.recordFailure 0) ++
    [.shouldAllow (millis (Machine.final call (List.replicate failures (.recordFailure 0))
      (.new config)).currentBackoff)]

theorem askedInTime_clock (config : CacheCircuitBreakerConfig) (failures : Nat) :
    (askedInTime config failures).Pairwise fun x y => x.now ≤ y.now := by
  rw [askedInTime,List.pairwise_append]
  refine ⟨List.pairwise_replicate.mpr (Or.inr le_rfl),List.pairwise_singleton _ _,?_⟩
  intro x hx y _
  rw [List.eq_of_mem_replicate hx]
  exact Nat.zero_le _

theorem failuresIn_askedInTime (config : CacheCircuitBreakerConfig) (failures : Nat) :
    failuresIn (askedInTime config failures) = failures := by
  simp [failuresIn,askedInTime,List.countP_replicate,BreakerCall.fails]

theorem openedAt_mem (l : List BreakerCall) (config : CacheCircuitBreakerConfig) :
    let s := Machine.final watch l (new config)
    s.breaker.state = .isOpen → ∀ t, s.breaker.openedAt = some t → t∈s.openings := by
  refine Machine.final_invariant (P := fun s : Watched => s.breaker.state = .isOpen →
    ∀ t, s.breaker.openedAt = some t → t∈s.openings) ?_ l (new config) (fun hs => by cases hs)
  intro x s h
  have hcall := call_called x s.breaker
  rw [watch]
  generalize (s.breaker.call x).1 = reply at hcall
  generalize (s.breaker.call x).2 = b at hcall ⊢
  cases hcall with
  | passed hs | cleared hs | counted hs _ | probe hs | probed hs _ => simp [log,hs]
  | entered _ _ | recovered _ _ => simp [log,transitionTo]
  | waiting hs _ | lateSuccess hs | lateFailure hs => simpa [log,hs] using h hs
  | tripped hs _ | reopened hs => simp [log,transitionTo,hs,BreakerCall.now]

theorem le_of_askedInTime {config : CacheCircuitBreakerConfig} (hconfig : Config.Accepted config)
    (failures : Nat) (hn : config.failureThreshold.toNat ≤ failures)
    (h : Machine.Along watch (HonoursOpenDuration config) (askedInTime config failures)
      (new config)) :
    config.openDurationMs.toNat ≤ backoffAt config (failures%2^32) := by
  rw [askedInTime,Machine.along_snoc,← watch_breaker] at h
  have hmem := openedAt_mem (List.replicate failures (.recordFailure 0)) config
  obtain ⟨hkeeps,hcount,-,hopen⟩ := after_failures hconfig.threshold failures
  rw [← watch_breaker] at hkeeps hcount hopen
  generalize Machine.final watch (List.replicate failures (.recordFailure 0)) (new config) = s
    at h hmem hkeeps hcount hopen
  obtain ⟨hs,hopened⟩ := hopen hn
  have hdue : s.breaker.due (millis s.breaker.currentBackoff) = true :=
    due_of_le hopened (Nat.le_of_eq rfl)
  have hallowed : (s.breaker.call (.shouldAllow (millis s.breaker.currentBackoff))).1 =
      some true := by
    rw [call,shouldAllow_isOpen _ hs,hdue]
    rfl
  have hlate := h.2 hallowed 0 (hmem hs 0 hopened)
  rw [← UInt32.toNat_ofNat',← hcount,← hkeeps.backoff hconfig]
  simp only [BreakerCall.now,millis] at hlate
  omega

/-- Every run honours `open_duration` exactly if the backoff after `failure_threshold` failures is
not shorter; with overflows of the counter, that after one failure. -/
theorem open_duration_honoured_iff {env : Config.Env} {config : CacheCircuitBreakerConfig}
    (hconfig : Config.cacheCircuitBreaker env = (config,[])) :
    ((∀ l : List BreakerCall, l.Pairwise (fun x y => x.now ≤ y.now) → failuresIn l < 2^32 →
        Machine.Along watch (HonoursOpenDuration config) l (new config)) ↔
      config.openDurationMs.toNat ≤
        min (config.backoffBaseMs.toNat*2^min (config.failureThreshold.toNat-1) 6)
          config.backoffMaxMs.toNat) ∧
    ((∀ l : List BreakerCall, l.Pairwise (fun x y => x.now ≤ y.now) →
        Machine.Along watch (HonoursOpenDuration config) l (new config)) ↔
      config.openDurationMs.toNat ≤
        min config.backoffBaseMs.toNat config.backoffMaxMs.toNat) := by
  have hconfig := Config.cacheCircuitBreaker_accepted hconfig
  have hsize := config.failureThreshold.toNat_lt
  have hone : backoffAt config 0 = min config.backoffBaseMs.toNat config.backoffMaxMs.toNat := by
    simp [backoffAt]
  constructor
  · constructor
    · intro h
      have hrun := h (askedInTime config config.failureThreshold.toNat) (askedInTime_clock _ _)
        (by rw [failuresIn_askedInTime]; exact hsize)
      have hle := le_of_askedInTime hconfig _ le_rfl hrun
      rwa [Nat.mod_eq_of_lt hsize] at hle
    · intro hcover l hclock hroom
      refine honours_of_invariant (I := Counted config) (fun x l s h => h.watch hconfig) ?_ hclock
        ⟨sound_new hconfig,by simpa [new,CacheCircuitBreaker.new] using hroom,
          fun hs => absurd rfl hs⟩
      intro l s h hs
      rw [h.sound.keeps.backoff hconfig]
      exact hcover.trans (backoffAt_mono config (h.tripped (by simp [hs])))
  · rw [← hone]
    constructor
    · intro h
      exact le_of_askedInTime hconfig (2^32) hsize.le (h _ (askedInTime_clock _ _))
    · intro hcover l hclock
      refine honours_of_invariant (I := fun _ s => s.Sound config)
        (fun x _ s h => h.log hconfig (call_called x _)) ?_ hclock (sound_new hconfig)
      intro l s h _
      rw [h.keeps.backoff hconfig]
      exact hcover.trans (backoffAt_mono config (Nat.zero_le _))

theorem open_duration_honoured_at_1600_ms :
    Machine.Along watch (HonoursOpenDuration ⟨5,1600,1,100,30000⟩)
      (List.replicate 5 (.recordFailure 0) ++ [.shouldAllow 1599999999,.shouldAllow 1600000000])
      (new ⟨5,1600,1,100,30000⟩) := by
  have hconfig : Config.cacheCircuitBreaker (fun name =>
      if name = "CACHE_CIRCUIT_BREAKER_OPEN_DURATION_MS" then some "1600" else none) =
      (⟨5,1600,1,100,30000⟩,[]) := by decide +kernel
  exact (open_duration_honoured_iff hconfig).1.mpr (by decide) _ (by decide) (by decide)

/-- The default configuration keeps callers out for 1.6 of its 30 seconds. -/
theorem open_duration_cut_short :
    ¬∀ (env : Config.Env) (config : CacheCircuitBreakerConfig) (l : List BreakerCall),
      Config.cacheCircuitBreaker env = (config,[]) →
      l.Pairwise (fun x y => x.now ≤ y.now) →
      Machine.Along watch (HonoursOpenDuration config) l (new config) := by
  intro hall
  have hrun := hall (fun _ => none) .default
    (List.replicate 5 (.recordFailure 0) ++ [.shouldAllow 1600000000]) (by decide +kernel)
    (by decide)
  have hlast := hrun.2.2.2.2.2.1 (by decide +kernel) 0 (by decide +kernel)
  revert hlast
  decide +kernel

end Watched
end ProofStell.Cache
