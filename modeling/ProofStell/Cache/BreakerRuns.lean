import ProofStell.Lib.Machine
import ProofStell.Lib.Saturating
import ProofStell.Config.CacheBreaker

/-! Runs of the cache breaker: any sequence of its three entry points, each at its own clock
reading, with the history that tells what a state means. -/
namespace ProofStell.Cache

inductive BreakerCall where
  | shouldAllow (now : Nat) | recordSuccess (now : Nat) | recordFailure (now : Nat)
  deriving DecidableEq, Repr

def BreakerCall.now : BreakerCall → Nat
  | .shouldAllow now | .recordSuccess now | .recordFailure now => now

namespace CacheCircuitBreaker

def call (x : BreakerCall) (b : CacheCircuitBreaker) : Option Bool × CacheCircuitBreaker :=
  match x with
  | .shouldAllow now => (some (b.shouldAllow now).1,(b.shouldAllow now).2)
  | .recordSuccess now => (none,b.recordSuccess now)
  | .recordFailure now => (none,b.recordFailure now)

def due (now : Nat) (b : CacheCircuitBreaker) : Bool :=
  b.openedAt.any fun openedAt => now-openedAt ≥ millis b.currentBackoff

/-- Everything a call can do. -/
inductive Called (b : CacheCircuitBreaker) :
    BreakerCall → Option Bool → CacheCircuitBreaker → Prop
  | passed {now : Nat} : b.state = .closed → Called b (.shouldAllow now) (some true) b
  | waiting {now : Nat} : b.state = .isOpen → b.due now = false →
      Called b (.shouldAllow now) (some false) b
  | entered {now : Nat} : b.state = .isOpen → b.due now = true →
      Called b (.shouldAllow now) (some true) (b.transitionTo now .halfOpen)
  | probe {now : Nat} : b.state = .halfOpen →
      Called b (.shouldAllow now) (some (decide (b.halfOpenCalls < b.halfOpenMaxCalls))) b
  | cleared {now : Nat} : b.state = .closed →
      Called b (.recordSuccess now) none { b with consecutiveFailures := 0 }
  | probed {now : Nat} : b.state = .halfOpen → b.halfOpenCalls+1 < b.halfOpenMaxCalls →
      Called b (.recordSuccess now) none { b with halfOpenCalls := b.halfOpenCalls+1 }
  | recovered {now : Nat} : b.state = .halfOpen → ¬b.halfOpenCalls+1 < b.halfOpenMaxCalls →
      Called b (.recordSuccess now) none
        ({ b with halfOpenCalls := b.halfOpenCalls+1 }.transitionTo now .closed)
  | lateSuccess {now : Nat} : b.state = .isOpen → Called b (.recordSuccess now) none b
  | counted {now : Nat} : b.state = .closed → b.consecutiveFailures+1 < b.failureThreshold →
      Called b (.recordFailure now) none
        { b with consecutiveFailures := b.consecutiveFailures+1 }
  | tripped {now : Nat} : b.state = .closed → ¬b.consecutiveFailures+1 < b.failureThreshold →
      Called b (.recordFailure now) none
        ({ b with consecutiveFailures := b.consecutiveFailures+1 }.transitionTo now .isOpen)
  | reopened {now : Nat} : b.state = .halfOpen →
      Called b (.recordFailure now) none (b.transitionTo now .isOpen)
  | lateFailure {now : Nat} : b.state = .isOpen → Called b (.recordFailure now) none
      { b with consecutiveFailures := b.consecutiveFailures+1 }

theorem due_of_le {b : CacheCircuitBreaker} {now openedAt : Nat}
    (hopened : b.openedAt = some openedAt) (h : millis b.currentBackoff ≤ now-openedAt) :
    b.due now = true := by
  rw [due,hopened,Option.any_some,decide_eq_true_eq]
  exact h

theorem shouldAllow_isOpen {b : CacheCircuitBreaker} (now : Nat) (hs : b.state = .isOpen) :
    b.shouldAllow now = if b.due now then (true,b.transitionTo now .halfOpen) else (false,b) := by
  simp only [shouldAllow,hs]
  split
  · next openedAt hopened =>
    by_cases hpassed : now-openedAt ≥ millis b.currentBackoff
    · rw [if_pos hpassed,if_pos (due_of_le hopened hpassed)]
    · have hdue : ¬b.due now = true := by
        rw [due,hopened,Option.any_some,decide_eq_true_eq]
        exact hpassed
      rw [if_neg hpassed,if_neg hdue]
  · next hopened => simp [due,hopened]

theorem call_called (x : BreakerCall) (b : CacheCircuitBreaker) :
    Called b x (b.call x).1 (b.call x).2 := by
  cases x with
  | shouldAllow now =>
    cases hs : b.state with
    | closed => simpa [call,shouldAllow,hs] using Called.passed hs
    | halfOpen => simpa [call,shouldAllow,hs] using Called.probe hs
    | isOpen =>
      rw [call,shouldAllow_isOpen now hs]
      cases hdue : b.due now with
      | false => exact .waiting hs hdue
      | true => exact .entered hs hdue
  | recordSuccess now =>
    simp only [call,recordSuccess]
    split
    · next hs => exact .cleared hs
    · next hs =>
      split
      · next hcalls => exact .recovered hs (UInt32.not_lt.mpr hcalls)
      · next hcalls => exact .probed hs (UInt32.not_le.mp hcalls)
    · next hs => exact .lateSuccess hs
  | recordFailure now =>
    simp only [call,recordFailure]
    split
    · next hs =>
      split
      · next hcount => exact .tripped hs (UInt32.not_lt.mpr hcount)
      · next hcount => exact .counted hs (UInt32.not_le.mp hcount)
    · next hs => exact .reopened hs
    · next hs => exact .lateFailure hs

structure Keeps (config : CacheCircuitBreakerConfig) (b : CacheCircuitBreaker) : Prop where
  threshold : b.failureThreshold = config.failureThreshold
  openDuration : b.openDuration = config.openDurationMs
  probes : b.halfOpenMaxCalls = config.halfOpenMaxCalls
  base : b.backoffBase = config.backoffBaseMs
  max : b.backoffMax = config.backoffMaxMs

theorem keeps_new (config : CacheCircuitBreakerConfig) : (new config).Keeps config :=
  ⟨rfl,rfl,rfl,rfl,rfl⟩

theorem Keeps.call {config : CacheCircuitBreakerConfig} {b b' : CacheCircuitBreaker}
    {x : BreakerCall} {reply : Option Bool} (h : b.Keeps config) (hcall : Called b x reply b') :
    b'.Keeps config := by
  obtain ⟨hthreshold,hopen,hprobes,hbase,hmax⟩ := h
  cases hcall <;> exact ⟨hthreshold,hopen,hprobes,hbase,hmax⟩

theorem Called.room {b b' : CacheCircuitBreaker} {x : BreakerCall} {reply : Option Bool}
    (hcall : Called b x reply b') (hprobes : 0 < b.halfOpenMaxCalls.toNat)
    (h : b.state = .halfOpen → b.halfOpenCalls < b.halfOpenMaxCalls)
    (hs' : b'.state = .halfOpen) : b'.halfOpenCalls < b'.halfOpenMaxCalls := by
  cases hcall with
  | passed _ | waiting _ _ | probe _ | cleared _ | lateSuccess _ | counted _ _
  | lateFailure _ => exact h hs'
  | entered _ _ => exact UInt32.lt_iff_toNat_lt.mpr hprobes
  | probed _ hless => exact hless
  | recovered _ _ | tripped _ _ | reopened _ => cases hs'

def exponent (b : CacheCircuitBreaker) : Nat := min (max b.consecutiveFailures.toNat 1-1) 6

theorem exponent_eq (b : CacheCircuitBreaker) :
    (min (max b.consecutiveFailures 1-1) 6).toNat = b.exponent := by
  have hone : (1 : UInt32) ≤ max b.consecutiveFailures 1 := by
    rw [UInt32.le_iff_toNat_le,Saturating.max32_toNat]
    exact le_max_right _ _
  rw [Saturating.min32_toNat,UInt32.toNat_sub_of_le _ _ hone,Saturating.max32_toNat]
  rfl

theorem exponent_le (b : CacheCircuitBreaker) : b.exponent ≤ 6 := min_le_right _ _

theorem currentBackoff_le (b : CacheCircuitBreaker) :
    millis b.currentBackoff ≤ millis b.backoffMax := by
  apply Nat.mul_le_mul_right
  simp only [currentBackoff]
  rw [Saturating.min64_toNat]
  exact min_le_right _ _

theorem currentBackoff_toNat {b : CacheCircuitBreaker} (h : b.backoffBase.toNat ≤ 300000) :
    b.currentBackoff.toNat = min (b.backoffBase.toNat*2^b.exponent) b.backoffMax.toNat := by
  have hpow : 2^b.exponent ≤ 2^6 := Nat.pow_le_pow_right (by decide) b.exponent_le
  have hpow64 : ∀ e ≤ 6, ((2 : UInt64)^e).toNat = 2^e := by decide
  have hprod : b.backoffBase.toNat*2^b.exponent ≤ 300000*2^6 := Nat.mul_le_mul h hpow
  simp only [currentBackoff]
  rw [Saturating.min64_toNat,exponent_eq,UInt64.toNat_mul,hpow64 _ b.exponent_le,
    Nat.mod_eq_of_lt (by omega)]

theorem due_of_max {b : CacheCircuitBreaker} {now openedAt : Nat}
    (hopened : b.openedAt = some openedAt) (h : millis b.backoffMax ≤ now-openedAt) :
    b.due now = true :=
  due_of_le hopened (b.currentBackoff_le.trans h)

end CacheCircuitBreaker

/-- The breaker with its history: the failures recorded since the last recorded success or
closing, and the times at which it opened. -/
structure Watched where
  breaker : CacheCircuitBreaker
  failures : Nat
  openings : List Nat

namespace Watched
open CacheCircuitBreaker

def new (config : CacheCircuitBreakerConfig) : Watched := ⟨.new config,0,[]⟩

def log (s : Watched) (x : BreakerCall) (b : CacheCircuitBreaker) : Watched :=
  let opens := s.breaker.state ≠ .isOpen ∧ b.state = .isOpen
  let closes := s.breaker.state ≠ .closed ∧ b.state = .closed
  { breaker := b
    failures := if closes then 0 else
      match x with
      | .shouldAllow _ => s.failures
      | .recordSuccess _ => 0
      | .recordFailure _ => s.failures+1
    openings := if opens then x.now::s.openings else s.openings }

def watch (x : BreakerCall) (s : Watched) : Option Bool × Watched :=
  ((s.breaker.call x).1,s.log x (s.breaker.call x).2)

theorem watch_breaker (l : List BreakerCall) (config : CacheCircuitBreakerConfig) :
    (Machine.final watch l (new config)).breaker = Machine.final call l (.new config) := by
  have hstep (x : BreakerCall) (_ : x∈l) (s : Watched) :
      call (id x) s.breaker = (id (watch x s).1,(watch x s).2.breaker) := rfl
  have h := (Machine.simulation Watched.breaker id id hstep (new config)).1
  rw [List.map_id] at h
  exact h.symm

structure Sound (config : CacheCircuitBreakerConfig) (s : Watched) : Prop where
  keeps : s.breaker.Keeps config
  isOpen : s.breaker.state = .isOpen → s.breaker.openedAt.isSome = true
  halfOpen : s.breaker.state = .halfOpen →
    s.breaker.halfOpenCalls < s.breaker.halfOpenMaxCalls
  closed : s.breaker.state = .closed → s.breaker.consecutiveFailures.toNat = s.failures ∧
    s.failures < config.failureThreshold.toNat

theorem sound_new {config : CacheCircuitBreakerConfig} (h : Config.Accepted config) :
    (new config).Sound config where
  keeps := keeps_new config
  isOpen hs := by cases hs
  halfOpen hs := by cases hs
  closed _ := ⟨rfl,h.threshold⟩

theorem toNat_add_one {a b : UInt32} (h : a.toNat < b.toNat) : (a+1).toNat = a.toNat+1 := by
  have hb := b.toNat_lt
  rw [UInt32.toNat_add,UInt32.toNat_one]
  omega

theorem Sound.log {config : CacheCircuitBreakerConfig} (hconfig : Config.Accepted config)
    {s : Watched} (h : s.Sound config) {x : BreakerCall} {reply : Option Bool}
    {b : CacheCircuitBreaker} (hcall : s.breaker.Called x reply b) :
    (s.log x b).Sound config := by
  have hkeeps := h.keeps.call hcall
  have hroom := hcall.room (h.keeps.probes ▸ hconfig.probes) h.halfOpen
  cases hcall with
  | passed hs =>
    refine ⟨hkeeps,h.isOpen,hroom,fun _ => ?_⟩
    simpa [Watched.log,hs] using h.closed hs
  | cleared hs =>
    refine ⟨hkeeps,h.isOpen,hroom,fun _ => ?_⟩
    simpa [Watched.log,hs] using hconfig.threshold
  | recovered hs _ =>
    refine ⟨hkeeps,fun hs' => (by cases hs'),hroom,fun _ => ?_⟩
    simpa [Watched.log,hs,transitionTo] using hconfig.threshold
  | counted hs hless =>
    obtain ⟨hcount,hlt⟩ := h.closed hs
    have hnext := toNat_add_one (hcount.trans_lt (hlt.trans_eq (congrArg _ hkeeps.threshold.symm)))
    have hless := UInt32.lt_iff_toNat_lt.mp hless
    rw [hkeeps.threshold,hnext,hcount] at hless
    refine ⟨hkeeps,h.isOpen,hroom,fun _ => ?_⟩
    simp only [Watched.log,hs,hnext,hcount]
    exact ⟨rfl,hless⟩
  | waiting hs _ | probe hs | lateSuccess hs | probed hs _ | lateFailure hs =>
    exact ⟨hkeeps,h.isOpen,hroom,by simp [Watched.log,hs]⟩
  | entered hs _ => exact ⟨hkeeps,fun hs' => (by cases hs'),hroom,fun hs' => (by cases hs')⟩
  | tripped hs _ | reopened hs => exact ⟨hkeeps,fun _ => rfl,hroom,fun hs' => (by cases hs')⟩

theorem sound_run {config : CacheCircuitBreakerConfig} (hconfig : Config.Accepted config)
    (l : List BreakerCall) : (Machine.final watch l (new config)).Sound config :=
  Machine.final_invariant (fun x _ hs => hs.log hconfig (call_called x _)) l _ (sound_new hconfig)

/-- A closed breaker opens with the failure that completes the threshold. -/
theorem Sound.opens_iff {config : CacheCircuitBreakerConfig} {s : Watched} (h : s.Sound config)
    (hs : s.breaker.state = .closed) (x : BreakerCall) :
    (s.breaker.call x).2.state = .isOpen ↔
      (∃ now, x = .recordFailure now) ∧ s.failures+1 = config.failureThreshold.toNat := by
  obtain ⟨hcount,hlt⟩ := h.closed hs
  have hnext := toNat_add_one (hcount.trans_lt (hlt.trans_eq (congrArg _ h.keeps.threshold.symm)))
  cases x with
  | shouldAllow now => simp [call,shouldAllow,hs]
  | recordSuccess now => simp [call,recordSuccess,hs]
  | recordFailure now =>
    simp only [call,recordFailure,hs,ge_iff_le,UInt32.le_iff_toNat_le,hnext,hcount,
      h.keeps.threshold]
    split
    · next hle => simpa [transitionTo] using le_antisymm hlt hle
    · next hle => simpa using fun heq => hle heq.ge

theorem Sound.released {config : CacheCircuitBreakerConfig} {s : Watched} (h : s.Sound config)
    {now : Nat} (hnow : ∀ openedAt, s.breaker.openedAt = some openedAt →
      millis config.backoffMaxMs ≤ now-openedAt) : (s.breaker.shouldAllow now).1 = true := by
  cases hs : s.breaker.state with
  | closed => simp [shouldAllow,hs]
  | isOpen =>
    obtain ⟨openedAt,hopened⟩ := Option.isSome_iff_exists.mp (h.isOpen hs)
    have hdue := due_of_max hopened ((congrArg millis h.keeps.max).trans_le (hnow _ hopened))
    rw [shouldAllow_isOpen now hs,hdue]
    rfl
  | halfOpen =>
    simpa [shouldAllow,hs] using h.halfOpen hs

/-- In every state that an accepted breaker reaches, its fields mean what they say: it opens
exactly at the threshold, and it never shuts anybody out for good. -/
theorem breaker_never_locks {env : Config.Env} {config : CacheCircuitBreakerConfig}
    (hconfig : Config.cacheCircuitBreaker env = (config,[])) (l : List BreakerCall) :
    let s := Machine.final watch l (new config)
    let b := Machine.final call l (.new config)
    (b.state = .isOpen → b.openedAt.isSome = true) ∧
      (b.state = .halfOpen → b.halfOpenCalls < config.halfOpenMaxCalls) ∧
      (b.state = .closed → b.consecutiveFailures < config.failureThreshold ∧
        b.consecutiveFailures.toNat = s.failures ∧
        ∀ x, (b.call x).2.state = .isOpen ↔
          (∃ now, x = .recordFailure now) ∧ s.failures+1 = config.failureThreshold.toNat) ∧
      ∀ now, (∀ openedAt, b.openedAt = some openedAt →
        millis config.backoffMaxMs ≤ now-openedAt) → (b.shouldAllow now).1 = true := by
  have hsound := sound_run (Config.cacheCircuitBreaker_accepted hconfig) l
  simp only [← watch_breaker]
  generalize Machine.final watch l (new config) = s at hsound ⊢
  refine ⟨hsound.isOpen,fun hs => hsound.keeps.probes ▸ hsound.halfOpen hs,fun hs => ?_,
    fun now => hsound.released⟩
  obtain ⟨hcount,hlt⟩ := hsound.closed hs
  exact ⟨UInt32.lt_iff_toNat_lt.mpr (hcount.trans_lt hlt),hcount,hsound.opens_iff hs⟩

theorem breaker_never_locks_after_five_failures :
    ((Machine.final call ((List.range 5).map .recordFailure) (.new .default)).shouldAllow
      30000000004).1 = true := by
  have hconfig : Config.cacheCircuitBreaker (fun _ => none) = (.default,[]) := by decide +kernel
  have hopened : (Machine.final call ((List.range 5).map .recordFailure)
      (.new .default)).openedAt = some 4 := by decide +kernel
  refine (breaker_never_locks hconfig _).2.2.2 _ fun openedAt h => ?_
  cases hopened.symm.trans h
  decide +kernel

end Watched
end ProofStell.Cache
