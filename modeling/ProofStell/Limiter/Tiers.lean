import ProofStell.Limiter.Exact

/-! The two-tier limiter: one global quota kept by `governor`, and a bucket for each
issuer. Metrics and the cached snapshots are written and never read here. -/
namespace ProofStell.Limiter

structure RateLimitConfig where
  globalPerSecond : UInt32
  globalBurst : UInt32
  perIssuerPerSecond : UInt32
  perIssuerBurst : UInt32
  issuerTtlSeconds : UInt64
  jitterSeconds : UInt64
  deriving DecidableEq, Repr

def RateLimitConfig.default : RateLimitConfig := ⟨100,200,10,20,3600,0⟩

/-- A direct rate limiter. Instants are readings of its clock in nanoseconds; a refused
check names the earliest instant at which it would pass. -/
structure Governor (γ : Type) where
  direct : (perSecond burst : UInt32) → γ
  check : (instant : Nat) → γ → Except Nat Unit × γ
  /-- How many checks in a row would pass. -/
  cells : γ → (instant : Nat) → Nat

/-- A check passes if a cell is left, and takes exactly one when it passes. -/
structure Governor.TakesOne {γ : Type} (G : Governor γ) : Prop where
  passes : ∀ t g, (G.check t g).1 = .ok () ↔ 0 < G.cells g t
  takes : ∀ t g, (G.check t g).1 = .ok () → G.cells (G.check t g).2 t+1 = G.cells g t
  keeps : ∀ t g e, (G.check t g).1 = .error e → (G.check t g).2 = g

/-- The generic cell rate algorithm: `t` nanoseconds for a cell, `tau` of them at once, and
the theoretical arrival time of the next cell once there was one. -/
structure Gcra where
  t : Nat
  tau : Nat
  tat : Option Nat
  positive : 0 < t

def gcra : Governor Gcra where
  direct perSecond burst :=
    let t := max (10^9/perSecond.toNat) 1
    ⟨t,t*burst.toNat,none,by omega⟩
  check t0 g :=
    let tat := g.tat.getD (t0+g.t)
    if t0 < tat-g.tau then (.error (tat-g.tau),g)
    else (.ok (),{ g with tat := some (max tat t0+g.t) })
  cells g t0 :=
    let tat := g.tat.getD (t0+g.t)
    if t0 < tat-g.tau then 0 else 1+(g.tau+t0-max tat t0)/g.t

theorem gcra_takesOne : gcra.TakesOne where
  passes t g := by
    simp only [gcra]
    split <;> simp
  takes t g h := by
    simp only [gcra] at h ⊢
    split at h
    · cases h
    · next hlt =>
      have hpos := g.positive
      rw [if_neg hlt,if_neg hlt]
      simp only [Option.getD_some]
      generalize g.tat.getD (t+g.t) = tat at hlt ⊢
      have hmax : max (max tat t+g.t) t = max tat t+g.t := by omega
      rw [hmax]
      split
      · have hsmall : g.tau+t-max tat t < g.t := by omega
        rw [Nat.div_eq_of_lt hsmall]
      · next hroom =>
        have hge : g.t ≤ g.tau+t-max tat t := by omega
        have hdiv : (g.tau+t-max tat t)/g.t = (g.tau+t-max tat t-g.t)/g.t+1 := by
          rw [← Nat.add_div_right _ hpos,Nat.sub_add_cancel hge]
        rw [Nat.sub_add_eq]
        omega
  keeps t g e h := by
    simp only [gcra] at h ⊢
    split at h
    · next hlt => rw [if_pos hlt]
    · cases h

inductive RateLimitError where
  | globalExhausted (retryAfter : Nat)
  | issuerExhausted (issuer : String) (retryAfter : Nat)
  deriving DecidableEq, Repr

structure RateLimitStatus where
  issuer : String
  remaining : UInt32
  resetAt : UInt64
  globalThrottled : Bool
  deriving DecidableEq, Repr

structure PerIssuerRateLimiter (γ : Type) where
  global : γ
  buckets : String → Option AtomicTokenBucket
  config : RateLimitConfig

def RateLimitConfig.newBucket (config : RateLimitConfig) (issuer : String) (now : UInt64) :
    AtomicTokenBucket :=
  .new config.perIssuerBurst config.perIssuerPerSecond config.jitterSeconds issuer now

namespace PerIssuerRateLimiter
variable {γ : Type} (G : Governor γ)

def new (config : RateLimitConfig) : PerIssuerRateLimiter γ :=
  ⟨G.direct (max config.globalPerSecond 1) (max config.globalBurst 1),fun _ => none,config⟩

def bucketFor (s : PerIssuerRateLimiter γ) (issuer : String) (now : UInt64) : AtomicTokenBucket :=
  (s.buckets issuer).getD (s.config.newBucket issuer now)

def consumeIssuer (issuer : String) (now : UInt64) (s : PerIssuerRateLimiter γ) :
    ConsumeOutcome × PerIssuerRateLimiter γ :=
  let (outcome,bucket) := (s.bucketFor issuer now).tryConsume now
  (outcome,{ s with buckets := Function.update s.buckets issuer (some bucket) })

def nextTokenWait (s : PerIssuerRateLimiter γ) (issuer : String) (now : UInt64) : UInt64 :=
  max (((s.buckets issuer).map (·.timeToNextToken now)).getD 0) 1

/-- `later` is the second reading of the governor's clock, taken for the wait time. -/
def check (issuer : String) (instant later : Nat) (now : UInt64) (s : PerIssuerRateLimiter γ) :
    Except RateLimitError Unit × PerIssuerRateLimiter γ :=
  match G.check instant s.global with
  | (.error earliest,global) =>
    (.error (.globalExhausted (earliest-later)),{ s with global := global })
  | (.ok _,global) =>
    let (outcome,s) := { s with global := global }.consumeIssuer issuer now
    if outcome.granted then (.ok (),s)
    else (.error (.issuerExhausted issuer ((s.nextTokenWait issuer now).toNat*10^9)),s)

def status (issuer : String) (now : UInt64) (instant : Nat) (s : PerIssuerRateLimiter γ) :
    RateLimitStatus × PerIssuerRateLimiter γ :=
  let (remaining,resetAt) := match s.buckets issuer with
    | some b => b.snapshot now
    | none => (s.config.perIssuerBurst,now+deterministicJitter issuer s.config.jitterSeconds)
  let (result,global) := G.check instant s.global
  let globalThrottled := match result with
    | .error _ => true
    | .ok _ => false
  (⟨issuer,remaining,resetAt,globalThrottled⟩,{ s with global := global })

def evictStale (now : UInt64) (s : PerIssuerRateLimiter γ) : PerIssuerRateLimiter γ :=
  let cutoff := Saturating.sub64 now s.config.issuerTtlSeconds
  { s with buckets := fun issuer => (s.buckets issuer).filter fun b => b.lastSeen ≥ cutoff }

inductive Call where
  | check (issuer : String) (instant later : Nat) (now : UInt64)
  | status (issuer : String) (now : UInt64) (instant : Nat)
  | evictStale (now : UInt64)
  deriving DecidableEq, Repr

inductive Answer where
  | checked (result : Except RateLimitError Unit)
  | status (status : RateLimitStatus)
  | evicted
  deriving DecidableEq

def step (call : Call) (s : PerIssuerRateLimiter γ) : Answer × PerIssuerRateLimiter γ :=
  match call with
  | .check issuer instant later now =>
    let (result,s) := s.check G issuer instant later now
    (.checked result,s)
  | .status issuer now instant =>
    let (status,s) := s.status G issuer now instant
    (.status status,s)
  | .evictStale now => (.evicted,s.evictStale now)

def charged (issuer : String) (now : UInt64) (s : PerIssuerRateLimiter γ) (global : γ) :
    PerIssuerRateLimiter γ :=
  { s with
    global := global
    buckets := Function.update s.buckets issuer
      (some ((s.bucketFor issuer now).tryConsume now).2) }

theorem check_spec (issuer : String) (instant later : Nat) (now : UInt64)
    (s : PerIssuerRateLimiter γ) :
    (∃ earliest, (G.check instant s.global).1 = .error earliest ∧
      s.check G issuer instant later now = (.error (.globalExhausted (earliest-later)),
        { s with global := (G.check instant s.global).2 })) ∨
    ((G.check instant s.global).1 = .ok () ∧
      (s.check G issuer instant later now).2 =
        s.charged issuer now (G.check instant s.global).2 ∧
      ((((s.bucketFor issuer now).tryConsume now).1.granted = true ∧
          (s.check G issuer instant later now).1 = .ok ()) ∨
        (((s.bucketFor issuer now).tryConsume now).1.granted = false ∧
          ∃ wait, (s.check G issuer instant later now).1 =
            .error (.issuerExhausted issuer wait)))) := by
  rw [check]
  split
  · next earliest global heq =>
    rw [heq]
    exact Or.inl ⟨earliest,rfl,rfl⟩
  · next global heq =>
    rw [heq]
    refine Or.inr ⟨rfl,?_⟩
    have hfor : { s with global := global }.bucketFor issuer now = s.bucketFor issuer now := rfl
    simp only [consumeIssuer,hfor]
    cases hg : ((s.bucketFor issuer now).tryConsume now).1.granted with
    | true => exact ⟨rfl,Or.inl ⟨rfl,rfl⟩⟩
    | false => exact ⟨rfl,Or.inr ⟨rfl,_,rfl⟩⟩

end PerIssuerRateLimiter
end ProofStell.Limiter
