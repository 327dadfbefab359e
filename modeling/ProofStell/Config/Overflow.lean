import ProofStell.Webhook.Backoff
import ProofStell.Limiter.Exact

/-! The sums and products that are neither checked nor saturating, as a build with overflow checks
runs them: `none` is the panic. -/
namespace ProofStell

open Saturating

namespace Limiter.AtomicTokenBucket
variable (b : AtomicTokenBucket)

def refilledChecked (tokensMilli last : UInt32) (now : UInt64) : Option UInt32 := do
  let elapsed := sub64 now last.toUInt64
  let add := mul64 elapsed b.refillMilliPerSec.toUInt64
  fits 64 (tokensMilli.toNat+add.toNat)
  return b.refilled tokensMilli last now

def resetAtChecked (tokensMilli : UInt32) (now : UInt64) : Option UInt64 := do
  fits 64 (now.toNat+(b.secsToFull tokensMilli).toNat)
  fits 64 (now.toNat+(b.secsToFull tokensMilli).toNat+b.jitterOffset.toNat)
  return now+b.secsToFull tokensMilli+b.jitterOffset

/-- Every turn of the loop of `try_consume` refills the word that it read. -/
def tryConsumeChecked (now : UInt64) : Option (ConsumeOutcome × AtomicTokenBucket) := do
  let _ ← b.refilledChecked (unpack b.state).2 (unpack b.state).1 now
  return tryConsume now b

def snapshotChecked (now : UInt64) : Option (UInt32 × UInt64) := do
  let refilled ← b.refilledChecked (unpack b.state).2 (unpack b.state).1 now
  let resetAt ← b.resetAtChecked refilled now
  return (refilled/MILLI.toUInt32,resetAt)

/-- Before 2106 the refill of any word fits. -/
theorem refilledChecked_eq (tokensMilli last : UInt32) {now : UInt64} (hnow : now.toNat < 2^32) :
    b.refilledChecked tokensMilli last now = some (b.refilled tokensMilli last now) := by
  have ht := tokensMilli.toNat_lt
  have hr := b.refillMilliPerSec.toNat_lt
  have hmul : (now.toNat-last.toNat)*b.refillMilliPerSec.toNat ≤ (2^32-1)*(2^32-1) :=
    Nat.mul_le_mul (by omega) (by omega)
  have hfits : tokensMilli.toNat+(mul64 (sub64 now last.toUInt64)
      b.refillMilliPerSec.toUInt64).toNat < 2^64 := by
    rw [mul64_toNat,sub64_toNat,UInt32.toNat_toUInt64,UInt32.toNat_toUInt64]
    omega
  exact fits_bind_of_lt hfits

theorem tryConsumeChecked_eq {now : UInt64} (hnow : now.toNat < 2^32) :
    b.tryConsumeChecked now = some (tryConsume now b) := by
  rw [tryConsumeChecked,b.refilledChecked_eq _ _ hnow]
  rfl

theorem snapshotChecked_eq_iff {now : UInt64} (hnow : now.toNat < 2^32) :
    b.snapshotChecked now = some (b.snapshot now) ↔
      now.toNat+(b.secsToFull (b.tokensAt now)).toNat+b.jitterOffset.toNat < 2^64 := by
  have hreset : b.resetAtChecked (b.tokensAt now) now = some (b.resetAt (b.tokensAt now) now) ↔
      now.toNat+(b.secsToFull (b.tokensAt now)).toNat+b.jitterOffset.toNat < 2^64 := by
    rw [resetAtChecked,fits_bind_eq_some,fits_bind_eq_some]
    exact ⟨fun h => h.2.1,fun h => ⟨by omega,h,rfl⟩⟩
  have hsnapshot : b.snapshotChecked now = (b.resetAtChecked (b.tokensAt now) now).map
      fun resetAt => (b.tokensAt now/MILLI.toUInt32,resetAt) := by
    rw [snapshotChecked,b.refilledChecked_eq _ _ hnow]
    change (b.resetAtChecked (b.tokensAt now) now).bind _ = _
    cases b.resetAtChecked (b.tokensAt now) now <;> rfl
  rw [← hreset,hsnapshot,snapshot,Option.map_eq_some_iff]
  constructor
  · intro h
    obtain ⟨v,hv,heq⟩ := h
    rw [hv,show v = _ from congrArg Prod.snd heq]
  · intro h
    exact ⟨_,h,rfl⟩

section
variable {b} {B r : Nat} (h : b.Holds B r) (hr : 0 < r)
include h hr

theorem secsToFull_zero : (b.secsToFull 0).toNat = (B+r-1)/r := by
  rw [secsToFull_toNat h hr,← Nat.div_div_eq_div_mul]
  congr 1
  simp only [UInt32.toNat_zero]
  omega

theorem secsToFull_le (tokensMilli : UInt32) : (b.secsToFull tokensMilli).toNat ≤ (B+r-1)/r := by
  rw [← secsToFull_zero h hr,secsToFull_toNat h hr,secsToFull_toNat h hr]
  exact Nat.div_le_div_right (by simp only [UInt32.toNat_zero]; omega)

end

theorem Holds.drained {b : AtomicTokenBucket} {B r : Nat} (h : b.Holds B r) {now : UInt64}
    (hnow : now.toNat < 2^32) (hfull : wordView b.state = ⟨b.capacityMilli.toNat,now.toNat⟩) :
    (b.afterCalls (List.replicate B now)).tokensAt now = 0 := by
  have hlt : ∀ t∈List.replicate B now, t.toNat < 2^32 := by
    intro t ht
    rw [List.eq_of_mem_replicate ht]
    exact hnow
  have hcap : b.capacityMilli.toNat = 0+1000*B := by rw [h.capacity,Nat.zero_add]
  have hdrain : Machine.final b.abstractStep (List.replicate B now.toNat)
      ⟨b.capacityMilli.toNat,now.toNat⟩ = ⟨0,now.toNat⟩ := by
    conv_lhs => rw [hcap]
    exact TokenBucket.final_replicate B hcap.ge
  apply UInt32.toNat_inj.mp
  rw [tokensAt_toNat _ hnow,b.afterCalls_view hlt,List.map_replicate,hfull,hdrain]
  simp [TokenBucket.Bucket.refill]

end Limiter.AtomicTokenBucket

namespace Limiter

/-- In every state that calls before 2106 lead to, neither a call nor a snapshot overflows. -/
def RateLimitConfig.BucketFits (config : RateLimitConfig) (issuer : String) : Prop :=
  ∀ (created : UInt64) (ts : List UInt64) (now : UInt64), created.toNat < 2^32 →
    (∀ t∈ts, t.toNat < 2^32) → now.toNat < 2^32 →
    let b := (config.newBucket issuer created).afterCalls ts
    b.tryConsumeChecked now = some (b.tryConsume now) ∧
      b.snapshotChecked now = some (b.snapshot now)

/-- The bound is met by an empty bucket in the last second before 2106. -/
theorem bucketFits_iff (config : RateLimitConfig) (issuer : String) :
    config.BucketFits issuer ↔
      let burst := (clampUnits config.perIssuerBurst).toNat
      let perSecond := (clampUnits config.perIssuerPerSecond).toNat
      2^32-1+(burst+perSecond-1)/perSecond+
        (deterministicJitter issuer config.jitterSeconds).toNat < 2^64 := by
  have hrate := clampUnits_pos config.perIssuerPerSecond
  have hholds (created : UInt64) := AtomicTokenBucket.new_holds config.perIssuerBurst
    config.perIssuerPerSecond config.jitterSeconds issuer created
  constructor
  · intro h
    have hlast : (4294967295:UInt64).toNat < 2^32 := by decide
    have hsnapshot := (h 4294967295 (List.replicate (clampUnits config.perIssuerBurst).toNat
      4294967295) 4294967295 hlast (fun t ht => by rw [List.eq_of_mem_replicate ht]; exact hlast)
      hlast).2
    rw [AtomicTokenBucket.snapshotChecked_eq_iff _ hlast,RateLimitConfig.newBucket,
      (hholds 4294967295).drained hlast (AtomicTokenBucket.new_full _ _ _ _ hlast),
      AtomicTokenBucket.secsToFull_zero ((hholds 4294967295).afterCalls _) hrate,
      AtomicTokenBucket.afterCalls_jitterOffset] at hsnapshot
    exact hsnapshot
  · intro h created ts now _ _ hnow b
    refine ⟨b.tryConsumeChecked_eq hnow,(b.snapshotChecked_eq_iff hnow).mpr ?_⟩
    have hsecs := AtomicTokenBucket.secsToFull_le ((hholds created).afterCalls ts) hrate
      (b.tokensAt now)
    have hjitter : b.jitterOffset = deterministicJitter issuer config.jitterSeconds :=
      AtomicTokenBucket.afterCalls_jitterOffset _ _
    rw [hjitter]
    change (b.secsToFull (b.tokensAt now)).toNat ≤ _ at hsecs
    omega

end Limiter

namespace Webhook
variable {DateTime σ : Type}

/-- The retry loop with the two sums in the text of every failed send, and after the last one the
sum in the dead letter. -/
def sendLoopChecked (maxRetries : UInt32) (send : Nat → Except String Unit) :
    Nat → Nat → String → Option (Option String)
  | 0, _, lastError => do
    fits 32 (maxRetries.toNat+1)
    return some lastError
  | remaining+1, attempt, _ =>
    match send attempt with
    | .ok () => some none
    | .error e => do
      fits 32 (attempt+1)
      fits 32 (maxRetries.toNat+1)
      sendLoopChecked maxRetries send remaining (attempt+1) e

def WebhookDispatcher.deliverWithRetryChecked (d : WebhookDispatcher DateTime σ) (url : String)
    (payload : WebhookPayload DateTime) (send : Nat → Except String Unit) (failedAt : DateTime)
    (st : DispatcherState DateTime σ) : Option (DispatcherState DateTime σ) := do
  let _ ← sendLoopChecked d.maxRetries send (d.maxRetries.toNat+1) 0 "no attempts made"
  return d.deliverWithRetry url payload send failedAt st

/-- With room for one more than the retries, the loop ends as it does without the checks. -/
theorem sendLoopChecked_eq {maxRetries : UInt32} (h : maxRetries.toNat+1 < 2^32)
    (send : Nat → Except String Unit) (remaining attempt : Nat) (lastError : String)
    (hle : attempt+remaining ≤ maxRetries.toNat+1) :
    sendLoopChecked maxRetries send remaining attempt lastError =
      some (sendLoop send remaining attempt lastError) := by
  induction remaining generalizing attempt lastError with
  | zero => exact fits_bind_of_lt h
  | succ remaining ih =>
    rw [sendLoopChecked,sendLoop]
    cases send attempt with
    | ok _ => rfl
    | error e =>
      simp only
      rw [fits_bind_of_lt (by omega),fits_bind_of_lt h]
      exact ih (attempt+1) e (by omega)

theorem sendLoopChecked_overflow {maxRetries : UInt32} (h : ¬maxRetries.toNat+1 < 2^32)
    (e lastError : String) :
    sendLoopChecked maxRetries (fun _ => .error e) (maxRetries.toNat+1) 0 lastError = none := by
  rw [sendLoopChecked]
  change (fits 32 1 >>= fun _ => fits 32 (maxRetries.toNat+1) >>= _) = none
  rw [fits_bind_of_lt (by norm_num),fits,if_neg h]
  rfl

theorem deliverWithRetryChecked_eq_iff (d : WebhookDispatcher DateTime σ) (url : String)
    (payload : WebhookPayload DateTime) (failedAt : DateTime) (st : DispatcherState DateTime σ) :
    (∀ send, d.deliverWithRetryChecked url payload send failedAt st =
      some (d.deliverWithRetry url payload send failedAt st)) ↔ d.maxRetries.toNat+1 < 2^32 := by
  constructor
  · intro h
    have hfailed := h fun _ => .error ""
    by_contra hmax
    rw [WebhookDispatcher.deliverWithRetryChecked,sendLoopChecked_overflow hmax] at hfailed
    exact absurd hfailed.symm (Option.some_ne_none _)
  · intro h send
    rw [WebhookDispatcher.deliverWithRetryChecked,sendLoopChecked_eq h _ _ _ _ (by omega)]
    rfl

end Webhook

namespace Stellar.StellarClient
variable (c : StellarClient)

def executeVerifyHashWithRetryChecked (hash : String) (script : Nat → Attempt) :
    Option (StellarResult VerificationResult) := do
  match (c.verifyHash hash script).status with
  | .confirmedMatch | .noMatch => return c.executeVerifyHashWithRetry hash script
  | .networkError | .malformedResponse =>
    fits 32 (c.maxRetries.toNat+1)
    return c.executeVerifyHashWithRetry hash script

/-- A hash that is not canonical is enough to reach the sum. -/
theorem executeVerifyHashWithRetryChecked_eq_iff :
    (∀ hash script, c.executeVerifyHashWithRetryChecked hash script =
      some (c.executeVerifyHashWithRetry hash script)) ↔ c.maxRetries.toNat+1 < 2^32 := by
  constructor
  · intro h
    have hstatus : (c.verifyHash "" fun _ => .sendError).status = .malformedResponse := rfl
    have hempty := h "" fun _ => .sendError
    rw [executeVerifyHashWithRetryChecked,hstatus] at hempty
    exact (fits_bind_eq_some.mp hempty).1
  · intro h hash script
    rw [executeVerifyHashWithRetryChecked]
    cases (c.verifyHash hash script).status with
    | confirmedMatch => rfl
    | noMatch => rfl
    | networkError => exact fits_bind_of_lt h
    | malformedResponse => exact fits_bind_of_lt h

end Stellar.StellarClient

namespace Config
open Webhook Stellar

def issuerBurstChecked (raw : String) (perSecond : UInt32) : Option (Checked UInt32) :=
  match u32.parse raw with
  | some v =>
    if v > 0 then some (v,[])
    else do
      fits 32 (perSecond.toNat*2)
      return (perSecond*2,["PER_ISSUER_RATE_LIMIT_BURST must be greater than 0"])
  | none => do
    fits 32 (perSecond.toNat*2)
    return (perSecond*2,["PER_ISSUER_RATE_LIMIT_BURST must be a valid u32, got '"++raw++"'"])

def fromEnvChecked (parsers : Parsers) (env : Env) : Option (Except ConfigError AppConfig) := do
  let issuerRaw := getEnvOrDefault env "PER_ISSUER_RATE_LIMIT_PER_SECOND" "10"
  let burstRaw := getEnvOrDefault env "PER_ISSUER_RATE_LIMIT_BURST"
    (toString (min (((u32.parse issuerRaw).getD 10).toNat*2) (2^32-1)))
  let perSecond := (positive u32 "PER_ISSUER_RATE_LIMIT_PER_SECOND" issuerRaw 10).1
  let _ ← issuerBurstChecked burstRaw perSecond
  return fromEnv parsers env

/-- The burst is not a positive `u32`, so that its fallback is computed. -/
def Unusable (raw : String) : Prop := u32.parse raw = none ∨ u32.parse raw = some 0

theorem issuerBurstChecked_eq {raw : String} {perSecond : UInt32}
    (h : Unusable raw → perSecond.toNat*2 < 2^32) :
    issuerBurstChecked raw perSecond =
      some (positive u32 "PER_ISSUER_RATE_LIMIT_BURST" raw (perSecond*2)) := by
  rw [issuerBurstChecked,positive]
  cases hparse : u32.parse raw with
  | none => exact fits_bind_of_lt (h (Or.inl hparse))
  | some v =>
    simp only
    by_cases hv : v > 0
    · rw [if_pos hv,if_pos hv]
    · have hzero : v = 0 := UInt32.toNat_inj.mp (Nat.eq_zero_of_not_pos fun hpos =>
        hv (UInt32.lt_iff_toNat_lt.mpr hpos))
      rw [if_neg hv,if_neg hv]
      exact fits_bind_of_lt (h (Or.inr (hzero ▸ hparse)))

theorem issuerBurstChecked_overflow {raw : String} {perSecond : UInt32} (hraw : Unusable raw)
    (h : ¬perSecond.toNat*2 < 2^32) : issuerBurstChecked raw perSecond = none := by
  rw [issuerBurstChecked]
  obtain hparse | hparse := hraw
  · simp only [hparse]
    rw [fits,if_neg h]
    rfl
  · simp only [hparse]
    rw [if_neg (by decide),fits,if_neg h]
    rfl

theorem issuerBurst_unset {raw : String} (h : Unusable
    (toString (min (((u32.parse raw).getD 10).toNat*2) (2^32-1)))) : u32.parse raw = some 0 := by
  rw [Unusable,u32_parse_toString (by omega)] at h
  obtain h | h := h
  · exact absurd h (Option.some_ne_none _)
  · have hnat := congrArg UInt32.toNat (Option.some.inj h)
    rw [UInt32.toNat_ofNat_of_lt' (by simp only [UInt32.size]; omega),UInt32.toNat_zero] at hnat
    cases hraw : u32.parse raw with
    | none =>
      rw [hraw,Option.getD_none,show (10:UInt32).toNat = 10 from rfl] at hnat
      omega
    | some v =>
      rw [hraw,Option.getD_some] at hnat
      exact congrArg some (UInt32.toNat_inj.mp (show v.toNat = 0 by omega))

/-- The rate doubles out of range exactly if it was given so. -/
theorem perSecond_overflow_iff {raw : String} :
    ¬(positive u32 "PER_ISSUER_RATE_LIMIT_PER_SECOND" raw 10).1.toNat*2 < 2^32 ↔
      ∃ v, u32.parse raw = some v ∧ 2^31 ≤ v.toNat := by
  rw [positive]
  cases u32.parse raw with
  | none => simp
  | some v =>
    simp only [Option.some.injEq,exists_eq_left']
    split
    · simp only
      omega
    · next hv =>
      have hzero : ¬0 < v.toNat := fun hpos => hv (UInt32.lt_iff_toNat_lt.mpr hpos)
      simp only [show (10:UInt32).toNat = 10 from rfl]
      omega

theorem fromEnvChecked_eq_iff (parsers : Parsers) (env : Env) :
    fromEnvChecked parsers env = some (fromEnv parsers env) ↔
      ∀ raw v, env "PER_ISSUER_RATE_LIMIT_BURST" = some raw → Unusable raw →
        u32.parse (getEnvOrDefault env "PER_ISSUER_RATE_LIMIT_PER_SECOND" "10") = some v →
        v.toNat < 2^31 := by
  constructor
  · intro h raw v hraw hunusable hv
    by_contra hlarge
    have hover := perSecond_overflow_iff.mpr ⟨v,hv,by omega⟩
    simp only [fromEnvChecked] at h
    rw [show getEnvOrDefault env "PER_ISSUER_RATE_LIMIT_BURST" _ = raw by
      rw [getEnvOrDefault,hraw]; rfl,issuerBurstChecked_overflow hunusable hover] at h
    exact absurd h.symm (Option.some_ne_none _)
  · intro h
    simp only [fromEnvChecked]
    rw [issuerBurstChecked_eq]
    · rfl
    · intro hunusable
      by_contra hover
      obtain ⟨v,hv,hlarge⟩ := perSecond_overflow_iff.mp hover
      cases hraw : env "PER_ISSUER_RATE_LIMIT_BURST" with
      | some raw =>
        rw [getEnvOrDefault,hraw,Option.getD_some] at hunusable
        exact absurd (h raw v hraw hunusable hv) (by omega)
      | none =>
        rw [getEnvOrDefault,hraw,Option.getD_none] at hunusable
        rw [issuerBurst_unset hunusable,Option.some.injEq] at hv
        rw [← hv,UInt32.toNat_zero] at hlarge
        omega

section
variable {DateTime σ : Type}

/-- Loading the environment, and with what it is loaded to the deliveries, verifications and
buckets, end with overflow checks as without. -/
structure NoOverflow (parsers : Parsers) (env : Env) (serde : Serde DateTime)
    (cache : Option (CacheHandle σ)) (payload : WebhookPayload DateTime) (failedAt : DateTime)
    (st : DispatcherState DateTime σ) : Prop where
  loading : fromEnvChecked parsers env = some (fromEnv parsers env)
  deliveries : ∀ cfg, fromEnv parsers env = .ok cfg → ∀ url∈cfg.webhookUrls, ∀ send,
    let d := { (.fromAppConfig cfg serde : WebhookDispatcher DateTime σ) with cache := cache }
    d.deliverWithRetryChecked url payload send failedAt st =
      some (d.deliverWithRetry url payload send failedAt st)
  verifications : ∀ cfg, fromEnv parsers env = .ok cfg → ∀ hash script,
    (StellarClient.fromAppConfig parsers cfg).executeVerifyHashWithRetryChecked hash script =
      some ((StellarClient.fromAppConfig parsers cfg).executeVerifyHashWithRetry hash script)
  buckets : ∀ cfg, fromEnv parsers env = .ok cfg → ∀ issuer,
    cfg.toRateLimits.fromConfig.BucketFits issuer

/-- What the environment has to leave room for. -/
structure LeavesRoom (parsers : Parsers) (env : Env) : Prop where
  issuerRate : ∀ raw v, env "PER_ISSUER_RATE_LIMIT_BURST" = some raw → Unusable raw →
    u32.parse (getEnvOrDefault env "PER_ISSUER_RATE_LIMIT_PER_SECOND" "10") = some v →
    v.toNat < 2^31
  webhookRetries : ∀ cfg, fromEnv parsers env = .ok cfg → cfg.webhookUrls≠[] →
    cfg.webhookMaxRetries.toNat < 2^32-1
  stellarRetries : ∀ cfg, fromEnv parsers env = .ok cfg → cfg.stellarMaxRetries.toNat < 2^32-1
  issuerJitter : ∀ cfg, fromEnv parsers env = .ok cfg → ∀ issuer,
    let burst := min cfg.perIssuerRateLimitBurst.toNat 4294967
    let perSecond := min cfg.perIssuerRateLimitPerSecond.toNat 4294967
    (Limiter.deterministicJitter issuer cfg.perIssuerRateLimitJitterSeconds).toNat <
      2^64-2^32+1-(burst+perSecond-1)/perSecond

theorem bucketFits_of_ok_iff {parsers : Parsers} {env : Env} {cfg : AppConfig}
    (h : fromEnv parsers env = .ok cfg) (issuer : String) :
    cfg.toRateLimits.fromConfig.BucketFits issuer ↔
      (Limiter.deterministicJitter issuer cfg.perIssuerRateLimitJitterSeconds).toNat <
        2^64-2^32+1-(min cfg.perIssuerRateLimitBurst.toNat 4294967+
          min cfg.perIssuerRateLimitPerSecond.toNat 4294967-1)/
            min cfg.perIssuerRateLimitPerSecond.toNat 4294967 := by
  have hlimits := (documented_of_ok h).limits
  have hrate := hlimits.issuerPerSecond_pos
  have hburst := hlimits.issuerPerSecond_pos.trans hlimits.issuerBurst_ge
  have hsecs : (min cfg.perIssuerRateLimitBurst.toNat 4294967+
      min cfg.perIssuerRateLimitPerSecond.toNat 4294967-1)/
        min cfg.perIssuerRateLimitPerSecond.toNat 4294967 ≤ 2*4294967 :=
    (Nat.div_le_self _ _).trans (by omega)
  rw [Limiter.bucketFits_iff]
  simp only [RateLimits.fromConfig,Limiter.clampUnits_of_pos hrate,
    Limiter.clampUnits_of_pos hburst]
  omega

/-- Nothing overflows exactly if the environment leaves room. -/
theorem no_overflow_iff (parsers : Parsers) (env : Env) (serde : Serde DateTime)
    (cache : Option (CacheHandle σ)) (payload : WebhookPayload DateTime) (failedAt : DateTime)
    (st : DispatcherState DateTime σ) :
    NoOverflow parsers env serde cache payload failedAt st ↔ LeavesRoom parsers env := by
  constructor
  · intro h
    refine ⟨(fromEnvChecked_eq_iff parsers env).mp h.loading,?_,?_,?_⟩
    · intro cfg hok hurls
      obtain ⟨url,hurl⟩ := List.exists_mem_of_ne_nil _ hurls
      have hfits := (deliverWithRetryChecked_eq_iff _ url payload failedAt st).mp
        (h.deliveries cfg hok url hurl)
      exact Nat.lt_sub_of_add_lt hfits
    · intro cfg hok
      have hfits := (StellarClient.executeVerifyHashWithRetryChecked_eq_iff _).mp
        (h.verifications cfg hok)
      exact Nat.lt_sub_of_add_lt hfits
    · intro cfg hok issuer
      exact (bucketFits_of_ok_iff hok issuer).mp (h.buckets cfg hok issuer)
  · intro h
    refine ⟨(fromEnvChecked_eq_iff parsers env).mpr h.issuerRate,?_,?_,?_⟩
    · intro cfg hok url hurl
      have hroom := h.webhookRetries cfg hok (List.ne_nil_of_mem hurl)
      exact (deliverWithRetryChecked_eq_iff _ url payload failedAt st).mpr
        (Nat.add_lt_of_lt_sub hroom)
    · intro cfg hok
      have hroom := h.stellarRetries cfg hok
      exact (StellarClient.executeVerifyHashWithRetryChecked_eq_iff _).mpr
        (Nat.add_lt_of_lt_sub hroom)
    · intro cfg hok issuer
      exact (bucketFits_of_ok_iff hok issuer).mpr (h.issuerJitter cfg hok issuer)

end

/-- `STELLAR_MAX_RETRIES=4294967295` is accepted, and then one hash that is not canonical is enough:
the number of attempts in the error does not fit. -/
theorem stellar_retries_overflow :
    ∃ cfg, fromEnv .sample (sampleEnv [("STELLAR_MAX_RETRIES","4294967295")]) = .ok cfg ∧
      (StellarClient.fromAppConfig .sample cfg).executeVerifyHashWithRetryChecked ""
        (fun _ => .sendError) = none ∧
      ∀ (serde : Serde Unit) (cache : Option (CacheHandle Unit)) payload st,
        ¬NoOverflow .sample (sampleEnv [("STELLAR_MAX_RETRIES","4294967295")]) serde cache payload
          () st := by
  have hok : fromEnv .sample (sampleEnv [("STELLAR_MAX_RETRIES","4294967295")]) = .ok _ :=
    fromEnv_of_load (by decide +kernel)
  have hnone : (StellarClient.fromAppConfig .sample (load .sample (sampleEnv
      [("STELLAR_MAX_RETRIES","4294967295")])).1).executeVerifyHashWithRetryChecked ""
        (fun _ => .sendError) = none := by
    decide +kernel
  refine ⟨_,hok,hnone,?_⟩
  intro serde cache payload st h
  have hsome := h.verifications _ hok "" fun _ => .sendError
  rw [hnone] at hsome
  exact absurd hsome.symm (Option.some_ne_none _)

end Config

end ProofStell
