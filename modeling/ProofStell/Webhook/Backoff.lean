import ProofStell.Stellar.RetryDelay
import ProofStell.Webhook.Dispatcher

/-! The pause before the next delivery, and that it follows the same formula as the pause before
the next attempt at Horizon. -/
namespace ProofStell.Webhook
open Config Saturating Stellar

structure WebhookDispatcherConfig where
  urls : List String
  secret : Option String
  maxRetries : UInt32
  baseDelayMs : UInt64
  maxDelayMs : UInt64
  requestTimeoutMs : UInt64
  jitterEnabled : Bool

def WebhookDispatcherConfig.fromAppConfig (config : AppConfig) : WebhookDispatcherConfig where
  urls := config.webhookUrls
  secret := config.webhookSecret
  maxRetries := config.webhookMaxRetries
  baseDelayMs := config.webhookRetryBaseDelayMs
  maxDelayMs := config.webhookRetryMaxDelayMs
  requestTimeoutMs := config.webhookRequestTimeoutMs
  jitterEnabled := config.webhookJitterEnabled

/-- Without a cache, as `new` leaves it. -/
def WebhookDispatcher.fromAppConfig {DateTime σ : Type} (config : AppConfig)
    (serde : Serde DateTime) : WebhookDispatcher DateTime σ :=
  let settings := WebhookDispatcherConfig.fromAppConfig config
  .new settings.urls settings.maxRetries serde

/-- `nanos` is the part of the clock below the second. -/
def jitterMs (maxMs : UInt64) (nanos : UInt32) : UInt64 :=
  if maxMs = 0 then 0 else nanos.toUInt64%maxMs

namespace WebhookDispatcherConfig
variable (d : WebhookDispatcherConfig)

def factor (attempt : UInt32) : UInt64 := 1 <<< (min attempt 20).toUInt64

def capped (attempt : UInt32) : UInt64 := min (mul64 d.baseDelayMs (factor attempt)) d.maxDelayMs

def backoffDelay (attempt nanos : UInt32) : UInt64 :=
  if d.jitterEnabled then
    add64 (d.capped attempt) (jitterMs (d.capped attempt/4) nanos)
  else d.capped attempt

theorem factor_toNat (attempt : UInt32) : (factor attempt).toNat = 2^min attempt.toNat 20 := by
  have hle : min attempt.toNat 20 < 64 := by omega
  have hlt : 2^min attempt.toNat 20 < 2^64 := Nat.pow_lt_pow_right (by norm_num) hle
  rw [factor,UInt64.toNat_shiftLeft,UInt32.toNat_toUInt64,min32_toNat,
    show (20:UInt32).toNat = 20 from rfl,Nat.mod_eq_of_lt hle,UInt64.toNat_one,Nat.one_shiftLeft]
  exact Nat.mod_eq_of_lt hlt

end WebhookDispatcherConfig

theorem jitterMs_le (maxMs : UInt64) (nanos : UInt32) :
    (jitterMs maxMs nanos).toNat ≤ maxMs.toNat := by
  rw [jitterMs]
  split
  · exact Nat.zero_le _
  · next h =>
    have hpos : 0 < maxMs.toNat := Nat.pos_of_ne_zero fun h0 => h (UInt64.toNat_inj.mp h0)
    rw [UInt64.toNat_mod]
    exact (Nat.mod_lt _ hpos).le

section
variable {d : WebhookDispatcherConfig} (hbase : Millis d.baseDelayMs) (hmax : Millis d.maxDelayMs)
include hbase

theorem base_mul_factor_lt (attempt : UInt32) :
    d.baseDelayMs.toNat*(WebhookDispatcherConfig.factor attempt).toNat < 2^64-1 := by
  have hpow : 2^min attempt.toNat 20 ≤ 2^20 :=
    Nat.pow_le_pow_right (by omega) (Nat.min_le_right _ _)
  rw [WebhookDispatcherConfig.factor_toNat]
  calc d.baseDelayMs.toNat*2^min attempt.toNat 20 ≤ 300000*2^20 := Nat.mul_le_mul hbase.2 hpow
    _ < 2^64-1 := by norm_num

include hmax

theorem capped_toNat (attempt : UInt32) :
    (d.capped attempt).toNat = min (d.baseDelayMs.toNat*2^attempt.toNat) d.maxDelayMs.toNat := by
  have hlt := base_mul_factor_lt hbase attempt
  rw [WebhookDispatcherConfig.capped,min64_toNat,mul64_toNat,min_eq_left hlt.le,
    WebhookDispatcherConfig.factor_toNat]
  exact min_clamped_pow attempt.toNat hbase.1 (hmax.2.trans (by norm_num))

theorem backoffDelay_jittered (hjitter : d.jitterEnabled = true) (attempt nanos : UInt32) :
    (d.capped attempt).toNat ≤ (d.backoffDelay attempt nanos).toNat ∧
    (d.backoffDelay attempt nanos).toNat ≤ (d.capped attempt).toNat+(d.capped attempt).toNat/4 := by
  have hjit := jitterMs_le (d.capped attempt/4) nanos
  have hle : (d.capped attempt).toNat ≤ 300000 := by
    rw [capped_toNat hbase hmax]
    exact (Nat.min_le_right _ _).trans hmax.2
  rw [UInt64.toNat_div,show (4:UInt64).toNat = 4 from rfl] at hjit
  rw [WebhookDispatcherConfig.backoffDelay,if_pos hjitter,add64_toNat]
  omega

end

def AcceptedDelays (base cap : UInt64) : Prop :=
  ∃ parsers env cfg, fromEnv parsers env = .ok cfg ∧
    (base = cfg.stellarRetryBaseDelayMs ∧ cap = cfg.stellarRetryMaxDelayMs ∨
      base = cfg.webhookRetryBaseDelayMs ∧ cap = cfg.webhookRetryMaxDelayMs)

theorem accepted_millis {base cap : UInt64} (h : AcceptedDelays base cap) :
    Millis base ∧ Millis cap := by
  obtain ⟨parsers,env,cfg,hok,⟨rfl,rfl⟩ | ⟨rfl,rfl⟩⟩ := h
  · have hstellar := (documented_of_ok hok).stellar
    exact ⟨hstellar.baseDelay_millis,hstellar.maxDelay_millis⟩
  · have hwebhook := (documented_of_ok hok).webhook
    exact ⟨hwebhook.baseDelay_millis,hwebhook.maxDelay_millis⟩

def backoff (base cap : UInt64) (n : UInt32) : Nat := min (base.toNat*2^n.toNat) cap.toNat

theorem backoff_mono {base cap : UInt64} {n n' : UInt32} (h : n ≤ n') :
    backoff base cap n ≤ backoff base cap n' :=
  min_le_min_right _ (Nat.mul_le_mul_left _
    (Nat.pow_le_pow_right (by omega) (UInt32.le_iff_toNat_le.mp h)))

/-- Without jitter both delays are the formula at every attempt, with every product in range;
so they grow with the attempt and agree, and jitter adds up to a quarter to a delivery's. -/
theorem backoff_formula {base cap : UInt64} (h : AcceptedDelays base cap) (policy : RetryPolicy)
    (hpolicy : policy.baseDelay = .ofMillis base ∧ policy.maxDelay = .ofMillis cap ∧
      policy.jitter = .none)
    (d : WebhookDispatcherConfig) (hd : d.baseDelayMs = base ∧ d.maxDelayMs = cap) :
    (∀ n r, (policy.retryDelay n r).nanos = backoff base cap n*10^6 ∧
      (RetryPolicy.multiplier n).toNat = 2^min n.toNat 31 ∧
      (policy.baseDelay.checkedMul (RetryPolicy.multiplier n)).isSome = true) ∧
    (∀ n nanos, d.jitterEnabled = false →
      (d.backoffDelay n nanos).toNat = backoff base cap n ∧
      base.toNat*(WebhookDispatcherConfig.factor n).toNat < 2^64) ∧
    (∀ n n', n ≤ n' → ∀ r r', (policy.retryDelay n r).nanos ≤ (policy.retryDelay n' r').nanos) ∧
    (d.jitterEnabled = false → ∀ n n', n ≤ n' → ∀ nanos nanos',
      (d.backoffDelay n nanos).toNat ≤ (d.backoffDelay n' nanos').toNat) ∧
    (d.jitterEnabled = false → ∀ n r nanos,
      policy.retryDelay n r = .ofMillis (d.backoffDelay n nanos)) ∧
    (d.jitterEnabled = true → ∀ n nanos, backoff base cap n ≤ (d.backoffDelay n nanos).toNat ∧
      (d.backoffDelay n nanos).toNat ≤ backoff base cap n+backoff base cap n/4) := by
  obtain ⟨hbase,hcap⟩ := accepted_millis h
  obtain ⟨hpbase,hpcap,hnone⟩ := hpolicy
  obtain ⟨rfl,rfl⟩ := hd
  have hretry (n : UInt32) (r : Readings) :
      (policy.retryDelay n r).nanos = backoff d.baseDelayMs d.maxDelayMs n*10^6 := by
    rw [RetryPolicy.retryDelay,hnone]
    exact capped_eq hpbase hpcap hbase hcap n
  have hcapped (n : UInt32) : (d.capped n).toNat = backoff d.baseDelayMs d.maxDelayMs n :=
    capped_toNat hbase hcap n
  have hdelay (hoff : d.jitterEnabled = false) (n nanos : UInt32) :
      (d.backoffDelay n nanos).toNat = backoff d.baseDelayMs d.maxDelayMs n := by
    rw [WebhookDispatcherConfig.backoffDelay,hoff,if_neg Bool.false_ne_true,hcapped]
  refine ⟨?_,?_,?_,?_,?_,?_⟩
  · intro n r
    obtain ⟨e,he,_⟩ := checkedMul_multiplier hpbase hbase n
    exact ⟨hretry n r,multiplier_toNat n,by rw [he,Option.isSome_some]⟩
  · intro n nanos hoff
    have hlt := base_mul_factor_lt hbase n
    exact ⟨hdelay hoff n nanos,by omega⟩
  · intro n n' hn r r'
    rw [hretry,hretry]
    exact Nat.mul_le_mul_right _ (backoff_mono hn)
  · intro hoff n n' hn nanos nanos'
    rw [hdelay hoff,hdelay hoff]
    exact backoff_mono hn
  · intro hoff n r nanos
    apply Duration.ext
    rw [hretry,Duration.ofMillis_nanos,hdelay hoff]
  · intro hon n nanos
    rw [← hcapped]
    exact backoffDelay_jittered hbase hcap hon n nanos

theorem backoff_formula_defaults :
    let policy : RetryPolicy := ⟨3,.ofMillis 200,.ofMillis 30000,.none⟩
    let d : WebhookDispatcherConfig := ⟨[],none,5,200,30000,10000,false⟩
    AcceptedDelays 200 30000 ∧
      (policy.retryDelay 4 .least).nanos ≤ (policy.retryDelay 4000000000 .least).nanos ∧
      policy.retryDelay 40 .least = .ofMillis (d.backoffDelay 40 7) := by
  intro policy d
  have haccepted : AcceptedDelays 200 30000 :=
    ⟨.sample,sampleEnv [],_,fromEnv_of_load (by decide +kernel),Or.inr (by decide +kernel)⟩
  have hformula := backoff_formula haccepted policy ⟨rfl,rfl,rfl⟩ d ⟨rfl,rfl⟩
  exact ⟨haccepted,hformula.2.2.1 4 4000000000 (by decide) .least .least,
    hformula.2.2.2.2.1 rfl 40 .least 7⟩

end ProofStell.Webhook
