import ProofStell.Contract.RateLimit

/-! The refill of an on-chain bucket against the same refill in unbounded numbers. -/
namespace ProofStell.Contract
open Transact
variable {Address Symbol : Type}

/-- What `b` holds at `now` when nothing wraps: `min(C, tokens + r*(now - last_refill))`. -/
def exactTokens (b : RateLimitBucketState) (now : UInt64) (capacity perSecond : UInt32) : Nat :=
  min capacity.toNat (b.tokens.toNat+perSecond.toNat*(now.toNat-b.lastRefill.toNat))

/-- The product is small enough for the `as u32` cast or saturates, or what the cast
leaves of it fills the bucket all the same. -/
def RefillFits (b : RateLimitBucketState) (now : UInt64) (capacity perSecond : UInt32) : Prop :=
  let product := perSecond.toNat*(now.toNat-b.lastRefill.toNat)
  product < 2^32 ∨ 2^64 ≤ product ∨ capacity.toNat ≤ b.tokens.toNat+product%2^32

instance (b : RateLimitBucketState) (now : UInt64) (capacity perSecond : UInt32) :
    Decidable (RefillFits b now capacity perSecond) := by
  unfold RefillFits
  infer_instance

theorem refilledTokens_toNat (b : RateLimitBucketState) (now : UInt64)
    (capacity perSecond : UInt32) :
    (refilledTokens b now capacity perSecond).toNat =
      min (min (b.tokens.toNat+
          min (perSecond.toNat*(now.toNat-b.lastRefill.toNat)) (2^64-1)%2^32) (2^32-1))
        capacity.toNat := by
  rw [refilledTokens]
  simp only [UInt32.toNat_min,Saturating.add32_toNat,UInt64.toNat_toUInt32,Saturating.mul64_toNat,
    Saturating.sub64_toNat,UInt32.toNat_toUInt64]
  rw [Nat.mul_comm]

theorem refilledTokens_eq_exactTokens (b : RateLimitBucketState) (now : UInt64)
    (capacity perSecond : UInt32) :
    (refilledTokens b now capacity perSecond).toNat = exactTokens b now capacity perSecond ↔
      RefillFits b now capacity perSecond := by
  have hcap := capacity.toNat_lt
  rw [refilledTokens_toNat,exactTokens,RefillFits]
  generalize perSecond.toNat*(now.toNat-b.lastRefill.toNat) = product
  obtain hsmall | hsat | hmid : product < 2^32 ∨ 2^64 ≤ product ∨
    (2^32 ≤ product ∧ product < 2^64) := by omega
  · have hmod : min product (2^64-1)%2^32 = product := by omega
    rw [hmod]
    omega
  · have hmod : min product (2^64-1)%2^32 = 2^32-1 := by omega
    rw [hmod]
    omega
  · rw [Nat.min_eq_left (by omega : product ≤ 2^64-1)]
    have hlt := Nat.mod_lt product (show 0 < 2^32 by decide)
    omega

theorem exactTokens_mono (b : RateLimitBucketState) {now later : UInt64} (h : now ≤ later)
    (capacity perSecond : UInt32) :
    exactTokens b now capacity perSecond ≤ exactTokens b later capacity perSecond := by
  rw [UInt64.le_iff_toNat_le] at h
  have hmul := Nat.mul_le_mul_left perSecond.toNat (Nat.sub_le_sub_right h b.lastRefill.toNat)
  simp only [exactTokens]
  omega

theorem refilledTokens_le_exactTokens (b : RateLimitBucketState) (now : UInt64)
    (capacity perSecond : UInt32) :
    (refilledTokens b now capacity perSecond).toNat ≤ exactTokens b now capacity perSecond := by
  obtain ⟨hcap,hacc⟩ := refilledTokens_le b now capacity perSecond
  exact le_min hcap hacc

/-- Tokens of the bucket of `scope` at the check at `now`. -/
def tokensFor (w : World Address Symbol) (config : RateLimitConfig) (now : UInt64)
    (scope : RateLimitScope Address) : UInt32 :=
  refilledTokens (bucketAt w config now scope) now (config.limits scope).1 (config.limits scope).2

variable [DecidableEq Address] [DecidableEq Symbol]

theorem chargeScope_eq (env : Env Address) (config : RateLimitConfig)
    (s : RateLimitScope Address) (w : World Address Symbol) :
    chargeScope env config s w =
      if tokensFor w config env.timestamp s = 0 then
        (.error (.error .rateLimitExceeded),
          w.put (.rateLimitRetryAfter s) (some (retryAfter (config.limits s).2)))
      else (.ok (),(w.put (.rateLimitState s)
        (some ⟨Saturating.sub32 (tokensFor w config env.timestamp s) 1,env.timestamp⟩)).put
          (.rateLimitRetryAfter s) none) := by
  by_cases h : tokensFor w config env.timestamp s = 0
  · rw [if_pos h]
    rw [tokensFor] at h
    simp [chargeScope,setKey,h]
  · rw [if_neg h]
    rw [tokensFor] at h ⊢
    simp [chargeScope,setKey,removeKey,h]

theorem chargeScope_tokensFor_ne {env : Env Address} {config : RateLimitConfig}
    {s r : RateLimitScope Address} {w v : World Address Symbol} {u : Unit}
    (h : chargeScope env config s w = (.ok u,v)) (hr : r≠s) :
    tokensFor v config env.timestamp r = tokensFor w config env.timestamp r := by
  obtain ⟨_,hv⟩ := chargeScope_ok h
  have hkeep : v.storage (.rateLimitState r) = w.storage (.rateLimitState r) := by
    rw [hv,put_storage_ne _ _ (by simp),put_storage_ne _ _ (by simpa using hr)]
  simp only [tokensFor,bucketAt,hkeep]

theorem checkRateLimit_eq (env : Env Address) (caller issuer : Address)
    (w : World Address Symbol) :
    checkRateLimit env caller issuer w =
      (do chargeScope env (rateLimitConfig w) (.address caller)
          chargeScope env (rateLimitConfig w) (.issuer issuer) : Exec Address Symbol Unit) w := by
  have hlast : (do chargeScope env (rateLimitConfig w) (.issuer issuer); pure () :
      Exec Address Symbol Unit) = chargeScope env (rateLimitConfig w) (.issuer issuer) :=
    Exec.bind_pure _
  simp [checkRateLimit,Exec.each,Exec.bind_assoc,hlast]

theorem checkRateLimit_result (env : Env Address) (caller issuer : Address)
    (w : World Address Symbol) :
    (checkRateLimit env caller issuer w).1 =
      if ∀ s∈[RateLimitScope.address caller,.issuer issuer],
          tokensFor w (rateLimitConfig w) env.timestamp s≠0 then .ok ()
      else .error (.error .rateLimitExceeded) := by
  have hfirst := chargeScope_eq env (rateLimitConfig w) (.address caller) w
  rw [checkRateLimit_eq]
  by_cases ha : tokensFor w (rateLimitConfig w) env.timestamp (.address caller) = 0
  · rw [if_pos ha] at hfirst
    rw [Exec.bind_of_error hfirst]
    simp [ha]
  · rw [if_neg ha] at hfirst
    rw [Exec.bind_of_ok hfirst,chargeScope_eq,chargeScope_tokensFor_ne hfirst (by simp)]
    by_cases hi : tokensFor w (rateLimitConfig w) env.timestamp (.issuer issuer) = 0 <;>
      simp [ha,hi]

theorem checkRateLimit_stores {env : Env Address} {caller issuer : Address}
    {w v : World Address Symbol} (h : checkRateLimit env caller issuer w = (.ok (),v))
    {s : RateLimitScope Address} (hs : s∈[RateLimitScope.address caller,.issuer issuer]) :
    v.storage (.rateLimitState s) = some
      ⟨Saturating.sub32 (tokensFor w (rateLimitConfig w) env.timestamp s) 1,env.timestamp⟩ := by
  obtain ⟨w',h1,h2⟩ := checkRateLimit_ok h
  obtain ⟨_,hw⟩ := chargeScope_ok h1
  obtain ⟨_,hv⟩ := chargeScope_ok h2
  simp only [List.mem_cons,List.not_mem_nil,or_false] at hs
  obtain rfl | rfl := hs
  · rw [hv,put_storage_ne _ _ (by simp),put_storage_ne _ _ (by simp),hw,
      put_storage_ne _ _ (by simp),put_storage_self]
    rfl
  · have hkeep := chargeScope_tokensFor_ne h1
      (show RateLimitScope.issuer issuer≠.address caller by simp)
    rw [tokensFor] at hkeep
    rw [hv,put_storage_ne _ _ (by simp),put_storage_self,hkeep]

/-- The round of `scope` on its stored bucket `b` does what the unbounded refill says. -/
structure RefillsExactly (env : Env Address) (config : RateLimitConfig)
    (scope : RateLimitScope Address) (b : RateLimitBucketState) (w : World Address Symbol) :
    Prop where
  rejects : (chargeScope env config scope w).1 = .error (.error .rateLimitExceeded) ↔
    exactTokens b env.timestamp (config.limits scope).1 (config.limits scope).2 = 0
  stores : ∀ v, chargeScope env config scope w = (.ok (),v) →
    ∃ b', v.storage (.rateLimitState scope) = some b' ∧ b'.tokens.toNat =
      exactTokens b env.timestamp (config.limits scope).1 (config.limits scope).2-1

theorem refillsExactly_iff {env : Env Address} {config : RateLimitConfig}
    {scope : RateLimitScope Address} {b : RateLimitBucketState} {w : World Address Symbol}
    (hb : w.storage (.rateLimitState scope) = some b) :
    RefillsExactly env config scope b w ↔
      RefillFits b env.timestamp (config.limits scope).1 (config.limits scope).2 := by
  have htokens : tokensFor w config env.timestamp scope =
      refilledTokens b env.timestamp (config.limits scope).1 (config.limits scope).2 := by
    simp [tokensFor,bucketAt,hb]
  have hle := refilledTokens_le_exactTokens b env.timestamp (config.limits scope).1
    (config.limits scope).2
  have hround := chargeScope_eq env config scope w
  rw [← refilledTokens_eq_exactTokens]
  rw [htokens] at hround
  generalize refilledTokens b env.timestamp (config.limits scope).1 (config.limits scope).2 =
    tokens at hround hle ⊢
  have hzero : tokens = 0 ↔ tokens.toNat = 0 := by
    rw [← UInt32.toNat_inj,UInt32.toNat_zero]
  constructor
  · intro h
    by_cases h0 : tokens = 0
    · rw [if_pos h0] at hround
      have hexact := h.rejects.mp (by rw [hround])
      rw [hzero.mp h0,hexact]
    · rw [if_neg h0] at hround
      obtain ⟨b',hb',htok⟩ := h.stores _ hround
      rw [put_storage_ne _ _ (by simp),put_storage_self,Option.some_inj] at hb'
      subst hb'
      rw [hzero] at h0
      simp only [Saturating.sub32_toNat,UInt32.toNat_one] at htok
      omega
  · intro h
    constructor
    · rw [hround,← h,← hzero]
      by_cases h0 : tokens = 0 <;> simp [h0]
    · intro v hv
      by_cases h0 : tokens = 0
      · simp [hround,h0] at hv
      · rw [hround,if_neg h0,Prod.mk.injEq] at hv
        refine ⟨⟨Saturating.sub32 tokens 1,env.timestamp⟩,?_,?_⟩
        · rw [← hv.2,put_storage_ne _ _ (by simp),put_storage_self]
        · simp [h]

omit [DecidableEq Address] [DecidableEq Symbol] in
/-- Tokens at an earlier time are tokens at a later one, as far as the refill then is exact. -/
theorem tokensFor_later {w : World Address Symbol} {config : RateLimitConfig} {now later : UInt64}
    {s : RateLimitScope Address} (hle : now ≤ later)
    (hfits : ∀ b, w.storage (.rateLimitState s) = some b →
      RefillFits b later (config.limits s).1 (config.limits s).2)
    (h : tokensFor w config now s≠0) : tokensFor w config later s≠0 := by
  rw [tokensFor,bucketAt] at h ⊢
  cases hb : w.storage (.rateLimitState s) with
  | none =>
    -- a first use finds the bucket full whatever the time
    rw [hb,Option.getD_none] at h
    have hfull (t : UInt64) : (refilledTokens ⟨(config.limits s).1,t⟩ t (config.limits s).1
        (config.limits s).2).toNat = (config.limits s).1.toNat := by
      have hcap := (config.limits s).1.toNat_lt
      rw [refilledTokens_toNat]
      simp only [Nat.sub_self,Nat.mul_zero]
      omega
    rw [Ne,← UInt32.toNat_inj,hfull] at h
    rw [Option.getD_none,Ne,← UInt32.toNat_inj,hfull]
    exact h
  | some b =>
    rw [hb,Option.getD_some] at h
    rw [Option.getD_some]
    have hnow := refilledTokens_le_exactTokens b now (config.limits s).1 (config.limits s).2
    have hlater := (refilledTokens_eq_exactTokens b later _ _).mpr (hfits b hb)
    have hmono := exactTokens_mono b hle (config.limits s).1 (config.limits s).2
    rw [Ne,← UInt32.toNat_inj,UInt32.toNat_zero] at h ⊢
    omega

/-- The refill of a stored bucket is exact except where the `as u32` cast drops tokens
that the bucket has room for; away from those times waiting never costs a call. -/
theorem refill_exact_iff (env : Env Address) (caller issuer : Address)
    (w : World Address Symbol) (scope : RateLimitScope Address)
    (hs : scope∈[RateLimitScope.address caller,.issuer issuer]) (b : RateLimitBucketState)
    (hb : w.storage (.rateLimitState scope) = some b) :
    let limits := (rateLimitConfig w).limits
    (RefillsExactly env (rateLimitConfig w) scope b w ↔
      RefillFits b env.timestamp (limits scope).1 (limits scope).2) ∧
    (RefillFits b env.timestamp (limits scope).1 (limits scope).2 →
      let exact := exactTokens b env.timestamp (limits scope).1 (limits scope).2
      (exact = 0 →
        (checkRateLimit env caller issuer w).1 = .error (.error .rateLimitExceeded)) ∧
      ∀ v, checkRateLimit env caller issuer w = (.ok (),v) →
        ∃ b', v.storage (.rateLimitState scope) = some b' ∧ b'.tokens.toNat = exact-1) ∧
    ∀ later, env.timestamp ≤ later →
      (∀ s∈[RateLimitScope.address caller,.issuer issuer], ∀ b',
        w.storage (.rateLimitState s) = some b' →
          RefillFits b' later (limits s).1 (limits s).2) →
      (checkRateLimit env caller issuer w).1 = .ok () →
        (checkRateLimit { env with timestamp := later } caller issuer w).1 = .ok () := by
  intro limits
  refine ⟨refillsExactly_iff hb,fun hfits => ?_,fun later hle hfits hok => ?_⟩
  · have htokens : (tokensFor w (rateLimitConfig w) env.timestamp scope).toNat =
        exactTokens b env.timestamp (limits scope).1 (limits scope).2 := by
      rw [← (refilledTokens_eq_exactTokens b env.timestamp _ _).mpr hfits]
      simp [tokensFor,bucketAt,hb,limits]
    refine ⟨fun h0 => ?_,fun v hv => ?_⟩
    · have hempty : tokensFor w (rateLimitConfig w) env.timestamp scope = 0 := by
        rw [← UInt32.toNat_inj,htokens,h0,UInt32.toNat_zero]
      rw [checkRateLimit_result,if_neg]
      exact fun hall => hall scope hs hempty
    · refine ⟨_,checkRateLimit_stores hv hs,?_⟩
      rw [← htokens,Saturating.sub32_toNat,UInt32.toNat_one]
  · have hnow : ∀ s∈[RateLimitScope.address caller,.issuer issuer],
        tokensFor w (rateLimitConfig w) env.timestamp s≠0 := by
      by_contra hno
      rw [checkRateLimit_result,if_neg hno] at hok
      cases hok
    rw [checkRateLimit_result,if_pos]
    exact fun s hm => tokensFor_later hle (hfits s hm) (hnow s hm)

/-- A drained bucket of five that earns one token a second: one second later the call
passes and leaves nothing. -/
theorem refill_exact_after_a_second :
    let config : RateLimitConfig := ⟨1,5,1,5⟩
    let w := ((World.initial Nat Nat (Vector.replicate 32 0)).put .rateLimitConfig
      (some config)).put (.rateLimitState (.address 0)) (some ⟨0,10⟩)
    let env : Env Nat := ⟨11,fun _ => true,fun _ => true⟩
    RefillFits ⟨0,10⟩ 11 5 1 ∧ RefillsExactly env config (.address 0) ⟨0,10⟩ w := by
  intro config w env
  have hfits : RefillFits ⟨0,10⟩ 11 5 1 := by decide +kernel
  exact ⟨hfits,(refill_exact_iff env 0 0 w (.address 0) (by simp) ⟨0,10⟩ rfl).1.mpr hfits⟩

/-- The same bucket left alone for 2^32 seconds: the call that passes after one second is
rejected then, though the bucket is full. -/
theorem refill_lost_in_cast :
    let config : RateLimitConfig := ⟨1,5,1,5⟩
    let w := ((World.initial Nat Nat (Vector.replicate 32 0)).put .rateLimitConfig
      (some config)).put (.rateLimitState (.address 0)) (some ⟨0,10⟩)
    let env (now : UInt64) : Env Nat := ⟨now,fun _ => true,fun _ => true⟩
    exactTokens ⟨0,10⟩ (10+2^32) 5 1 = 5 ∧
    (chargeScope (env (10+2^32)) config (.address 0) w).1 = .error (.error .rateLimitExceeded) ∧
    ¬RefillsExactly (env (10+2^32)) config (.address 0) ⟨0,10⟩ w ∧
    (checkRateLimit (env 11) 0 0 w).1 = .ok () ∧
    (checkRateLimit (env (10+2^32)) 0 0 w).1 = .error (.error .rateLimitExceeded) := by
  intro config w env
  have hexact : exactTokens ⟨0,10⟩ (10+2^32) 5 1 = 5 := by decide +kernel
  have hreject : (chargeScope (env (10+2^32)) config (.address 0) w).1 =
      .error (.error .rateLimitExceeded) := by decide +kernel
  refine ⟨hexact,hreject,fun h => ?_,by decide +kernel,by decide +kernel⟩
  have h0 := h.rejects.mp hreject
  exact absurd (hexact.symm.trans h0) (by decide)

end ProofStell.Contract
