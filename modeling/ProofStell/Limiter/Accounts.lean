import ProofStell.Limiter.Eviction
import Mathlib.Algebra.BigOperators.Group.Finset.Basic

/-! The metrics of the limiter, as accounts of the requests and of the tokens. Amounts of tokens
are whole everywhere, so counting them in units loses nothing. -/
namespace ProofStell.Limiter
variable {γ : Type}

structure RateLimitMetrics where
  hits : String → Nat
  rejections : String → String → Nat
  violations : Nat
  tokensConsumed : Nat
  tokensRefilled : Nat
  resets : Nat

namespace RateLimitMetrics

def new : RateLimitMetrics := ⟨fun _ => 0,fun _ _ => 0,0,0,0,0⟩

def incrementRateLimitHit (issuer : String) (m : RateLimitMetrics) : RateLimitMetrics :=
  { m with hits := Function.update m.hits issuer (m.hits issuer+1) }

def reject (issuer tier : String) (m : RateLimitMetrics) : RateLimitMetrics :=
  { m with
    rejections := Function.update m.rejections issuer
      (Function.update (m.rejections issuer) tier (m.rejections issuer tier+1)) }

def incrementRateLimitGlobalRejection (issuer : String) : RateLimitMetrics → RateLimitMetrics :=
  reject issuer "global"

def incrementRateLimitIssuerRejection (issuer : String) : RateLimitMetrics → RateLimitMetrics :=
  reject issuer "issuer"

def incrementRateLimitViolation (m : RateLimitMetrics) : RateLimitMetrics :=
  { m with violations := m.violations+1 }

def recordTokenConsumed (m : RateLimitMetrics) : RateLimitMetrics :=
  { m with tokensConsumed := m.tokensConsumed+1 }

def recordTokensRefilled (count : UInt64) (m : RateLimitMetrics) : RateLimitMetrics :=
  if count > 0 then { m with tokensRefilled := m.tokensRefilled+count.toNat } else m

def incrementRateLimitReset (m : RateLimitMetrics) : RateLimitMetrics :=
  { m with resets := m.resets+1 }

def recordSuccess (issuer : String) (outcome : ConsumeOutcome) (m : RateLimitMetrics) :
    RateLimitMetrics :=
  let m := (m.incrementRateLimitHit issuer).recordTokenConsumed.recordTokensRefilled
    (outcome.refilledMilli/MILLI)
  if outcome.reset then m.incrementRateLimitReset else m

end RateLimitMetrics

namespace PerIssuerRateLimiter
variable (G : Governor γ)

def checkMetered (issuer : String) (instant later : Nat) (now : UInt64)
    (w : PerIssuerRateLimiter γ × RateLimitMetrics) :
    Except RateLimitError Unit × (PerIssuerRateLimiter γ × RateLimitMetrics) :=
  let (s,m) := w
  match G.check instant s.global with
  | (.error earliest,global) =>
    (.error (.globalExhausted (earliest-later)),
      ({ s with global := global },
        (m.incrementRateLimitGlobalRejection issuer).incrementRateLimitViolation))
  | (.ok _,global) =>
    let (outcome,s) := { s with global := global }.consumeIssuer issuer now
    if outcome.granted then (.ok (),(s,m.recordSuccess issuer outcome))
    else
      (.error (.issuerExhausted issuer ((s.nextTokenWait issuer now).toNat*10^9)),
        (s,(m.incrementRateLimitIssuerRejection issuer).incrementRateLimitViolation))

/-- One turn of the loop of `until_ready`, and whether it was the last. -/
def turnMetered (issuer : String) (now : UInt64) (w : PerIssuerRateLimiter γ × RateLimitMetrics) :
    Bool × (PerIssuerRateLimiter γ × RateLimitMetrics) :=
  let (outcome,s) := w.1.consumeIssuer issuer now
  if outcome.granted then (true,(s,w.2.recordSuccess issuer outcome)) else (false,(s,w.2))

inductive Use where
  | check (issuer : String) (instant later : Nat) (now : UInt64)
  | turn (issuer : String) (now : UInt64)
  | status (issuer : String) (now : UInt64) (instant : Nat)
  | evictStale (now : UInt64)
  deriving DecidableEq, Repr

def Use.now : Use → UInt64
  | .check _ _ _ now | .turn _ now | .status _ now _ | .evictStale now => now

def Use.issuer? : Use → Option String
  | .check issuer .. | .turn issuer _ => some issuer
  | .status .. | .evictStale _ => none

/-- What a use tells its caller about the request it makes, if it makes one. -/
inductive Verdict where
  | passed (issuer : String)
  | rejected (issuer tier : String)
  | waiting
  | nothing
  deriving DecidableEq, Repr

def verdict (issuer : String) : Except RateLimitError Unit → Verdict
  | .ok () => .passed issuer
  | .error (.globalExhausted _) => .rejected issuer "global"
  | .error (.issuerExhausted _ _) => .rejected issuer "issuer"

def useMetered (u : Use) (w : PerIssuerRateLimiter γ × RateLimitMetrics) :
    Verdict × (PerIssuerRateLimiter γ × RateLimitMetrics) :=
  match u with
  | .check issuer instant later now =>
    let (result,w) := checkMetered G issuer instant later now w
    (verdict issuer result,w)
  | .turn issuer now =>
    let (ready,w) := turnMetered issuer now w
    (if ready then .passed issuer else .waiting,w)
  | .status issuer now instant => (.nothing,((w.1.status G issuer now instant).2,w.2))
  | .evictStale now => (.nothing,(w.1.evictStale now,w.2))

/-- The metrics do not touch a check. -/
theorem checkMetered_eq (issuer : String) (instant later : Nat) (now : UInt64)
    (w : PerIssuerRateLimiter γ × RateLimitMetrics) :
    (checkMetered G issuer instant later now w).1 =
        (w.1.check G issuer instant later now).1 ∧
      (checkMetered G issuer instant later now w).2.1 =
        (w.1.check G issuer instant later now).2 := by
  rw [checkMetered,check]
  cases G.check instant w.1.global with
  | mk result global =>
    cases result with
    | error e => exact ⟨rfl,rfl⟩
    | ok u =>
      dsimp only
      split <;> exact ⟨rfl,rfl⟩

end PerIssuerRateLimiter

section Whole
variable (config : RateLimitConfig)
open PerIssuerRateLimiter

structure Whole (b : AtomicTokenBucket) : Prop where
  holds : b.Holds (burstUnits config) (rateUnits config)
  whole : 1000 ∣ (wordView b.state).level
  fits : (wordView b.state).level ≤ 1000*burstUnits config

variable {config}

theorem Whole.refill {b : AtomicTokenBucket} (hb : Whole config b) (now : Nat) :
    1000 ∣ (wordView b.state).refill (1000*burstUnits config) (1000*rateUnits config) now ∧
      (wordView b.state).level ≤
        (wordView b.state).refill (1000*burstUnits config) (1000*rateUnits config) now := by
  have hwhole := hb.whole
  have hfits := hb.fits
  have hadd : 1000 ∣ 1000*rateUnits config*(now-(wordView b.state).stamp) :=
    (Nat.dvd_mul_right 1000 _).mul_right _
  rw [TokenBucket.Bucket.refill]
  refine ⟨?_,by omega⟩
  rcases Nat.le_total (1000*burstUnits config) ((wordView b.state).level+
    1000*rateUnits config*(now-(wordView b.state).stamp)) with h | h
  · rw [min_eq_left h]
    exact Nat.dvd_mul_right 1000 _
  · rw [min_eq_right h]
    exact Nat.dvd_add hwhole hadd

theorem tryConsume_refilled {b : AtomicTokenBucket} (hb : Whole config b) {now : UInt64}
    (hnow : now.toNat < 2^32) (hgrant : (b.tryConsume now).1.granted = true) :
    (b.tryConsume now).1.refilledMilli.toNat =
      (wordView b.state).refill (1000*burstUnits config) (1000*rateUnits config) now.toNat-
        (wordView b.state).level := by
  have href := b.refilled_toNat b.state hnow
  rw [hb.holds.capacity,hb.holds.rate] at href
  rw [← href]
  simp only [AtomicTokenBucket.tryConsume,CasLoop.alone,AtomicTokenBucket.attempt] at hgrant ⊢
  split at hgrant
  · next h =>
    rw [if_pos h]
    simp [CasLoop.Decision.apply,wordView]
  · next h =>
    split at hgrant <;> simp [CasLoop.Decision.apply] at hgrant

/-- A request keeps the tokens whole. What a grant reports as refilled makes up for the token it
takes, and a rejected request finds an empty bucket and leaves it empty. -/
theorem Whole.consume {b : AtomicTokenBucket} (hb : Whole config b) {now : UInt64}
    (hnow : now.toNat < 2^32) :
    Whole config (b.tryConsume now).2 ∧
      if (b.tryConsume now).1.granted = true then
        (wordView (b.tryConsume now).2.state).level+1000 = (wordView b.state).level+
          1000*((b.tryConsume now).1.refilledMilli/MILLI).toNat
      else (wordView (b.tryConsume now).2.state).level = (wordView b.state).level := by
  have hreq := tryConsume_request config hb.holds hnow
  obtain ⟨hdvd,hle⟩ := hb.refill now.toNat
  have hcap : (wordView b.state).refill (1000*burstUnits config) (1000*rateUnits config)
      now.toNat ≤ 1000*burstUnits config := Nat.min_le_left _ _
  have hwhole := hb.whole
  rw [request,TokenBucket.consume] at hreq
  split at hreq
  · next henough =>
    obtain ⟨hgrant,hview⟩ := Prod.mk.inj hreq
    have hrefilled := tryConsume_refilled hb hnow hgrant.symm
    have hunits : ((b.tryConsume now).1.refilledMilli/MILLI).toNat =
        (b.tryConsume now).1.refilledMilli.toNat/1000 := UInt64.toNat_div _ _
    refine ⟨⟨⟨hb.holds.capacity,hb.holds.rate⟩,?_,?_⟩,?_⟩
    · rw [← hview]
      exact Nat.dvd_sub hdvd (Nat.dvd_refl 1000)
    · rw [← hview]
      exact (Nat.sub_le _ _).trans hcap
    · rw [if_pos hgrant.symm,← hview,hunits,hrefilled,
        Nat.mul_div_cancel' (Nat.dvd_sub hdvd hwhole)]
      simp only
      omega
  · next hshort =>
    obtain ⟨hreject,hview⟩ := Prod.mk.inj hreq
    -- a whole number of tokens below one is none
    have hzero : (wordView b.state).refill (1000*burstUnits config) (1000*rateUnits config)
        now.toNat = 0 := Nat.eq_zero_of_dvd_of_lt hdvd (Nat.lt_of_not_le hshort)
    refine ⟨⟨⟨hb.holds.capacity,hb.holds.rate⟩,?_,?_⟩,?_⟩
    · rw [← hview]
      exact hdvd
    · rw [← hview]
      exact hcap
    · rw [if_neg (by simp [← hreject]),← hview]
      simp only
      omega

variable (config) in
theorem whole_new (issuer : String) {now : UInt64} (hnow : now.toNat < 2^32) :
    Whole config (config.newBucket issuer now) ∧
      (wordView (config.newBucket issuer now).state).level = 1000*burstUnits config := by
  have hholds := newBucket_holds config issuer now
  have hview := AtomicTokenBucket.new_full config.perIssuerBurst config.perIssuerPerSecond
    config.jitterSeconds issuer hnow
  have hlevel : (wordView (config.newBucket issuer now).state).level = 1000*burstUnits config := by
    rw [RateLimitConfig.newBucket,hview]
    exact hholds.capacity
  exact ⟨⟨hholds,by rw [hlevel]; exact Nat.dvd_mul_right _ _,hlevel.le⟩,hlevel⟩

end Whole

namespace PerIssuerRateLimiter
variable (G : Governor γ) (config : RateLimitConfig) (S : Finset String)

def held (s : PerIssuerRateLimiter γ) (issuer : String) : Nat :=
  ((s.buckets issuer).map fun b => (wordView b.state).level).getD 0

def heldIn (s : PerIssuerRateLimiter γ) : Nat := ∑ issuer∈S, s.held issuer

def first (s : PerIssuerRateLimiter γ) (issuer : String) : Nat :=
  if s.buckets issuer = none then 1 else 0

def creates (u : Use) (w : PerIssuerRateLimiter γ × RateLimitMetrics) : Nat :=
  match u with
  | .check issuer instant .. =>
    match (G.check instant w.1.global).1 with
    | .ok _ => w.1.first issuer
    | .error _ => 0
  | .turn issuer _ => w.1.first issuer
  | .status .. | .evictStale _ => 0

def drops (u : Use) (w : PerIssuerRateLimiter γ × RateLimitMetrics) : Nat :=
  match u with
  | .evictStale now =>
    ∑ issuer∈S, if (w.1.evictStale now).buckets issuer = none then w.1.held issuer else 0
  | .check .. | .turn .. | .status .. => 0

structure AllWhole (s : PerIssuerRateLimiter γ) : Prop where
  same : s.config = config
  whole : ∀ issuer b, s.buckets issuer = some b → Whole config b

variable {config}

theorem AllWhole.bucketFor {s : PerIssuerRateLimiter γ} (hs : s.AllWhole config) (issuer : String)
    {now : UInt64} (hnow : now.toNat < 2^32) :
    Whole config (s.bucketFor issuer now) ∧ (wordView (s.bucketFor issuer now).state).level =
      s.held issuer+1000*burstUnits config*s.first issuer := by
  rw [PerIssuerRateLimiter.bucketFor,held,first]
  cases hb : s.buckets issuer with
  | some b => exact ⟨hs.whole issuer b hb,by simp⟩
  | none =>
    obtain ⟨hwhole,hlevel⟩ := whole_new config issuer hnow
    rw [hs.same]
    exact ⟨hwhole,by simpa using hlevel⟩

theorem heldIn_update {s s' : PerIssuerRateLimiter γ} {issuer : String} (hin : issuer∈S)
    (hother : ∀ other, other≠issuer → s'.held other = s.held other) :
    s'.heldIn S+s.held issuer = s.heldIn S+s'.held issuer := by
  have hrest : ∑ other∈S.erase issuer, s'.held other = ∑ other∈S.erase issuer, s.held other :=
    Finset.sum_congr rfl fun other hmem => hother other (Finset.ne_of_mem_erase hmem)
  rw [heldIn,heldIn,← Finset.add_sum_erase S _ hin,← Finset.add_sum_erase S _ hin,hrest]
  omega

theorem consumeIssuer_balance {s : PerIssuerRateLimiter γ} (hs : s.AllWhole config)
    {issuer : String} (hin : issuer∈S) {now : UInt64} (hnow : now.toNat < 2^32) :
    (s.consumeIssuer issuer now).2.AllWhole config ∧
      if (s.consumeIssuer issuer now).1.granted = true then
        (s.consumeIssuer issuer now).2.heldIn S+1000 =
          s.heldIn S+1000*burstUnits config*s.first issuer+
            1000*((s.consumeIssuer issuer now).1.refilledMilli/MILLI).toNat
      else (s.consumeIssuer issuer now).2.heldIn S =
        s.heldIn S+1000*burstUnits config*s.first issuer := by
  obtain ⟨hwhole,hlevel⟩ := hs.bucketFor issuer hnow
  obtain ⟨hafter,hbalance⟩ := hwhole.consume hnow
  have hother : ∀ other, other≠issuer →
      (s.consumeIssuer issuer now).2.held other = s.held other := by
    intro other hne
    simp only [consumeIssuer,held,Function.update_of_ne hne]
  have hself : (s.consumeIssuer issuer now).2.held issuer =
      (wordView ((s.bucketFor issuer now).tryConsume now).2.state).level := by
    simp only [consumeIssuer,held,Function.update_self,Option.map_some,Option.getD_some]
  have hsum := heldIn_update S hin hother
  rw [hself] at hsum
  rw [hlevel] at hbalance
  refine ⟨⟨hs.same,fun other b hb => ?_⟩,?_⟩
  · by_cases hne : other = issuer
    · subst hne
      simp only [consumeIssuer,Function.update_self,Option.some.injEq] at hb
      exact hb ▸ hafter
    · simp only [consumeIssuer,Function.update_of_ne hne] at hb
      exact hs.whole other b hb
  · have houtcome : (s.consumeIssuer issuer now).1 =
        ((s.bucketFor issuer now).tryConsume now).1 := rfl
    rw [houtcome]
    split at hbalance
    · next hgrant =>
      rw [if_pos hgrant]
      omega
    · next hreject =>
      rw [if_neg hreject]
      omega

theorem recordSuccess_tokens (issuer : String) (outcome : ConsumeOutcome) (m : RateLimitMetrics) :
    (m.recordSuccess issuer outcome).tokensConsumed = m.tokensConsumed+1 ∧
      (m.recordSuccess issuer outcome).tokensRefilled =
        m.tokensRefilled+(outcome.refilledMilli/MILLI).toNat := by
  have hzero (count : UInt64) (h : ¬count > 0) : count.toNat = 0 := by
    have hle := UInt64.le_iff_toNat_le.mp (UInt64.not_lt.mp h)
    simpa using hle
  have hrefill (m : RateLimitMetrics) (count : UInt64) :
      (m.recordTokensRefilled count).tokensRefilled = m.tokensRefilled+count.toNat ∧
        (m.recordTokensRefilled count).tokensConsumed = m.tokensConsumed := by
    rw [RateLimitMetrics.recordTokensRefilled]
    split
    · exact ⟨rfl,rfl⟩
    · next h => exact ⟨by rw [hzero count h,Nat.add_zero],rfl⟩
  obtain ⟨hrefilled,hconsumed⟩ := hrefill (m.incrementRateLimitHit issuer).recordTokenConsumed
    (outcome.refilledMilli/MILLI)
  rw [RateLimitMetrics.recordSuccess]
  split
  · exact ⟨hconsumed,hrefilled⟩
  · exact ⟨hconsumed,hrefilled⟩

theorem evictStale_balance {s : PerIssuerRateLimiter γ} (now : UInt64) :
    (s.evictStale now).heldIn S+
      ∑ issuer∈S, (if (s.evictStale now).buckets issuer = none then s.held issuer else 0) =
        s.heldIn S := by
  rw [heldIn,heldIn,← Finset.sum_add_distrib]
  refine Finset.sum_congr rfl fun issuer _ => ?_
  cases hb : s.buckets issuer with
  | none => simp [held,evictStale,hb]
  | some b =>
    simp only [held,evictStale,hb,Option.filter_some]
    split <;> simp

theorem use_balance {w : PerIssuerRateLimiter γ × RateLimitMetrics} (hw : w.1.AllWhole config)
    {u : Use} (hnow : u.now.toNat < 2^32) (hin : ∀ issuer, u.issuer? = some issuer → issuer∈S) :
    (useMetered G u w).2.1.AllWhole config ∧
      (useMetered G u w).2.1.heldIn S+1000*(useMetered G u w).2.2.tokensConsumed+drops S u w+
          1000*w.2.tokensRefilled =
        w.1.heldIn S+1000*w.2.tokensConsumed+1000*burstUnits config*creates G u w+
          1000*(useMetered G u w).2.2.tokensRefilled := by
  obtain ⟨s,m⟩ := w
  cases u with
  | status issuer now instant => exact ⟨⟨hw.same,hw.whole⟩,rfl⟩
  | evictStale now =>
    refine ⟨⟨hw.same,fun issuer b hb => ?_⟩,?_⟩
    · exact hw.whole issuer b (Option.filter_eq_some_iff.mp hb).1
    · have hdrop := evictStale_balance S (s := s) now
      simp only [useMetered,drops,creates]
      omega
  | turn issuer now =>
    have hlt : now.toNat < 2^32 := hnow
    obtain ⟨hafter,hbalance⟩ := consumeIssuer_balance (s := s) S hw (hin issuer rfl) hlt
    obtain ⟨hconsumed,hrefilled⟩ := recordSuccess_tokens issuer (s.consumeIssuer issuer now).1 m
    simp only [useMetered,turnMetered,creates,drops]
    cases hgrant : (s.consumeIssuer issuer now).1.granted with
    | true =>
      rw [if_pos hgrant] at hbalance
      simp only [if_true,hconsumed,hrefilled]
      exact ⟨hafter,by omega⟩
    | false =>
      rw [if_neg (by simp [hgrant])] at hbalance
      simp only [Bool.false_eq_true,if_false]
      exact ⟨hafter,by omega⟩
  | check issuer instant later now =>
    have hlt : now.toNat < 2^32 := hnow
    simp only [useMetered,checkMetered,creates,drops]
    cases hG : G.check instant s.global with
    | mk result global =>
      cases result with
      | error e => exact ⟨⟨hw.same,hw.whole⟩,rfl⟩
      | ok v =>
        obtain ⟨hafter,hbalance⟩ := consumeIssuer_balance S (s := { s with global := global })
          ⟨hw.same,hw.whole⟩ (hin issuer rfl) hlt
        obtain ⟨hconsumed,hrefilled⟩ := recordSuccess_tokens issuer
          ({ s with global := global }.consumeIssuer issuer now).1 m
        have hsame : { s with global := global }.heldIn S = s.heldIn S := rfl
        have hfirst : { s with global := global }.first issuer = s.first issuer := rfl
        rw [hsame,hfirst] at hbalance
        dsimp only
        cases hgrant : ({ s with global := global }.consumeIssuer issuer now).1.granted with
        | true =>
          rw [if_pos hgrant] at hbalance
          simp only [if_true,hconsumed,hrefilled]
          exact ⟨hafter,by omega⟩
        | false =>
          rw [if_neg (by simp [hgrant])] at hbalance
          simp only [Bool.false_eq_true,if_false]
          refine ⟨hafter,?_⟩
          change _+1000*m.tokensConsumed+0+1000*m.tokensRefilled = _+_+_+1000*m.tokensRefilled
          omega

def Verdict.isPassed : Verdict → Bool
  | .passed _ => true
  | _ => false

def Verdict.isRejected : Verdict → Bool
  | .rejected .. => true
  | _ => false

/-- The counters have moved from `m` to `m'` as the verdicts `vs` say. -/
structure Counted (vs : List Verdict) (m m' : RateLimitMetrics) : Prop where
  hits : ∀ issuer, m'.hits issuer = m.hits issuer+vs.count (.passed issuer)
  rejections : ∀ issuer tier,
    m'.rejections issuer tier = m.rejections issuer tier+vs.count (.rejected issuer tier)
  violations : m'.violations = m.violations+vs.countP Verdict.isRejected
  consumed : m'.tokensConsumed = m.tokensConsumed+vs.countP Verdict.isPassed

theorem Counted.append {vs vs' : List Verdict} {m m' m'' : RateLimitMetrics}
    (h : Counted vs m m') (h' : Counted vs' m' m'') : Counted (vs++vs') m m'' where
  hits issuer := by rw [h'.hits,h.hits,List.count_append,Nat.add_assoc]
  rejections issuer tier := by rw [h'.rejections,h.rejections,List.count_append,Nat.add_assoc]
  violations := by rw [h'.violations,h.violations,List.countP_append,Nat.add_assoc]
  consumed := by rw [h'.consumed,h.consumed,List.countP_append,Nat.add_assoc]

theorem counted_success (issuer : String) (outcome : ConsumeOutcome) (m : RateLimitMetrics) :
    Counted [.passed issuer] m (m.recordSuccess issuer outcome) := by
  have hmetrics : (m.recordSuccess issuer outcome).hits =
        Function.update m.hits issuer (m.hits issuer+1) ∧
      (m.recordSuccess issuer outcome).rejections = m.rejections ∧
      (m.recordSuccess issuer outcome).violations = m.violations := by
    simp only [RateLimitMetrics.recordSuccess,RateLimitMetrics.recordTokensRefilled]
    split <;> split <;> exact ⟨rfl,rfl,rfl⟩
  obtain ⟨hhits,hrejections,hviolations⟩ := hmetrics
  refine ⟨fun other => ?_,fun other tier => ?_,?_,?_⟩
  · rw [hhits,Function.update_apply,List.count_singleton]
    by_cases hother : other = issuer
    · simp [hother]
    · simp [hother,Ne.symm hother]
  · rw [hrejections]
    rfl
  · rw [hviolations]
    rfl
  · exact (recordSuccess_tokens issuer outcome m).1

theorem counted_rejection (issuer tier : String) (m : RateLimitMetrics) :
    Counted [.rejected issuer tier] m (m.reject issuer tier).incrementRateLimitViolation := by
  refine ⟨fun _ => rfl,fun other tier' => ?_,rfl,rfl⟩
  change Function.update m.rejections issuer (Function.update (m.rejections issuer) tier
    (m.rejections issuer tier+1)) other tier' = _
  rw [List.count_singleton]
  by_cases hother : other = issuer
  · subst hother
    by_cases htier : tier' = tier
    · simp [htier]
    · simp [htier,Ne.symm htier]
  · simp [hother,Ne.symm hother]

theorem use_counted (u : Use) (w : PerIssuerRateLimiter γ × RateLimitMetrics) :
    Counted [(useMetered G u w).1] w.2 (useMetered G u w).2.2 := by
  have unmoved (v : Verdict) (hv : v = .waiting ∨ v = .nothing) (m : RateLimitMetrics) :
      Counted [v] m m := by
    obtain rfl | rfl := hv <;> exact ⟨fun _ => rfl,fun _ _ => rfl,rfl,rfl⟩
  obtain ⟨s,m⟩ := w
  cases u with
  | status issuer now instant => exact unmoved _ (Or.inr rfl) m
  | evictStale now => exact unmoved _ (Or.inr rfl) m
  | turn issuer now =>
    simp only [useMetered,turnMetered]
    cases (s.consumeIssuer issuer now).1.granted with
    | true => exact counted_success _ _ m
    | false => exact unmoved _ (Or.inl rfl) m
  | check issuer instant later now =>
    simp only [useMetered,checkMetered]
    cases G.check instant s.global with
    | mk result global =>
      cases result with
      | error e => exact counted_rejection issuer "global" m
      | ok v =>
        dsimp only
        cases ({ s with global := global }.consumeIssuer issuer now).1.granted with
        | true => exact counted_success _ _ m
        | false => exact counted_rejection issuer "issuer" m

theorem counted_run (l : List Use) (w : PerIssuerRateLimiter γ × RateLimitMetrics) :
    Counted ((Machine.outputs (useMetered G) l w).map Prod.snd) w.2
      (Machine.final (useMetered G) l w).2 := by
  induction l generalizing w with
  | nil => exact ⟨fun _ => rfl,fun _ _ => rfl,rfl,rfl⟩
  | cons u l ih => exact (use_counted G u w).append (ih _)

theorem balance_run {l : List Use} {w : PerIssuerRateLimiter γ × RateLimitMetrics}
    (hw : w.1.AllWhole config) (htimes : ∀ u∈l, u.now.toNat < 2^32)
    (hissuers : ∀ u∈l, ∀ issuer, u.issuer? = some issuer → issuer∈S) :
    (Machine.final (useMetered G) l w).1.AllWhole config ∧
      (Machine.final (useMetered G) l w).1.heldIn S+
          1000*(Machine.final (useMetered G) l w).2.tokensConsumed+
          Machine.total (useMetered G) (drops S) l w+1000*w.2.tokensRefilled =
        w.1.heldIn S+1000*w.2.tokensConsumed+
          1000*burstUnits config*Machine.total (useMetered G) (creates G) l w+
          1000*(Machine.final (useMetered G) l w).2.tokensRefilled := by
  induction l generalizing w with
  | nil => exact ⟨hw,by simp [Machine.final,Machine.total]⟩
  | cons u l ih =>
    obtain ⟨hafter,hone⟩ := use_balance G S hw (htimes u List.mem_cons_self)
      (hissuers u List.mem_cons_self)
    obtain ⟨hfinal,hrest⟩ := ih hafter (fun v hv => htimes v (List.mem_cons_of_mem _ hv))
      fun v hv => hissuers v (List.mem_cons_of_mem _ hv)
    refine ⟨hfinal,?_⟩
    simp only [Machine.final,Machine.total,Nat.mul_add]
    omega

variable (config) in
/-- The tokens left, consumed and dropped with stale buckets are together the full buckets created
and the tokens counted as refilled, and every request is counted once. -/
theorem tokens_conserved (S : Finset String) (l : List Use)
    (htimes : ∀ u∈l, u.now.toNat < 2^32)
    (hissuers : ∀ u∈l, ∀ issuer, u.issuer? = some issuer → issuer∈S) :
    let start : PerIssuerRateLimiter γ × RateLimitMetrics := (new G config,.new)
    let w := Machine.final (useMetered G) l start
    let verdicts := (Machine.outputs (useMetered G) l start).map Prod.snd
    w.1.heldIn S+1000*w.2.tokensConsumed+Machine.total (useMetered G) (drops S) l start =
        1000*burstUnits config*Machine.total (useMetered G) (creates G) l start+
          1000*w.2.tokensRefilled ∧
      (∀ issuer b, w.1.buckets issuer = some b → 1000 ∣ (wordView b.state).level) ∧
      w.2.tokensConsumed = verdicts.countP Verdict.isPassed ∧
      w.2.violations = verdicts.countP Verdict.isRejected ∧
      (∀ issuer, w.2.hits issuer = verdicts.count (.passed issuer)) ∧
      ∀ issuer tier, w.2.rejections issuer tier = verdicts.count (.rejected issuer tier) := by
  intro start w verdicts
  have hstart : start.1.AllWhole config := ⟨rfl,fun _ b hb => by cases hb⟩
  obtain ⟨hwhole,hbalance⟩ := balance_run G S hstart htimes hissuers
  have hcounted : Counted verdicts start.2 w.2 := counted_run G l start
  have hempty : start.1.heldIn S = 0 := Finset.sum_eq_zero fun _ _ => rfl
  have hnone : start.2.tokensConsumed = 0 ∧ start.2.tokensRefilled = 0 := ⟨rfl,rfl⟩
  rw [hempty,hnone.1,hnone.2] at hbalance
  refine ⟨by simpa using hbalance,fun issuer b hb => (hwhole.whole issuer b hb).whole,?_,?_,?_,?_⟩
  · exact hcounted.consumed.trans (Nat.zero_add _)
  · exact hcounted.violations.trans (Nat.zero_add _)
  · exact fun issuer => (hcounted.hits issuer).trans (Nat.zero_add _)
  · exact fun issuer tier => (hcounted.rejections issuer tier).trans (Nat.zero_add _)

/-- A burst of two, three requests in one second, and an eviction an hour later. -/
theorem tokens_conserved_after_eviction :
    let config : RateLimitConfig := ⟨100,200,1,2,3600,0⟩
    let l : List Use := [.check "a" 0 0 10,.check "a" 0 0 10,.check "a" 0 0 10,.turn "a" 11,
      .evictStale 4000]
    let w := Machine.final (useMetered gcra) l (new gcra config,.new)
    w.1.heldIn {"a"}+1000*w.2.tokensConsumed+
        Machine.total (useMetered gcra) (drops {"a"}) l (new gcra config,.new) =
      2000*Machine.total (useMetered gcra) (creates gcra) l (new gcra config,.new)+
        1000*w.2.tokensRefilled ∧
      w.2.tokensConsumed = 3 := by
  intro config l w
  have h := tokens_conserved gcra config {"a"} l (by decide) (by decide)
  exact ⟨h.1,by decide +kernel⟩

end PerIssuerRateLimiter
end ProofStell.Limiter
