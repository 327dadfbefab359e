import ProofStell.Config.RateLimits

/-! Dropping stale buckets. A dropped bucket comes back full, so the drop goes unnoticed
exactly as long as the bucket had refilled by then; the run is compared with a bucket that
is never dropped. -/
namespace ProofStell.Limiter.PerIssuerRateLimiter
variable {γ : Type} (G : Governor γ) (config : RateLimitConfig) (issuer : String)

def Call.now : Call → UInt64
  | .check _ _ _ now | .status _ now _ | .evictStale now => now

def consumption : Call × Answer → Option (Nat × Bool)
  | (.check i _ _ now,.checked (.ok _)) => if i = issuer then some (now.toNat,true) else none
  | (.check i _ _ now,.checked (.error (.issuerExhausted _ _))) =>
    if i = issuer then some (now.toNat,false) else none
  | _ => none

def passedWithin (t1 t2 : Nat) (run : List (Call × Answer)) : Nat :=
  TokenBucket.grantedWithin t1 t2 (run.filterMap (consumption issuer))

/-- A call that drops the bucket of `issuer` finds it full again. -/
def dropsOnlyFull (s : PerIssuerRateLimiter γ) (call : Call) : Bool :=
  match call, s.buckets issuer with
  | .evictStale now, some b =>
    b.lastSeen ≥ Saturating.sub64 now s.config.issuerTtlSeconds || b.tokensAt now == b.capacityMilli
  | _, _ => true

def burstUnits (config : RateLimitConfig) : Nat := (clampUnits config.perIssuerBurst).toNat

def rateUnits (config : RateLimitConfig) : Nat := (clampUnits config.perIssuerPerSecond).toNat

def request (config : RateLimitConfig) :
    Nat → TokenBucket.Bucket → Bool × TokenBucket.Bucket :=
  TokenBucket.consume (1000*burstUnits config) (1000*rateUnits config) 1000

def full (config : RateLimitConfig) (g : TokenBucket.Bucket) (t : Nat) : Prop :=
  g.refill (1000*burstUnits config) (1000*rateUnits config) t = 1000*burstUnits config

theorem newBucket_holds (now : UInt64) :
    (config.newBucket issuer now).Holds (burstUnits config) (rateUnits config) :=
  AtomicTokenBucket.new_holds _ _ _ _ _

/-- `g` is the bucket of `issuer` as it would be without any drop. -/
structure Remembers (s : PerIssuerRateLimiter γ) (clock : Nat) (g : TokenBucket.Bucket) :
    Prop where
  same : s.config = config
  kept : ∀ b, s.buckets issuer = some b →
    b.Holds (burstUnits config) (rateUnits config) ∧ wordView b.state = g
  dropped : s.buckets issuer = none → full config g clock

theorem Remembers.later {s : PerIssuerRateLimiter γ} {clock now : Nat} {g : TokenBucket.Bucket}
    (h : Remembers config issuer s clock g) (hle : clock ≤ now) :
    Remembers config issuer s now g :=
  ⟨h.same,h.kept,fun hnone => TokenBucket.refill_full (h.dropped hnone) hle⟩

theorem tryConsume_request {b : AtomicTokenBucket}
    (hb : b.Holds (burstUnits config) (rateUnits config)) {now : UInt64}
    (hnow : now.toNat < 2^32) :
    request config now.toNat (wordView b.state) =
      ((b.tryConsume now).1.granted,wordView (b.tryConsume now).2.state) := by
  have halone := b.alone_attempt b.state hnow
  rw [AtomicTokenBucket.abstractStep,hb.capacity,hb.rate] at halone
  exact halone

theorem remembers_request {s : PerIssuerRateLimiter γ} {now : UInt64} {g : TokenBucket.Bucket}
    (h : Remembers config issuer s now.toNat g) (hnow : now.toNat < 2^32) :
    (s.bucketFor issuer now).Holds (burstUnits config) (rateUnits config) ∧
      request config now.toNat g = (((s.bucketFor issuer now).tryConsume now).1.granted,
        wordView ((s.bucketFor issuer now).tryConsume now).2.state) := by
  cases hs : s.buckets issuer with
  | some b =>
    obtain ⟨hb,hg⟩ := h.kept b hs
    have hfor : s.bucketFor issuer now = b := by rw [bucketFor,hs,Option.getD_some]
    rw [hfor,← hg]
    exact ⟨hb,tryConsume_request config hb hnow⟩
  | none =>
    have hfor : s.bucketFor issuer now = config.newBucket issuer now := by
      rw [bucketFor,hs,Option.getD_none,h.same]
    have hb := newBucket_holds config issuer now
    have hcap := hb.capacity
    rw [hfor,← tryConsume_request config hb hnow]
    refine ⟨hb,TokenBucket.consume_congr ?_⟩
    rw [RateLimitConfig.newBucket] at hcap ⊢
    rw [h.dropped hs,AtomicTokenBucket.new_full _ _ _ _ hnow,hcap,TokenBucket.Bucket.refill]
    simp

theorem stale_full {b : AtomicTokenBucket} {now : UInt64}
    (hstale : ¬Saturating.sub64 now config.issuerTtlSeconds ≤ b.lastSeen)
    (hquota : burstUnits config ≤ rateUnits config*(config.issuerTtlSeconds.toNat+1)) :
    full config (wordView b.state) now.toNat := by
  have hlast : b.lastSeen.toNat = (wordView b.state).stamp := by
    rw [AtomicTokenBucket.lastSeen,UInt32.toNat_toUInt64,wordView]
  rw [UInt64.le_iff_toNat_le,Saturating.sub64_toNat,hlast] at hstale
  have hmono : rateUnits config*(config.issuerTtlSeconds.toNat+1) ≤
      rateUnits config*(now.toNat-(wordView b.state).stamp) :=
    Nat.mul_le_mul_left _ (by omega)
  rw [full,TokenBucket.Bucket.refill,Nat.mul_assoc]
  omega

theorem remembers_charged {s : PerIssuerRateLimiter γ} {now : UInt64} {g : TokenBucket.Bucket}
    (h : Remembers config issuer s now.toNat g) (hlt : now.toNat < 2^32) (global : γ) :
    (request config now.toNat g).1 = ((s.bucketFor issuer now).tryConsume now).1.granted ∧
      Remembers config issuer (s.charged issuer now global) now.toNat
        (request config now.toNat g).2 := by
  obtain ⟨hb,hreq⟩ := remembers_request config issuer h hlt
  rw [hreq]
  refine ⟨rfl,h.same,?_,by simp [charged]⟩
  intro b' hb'
  have heq : ((s.bucketFor issuer now).tryConsume now).2 = b' := by simpa [charged] using hb'
  rw [← heq]
  exact ⟨⟨hb.capacity,hb.rate⟩,rfl⟩

theorem remembers_other {s : PerIssuerRateLimiter γ} {clock : Nat} {g : TokenBucket.Bucket}
    (h : Remembers config issuer s clock g) {other : String} (hne : other≠issuer) (now : UInt64)
    (global : γ) : Remembers config issuer (s.charged other now global) clock g := by
  have hsame : (s.charged other now global).buckets issuer = s.buckets issuer :=
    Function.update_of_ne (Ne.symm hne) _ _
  refine ⟨h.same,?_,?_⟩
  · rw [hsame]
    exact h.kept
  · rw [hsame]
    exact h.dropped

/-- A bucket is dropped only when it is full again. -/
theorem remembers_evict {s : PerIssuerRateLimiter γ} {now : UInt64} {g : TokenBucket.Bucket}
    (h : Remembers config issuer s now.toNat g) (hlt : now.toNat < 2^32)
    (hquota : burstUnits config ≤ rateUnits config*(config.issuerTtlSeconds.toNat+1) ∨
      dropsOnlyFull issuer s (.evictStale now) = true) :
    Remembers config issuer (s.evictStale now) now.toNat g := by
  refine ⟨h.same,?_,?_⟩
  · intro b hb
    obtain ⟨hb',_⟩ := Option.filter_eq_some_iff.mp hb
    exact h.kept b hb'
  · intro hnone
    cases hs : s.buckets issuer with
    | none => exact h.dropped hs
    | some b =>
      obtain ⟨hb,hg⟩ := h.kept b hs
      have hstale : ¬Saturating.sub64 now config.issuerTtlSeconds ≤ b.lastSeen := by
        simp only [evictStale,hs,h.same] at hnone
        simpa using hnone
      obtain hquota | hfull := hquota
      · rw [← hg]
        exact stale_full config hstale hquota
      · have htokens : b.tokensAt now = b.capacityMilli := by
          simpa [dropsOnlyFull,hs,h.same,hstale] using hfull
        rw [← hg,full,← hb.capacity,← hb.rate,← b.tokensAt_toNat hlt]
        exact congrArg UInt32.toNat htokens

/-- One call: either it leaves the bucket of `issuer` alone or it is one request to it. -/
theorem remembers_step {s : PerIssuerRateLimiter γ} {clock : Nat} {g : TokenBucket.Bucket}
    (h : Remembers config issuer s clock g) (call : Call) (hle : clock ≤ call.now.toNat)
    (hlt : call.now.toNat < 2^32)
    (hquota : burstUnits config ≤ rateUnits config*(config.issuerTtlSeconds.toNat+1) ∨
      dropsOnlyFull issuer s call = true) :
    (consumption issuer (call,(step G call s).1) = none ∧
      Remembers config issuer (step G call s).2 call.now.toNat g) ∨
    ∃ ok, consumption issuer (call,(step G call s).1) = some (call.now.toNat,ok) ∧
      (request config call.now.toNat g).1 = ok ∧
      Remembers config issuer (step G call s).2 call.now.toNat
        (request config call.now.toNat g).2 := by
  have hnow := h.later config issuer hle
  cases call with
  | check i instant later now =>
    simp only [Call.now] at hlt hnow ⊢
    obtain ⟨earliest,_,heq⟩ | ⟨_,hafter,hanswer⟩ := s.check_spec G i instant later now
    · simp only [step,heq]
      exact Or.inl ⟨rfl,hnow.same,hnow.kept,hnow.dropped⟩
    · by_cases hi : i = issuer
      · subst hi
        obtain ⟨hfirst,hremembers⟩ :=
          remembers_charged config i hnow hlt (G.check instant s.global).2
        rw [← hafter] at hremembers
        right
        obtain ⟨hgranted,hok⟩ | ⟨hgranted,wait,herr⟩ := hanswer
        · exact ⟨true,by simp [step,hok,consumption],hfirst.trans hgranted,hremembers⟩
        · exact ⟨false,by simp [step,herr,consumption],hfirst.trans hgranted,hremembers⟩
      · left
        constructor
        · obtain ⟨_,hok⟩ | ⟨_,wait,herr⟩ := hanswer
          · simp [step,hok,consumption,hi]
          · simp [step,herr,consumption,hi]
        · simp only [step,hafter]
          exact remembers_other config issuer hnow hi now _
  | status i now instant => exact Or.inl ⟨rfl,hnow.same,hnow.kept,hnow.dropped⟩
  | evictStale now => exact Or.inl ⟨rfl,remembers_evict config issuer hnow hlt hquota⟩

def taken (l : List Call) (s : PerIssuerRateLimiter γ) : List (Nat × Bool) :=
  (Machine.outputs (step G) l s).filterMap (consumption issuer)

theorem consumption_time {p : Call × Answer} {q : Nat × Bool}
    (h : consumption issuer p = some q) : q.1 = p.1.now.toNat := by
  rw [consumption.eq_def] at h
  split at h
  · split at h <;> cases h
    rfl
  · split at h <;> cases h
    rfl
  · cases h

theorem taken_times (l : List Call) (s : PerIssuerRateLimiter γ) :
    ((taken G issuer l s).map Prod.fst).Sublist (l.map fun call => call.now.toNat) := by
  induction l generalizing s with
  | nil => exact List.Sublist.slnil
  | cons call l ih =>
    rw [taken,Machine.outputs,List.filterMap_cons,List.map_cons]
    cases h : consumption issuer (call,(step G call s).1) with
    | none => exact (ih _).cons _
    | some q =>
      rw [List.map_cons,consumption_time issuer h]
      exact (ih _).cons_cons _

theorem remembers_run {s : PerIssuerRateLimiter γ} {clock : Nat} {g : TokenBucket.Bucket}
    (h : Remembers config issuer s clock g) {l : List Call}
    (hsorted : (l.map Call.now).Pairwise (· ≤ ·)) (hge : ∀ call∈l, clock ≤ call.now.toNat)
    (hlt : ∀ call∈l, call.now.toNat < 2^32)
    (hquota : burstUnits config ≤ rateUnits config*(config.issuerTtlSeconds.toNat+1) ∨
      Machine.Along (step G) (fun s call => dropsOnlyFull issuer s call = true) l s) :
    Machine.outputs (request config) ((taken G issuer l s).map Prod.fst) g =
      taken G issuer l s := by
  induction l generalizing s clock g with
  | nil => rfl
  | cons call l ih =>
    obtain ⟨hlater,hsorted'⟩ := List.pairwise_cons.mp hsorted
    have hnext : ∀ c∈l, call.now.toNat ≤ c.now.toNat := fun c hc =>
      UInt64.le_iff_toNat_le.mp (hlater c.now (List.mem_map_of_mem hc))
    have hlt' : ∀ c∈l, c.now.toNat < 2^32 := fun c hc => hlt c (List.mem_cons_of_mem call hc)
    have hhead : burstUnits config ≤ rateUnits config*(config.issuerTtlSeconds.toNat+1) ∨
        dropsOnlyFull issuer s call = true := hquota.imp_right And.left
    have htail : burstUnits config ≤ rateUnits config*(config.issuerTtlSeconds.toNat+1) ∨
        Machine.Along (step G) (fun s call => dropsOnlyFull issuer s call = true) l
          (step G call s).2 := hquota.imp_right And.right
    rw [taken,Machine.outputs,List.filterMap_cons]
    obtain ⟨hnone,hkeep⟩ | ⟨ok,hsome,hok,hkeep⟩ := remembers_step G config issuer h call
      (hge call List.mem_cons_self) (hlt call List.mem_cons_self) hhead
    · rw [hnone]
      exact ih hkeep hsorted' hnext hlt' htail
    · rw [hsome]
      simp only [List.map_cons,Machine.outputs,hok]
      exact congrArg _ (ih hkeep hsorted' hnext hlt' htail)

theorem remembers_new :
    Remembers config issuer (new G config) 0 ⟨1000*burstUnits config,0⟩ where
  same := rfl
  kept b hb := by cases hb
  dropped _ := by simp [full,TokenBucket.Bucket.refill]

/-- Eviction grants no extra quota if a bucket refills within the TTL, or at least in every
run in which each dropped bucket was full again. -/
theorem eviction_grants_no_quota {env : Config.Env} {cfg : Config.RateLimits}
    (haccepted : Config.rateLimits env = (cfg,[])) (l : List Call)
    (hclock : (l.map Call.now).Pairwise (· ≤ ·)) (hlt : ∀ call∈l, call.now.toNat < 2^32)
    (hquota : min cfg.perIssuerRateLimitBurst.toNat 4294967 ≤
        cfg.perIssuerRateLimitPerSecond.toNat*(cfg.issuerRateLimitTtlSeconds.toNat+1) ∨
      Machine.Along (step G) (fun s call => dropsOnlyFull issuer s call = true) l
        (new G cfg.fromConfig)) (t1 t2 : Nat) :
    passedWithin issuer t1 t2 (Machine.outputs (step G) l (new G cfg.fromConfig)) ≤
      cfg.perIssuerRateLimitBurst.toNat+cfg.perIssuerRateLimitPerSecond.toNat*(t2-t1) := by
  obtain ⟨hrate,hburst⟩ := Config.accepted_positive haccepted
  have hB : burstUnits cfg.fromConfig = min cfg.perIssuerRateLimitBurst.toNat 4294967 :=
    clampUnits_of_pos hburst
  have hr : rateUnits cfg.fromConfig = min cfg.perIssuerRateLimitPerSecond.toNat 4294967 :=
    clampUnits_of_pos hrate
  have hrun := remembers_run G cfg.fromConfig issuer (remembers_new G cfg.fromConfig issuer) hclock
    (fun _ _ => Nat.zero_le _) hlt (hquota.imp_left fun hq => ?_)
  · have hsorted : (l.map fun call => call.now.toNat).Pairwise (· ≤ ·) := by
      have h := AtomicTokenBucket.pairwise_toNat hclock
      rwa [List.map_map] at h
    have hbound : 1000*TokenBucket.grantedWithin t1 t2 (Machine.outputs (request cfg.fromConfig)
        ((taken G issuer l (new G cfg.fromConfig)).map Prod.fst)
        ⟨1000*burstUnits cfg.fromConfig,0⟩) ≤
        1000*burstUnits cfg.fromConfig+1000*rateUnits cfg.fromConfig*(t2-t1) :=
      TokenBucket.grantedWithin_le
        (hsorted.sublist (taken_times G issuer l (new G cfg.fromConfig))) _
    rw [hrun,Nat.mul_assoc,← Nat.mul_add] at hbound
    have hunits := Nat.le_of_mul_le_mul_left hbound (by decide)
    have hmono : rateUnits cfg.fromConfig*(t2-t1) ≤
        cfg.perIssuerRateLimitPerSecond.toNat*(t2-t1) := Nat.mul_le_mul_right _ (by omega)
    calc
      _ ≤ burstUnits cfg.fromConfig+rateUnits cfg.fromConfig*(t2-t1) := hunits
      _ ≤ _ := by omega
  · rw [hB,hr,Config.RateLimits.fromConfig]
    by_cases hclamp : cfg.perIssuerRateLimitPerSecond.toNat ≤ 4294967
    · rwa [Nat.min_eq_left hclamp]
    · rw [Nat.min_eq_right (Nat.le_of_not_le hclamp)]
      exact (Nat.min_le_right _ _).trans (Nat.le_mul_of_pos_right _ (Nat.succ_pos _))

def fiveTokens (ttl : String) : Config.Env := fun key =>
  [("PER_ISSUER_RATE_LIMIT_PER_SECOND","1"),("PER_ISSUER_RATE_LIMIT_BURST","5"),
    ("ISSUER_RATE_LIMIT_TTL_SECONDS",ttl)].lookup key

theorem eviction_grants_no_quota_with_ttl_four :
    let cfg : Config.RateLimits := ⟨100,100,1,5,4,0⟩
    let l : List Call := [.check "issuer" 0 0 100,.check "issuer" 0 0 100,.evictStale 105,
      .check "issuer" 5000000000 5000000000 105]
    passedWithin "issuer" 100 105 (Machine.outputs (step gcra) l (new gcra cfg.fromConfig)) ≤
      5+1*(105-100) :=
  eviction_grants_no_quota gcra "issuer"
    (show Config.rateLimits (fiveTokens "4") = (⟨100,100,1,5,4,0⟩,[]) by decide +kernel)
    _ (by decide) (by decide) (Or.inl (by decide)) 100 105

/-- A bucket of five tokens is emptied, dropped two seconds later and emptied again. -/
theorem evicted_bucket_comes_back_full :
    ¬∀ (env : Config.Env) (cfg : Config.RateLimits), Config.rateLimits env = (cfg,[]) →
      ∀ (issuer : String) (l : List Call), (l.map Call.now).Pairwise (· ≤ ·) →
        (∀ call∈l, call.now.toNat < 2^32) → ∀ t1 t2,
          passedWithin issuer t1 t2
            (Machine.outputs (step gcra) l (new gcra cfg.fromConfig)) ≤
              cfg.perIssuerRateLimitBurst.toNat+
                cfg.perIssuerRateLimitPerSecond.toNat*(t2-t1) := by
  intro hall
  have hbound := hall (fiveTokens "1") ⟨100,100,1,5,1,0⟩ (by decide +kernel) "issuer"
    (List.replicate 5 (.check "issuer" 0 0 100)++.evictStale 102::
      List.replicate 5 (.check "issuer" 2000000000 2000000000 102)) (by decide) (by decide) 100 102
  revert hbound
  decide +kernel

end ProofStell.Limiter.PerIssuerRateLimiter
