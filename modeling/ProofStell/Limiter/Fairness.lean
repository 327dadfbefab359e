import ProofStell.Limiter.Accounts
import ProofStell.Limiter.Waits

/-! Waiting for a token. Any number of callers may overtake `until_ready` of one issuer, but only
by taking all that its bucket gains in the meantime. -/
namespace ProofStell.Limiter.PerIssuerRateLimiter
variable {γ : Type} (G : Governor γ) (config : RateLimitConfig) (issuer : String)

/-- What a request of the issuer at `t` would find, in thousandths. -/
def onOffer (s : PerIssuerRateLimiter γ) (t : Nat) : Nat :=
  match s.buckets issuer with
  | some b => (wordView b.state).refill (1000*burstUnits config) (1000*rateUnits config) t
  | none => 1000*burstUnits config

structure Settled (clock : Nat) (s : PerIssuerRateLimiter γ) : Prop where
  whole : s.AllWhole config
  stamps : ∀ i b, s.buckets i = some b → (wordView b.state).stamp ≤ clock

variable {config} {issuer} {s : PerIssuerRateLimiter γ} {clock : Nat}

theorem Settled.later {clock' : Nat} (hs : s.Settled config clock) (h : clock ≤ clock') :
    s.Settled config clock' := ⟨hs.whole,fun i b hb => (hs.stamps i b hb).trans h⟩

variable (issuer) in
theorem Settled.bucketFor (hs : s.Settled config clock) {now : UInt64}
    (hnow : now.toNat < 2^32) (hclock : clock ≤ now.toNat) :
    Whole config (s.bucketFor issuer now) ∧
      (wordView (s.bucketFor issuer now).state).stamp ≤ now.toNat ∧
      ∀ t, onOffer config issuer s t =
        (wordView (s.bucketFor issuer now).state).refill (1000*burstUnits config)
          (1000*rateUnits config) t := by
  obtain ⟨hwhole,hlevel⟩ := hs.whole.bucketFor issuer hnow
  refine ⟨hwhole,?_⟩
  rw [PerIssuerRateLimiter.bucketFor] at hlevel ⊢
  simp only [onOffer]
  cases hb : s.buckets issuer with
  | some b => exact ⟨(hs.stamps issuer b hb).trans hclock,fun _ => rfl⟩
  | none =>
    rw [Option.getD_none]
    rw [hb,Option.getD_none,held,first,hb] at hlevel
    simp only [Option.map_none,Option.getD_none,if_true,Nat.mul_one,Nat.zero_add] at hlevel
    refine ⟨?_,fun t => ?_⟩
    · rw [RateLimitConfig.newBucket,AtomicTokenBucket.new_full _ _ _ _ hnow]
    · rw [TokenBucket.Bucket.refill,hlevel]
      exact (min_eq_left (Nat.le_add_right _ _)).symm

variable (issuer) in
theorem Settled.consumeIssuer (hs : s.Settled config clock) (other : String) {now : UInt64}
    (hnow : now.toNat < 2^32) (hclock : clock ≤ now.toNat) :
    (s.consumeIssuer other now).2.Settled config now.toNat ∧
      ∀ t, now.toNat ≤ t → onOffer config issuer s t ≤
        onOffer config issuer (s.consumeIssuer other now).2 t+
          if (s.consumeIssuer other now).1.granted = true ∧ other = issuer then 1000 else 0 := by
  obtain ⟨hwhole,hstamp,_⟩ := hs.bucketFor other hnow hclock
  obtain ⟨hafter,_⟩ := hwhole.consume hnow
  have hreq := tryConsume_request config hwhole.holds hnow
  have hstamp' : (wordView ((s.bucketFor other now).tryConsume now).2.state).stamp = now.toNat := by
    have hview := congrArg (fun p : Bool × TokenBucket.Bucket => p.2.stamp) hreq
    simp only [request,TokenBucket.consume_stamp] at hview
    exact hview.symm
  have hself : (s.consumeIssuer other now).2.buckets other =
      some ((s.bucketFor other now).tryConsume now).2 := Function.update_self ..
  have hkeep (i : String) (hi : i≠other) :
      (s.consumeIssuer other now).2.buckets i = s.buckets i := Function.update_of_ne hi ..
  refine ⟨⟨⟨hs.whole.same,fun i b hb => ?_⟩,fun i b hb => ?_⟩,fun t ht => ?_⟩
  · by_cases hi : i = other
    · subst hi
      rw [hself,Option.some.injEq] at hb
      exact hb ▸ hafter
    · exact hs.whole.whole i b (hkeep i hi ▸ hb)
  · by_cases hi : i = other
    · subst hi
      rw [hself,Option.some.injEq] at hb
      rw [← hb,hstamp']
    · exact (hs.stamps i b (hkeep i hi ▸ hb)).trans hclock
  · by_cases hi : issuer = other
    · subst hi
      have hoffer := (hs.bucketFor issuer hnow hclock).2.2 t
      have hle := TokenBucket.refill_le_after (B := 1000*burstUnits config)
        (r := 1000*rateUnits config) (c := 1000) hstamp ht
      rw [← request,hreq] at hle
      rw [hoffer]
      simp only [onOffer,hself,and_true]
      refine hle.trans (Nat.add_le_add_left ?_ _)
      have houtcome : (s.consumeIssuer issuer now).1 =
        ((s.bucketFor issuer now).tryConsume now).1 := rfl
      rw [houtcome]
      cases ((s.bucketFor issuer now).tryConsume now).1.granted <;> simp
    · simp only [onOffer,hkeep issuer hi]
      exact Nat.le_add_right _ _

variable (issuer) in
/-- Whatever else is done to the limiter takes at most one token from what is on offer, and that
only if it passes a request of the issuer. -/
theorem Settled.use (hs : s.Settled config clock) {m : RateLimitMetrics} {u : Use}
    (hnow : u.now.toNat < 2^32) (hclock : clock ≤ u.now.toNat) :
    (useMetered G u (s,m)).2.1.Settled config u.now.toNat ∧
      ∀ t, u.now.toNat ≤ t → onOffer config issuer s t ≤
        onOffer config issuer (useMetered G u (s,m)).2.1 t+
          if (useMetered G u (s,m)).1 = .passed issuer then 1000 else 0 := by
  cases u with
  | status other now instant =>
    exact ⟨⟨⟨hs.whole.same,hs.whole.whole⟩,(hs.later hclock).stamps⟩,fun t _ => Nat.le_add_right _ _⟩
  | evictStale now =>
    refine ⟨⟨⟨hs.whole.same,fun i b hb => ?_⟩,fun i b hb => ?_⟩,fun t _ => ?_⟩
    · exact hs.whole.whole i b (Option.filter_eq_some_iff.mp hb).1
    · exact (hs.later hclock).stamps i b (Option.filter_eq_some_iff.mp hb).1
    · cases hb : s.buckets issuer with
      | none => simp [useMetered,onOffer,evictStale,hb]
      | some b =>
        have hleft : (s.evictStale now).buckets issuer = some b ∨
            (s.evictStale now).buckets issuer = none := by
          simp only [evictStale,hb,Option.filter_some]
          split <;> simp
        obtain hleft | hleft := hleft
        · simp [useMetered,onOffer,hb,hleft]
        · simp only [useMetered,onOffer,hb,hleft]
          exact (Nat.min_le_left _ _).trans (Nat.le_add_right _ _)
  | turn other now =>
    have hlt : now.toNat < 2^32 := hnow
    obtain ⟨hafter,hoffer⟩ := hs.consumeIssuer issuer other hlt hclock
    simp only [useMetered,turnMetered,Use.now]
    cases hgrant : (s.consumeIssuer other now).1.granted with
    | true => exact ⟨hafter,by simpa [hgrant] using hoffer⟩
    | false => exact ⟨hafter,by simpa [hgrant] using hoffer⟩
  | check other instant later now =>
    have hlt : now.toNat < 2^32 := hnow
    rcases hG : G.check instant s.global with ⟨result,global⟩
    cases result with
    | error e =>
      simp only [useMetered,checkMetered,hG]
      exact ⟨⟨⟨hs.whole.same,hs.whole.whole⟩,(hs.later hclock).stamps⟩,
        fun t _ => Nat.le_add_right _ _⟩
    | ok v =>
      have hs' : ({ s with global := global } : PerIssuerRateLimiter γ).Settled config clock :=
        ⟨⟨hs.whole.same,hs.whole.whole⟩,hs.stamps⟩
      have hsame : onOffer config issuer { s with global := global } =
        onOffer config issuer s := rfl
      obtain ⟨hafter,hoffer⟩ := hs'.consumeIssuer issuer other hlt hclock
      rw [hsame] at hoffer
      simp only [useMetered,checkMetered,hG,Use.now]
      cases hgrant : ({ s with global := global }.consumeIssuer other now).1.granted with
      | true => exact ⟨hafter,by simpa [hgrant,verdict] using hoffer⟩
      | false => exact ⟨hafter,by simpa [hgrant,verdict] using hoffer⟩

/-- A rejected request has found less than a token, and what is gained from then on is on offer
from then on; the loop asks again a second later. -/
theorem Settled.rejected (hs : s.Settled config clock) {now : UInt64} (hnow : now.toNat < 2^32)
    (hclock : clock ≤ now.toNat) (hreject : (s.consumeIssuer issuer now).1.granted = false) :
    onOffer config issuer s now.toNat < 1000 ∧
      (∀ t, now.toNat ≤ t → min (1000*burstUnits config) (1000*rateUnits config*(t-now.toNat)) ≤
        onOffer config issuer (s.consumeIssuer issuer now).2 t) ∧
      (s.consumeIssuer issuer now).2.nextTokenWait issuer now = 1 := by
  obtain ⟨hwhole,hstamp,hoffer⟩ := hs.bucketFor issuer hnow hclock
  obtain ⟨hafter,hbalance⟩ := hwhole.consume hnow
  have hreq := tryConsume_request config hwhole.holds hnow
  have hself : (s.consumeIssuer issuer now).2.buckets issuer =
      some ((s.bucketFor issuer now).tryConsume now).2 := Function.update_self ..
  have hfalse : ((s.bucketFor issuer now).tryConsume now).1.granted = false := hreject
  rw [hfalse,request,TokenBucket.consume] at hreq
  split at hreq
  · cases hreq
  · next hshort =>
    have hview := (Prod.mk.inj hreq).2
    have hdvd := (hwhole.refill now.toNat).1
    have hzero : (wordView (s.bucketFor issuer now).state).refill (1000*burstUnits config)
        (1000*rateUnits config) now.toNat = 0 :=
      Nat.eq_zero_of_dvd_of_lt hdvd (Nat.lt_of_not_le hshort)
    refine ⟨by rw [hoffer]; omega,fun t ht => ?_,?_⟩
    · simp only [onOffer,hself]
      rw [← hview,hzero,TokenBucket.Bucket.refill]
      simp only
      omega
    · have hunits := clampUnits_pos config.perIssuerBurst
      have hrate := clampUnits_pos config.perIssuerPerSecond
      have hreached : ((s.bucketFor issuer now).tryConsume now).2.Reached now :=
        ⟨⟨_,_,hafter.holds,hunits,hrate⟩,hafter.fits.trans hafter.holds.capacity.ge,
          Or.inl (by rw [← hview])⟩
      have htokens : (((s.bucketFor issuer now).tryConsume now).2.tokensAt now).toNat = 0 := by
        rw [AtomicTokenBucket.tokensAt_toNat _ hnow,hafter.holds.capacity,hafter.holds.rate,
          ← hview,TokenBucket.Bucket.refill,hzero]
        simp
      have hwait := hreached.timeToNextToken_toNat
      rw [htokens,if_neg (by omega)] at hwait
      have hone : ((s.bucketFor issuer now).tryConsume now).2.timeToNextToken now = 1 :=
        UInt64.toNat_inj.mp hwait
      rw [nextTokenWait,hself,Option.map_some,Option.getD_some,hone]
      rfl

/-- A task in `until_ready` past the global quota: the second it sleeps to, unless it is through,
the seconds at which it was rejected, and the requests of its issuer that passed meanwhile. -/
structure Waiting (γ : Type) where
  limiter : PerIssuerRateLimiter γ × RateLimitMetrics
  wake : Option Nat
  rejected : List Nat
  others : Nat

inductive Move where
  | turn (now : UInt64)
  | other (u : Use)
  deriving DecidableEq, Repr

def Move.now : Move → UInt64
  | .turn now => now
  | .other u => u.now

namespace Waiting

def start (limiter : PerIssuerRateLimiter γ × RateLimitMetrics) : Waiting γ := ⟨limiter,some 0,[],0⟩

variable (issuer) in
def step (x : Move) (s : Waiting γ) : Unit × Waiting γ :=
  match x with
  | .turn now =>
    match s.wake with
    | none => ((),s)
    | some wake =>
      if now.toNat < wake then ((),s)
      else
        let (ready,w) := turnMetered issuer now s.limiter
        if ready then ((),{ s with limiter := w, wake := none })
        else
          let wait := max (w.1.nextTokenWait issuer now) 1
          ((),{ s with
            limiter := w
            wake := some (now.toNat+wait.toNat)
            rejected := s.rejected++[now.toNat] })
  | .other u =>
    let (verdict,w) := useMetered G u s.limiter
    ((),{ s with limiter := w, others := s.others+if verdict = .passed issuer then 1 else 0 })

variable (issuer) in
theorem step_turn (now : UInt64) (s : Waiting γ) :
    (step G issuer (.turn now) s).2 = s ∨ ∃ wake, s.wake = some wake ∧ wake ≤ now.toNat ∧
      (((s.limiter.1.consumeIssuer issuer now).1.granted = true ∧
          (step G issuer (.turn now) s).2.limiter.1 = (s.limiter.1.consumeIssuer issuer now).2 ∧
          (step G issuer (.turn now) s).2.wake = none ∧
          (step G issuer (.turn now) s).2.rejected = s.rejected ∧
          (step G issuer (.turn now) s).2.others = s.others) ∨
        ((s.limiter.1.consumeIssuer issuer now).1.granted = false ∧
          (step G issuer (.turn now) s).2 = ⟨((s.limiter.1.consumeIssuer issuer now).2,s.limiter.2),
            some (now.toNat+(max ((s.limiter.1.consumeIssuer issuer now).2.nextTokenWait issuer now)
              1).toNat),s.rejected++[now.toNat],s.others⟩)) := by
  cases hwake : s.wake with
  | none => exact Or.inl (by simp only [step,hwake])
  | some wake =>
    by_cases hasleep : now.toNat < wake
    · exact Or.inl (by simp only [step,hwake,hasleep,if_true])
    · refine Or.inr ⟨wake,rfl,Nat.le_of_not_lt hasleep,?_⟩
      cases hgrant : (s.limiter.1.consumeIssuer issuer now).1.granted with
      | true => simp [step,hwake,hasleep,turnMetered,hgrant]
      | false => simp [step,hwake,hasleep,turnMetered,hgrant]

def gain (config : RateLimitConfig) : Nat := min (burstUnits config) (rateUnits config)

/-- Others have passed for every second the task waited, and since its last rejection at `t` what
the bucket gained is on offer or was taken by the others that passed since then. -/
structure Overtaken (config : RateLimitConfig) (issuer : String) (clock : Nat) (s : Waiting γ) :
    Prop where
  settled : s.limiter.1.Settled config clock
  bound : (s.rejected.length-1)*gain config ≤ s.others
  asleep : ∀ wake, s.wake = some wake → (s.rejected = [] ∧ wake = 0) ∨ ∃ t k,
    s.rejected.getLast? = some t ∧ wake = t+1 ∧ k ≤ s.others ∧
    (s.rejected.length-1)*gain config ≤ k ∧ ∀ u, clock ≤ u →
      min (1000*burstUnits config) (1000*rateUnits config*(u-t)) ≤
        onOffer config issuer s.limiter.1 u+1000*(s.others-k)

theorem Overtaken.later {s : Waiting γ} (hs : s.Overtaken config issuer clock) {clock' : Nat}
    (h : clock ≤ clock') : s.Overtaken config issuer clock' := by
  refine ⟨hs.settled.later h,hs.bound,fun wake hwake => (hs.asleep wake hwake).imp id ?_⟩
  rintro ⟨t,k,hlast,hwake,hk,hbound,hgain⟩
  exact ⟨t,k,hlast,hwake,hk,hbound,fun u hu => hgain u (h.trans hu)⟩

theorem Overtaken.other {s : Waiting γ} (hs : s.Overtaken config issuer clock) {u : Use}
    (hnow : u.now.toNat < 2^32) (hclock : clock ≤ u.now.toNat) :
    (step G issuer (.other u) s).2.Overtaken config issuer u.now.toNat := by
  obtain ⟨hafter,hoffer⟩ := hs.settled.use G issuer (m := s.limiter.2) hnow hclock
  refine ⟨hafter,hs.bound.trans (Nat.le_add_right _ _),fun wake hwake => ?_⟩
  refine (hs.asleep wake hwake).imp id ?_
  rintro ⟨t,k,hlast,hwake,hk,hbound,hgain⟩
  refine ⟨t,k,hlast,hwake,hk.trans (Nat.le_add_right _ _),hbound,fun v hv => ?_⟩
  have hless := hoffer v hv
  have hbefore := hgain v (hclock.trans hv)
  change _ ≤ onOffer config issuer (useMetered G u s.limiter).2.1 v+1000*(s.others+
    (if (useMetered G u s.limiter).1 = .passed issuer then 1 else 0)-k)
  change onOffer config issuer s.limiter.1 v ≤
    onOffer config issuer (useMetered G u s.limiter).2.1 v+
      if (useMetered G u s.limiter).1 = .passed issuer then 1000 else 0 at hless
  split at hless
  · next hpassed =>
    rw [if_pos hpassed]
    omega
  · next hpassed =>
    rw [if_neg hpassed]
    omega

/-- A task that is rejected again was overtaken by all that the bucket gained in a second. -/
theorem Overtaken.gained {s : Waiting γ} (hs : s.Overtaken config issuer clock) {now wake : Nat}
    (hclock : clock ≤ now) (hwake : s.wake = some wake) (hawake : wake ≤ now)
    (hshort : onOffer config issuer s.limiter.1 now < 1000) :
    s.rejected.length*gain config ≤ s.others := by
  obtain ⟨hnone,_⟩ | ⟨t,k,hlast,rfl,hk,hbound,hgain⟩ := hs.asleep wake hwake
  · rw [hnone,List.length_nil,Nat.zero_mul]
    exact Nat.zero_le _
  · have hseconds : 1000*rateUnits config*1 ≤ 1000*rateUnits config*(now-t) :=
      Nat.mul_le_mul_left _ (by omega)
    have htaken := hgain now hclock
    have hmin : gain config ≤ burstUnits config ∧ gain config ≤ rateUnits config :=
      ⟨Nat.min_le_left _ _,Nat.min_le_right _ _⟩
    have hone : gain config ≤ s.others-k := by omega
    cases hrejected : s.rejected.length with
    | zero =>
      rw [Nat.zero_mul]
      exact Nat.zero_le _
    | succ n =>
      rw [hrejected,Nat.add_sub_cancel] at hbound
      rw [Nat.succ_mul]
      omega

theorem Overtaken.turn {s : Waiting γ} (hs : s.Overtaken config issuer clock) {now : UInt64}
    (hnow : now.toNat < 2^32) (hclock : clock ≤ now.toNat) :
    (step G issuer (.turn now) s).2.Overtaken config issuer now.toNat := by
  obtain ⟨hafter,_⟩ := hs.settled.consumeIssuer issuer issuer hnow hclock
  obtain hsame | ⟨wake,hwake,hawake,h⟩ := step_turn G issuer now s
  · rw [hsame]
    exact hs.later hclock
  · obtain ⟨_,hlimiter,hthrough,hrejected,hothers⟩ | ⟨hreject,hstep⟩ := h
    · refine ⟨hlimiter ▸ hafter,?_,fun _ h => ?_⟩
      · rw [hrejected,hothers]
        exact hs.bound
      · rw [hthrough] at h
        cases h
    · obtain ⟨hshort,hgain,hwait⟩ := hs.settled.rejected hnow hclock hreject
      have hovertaken := hs.gained hclock hwake hawake hshort
      have hlength : (s.rejected++[now.toNat]).length-1 = s.rejected.length := by simp
      rw [hstep,hwait]
      refine ⟨hafter,hlength ▸ hovertaken,fun wake' hwake' => Or.inr ⟨now.toNat,s.others,
        List.getLast?_concat,(Option.some.inj hwake').symm,le_refl _,hlength ▸ hovertaken,
        fun u hu => ?_⟩⟩
      exact (hgain u hu).trans (Nat.le_add_right _ _)

theorem Overtaken.run {s : Waiting γ} (hs : s.Overtaken config issuer clock) {l : List Move}
    (hnow : ∀ x∈l, x.now.toNat < 2^32) (hsorted : l.Pairwise fun x y => x.now ≤ y.now)
    (hclock : ∀ x∈l, clock ≤ x.now.toNat) :
    ∃ clock', (Machine.final (step G issuer) l s).Overtaken config issuer clock' := by
  induction l generalizing s clock with
  | nil => exact ⟨clock,hs⟩
  | cons x l ih =>
    obtain ⟨hlater,hsorted'⟩ := List.pairwise_cons.mp hsorted
    have hone : (step G issuer x s).2.Overtaken config issuer x.now.toNat := by
      cases x with
      | turn now => exact hs.turn G (hnow _ List.mem_cons_self) (hclock _ List.mem_cons_self)
      | other u => exact hs.other G (hnow _ List.mem_cons_self) (hclock _ List.mem_cons_self)
    exact ih hone (fun y hy => hnow y (List.mem_cons_of_mem _ hy)) hsorted'
      fun y hy => UInt64.le_iff_toNat_le.mp (hlater y hy)

end Waiting

theorem settled_run {w : PerIssuerRateLimiter γ × RateLimitMetrics}
    (hw : w.1.Settled config clock) {l : List Use} (hnow : ∀ u∈l, u.now.toNat < 2^32)
    (hsorted : l.Pairwise fun u v => u.now ≤ v.now) (hclock : ∀ u∈l, clock ≤ u.now.toNat) :
    ∃ clock', (Machine.final (useMetered G) l w).1.Settled config clock' ∧
      ∀ t, clock ≤ t → (∀ u∈l, u.now.toNat ≤ t) → clock' ≤ t := by
  induction l generalizing w clock with
  | nil => exact ⟨clock,hw,fun _ h _ => h⟩
  | cons u l ih =>
    obtain ⟨hlater,hsorted'⟩ := List.pairwise_cons.mp hsorted
    have hone := (hw.use G "" (m := w.2) (hnow u List.mem_cons_self)
      (hclock u List.mem_cons_self)).1
    obtain ⟨clock',hfinal,hle⟩ := ih (w := (useMetered G u w).2) hone
      (fun v hv => hnow v (List.mem_cons_of_mem _ hv)) hsorted'
      fun v hv => UInt64.le_iff_toNat_le.mp (hlater v hv)
    exact ⟨clock',hfinal,fun t _ ht => hle t (ht u List.mem_cons_self)
      fun v hv => ht v (List.mem_cons_of_mem _ hv)⟩

variable (config issuer) in
/-- Whatever others do, all but one of the turns in which a task in `until_ready` was rejected are
paid for by other requests of its issuer that passed meanwhile. -/
theorem waits_only_if_overtaken (before : List Use) (l : List Move)
    (hnow : ∀ x∈before.map Move.other++l, x.now.toNat < 2^32)
    (hsorted : (before.map Move.other++l).Pairwise fun x y => x.now ≤ y.now) :
    let w := Machine.final (useMetered G) before (new G config,.new)
    let s := Machine.final (Waiting.step G issuer) l (.start w)
    s.rejected.length ≤ s.others/Waiting.gain config+1 ∧
      ∀ wake, s.wake = some wake → wake = (s.rejected.getLast?.map (·+1)).getD 0 := by
  intro w s
  obtain ⟨hbefore,hl,hbetween⟩ := List.pairwise_append.mp hsorted
  have hfresh : (new G config).Settled config 0 :=
    ⟨⟨rfl,fun _ b hb => by cases hb⟩,fun _ b hb => by cases hb⟩
  obtain ⟨clock,hsettled,hle⟩ := settled_run G (w := (new G config,.new)) hfresh
    (fun u hu => hnow _ (List.mem_append_left _ (List.mem_map_of_mem hu)))
    (hbefore.of_map Move.other fun _ _ h => h) fun _ _ => Nat.zero_le _
  have hstart : (Waiting.start w).Overtaken config issuer clock :=
    ⟨hsettled,by simp [Waiting.start],fun wake hwake =>
      Or.inl ⟨rfl,(Option.some.inj hwake).symm⟩⟩
  obtain ⟨_,hs⟩ := hstart.run G (fun x hx => hnow x (List.mem_append_right _ hx)) hl
    fun x hx => hle _ (Nat.zero_le _) fun u hu =>
      UInt64.le_iff_toNat_le.mp (hbetween _ (List.mem_map_of_mem hu) x hx)
  have hgain : 0 < Waiting.gain config := by
    have hunits := clampUnits_pos config.perIssuerBurst
    have hrate := clampUnits_pos config.perIssuerPerSecond
    exact lt_min hunits hrate
  refine ⟨?_,fun wake hwake => ?_⟩
  · have hquot : s.rejected.length-1 ≤ s.others/Waiting.gain config :=
      (Nat.le_div_iff_mul_le hgain).mpr hs.bound
    exact Nat.le_add_of_sub_le hquot
  · obtain ⟨hnone,hzero⟩ | ⟨t,_,hlast,hwake,_⟩ := hs.asleep wake hwake
    · change s.rejected = [] at hnone
      rw [hnone,hzero]
      rfl
    · change s.rejected.getLast? = some t at hlast
      rw [hlast,hwake]
      rfl

/-- Two others drain a bucket of one token a second; the task gets the third token. -/
theorem waits_only_if_overtaken_twice :
    let config : RateLimitConfig := ⟨100,200,1,1,3600,0⟩
    let l : List Move := [.turn 10,.other (.check "a" 0 0 11),.turn 11,.turn 12]
    let w := Machine.final (useMetered gcra) [.check "a" 0 0 10] (new gcra config,.new)
    let s := Machine.final (Waiting.step gcra "a") l (.start w)
    s.rejected = [10,11] ∧ s.wake = none ∧
      s.rejected.length ≤ s.others/Waiting.gain config+1 := by
  intro config l w s
  exact ⟨by decide +kernel,by decide +kernel,(waits_only_if_overtaken gcra config "a"
    [.check "a" 0 0 10] l (by decide) (by decide)).1⟩

end ProofStell.Limiter.PerIssuerRateLimiter
