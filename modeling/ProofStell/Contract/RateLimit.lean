import ProofStell.Contract.Effects
import ProofStell.Lib.TokenBucket

/-! The on-chain rate limit over whole runs: every successful document call is a
grant of both of its caller's buckets, so a window lets through no more than a
burst and what accrues. -/
namespace ProofStell.Contract
open Transact TokenBucket
variable {Address Symbol : Type}

def bucket (w : World Address Symbol) (s : RateLimitScope Address) : Option Bucket :=
  (w.storage (.rateLimitState s)).map fun b => ⟨b.tokens.toNat,b.lastRefill.toNat⟩

theorem bucket_congr {w v : World Address Symbol} {s : RateLimitScope Address}
    (h : v.storage (.rateLimitState s) = w.storage (.rateLimitState s)) :
    bucket v s = bucket w s := by
  simp only [bucket]
  rw [h]

/-- Saturation and the `as u32` cast can only lose tokens. -/
theorem refilledTokens_le (b : RateLimitBucketState) (now : UInt64) (capacity perSecond : UInt32) :
    (refilledTokens b now capacity perSecond).toNat ≤ capacity.toNat ∧
      (refilledTokens b now capacity perSecond).toNat ≤
        b.tokens.toNat+perSecond.toNat*(now.toNat-b.lastRefill.toNat) := by
  rw [refilledTokens]
  simp only [UInt32.toNat_min,Saturating.add32_toNat,UInt64.toNat_toUInt32,Saturating.mul64_toNat,
    Saturating.sub64_toNat,UInt32.toNat_toUInt64]
  have hmod := Nat.mod_le
    (min ((now.toNat-b.lastRefill.toNat)*perSecond.toNat) (2^64-1)) (2^32)
  have hcomm := Nat.mul_comm (now.toNat-b.lastRefill.toNat) perSecond.toNat
  omega

variable [DecidableEq Address] [DecidableEq Symbol]

theorem chargeScope_ok {env : Env Address} {config : RateLimitConfig} {s : RateLimitScope Address}
    {w v : World Address Symbol} {u : Unit} (h : chargeScope env config s w = (.ok u,v)) :
    let tokens := refilledTokens (bucketAt w config env.timestamp s) env.timestamp
      (config.limits s).1 (config.limits s).2
    tokens≠0 ∧ v = (w.put (.rateLimitState s)
      (some ⟨Saturating.sub32 tokens 1,env.timestamp⟩)).put (.rateLimitRetryAfter s) none := by
  intro tokens
  simp only [chargeScope,setKey,removeKey] at h
  by_cases h0 : tokens = 0
  · simp [tokens] at h0
    simp [h0] at h
  · simp [tokens] at h0
    simp [h0] at h
    exact ⟨h0,h.symm⟩

theorem chargeScope_grant {env : Env Address} {config : RateLimitConfig}
    {s : RateLimitScope Address} {w v : World Address Symbol} {u : Unit}
    (h : chargeScope env config s w = (.ok u,v)) :
    ∃ b, Grant (config.limits s).1.toNat (config.limits s).2.toNat 1 (bucket w s)
      env.timestamp.toNat b ∧ bucket v s = some b := by
  obtain ⟨hpos,hv⟩ := chargeScope_ok h
  obtain ⟨hcap,hacc⟩ := refilledTokens_le (bucketAt w config env.timestamp s) env.timestamp
    (config.limits s).1 (config.limits s).2
  generalize refilledTokens (bucketAt w config env.timestamp s) env.timestamp
    (config.limits s).1 (config.limits s).2 = tokens at hpos hv hcap hacc
  have htake : (Saturating.sub32 tokens 1).toNat+1 = tokens.toNat := by
    have h0 : tokens.toNat≠0 := fun h0 => hpos (UInt32.toNat_inj.mp h0)
    simp only [Saturating.sub32_toNat,UInt32.toNat_one]
    omega
  refine ⟨⟨(Saturating.sub32 tokens 1).toNat,env.timestamp.toNat⟩,⟨rfl,?_,?_⟩,?_⟩
  · rw [htake]
    exact hcap
  · intro b hb
    rw [htake]
    obtain ⟨st,hst,rfl⟩ := Option.map_eq_some_iff.mp hb
    simpa [bucketAt,hst] using hacc
  · rw [hv,bucket,put_storage_ne _ _ (by simp),put_storage_self]
    rfl

theorem chargeScope_bucket_ne {env : Env Address} {config : RateLimitConfig}
    {s r : RateLimitScope Address} {w v : World Address Symbol} {u : Unit}
    (h : chargeScope env config s w = (.ok u,v)) (hr : r≠s) : bucket v r = bucket w r := by
  obtain ⟨_,hv⟩ := chargeScope_ok h
  apply bucket_congr
  rw [hv,put_storage_ne _ _ (by simp),put_storage_ne _ _ (by simpa using hr)]

theorem checkRateLimit_ok {env : Env Address} {caller issuer : Address}
    {w v : World Address Symbol} {u : Unit} (h : checkRateLimit env caller issuer w = (.ok u,v)) :
    ∃ w', chargeScope env (rateLimitConfig w) (.address caller) w = (.ok (),w') ∧
      chargeScope env (rateLimitConfig w) (.issuer issuer) w' = (.ok (),v) := by
  obtain ⟨config,_,hread,hloop⟩ := Exec.bind_ok.mp h
  simp only [Exec.read_apply,Prod.mk.injEq,Except.ok.injEq] at hread
  obtain ⟨rfl,rfl⟩ := hread
  obtain ⟨_,v',hboth,hp⟩ := Exec.bind_ok.mp hloop
  simp only [Exec.pure_apply,Prod.mk.injEq,true_and] at hp
  subst hp
  obtain ⟨_,w1,_,h1,hrest,_⟩ := Exec.each_cons_ok.mp hboth
  obtain ⟨_,w2,_,h2,hend,_⟩ := Exec.each_cons_ok.mp hrest
  simp only [Exec.each_nil,Exec.pure_apply,Prod.mk.injEq] at hend
  obtain ⟨_,rfl⟩ := hend
  exact ⟨w1,h1,h2⟩

theorem checkRateLimit_grants {env : Env Address} {a : Address} {w v : World Address Symbol}
    {u : Unit} (h : checkRateLimit env a a w = (.ok u,v)) {s : RateLimitScope Address}
    (hs : s = .address a ∨ s = .issuer a) :
    ∃ b, Grant ((rateLimitConfig w).limits s).1.toNat ((rateLimitConfig w).limits s).2.toNat 1
      (bucket w s) env.timestamp.toNat b ∧ bucket v s = some b := by
  obtain ⟨w',h1,h2⟩ := checkRateLimit_ok h
  obtain ⟨b1,hg1,hb1⟩ := chargeScope_grant h1
  obtain ⟨b2,hg2,hb2⟩ := chargeScope_grant h2
  obtain rfl | rfl := hs
  · exact ⟨b1,hg1,(chargeScope_bucket_ne h2 (by simp)).trans hb1⟩
  · rw [chargeScope_bucket_ne h1 (by simp)] at hg2
    exact ⟨b2,hg2,hb2⟩

/-- A document call is the gate followed by a body that only writes documents. -/
theorem perform_gated (env : Env Address) {c : Call Address Symbol} {a : Address}
    (ha : c.issuer = some a) :
    ∃ body : Exec Address Symbol (Value Address),
      perform env c = (do requireAuth env a; checkRateLimit env a a; body) ∧
        ∀ k, (∀ h, k≠.document h) → Exec.Frames (keyView k) body := by
  have blind {k : DataKey Address Symbol} (hk : ∀ h, k≠.document h) (h : Hash) :
      Blind (keyView k) (.document h) :=
    fun w v => put_storage_ne w v (hk h)
  cases c with
  | registerDocument issuer owner h =>
    cases ha
    refine ⟨do return .record (← registerBody env a owner h),?_,fun k hk => ?_⟩
    · simp only [perform,registerDocument,Exec.bind_assoc]
    · exact (registerBody_frames env a owner (blind hk h) fun _ _ => rfl).bind
        fun _ => Exec.frames_pure _ _
  | revokeDocument issuer h =>
    cases ha
    refine ⟨do return .record (← revokeBody a h),?_,fun k hk => ?_⟩
    · simp only [perform,revokeDocument,Exec.bind_assoc]
    · exact (revokeBody_frames a (blind hk h) fun _ _ => rfl).bind fun _ => Exec.frames_pure _ _
  | batchRegisterDocuments issuer ds =>
    cases ha
    refine ⟨do
      Exec.require (!ds.isEmpty) (.error .batchEmpty)
      Exec.require (ds.length ≤ MAX_BATCH_SIZE) (.error .batchTooLarge)
      return .records (← batchRegisterLoop env a ds []),?_,fun k hk => ?_⟩
    · simp only [perform,batchRegisterDocuments,Exec.bind_assoc]
    · refine (Exec.frames_require _ _ _).bind fun _ => ?_
      refine (Exec.frames_require _ _ _).bind fun _ => ?_
      refine Exec.Frames.bind ?_ fun _ => Exec.frames_pure _ _
      rw [batchRegisterLoop_start]
      exact Exec.Frames.each fun d _ =>
        registerBody_frames env a d.owner (blind hk _) fun _ _ => rfl
  | batchRevokeDocuments issuer hs =>
    cases ha
    refine ⟨do
      Exec.require (!hs.isEmpty) (.error .batchEmpty)
      Exec.require (hs.length ≤ MAX_BATCH_SIZE) (.error .batchTooLarge)
      return .records (← batchRevokeLoop a hs []),?_,fun k hk => ?_⟩
    · simp only [perform,batchRevokeDocuments,Exec.bind_assoc]
    · refine (Exec.frames_require _ _ _).bind fun _ => ?_
      refine (Exec.frames_require _ _ _).bind fun _ => ?_
      refine Exec.Frames.bind ?_ fun _ => Exec.frames_pure _ _
      rw [batchRevokeLoop_start]
      exact Exec.Frames.each fun h _ => revokeBody_frames a (blind hk h) fun _ _ => rfl
  | _ => cases ha

theorem invoke_gated {i : Invocation Address Symbol} {w : World Address Symbol} {a : Address}
    (ha : i.call.issuer = some a) (hok : Succeeds i w) :
    ∃ u, checkRateLimit i.env a a w = (.ok (),u) ∧
      ∀ k, (∀ h, k≠.document h) → (invoke i w).2.storage k = u.storage k := by
  obtain ⟨x,hp⟩ := hok.performs
  obtain ⟨body,hbody,hframe⟩ := perform_gated i.env ha
  rw [hbody] at hp
  obtain ⟨_,u,hc,hb⟩ := gated_ok.mp hp
  refine ⟨u,hc,fun k hk => ?_⟩
  have hkeep := hframe k hk u
  rw [hb] at hkeep
  exact hkeep

theorem invoke_grants {i : Invocation Address Symbol} {w : World Address Symbol} {a : Address}
    (ha : i.call.issuer = some a) (hok : Succeeds i w) {s : RateLimitScope Address}
    (hs : s = .address a ∨ s = .issuer a) :
    ∃ b, Grant ((rateLimitConfig w).limits s).1.toNat ((rateLimitConfig w).limits s).2.toNat 1
      (bucket w s) i.env.timestamp.toNat b ∧ bucket (invoke i w).2 s = some b := by
  obtain ⟨u,hc,hkeep⟩ := invoke_gated ha hok
  obtain ⟨b,hg,hu⟩ := checkRateLimit_grants hc hs
  exact ⟨b,hg,(bucket_congr (hkeep _ (by simp))).trans hu⟩

theorem invoke_bucket_other {i : Invocation Address Symbol} {w : World Address Symbol} {a : Address}
    (h : ¬(i.call.issuer = some a ∧ Succeeds i w)) {s : RateLimitScope Address}
    (hs : s = .address a ∨ s = .issuer a) : bucket (invoke i w).2 s = bucket w s := by
  by_cases ha : i.call.issuer = some a
  · have hfail : ¬Succeeds i w := fun hok => h ⟨ha,hok⟩
    rw [invoke_failed hfail]
  · refine bucket_congr (invoke_frames i ?_ w)
    intro hyp
    obtain ⟨b,hb,hsb⟩ := hyp
    refine ha ?_
    obtain rfl | rfl := hs <;> simp_all

/-- Ledger times of the successful document calls by `a` in the run `l` from `w`. -/
def grantedTimes (a : Address) (l : List (Invocation Address Symbol)) (w : World Address Symbol) :
    List UInt64 :=
  (Machine.outputs invoke l w).filterMap fun o =>
    if o.1.call.issuer = some a ∧ o.2.isOk = true then some o.1.env.timestamp else none

def grantedWithin (a : Address) (t1 t2 : UInt64) (l : List (Invocation Address Symbol))
    (w : World Address Symbol) : List UInt64 :=
  (grantedTimes a l w).filter fun t => t1 ≤ t ∧ t ≤ t2

theorem succeeds_iff_isOk (i : Invocation Address Symbol) (w : World Address Symbol) :
    Succeeds i w ↔ (invoke i w).1.isOk = true := by
  rw [Succeeds]
  cases (invoke i w).1 with
  | error e => simp [Except.isOk,Except.toBool]
  | ok x => simp [Except.isOk,Except.toBool]

theorem grantedWithin_cons_granted {a : Address} {t1 t2 : UInt64} {i : Invocation Address Symbol}
    {w : World Address Symbol} (l : List (Invocation Address Symbol))
    (h : i.call.issuer = some a ∧ Succeeds i w) (h1 : t1 ≤ i.env.timestamp)
    (h2 : i.env.timestamp ≤ t2) :
    grantedWithin a t1 t2 (i::l) w =
      i.env.timestamp::grantedWithin a t1 t2 l (invoke i w).2 := by
  have hok := (succeeds_iff_isOk i w).mp h.2
  simp [grantedWithin,grantedTimes,Machine.outputs,h.1,hok,h1,h2]

theorem grantedWithin_cons_other {a : Address} {t1 t2 : UInt64} {i : Invocation Address Symbol}
    {w : World Address Symbol} (l : List (Invocation Address Symbol))
    (h : ¬(i.call.issuer = some a ∧ Succeeds i w) ∨ ¬t1 ≤ i.env.timestamp ∨ ¬i.env.timestamp ≤ t2) :
    grantedWithin a t1 t2 (i::l) w = grantedWithin a t1 t2 l (invoke i w).2 := by
  rw [succeeds_iff_isOk] at h
  simp only [grantedWithin,grantedTimes]
  rw [Machine.outputs,List.filterMap_cons]
  by_cases hg : i.call.issuer = some a ∧ (invoke i w).1.isOk = true
  · have ht : ¬(t1 ≤ i.env.timestamp ∧ i.env.timestamp ≤ t2) := by
      intro hyp
      obtain ⟨h1,h2⟩ := hyp
      obtain h | h | h := h
      · exact h hg
      · exact h h1
      · exact h h2
    simp only [hg,and_self,if_true]
    rw [List.filter_cons_of_neg (by simpa using ht)]
  · simp [hg]

theorem grantedWithin_sublist (a : Address) (t1 t2 : UInt64) (l : List (Invocation Address Symbol))
    (w : World Address Symbol) :
    (grantedWithin a t1 t2 l w).Sublist (l.map fun i => i.env.timestamp) := by
  induction l generalizing w with
  | nil => exact List.Sublist.refl _
  | cons i l ih =>
    by_cases h : (i.call.issuer = some a ∧ Succeeds i w) ∧ t1 ≤ i.env.timestamp ∧
        i.env.timestamp ≤ t2
    · rw [grantedWithin_cons_granted l h.1 h.2.1 h.2.2]
      exact (ih _).cons_cons _
    · rw [grantedWithin_cons_other l (by tauto)]
      exact (ih _).cons _

theorem mem_grantedWithin {a : Address} {t1 t2 t : UInt64} {l : List (Invocation Address Symbol)}
    {w : World Address Symbol} (h : t∈grantedWithin a t1 t2 l w) :
    t1 ≤ t ∧ t ≤ t2 ∧ ∃ i∈l, i.env.timestamp = t := by
  have hm := List.mem_map.mp ((grantedWithin_sublist a t1 t2 l w).mem h)
  have ht := (List.mem_filter.mp h).2
  simp only [decide_eq_true_eq] at ht
  exact ⟨ht.1,ht.2,hm⟩

def Chronological (l : List (Invocation Address Symbol)) : Prop :=
  l.Pairwise fun i j => i.env.timestamp ≤ j.env.timestamp

/-- Before each invocation in the window the limits in force are `config`. -/
def ConfiguredWithin (config : RateLimitConfig) (t1 t2 : UInt64)
    (l : List (Invocation Address Symbol)) (w : World Address Symbol) : Prop :=
  ∀ n i, l[n]? = some i → t1 ≤ i.env.timestamp → i.env.timestamp ≤ t2 →
    rateLimitConfig (run (l.take n) w) = config

theorem ConfiguredWithin.tail {config : RateLimitConfig} {t1 t2 : UInt64}
    {i : Invocation Address Symbol} {l : List (Invocation Address Symbol)}
    {w : World Address Symbol} (h : ConfiguredWithin config t1 t2 (i::l) w) :
    ConfiguredWithin config t1 t2 l (invoke i w).2 :=
  fun n j hj h1 h2 => h (n+1) j (by simpa using hj) h1 h2

theorem grantedWithin_nil_of_late {a : Address} {t1 t2 : UInt64}
    {l : List (Invocation Address Symbol)} (hlate : ∀ i∈l, t2 < i.env.timestamp)
    (w : World Address Symbol) : grantedWithin a t1 t2 l w = [] := by
  refine List.eq_nil_iff_forall_not_mem.mpr fun t ht => ?_
  obtain ⟨_,h2,i,hi,rfl⟩ := mem_grantedWithin ht
  exact UInt64.not_lt.mpr h2 (hlate i hi)

/-- From the start of the window on, the grants of a bucket form one chain. -/
theorem window_grants {config : RateLimitConfig} {a : Address} {t1 t2 : UInt64}
    {s : RateLimitScope Address} (hs : s = .address a ∨ s = .issuer a)
    {l : List (Invocation Address Symbol)} {w : World Address Symbol} (hsort : Chronological l)
    (hlo : ∀ i∈l, t1 ≤ i.env.timestamp) (hconf : ConfiguredWithin config t1 t2 l w) :
    Grants (config.limits s).1.toNat (config.limits s).2.toNat 1 (bucket w s)
      ((grantedWithin a t1 t2 l w).map UInt64.toNat) := by
  induction l generalizing w with
  | nil => exact Grants.nil _
  | cons i l ih =>
    obtain ⟨hlater,hsort'⟩ := List.pairwise_cons.mp hsort
    have h1 := hlo i List.mem_cons_self
    have ih' := ih hsort' (fun j hj => hlo j (List.mem_cons_of_mem i hj)) hconf.tail
    by_cases h2 : i.env.timestamp ≤ t2
    · by_cases hg : i.call.issuer = some a ∧ Succeeds i w
      · obtain ⟨b,hgrant,hb⟩ := invoke_grants hg.1 hg.2 hs
        have hc : rateLimitConfig w = config := hconf 0 i rfl h1 h2
        rw [hc] at hgrant
        rw [hb] at ih'
        rw [grantedWithin_cons_granted l hg h1 h2]
        exact Grants.cons hgrant ih'
      · rw [invoke_bucket_other hg hs] at ih'
        rw [grantedWithin_cons_other l (Or.inl hg)]
        exact ih'
    · have hlate : ∀ j∈i::l, t2 < j.env.timestamp := by
        intro j hj
        obtain rfl | hj := List.mem_cons.mp hj
        · exact UInt64.not_le.mp h2
        · exact UInt64.lt_of_lt_of_le (UInt64.not_le.mp h2) (hlater j hj)
      rw [grantedWithin_nil_of_late hlate]
      exact Grants.nil _

theorem window_count {config : RateLimitConfig} {a : Address} {t1 t2 : UInt64}
    {s : RateLimitScope Address} (hs : s = .address a ∨ s = .issuer a)
    {l : List (Invocation Address Symbol)} {w : World Address Symbol} (hsort : Chronological l)
    (hconf : ConfiguredWithin config t1 t2 l w) :
    (grantedWithin a t1 t2 l w).length ≤
      (config.limits s).1.toNat+(config.limits s).2.toNat*(t2.toNat-t1.toNat) := by
  induction l generalizing w with
  | nil => simp [grantedWithin,grantedTimes,Machine.outputs]
  | cons i l ih =>
    obtain ⟨hlater,hsort'⟩ := List.pairwise_cons.mp hsort
    by_cases h1 : t1 ≤ i.env.timestamp
    · have hlo : ∀ j∈i::l, t1 ≤ j.env.timestamp := by
        intro j hj
        obtain rfl | hj := List.mem_cons.mp hj
        · exact h1
        · exact UInt64.le_trans h1 (hlater j hj)
      have hchain := window_grants hs hsort hlo hconf
      have hasc : ((i::l).map fun i => i.env.timestamp).Pairwise (· ≤ ·) :=
        List.pairwise_map.mpr hsort
      have hbound := Grants.window_bound t1.toNat t2.toNat hchain ?_ ?_ ?_
      · simpa using hbound
      · refine List.pairwise_map.mpr ?_
        exact (hasc.sublist (grantedWithin_sublist a t1 t2 (i::l) w)).imp UInt64.le_iff_toNat_le.mp
      · intro t ht
        obtain ⟨u,hu,rfl⟩ := List.mem_map.mp ht
        exact UInt64.le_iff_toNat_le.mp (mem_grantedWithin hu).1
      · intro t ht
        obtain ⟨u,hu,rfl⟩ := List.mem_map.mp ht
        exact UInt64.le_iff_toNat_le.mp (mem_grantedWithin hu).2.1
    · rw [grantedWithin_cons_other l (Or.inr (Or.inl h1))]
      exact ih hsort' hconf.tail

/-- While the limits stay as they are, an address gets no more document calls through than its
tighter bucket holds and accrues, whatever the buckets held before. -/
theorem rate_limit_bound (l : List (Invocation Address Symbol)) (hsort : Chronological l)
    (w : World Address Symbol) (a : Address) (t1 t2 : UInt64) (config : RateLimitConfig)
    (hconf : ConfiguredWithin config t1 t2 l w) :
    (grantedWithin a t1 t2 l w).length ≤
      min (config.perAddressBurst.toNat+
          config.perAddressPerSecond.toNat*(t2.toNat-t1.toNat))
        (config.perIssuerBurst.toNat+
          config.perIssuerPerSecond.toNat*(t2.toNat-t1.toNat)) := by
  have haddress := window_count (s := .address a) (Or.inl rfl) hsort hconf
  have hissuer := window_count (s := .issuer a) (Or.inr rfl) hsort hconf
  exact le_min haddress hissuer

/-- The admin allows one call and no refill; of two calls at one time one passes. -/
theorem rate_limit_bound_tight :
    let env (t : UInt64) : Env Nat := ⟨t,fun _ => true,fun _ => true⟩
    let config : RateLimitConfig := ⟨0,1,1,5⟩
    let l : List (Invocation Nat Nat) := [⟨env 1,.initializeContract 9⟩,
      ⟨env 1,.setRateLimitConfig 9 config⟩,
      ⟨env 2,.registerDocument 0 5 (Vector.replicate 32 1)⟩,
      ⟨env 2,.registerDocument 0 6 (Vector.replicate 32 2)⟩]
    let w := World.initial Nat Nat (Vector.replicate 32 0)
    grantedWithin 0 2 2 l w = [2] ∧ (grantedWithin 0 2 2 l w).length ≤ min (1+0*0) (5+1*0) := by
  intro env config l w
  have hsort : Chronological l := by
    rw [Chronological]
    decide +kernel
  have hconf : ConfiguredWithin config 2 2 l w := by
    intro n i hi h1 h2
    match n with
    | 0 =>
      cases hi
      exact absurd h1 (by decide)
    | 1 =>
      cases hi
      exact absurd h1 (by decide)
    | 2 => decide +kernel
    | 3 => decide +kernel
    | n+4 => simp [l] at hi
  exact ⟨by decide +kernel,rate_limit_bound l hsort w 0 2 2 config hconf⟩

end ProofStell.Contract
