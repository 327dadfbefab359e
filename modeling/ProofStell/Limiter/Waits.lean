import ProofStell.Limiter.Exact

/-! What a bucket says about the time ahead: when the next token is there and when it is full
again. -/
namespace ProofStell.Limiter.AtomicTokenBucket

def accrued (b : AtomicTokenBucket) (now : UInt64) : Nat :=
  (wordView b.state).level+b.refillMilliPerSec.toNat*(now.toNat-(wordView b.state).stamp)

/-- The sum in `refilled` stays within 64 bits, or there is nothing to add to the product. -/
def RefillFits (b : AtomicTokenBucket) (now : UInt64) : Prop :=
  (wordView b.state).level = 0 ∨ b.accrued now < 2^64

def fullFrom (b : AtomicTokenBucket) (now : UInt64) : Nat :=
  now.toNat+(b.capacityMilli.toNat-b.accrued now+b.refillMilliPerSec.toNat-1)/
    b.refillMilliPerSec.toNat

/-- The sum in `reset_at` stays within 64 bits. -/
def ResetFits (b : AtomicTokenBucket) (now : UInt64) : Prop :=
  b.fullFrom now+b.jitterOffset.toNat < 2^64

theorem refill_eq (b : AtomicTokenBucket) (now : UInt64) :
    (wordView b.state).refill b.capacityMilli.toNat b.refillMilliPerSec.toNat now.toNat =
      min b.capacityMilli.toNat (b.accrued now) := rfl

theorem tokensAt_eq (b : AtomicTokenBucket) (now : UInt64) : (b.tokensAt now).toNat =
    min (((wordView b.state).level+min (b.refillMilliPerSec.toNat*
      (now.toNat-(wordView b.state).stamp)) (2^64-1))%2^64) b.capacityMilli.toNat := by
  have hc := b.capacityMilli.toNat_lt
  simp only [tokensAt,refilled,wordView,UInt64.toNat_toUInt32,Saturating.min64_toNat,
    UInt64.toNat_add,UInt32.toNat_toUInt64,Saturating.mul64_toNat,Saturating.sub64_toNat]
  rw [Nat.mul_comm (now.toNat-_)]
  omega

theorem tokensAt_of_fits {b : AtomicTokenBucket} {now : UInt64} (h : b.RefillFits now) :
    (b.tokensAt now).toNat = min b.capacityMilli.toNat (b.accrued now) := by
  have hc := b.capacityMilli.toNat_lt
  rw [tokensAt_eq]
  rw [RefillFits,accrued] at h
  rw [accrued]
  omega

/-- The sum that wraps takes tokens away. -/
theorem tokensAt_of_not_fits {b : AtomicTokenBucket} {now : UInt64} (h : ¬b.RefillFits now) :
    (b.tokensAt now).toNat < (wordView b.state).level := by
  have hlevel : (wordView b.state).level < 2^32 := (unpack b.state).2.toNat_lt
  rw [tokensAt_eq]
  rw [RefillFits,accrued] at h
  omega

theorem accrued_split {b : AtomicTokenBucket} {now t : UInt64}
    (hstamp : (wordView b.state).stamp ≤ now.toNat) (hnow : now.toNat ≤ t.toNat) :
    b.accrued t = b.accrued now+b.refillMilliPerSec.toNat*(t.toNat-now.toNat) := by
  rw [accrued,accrued,TokenBucket.accrual_split hstamp hnow,Nat.add_assoc]

theorem RefillFits.earlier {b : AtomicTokenBucket} {now t : UInt64} (h : b.RefillFits t)
    (hnow : now ≤ t) : b.RefillFits now := by
  have hmul : b.refillMilliPerSec.toNat*(now.toNat-(wordView b.state).stamp) ≤
      b.refillMilliPerSec.toNat*(t.toNat-(wordView b.state).stamp) :=
    Nat.mul_le_mul_left _ (Nat.sub_le_sub_right (UInt64.le_iff_toNat_le.mp hnow) _)
  rw [RefillFits,accrued] at h ⊢
  omega

/-- What calls before 2106 leave of a new bucket, seen at a time that is not before them. -/
structure Reached (b : AtomicTokenBucket) (now : UInt64) : Prop where
  whole : ∃ B r, b.Holds B r ∧ 0 < B ∧ 0 < r
  level : (wordView b.state).level ≤ b.capacityMilli.toNat
  stamp : (wordView b.state).stamp ≤ now.toNat ∨ (wordView b.state).level = b.capacityMilli.toNat

theorem Reached.units {b : AtomicTokenBucket} {now : UInt64} (h : b.Reached now) :
    1000 ≤ b.capacityMilli.toNat ∧ 1000 ≤ b.refillMilliPerSec.toNat := by
  obtain ⟨B,r,hholds,hB,hr⟩ := h.whole
  rw [hholds.capacity,hholds.rate]
  omega

theorem reached_afterCalls (burst perSecond : UInt32) (jitterSeconds : UInt64) (issuer : String)
    (created : UInt64) {ts : List UInt64} {now : UInt64} (hlt : ∀ t∈ts, t.toNat < 2^32)
    (hnow : ∀ t∈ts, t ≤ now) :
    ((new burst perSecond jitterSeconds issuer created).afterCalls ts).Reached now := by
  have hholds := new_holds burst perSecond jitterSeconds issuer created
  have hB := clampUnits_pos burst
  suffices hword : (wordView ((new burst perSecond jitterSeconds issuer created).afterCalls
      ts).state).level ≤ ((new burst perSecond jitterSeconds issuer created).afterCalls
        ts).capacityMilli.toNat ∧ _ from
    ⟨⟨_,_,hholds.afterCalls ts,hB,clampUnits_pos perSecond⟩,hword.1,hword.2⟩
  obtain rfl | ⟨us,t,rfl⟩ := List.eq_nil_or_concat ts
  · have hfull : (wordView (new burst perSecond jitterSeconds issuer created).state).level =
        (new burst perSecond jitterSeconds issuer created).capacityMilli.toNat := by
      simp only [new,wordView,unpack_pack]
    exact ⟨hfull.le,Or.inr hfull⟩
  · rw [List.concat_eq_append] at hlt hnow ⊢
    have ht : t ≤ now := hnow t (by simp)
    rw [afterCalls_view _ hlt,List.map_append,List.map_singleton,Machine.final_snoc,
      afterCalls_capacityMilli]
    refine ⟨(TokenBucket.consume_level_lt (by decide) ?_ _ _).le,Or.inl ?_⟩
    · rw [hholds.capacity]
      omega
    · rw [abstractStep,TokenBucket.consume_stamp]
      exact UInt64.le_iff_toNat_le.mp ht

/-- The reports against the calls to come: a call is rejected until the wait is over and granted
then, and the bucket is full at the reported time, less the jitter, and not before. -/
structure ReportsExact (b : AtomicTokenBucket) (now : UInt64) : Prop where
  wait : ∀ us : List UInt64, us.Pairwise (· ≤ ·) →
    (∀ u∈us, now ≤ u ∧ u.toNat < now.toNat+(b.timeToNextToken now).toNat) →
    (∀ call∈b.calls us, call.2.granted = false) ∧
      ∃ t : UInt64, t.toNat = now.toNat+(b.timeToNextToken now).toNat ∧
        (tryConsume t (b.afterCalls us)).1.granted = true
  reset : ∃ t : UInt64, now ≤ t ∧ b.tokensAt t = b.capacityMilli ∧
    (∀ u, now ≤ u → b.tokensAt u = b.capacityMilli → t ≤ u) ∧
    (b.snapshot now).2.toNat = t.toNat+b.jitterOffset.toNat

structure Short (b : AtomicTokenBucket) (now : UInt64) : Prop where
  accrued : b.accrued now < 1000
  stamp : (wordView b.state).stamp ≤ now.toNat
  secs : now.toNat < 2^32

theorem Short.granted_next {b : AtomicTokenBucket} {now t : UInt64} (h : b.Short now)
    (hC : 1000 ≤ b.capacityMilli.toNat) (hR : 1000 ≤ b.refillMilliPerSec.toNat)
    (ht : t.toNat = now.toNat+1) : (tryConsume t b).1.granted = true := by
  have hr := b.refillMilliPerSec.toNat_lt
  have hshort := h.accrued
  have hgrow : b.accrued t = b.accrued now+b.refillMilliPerSec.toNat := by
    rw [accrued_split h.stamp (by omega),ht,Nat.add_sub_cancel_left,Nat.mul_one]
  rw [granted_iff,tokensAt_of_fits (Or.inr (by rw [hgrow]; omega)),hgrow]
  omega

theorem Short.idle {b : AtomicTokenBucket} {now : UInt64} (h : b.Short now)
    (hC : 1000 ≤ b.capacityMilli.toNat) {us : List UInt64} (hus : ∀ u∈us, u = now) :
    (∀ call∈b.calls us, call.2.granted = false) ∧ (b.afterCalls us).Short now := by
  have hall : ∀ v∈us.map (·.toNat), v = now.toNat := by
    intro v hv
    obtain ⟨u,hu,rfl⟩ := List.mem_map.mp hv
    rw [hus u hu]
  have hlt : ∀ u∈us, u.toNat < 2^32 := fun u hu => by
    rw [hus u hu]
    exact h.secs
  have hsorted : (us.map (·.toNat)).Pairwise (· ≤ ·) :=
    List.pairwise_of_forall_mem_list fun v hv w hw => by rw [hall v hv,hall w hw]
  have hshort := h.accrued
  obtain ⟨hrejected,hkeeps⟩ := TokenBucket.idle_run (B := b.capacityMilli.toNat)
    (r := b.refillMilliPerSec.toNat) (c := 1000) (b := wordView b.state) hsorted
    (fun v hv => (hall v hv).symm ▸ h.stamp) fun v hv => by
      rw [hall v hv,refill_eq]
      omega
  have hview := b.afterCalls_view hlt
  have hheld := hkeeps now.toNat fun v hv => (hall v hv).le
  rw [show TokenBucket.consume _ _ 1000 = b.abstractStep from rfl,← hview,refill_eq] at hheld
  refine ⟨fun call hcall => ?_,⟨?_,?_,h.secs⟩⟩
  · refine hrejected (Prod.map UInt64.toNat ConsumeOutcome.granted call) ?_
    have hmem := List.mem_map_of_mem (f := Prod.map UInt64.toNat ConsumeOutcome.granted) hcall
    rwa [← b.calls_view hlt] at hmem
  · have hcapped : min b.capacityMilli.toNat ((b.afterCalls us).accrued now) =
        min b.capacityMilli.toNat (b.accrued now) := by
      rw [← hheld,AtomicTokenBucket.accrued,afterCalls_refillMilliPerSec]
      rfl
    omega
  · rw [hview]
    exact TokenBucket.final_stamp_le h.stamp fun v hv => (hall v hv).le

section
variable {b : AtomicTokenBucket} {now : UInt64} (h : b.Reached now)
include h

theorem Reached.full_iff (hfits : b.RefillFits now) {t : UInt64} (hnow : now ≤ t)
    (ht : t.toNat ≤ b.fullFrom now) :
    b.tokensAt t = b.capacityMilli ↔ b.fullFrom now ≤ t.toNat := by
  obtain ⟨hC,hR⟩ := h.units
  have hc := b.capacityMilli.toNat_lt
  have hr := b.refillMilliPerSec.toNat_lt
  have hle := UInt64.le_iff_toNat_le.mp hnow
  rw [← UInt32.toNat_inj]
  by_cases hfull : b.capacityMilli.toNat ≤ b.accrued now
  · have hnone : (b.capacityMilli.toNat-b.accrued now+b.refillMilliPerSec.toNat-1)/
        b.refillMilliPerSec.toNat = 0 := Nat.div_eq_of_lt (by omega)
    rw [fullFrom,hnone] at ht ⊢
    have htnow : t = now := UInt64.toNat_inj.mp (by omega)
    rw [htnow,tokensAt_of_fits hfits]
    omega
  · have hstamp : (wordView b.state).stamp ≤ now.toNat := by
      refine h.stamp.resolve_right fun hlevel => hfull ?_
      rw [accrued]
      omega
    have hiff := TokenBucket.le_refill_iff (c := b.capacityMilli.toNat) (b := wordView b.state)
      (by omega : 0 < b.refillMilliPerSec.toNat) le_rfl hstamp hle
    have hdeficit : b.capacityMilli.toNat-min b.capacityMilli.toNat (b.accrued now) =
        b.capacityMilli.toNat-b.accrued now := by omega
    rw [refill_eq,refill_eq,hdeficit] at hiff
    have hsmall : b.accrued t < 2^64 := by
      have hmul : b.refillMilliPerSec.toNat*(t.toNat-now.toNat) ≤
          b.capacityMilli.toNat-b.accrued now+b.refillMilliPerSec.toNat-1 := by
        refine le_trans (Nat.mul_le_mul_left _ ?_) (Nat.mul_div_le _ b.refillMilliPerSec.toNat)
        rw [fullFrom] at ht
        omega
      rw [accrued_split hstamp hle]
      omega
    rw [tokensAt_of_fits (Or.inr hsmall),fullFrom,← hiff]
    omega

theorem Reached.fullFrom_le (hfits : b.RefillFits now) {t : UInt64} (hnow : now ≤ t)
    (hfull : b.tokensAt t = b.capacityMilli) : b.fullFrom now ≤ t.toNat := by
  by_contra hearly
  exact hearly ((h.full_iff hfits hnow (by omega)).mp hfull)

theorem Reached.full_at (hfits : b.RefillFits now) (hlt : b.fullFrom now < 2^64) :
    ∃ t : UInt64, t.toNat = b.fullFrom now ∧ now ≤ t ∧ b.tokensAt t = b.capacityMilli := by
  have hsec : (UInt64.ofNat (b.fullFrom now)).toNat = b.fullFrom now :=
    UInt64.toNat_ofNat_of_lt' hlt
  have hnow : now ≤ UInt64.ofNat (b.fullFrom now) := by
    rw [UInt64.le_iff_toNat_le,hsec]
    exact Nat.le_add_right _ _
  exact ⟨_,hsec,hnow,(h.full_iff hfits hnow hsec.le).mpr hsec.ge⟩

theorem Reached.snapshot_toNat (hfits : b.RefillFits now) :
    (b.snapshot now).2.toNat = (b.fullFrom now+b.jitterOffset.toNat)%2^64 := by
  obtain ⟨B,r,hholds,hB,hr⟩ := h.whole
  have hreset : (b.snapshot now).2 = now+b.secsToFull (b.tokensAt now)+b.jitterOffset := rfl
  have hdeficit : b.capacityMilli.toNat-min b.capacityMilli.toNat (b.accrued now) =
      b.capacityMilli.toNat-b.accrued now := by omega
  rw [hreset,UInt64.toNat_add,UInt64.toNat_add,secsToFull_toNat hholds hr,tokensAt_of_fits hfits,
    ← hholds.capacity,← hholds.rate,hdeficit,Nat.mod_add_mod,fullFrom]

/-- The reset report is exact when neither sum wraps. -/
theorem Reached.reset_exact_iff :
    (∃ t : UInt64, now ≤ t ∧ b.tokensAt t = b.capacityMilli ∧
      (∀ u, now ≤ u → b.tokensAt u = b.capacityMilli → t ≤ u) ∧
      (b.snapshot now).2.toNat = t.toNat+b.jitterOffset.toNat) ↔
      b.RefillFits now ∧ b.ResetFits now := by
  constructor
  · rintro ⟨t,hnow,hfull,hleast,hreport⟩
    have hlt := (b.snapshot now).2.toNat_lt
    have hfits : b.RefillFits now := by
      refine RefillFits.earlier (t := t) ?_ hnow
      by_contra hover
      have hless := tokensAt_of_not_fits hover
      have hlevel := h.level
      rw [hfull] at hless
      omega
    refine ⟨hfits,?_⟩
    have hlate := h.fullFrom_le hfits hnow hfull
    obtain ⟨t',ht',hnow',hfull'⟩ := h.full_at hfits (lt_of_le_of_lt hlate t.toNat_lt)
    have hearly := UInt64.le_iff_toNat_le.mp (hleast t' hnow' hfull')
    rw [ResetFits]
    omega
  · rintro ⟨hfits,hreset⟩
    rw [ResetFits] at hreset
    obtain ⟨t,ht,hnow,hfull⟩ := h.full_at hfits (by omega)
    refine ⟨t,hnow,hfull,fun u hu hfull => ?_,?_⟩
    · rw [UInt64.le_iff_toNat_le,ht]
      exact h.fullFrom_le hfits hu hfull
    · rw [h.snapshot_toNat hfits,ht,Nat.mod_eq_of_lt hreset]

theorem Reached.timeToNextToken_toNat : (b.timeToNextToken now).toNat =
    if 1000 ≤ (b.tokensAt now).toNat then 0 else 1 := by
  obtain ⟨_,hR⟩ := h.units
  have hmilli : MILLI.toUInt32.toNat = 1000 := rfl
  have hmilli64 : MILLI.toNat = 1000 := rfl
  have hne : b.refillMilliPerSec≠0 := by
    intro hzero
    rw [hzero,UInt32.toNat_zero] at hR
    omega
  simp only [timeToNextToken,ge_iff_le,UInt32.le_iff_toNat_le,hmilli]
  split
  · rfl
  · next hlow =>
    have hsub : (MILLI-(b.tokensAt now).toUInt64).toNat = 1000-(b.tokensAt now).toNat := by
      rw [UInt64.toNat_sub_of_le,hmilli64,UInt32.toNat_toUInt64]
      rw [UInt64.le_iff_toNat_le,hmilli64,UInt32.toNat_toUInt64]
      omega
    have hone : resetAt.divCeil (MILLI-(b.tokensAt now).toUInt64)
        b.refillMilliPerSec.toUInt64 ≤ 1 := by
      rw [UInt64.le_iff_toNat_le,divCeil_toNat (by rw [UInt32.toNat_toUInt64]; omega),hsub,
        UInt32.toNat_toUInt64,UInt64.toNat_one]
      refine Nat.lt_succ_iff.mp ((Nat.div_lt_iff_lt_mul (by omega)).mpr ?_)
      omega
    exact congrArg UInt64.toNat (if_pos hone)

theorem Reached.short (hfits : b.RefillFits now) (hlow : (b.tokensAt now).toNat < 1000) :
    b.Short now := by
  obtain ⟨hC,hR⟩ := h.units
  have hword : (wordView b.state).stamp < 2^32 := (unpack b.state).1.toNat_lt
  rw [tokensAt_of_fits hfits] at hlow
  have haccrued : b.accrued now < 1000 := by omega
  refine ⟨haccrued,h.stamp.resolve_right fun hlevel => ?_,?_⟩
  · rw [accrued] at haccrued
    omega
  · by_contra hlate
    have hmul : b.refillMilliPerSec.toNat*1 ≤
        b.refillMilliPerSec.toNat*(now.toNat-(wordView b.state).stamp) :=
      Nat.mul_le_mul_left _ (by omega)
    rw [accrued] at haccrued
    omega

theorem Reached.wait_exact (hfits : b.RefillFits now) {us : List UInt64}
    (hus : ∀ u∈us, now ≤ u ∧ u.toNat < now.toNat+(b.timeToNextToken now).toNat) :
    (∀ call∈b.calls us, call.2.granted = false) ∧
      ∃ t : UInt64, t.toNat = now.toNat+(b.timeToNextToken now).toNat ∧
        (tryConsume t (b.afterCalls us)).1.granted = true := by
  obtain ⟨hC,hR⟩ := h.units
  rw [h.timeToNextToken_toNat] at hus ⊢
  by_cases hready : 1000 ≤ (b.tokensAt now).toNat
  · rw [if_pos hready] at hus ⊢
    have hnil : us = [] := by
      refine List.eq_nil_iff_forall_not_mem.mpr fun u hu => ?_
      obtain ⟨hnow,hlt⟩ := hus u hu
      rw [UInt64.le_iff_toNat_le] at hnow
      omega
    rw [hnil]
    exact ⟨fun call hcall => (by cases hcall),now,rfl,(b.granted_iff now).mpr hready⟩
  · rw [if_neg hready] at hus ⊢
    have hshort := h.short hfits (by omega)
    have hsecs := hshort.secs
    obtain ⟨hrejected,hstill⟩ := hshort.idle hC fun u hu => by
      obtain ⟨hnow,hlt⟩ := hus u hu
      rw [UInt64.le_iff_toNat_le] at hnow
      exact UInt64.toNat_inj.mp (by omega)
    have hnext : (UInt64.ofNat (now.toNat+1)).toNat = now.toNat+1 :=
      UInt64.toNat_ofNat_of_lt' (by simp only [UInt64.size]; omega)
    refine ⟨hrejected,_,hnext,hstill.granted_next ?_ ?_ hnext⟩
    · rwa [afterCalls_capacityMilli]
    · rwa [afterCalls_refillMilliPerSec]

end

/-- The reports of a bucket are exact at a time that is not before its calls if and only if
neither the refill nor the reset time overflows there. -/
theorem reports_exact_iff (burst perSecond : UInt32) (jitterSeconds : UInt64) (issuer : String)
    (created : UInt64) (ts : List UInt64) (now : UInt64) (hlt : ∀ t∈ts, t.toNat < 2^32)
    (hnow : ∀ t∈ts, t ≤ now) :
    let b := (new burst perSecond jitterSeconds issuer created).afterCalls ts
    b.ReportsExact now ↔ b.RefillFits now ∧ b.ResetFits now := by
  intro b
  have hreached : b.Reached now :=
    reached_afterCalls burst perSecond jitterSeconds issuer created hlt hnow
  constructor
  · exact fun hexact => hreached.reset_exact_iff.mp hexact.reset
  · intro hfits
    exact ⟨fun us _ hus => hreached.wait_exact hfits.1 hus,hreached.reset_exact_iff.mpr hfits⟩

/-- A bucket of two tokens, both taken: the next is there in one second, both in two. -/
theorem reports_exact_drained :
    let b := (new 2 1 0 "issuer" 5).afterCalls [5,5]
    b.ReportsExact 5 ∧ b.timeToNextToken 5 = 1 ∧ (b.snapshot 5).2 = 7 := by
  refine ⟨(reports_exact_iff 2 1 0 "issuer" 5 [5,5] 5 (by simp) (by simp)).mpr ⟨?_,?_⟩,
    by decide +kernel,by decide +kernel⟩
  · exact Or.inl (by decide +kernel)
  · rw [ResetFits]
    decide +kernel

/-- A jitter that takes a full bucket back to a reset before the present, and a wait of one
second after which the sum wraps again. -/
theorem reports_wrap :
    let b := new 1 1 18446744073709551615 "issuer-8rt6z49" 1700000000
    let late := (new 2 1 0 "issuer" 0).afterCalls [0]
    ((b.snapshot 1700000000).2 = 677793250 ∧ ¬b.ReportsExact 1700000000) ∧
      late.timeToNextToken 18446744073709551614 = 1 ∧
      (tryConsume 18446744073709551615 late).1.granted = false ∧
      ¬late.ReportsExact 18446744073709551614 := by
  intro b late
  have hreset : (b.snapshot 1700000000).2 = 677793250 := by decide +kernel
  have hjitter : b.jitterOffset = 18446744072687344866 := by decide +kernel
  have hwait : late.timeToNextToken 18446744073709551614 = 1 := by decide +kernel
  have hrejected : (tryConsume 18446744073709551615 late).1.granted = false := by decide +kernel
  refine ⟨⟨hreset,fun hexact => ?_⟩,hwait,hrejected,fun hexact => ?_⟩
  · obtain ⟨t,_,_,_,hreport⟩ := hexact.reset
    rw [hreset,hjitter] at hreport
    have hsum : 677793250 = t.toNat+18446744072687344866 := hreport
    omega
  · obtain ⟨_,t,ht,hgranted⟩ := hexact.wait [] List.Pairwise.nil (by simp)
    rw [hwait] at ht
    obtain rfl : t = 18446744073709551615 := UInt64.toNat_inj.mp ht
    rw [show late.afterCalls [] = late from rfl,hrejected] at hgranted
    cases hgranted

end ProofStell.Limiter.AtomicTokenBucket
