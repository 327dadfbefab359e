import ProofStell.Limiter.Bucket

/-! The bucket of one issuer under calls that follow one another: what is granted in any
window, and where the tokens went when a call is rejected. -/
namespace ProofStell.Limiter.AtomicTokenBucket

def calls (b : AtomicTokenBucket) (ts : List UInt64) : List (UInt64 × ConsumeOutcome) :=
  Machine.outputs tryConsume ts b

def afterCalls (b : AtomicTokenBucket) (ts : List UInt64) : AtomicTokenBucket :=
  Machine.final tryConsume ts b

def grants (cs : List (UInt64 × ConsumeOutcome)) : Nat := cs.countP (·.2.granted)

def grantsBetween (b : AtomicTokenBucket) (ts : List UInt64) (i j : Nat) : Nat :=
  grants ((b.calls ts).extract i (j+1))

theorem afterCalls_eq (b : AtomicTokenBucket) (ts : List UInt64) :
    b.afterCalls ts = { b with state := Machine.final (CasLoop.alone b.attempt) ts b.state } := by
  induction ts generalizing b with
  | nil => rfl
  | cons t ts ih => exact ih (tryConsume t b).2

theorem calls_eq (b : AtomicTokenBucket) (ts : List UInt64) :
    b.calls ts = Machine.outputs (CasLoop.alone b.attempt) ts b.state := by
  induction ts generalizing b with
  | nil => rfl
  | cons t ts ih => exact congrArg ((t,(tryConsume t b).1) :: ·) (ih (tryConsume t b).2)

@[simp] theorem afterCalls_capacityMilli (b : AtomicTokenBucket) (ts : List UInt64) :
    (b.afterCalls ts).capacityMilli = b.capacityMilli := by rw [afterCalls_eq]

@[simp] theorem afterCalls_refillMilliPerSec (b : AtomicTokenBucket) (ts : List UInt64) :
    (b.afterCalls ts).refillMilliPerSec = b.refillMilliPerSec := by rw [afterCalls_eq]

@[simp] theorem afterCalls_jitterOffset (b : AtomicTokenBucket) (ts : List UInt64) :
    (b.afterCalls ts).jitterOffset = b.jitterOffset := by rw [afterCalls_eq]

theorem afterCalls_view (b : AtomicTokenBucket) {ts : List UInt64}
    (hlt : ∀ t∈ts, t.toNat < 2^32) :
    wordView (b.afterCalls ts).state =
      Machine.final b.abstractStep (ts.map (·.toNat)) (wordView b.state) := by
  have hsim := Machine.simulation wordView UInt64.toNat ConsumeOutcome.granted
    (fun t ht cur => b.alone_attempt cur (hlt t ht)) b.state
  rw [afterCalls_eq,hsim.1]

theorem calls_view (b : AtomicTokenBucket) {ts : List UInt64} (hlt : ∀ t∈ts, t.toNat < 2^32) :
    Machine.outputs b.abstractStep (ts.map (·.toNat)) (wordView b.state) =
      (b.calls ts).map (Prod.map UInt64.toNat ConsumeOutcome.granted) := by
  have hsim := Machine.simulation wordView UInt64.toNat ConsumeOutcome.granted
    (fun t ht cur => b.alone_attempt cur (hlt t ht)) b.state
  rw [calls_eq,hsim.2]

theorem grants_calls (b : AtomicTokenBucket) {ts : List UInt64}
    (hlt : ∀ t∈ts, t.toNat < 2^32) :
    grants (b.calls ts) = TokenBucket.granted b.capacityMilli.toNat b.refillMilliPerSec.toNat 1000
      (ts.map (·.toNat)) (wordView b.state) := by
  rw [TokenBucket.granted,show TokenBucket.consume b.capacityMilli.toNat
    b.refillMilliPerSec.toNat 1000 = b.abstractStep from rfl,b.calls_view hlt,List.countP_map,
    grants]
  rfl

theorem calls_extract (b : AtomicTokenBucket) (ts : List UInt64) (i j : Nat) :
    (b.calls ts).extract i j = (b.afterCalls (ts.take i)).calls (ts.extract i j) := by
  rw [calls,List.extract_eq_take_drop,Machine.outputs_drop,Machine.outputs_take,
    List.extract_eq_take_drop]
  rfl

theorem tokensAt_toNat (b : AtomicTokenBucket) {now : UInt64} (hnow : now.toNat < 2^32) :
    (b.tokensAt now).toNat =
      (wordView b.state).refill b.capacityMilli.toNat b.refillMilliPerSec.toNat now.toNat :=
  b.refilled_toNat b.state hnow

theorem pairwise_toNat {ts : List UInt64} (hs : ts.Pairwise (· ≤ ·)) :
    (ts.map (·.toNat)).Pairwise (· ≤ ·) :=
  List.pairwise_map.mpr (hs.imp fun h => UInt64.le_iff_toNat_le.mp h)

structure Holds (b : AtomicTokenBucket) (B r : Nat) : Prop where
  capacity : b.capacityMilli.toNat = 1000*B
  rate : b.refillMilliPerSec.toNat = 1000*r

theorem new_holds (burst perSecond : UInt32) (jitterSeconds : UInt64) (issuer : String)
    (now : UInt64) :
    (new burst perSecond jitterSeconds issuer now).Holds (clampUnits burst).toNat
      (clampUnits perSecond).toNat :=
  ⟨milli_units_toNat burst,milli_units_toNat perSecond⟩

theorem new_full (burst perSecond : UInt32) (jitterSeconds : UInt64) (issuer : String)
    {now : UInt64} (hnow : now.toNat < 2^32) :
    wordView (new burst perSecond jitterSeconds issuer now).state =
      ⟨(new burst perSecond jitterSeconds issuer now).capacityMilli.toNat,now.toNat⟩ := by
  simp only [new,wordView,unpack_pack,UInt64.toNat_toUInt32,Nat.mod_eq_of_lt hnow]

theorem Holds.afterCalls {b : AtomicTokenBucket} {B r : Nat} (h : b.Holds B r)
    (ts : List UInt64) : (b.afterCalls ts).Holds B r :=
  ⟨by rw [afterCalls_capacityMilli,h.capacity],by rw [afterCalls_refillMilliPerSec,h.rate]⟩

theorem divCeil_toNat {a d : UInt64} (hd : 0 < d.toNat) :
    (resetAt.divCeil a d).toNat = (a.toNat+d.toNat-1)/d.toNat := by
  have ha := a.toNat_lt
  have hmod : a.toNat%d.toNat < d.toNat := Nat.mod_lt _ hd
  have hsplit := Nat.div_add_mod a.toNat d.toNat
  have hzero : a%d = 0 ↔ a.toNat%d.toNat = 0 := by
    rw [← UInt64.toNat_inj,UInt64.toNat_mod,UInt64.toNat_zero]
  rw [resetAt.divCeil]
  symm
  by_cases h : a.toNat%d.toNat = 0
  · rw [if_pos (hzero.mpr h),UInt64.toNat_div]
    apply Nat.div_eq_of_lt_le
    · rw [Nat.mul_comm]
      omega
    · rw [Nat.add_mul,Nat.mul_comm]
      omega
  · have hle : a.toNat/d.toNat*2 ≤ a.toNat/d.toNat*d.toNat := Nat.mul_le_mul_left _ (by omega)
    rw [Nat.mul_comm _ d.toNat] at hle
    rw [if_neg (mt hzero.mp h),UInt64.toNat_add,UInt64.toNat_div,UInt64.toNat_one,
      Nat.mod_eq_of_lt (by omega)]
    apply Nat.div_eq_of_lt_le
    · rw [Nat.add_mul,Nat.mul_comm]
      omega
    · rw [Nat.add_mul,Nat.add_mul,Nat.mul_comm]
      omega

/-- The seconds that `reset_at` adds. -/
def secsToFull (b : AtomicTokenBucket) (tokensMilli : UInt32) : UInt64 :=
  if b.refillMilliPerSec = 0 then 0
  else resetAt.divCeil (Saturating.sub32 b.capacityMilli tokensMilli).toUInt64
    b.refillMilliPerSec.toUInt64

theorem secsToFull_toNat {b : AtomicTokenBucket} {B r : Nat} (h : b.Holds B r) (hr : 0 < r)
    (tokensMilli : UInt32) :
    (b.secsToFull tokensMilli).toNat = (1000*B-tokensMilli.toNat+1000*r-1)/(1000*r) := by
  have hne : b.refillMilliPerSec≠0 := by
    intro h0
    have hrate := h.rate
    rw [h0,UInt32.toNat_zero] at hrate
    omega
  rw [secsToFull,if_neg hne,divCeil_toNat]
  · rw [UInt32.toNat_toUInt64,UInt32.toNat_toUInt64,Saturating.sub32_toNat,h.capacity,h.rate]
  · rw [UInt32.toNat_toUInt64,h.rate]
    omega

theorem Holds.grants_le_window {b : AtomicTokenBucket} {B r : Nat} (h : b.Holds B r)
    {ts : List UInt64} (hs : ts.Pairwise (· ≤ ·)) (hlt : ∀ t∈ts, t.toNat < 2^32) {t1 t2 : Nat}
    (hlo : ∀ t∈ts, t1 ≤ t.toNat) (hhi : ∀ t∈ts, t.toNat ≤ t2) :
    grants (b.calls ts) ≤ B+r*(t2-t1) := by
  have hbound : 1000*TokenBucket.granted b.capacityMilli.toNat b.refillMilliPerSec.toNat 1000
      (ts.map (·.toNat)) (wordView b.state) ≤
        b.capacityMilli.toNat+b.refillMilliPerSec.toNat*(t2-t1) :=
    TokenBucket.granted_le_window (pairwise_toNat hs) (by simpa using hlo) (by simpa using hhi)
  rw [← b.grants_calls hlt,h.capacity,h.rate,Nat.mul_assoc,← Nat.mul_add] at hbound
  exact Nat.le_of_mul_le_mul_left hbound (by decide)

def grantsWithin (t1 t2 : Nat) (cs : List (UInt64 × ConsumeOutcome)) : Nat :=
  cs.countP fun c => c.2.granted && decide (t1 ≤ c.1.toNat) && decide (c.1.toNat ≤ t2)

theorem Holds.grantsWithin_le {b : AtomicTokenBucket} {B r : Nat} (h : b.Holds B r)
    {ts : List UInt64} (hs : ts.Pairwise (· ≤ ·)) (hlt : ∀ t∈ts, t.toNat < 2^32) (t1 t2 : Nat) :
    grantsWithin t1 t2 (b.calls ts) ≤ B+r*(t2-t1) := by
  have hbound : 1000*TokenBucket.grantedWithin t1 t2
      (Machine.outputs b.abstractStep (ts.map (·.toNat)) (wordView b.state)) ≤
        b.capacityMilli.toNat+b.refillMilliPerSec.toNat*(t2-t1) :=
    TokenBucket.grantedWithin_le (pairwise_toNat hs) (wordView b.state)
  rw [b.calls_view hlt,h.capacity,h.rate,Nat.mul_assoc,← Nat.mul_add,TokenBucket.grantedWithin,
    List.countP_map] at hbound
  exact Nat.le_of_mul_le_mul_left hbound (by decide)

theorem Holds.rejected_exact {b : AtomicTokenBucket} {B r : Nat} (h : b.Holds B r) (hB : 0 < B)
    {created : Nat} (hfull : wordView b.state = ⟨b.capacityMilli.toNat,created⟩)
    {ts : List UInt64} {t : UInt64} (hs : (ts++[t]).Pairwise (· ≤ ·))
    (hlt : ∀ u∈ts++[t], u.toNat < 2^32) (hlo : ∀ u∈ts++[t], created ≤ u.toNat)
    (hrej : (tryConsume t (b.afterCalls ts)).1.granted = false) :
    ∃ i u, ts[i]? = some u ∧
      (b.afterCalls (ts.take i)).tokensAt u = (b.afterCalls (ts.take i)).capacityMilli ∧
      grants ((b.afterCalls (ts.take i)).calls (ts.drop i)) = B+r*(t.toNat-u.toNat) := by
  have hlt' : ∀ u∈ts, u.toNat < 2^32 := fun u hu => hlt u (List.mem_append_left _ hu)
  have ht : t.toNat < 2^32 := hlt t (by simp)
  have hstep := (b.afterCalls ts).alone_attempt (b.afterCalls ts).state ht
  rw [b.afterCalls_view hlt'] at hstep
  have hrej' : (TokenBucket.consume b.capacityMilli.toNat b.refillMilliPerSec.toNat 1000 t.toNat
      (Machine.final b.abstractStep (ts.map (·.toNat)) (wordView b.state))).1 = false := by
    rw [← hrej,tryConsume]
    simpa [abstractStep] using congrArg Prod.fst hstep
  have hsorted := pairwise_toNat hs
  have hge : ∀ v∈(ts++[t]).map (·.toNat), (wordView b.state).stamp ≤ v := by
    intro v hv
    obtain ⟨u,hu,rfl⟩ := List.mem_map.mp hv
    rw [hfull]
    exact hlo u hu
  rw [List.map_append] at hsorted hge
  obtain ⟨i,u,hi,hu,hsum⟩ := TokenBucket.rejected_exact (by rw [hfull])
    (by rw [h.capacity]; omega) ⟨B,h.capacity⟩ ⟨r,h.rate⟩ hsorted hge hrej'
  rw [List.getElem?_map,Option.map_eq_some_iff] at hi
  obtain ⟨v,hv,rfl⟩ := hi
  have htake : ∀ u∈ts.take i, u.toNat < 2^32 := fun u hu => hlt' u (List.mem_of_mem_take hu)
  have hview := b.afterCalls_view htake
  rw [List.map_take,show b.abstractStep = TokenBucket.consume _ _ 1000 from rfl] at hview
  refine ⟨i,v,hv,UInt32.toNat_inj.mp ?_,?_⟩
  · rw [tokensAt_toNat _ (hlt' v (List.mem_of_getElem? hv)),afterCalls_capacityMilli,
      afterCalls_refillMilliPerSec,hview]
    exact hu
  · rw [grants_calls _ fun u hu => hlt' u (List.mem_of_mem_drop hu),afterCalls_capacityMilli,
      afterCalls_refillMilliPerSec,List.map_drop,hview]
    rw [h.capacity,h.rate,Nat.mul_assoc,← Nat.mul_add] at hsum
    rw [h.capacity,h.rate]
    exact Nat.eq_of_mul_eq_mul_left (by decide) hsum

theorem mem_extract_bounds {ts : List UInt64} (hs : ts.Pairwise (· ≤ ·)) {i j : Nat}
    {ti tj : UInt64} (hi : ts[i]? = some ti) (hj : ts[j]? = some tj) {t : UInt64}
    (ht : t∈ts.extract i (j+1)) : ti ≤ t ∧ t ≤ tj := by
  rw [List.extract_eq_take_drop,List.mem_iff_getElem?] at ht
  obtain ⟨k,hk⟩ := ht
  rw [List.getElem?_take] at hk
  split at hk
  · next hlt =>
    rw [List.getElem?_drop] at hk
    obtain ⟨hi',rfl⟩ := List.getElem?_eq_some_iff.mp hi
    obtain ⟨hj',rfl⟩ := List.getElem?_eq_some_iff.mp hj
    obtain ⟨hk',rfl⟩ := List.getElem?_eq_some_iff.mp hk
    have hmono {a c : Nat} (ha : a < ts.length) (hc : c < ts.length) (hac : a ≤ c) :
        ts[a] ≤ ts[c] := by
      obtain heq | hlt := Nat.eq_or_lt_of_le hac
      · subst heq
        exact UInt64.le_refl _
      · exact List.pairwise_iff_getElem.mp hs a c ha hc hlt
    exact ⟨hmono hi' hk' (by omega),hmono hk' hj' (by omega)⟩
  · cases hk

/-- `AtomicTokenBucket` is an exact token bucket: no window lets through more than burst and
accrual, and a call is rejected only if everything since a full bucket was granted. -/
theorem exact_token_bucket (burst perSecond : UInt32) (jitterSeconds : UInt64) (issuer : String)
    (created : UInt64) (ts : List UInt64) (hsorted : (created::ts).Pairwise (· ≤ ·))
    (hlt : ∀ t∈created::ts, t.toNat < 2^32) :
    let b := new burst perSecond jitterSeconds issuer created
    let B := (clampUnits burst).toNat
    let r := (clampUnits perSecond).toNat
    (∀ i j ti tj, i ≤ j → ts[i]? = some ti → ts[j]? = some tj →
      b.grantsBetween ts i j ≤ B+r*(tj.toNat-ti.toNat)) ∧
    ∀ j tj outcome, (b.calls ts)[j]? = some (tj,outcome) → outcome.granted = false →
      ∃ i ti, i < j ∧ ts[i]? = some ti ∧
        (b.afterCalls (ts.take i)).tokensAt ti = b.capacityMilli ∧
        b.grantsBetween ts i j = B+r*(tj.toNat-ti.toNat) := by
  intro b B r
  have hb : b.Holds B r := new_holds burst perSecond jitterSeconds issuer created
  obtain ⟨hlater,hs⟩ := List.pairwise_cons.mp hsorted
  have hcreated : created.toNat < 2^32 := hlt created List.mem_cons_self
  have hts : ∀ t∈ts, t.toNat < 2^32 := fun t ht => hlt t (List.mem_cons_of_mem created ht)
  constructor
  · intro i j ti tj _ hi hj
    rw [grantsBetween,calls_extract]
    have hsub : (ts.extract i (j+1)).Sublist ts := by
      rw [List.extract_eq_take_drop]
      exact (List.take_sublist _ _).trans (List.drop_sublist _ _)
    exact (hb.afterCalls (ts.take i)).grants_le_window (hs.sublist hsub)
      (fun t ht => hts t (hsub.subset ht))
      (fun t ht => UInt64.le_iff_toNat_le.mp (mem_extract_bounds hs hi hj ht).1)
      (fun t ht => UInt64.le_iff_toNat_le.mp (mem_extract_bounds hs hi hj ht).2)
  · intro j tj outcome hj hrej
    have hcall := hj
    rw [calls,Machine.outputs_getElem?,Option.map_eq_some_iff] at hcall
    obtain ⟨t,htj,hpair⟩ := hcall
    obtain ⟨rfl,hout⟩ := Prod.mk.injEq .. |>.mp hpair
    have hrej' : (tryConsume t (b.afterCalls (ts.take j))).1.granted = false := by
      rw [← hrej,← hout]
      rfl
    have hsub : (ts.take j++[t]).Sublist ts := by
      rw [← Option.toList_some,← htj,← List.take_add_one]
      exact List.take_sublist _ _
    obtain ⟨i,u,hi,hfull,hsum⟩ := hb.rejected_exact (clampUnits_pos burst)
      (new_full burst perSecond jitterSeconds issuer hcreated) (hs.sublist hsub)
      (fun v hv => hts v (hsub.subset hv))
      (fun v hv => UInt64.le_iff_toNat_le.mp (hlater v (hsub.subset hv))) hrej'
    have hij : i < j := by
      have hlen := (List.getElem?_eq_some_iff.mp hi).1
      rw [List.length_take] at hlen
      omega
    rw [List.getElem?_take_of_lt hij] at hi
    rw [List.take_take,Nat.min_eq_left hij.le] at hfull hsum
    refine ⟨i,u,hij,hi,by rw [hfull,afterCalls_capacityMilli],?_⟩
    -- the rejected call itself adds nothing to the count
    have hjlt := (List.getElem?_eq_some_iff.mp hj).1
    have hlast : (b.calls ts).extract i (j+1) = (b.calls ts).extract i j++[(t,outcome)] := by
      rw [List.extract_eq_take_drop,List.extract_eq_take_drop,← List.drop_take,← List.drop_take,
        List.take_add_one,hj,Option.toList_some,List.drop_append_of_le_length]
      rw [List.length_take]
      omega
    rw [grantsBetween,hlast,grants,List.countP_append,calls_extract,← hsum,
      List.extract_eq_take_drop,List.drop_take]
    simp [hrej,grants]

theorem exact_token_bucket_at_two_bursts :
    let b := new 2 1 0 "issuer" 5
    b.grantsBetween [5,5,5,6,6] 0 4 ≤ 2+1*(6-5) ∧
      ∃ i ti, i < 4 ∧ [5,5,5,6,6][i]? = some ti ∧
        (b.afterCalls ([5,5,5,6,6].take i)).tokensAt ti = b.capacityMilli ∧
        b.grantsBetween [5,5,5,6,6] i 4 = 2+1*(6-ti.toNat) := by
  have h := exact_token_bucket 2 1 0 "issuer" 5 [5,5,5,6,6] (by decide) (by simp)
  refine ⟨h.1 0 4 5 6 (by decide) rfl rfl,?_⟩
  exact h.2 4 6 ⟨false,0,false⟩ (by decide +kernel) rfl

end ProofStell.Limiter.AtomicTokenBucket
