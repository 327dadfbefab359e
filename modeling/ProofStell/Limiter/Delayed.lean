import ProofStell.Limiter.Contention
import ProofStell.Limiter.Tiers

/-! Checks of one issuer that read the clock first and consume later. Whoever the global
tier lets through reads the clock, gets or creates the bucket, and only then enters the
loop on its word, so the loop sees readings in any order. -/
namespace ProofStell.Limiter.Delayed
variable {κ : Type*} [DecidableEq κ] (config : RateLimitConfig) (issuer : String)

/-- The bucket as it was created, and the callers on its word. -/
structure Slot (κ : Type*) where
  bucket : AtomicTokenBucket
  race : CasLoop.State κ UInt64 UInt64 ConsumeOutcome

structure Checks (κ : Type*) where
  /-- The latest reading. -/
  clock : UInt64
  readings : κ → Option UInt64
  slot : Option (Slot κ)

def Checks.init : Checks κ := ⟨0,fun _ => none,none⟩

inductive Step (κ : Type*) where
  | read (k : κ) (now : UInt64)
  | enter (k : κ)
  | load (k : κ)
  | cas (k : κ) (spurious : Bool)

def Slot.step (x : CasLoop.Step κ UInt64) (slot : Slot κ) :
    Option (κ × UInt64 × ConsumeOutcome) × Slot κ :=
  let (done,race) := CasLoop.step slot.bucket.attempt x slot.race
  (done,{ slot with race := race })

def Slot.create (now : UInt64) : Slot κ :=
  ⟨config.newBucket issuer now,.init (config.newBucket issuer now).state⟩

/-- One step of one caller; it answers with the check it decides, if any. The clock never
runs backwards. -/
def step (x : Step κ) (s : Checks κ) : Option (κ × UInt64 × ConsumeOutcome) × Checks κ :=
  let inside (y : CasLoop.Step κ UInt64) (slot : Option (Slot κ)) :=
    match slot with
    | some slot => ((slot.step y).1,{ s with slot := some (slot.step y).2 })
    | none => (none,s)
  match x with
  | .read k now =>
    if s.readings k = none ∧ s.clock ≤ now then
      (none,{ s with clock := now, readings := Function.update s.readings k (some now) })
    else (none,s)
  | .enter k =>
    match s.readings k with
    | some now => inside (.start k now) (some (s.slot.getD (Slot.create config issuer now)))
    | none => (none,s)
  | .load k => inside (.load k) s.slot
  | .cas k spurious => inside (.cas k spurious) s.slot

def decided (l : List (Step κ)) : List (κ × UInt64 × ConsumeOutcome) :=
  (Machine.outputs (step config issuer) l Checks.init).filterMap Prod.snd

def granted (l : List (Step κ)) (t1 t2 : Nat) : Nat :=
  AtomicTokenBucket.grantsWithin t1 t2 ((decided config issuer l).map Prod.snd)

/-- The stored refill time is not later than the reading of the check that is decided,
unless the bucket is still as full as it was created. -/
def inOrder (s : Checks κ) (x : Step κ) : Bool :=
  match s.slot, (step config issuer x s).1 with
  | some slot, some (_,now,_) =>
    (unpack slot.race.word).1.toNat ≤ now.toNat ||
      (unpack slot.race.word).2 == slot.bucket.capacityMilli
  | _, _ => true

structure Slot.Ordered (slot : Slot κ) (order : List (κ × UInt64 × ConsumeOutcome)) : Prop where
  created : ∃ now, slot.bucket = config.newBucket issuer now
  sequential : CasLoop.Linearized slot.bucket.attempt slot.bucket.state order slot.race
  inputs : ∀ k now, (slot.race.callers k).input = some now → now.toNat < 2^32
  sorted : (order.map (·.2.1)).Pairwise (· ≤ ·)
  stored : order≠[] → (wordView slot.race.word).level < slot.bucket.capacityMilli.toNat ∧
    ∀ now∈order.map (·.2.1), now.toNat ≤ (wordView slot.race.word).stamp

theorem Slot.create_ordered (now : UInt64) :
    (Slot.create config issuer now : Slot κ).Ordered config issuer [] where
  created := ⟨now,rfl⟩
  sequential := CasLoop.linearized _ [] _
  inputs := by simp [Slot.create,CasLoop.State.init,CasLoop.Caller.input]
  sorted := List.Pairwise.nil
  stored h := absurd rfl h

theorem newBucket_capacity (now : UInt64) :
    1000 ≤ (config.newBucket issuer now).capacityMilli.toNat := by
  have hB := clampUnits_pos config.perIssuerBurst
  rw [RateLimitConfig.newBucket,(AtomicTokenBucket.new_holds _ _ _ _ _).capacity]
  omega

omit [DecidableEq κ] in
theorem Slot.Ordered.latest {slot : Slot κ} {order : List (κ × UInt64 × ConsumeOutcome)}
    (h : slot.Ordered config issuer order) {now : UInt64}
    (htime : (unpack slot.race.word).1.toNat ≤ now.toNat ∨
      (unpack slot.race.word).2 = slot.bucket.capacityMilli) :
    ∀ t∈order.map (·.2.1), t ≤ now := by
  intro t ht
  have hne : order≠[] := by
    intro hnil
    rw [hnil] at ht
    cases ht
  obtain ⟨hless,hbefore⟩ := h.stored hne
  rw [UInt64.le_iff_toNat_le]
  obtain hle | hfull := htime
  · exact (hbefore t ht).trans hle
  · rw [wordView,hfull] at hless
    exact absurd hless (Nat.lt_irrefl _)

omit [DecidableEq κ] in
/-- The word that a decision swaps in carries its reading and less than the capacity. -/
theorem Slot.Ordered.swapped {slot : Slot κ} {order : List (κ × UInt64 × ConsumeOutcome)}
    (h : slot.Ordered config issuer order) {now word : UInt64} (hnow : now.toNat < 2^32)
    {outcome : ConsumeOutcome}
    (halone : CasLoop.alone slot.bucket.attempt now slot.race.word = (outcome,word)) :
    (wordView word).level < slot.bucket.capacityMilli.toNat ∧
      (wordView word).stamp = now.toNat := by
  have hview := slot.bucket.alone_attempt slot.race.word hnow
  rw [halone,AtomicTokenBucket.abstractStep] at hview
  have hstamp := TokenBucket.consume_stamp slot.bucket.capacityMilli.toNat
    slot.bucket.refillMilliPerSec.toNat 1000 now.toNat (wordView slot.race.word)
  obtain ⟨created,hcreated⟩ := h.created
  have hcap : 1000 ≤ slot.bucket.capacityMilli.toNat := by
    rw [hcreated]
    exact newBucket_capacity config issuer created
  have hlevel := TokenBucket.consume_level_lt (r := slot.bucket.refillMilliPerSec.toNat)
    (by decide) hcap now.toNat (wordView slot.race.word)
  rw [hview] at hstamp hlevel
  exact ⟨hlevel,hstamp⟩

theorem Slot.Ordered.step {slot : Slot κ} {order : List (κ × UInt64 × ConsumeOutcome)}
    (h : slot.Ordered config issuer order) (y : CasLoop.Step κ UInt64)
    (hstart : ∀ k now, y = .start k now → now.toNat < 2^32)
    (htime : ∀ k now outcome, (slot.step y).1 = some (k,now,outcome) →
      (unpack slot.race.word).1.toNat ≤ now.toNat ∨
        (unpack slot.race.word).2 = slot.bucket.capacityMilli) :
    (slot.step y).2.Ordered config issuer (order++(slot.step y).1.toList) := by
  have hinputs : ∀ k now, ((slot.step y).2.race.callers k).input = some now →
      now.toNat < 2^32 := by
    intro k now hk
    obtain hold | hnew := CasLoop.step_input slot.bucket.attempt hk
    · exact h.inputs k now hold
    · exact hstart k now hnew
  have hseq := CasLoop.linearized_step slot.bucket.attempt y h.sequential
  obtain ⟨hnone,hword⟩ | ⟨k,now,outcome,hsome,halone⟩ :=
    CasLoop.step_word slot.bucket.attempt y slot.race
  · have hkept : order++(slot.step y).1.toList = order := by
      rw [Slot.step,hnone,Option.toList_none,List.append_nil]
    refine ⟨h.created,hseq,hinputs,?_,?_⟩
    · rw [hkept]
      exact h.sorted
    · rw [hkept]
      have hstored := h.stored
      rw [← hword] at hstored
      exact hstored
  · have hadd : order++(slot.step y).1.toList = order++[(k,now,outcome)] := by
      rw [Slot.step,hsome,Option.toList_some]
    have hnow : now.toNat < 2^32 := by
      apply hinputs k now
      have hdone := (CasLoop.step_done slot.bucket.attempt y slot.race k now outcome).mpr
        (Or.inr hsome)
      rw [Slot.step,hdone]
      rfl
    have hlast := h.latest config issuer (htime k now outcome hsome)
    obtain ⟨hlevel,hstamp⟩ := h.swapped config issuer hnow halone
    refine ⟨h.created,hseq,hinputs,?_,?_⟩
    · rw [hadd,List.map_append,List.pairwise_append]
      exact ⟨h.sorted,List.pairwise_singleton _ _,by simpa using hlast⟩
    · intro _
      refine ⟨hlevel,?_⟩
      intro t ht
      rw [hadd,List.map_append,List.mem_append] at ht
      rw [Slot.step,hstamp]
      obtain ht | ht := ht
      · exact UInt64.le_iff_toNat_le.mp (hlast t ht)
      · rw [List.mem_singleton.mp ht]

structure Ordered (s : Checks κ) (order : List (κ × UInt64 × ConsumeOutcome)) : Prop where
  readings : ∀ k now, s.readings k = some now → now.toNat < 2^32
  empty : s.slot = none → order = []
  slot : ∀ slot, s.slot = some slot → slot.Ordered config issuer order

theorem Ordered.inside {s : Checks κ} {order : List (κ × UInt64 × ConsumeOutcome)}
    (h : Ordered config issuer s order) {slot : Slot κ}
    (hslot : slot.Ordered config issuer order) (y : CasLoop.Step κ UInt64)
    (hstart : ∀ k now, y = .start k now → now.toNat < 2^32)
    (htime : ∀ k now outcome, (slot.step y).1 = some (k,now,outcome) →
      (unpack slot.race.word).1.toNat ≤ now.toNat ∨
        (unpack slot.race.word).2 = slot.bucket.capacityMilli) :
    Ordered config issuer { s with slot := some (slot.step y).2 }
      (order++(slot.step y).1.toList) where
  readings := h.readings
  empty hnone := by cases hnone
  slot slot' h' := by
    cases h'
    exact hslot.step config issuer y hstart htime

theorem Ordered.step {s : Checks κ} {order : List (κ × UInt64 × ConsumeOutcome)}
    (h : Ordered config issuer s order) (x : Step κ)
    (hread : ∀ k now, x = .read k now → now.toNat < 2^32)
    (hord : inOrder config issuer s x = true) :
    Ordered config issuer (step config issuer x s).2
      (order++(step config issuer x s).1.toList) := by
  have same : Ordered config issuer s (order++(none : Option _).toList) := by simpa using h
  cases x with
  | read k now =>
    simp only [Delayed.step]
    split
    · refine ⟨?_,same.empty,same.slot⟩
      intro j now' hj
      by_cases hk : j = k
      · subst hk
        have heq : now = now' := by simpa using hj
        rw [← heq]
        exact hread j now rfl
      · exact h.readings j now' (by simpa [hk] using hj)
    · exact same
  | enter k =>
    simp only [Delayed.step]
    cases hr : s.readings k with
    | none => exact same
    | some now =>
      have hslot : (s.slot.getD (Slot.create config issuer now)).Ordered config issuer order := by
        cases hs : s.slot with
        | none =>
          rw [h.empty hs]
          exact Slot.create_ordered config issuer now
        | some slot => exact h.slot slot hs
      refine h.inside config issuer hslot (.start k now) ?_ ?_
      · intro j now' heq
        cases heq
        exact h.readings k now hr
      · intro j now' outcome hsome
        simp only [Slot.step,CasLoop.step] at hsome
        split at hsome <;> cases hsome
  | load | cas =>
    cases hs : s.slot with
    | none => simpa [Delayed.step,hs] using h
    | some slot =>
      simp only [Delayed.step,hs]
      refine h.inside config issuer (h.slot slot hs) _ (by simp) ?_
      intro j now outcome hsome
      simpa [inOrder,Delayed.step,hs,hsome] using hord

theorem decided_snoc (l : List (Step κ)) (x : Step κ) :
    decided config issuer (l++[x]) = decided config issuer l++
      (step config issuer x (Machine.final (step config issuer) l Checks.init)).1.toList := by
  rw [decided,Machine.outputs_append,List.filterMap_append]
  rfl

theorem ordered_run (l : List (Step κ)) (hread : ∀ k now, .read k now∈l → now.toNat < 2^32)
    (hord : Machine.Along (step config issuer) (fun s x => inOrder config issuer s x = true) l
      Checks.init) :
    Ordered config issuer (Machine.final (step config issuer) l Checks.init)
      (decided config issuer l) := by
  induction l using List.reverseRecOn with
  | nil =>
    refine ⟨?_,fun _ => rfl,?_⟩
    · simp [Machine.final,Checks.init]
    · simp [Machine.final,Checks.init]
  | append_singleton l x ih =>
    obtain ⟨hbefore,hlast⟩ := (Machine.along_snoc l x Checks.init).mp hord
    rw [Machine.final_snoc,decided_snoc]
    apply Ordered.step config issuer
    · exact ih (fun k now hk => hread k now (List.mem_append_left _ hk)) hbefore
    · intro k now hx
      exact hread k now (by rw [hx]; simp)
    · exact hlast

/-- Delayed callers mint nothing as long as no decision turns the stored time back. -/
theorem delayed_checks_mint_nothing (l : List (Step κ))
    (hread : ∀ k now, .read k now∈l → now.toNat < 2^32)
    (hord : Machine.Along (step config issuer) (fun s x => inOrder config issuer s x = true) l
      Checks.init) (t1 t2 : Nat) :
    granted config issuer l t1 t2 ≤ (clampUnits config.perIssuerBurst).toNat+
      (clampUnits config.perIssuerPerSecond).toNat*(t2-t1) := by
  have hrun := ordered_run config issuer l hread hord
  rw [granted]
  cases hs : (Machine.final (step config issuer) l Checks.init).slot with
  | none =>
    rw [hrun.empty hs]
    exact Nat.zero_le _
  | some slot =>
    have hslot := hrun.slot slot hs
    obtain ⟨created,hcreated⟩ := hslot.created
    have hcalls := hslot.sequential.outcomes
    rw [← AtomicTokenBucket.calls_eq] at hcalls
    rw [← hcalls]
    have hholds : slot.bucket.Holds (clampUnits config.perIssuerBurst).toNat
        (clampUnits config.perIssuerPerSecond).toNat := by
      rw [hcreated]
      exact AtomicTokenBucket.new_holds _ _ _ _ _
    refine hholds.grantsWithin_le hslot.sorted ?_ t1 t2
    intro now hnow
    obtain ⟨⟨k,now',outcome⟩,hmem,rfl⟩ := List.mem_map.mp hnow
    apply hslot.inputs k
    rw [(hslot.sequential.complete k now' outcome).mp hmem]
    rfl

theorem delayed_checks_mint_nothing_for_prompt_callers :
    let config := { RateLimitConfig.default with perIssuerPerSecond := 1, perIssuerBurst := 1 }
    granted config "issuer" [.read 1 5,.read 2 10,.enter 2,.enter 1,.load 2,.load 1,.cas 1 false,
      .cas 2 false,.load 2,.cas 2 false] 5 10 ≤ 1+1*(10-5) := by
  refine delayed_checks_mint_nothing _ _ _ ?_ (by decide +kernel) 5 10
  intro k now hread
  have hcases : k = 1 ∧ now = 5 ∨ k = 2 ∧ now = 10 := by simpa using hread
  obtain ⟨_,hnow⟩ | ⟨_,hnow⟩ := hcases
  · rw [hnow]
    decide
  · rw [hnow]
    decide

/-- Caller 1 reads the clock at 5 and comes late: it sets the stored time back to 5, and caller 3
is granted the second token of the second 10. -/
theorem late_caller_mints_a_token :
    ¬∀ (config : RateLimitConfig) (issuer : String) (l : List (Step Nat)),
      (∀ k now, .read k now∈l → now.toNat < 2^32) → ∀ t1 t2,
        granted config issuer l t1 t2 ≤ (clampUnits config.perIssuerBurst).toNat+
          (clampUnits config.perIssuerPerSecond).toNat*(t2-t1) := by
  intro hall
  have hbound := hall
    { RateLimitConfig.default with perIssuerPerSecond := 1, perIssuerBurst := 1 } "issuer"
    [.read 1 5,.read 2 10,.read 3 10,.enter 2,.load 2,.cas 2 false,.enter 1,.load 1,.cas 1 false,
      .enter 3,.load 3,.cas 3 false] ?_ 10 10
  · revert hbound
    decide +kernel
  · intro k now hread
    have hcases : k = 1 ∧ now = 5 ∨ k = 2 ∧ now = 10 ∨ k = 3 ∧ now = 10 := by simpa using hread
    obtain ⟨_,hnow⟩ | ⟨_,hnow⟩ | ⟨_,hnow⟩ := hcases
    all_goals
      rw [hnow]
      decide

end ProofStell.Limiter.Delayed
