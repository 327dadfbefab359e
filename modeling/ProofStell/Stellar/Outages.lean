import ProofStell.Stellar.Overlap
import ProofStell.Stellar.Reference
import ProofStell.Stellar.Verification

/-! An outage of Horizon as the callers of `verify_hash_with_retry` meet it: how long a rejected
call is told to wait, how little of the load still reaches Horizon, and how calls pass again. -/
namespace ProofStell.Stellar
open Hash

structure Dated (config : CircuitBreakerConfig) (clock : Nat) (b : CircuitBreaker) : Prop where
  same : b.config = config
  permits : b.halfOpenSemaphore≠0
  opened : b.state = .isOpen → ∃ since, b.openedAt = some since ∧ since ≤ clock

structure OpenSince (config : CircuitBreakerConfig) (since : Nat) (b : CircuitBreaker) : Prop where
  same : b.config = config
  state : b.state = .isOpen
  openedAt : b.openedAt = some since

section
variable {config : CircuitBreakerConfig} {clock now since : Nat} {b b' : CircuitBreaker}

theorem dated_new (config : CircuitBreakerConfig) : Dated config 0 (.new config) where
  same := rfl
  permits := Nat.ne_of_gt config.probes_pos
  opened := by simp [CircuitBreaker.new]

theorem Dated.allowed (h : Dated config clock b) (hle : clock ≤ now) {answer : StellarResult Unit}
    (ha : b.Allowed now answer b') : Dated config now b' := by
  have hlater (hs : b.state = .isOpen) : ∃ since, b.openedAt = some since ∧ since ≤ now := by
    obtain ⟨since,ho,hsince⟩ := h.opened hs
    exact ⟨since,ho,hsince.trans hle⟩
  cases ha with
  | passed _ => exact ⟨h.same,h.permits,hlater⟩
  | entered _ _ => exact ⟨h.same,h.permits,fun hs => by cases hs⟩
  | waiting _ _ _ => exact ⟨h.same,h.permits,hlater⟩
  | probe _ _ => exact ⟨h.same,h.permits,hlater⟩
  | crowded _ _ => exact ⟨h.same,h.permits,hlater⟩

theorem Dated.recorded (h : Dated config clock b) (hle : clock ≤ now) {o : Outcome}
    (hr : b.Recorded now o b') : Dated config now b' := by
  have hlater (hs : b.state = .isOpen) : ∃ since, b.openedAt = some since ∧ since ≤ now := by
    obtain ⟨since,ho,hsince⟩ := h.opened hs
    exact ⟨since,ho,hsince.trans hle⟩
  cases hr with
  | neutral => exact ⟨h.same,h.permits,hlater⟩
  | isOpen _ => exact ⟨h.same,h.permits,hlater⟩
  | success _ _ => exact ⟨h.same,h.permits,hlater⟩
  | failure _ _ _ => exact ⟨h.same,h.permits,hlater⟩
  | probed _ _ _ => exact ⟨h.same,h.permits,hlater⟩
  | recovered _ _ _ => exact ⟨h.same,h.permits,fun hs => by cases hs⟩
  | tripped _ _ _ => exact ⟨h.same,h.permits,fun _ => ⟨now,rfl,Nat.le_refl _⟩⟩
  | reopened _ _ => exact ⟨h.same,h.permits,fun _ => ⟨now,rfl,Nat.le_refl _⟩⟩

theorem Dated.rejected (h : Dated config clock b) (hle : clock ≤ now) {err : StellarError}
    (ha : b.Allowed now (.error err) b') : ∃ since, since ≤ now ∧ now < since+config.openDuration ∧
      err = .circuitOpen .isOpen (since+config.openDuration-now) ∧ OpenSince config since b' := by
  cases ha with
  | @waiting openedAt hs ho hlt =>
    obtain ⟨since,ho',hsince⟩ := h.opened hs
    obtain rfl : openedAt = since := Option.some.inj (ho.symm.trans ho')
    rw [h.same] at hlt ⊢
    have hle' := hsince.trans hle
    refine ⟨openedAt,hle',by omega,?_,h.same,hs,ho⟩
    have hrest : config.openDuration-(now-openedAt) = openedAt+config.openDuration-now := by omega
    rw [hrest]
  | crowded _ hnone => exact absurd hnone h.permits

/-- An open breaker stays as it is until the first call past its open period. -/
theorem OpenSince.allowed (h : OpenSince config since b) {answer : StellarResult Unit}
    (hlt : now < since+config.openDuration) (hsince : since ≤ now)
    (ha : b.Allowed now answer b') :
    answer = .error (.circuitOpen .isOpen (since+config.openDuration-now)) ∧
      OpenSince config since b' := by
  cases ha with
  | entered _ hover =>
    have hge : config.openDuration ≤ now-since := by
      simpa [CircuitBreaker.openOver,h.openedAt,h.same] using hover
    omega
  | @waiting openedAt hs ho hlt' =>
    obtain rfl : openedAt = since := Option.some.inj (ho.symm.trans h.openedAt)
    have hrest : b.config.openDuration-(now-openedAt) =
        openedAt+config.openDuration-now := by
      rw [h.same]
      omega
    rw [hrest]
    exact ⟨rfl,h.same,hs,ho⟩
  | passed hs => simp [h.state] at hs
  | probe hs _ => simp [h.state] at hs
  | crowded hs _ => simp [h.state] at hs

theorem OpenSince.over (h : OpenSince config since b) {answer : StellarResult Unit}
    (hge : since+config.openDuration ≤ now) (ha : b.Allowed now answer b') : answer = .ok () := by
  cases ha with
  | entered _ _ => rfl
  | @waiting openedAt hs ho hlt =>
    obtain rfl : openedAt = since := Option.some.inj (ho.symm.trans h.openedAt)
    rw [h.same] at hlt
    omega
  | passed _ => rfl
  | probe _ _ => rfl
  | crowded hs _ => simp [h.state] at hs

theorem OpenSince.recorded (h : OpenSince config since b) {o : Outcome}
    (hr : b.Recorded now o b') : OpenSince config since b' := by
  cases hr with
  | neutral => exact h
  | isOpen _ => exact h
  | success hs _ => simp [h.state] at hs
  | failure hs _ _ => simp [h.state] at hs
  | tripped hs _ _ => simp [h.state] at hs
  | probed hs _ _ => simp [h.state] at hs
  | recovered hs _ _ => simp [h.state] at hs
  | reopened hs _ => simp [h.state] at hs

end

namespace Calls
variable {κ α : Type} [DecidableEq κ] {config : CircuitBreakerConfig}

def Step.now : Step κ α → Nat
  | .arrive _ now => now
  | .finish _ now _ => now

def Step.arrives : Step κ α → Bool
  | .arrive _ _ => true
  | .finish _ _ _ => false

theorem dated_step {clock : Nat} {s : Calls κ} (h : Dated config clock s.breaker) (x : Step κ α)
    (hle : clock ≤ x.now) : Dated config x.now (step x s).2.breaker := by
  have hmoves := step_moves x s
  generalize (step x s).1 = reply at hmoves
  generalize (step x s).2 = s' at hmoves ⊢
  cases hmoves with
  | ignored =>
    refine ⟨h.same,h.permits,fun hs => ?_⟩
    obtain ⟨since,ho,hsince⟩ := h.opened hs
    exact ⟨since,ho,hsince.trans hle⟩
  | rejected ha => exact h.allowed hle ha
  | admitted _ ha => exact h.allowed hle ha
  | recorded _ hr => exact h.recorded hle hr

theorem dated_run {clock : Nat} {s : Calls κ} (h : Dated config clock s.breaker)
    {l : List (Step κ α)} {now : Nat} (hclock : (clock::(l.map Step.now++[now])).Pairwise (· ≤ ·)) :
    Dated config now (Machine.final step l s).breaker := by
  induction l generalizing clock s with
  | nil =>
    have hle : clock ≤ now := by simpa using hclock
    refine ⟨h.same,h.permits,fun hs => ?_⟩
    obtain ⟨since,ho,hsince⟩ := h.opened hs
    exact ⟨since,ho,hsince.trans hle⟩
  | cons x l ih =>
    obtain ⟨hle,hrest⟩ := List.pairwise_cons.mp hclock
    exact ih (dated_step h x (hle x.now List.mem_cons_self)) hrest

theorem open_step {since : Nat} {s : Calls κ} (h : OpenSince config since s.breaker)
    (x : Step κ α) (hle : since ≤ x.now)
    (hx : x.arrives = true → x.now < since+config.openDuration) :
    OpenSince config since (step x s).2.breaker := by
  have hmoves := step_moves x s
  generalize (step x s).1 = reply at hmoves
  generalize (step x s).2 = s' at hmoves ⊢
  cases hmoves with
  | ignored => exact h
  | rejected ha => exact (h.allowed (hx rfl) hle ha).2
  | admitted _ ha => exact (h.allowed (hx rfl) hle ha).2
  | recorded _ hr => exact h.recorded hr

theorem open_run {since : Nat} {s : Calls κ} (h : OpenSince config since s.breaker)
    {l : List (Step κ α)} (hle : ∀ x∈l, since ≤ x.now)
    (hl : ∀ x∈l, x.arrives = true → x.now < since+config.openDuration) :
    OpenSince config since (Machine.final step l s).breaker := by
  induction l generalizing s with
  | nil => exact h
  | cons x l ih =>
    exact ih (open_step h x (hle x List.mem_cons_self) (hl x List.mem_cons_self))
      (fun y hy => hle y (List.mem_cons_of_mem _ hy)) fun y hy => hl y (List.mem_cons_of_mem _ hy)

/-- However calls overlap, everything is rejected until the wait that a rejected call is told is
over, and the first call after it is let through. -/
theorem retry_after_exact (config : CircuitBreakerConfig) (before : List (Step κ α)) (k : κ)
    (now : Nat) (hclock : (before.map Step.now++[now]).Pairwise (· ≤ ·)) {err : StellarError}
    (hreject : (step (.arrive k now : Step κ α) (Machine.final step before (new config))).1 =
      .rejected err) :
    ∃ wait, 0 < wait ∧ err = .circuitOpen .isOpen wait ∧
      ∀ (meanwhile : List (Step κ α)) (k' : κ) (t : Nat), now ≤ t →
        (∀ x∈meanwhile, now ≤ x.now ∧ (x.arrives = true → x.now < now+wait)) →
        let s := Machine.final step (before++.arrive k now::meanwhile) (new config)
        s.fresh k' = true →
        (step (.arrive k' t : Step κ α) s).1 =
          if t < now+wait then .rejected (.circuitOpen .isOpen (now+wait-t)) else .admitted := by
  have hdated := dated_run (s := new config) (dated_new config)
    (List.pairwise_cons.mpr ⟨fun _ _ => Nat.zero_le _,hclock⟩)
  have hmoves := step_moves (.arrive k now : Step κ α) (Machine.final step before (new config))
  rw [hreject] at hmoves
  generalize hs' : (step (.arrive k now : Step κ α)
    (Machine.final step before (new config))).2 = s' at hmoves
  cases hmoves with
  | rejected ha =>
    obtain ⟨since,hsince,hlt,herr,hopen⟩ := hdated.rejected (Nat.le_refl _) ha
    refine ⟨since+config.openDuration-now,by omega,herr,fun meanwhile k' t ht hmeanwhile => ?_⟩
    have hend : now+(since+config.openDuration-now) = since+config.openDuration := by omega
    rw [hend] at hmeanwhile ⊢
    intro s hfresh
    have hs : OpenSince config since s.breaker := by
      simp only [s,Machine.final_append,Machine.final,hs']
      exact open_run hopen (fun x hx => hsince.trans (hmeanwhile x hx).1)
        fun x hx => (hmeanwhile x hx).2
    have hallowed := s.breaker.allowCall_allowed t
    simp only [step,hfresh,if_true]
    split
    · next err' b heq =>
      rw [heq] at hallowed
      split
      · next hlt' =>
        exact congrArg _ (Except.error.inj (hs.allowed hlt' (hsince.trans ht) hallowed).1)
      · next hge => cases hs.over (Nat.le_of_not_lt hge) hallowed
    · next u b heq =>
      rw [heq] at hallowed
      split
      · next hlt' => cases (hs.allowed hlt' (hsince.trans ht) hallowed).1
      · rfl

/-- Opened at 2 for 10: the call at 5 is told 7, another one at 8 and a late result change nothing. -/
theorem retry_after_exact_on_a_trip :
    let down : StellarResult Unit := .error (.timeout "url" 5)
    let before : List (Step Nat Unit) := [.arrive 1 0,.arrive 2 1,.finish 1 2 down]
    let meanwhile : List (Step Nat Unit) := [.arrive 4 8,.finish 2 9 (.ok ())]
    let s := Machine.final step (before++.arrive 3 5::meanwhile) (new ⟨1,10,1⟩)
    (step (.arrive 5 11 : Step Nat Unit) s).1 = .rejected (.circuitOpen .isOpen 1) ∧
      (step (.arrive 5 12 : Step Nat Unit) s).1 = .admitted := by
  intro down before meanwhile s
  have hreject : (step (.arrive 3 5 : Step Nat Unit) (Machine.final step before
      (new ⟨1,10,1⟩))).1 = .rejected (.circuitOpen .isOpen 7) := by decide +kernel
  obtain ⟨wait,_,herr,h⟩ := retry_after_exact ⟨1,10,1⟩ before 3 5 (by decide) hreject
  obtain rfl : 7 = wait := (StellarError.circuitOpen.inj herr).2
  exact ⟨h meanwhile 5 11 (by decide) (by decide) (by decide +kernel),
    h meanwhile 5 12 (by decide) (by decide) (by decide +kernel)⟩

end Calls

namespace StellarClient
variable (c : StellarClient)

/-- The attempt gets nothing out of Horizon, and nothing out of the cache. -/
def Fruitless : Attempt → Prop
  | .noPermit cached => c.tryStaleCacheFallback cached = none
  | .sendError => True
  | .answered status parsed =>
    if isSuccess status then parsed = .error () else isRetryableStatus status = true

theorem fruitless_loop {script : Nat → Attempt} (h : ∀ n, c.Fruitless (script n))
    (remaining attempt : Nat) (lastStatus : VerificationStatus) (lastHttpStatus : Option UInt16)
    (hlast : remaining = 0 → lastStatus = .networkError ∨ lastStatus = .malformedResponse) :
    let result := c.attemptLoop script remaining attempt lastStatus lastHttpStatus
    result.status = .networkError ∨ result.status = .malformedResponse := by
  induction remaining generalizing attempt lastStatus lastHttpStatus with
  | zero => exact hlast rfl
  | succ remaining ih =>
    have hone := h attempt
    rw [attemptLoop]
    cases ha : script attempt with
    | noPermit cached =>
      rw [ha] at hone
      simp only [Fruitless] at hone
      simp only [hone]
      exact ih _ _ _ fun _ => Or.inl rfl
    | sendError => exact ih _ _ _ fun _ => Or.inl rfl
    | answered status parsed =>
      rw [ha] at hone
      cases hs : isSuccess status with
      | true =>
        simp only [Fruitless,hs,if_true] at hone
        subst hone
        simp only [hs,if_true]
        exact ih _ _ _ fun _ => Or.inr rfl
      | false =>
        simp only [Fruitless,hs,Bool.false_eq_true,if_false] at hone
        simp only [hs,hone,Bool.false_eq_true,if_false,if_true]
        exact ih _ _ _ fun _ => Or.inl rfl

/-- A call without a fruitful attempt counts against the breaker. -/
theorem fruitless_failure {hash : String} {script : Nat → Attempt}
    (h : ∀ n, c.Fruitless (script n)) :
    outcome (c.executeVerifyHashWithRetry hash script) = .failure := by
  have hstatus : (c.verifyHash hash script).status = .networkError ∨
      (c.verifyHash hash script).status = .malformedResponse := by
    rw [verifyHash]
    cases CanonicalHash.new hash with
    | error e => exact Or.inr rfl
    | ok canonical => exact c.fruitless_loop h _ _ _ _ (fun h => by cases h)
  rw [executeVerifyHashWithRetry]
  obtain hstatus | hstatus := hstatus
  · simp only [hstatus]
    rfl
  · simp only [hstatus]
    rfl

theorem attemptLoopCounted_le (script : Nat → Attempt) (remaining attempt : Nat)
    (lastStatus : VerificationStatus) (lastHttpStatus : Option UInt16) :
    (c.attemptLoopCounted script remaining attempt lastStatus lastHttpStatus).2 ≤
      attempt+remaining := by
  induction remaining generalizing attempt lastStatus lastHttpStatus with
  | zero => exact Nat.le_refl _
  | succ remaining ih =>
    have hrest (lastStatus : VerificationStatus) (lastHttpStatus : Option UInt16) :
        (c.attemptLoopCounted script remaining (attempt+1) lastStatus lastHttpStatus).2 ≤
          attempt+(remaining+1) := by
      have h := ih (attempt+1) lastStatus lastHttpStatus
      omega
    have hhere : attempt+1 ≤ attempt+(remaining+1) := by omega
    simp only [attemptLoopCounted]
    cases script attempt with
    | noPermit cached =>
      cases hc : c.tryStaleCacheFallback cached with
      | none => simpa only [hc] using hrest _ _
      | some fallback => simpa only [hc] using hhere
    | sendError => exact hrest _ _
    | answered status parsed =>
      cases hs : isSuccess status with
      | true =>
        cases parsed with
        | error e => simpa only [hs,if_true] using hrest _ _
        | ok record => cases record <;> simpa only [hs,if_true] using hhere
      | false =>
        cases hr : isRetryableStatus status with
        | true => simpa only [hs,hr,Bool.false_eq_true,if_false,if_true] using hrest _ _
        | false => simpa only [hs,hr,Bool.false_eq_true,if_false] using hhere

theorem attemptsMade_le (hash : String) (script : Nat → Attempt) :
    c.attemptsMade hash script ≤ c.maxRetries.toNat+1 := by
  rw [attemptsMade]
  cases CanonicalHash.new hash with
  | error e => exact Nat.zero_le _
  | ok canonical => simpa using c.attemptLoopCounted_le script (c.maxRetries.toNat+1) 0 _ _

end StellarClient

namespace Reference
variable {α : Type} (config : CircuitBreakerConfig) {clock : Nat}

/-- The failing calls that the automaton still takes without tripping. -/
def patience : Reference → Nat
  | .closed failures => config.threshold-failures-1
  | .isOpen _ | .halfOpen _ => 0

theorem patience_le (r : Reference) : r.patience config ≤ config.threshold-1 := by
  cases r with
  | closed failures =>
    simp only [patience]
    omega
  | isOpen _ | halfOpen _ => exact Nat.zero_le _

inductive Failed (start finish : Nat) : Reference → Bool → Reference → Prop
  | waits {since : Nat} : start < since+config.openDuration →
      Failed start finish (.isOpen since) false (.isOpen since)
  | taken {failures : Nat} : failures+1 < config.threshold →
      Failed start finish (.closed failures) true (.closed (failures+1))
  | opens {r : Reference} : r.patience config = 0 →
      (∀ since, r = .isOpen since → since+config.openDuration ≤ start) →
      Failed start finish r true (.isOpen finish)

theorem call_failed (r : Reference) (i : Invocation α) (hresult : outcome i.result = .failure)
    (hr : ∀ failures, r = .closed failures → failures < config.threshold) :
    Failed config i.start i.finish r (r.allow config i.start).1.isOk (r.call config i).2 := by
  cases r with
  | closed failures =>
    have hlt := hr failures rfl
    by_cases htrip : failures+1 = config.threshold
    · simp only [call,allow,hresult,settle,if_pos htrip]
      exact .opens (by simp only [patience]; omega) fun _ h => by cases h
    · simp only [call,allow,hresult,settle,if_neg htrip]
      exact .taken (by omega)
  | isOpen since =>
    by_cases hwait : i.start < since+config.openDuration
    · simp only [call,allow,if_pos hwait]
      exact .waits hwait
    · simp only [call,allow,if_neg hwait,hresult,settle]
      refine .opens rfl fun _ h => ?_
      cases h
      exact Nat.not_lt.mp hwait
  | halfOpen successes =>
    simp only [call,allow,hresult,settle]
    exact .opens rfl fun _ h => by cases h

def toGo : Reference → Nat
  | .closed _ => 0
  | .isOpen _ => config.probes
  | .halfOpen successes => config.probes-successes

theorem toGo_le (r : Reference) : r.toGo config ≤ config.probes := by
  cases r with
  | closed _ => exact Nat.zero_le _
  | isOpen _ => exact Nat.le_refl _
  | halfOpen successes => exact Nat.sub_le _ _

inductive Ready (t : Nat) : Reference → Prop
  | closed {failures : Nat} : Ready t (.closed failures)
  | isOpen {since : Nat} : since+config.openDuration ≤ t → Ready t (.isOpen since)
  | halfOpen {successes : Nat} : successes < config.probes → Ready t (.halfOpen successes)

theorem ready_of_later {b : CircuitBreaker} {r : Reference} {t : Nat}
    (h : Follows config clock b r) (hlater : clock+config.openDuration ≤ t) :
    r.Ready config t := by
  cases h.stands with
  | closed _ _ _ => exact .closed
  | isOpen _ _ hopened => exact .isOpen (by omega)
  | halfOpen _ _ hlt => exact .halfOpen hlt

theorem closed_of_toGo {r : Reference} {t : Nat} (hr : r.Ready config t)
    (h : r.toGo config = 0) : r.state = .closed := by
  have hpos := config.probes_pos
  cases hr with
  | closed => rfl
  | isOpen _ =>
    simp only [toGo] at h
    omega
  | halfOpen hlt =>
    simp only [toGo] at h
    omega

theorem Ready.call {r : Reference} {i : Invocation α} (hr : r.Ready config i.start)
    (hresult : outcome i.result = .success) :
    (r.call config i).1 = i.result ∧ (∀ t, (r.call config i).2.Ready config t) ∧
      (r.call config i).2.toGo config = r.toGo config-1 := by
  cases hr with
  | @closed failures =>
    simp only [Reference.call,allow,hresult,settle]
    exact ⟨trivial,fun _ => .closed,rfl⟩
  | isOpen hover =>
    simp only [Reference.call,allow,if_neg (Nat.not_lt.mpr hover),hresult,settle]
    split
    · next hone => exact ⟨trivial,fun _ => .closed,by simp only [toGo]; omega⟩
    · next hmore =>
      have hpos := config.probes_pos
      exact ⟨trivial,fun _ => .halfOpen (by omega),by simp only [toGo]⟩
  | halfOpen hlt =>
    simp only [Reference.call,allow,hresult,settle]
    split
    · next hlast => exact ⟨trivial,fun _ => .closed,by simp only [toGo]; omega⟩
    · next hmore => exact ⟨trivial,fun _ => .halfOpen (by omega),by simp only [toGo]; omega⟩

end Reference

structure Visit where
  hash : String
  script : Nat → Attempt
  start : Nat
  finish : Nat

namespace Visit
variable (c : StellarClient)

def invocation (v : Visit) : Invocation VerificationResult :=
  ⟨v.start,v.finish,c.executeVerifyHashWithRetry v.hash v.script⟩

def run (v : Visit) (b : CircuitBreaker) : StellarResult VerificationResult × CircuitBreaker :=
  b.call (v.invocation c)

def admitted (v : Visit) (b : CircuitBreaker) : List Visit :=
  if (b.allowCall v.start).1.isOk then [v] else []

def attemptsOf (v : Visit) (b : CircuitBreaker) : Nat :=
  (v.admitted b).length*c.attemptsMade v.hash v.script

def times (l : List Visit) : List Nat := l.flatMap fun v => [v.start,v.finish]

variable {c} {clock stop : Nat} {b : CircuitBreaker} {r : Reference} {l : List Visit}

theorem times_cons {v : Visit} {rest : List Nat}
    (h : (clock::(times (v::l)++rest)).Pairwise (· ≤ ·)) :
    clock ≤ v.start ∧ v.start ≤ v.finish ∧ (v.finish::(times l++rest)).Pairwise (· ≤ ·) := by
  obtain ⟨hstart,hrest⟩ := List.pairwise_cons.mp h
  obtain ⟨hfinish,hrest⟩ := List.pairwise_cons.mp hrest
  exact ⟨hstart v.start List.mem_cons_self,hfinish v.finish List.mem_cons_self,hrest⟩

theorem follows_run (h : Follows c.circuitBreaker clock b r)
    (hclock : (clock::(times l++[stop])).Pairwise (· ≤ ·)) :
    ∃ r', Follows c.circuitBreaker stop (Machine.final (run c) l b) r' := by
  induction l generalizing clock b r with
  | nil =>
    have hle : clock ≤ stop := by simpa [times] using hclock
    exact ⟨r,h.later hle⟩
  | cons v l ih =>
    obtain ⟨hstart,hfinish,hrest⟩ := times_cons hclock
    exact ih (h.call (v.invocation c) hstart hfinish).2 hrest

/-- `w` begins an open period after the end of `v`. -/
def Apart (config : CircuitBreakerConfig) (v w : Visit) : Prop :=
  v.finish+config.openDuration ≤ w.start

theorem within (hclock : (clock::(times l++[stop])).Pairwise (· ≤ ·)) :
    ∀ v∈l, clock ≤ v.start ∧ v.start ≤ v.finish ∧ v.finish ≤ stop := by
  induction l generalizing clock with
  | nil => simp
  | cons v l ih =>
    obtain ⟨hstart,hfinish,hrest⟩ := times_cons hclock
    intro w hw
    obtain rfl | hw := List.mem_cons.mp hw
    · exact ⟨hstart,hfinish,(List.pairwise_cons.mp hrest).1 stop (by simp)⟩
    · obtain ⟨hafter,hrest⟩ := ih hrest w hw
      exact ⟨hstart.trans (hfinish.trans hafter),hrest⟩

theorem mem_of_letThrough {v : Visit} (hv : v∈Machine.trace (run c) admitted l b) : v∈l := by
  induction l generalizing b with
  | nil => cases hv
  | cons w l ih =>
    obtain hv | hv := List.mem_append.mp hv
    · rw [admitted] at hv
      split at hv
      · exact List.mem_cons.mpr (Or.inl (List.mem_singleton.mp hv))
      · cases hv
    · exact List.mem_cons_of_mem w (ih hv)

/-- As long as Horizon is down the calls that are let through lie apart, from the one on that
opens the breaker. -/
theorem apart_run (h : Follows c.circuitBreaker clock b r)
    (hclock : (clock::(times l++[stop])).Pairwise (· ≤ ·))
    (hdown : ∀ v∈l, ∀ n, c.Fruitless (v.script n)) :
    let passed := Machine.trace (run c) admitted l b
    (passed.drop (r.patience c.circuitBreaker)).Pairwise (Apart c.circuitBreaker) ∧
      ∀ since, r = .isOpen since → ∀ v∈passed, since+c.circuitBreaker.openDuration ≤ v.start := by
  induction l generalizing clock b r with
  | nil => exact ⟨by simp [Machine.trace],fun _ _ _ hv => by cases hv⟩
  | cons v l ih =>
    obtain ⟨hstart,hfinish,hrest⟩ := times_cons hclock
    obtain ⟨hapart,hwait⟩ := ih (h.call (v.invocation c) hstart hfinish).2 hrest
      fun w hw => hdown w (List.mem_cons_of_mem _ hw)
    have hvalid : ∀ failures, r = .closed failures → failures < c.circuitBreaker.threshold := by
      rintro failures rfl
      cases h.stands with
      | closed _ _ hlt => exact hlt
    have hfailed := Reference.call_failed c.circuitBreaker r (v.invocation c)
      (c.fruitless_failure (hdown v List.mem_cons_self)) hvalid
    have hsame : (b.allowCall v.start).1.isOk = (r.allow c.circuitBreaker v.start).1.isOk := by
      rw [(h.allow hstart).1]
    simp only [Machine.trace,admitted,hsame]
    have hrun : (run c v b).2 = (b.call (v.invocation c)).2 := rfl
    rw [hrun]
    simp only [invocation] at hfailed hapart hwait ⊢
    generalize Machine.trace (run c) admitted l _ = passed at hapart hwait ⊢
    generalize (r.allow c.circuitBreaker v.start).1.isOk = ok at hfailed ⊢
    generalize (r.call c.circuitBreaker _).2 = r' at hfailed hapart hwait
    cases hfailed with
    | @waits since hlt => exact ⟨hapart,fun _ h => hwait _ h⟩
    | @taken failures hlt =>
      have hskip : Reference.patience c.circuitBreaker (.closed failures) =
          Reference.patience c.circuitBreaker (.closed (failures+1))+1 := by
        simp only [Reference.patience]
        omega
      refine ⟨?_,fun _ h => by cases h⟩
      rw [hskip]
      exact hapart
    | opens hzero hover =>
      have hlater := hwait v.finish rfl
      rw [hzero]
      refine ⟨List.pairwise_cons.mpr ⟨hlater,hapart⟩,fun since hr w hw => ?_⟩
      have hv := hover since hr
      obtain rfl | hw := List.mem_cons.mp hw
      · exact hv
      · have hw := hlater w hw
        omega

theorem attempts_le (l : List Visit) (b : CircuitBreaker) :
    Machine.total (run c) (attemptsOf c) l b ≤
      (Machine.trace (run c) admitted l b).length*(c.maxRetries.toNat+1) := by
  induction l generalizing b with
  | nil => exact Nat.zero_le _
  | cons v l ih =>
    have hone : attemptsOf c v b ≤ (admitted v b).length*(c.maxRetries.toNat+1) :=
      Nat.mul_le_mul_left _ (c.attemptsMade_le v.hash v.script)
    rw [Machine.total,Machine.trace,List.length_append,Nat.add_mul]
    exact Nat.add_le_add hone (ih _)

theorem length_of_apart {config : CircuitBreakerConfig} (hapart : l.Pairwise (Apart config))
    (hle : clock ≤ stop)
    (hwithin : ∀ v∈l, clock ≤ v.start ∧ v.start ≤ v.finish ∧ v.finish ≤ stop) :
    clock+(l.length-1)*config.openDuration ≤ stop := by
  induction l generalizing clock with
  | nil => simpa using hle
  | cons v l ih =>
    obtain ⟨hnext,hapart⟩ := List.pairwise_cons.mp hapart
    obtain ⟨hstart,hfinish,hstop⟩ := hwithin v List.mem_cons_self
    cases l with
    | nil => simpa using hle
    | cons w l =>
      obtain ⟨-,hfinish',hstop'⟩ := hwithin w (by simp)
      have hw : v.finish+config.openDuration ≤ w.start := hnext w List.mem_cons_self
      have hrest : v.finish+config.openDuration+((w::l).length-1)*config.openDuration ≤ stop :=
        ih hapart (by omega) fun u hu => ⟨hnext u hu,(hwithin u (List.mem_cons_of_mem v hu)).2⟩
      simp only [List.length_cons,Nat.add_sub_cancel,Nat.succ_mul] at hrest ⊢
      omega

theorem shed_run (h : Follows c.circuitBreaker clock b r)
    (hclock : (clock::(times l++[stop])).Pairwise (· ≤ ·))
    (hdown : ∀ v∈l, ∀ n, c.Fruitless (v.script n)) :
    let passed := Machine.trace (run c) admitted l b
    (passed.drop (c.circuitBreaker.threshold-1)).Pairwise (Apart c.circuitBreaker) ∧
      (passed.length-c.circuitBreaker.threshold)*c.circuitBreaker.openDuration ≤ stop-clock := by
  intro passed
  have hpatience := r.patience_le c.circuitBreaker
  have hskip : c.circuitBreaker.threshold-1 = r.patience c.circuitBreaker+
      (c.circuitBreaker.threshold-1-r.patience c.circuitBreaker) := by omega
  have hapart : (passed.drop (c.circuitBreaker.threshold-1)).Pairwise
      (Apart c.circuitBreaker) := by
    rw [hskip,← List.drop_drop]
    exact (apart_run h hclock hdown).1.drop
  have hle : clock ≤ stop := (List.pairwise_cons.mp hclock).1 stop (by simp)
  have hload := length_of_apart hapart hle fun v hv =>
    within hclock v (mem_of_letThrough (List.mem_of_mem_drop hv))
  have hpos := c.circuitBreaker.threshold_pos
  have hcount : passed.length-(c.circuitBreaker.threshold-1)-1 =
      passed.length-c.circuitBreaker.threshold := by omega
  rw [List.length_drop,hcount] at hload
  exact ⟨hapart,by omega⟩

/-- Calls that find the automaton ready and Horizon up all pass, and close the breaker. -/
theorem recovery_run (h : Follows c.circuitBreaker clock b r)
    (hclock : (clock::times l).Pairwise (· ≤ ·))
    (hready : ∀ v∈l, r.Ready c.circuitBreaker v.start)
    (hup : ∀ v∈l, outcome (c.executeVerifyHashWithRetry v.hash v.script) = .success) :
    (∀ p∈Machine.outputs (run c) l b,
        p.2 = c.executeVerifyHashWithRetry p.1.hash p.1.script) ∧
      (l≠[] → r.toGo c.circuitBreaker ≤ l.length →
        (Machine.final (run c) l b).state = .closed) := by
  induction l generalizing clock b r with
  | nil => exact ⟨nofun,fun h => absurd rfl h⟩
  | cons v l ih =>
    rw [← List.append_nil (times (v::l))] at hclock
    obtain ⟨hstart,hfinish,hrest⟩ := times_cons hclock
    rw [List.append_nil] at hrest
    obtain ⟨hanswer,hnext⟩ := h.call (v.invocation c) hstart hfinish
    obtain ⟨hpass,hready',htoGo⟩ :=
      (hready v List.mem_cons_self).call c.circuitBreaker (i := v.invocation c)
        (hup v List.mem_cons_self)
    obtain ⟨houtputs,hclosed⟩ := ih hnext hrest (fun w _ => hready' w.start)
      fun w hw => hup w (List.mem_cons_of_mem _ hw)
    refine ⟨fun p hp => ?_,fun _ hlength => ?_⟩
    · obtain rfl | hp := List.mem_cons.mp hp
      · exact hanswer.trans hpass
      · exact houtputs p hp
    · cases l with
      | nil =>
        have hzero : (r.call c.circuitBreaker (v.invocation c)).2.toGo c.circuitBreaker = 0 := by
          rw [htoGo]
          simp only [List.length_cons,List.length_nil] at hlength
          omega
        exact hnext.state_eq.trans
          (Reference.closed_of_toGo c.circuitBreaker (hready' 0) hzero)
      | cons w l =>
        refine hclosed (List.cons_ne_nil _ _) ?_
        rw [htoGo]
        simp only [List.length_cons] at hlength ⊢
        omega

end Visit

open Visit in
/-- During an outage the calls let through, from the one on that opens the breaker, begin an open
period after the end of the one before; after it all calls pass. -/
theorem outage_sheds_and_recovers (c : StellarClient) (before during after : List Visit)
    (since stop : Nat)
    (hclock : (times before++since::(times during++stop::times after)).Pairwise (· ≤ ·))
    (hdown : ∀ v∈during, ∀ n, c.Fruitless (v.script n))
    (hup : ∀ v∈after, outcome (c.executeVerifyHashWithRetry v.hash v.script) = .success)
    (hlater : ∀ v∈after, stop+c.circuitBreaker.openDuration ≤ v.start) :
    let b := Machine.final (run c) before (.new c.circuitBreaker)
    let b' := Machine.final (run c) during b
    let passed := Machine.trace (run c) admitted during b
    (passed.drop (c.circuitBreaker.threshold-1)).Pairwise (Apart c.circuitBreaker) ∧
      (passed.length-c.circuitBreaker.threshold)*c.circuitBreaker.openDuration ≤ stop-since ∧
      Machine.total (run c) (attemptsOf c) during b ≤ passed.length*(c.maxRetries.toNat+1) ∧
      (∀ p∈Machine.outputs (run c) after b',
        p.2 = c.executeVerifyHashWithRetry p.1.hash p.1.script) ∧
      (c.circuitBreaker.probes ≤ after.length →
        (Machine.final (run c) after b').state = .closed) := by
  intro b b' passed
  obtain ⟨hbefore,hrest,hbetween⟩ := List.pairwise_append.mp hclock
  obtain ⟨hsince,hrest⟩ := List.pairwise_cons.mp hrest
  obtain ⟨hduring,hafter,hbetween'⟩ := List.pairwise_append.mp hrest
  have hfirst : (0::(times before++[since])).Pairwise (· ≤ ·) :=
    List.pairwise_cons.mpr ⟨fun _ _ => Nat.zero_le _,List.pairwise_append.mpr
      ⟨hbefore,List.pairwise_singleton _ _,fun t ht u hu => by
        rw [List.mem_singleton.mp hu]
        exact hbetween t ht since List.mem_cons_self⟩⟩
  have hsecond : (since::(times during++[stop])).Pairwise (· ≤ ·) := by
    refine List.pairwise_cons.mpr ⟨fun t ht => hsince t ?_,List.pairwise_append.mpr
      ⟨hduring,List.pairwise_singleton _ _,fun t ht u hu => ?_⟩⟩
    · obtain ht | ht := List.mem_append.mp ht
      · exact List.mem_append_left _ ht
      · exact List.mem_append_right _ (List.mem_singleton.mp ht ▸ List.mem_cons_self)
    · rw [List.mem_singleton.mp hu]
      exact hbetween' t ht stop List.mem_cons_self
  obtain ⟨r,hr⟩ := follows_run (follows_new c.circuitBreaker) hfirst
  obtain ⟨r',hr'⟩ := follows_run hr hsecond
  obtain ⟨hapart,hload⟩ := shed_run hr hsecond hdown
  have hready : ∀ v∈after, r'.Ready c.circuitBreaker v.start := fun v hv =>
    Reference.ready_of_later c.circuitBreaker hr' (hlater v hv)
  obtain ⟨hpass,hclosed⟩ := recovery_run hr' hafter hready hup
  refine ⟨hapart,hload,attempts_le during b,hpass,fun hlength => ?_⟩
  refine hclosed ?_ ((r'.toGo_le c.circuitBreaker).trans hlength)
  rintro rfl
  exact absurd hlength (Nat.not_le.mpr c.circuitBreaker.probes_pos)

open Visit in
/-- Threshold 2, open for 10: down from 0 to 14, of five calls three are let through. -/
theorem outage_sheds_and_recovers_after_three_calls :
    let c : StellarClient := ⟨"h",1,⟨2,10,1⟩,true⟩
    let hash := "aaaaaaaaaaaaaaaaaaaaaaaaaaaaaaaaaaaaaaaaaaaaaaaaaaaaaaaaaaaaaaaa"
    let during : List Visit := [⟨hash,fun _ => .sendError,0,1⟩,⟨hash,fun _ => .sendError,1,2⟩,
      ⟨hash,fun _ => .sendError,3,3⟩,⟨hash,fun _ => .sendError,12,13⟩,
      ⟨hash,fun _ => .sendError,14,14⟩]
    let after : List Visit := [⟨hash,fun _ => .answered 200 (.ok none),24,25⟩]
    let b := Machine.final (run c) during (.new c.circuitBreaker)
    (Machine.trace (run c) admitted during (.new c.circuitBreaker)).map Visit.start = [0,1,12] ∧
      (Machine.final (run c) after b).state = .closed := by
  intro c hash during after b
  have h := outage_sheds_and_recovers c [] during after 0 14 (by decide)
    (fun v hv n => by
      simp only [during,List.mem_cons,List.not_mem_nil,or_false] at hv
      obtain rfl | rfl | rfl | rfl | rfl := hv <;> trivial)
    (fun v hv => by
      obtain rfl := List.mem_singleton.mp hv
      decide +kernel)
    (fun v hv => by
      obtain rfl := List.mem_singleton.mp hv
      decide)
  exact ⟨by decide +kernel,h.2.2.2.2 (by decide)⟩

end ProofStell.Stellar
