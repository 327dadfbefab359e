import ProofStell.Stellar.Client

/-! What a call with a hash that is not canonical does to the breaker, although no
request is ever sent for it. -/
namespace ProofStell.Stellar
open Hash

namespace CircuitBreaker

/-- The part of the breaker that its decisions depend on. -/
def core (b : CircuitBreaker) : CircuitBreaker := { b with halfOpenInFlight := 0, metrics := {} }

theorem allowCall_core (now : Nat) (b : CircuitBreaker) :
    (b.allowCall now).1 = (b.core.allowCall now).1 ∧
      (b.allowCall now).2.core = (b.core.allowCall now).2.core := by
  obtain ⟨config,state,openedAt,failures,inFlight,successes,permits,metrics⟩ := b
  cases state with
  | closed => exact ⟨rfl,rfl⟩
  | isOpen =>
    cases openedAt with
    | none => exact ⟨rfl,rfl⟩
    | some openedAt =>
      by_cases h : now-openedAt ≥ config.openDuration <;>
        simp [allowCall,core,h,enterHalfOpen,incrementRejectedCalls,count]
  | halfOpen =>
    by_cases h : permits = 0 <;> simp [allowCall,core,h,incrementRejectedCalls,count]

theorem recordSuccess_core (b : CircuitBreaker) :
    b.recordSuccess.core = b.core.recordSuccess.core := by
  obtain ⟨config,state,openedAt,failures,inFlight,successes,permits,metrics⟩ := b
  cases state with
  | closed => rfl
  | isOpen => rfl
  | halfOpen =>
    by_cases h : (successes+1).toNat ≥ (max config.halfOpenMaxCalls 1).toNat <;>
      simp only [recordSuccess,core,h,incrementSuccessfulCalls,incrementHalfOpenSuccesses,
        incrementRecoveries,count,if_true,if_false]

theorem recordFailure_core (now : Nat) (err : StellarError) (b : CircuitBreaker) :
    (b.recordFailure now err).core = (b.core.recordFailure now err).core := by
  obtain ⟨config,state,openedAt,failures,inFlight,successes,permits,metrics⟩ := b
  cases state with
  | closed =>
    by_cases h : (failures+1).toNat ≥ (max config.failureThreshold 1).toNat <;> cases err <;>
      simp only [recordFailure,core,h,incrementFailedCalls,incrementTimeoutCalls,
        incrementRetryableHttpCalls,incrementTrips,count,if_true,if_false]
  | isOpen => rfl
  | halfOpen => rfl

theorem recordResult_core {α : Type} (now : Nat) (result : StellarResult α) (b : CircuitBreaker) :
    (b.recordResult now result).core = (b.core.recordResult now result).core := by
  cases result with
  | ok a => exact recordSuccess_core b
  | error err =>
    simp only [recordResult]
    split
    · exact recordFailure_core now err b
    · rfl

def view (b : CircuitBreaker) : CircuitState × UInt64 := (b.state,b.consecutiveFailures)

theorem view_core (b : CircuitBreaker) : b.core.view = b.view := rfl

theorem recordFailure_open (now : Nat) (err : StellarError) {b : CircuitBreaker}
    (h : b.state = .isOpen) : b.recordFailure now err = b := by
  simp only [recordFailure,h]

/-- Unless the breaker is open, a recorded failure shows. -/
theorem recordFailure_shows (now : Nat) (err : StellarError) {b : CircuitBreaker}
    (h : b.state≠.isOpen) : (b.recordFailure now err).view≠b.view := by
  obtain ⟨config,state,openedAt,failures,inFlight,successes,permits,metrics⟩ := b
  cases state with
  | isOpen => exact absurd rfl h
  | halfOpen => simp [recordFailure,view,incrementTrips,incrementFailedCalls,
      incrementHalfOpenFailures,count]
  | closed =>
    have counted : (recordFailure now err ⟨config,.closed,openedAt,failures,inFlight,successes,
        permits,metrics⟩).consecutiveFailures = failures+1 := by
      cases err <;> simp only [recordFailure] <;> split <;> rfl
    intro hsame
    have hfix : failures+1 = failures := counted.symm.trans (congrArg Prod.snd hsame)
    have hnat := congrArg UInt64.toNat hfix
    rw [UInt64.toNat_add] at hnat
    have := failures.toNat_lt
    simp only [UInt64.toNat_one] at hnat
    omega

def Rejecting (now : Nat) (b : CircuitBreaker) : Prop :=
  b.state = .isOpen ∧ ∃ openedAt, b.openedAt = some openedAt ∧ now-openedAt < b.config.openDuration

/-- `allow_call` moves an open breaker only when its open period is over; any other
breaker keeps its core. -/
theorem allowCall_still {now : Nat} {b : CircuitBreaker}
    (h : b.state = .isOpen → b.Rejecting now) : (b.allowCall now).2.core = b.core := by
  cases hs : b.state with
  | closed => simp only [allowCall,hs]
  | halfOpen =>
    simp only [allowCall,hs]
    split <;> simp [core,hs,incrementRejectedCalls,count]
  | isOpen =>
    obtain ⟨-,openedAt,ho,hlt⟩ := h hs
    have hnot : ¬now-openedAt ≥ b.config.openDuration := by omega
    simp only [allowCall,hs,ho,if_neg hnot]
    rfl

theorem allowCall_shows {now : Nat} {b : CircuitBreaker} (hs : b.state = .isOpen)
    (h : ¬b.Rejecting now) : (b.allowCall now).2.view≠b.view := by
  have moved : (b.allowCall now).2.state = .halfOpen := by
    cases ho : b.openedAt with
    | none => simp only [allowCall,hs,ho,enterHalfOpen]
    | some openedAt =>
      have hover : now-openedAt ≥ b.config.openDuration := by
        by_contra hlt
        exact h ⟨hs,openedAt,ho,by omega⟩
      simp only [allowCall,hs,ho,if_pos hover,enterHalfOpen]
  intro hsame
  have hstate : CircuitState.halfOpen = .isOpen :=
    moved.symm.trans ((congrArg Prod.fst hsame).trans hs)
  exact absurd hstate (by decide)

end CircuitBreaker

variable (c : StellarClient)

/-- What a caller gets for a hash that is not canonical: a failed request. -/
def mistakeError : StellarError :=
  .retryExhausted "verify_hash" (c.maxRetries+1) c.maxRetries
    (.request c.horizonUrl "verification returned MalformedResponse")

theorem executeVerifyHashWithRetry_mistake {hash : String} (h : accepted hash = false)
    (script : Nat → Attempt) :
    c.executeVerifyHashWithRetry hash script = .error (mistakeError c) := by
  have hres : c.verifyHash hash script = ⟨.malformedResponse,none,none,none⟩ := by
    rw [StellarClient.verifyHash]
    cases hnew : CanonicalHash.new hash with
    | error e => rfl
    | ok a => simp [accepted,hnew,Except.isOk,Except.toBool] at h
  rw [StellarClient.executeVerifyHashWithRetry,hres]
  rfl

theorem recordResult_mistake {hash : String} (h : accepted hash = false)
    (script : Nat → Attempt) (now : Nat) (b : CircuitBreaker) :
    b.recordResult now (c.executeVerifyHashWithRetry hash script) =
      b.recordFailure now (mistakeError c) := by
  rw [executeVerifyHashWithRetry_mistake c h]
  rfl

def Step.canonical (i : Step) : Bool := accepted i.call.hash

/-- The step finds a breaker it cannot move: not one whose open period is over when the
call arrives, and an open one when the result of an admitted call is recorded. -/
def Harmless (s : Service) : Step → Prop
  | .arrive _ now => s.breaker.state = .isOpen → s.breaker.Rejecting now
  | .finish call _ _ => call∈s.pending → s.breaker.state = .isOpen

def Related (s t : Service) : Prop :=
  s.breaker.core = t.breaker.core ∧ s.pending.filter (accepted ·.hash) = t.pending

def view (s : Service) : CircuitState × UInt64 := s.breaker.view

theorem Related.view_eq {s t : Service} (h : Related s t) : view s = view t := by
  rw [view,view,← CircuitBreaker.view_core,h.1,CircuitBreaker.view_core]

theorem arrive_eq (call : Call) (now : Nat) (s : Service) :
    verifyHashWithRetry c (.arrive call now) s =
      match (s.breaker.allowCall now).1 with
      | .ok () => (none,⟨(s.breaker.allowCall now).2,call::s.pending⟩)
      | .error e => (some (.error e),⟨(s.breaker.allowCall now).2,s.pending⟩) := by
  rw [verifyHashWithRetry]
  generalize s.breaker.allowCall now = p
  obtain ⟨answer,b⟩ := p
  cases answer <;> rfl

theorem arrive_breaker (call : Call) (now : Nat) (s : Service) :
    (verifyHashWithRetry c (.arrive call now) s).2.breaker = (s.breaker.allowCall now).2 := by
  rw [arrive_eq]
  split <;> rfl

theorem step_harmless {i : Step} {s t : Service} (hi : i.canonical = false) (h : Related s t)
    (hq : Harmless s i) : Related (verifyHashWithRetry c i s).2 t := by
  cases i with
  | arrive call now =>
    have hcall : accepted call.hash = false := hi
    refine ⟨?_,?_⟩
    · rw [arrive_breaker,CircuitBreaker.allowCall_still hq]
      exact h.1
    · rw [← h.2,arrive_eq]
      split <;> simp [hcall]
  | finish call script now =>
    have hcall : accepted call.hash = false := hi
    by_cases hp : call∈s.pending
    · simp only [verifyHashWithRetry,if_pos hp,recordResult_mistake c hcall,
        CircuitBreaker.recordFailure_open now _ (hq hp)]
      refine ⟨h.1,?_⟩
      · rw [← List.erase_filter,h.2]
        apply List.erase_of_not_mem
        rw [← h.2]
        simp [hcall]
    · simpa only [verifyHashWithRetry,if_neg hp] using h

theorem step_harmful {i : Step} {s t : Service} (hi : i.canonical = false) (h : Related s t)
    (hq : ¬Harmless s i) : view (verifyHashWithRetry c i s).2≠view t := by
  rw [← h.view_eq]
  cases i with
  | arrive call now =>
    simp only [Harmless,Classical.not_imp] at hq
    rw [view,arrive_breaker]
    exact CircuitBreaker.allowCall_shows hq.1 hq.2
  | finish call script now =>
    simp only [Harmless,Classical.not_imp] at hq
    obtain ⟨hp,hopen⟩ := hq
    have hcall : accepted call.hash = false := hi
    simp only [verifyHashWithRetry,if_pos hp,recordResult_mistake c hcall,view]
    exact CircuitBreaker.recordFailure_shows now (mistakeError c) hopen

theorem step_canonical {i : Step} {s t : Service} (hi : i.canonical = true) (h : Related s t) :
    (verifyHashWithRetry c i s).1 = (verifyHashWithRetry c i t).1 ∧
      Related (verifyHashWithRetry c i s).2 (verifyHashWithRetry c i t).2 := by
  cases i with
  | arrive call now =>
    have hcall : accepted call.hash = true := hi
    have hs := CircuitBreaker.allowCall_core now s.breaker
    have ht := CircuitBreaker.allowCall_core now t.breaker
    rw [h.1] at hs
    have hans : (s.breaker.allowCall now).1 = (t.breaker.allowCall now).1 := hs.1.trans ht.1.symm
    have hcore := hs.2.trans ht.2.symm
    rw [arrive_eq,arrive_eq,hans]
    cases (t.breaker.allowCall now).1 with
    | ok a => exact ⟨rfl,hcore,by simp [hcall,h.2]⟩
    | error e => exact ⟨rfl,hcore,h.2⟩
  | finish call script now =>
    have hcall : accepted call.hash = true := hi
    have hmem : call∈s.pending ↔ call∈t.pending := by
      rw [← h.2]
      simp [hcall]
    by_cases hp : call∈t.pending
    · simp only [verifyHashWithRetry,if_pos hp,if_pos (hmem.mpr hp)]
      refine ⟨trivial,?_,?_⟩
      · rw [CircuitBreaker.recordResult_core,h.1,← CircuitBreaker.recordResult_core]
      · rw [← List.erase_filter,h.2]
    · have hp' : call∉s.pending := fun hs => hp (hmem.mp hs)
      simp only [verifyHashWithRetry,if_neg hp,if_neg hp']
      exact ⟨trivial,h⟩

def serviceAt (l : List Step) (n : Nat) : Service :=
  Machine.final (verifyHashWithRetry c) (l.take n) (.new c.circuitBreaker)

/-- In every initial part of the run, deleting the calls with a hash that is not canonical changes
neither what everyone sees of the breaker nor the other results. -/
def Unaffected (l : List Step) : Prop :=
  ∀ n, Machine.SameView (verifyHashWithRetry c) Step.canonical view (l.take n)
    (.new c.circuitBreaker) (.new c.circuitBreaker)

/-- Deleting the mistakes of callers goes unnoticed exactly in the runs where each of
their steps finds a breaker it cannot move. -/
theorem unaffected_iff (l : List Step) :
    Unaffected c l ↔
      ∀ n i, l[n]? = some i → i.canonical = false → Harmless (serviceAt c l n) i :=
  Machine.same_view_iff Related Step.canonical view Harmless (fun _ _ h => h.view_eq)
    (fun _ _ _ hi h hq => step_harmless c hi h hq) (fun _ _ _ hi h hq => step_harmful c hi h hq)
    (fun _ _ _ hi h => step_canonical c hi h) l _ _ ⟨rfl,rfl⟩

/-- With the default settings five calls with a hash that is none open the breaker, and
the valid call after them is turned away. -/
theorem mistakes_open_breaker :
    let c : StellarClient := ⟨"https://horizon.stellar.org",3,.default,true⟩
    let bad (n : Nat) : Call := ⟨n,"not a hash"⟩
    let good : Call := ⟨5,"e3b0c44298fc1c149afbf4c8996fb92427ae41e4649b934ca495991b7852b855"⟩
    let answer : Attempt := .answered 200 (.ok (some ⟨"tx",1704067200,true⟩))
    let silent : Nat → Attempt := fun _ => .sendError
    let mistakes : List Step := (List.range 5).flatMap fun n =>
      [.arrive (bad n) n,.finish (bad n) silent n]
    let l : List Step := mistakes++[.arrive good 5,.finish good (fun _ => answer) 6]
    let results (l : List Step) :=
      (Machine.outputs (verifyHashWithRetry c) l (.new c.circuitBreaker)).map Prod.snd
    view (serviceAt c l 10) = (.isOpen,5) ∧
      (results l).drop 10 = [some (.error (.circuitOpen .isOpen 29999999999)),none] ∧
      results (l.filter Step.canonical) =
        [none,some (.ok ⟨.confirmedMatch,some "tx",some 1704067200,none⟩)] ∧
      ¬Unaffected c l := by
  intro c bad good answer silent mistakes l results
  have hopen : view (serviceAt c l 10) = (.isOpen,5) := by decide +kernel
  have hpurged : view (Machine.final (verifyHashWithRetry c) ((l.take 10).filter Step.canonical)
      (.new c.circuitBreaker)) = (.closed,0) := by
    decide +kernel
  refine ⟨hopen,by decide +kernel,by decide +kernel,fun h => ?_⟩
  have hsame : (CircuitState.isOpen,(5 : UInt64)) = (.closed,0) :=
    hopen.symm.trans ((h 10).1.trans hpurged)
  exact absurd hsame (by decide)

end ProofStell.Stellar
