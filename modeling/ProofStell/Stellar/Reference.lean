import ProofStell.Stellar.Transitions
import Mathlib.Data.List.Pairwise

/-! The breaker against the automaton its runbook documents: three states, each with the one
number or instant that decides its next transition. -/
namespace ProofStell.Stellar

/-- Failures since the last success or closing, the opening instant, successful probes. -/
inductive Reference where
  | closed (failures : Nat)
  | isOpen (since : Nat)
  | halfOpen (successes : Nat)
  deriving DecidableEq, Repr

namespace Reference
variable (config : CircuitBreakerConfig)

def state : Reference → CircuitState
  | .closed _ => .closed
  | .isOpen _ => .isOpen
  | .halfOpen _ => .halfOpen

def allow (now : Nat) : Reference → StellarResult Unit × Reference
  | .isOpen since =>
    if now < since+config.openDuration then
      (.error (.circuitOpen .isOpen (since+config.openDuration-now)),.isOpen since)
    else (.ok (),.halfOpen 0)
  | r => (.ok (),r)

def settle (now : Nat) : Outcome → Reference → Reference
  | .success, .closed _ => .closed 0
  | .failure, .closed failures =>
    if failures+1 = config.threshold then .isOpen now else .closed (failures+1)
  | .success, .halfOpen successes =>
    if successes+1 = config.probes then .closed 0 else .halfOpen (successes+1)
  | .failure, .halfOpen _ => .isOpen now
  | _, r => r

end Reference

/-- One call with the readings of the clock in `allow_call` and in `record_result`, and the
result its operation would have. -/
structure Invocation (α : Type) where
  start : Nat
  finish : Nat
  result : StellarResult α

def CircuitBreaker.call {α : Type} (i : Invocation α) (b : CircuitBreaker) :
    StellarResult α × CircuitBreaker :=
  match b.allowCall i.start with
  | (.error err,b) => (.error err,b)
  | (.ok _,b) => (i.result,b.recordResult i.finish i.result)

def Reference.call {α : Type} (config : CircuitBreakerConfig) (i : Invocation α) (r : Reference) :
    StellarResult α × Reference :=
  match r.allow config i.start with
  | (.error err,r) => (.error err,r)
  | (.ok _,r) => (i.result,r.settle config i.finish (outcome i.result))

inductive Stands (config : CircuitBreakerConfig) (clock : Nat) (b : CircuitBreaker) :
    Reference → Prop
  | closed {failures : Nat} : b.state = .closed → b.consecutiveFailures.toNat = failures →
      failures < config.threshold → Stands config clock b (.closed failures)
  | isOpen {since : Nat} : b.state = .isOpen → b.openedAt = some since → since ≤ clock →
      Stands config clock b (.isOpen since)
  | halfOpen {successes : Nat} : b.state = .halfOpen → b.halfOpenSuccesses.toNat = successes →
      successes < config.probes → Stands config clock b (.halfOpen successes)

structure Follows (config : CircuitBreakerConfig) (clock : Nat) (b : CircuitBreaker)
    (r : Reference) : Prop where
  same : b.config = config
  permits : b.halfOpenSemaphore≠0
  stands : Stands config clock b r

theorem Follows.state_eq {config : CircuitBreakerConfig} {clock : Nat} {b : CircuitBreaker}
    {r : Reference} (h : Follows config clock b r) : b.state = r.state := by
  obtain ⟨_,_,hs⟩ := h
  cases hs with
  | closed hs _ _ => exact hs
  | isOpen hs _ _ => exact hs
  | halfOpen hs _ _ => exact hs

theorem follows_new (config : CircuitBreakerConfig) :
    Follows config 0 (.new config) (.closed 0) where
  same := rfl
  permits := Nat.ne_of_gt config.probes_pos
  stands := .closed rfl rfl config.threshold_pos

section
variable {config : CircuitBreakerConfig} {clock now : Nat} {b : CircuitBreaker} {r : Reference}

theorem Follows.allow (h : Follows config clock b r) (hle : clock ≤ now) :
    (b.allowCall now).1 = (r.allow config now).1 ∧
      Follows config now (b.allowCall now).2 (r.allow config now).2 := by
  obtain ⟨hsame,hpermits,hstands⟩ := h
  have hallowed := b.allowCall_allowed now
  generalize (b.allowCall now).1 = answer at hallowed ⊢
  generalize (b.allowCall now).2 = b' at hallowed ⊢
  cases hstands with
  | closed hs hf hlt =>
    cases hallowed with
    | passed _ => exact ⟨rfl,hsame,hpermits,.closed hs hf hlt⟩
    | entered hs' _ | waiting hs' _ _ | probe hs' _ | crowded hs' _ => simp [hs] at hs'
  | @isOpen since hs ho hsince =>
    cases hallowed with
    | entered _ hover =>
      have hge : config.openDuration ≤ now-since := by
        simpa [CircuitBreaker.openOver,ho,hsame] using hover
      rw [Reference.allow,if_neg (by omega)]
      exact ⟨rfl,hsame,hpermits,.halfOpen rfl rfl config.probes_pos⟩
    | @waiting openedAt _ ho' hlt =>
      obtain rfl : since = openedAt := Option.some.inj (ho.symm.trans ho')
      rw [hsame] at hlt ⊢
      rw [Reference.allow,if_pos (by omega)]
      refine ⟨?_,hsame,hpermits,.isOpen hs ho (by omega)⟩
      have hwait : config.openDuration-(now-since) = since+config.openDuration-now := by omega
      rw [hwait]
    | passed hs' | probe hs' _ | crowded hs' _ => simp [hs] at hs'
  | halfOpen hs hk hlt =>
    cases hallowed with
    | probe _ _ => exact ⟨rfl,hsame,hpermits,.halfOpen hs hk hlt⟩
    | crowded _ hnone => exact absurd hnone hpermits
    | passed hs' | entered hs' _ | waiting hs' _ _ => simp [hs] at hs'

theorem Follows.settle {α : Type} (h : Follows config clock b r) (hle : clock ≤ now)
    (result : StellarResult α) :
    Follows config now (b.recordResult now result) (r.settle config now (outcome result)) := by
  obtain ⟨hsame,hpermits,hstands⟩ := h
  have hrecorded := b.recordResult_recorded now result
  generalize b.recordResult now result = b' at hrecorded ⊢
  generalize outcome result = o at hrecorded ⊢
  cases hstands with
  | closed hs hf hlt =>
    have hnext := toNat_succ hf hlt config.threshold_lt
    cases hrecorded with
    | neutral => exact ⟨hsame,hpermits,.closed hs hf hlt⟩
    | success _ _ => exact ⟨hsame,hpermits,.closed hs rfl config.threshold_pos⟩
    | failure _ _ hless =>
      rw [hnext,hsame] at hless
      rw [Reference.settle,if_neg (by omega)]
      exact ⟨hsame,hpermits,.closed hs hnext hless⟩
    | tripped _ _ hmore =>
      rw [hnext,hsame] at hmore
      rw [Reference.settle,if_pos (by omega)]
      exact ⟨hsame,hpermits,.isOpen rfl rfl (Nat.le_refl _)⟩
    | isOpen hs' | probed hs' _ _ | recovered hs' _ _ | reopened hs' _ => simp [hs] at hs'
  | @isOpen since hs ho hsince =>
    have hstay (o : Outcome) : Reference.settle config now o (.isOpen since) = .isOpen since := by
      cases o <;> rfl
    cases hrecorded with
    | neutral | isOpen _ =>
      rw [hstay]
      exact ⟨hsame,hpermits,.isOpen hs ho (hsince.trans hle)⟩
    | success hs' _ | failure hs' _ _ | tripped hs' _ _ | probed hs' _ _ | recovered hs' _ _
    | reopened hs' _ => simp [hs] at hs'
  | halfOpen hs hk hlt =>
    have hnext := toNat_succ hk hlt config.probes_lt
    cases hrecorded with
    | neutral => exact ⟨hsame,hpermits,.halfOpen hs hk hlt⟩
    | probed _ _ hless =>
      rw [hnext,hsame] at hless
      rw [Reference.settle,if_neg (by omega)]
      exact ⟨hsame,hpermits,.halfOpen hs hnext hless⟩
    | recovered _ _ hmore =>
      rw [hnext,hsame] at hmore
      rw [Reference.settle,if_pos (by omega)]
      exact ⟨hsame,hpermits,.closed rfl rfl config.threshold_pos⟩
    | reopened _ _ => exact ⟨hsame,hpermits,.isOpen rfl rfl (Nat.le_refl _)⟩
    | isOpen hs' | success hs' _ | failure hs' _ _ | tripped hs' _ _ => simp [hs] at hs'

theorem Follows.later (h : Follows config clock b r) (hle : clock ≤ now) :
    Follows config now b r := by
  obtain ⟨hsame,hpermits,hstands⟩ := h
  refine ⟨hsame,hpermits,?_⟩
  cases hstands with
  | closed hs hf hlt => exact .closed hs hf hlt
  | isOpen hs ho hsince => exact .isOpen hs ho (hsince.trans hle)
  | halfOpen hs hk hlt => exact .halfOpen hs hk hlt

theorem Follows.call {α : Type} (h : Follows config clock b r) (i : Invocation α)
    (hstart : clock ≤ i.start) (hfinish : i.start ≤ i.finish) :
    (b.call i).1 = (r.call config i).1 ∧
      Follows config i.finish (b.call i).2 (r.call config i).2 := by
  obtain ⟨hanswer,hallow⟩ := h.allow hstart
  rw [CircuitBreaker.call,Reference.call]
  generalize b.allowCall i.start = p at hanswer hallow ⊢
  generalize r.allow config i.start = q at hanswer hallow ⊢
  obtain ⟨answer,b'⟩ := p
  obtain ⟨answer',r'⟩ := q
  cases hanswer
  cases answer with
  | error err => exact ⟨rfl,hallow.later hfinish⟩
  | ok u => exact ⟨rfl,hallow.settle hfinish i.result⟩

end

def readings {α : Type} (l : List (Invocation α)) : List Nat :=
  l.flatMap fun i => [i.start,i.finish]

/-- Breaker and automaton agree on a whole sequence of calls: on what each of them returns, on
whether it is admitted, and on the state before and after it. -/
structure Agree {α : Type} (config : CircuitBreakerConfig) (l : List (Invocation α))
    (b : CircuitBreaker) (r : Reference) : Prop where
  answers : Machine.outputs CircuitBreaker.call l b = Machine.outputs (Reference.call config) l r
  states : ∀ n, (Machine.final CircuitBreaker.call (l.take n) b).state =
    (Machine.final (Reference.call config) (l.take n) r).state
  decisions : ∀ n i, l[n]? = some i →
    ((Machine.final CircuitBreaker.call (l.take n) b).allowCall i.start).1 =
      ((Machine.final (Reference.call config) (l.take n) r).allow config i.start).1

theorem Follows.agree {α : Type} {config : CircuitBreakerConfig} {clock : Nat}
    {b : CircuitBreaker} {r : Reference} (h : Follows config clock b r)
    {l : List (Invocation α)} (hclock : (clock::readings l).Pairwise (· ≤ ·)) :
    Agree config l b r := by
  induction l generalizing clock b r with
  | nil => exact ⟨rfl,fun n => by simpa [Machine.final] using h.state_eq,by simp⟩
  | cons i l ih =>
    rw [readings,List.flatMap_cons] at hclock
    obtain ⟨hle,hclock⟩ := List.pairwise_cons.mp hclock
    obtain ⟨hle',hclock⟩ := List.pairwise_cons.mp hclock
    have hstart : clock ≤ i.start := hle i.start List.mem_cons_self
    have hfinish : i.start ≤ i.finish := hle' i.finish List.mem_cons_self
    obtain ⟨hanswer,hnext⟩ := h.call i hstart hfinish
    obtain ⟨hanswers,hstates,hdecisions⟩ := ih hnext hclock
    refine ⟨?_,?_,?_⟩
    · simp only [Machine.outputs,hanswer,hanswers]
    · intro n
      cases n with
      | zero => exact h.state_eq
      | succ n => exact hstates n
    · intro n j hj
      cases n with
      | zero =>
        obtain rfl : i = j := by simpa using hj
        exact (h.allow hstart).1
      | succ n => exact hdecisions n j hj

/-- The breaker refines the automaton on every sequence of calls that do not overlap. -/
theorem breaker_refines_reference {α : Type} (config : CircuitBreakerConfig)
    (l : List (Invocation α)) (hclock : (readings l).Pairwise (· ≤ ·)) :
    Agree config l (.new config) (.closed 0) :=
  (follows_new config).agree (List.pairwise_cons.mpr ⟨fun _ _ => Nat.zero_le _,hclock⟩)

theorem breaker_refines_reference_on_a_trip :
    let config : CircuitBreakerConfig := ⟨1,10,2⟩
    let l : List (Invocation Nat) := [⟨0,1,.error (.timeout "url" 5)⟩,⟨2,3,.ok 1⟩,⟨11,12,.ok 2⟩,
      ⟨13,14,.ok 3⟩]
    Agree config l (.new config) (.closed 0) ∧
      (Machine.final (Reference.call config) l (.closed 0)).state = .closed :=
  ⟨breaker_refines_reference _ _ (by decide),by decide⟩

end ProofStell.Stellar
