import ProofStell.Stellar.Client
import Mathlib.Data.Fintype.Card
import Mathlib.Logic.Function.Basic

/-! The bulkhead in front of Horizon. `verify_hash` asks `bulkhead.acquire()` only whether it
came back in time, so the guard is a temporary of that statement: the permit is back in the
semaphore before the request is sent. -/
namespace ProofStell.Stellar
open Hash

namespace StellarClient
variable (c : StellarClient)

/-- What one attempt makes of the loop variables: the call returns, or the loop goes on with
another `last_status` and `last_http_status`. -/
def afterAttempt (attempt : Attempt) (lastHttpStatus : Option UInt16) :
    VerificationResult ⊕ VerificationStatus × Option UInt16 :=
  match attempt with
  | .noPermit cached =>
    match c.tryStaleCacheFallback cached with
    | some fallback => .inl fallback
    | none => .inr (.networkError,lastHttpStatus)
  | .sendError => .inr (.networkError,none)
  | .answered status parsed =>
    if isSuccess status then
      match parsed with
      | .ok (some record) =>
        .inl ⟨.confirmedMatch,some record.transactionId,some record.timestamp,none⟩
      | .ok none => .inl ⟨.noMatch,none,none,lastHttpStatus⟩
      | .error () => .inr (.malformedResponse,lastHttpStatus)
    else if isRetryableStatus status then .inr (.networkError,some status)
    else .inl ⟨.noMatch,none,none,some status⟩

theorem attemptLoop_succ (script : Nat → Attempt) (remaining attempt : Nat)
    (lastStatus : VerificationStatus) (lastHttpStatus : Option UInt16) :
    c.attemptLoop script (remaining+1) attempt lastStatus lastHttpStatus =
      match c.afterAttempt (script attempt) lastHttpStatus with
      | .inl result => result
      | .inr (status,http) => c.attemptLoop script remaining (attempt+1) status http := by
  cases h : script attempt with
  | noPermit cached =>
    simp only [attemptLoop,afterAttempt,h]
    cases c.tryStaleCacheFallback cached <;> rfl
  | sendError => simp only [attemptLoop,afterAttempt,h]
  | answered status parsed =>
    simp only [attemptLoop,afterAttempt,h]
    split
    · cases parsed with
      | error e => rfl
      | ok record => cases record <;> rfl
    · split <;> rfl

end StellarClient

namespace Bulkhead
variable {κ : Type} [DecidableEq κ]

/-- The loop variables of a call; `made` is history, the attempts that are over. -/
structure Progress where
  remaining : Nat
  lastStatus : VerificationStatus
  lastHttpStatus : Option UInt16
  made : List Attempt

inductive Phase where
  | idle
  | waiting (p : Progress)
  | holding (p : Progress)
  | ready (p : Progress)
  | inFlight (p : Progress)
  | returned (made : List Attempt) (result : VerificationResult)

def Phase.isInFlight : Phase → Bool
  | .inFlight _ => true
  | _ => false

structure Calls (κ : Type) where
  permits : Nat
  phase : κ → Phase

def Calls.init (maxConcurrent : UInt32) : Calls κ := ⟨maxConcurrent.toNat,fun _ => .idle⟩

def Calls.move (s : Calls κ) (k : κ) (permits : Nat) (phase : Phase) : Calls κ :=
  ⟨permits,Function.update s.phase k phase⟩

def Calls.inFlight [Fintype κ] (s : Calls κ) : Nat :=
  (Finset.univ.filter fun k => (s.phase k).isInFlight = true).card

/-- `answer` is the response with what its body parses to, or none if `send` failed. -/
inductive Step (κ : Type) where
  | call (k : κ)
  | acquire (k : κ)
  | drop (k : κ)
  | timeout (k : κ) (cached : Option VerificationResult)
  | send (k : κ)
  | finish (k : κ) (answer : Option (UInt16 × Except Unit (Option TransactionRecord)))

section
variable (c : StellarClient) (hash : κ → String)

def next (attempt : Attempt) (p : Progress) : Phase :=
  match c.afterAttempt attempt p.lastHttpStatus with
  | .inl result => .returned (p.made++[attempt]) result
  | .inr (status,http) =>
    if p.remaining = 0 then .returned (p.made++[attempt]) ⟨status,none,none,http⟩
    else .waiting ⟨p.remaining-1,status,http,p.made++[attempt]⟩

def enter (hash : String) : Phase :=
  match CanonicalHash.new hash with
  | .error _ => .returned [] ⟨.malformedResponse,none,none,none⟩
  | .ok _ => .waiting ⟨c.maxRetries.toNat,.noMatch,none,[]⟩

def step (x : Step κ) (s : Calls κ) : Unit × Calls κ :=
  ((),match x with
    | .call k =>
      match s.phase k with
      | .idle => s.move k s.permits (enter c (hash k))
      | _ => s
    | .acquire k =>
      match s.phase k with
      | .waiting p => if s.permits = 0 then s else s.move k (s.permits-1) (.holding p)
      | _ => s
    | .drop k =>
      match s.phase k with
      | .holding p => s.move k (s.permits+1) (.ready p)
      | _ => s
    | .timeout k cached =>
      match s.phase k with
      | .waiting p => s.move k s.permits (next c (.noPermit cached) p)
      | _ => s
    | .send k =>
      match s.phase k with
      | .ready p => s.move k s.permits (.inFlight p)
      | _ => s
    | .finish k answer =>
      match s.phase k with
      | .inFlight p =>
        let attempt := match answer with
          | some (status,parsed) => .answered status parsed
          | none => .sendError
        s.move k s.permits (next c attempt p)
      | _ => s)

/-- What has been made so far leads the loop of `verify_hash` to where the call is. -/
structure Progress.Reached (p : Progress) : Prop where
  budget : p.remaining+p.made.length = c.maxRetries.toNat
  loop : ∀ script : Nat → Attempt, (∀ i a, p.made[i]? = some a → script i = a) →
    c.attemptLoop script (c.maxRetries.toNat+1) 0 .noMatch none =
      c.attemptLoop script (p.remaining+1) p.made.length p.lastStatus p.lastHttpStatus

def Phase.Faithful (hash : String) : Phase → Prop
  | .idle => True
  | .waiting p | .holding p | .ready p | .inFlight p => accepted hash = true ∧ p.Reached c
  | .returned made result => ∀ script : Nat → Attempt,
      (∀ i a, made[i]? = some a → script i = a) → c.verifyHash hash script = result

theorem verifyHash_accepted {hash : String} (h : accepted hash = true) (script : Nat → Attempt) :
    c.verifyHash hash script = c.attemptLoop script (c.maxRetries.toNat+1) 0 .noMatch none := by
  rw [accepted] at h
  rw [StellarClient.verifyHash]
  cases hn : CanonicalHash.new hash with
  | error e => simp [hn,Except.isOk,Except.toBool] at h
  | ok canonical => rfl

theorem enter_faithful (hash : String) : (enter c hash).Faithful c hash := by
  rw [enter]
  cases hn : CanonicalHash.new hash with
  | error e =>
    intro script _
    rw [StellarClient.verifyHash,hn]
  | ok canonical =>
    have ha : accepted hash = true := by rw [accepted,hn]; rfl
    exact ⟨ha,by simp,fun _ _ => rfl⟩

theorem next_faithful {hash : String} {p : Progress} (ha : accepted hash = true)
    (h : p.Reached c) (attempt : Attempt) : (next c attempt p).Faithful c hash := by
  have hbefore {script : Nat → Attempt}
      (hs : ∀ i a, (p.made++[attempt])[i]? = some a → script i = a) :
      script p.made.length = attempt ∧ ∀ i a, p.made[i]? = some a → script i = a := by
    refine ⟨hs _ _ (by simp),?_⟩
    intro i a hi
    refine hs i a ?_
    rw [List.getElem?_append_left (List.getElem?_eq_some_iff.mp hi).1]
    exact hi
  -- the loop of `verify_hash` makes the same attempt at the same place
  have hloop {script : Nat → Attempt}
      (hs : ∀ i a, (p.made++[attempt])[i]? = some a → script i = a) :
      c.attemptLoop script (c.maxRetries.toNat+1) 0 .noMatch none =
        match c.afterAttempt attempt p.lastHttpStatus with
        | .inl result => result
        | .inr (status,http) =>
          c.attemptLoop script p.remaining (p.made.length+1) status http := by
    obtain ⟨hlast,hmade⟩ := hbefore hs
    rw [h.loop script hmade,StellarClient.attemptLoop_succ,hlast]
  rw [next]
  cases hafter : c.afterAttempt attempt p.lastHttpStatus with
  | inl result =>
    intro script hs
    rw [verifyHash_accepted c ha,hloop hs,hafter]
  | inr vars =>
    obtain ⟨status,http⟩ := vars
    dsimp only
    split
    · next hzero =>
      intro script hs
      rw [verifyHash_accepted c ha,hloop hs,hafter,hzero]
      rfl
    · next hpos =>
      have hbudget := h.budget
      refine ⟨ha,?_,?_⟩
      · simp only [List.length_append,List.length_singleton]
        omega
      · intro script hs
        rw [hloop hs,hafter]
        simp only [List.length_append,List.length_singleton]
        rw [Nat.sub_add_cancel (Nat.pos_of_ne_zero hpos)]

inductive Moves (s : Calls κ) : Calls κ → Prop
  | stay : Moves s s
  | enter {k : κ} : s.phase k = .idle → Moves s (s.move k s.permits (enter c (hash k)))
  | acquire {k : κ} {p : Progress} : s.phase k = .waiting p → s.permits≠0 →
      Moves s (s.move k (s.permits-1) (.holding p))
  | drop {k : κ} {p : Progress} : s.phase k = .holding p →
      Moves s (s.move k (s.permits+1) (.ready p))
  | send {k : κ} {p : Progress} : s.phase k = .ready p →
      Moves s (s.move k s.permits (.inFlight p))
  | finished {k : κ} {p : Progress} (attempt : Attempt) :
      s.phase k = .waiting p ∨ s.phase k = .inFlight p →
      Moves s (s.move k s.permits (next c attempt p))

theorem step_moves (x : Step κ) (s : Calls κ) : Moves c hash s (step c hash x s).2 := by
  cases x with
  | call k =>
    simp only [step]
    split
    · next h => exact .enter h
    · exact .stay
  | acquire k =>
    simp only [step]
    split
    · next h =>
      split
      · exact .stay
      · next hp => exact .acquire h hp
    · exact .stay
  | drop k =>
    simp only [step]
    split
    · next h => exact .drop h
    · exact .stay
  | timeout k cached =>
    simp only [step]
    split
    · next h => exact .finished _ (Or.inl h)
    · exact .stay
  | send k =>
    simp only [step]
    split
    · next h => exact .send h
    · exact .stay
  | finish k answer =>
    simp only [step]
    split
    · next h => exact .finished _ (Or.inr h)
    · exact .stay

theorem move_forall {P : κ → Phase → Prop} {s : Calls κ} (h : ∀ j, P j (s.phase j)) {k : κ}
    (permits : Nat) {phase : Phase} (hp : P k phase) (j : κ) :
    P j ((s.move k permits phase).phase j) := by
  by_cases hj : j = k
  · subst hj
    simpa [Calls.move] using hp
  · simpa [Calls.move,hj] using h j

/-- The calls are runs of `verify_hash`, whatever the interleaving. -/
theorem step_faithful (x : Step κ) (s : Calls κ)
    (h : ∀ k, (s.phase k).Faithful c (hash k)) (j : κ) :
    ((step c hash x s).2.phase j).Faithful c (hash j) := by
  have moved {k : κ} {permits : Nat} {phase : Phase} (hp : phase.Faithful c (hash k)) :
      ((s.move k permits phase).phase j).Faithful c (hash j) :=
    move_forall (P := fun k phase => phase.Faithful c (hash k)) h permits hp j
  have hmoves := step_moves c hash x s
  generalize (step c hash x s).2 = s' at hmoves ⊢
  cases hmoves with
  | stay => exact h j
  | @enter k _ => exact moved (enter_faithful c (hash k))
  | @acquire k p hk _ | @drop k p hk | @send k p hk =>
    have hfaithful := h k
    rw [hk] at hfaithful
    exact moved hfaithful
  | @finished k p attempt hk =>
    have hfaithful : accepted (hash k) = true ∧ p.Reached c := by
      have hfaithful := h k
      obtain hk | hk := hk <;> rwa [hk] at hfaithful
    exact moved (next_faithful c hfaithful.1 hfaithful.2 attempt)

theorem run_faithful (maxConcurrent : UInt32) (l : List (Step κ)) (k : κ) :
    ((Machine.final (step c hash) l (.init maxConcurrent)).phase k).Faithful c (hash k) := by
  have hinit (k : κ) : ((Calls.init maxConcurrent : Calls κ).phase k).Faithful c (hash k) := trivial
  exact Machine.final_invariant (P := fun s : Calls κ => ∀ k, (s.phase k).Faithful c (hash k))
    (step_faithful c hash) l _ hinit k

def Phase.before : Phase → Bool
  | .idle | .waiting _ | .returned _ _ => true
  | _ => false

structure Starved (s : Calls κ) : Prop where
  permits : s.permits = 0
  before : ∀ k, (s.phase k).before = true

theorem enter_before (hash : String) : (enter c hash).before = true := by
  rw [enter]
  cases CanonicalHash.new hash <;> rfl

theorem next_before (attempt : Attempt) (p : Progress) : (next c attempt p).before = true := by
  rw [next]
  split
  · rfl
  · split <;> rfl

theorem Starved.step (x : Step κ) {s : Calls κ} (h : Starved s) :
    Starved (step c hash x s).2 := by
  have moved {k : κ} {phase : Phase} (hp : phase.before = true) :
      Starved (s.move k s.permits phase) :=
    ⟨h.permits,move_forall (P := fun _ phase => phase.before = true) h.before s.permits hp⟩
  have hmoves := step_moves c hash x s
  generalize (Bulkhead.step c hash x s).2 = s' at hmoves ⊢
  cases hmoves with
  | stay => exact h
  | @enter k _ => exact moved (enter_before c (hash k))
  | acquire _ hp => exact absurd h.permits hp
  | @drop k p hk | @send k p hk =>
    have hbefore := h.before k
    rw [hk] at hbefore
    cases hbefore
  | finished attempt _ => exact moved (next_before c attempt _)

def burst (ks : List κ) : List (Step κ) :=
  ks.flatMap fun k => [.call k,.acquire k,.drop k,.send k]

theorem enter_waiting {hash : String} (h : accepted hash = true) :
    ∃ p, enter c hash = .waiting p := by
  rw [accepted] at h
  rw [enter]
  cases hn : CanonicalHash.new hash with
  | error e => simp [hn,Except.isOk,Except.toBool] at h
  | ok canonical => exact ⟨_,rfl⟩

theorem burst_inFlight {ks : List κ} (hnd : ks.Nodup) {s : Calls κ} (hpermits : s.permits≠0)
    (hidle : ∀ k∈ks, s.phase k = .idle) (haccepted : ∀ k∈ks, accepted (hash k) = true) :
    (∀ k, k∉ks → (Machine.final (step c hash) (burst ks) s).phase k = s.phase k) ∧
      ∀ k∈ks, ((Machine.final (step c hash) (burst ks) s).phase k).isInFlight = true := by
  induction ks generalizing s with
  | nil => exact ⟨fun _ _ => rfl,fun k hk => by cases hk⟩
  | cons k ks ih =>
    obtain ⟨hk,hnd⟩ := List.nodup_cons.mp hnd
    -- the permit that `k` takes is back before its request goes out
    obtain ⟨p,hp⟩ := enter_waiting c (haccepted k List.mem_cons_self)
    have hone : Machine.final (step c hash) (burst (k::ks)) s =
        Machine.final (step c hash) (burst ks) (s.move k s.permits (.inFlight p)) := by
      have hcancel : s.permits-1+1 = s.permits := Nat.sub_add_cancel (Nat.pos_of_ne_zero hpermits)
      simp [burst,Machine.final,step,hidle k List.mem_cons_self,hp,Calls.move,hpermits,hcancel]
    have hrest : ∀ j∈ks, (s.move k s.permits (.inFlight p)).phase j = .idle := by
      intro j hj
      have hne : j≠k := fun heq => hk (heq ▸ hj)
      simpa [Calls.move,hne] using hidle j (List.mem_cons_of_mem k hj)
    obtain ⟨hothers,hflying⟩ := ih hnd (s := s.move k s.permits (.inFlight p)) hpermits hrest
      fun j hj => haccepted j (List.mem_cons_of_mem k hj)
    rw [hone]
    constructor
    · intro j hj
      rw [List.mem_cons,not_or] at hj
      obtain ⟨hne,hj⟩ := hj
      rw [hothers j hj]
      simp [Calls.move,hne]
    · intro j hj
      obtain heq | hj := List.mem_cons.mp hj
      · subst heq
        rw [hothers j hk]
        simp [Calls.move,Phase.isInFlight]
      · exact hflying j hj

theorem all_in_flight [Fintype κ] {maxConcurrent : UInt32} (hpos : maxConcurrent≠0) :
    ∃ l : List (Step κ), (Finset.univ.filter fun k => accepted (hash k) = true).card ≤
      (Machine.final (step c hash) l (.init maxConcurrent)).inFlight := by
  have hpermits : (Calls.init maxConcurrent : Calls κ).permits≠0 :=
    fun hzero => hpos (UInt32.toNat_inj.mp hzero)
  have hburst := (burst_inFlight c hash
    (Finset.nodup_toList (Finset.univ.filter fun k => accepted (hash k) = true)) hpermits
    (fun _ _ => rfl) (fun k hk => by simpa using hk)).2
  refine ⟨burst (Finset.univ.filter fun k => accepted (hash k) = true).toList,?_⟩
  refine Finset.card_le_card ?_
  intro k hk
  rw [Finset.mem_filter]
  exact ⟨Finset.mem_univ k,hburst k (Finset.mem_toList.mpr hk)⟩

omit [DecidableEq κ] in
theorem Starved.inFlight [Fintype κ] {s : Calls κ} (h : Starved s) : s.inFlight = 0 := by
  rw [Calls.inFlight,Finset.card_eq_zero,Finset.filter_eq_empty_iff]
  intro k _ hk
  have hbefore := h.before k
  cases hp : s.phase k <;> simp [hp,Phase.isInFlight,Phase.before] at hk hbefore

theorem inFlight_le_accepted [Fintype κ] (maxConcurrent : UInt32) (l : List (Step κ)) :
    (Machine.final (step c hash) l (.init maxConcurrent)).inFlight ≤
      (Finset.univ.filter fun k => accepted (hash k) = true).card := by
  refine Finset.card_le_card ?_
  intro k hk
  rw [Finset.mem_filter] at hk ⊢
  refine ⟨hk.1,?_⟩
  have hfaithful := run_faithful c hash maxConcurrent l k
  cases hp : (Machine.final (step c hash) l (.init maxConcurrent)).phase k with
  | inFlight p =>
    rw [hp] at hfaithful
    exact hfaithful.1
  | _ => simp [hp,Phase.isInFlight] at hk

/-- The bulkhead keeps its bound in every interleaving exactly if there are no more calls than
permits to start with: apart from a semaphore without permits, nothing holds a request back. -/
theorem bulkhead_bounds_iff [Fintype κ] (maxConcurrent : UInt32) :
    (∀ l : List (Step κ),
      (Machine.final (step c hash) l (.init maxConcurrent)).inFlight ≤ maxConcurrent.toNat) ↔
      maxConcurrent = 0 ∨
        (Finset.univ.filter fun k => accepted (hash k) = true).card ≤ maxConcurrent.toNat := by
  constructor
  · intro h
    by_contra hnot
    obtain ⟨hpos,hmany⟩ := not_or.mp hnot
    obtain ⟨l,hl⟩ := all_in_flight c hash hpos
    exact hmany (hl.trans (h l))
  · intro h l
    obtain hzero | hfew := h
    · have hinit : Starved (Calls.init maxConcurrent : Calls κ) := by
        rw [hzero]
        exact ⟨rfl,fun _ => rfl⟩
      have hstarved := Machine.final_invariant (P := Starved)
        (fun x _ hs => Starved.step c hash x hs) l _ hinit
      rw [hstarved.inFlight]
      exact Nat.zero_le _
    · exact (inFlight_le_accepted c hash maxConcurrent l).trans hfew

end

/-- Two requests pass a bulkhead for one. -/
theorem two_requests_in_flight :
    ¬∀ (c : StellarClient) (hash : Bool → String) (maxConcurrent : UInt32)
      (l : List (Step Bool)),
      (Machine.final (step c hash) l (.init maxConcurrent)).inFlight ≤ maxConcurrent.toNat := by
  intro hall
  have hle := hall ⟨"https://horizon",3,⟨5,30000,1⟩,false⟩
    (fun _ => "aaaaaaaaaaaaaaaaaaaaaaaaaaaaaaaaaaaaaaaaaaaaaaaaaaaaaaaaaaaaaaaa") 1
    [.call false,.call true,.acquire false,.drop false,.send false,.acquire true,.drop true,
      .send true]
  revert hle
  decide +kernel

end Bulkhead
end ProofStell.Stellar
