import ProofStell.Webhook.Backoff
import ProofStell.Webhook.Metrics
import ProofStell.Lib.Backoff
import Mathlib.Algebra.Order.BigOperators.Group.Finset

/-! How long a delivery takes: its sends, and the pauses between them. -/
namespace ProofStell.Webhook
open Config
variable {DateTime σ : Type}

/-- The retry loop against the clock, in milliseconds: `took` is how long each send takes, and
`nanos` what the jitter of the pause before it reads. -/
def sendLoopTimed (d : WebhookDispatcherConfig) (send : Nat → Except String Unit)
    (took : Nat → Nat) (nanos : Nat → UInt32) : Nat → Nat → Nat → Nat
  | 0, _, clock => clock
  | remaining+1, attempt, clock =>
    let clock :=
      if attempt > 0 then
        clock+(d.backoffDelay (UInt32.ofNat (attempt-1)) (nanos attempt)).toNat
      else clock
    match send attempt with
    | .ok () => clock+took attempt
    | .error _ => sendLoopTimed d send took nanos remaining (attempt+1) (clock+took attempt)

section
variable (d : WebhookDispatcherConfig) (send : Nat → Except String Unit) (took : Nat → Nat)
  (nanos : Nat → UInt32)

def pause (n : Nat) : Nat := (d.backoffDelay (UInt32.ofNat n) (nanos (n+1))).toNat

theorem sendLoopTimed_retries (url : String) (payload : WebhookPayload DateTime)
    (remaining a clock : Nat) :
    sendLoopTimed d send took nanos remaining (a+1) clock = clock+
      ∑ i∈Finset.range ((sends url payload send remaining (a+1)).countP Effect.isSend),
        (pause d nanos (a+i)+took (a+i+1)) := by
  induction remaining generalizing a clock with
  | zero => rfl
  | succ remaining ih =>
    have hpause : (d.backoffDelay (UInt32.ofNat (a+1-1)) (nanos (a+1))).toNat =
        pause d nanos a := rfl
    rw [sendLoopTimed,sends]
    simp only [gt_iff_lt,Nat.succ_pos,if_true,hpause]
    cases hsend : send (a+1) with
    | ok u =>
      have hone : [Effect.send url payload (a+1) (.ok ()),.success url].countP Effect.isSend = 1 :=
        rfl
      rw [hone,Finset.sum_range_one,Nat.add_zero]
      exact Nat.add_assoc _ _ _
    | error e =>
      have hshift (i : Nat) : a+1+i = a+(i+1) := by omega
      dsimp only
      rw [ih,List.countP_cons_of_pos rfl,Finset.sum_range_succ',
        Finset.sum_congr rfl fun i _ => by rw [hshift i]]
      simp only [Nat.add_zero]
      omega

/-- All of a delivery: `n+1` sends and the `n` pauses between them. -/
theorem sendLoopTimed_spec (url : String) (payload : WebhookPayload DateTime)
    (maxRetries : Nat) : ∃ n ≤ maxRetries,
      (sends url payload send (maxRetries+1) 0).countP Effect.isSend = n+1 ∧
      sendLoopTimed d send took nanos (maxRetries+1) 0 0 =
        ∑ i∈Finset.range (n+1), took i+∑ i∈Finset.range n, pause d nanos i := by
  rw [sendLoopTimed,sends]
  simp only [gt_iff_lt,Nat.lt_irrefl,if_false,Nat.zero_add]
  cases hsend : send 0 with
  | ok u => exact ⟨0,Nat.zero_le _,rfl,by simp⟩
  | error e =>
    refine ⟨(sends url payload send maxRetries 1).countP Effect.isSend,?_,?_,?_⟩
    · obtain ⟨k,hk,_,_,_,heff⟩ | ⟨_,_,_,_,heff⟩ := sends_spec url payload send maxRetries 1 ""
      · rw [heff,List.countP_append,List.countP_map]
        refine (Nat.add_le_add_right List.countP_le_length _).trans ?_
        simpa [Effect.isSend] using Nat.succ_le_of_lt hk
      · rw [heff,List.countP_map]
        exact List.countP_le_length.trans (by simp)
    · rw [List.countP_cons_of_pos rfl]
    · have hrest := sendLoopTimed_retries d send took nanos url payload maxRetries 0 (took 0)
      simp only [Nat.zero_add] at hrest
      dsimp only
      rw [hrest,Finset.sum_add_distrib,Finset.sum_range_succ' took]
      omega

end

section
variable {d : WebhookDispatcherConfig} (hbase : Millis d.baseDelayMs) (hmax : Millis d.maxDelayMs)
include hbase hmax

theorem pause_bounds (nanos : Nat → UInt32) {n : Nat} (hn : n < 2^32) :
    Backoff.delay d.baseDelayMs.toNat d.maxDelayMs.toNat n ≤ pause d nanos n ∧
      4*pause d nanos n ≤ 5*Backoff.delay d.baseDelayMs.toNat d.maxDelayMs.toNat n ∧
      (d.jitterEnabled = false →
        pause d nanos n = Backoff.delay d.baseDelayMs.toNat d.maxDelayMs.toNat n) := by
  have hattempt : (UInt32.ofNat n).toNat = n := UInt32.toNat_ofNat_of_lt' hn
  have hcapped := capped_toNat hbase hmax (UInt32.ofNat n)
  rw [hattempt] at hcapped
  change _ = Backoff.delay d.baseDelayMs.toNat d.maxDelayMs.toNat n at hcapped
  cases hjitter : d.jitterEnabled with
  | false =>
    have hplain : pause d nanos n = Backoff.delay d.baseDelayMs.toNat d.maxDelayMs.toNat n := by
      rw [← hcapped,pause,WebhookDispatcherConfig.backoffDelay,hjitter]
      rfl
    exact ⟨hplain.ge,by omega,fun _ => hplain⟩
  | true =>
    obtain ⟨hlow,hhigh⟩ := backoffDelay_jittered hbase hmax hjitter (UInt32.ofNat n) (nanos (n+1))
    rw [hcapped] at hlow hhigh
    refine ⟨hlow,?_,fun h => (by cases h)⟩
    rw [pause]
    omega

theorem pauses_bounds (nanos : Nat → UInt32) {k : Nat} (hk : k ≤ 2^32) :
    Backoff.total d.baseDelayMs.toNat d.maxDelayMs.toNat k ≤
        ∑ n∈Finset.range k, pause d nanos n ∧
      4*∑ n∈Finset.range k, pause d nanos n ≤
        5*Backoff.total d.baseDelayMs.toNat d.maxDelayMs.toNat k ∧
      (d.jitterEnabled = false → ∑ n∈Finset.range k, pause d nanos n =
        Backoff.total d.baseDelayMs.toNat d.maxDelayMs.toNat k) := by
  induction k with
  | zero => exact ⟨le_refl _,le_refl _,fun _ => rfl⟩
  | succ k ih =>
    obtain ⟨hlow,hhigh,hplain⟩ := ih (Nat.le_of_succ_le hk)
    obtain ⟨hlow',hhigh',hplain'⟩ := pause_bounds hbase hmax nanos (Nat.lt_of_succ_le hk)
    rw [Backoff.total_succ,Finset.sum_range_succ]
    refine ⟨Nat.add_le_add hlow hlow',by omega,fun h => ?_⟩
    rw [hplain h,hplain' h]

end

/-- A delivery of `n+1` sends has paused for the first `n` terms of the doubling sequence, up to a
quarter more with jitter, so that the configuration fixes a deadline. -/
theorem delivery_deadline {parsers : Parsers} {env : Env} {cfg : AppConfig}
    (hcfg : fromEnv parsers env = .ok cfg) (serde : Serde DateTime) (url : String)
    (payload : WebhookPayload DateTime) (send : Nat → Except String Unit) (failedAt : DateTime)
    (nanos : Nat → UInt32) (took : Nat → Nat)
    (htook : ∀ i, took i ≤ cfg.webhookRequestTimeoutMs.toNat) :
    let settings := WebhookDispatcherConfig.fromAppConfig cfg
    let d : WebhookDispatcher DateTime σ := .fromAppConfig cfg serde
    let waits := Backoff.total cfg.webhookRetryBaseDelayMs.toNat cfg.webhookRetryMaxDelayMs.toNat
    let N := cfg.webhookMaxRetries.toNat
    let finish := sendLoopTimed settings send took nanos (N+1) 0 0
    ∃ n ≤ N, (deliveryEffects d url payload send failedAt).countP Effect.isSend = n+1 ∧
      ∃ waited, finish = ∑ i∈Finset.range (n+1), took i+waited ∧
        waits n ≤ waited ∧ 4*waited ≤ 5*waits n ∧
        (cfg.webhookJitterEnabled = false → waited = waits n) ∧
        4*finish ≤ 4*((N+1)*cfg.webhookRequestTimeoutMs.toNat)+5*waits N ∧
        (d.attemptAll send≠none → n = N ∧ waits N ≤ finish) := by
  intro settings d waits N finish
  have hwebhook := (documented_of_ok hcfg).webhook
  have hN : N < 2^32 := cfg.webhookMaxRetries.toNat_lt
  obtain ⟨n,hn,hcount,hfinish⟩ := sendLoopTimed_spec settings send took nanos url payload N
  obtain ⟨hlow,hhigh,hplain⟩ := pauses_bounds (d := settings) hwebhook.baseDelay_millis
    hwebhook.maxDelay_millis nanos (k := n) (by omega)
  have hletter : (deliveryEffects d url payload send failedAt).countP Effect.isSend = n+1 := by
    have hloop : (sends url payload send (d.maxRetries.toNat+1) 0).countP Effect.isSend = n+1 :=
      hcount
    rw [deliveryEffects,List.countP_append,hloop]
    cases d.attemptAll send <;> rfl
  refine ⟨n,hn,hletter,_,hfinish,hlow,hhigh,hplain,?_,fun hdead => ?_⟩
  · have hsends : ∑ i∈Finset.range (n+1), took i ≤ (n+1)*cfg.webhookRequestTimeoutMs.toNat := by
      simpa using Finset.sum_le_card_nsmul (Finset.range (n+1)) took _ fun i _ => htook i
    have hmore : (n+1)*cfg.webhookRequestTimeoutMs.toNat ≤
        (N+1)*cfg.webhookRequestTimeoutMs.toNat := Nat.mul_le_mul_right _ (by omega)
    have hall : waits n ≤ waits N := Backoff.total_mono hn
    change 4*∑ i∈Finset.range n, pause settings nanos i ≤ 5*waits n at hhigh
    change 4*sendLoopTimed settings send took nanos (N+1) 0 0 ≤ _
    rw [hfinish]
    omega
  · have hfull : n = N := by
      obtain ⟨_,_,_,_,hloop,_⟩ | ⟨_,_,_,_,heff⟩ :=
        sends_spec url payload send (N+1) 0 "no attempts made"
      · exact absurd hloop hdead
      · rw [heff,List.countP_map,List.countP_eq_length.mpr (by simp [Effect.isSend])] at hcount
        simpa using hcount.symm
    refine ⟨hfull,?_⟩
    change _ ≤ sendLoopTimed settings send took nanos (N+1) 0 0
    rw [hfinish,← hfull]
    exact hlow.trans (Nat.le_add_left _ _)

/-- With the default settings a URL that never answers is given up within 68 seconds. -/
theorem delivery_deadline_defaults :
    ∃ cfg, fromEnv .sample (sampleEnv []) = .ok cfg ∧
      sendLoopTimed (.fromAppConfig cfg) (fun _ => .error "operation timed out") (fun _ => 10000)
        (fun _ => 999999999) (cfg.webhookMaxRetries.toNat+1) 0 0 ≤ 67750 := by
  have hok : fromEnv .sample (sampleEnv []) = .ok _ := fromEnv_of_load (by decide +kernel)
  refine ⟨_,hok,?_⟩
  obtain ⟨_,_,_,_,_,_,_,_,hdeadline,_⟩ := delivery_deadline (σ := Unit) hok (knowing [])
    "https://a" ⟨"e1","DocumentRegistered","k1",1,"2024-01-01T00:00:00Z","doc-1","issuer",.null,
      none⟩
    (fun _ => .error "operation timed out") "2024-01-01T00:01:00Z" (fun _ => 999999999)
    (fun _ => 10000) (fun _ => by decide +kernel)
  have hbound : 4*(((load .sample (sampleEnv [])).1.webhookMaxRetries.toNat+1)*
      (load .sample (sampleEnv [])).1.webhookRequestTimeoutMs.toNat)+5*Backoff.total
      (load .sample (sampleEnv [])).1.webhookRetryBaseDelayMs.toNat
      (load .sample (sampleEnv [])).1.webhookRetryMaxDelayMs.toNat
      (load .sample (sampleEnv [])).1.webhookMaxRetries.toNat = 4*67750 := by decide +kernel
  exact Nat.le_of_mul_le_mul_left (hdeadline.trans hbound.le) (by omega)

end ProofStell.Webhook
