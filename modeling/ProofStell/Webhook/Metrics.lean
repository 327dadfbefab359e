import ProofStell.Webhook.Delivery

/-! The metrics that a dispatcher exports, as accounts of what it did. -/
namespace ProofStell.Webhook
open Transact Cache
variable {DateTime σ : Type}

structure WebhookMetrics where
  deliveries : String → Nat
  retries : Nat
  dlqDepth : Int

namespace WebhookMetrics

def new : WebhookMetrics := ⟨fun _ => 0,0,0⟩

def recordWebhookDelivery (status : String) (m : WebhookMetrics) : WebhookMetrics :=
  { m with deliveries := Function.update m.deliveries status (m.deliveries status+1) }

def incrementWebhookRetry (m : WebhookMetrics) : WebhookMetrics :=
  { m with retries := m.retries+1 }

def setWebhookDlqDepth (depth : Int) (m : WebhookMetrics) : WebhookMetrics :=
  { m with dlqDepth := depth }

end WebhookMetrics

def sendLoopMetered (send : Nat → Except String Unit) :
    Nat → Nat → String → WebhookMetrics → Option String × WebhookMetrics
  | 0, _, lastError, m => (some lastError,m)
  | remaining+1, attempt, _, m =>
    let m := if attempt > 0 then m.incrementWebhookRetry else m
    match send attempt with
    | .ok () => (none,m.recordWebhookDelivery "success")
    | .error e => sendLoopMetered send remaining (attempt+1) e m

section
variable (d : WebhookDispatcher DateTime σ)

def keepLetter (entry : DeadLetterEntry DateTime) (st : DispatcherState DateTime σ) :
    Nat × DispatcherState DateTime σ :=
  match d.cache with
  | some cache =>
    let (_,s) := cache.setRaw (dlqKey entry.url) (entry.serialize d.serde) DLQ_TTL st.store
    let (count,s) := WebhookDispatcher.countPersisted cache d.urls 0 s
    (count,{ st with store := s })
  | none =>
    let dlq := WebhookDispatcher.pushBounded st.dlq entry
    (dlq.length,{ st with dlq := dlq })

def deliverMetered (url : String) (payload : WebhookPayload DateTime)
    (send : Nat → Except String Unit) (failedAt : DateTime)
    (w : DispatcherState DateTime σ × WebhookMetrics) :
    DispatcherState DateTime σ × WebhookMetrics :=
  match sendLoopMetered send (d.maxRetries.toNat+1) 0 "no attempts made" w.2 with
  | (none,m) => (w.1,m)
  | (some lastError,m) =>
    let (depth,st) := keepLetter d (d.deadLetter url payload lastError failedAt) w.1
    (st,(m.recordWebhookDelivery "dead_lettered").setWebhookDlqDepth depth)

def deliverAllMetered (payload : WebhookPayload DateTime) (script : Script DateTime)
    (w : DispatcherState DateTime σ × WebhookMetrics) :
    DispatcherState DateTime σ × WebhookMetrics :=
  d.urls.zipIdx.foldl (fun w u =>
    deliverMetered d u.1 payload (script.send u.2) (script.failedAt u.2) w) w

/-- `dispatch` with its metrics: a skipped event counts as a retry. -/
def dispatchMetered (event : Audit.Event DateTime) (script : Script DateTime)
    (w : DispatcherState DateTime σ × WebhookMetrics) :
    DispatcherState DateTime σ × WebhookMetrics :=
  if d.urls.isEmpty then w
  else
    match d.cache with
    | some cache =>
      match cache.getRaw (dedupKey event.idempotencyKey) w.1.store with
      | (.ok (some _),s) => ({ w.1 with store := s },w.2.incrementWebhookRetry)
      | (_,s) =>
        let (_,s) := cache.setRaw (dedupKey event.idempotencyKey) "delivered" d.deduplicationTtl s
        deliverAllMetered d (WebhookPayload.ofEvent event) script ({ w.1 with store := s },w.2)
    | none => deliverAllMetered d (WebhookPayload.ofEvent event) script w

def callMetered (a : Action DateTime) (w : DispatcherState DateTime σ × WebhookMetrics) :
    Reply DateTime × (DispatcherState DateTime σ × WebhookMetrics) :=
  match a with
  | .dispatch event script => (.dispatched,dispatchMetered d event script w)
  | .drainDlq =>
    (.drained (d.drainDlq w.1).1,((d.drainDlq w.1).2,w.2.setWebhookDlqDepth 0))
  | .dlqDepth => (.depth (d.dlqDepth w.1).1,((d.dlqDepth w.1).2,w.2))

def skips (a : Action DateTime) (st : DispatcherState DateTime σ) : Nat :=
  match a with
  | .dispatch event _ => if alreadyDelivered d event st then 1 else 0
  | .drainDlq | .dlqDepth => 0

def deliveries (a : Action DateTime) (st : DispatcherState DateTime σ) : Nat :=
  match a with
  | .dispatch event _ => if alreadyDelivered d event st then 0 else d.urls.length
  | .drainDlq | .dlqDepth => 0

def performed (a : Action DateTime) (st : DispatcherState DateTime σ) : List (Effect DateTime) :=
  match a with
  | .dispatch event _ => if alreadyDelivered d event st then [] else effects d a
  | .drainDlq | .dlqDepth => []

end

def Effect.isSend : Effect DateTime → Bool
  | .send .. => true
  | .success _ | .deadLetter _ => false

def Effect.isSuccess : Effect DateTime → Bool
  | .success _ => true
  | .send .. | .deadLetter _ => false

def Effect.isDeadLetter : Effect DateTime → Bool
  | .deadLetter _ => true
  | .send .. | .success _ => false

/-- The counters have moved from `m` to `m'` as the effects `h` of `n` deliveries and `k` skipped
events say. -/
structure Booked (h : List (Effect DateTime)) (n k : Nat) (m m' : WebhookMetrics) : Prop where
  success : m'.deliveries "success" = m.deliveries "success"+h.countP Effect.isSuccess
  deadLettered :
    m'.deliveries "dead_lettered" = m.deliveries "dead_lettered"+h.countP Effect.isDeadLetter
  others : ∀ status, status≠"success" → status≠"dead_lettered" →
    m'.deliveries status = m.deliveries status
  retries : m'.retries+n = m.retries+h.countP Effect.isSend+k
  ends : h.countP Effect.isSuccess+h.countP Effect.isDeadLetter = n

namespace Booked

theorem nothing (m : WebhookMetrics) : Booked ([] : List (Effect DateTime)) 0 0 m m :=
  ⟨rfl,rfl,fun _ _ _ => rfl,rfl,rfl⟩

theorem append {h h' : List (Effect DateTime)} {n n' k k' : Nat} {m m' m'' : WebhookMetrics}
    (hm : Booked h n k m m') (hm' : Booked h' n' k' m' m'') :
    Booked (h++h') (n+n') (k+k') m m'' where
  success := by
    rw [hm'.success,hm.success,List.countP_append]
    omega
  deadLettered := by
    rw [hm'.deadLettered,hm.deadLettered,List.countP_append]
    omega
  others status hs hs' := (hm'.others status hs hs').trans (hm.others status hs hs')
  retries := by
    have h1 := hm.retries
    have h2 := hm'.retries
    rw [List.countP_append]
    omega
  ends := by
    have h1 := hm.ends
    have h2 := hm'.ends
    rw [List.countP_append,List.countP_append]
    omega

theorem setDepth {h : List (Effect DateTime)} {n k : Nat} {m m' : WebhookMetrics}
    (hm : Booked h n k m m') (depth : Int) : Booked h n k m (m'.setWebhookDlqDepth depth) :=
  ⟨hm.success,hm.deadLettered,hm.others,hm.retries,hm.ends⟩

end Booked

structure Retried (h : List (Effect DateTime)) (result : Option String)
    (m m' : WebhookMetrics) : Prop where
  deliveries : m'.deliveries = match result with
    | none => (m.recordWebhookDelivery "success").deliveries
    | some _ => m.deliveries
  retries : m'.retries = m.retries+h.countP Effect.isSend
  depth : m'.dlqDepth = m.dlqDepth
  success : h.countP Effect.isSuccess = if result.isNone then 1 else 0
  letters : h.countP Effect.isDeadLetter = 0

theorem sendLoopMetered_retries (url : String) (payload : WebhookPayload DateTime)
    (send : Nat → Except String Unit) (remaining a : Nat) (lastError : String)
    (m : WebhookMetrics) :
    ∃ m', sendLoopMetered send remaining (a+1) lastError m =
        (sendLoop send remaining (a+1) lastError,m') ∧
      Retried (sends url payload send remaining (a+1))
        (sendLoop send remaining (a+1) lastError) m m' := by
  induction remaining generalizing a lastError m with
  | zero => exact ⟨m,rfl,rfl,rfl,rfl,rfl,rfl⟩
  | succ remaining ih =>
    simp only [sendLoopMetered,sendLoop,sends,gt_iff_lt,Nat.succ_pos,if_true]
    cases hsend : send (a+1) with
    | ok u => exact ⟨_,rfl,rfl,rfl,rfl,rfl,rfl⟩
    | error e =>
      obtain ⟨m',heq,hm⟩ := ih (a+1) e m.incrementWebhookRetry
      refine ⟨m',heq,hm.deliveries,?_,hm.depth,?_,?_⟩
      · have hone : m.incrementWebhookRetry.retries = m.retries+1 := rfl
        rw [hm.retries,List.countP_cons_of_pos rfl,hone]
        omega
      · rw [List.countP_cons_of_neg (by simp [Effect.isSuccess])]
        exact hm.success
      · rw [List.countP_cons_of_neg (by simp [Effect.isDeadLetter])]
        exact hm.letters

theorem sendLoopMetered_spec (url : String) (payload : WebhookPayload DateTime)
    (send : Nat → Except String Unit) (maxRetries : Nat) (lastError : String)
    (m : WebhookMetrics) :
    ∃ m', sendLoopMetered send (maxRetries+1) 0 lastError m =
        (sendLoop send (maxRetries+1) 0 lastError,m') ∧
      Retried (sends url payload send (maxRetries+1) 0)
        (sendLoop send (maxRetries+1) 0 lastError) m { m' with retries := m'.retries+1 } := by
  simp only [sendLoopMetered,sendLoop,sends,gt_iff_lt,Nat.lt_irrefl,if_false]
  cases hsend : send 0 with
  | ok u => exact ⟨_,rfl,rfl,rfl,rfl,rfl,rfl⟩
  | error e =>
    obtain ⟨m',heq,hm⟩ := sendLoopMetered_retries url payload send maxRetries 0 e m
    refine ⟨m',heq,hm.deliveries,?_,hm.depth,?_,?_⟩
    · rw [List.countP_cons_of_pos rfl,← Nat.add_assoc,hm.retries]
    · rw [List.countP_cons_of_neg (by simp [Effect.isSuccess])]
      exact hm.success
    · rw [List.countP_cons_of_neg (by simp [Effect.isDeadLetter])]
      exact hm.letters

section
variable (d : WebhookDispatcher DateTime σ)

theorem deliverMetered_spec (url : String) (payload : WebhookPayload DateTime)
    (send : Nat → Except String Unit) (failedAt : DateTime)
    (w : DispatcherState DateTime σ × WebhookMetrics) :
    (deliverMetered d url payload send failedAt w).1 =
        d.deliverWithRetry url payload send failedAt w.1 ∧
      Booked (deliveryEffects d url payload send failedAt) 1 0 w.2
        (deliverMetered d url payload send failedAt w).2 := by
  obtain ⟨m',heq,hm⟩ := sendLoopMetered_spec url payload send d.maxRetries.toNat
    "no attempts made" w.2
  have hretries : m'.retries+1 = _ := hm.retries
  rw [deliverMetered,heq,WebhookDispatcher.deliverWithRetry,deliveryEffects,
    WebhookDispatcher.attemptAll]
  cases hloop : sendLoop send (d.maxRetries.toNat+1) 0 "no attempts made" with
  | none =>
    rw [hloop] at hm
    have hdel : m'.deliveries = _ := hm.deliveries
    refine ⟨rfl,?_,?_,?_,?_,?_⟩
    · simp [hdel,hm.success,WebhookMetrics.recordWebhookDelivery]
    · simp [hdel,hm.letters,WebhookMetrics.recordWebhookDelivery]
    · intro status hs _
      simp [hdel,WebhookMetrics.recordWebhookDelivery,Function.update_of_ne hs]
    · simpa using hretries
    · simp [hm.success,hm.letters]
  | some e =>
    rw [hloop] at hm
    have hdel : m'.deliveries = _ := hm.deliveries
    constructor
    · cases hd : d.cache <;> simp [keepLetter,hd,WebhookDispatcher.deadLetter]
    · refine Booked.setDepth ⟨?_,?_,?_,?_,?_⟩ _
      · simp [hdel,hm.success,WebhookMetrics.recordWebhookDelivery,Effect.isSuccess]
      · simp [hdel,hm.letters,WebhookMetrics.recordWebhookDelivery,Effect.isDeadLetter]
      · intro status _ hs
        simp [hdel,WebhookMetrics.recordWebhookDelivery,Function.update_of_ne hs]
      · simpa [WebhookMetrics.recordWebhookDelivery,Effect.isSend] using hretries
      · simp [hm.success,hm.letters,Effect.isSuccess,Effect.isDeadLetter]

theorem deliverAllMetered_spec (event : Audit.Event DateTime) (script : Script DateTime)
    (w : DispatcherState DateTime σ × WebhookMetrics) :
    (deliverAllMetered d (.ofEvent event) script w).1 =
        d.deliverAll (.ofEvent event) script w.1 ∧
      Booked (effects d (.dispatch event script)) d.urls.length 0 w.2
        (deliverAllMetered d (.ofEvent event) script w).2 := by
  rw [deliverAllMetered,WebhookDispatcher.deliverAll,effects,← List.length_zipIdx (l := d.urls)]
  induction d.urls.zipIdx generalizing w with
  | nil => exact ⟨rfl,.nothing _⟩
  | cons u us ih =>
    obtain ⟨hone,hbook⟩ := deliverMetered_spec d u.1 (.ofEvent event) (script.send u.2)
      (script.failedAt u.2) w
    obtain ⟨hrest,hbooks⟩ := ih (deliverMetered d u.1 (.ofEvent event) (script.send u.2)
      (script.failedAt u.2) w)
    rw [hone] at hrest
    rw [List.foldl_cons,List.foldl_cons,List.flatMap_cons,List.length_cons,Nat.add_comm _ 1]
    exact ⟨hrest,hbook.append hbooks⟩

theorem callMetered_spec (a : Action DateTime)
    (w : DispatcherState DateTime σ × WebhookMetrics) :
    (callMetered d a w).1 = (call d a w.1).1 ∧
      (callMetered d a w).2.1 = (call d a w.1).2 ∧
      Booked (performed d a w.1) (deliveries d a w.1) (skips d a w.1) w.2
        (callMetered d a w).2.2 := by
  cases a with
  | drainDlq => exact ⟨rfl,rfl,Booked.setDepth (.nothing _) 0⟩
  | dlqDepth => exact ⟨rfl,rfl,.nothing _⟩
  | dispatch event script =>
    simp only [callMetered,call,dispatchMetered,WebhookDispatcher.dispatch,performed,deliveries,
      skips,alreadyDelivered,true_and]
    by_cases hurls : d.urls.isEmpty = true
    · have hnil : d.urls = [] := List.isEmpty_iff.mp hurls
      simpa [hnil,effects] using Booked.nothing w.2
    · simp only [hurls,Bool.not_false,Bool.true_and]
      cases hd : d.cache with
      | none => simpa using deliverAllMetered_spec d event script w
      | some cache =>
        cases hget : cache.getRaw (dedupKey event.idempotencyKey) w.1.store with
        | mk found s =>
          have pass := deliverAllMetered_spec d event script
            ({ w.1 with store := (cache.setRaw (dedupKey event.idempotencyKey) "delivered"
              d.deduplicationTtl s).2 },w.2)
          cases found with
          | error e => simpa [hget] using pass
          | ok value =>
            cases value with
            | none => simpa [hget] using pass
            | some v =>
              refine ⟨by simp [hget],?_⟩
              simp only [hget,if_true]
              exact ⟨rfl,rfl,fun _ _ _ => rfl,rfl,rfl⟩

theorem metered_run (l : List (Action DateTime))
    (w : DispatcherState DateTime σ × WebhookMetrics) :
    (Machine.final (callMetered d) l w).1 = Machine.final (call d) l w.1 ∧
      Machine.outputs (callMetered d) l w = Machine.outputs (call d) l w.1 ∧
      Booked (Machine.trace (call d) (performed d) l w.1)
        (Machine.total (call d) (deliveries d) l w.1) (Machine.total (call d) (skips d) l w.1) w.2
        (Machine.final (callMetered d) l w).2 := by
  induction l generalizing w with
  | nil => exact ⟨rfl,rfl,.nothing _⟩
  | cons a l ih =>
    obtain ⟨hreply,hstate,hbook⟩ := callMetered_spec d a w
    obtain ⟨hfinal,houts,hbooks⟩ := ih (callMetered d a w).2
    rw [hstate] at hfinal houts hbooks
    refine ⟨hfinal,?_,hbook.append hbooks⟩
    rw [Machine.outputs,Machine.outputs,hreply,houts]

/-- Every delivery is counted once, as a success or as dead-lettered, and the retry counter is the
sends without the first of each delivery, plus the skipped events. -/
theorem deliveries_account (l : List (Action DateTime)) (s : σ) :
    let w := Machine.final (callMetered d) l (⟨[],s⟩,.new)
    let h := Machine.trace (call d) (performed d) l ⟨[],s⟩
    let delivered := Machine.total (call d) (deliveries d) l ⟨[],s⟩
    (w.1 = Machine.final (call d) l ⟨[],s⟩ ∧
      Machine.outputs (callMetered d) l (⟨[],s⟩,.new) = Machine.outputs (call d) l ⟨[],s⟩) ∧
    w.2.deliveries "success" = h.countP Effect.isSuccess ∧
    w.2.deliveries "dead_lettered" = h.countP Effect.isDeadLetter ∧
    w.2.deliveries "success"+w.2.deliveries "dead_lettered" = delivered ∧
    (∀ status, status≠"success" → status≠"dead_lettered" → w.2.deliveries status = 0) ∧
    w.2.retries+delivered =
      h.countP Effect.isSend+Machine.total (call d) (skips d) l ⟨[],s⟩ := by
  intro w h delivered
  obtain ⟨hfinal,houts,hbook⟩ := metered_run d l (⟨[],s⟩,.new)
  have hsuccess : w.2.deliveries "success" = h.countP Effect.isSuccess :=
    hbook.success.trans (Nat.zero_add _)
  have hletters : w.2.deliveries "dead_lettered" = h.countP Effect.isDeadLetter :=
    hbook.deadLettered.trans (Nat.zero_add _)
  have hretries : w.2.retries+delivered = 0+h.countP Effect.isSend+_ := hbook.retries
  refine ⟨⟨hfinal,houts⟩,hsuccess,hletters,?_,hbook.others,?_⟩
  · rw [hsuccess,hletters]
    exact hbook.ends
  · rwa [Nat.zero_add] at hretries

/-- The queue starts empty, in memory or in a cache in which nothing goes wrong. -/
def FreshQueue (s : σ) : Prop :=
  d.cache = none ∨ ∃ cache inv contents ttls, d.cache = some cache ∧
    cache.Healthy inv contents ttls ∧ ttls DLQ_TTL ∧ ttls d.deduplicationTtl ∧ inv s ∧
    ∀ url∈d.urls, contents s (dlqKey url) = none

end

section Gauge
variable {d : WebhookDispatcher DateTime σ} {cache : CacheHandle σ} {inv : σ → Prop}
  {contents : σ → CacheKey → Option String} {ttls : UInt64 → Prop}

def filled (contents : σ → CacheKey → Option String) (urls : List String) (s : σ) : Nat :=
  (urls.filter fun u => (contents s (dlqKey u)).isSome).length

theorem sendLoopMetered_depth (send : Nat → Except String Unit) (remaining a : Nat)
    (lastError : String) (m : WebhookMetrics) :
    (sendLoopMetered send remaining a lastError m).2.dlqDepth = m.dlqDepth := by
  induction remaining generalizing a lastError m with
  | zero => rfl
  | succ remaining ih =>
    have hcount : (if a > 0 then m.incrementWebhookRetry else m).dlqDepth = m.dlqDepth := by
      split <;> rfl
    rw [sendLoopMetered]
    cases send a with
    | ok u => exact hcount
    | error e => exact (ih _ _ _).trans hcount

structure Shown (inv : σ → Prop) (contents : σ → CacheKey → Option String) (urls : List String)
    (w : DispatcherState DateTime σ × WebhookMetrics) : Prop where
  inv : inv w.1.store
  depth : w.2.dlqDepth = filled contents urls w.1.store

theorem Shown.deliver (hd : d.cache = some cache) (hc : cache.Healthy inv contents ttls)
    (ht : ttls DLQ_TTL) {w : DispatcherState DateTime σ × WebhookMetrics}
    (hw : Shown inv contents d.urls w) (url : String) (payload : WebhookPayload DateTime)
    (send : Nat → Except String Unit) (failedAt : DateTime) :
    Shown inv contents d.urls (deliverMetered d url payload send failedAt w) := by
  have hdepth := sendLoopMetered_depth send (d.maxRetries.toNat+1) 0 "no attempts made" w.2
  rw [deliverMetered]
  cases hloop : sendLoopMetered send (d.maxRetries.toNat+1) 0 "no attempts made" w.2 with
  | mk result m =>
    rw [hloop] at hdepth
    cases result with
    | none => exact ⟨hw.inv,hdepth.trans hw.depth⟩
    | some e =>
      let entry := d.deadLetter url payload e failedAt
      obtain ⟨_,hinv,_⟩ := hc.set w.1.store (dlqKey entry.url) (entry.serialize d.serde) DLQ_TTL
        hw.inv ht
      obtain ⟨hcount,hinv',hsame⟩ := countPersisted_spec hc d.urls 0 hinv
      rw [Nat.zero_add,← hsame] at hcount
      simp only [keepLetter,hd]
      exact ⟨hinv',congrArg Nat.cast hcount⟩

theorem Shown.deliverAll (hd : d.cache = some cache) (hc : cache.Healthy inv contents ttls)
    (ht : ttls DLQ_TTL) {w : DispatcherState DateTime σ × WebhookMetrics}
    (hw : Shown inv contents d.urls w) (payload : WebhookPayload DateTime)
    (script : Script DateTime) :
    Shown inv contents d.urls (deliverAllMetered d payload script w) := by
  rw [deliverAllMetered]
  generalize d.urls.zipIdx = us
  induction us generalizing w with
  | nil => exact hw
  | cons u us ih => exact ih (hw.deliver hd hc ht u.1 payload (script.send u.2) (script.failedAt u.2))

theorem drainUrls_empties (hc : cache.Healthy inv contents ttls) (urls : List String)
    (drained : List (DeadLetterEntry DateTime)) {s : σ} (hs : inv s) :
    inv (WebhookDispatcher.drainUrls d.serde cache urls drained s).2 ∧
      ∀ url, (url∈urls ∨ contents s (dlqKey url) = none) →
        contents (WebhookDispatcher.drainUrls d.serde cache urls drained s).2 (dlqKey url) =
          none := by
  induction urls generalizing drained s with
  | nil => exact ⟨hs,fun url h => h.resolve_left List.not_mem_nil⟩
  | cons u urls ih =>
    obtain ⟨_,hinv,hsame⟩ := hc.get s (dlqKey u) hs
    obtain ⟨_,hinv',hdel⟩ := hc.delete _ (dlqKey u) hinv
    obtain ⟨hlast,hrest⟩ := ih (drained++WebhookDispatcher.recovered d.serde
      (cache.getRaw (dlqKey u) s).1) hinv'
    refine ⟨hlast,fun url h => hrest url ?_⟩
    rw [hdel,hsame]
    by_cases hu : url = u
    · right
      rw [hu,Function.update_self]
    · rw [Function.update_of_ne (dlqKey_injective.ne hu)]
      exact h.imp_left fun h => (List.mem_cons.mp h).resolve_left hu

theorem Shown.call (hd : d.cache = some cache) (hc : cache.Healthy inv contents ttls)
    (ht : ttls DLQ_TTL) (ht' : ttls d.deduplicationTtl)
    {w : DispatcherState DateTime σ × WebhookMetrics} (hw : Shown inv contents d.urls w)
    (a : Action DateTime) : Shown inv contents d.urls (callMetered d a w).2 := by
  cases a with
  | drainDlq =>
    simp only [callMetered,WebhookDispatcher.drainDlq,hd]
    obtain ⟨hinv,hempty⟩ := drainUrls_empties (d := d) hc d.urls [] hw.inv
    refine ⟨hinv,?_⟩
    have hnone : filled contents d.urls
        (WebhookDispatcher.drainUrls d.serde cache d.urls [] w.1.store).2 = 0 := by
      rw [filled,List.length_eq_zero_iff,List.filter_eq_nil_iff]
      intro url hurl
      simp [hempty url (Or.inl hurl)]
    exact (congrArg Nat.cast hnone).symm
  | dlqDepth =>
    simp only [callMetered,WebhookDispatcher.dlqDepth,hd]
    obtain ⟨_,hinv,hsame⟩ := countPersisted_spec hc d.urls 0 hw.inv
    refine ⟨hinv,?_⟩
    simp only [filled,hsame]
    exact hw.depth
  | dispatch event script =>
    simp only [callMetered,dispatchMetered,hd]
    split
    · exact hw
    · obtain ⟨_,hinv,hsame⟩ := hc.get w.1.store (dedupKey event.idempotencyKey) hw.inv
      obtain ⟨_,hinv',hset⟩ := hc.set _ (dedupKey event.idempotencyKey) "delivered"
        d.deduplicationTtl hinv ht'
      have hslots : filled contents d.urls (cache.setRaw (dedupKey event.idempotencyKey)
          "delivered" d.deduplicationTtl (cache.getRaw (dedupKey event.idempotencyKey)
            w.1.store).2).2 = filled contents d.urls w.1.store := by
        have hslot (url : String) := Function.update_of_ne (dlqKey_ne_dedupKey url
          event.idempotencyKey) (some "delivered") (contents w.1.store)
        simp only [filled,hset,hsame,hslot]
      cases hget : cache.getRaw (dedupKey event.idempotencyKey) w.1.store with
      | mk found s =>
        rw [hget] at hinv hsame hinv' hslots
        have pass := Shown.deliverAll hd hc ht
          (w := ({ w.1 with store := (cache.setRaw (dedupKey event.idempotencyKey) "delivered"
            d.deduplicationTtl s).2 },w.2)) ⟨hinv',by rw [hslots]; exact hw.depth⟩
          (.ofEvent event) script
        cases found with
        | error e => exact pass
        | ok value =>
          cases value with
          | none => exact pass
          | some v =>
            refine ⟨hinv,?_⟩
            simp only [filled,hsame]
            exact hw.depth

theorem deliver_in_memory (hd : d.cache = none) (url : String) (payload : WebhookPayload DateTime)
    (send : Nat → Except String Unit) (failedAt : DateTime)
    {w : DispatcherState DateTime σ × WebhookMetrics} (hw : w.2.dlqDepth = w.1.dlq.length) :
    (deliverMetered d url payload send failedAt w).2.dlqDepth =
      (deliverMetered d url payload send failedAt w).1.dlq.length := by
  have hdepth := sendLoopMetered_depth send (d.maxRetries.toNat+1) 0 "no attempts made" w.2
  rw [deliverMetered]
  cases hloop : sendLoopMetered send (d.maxRetries.toNat+1) 0 "no attempts made" w.2 with
  | mk result m =>
    rw [hloop] at hdepth
    cases result with
    | none => exact hdepth.trans hw
    | some e => simp [keepLetter,hd,WebhookMetrics.setWebhookDlqDepth]

theorem call_in_memory (hd : d.cache = none) (a : Action DateTime)
    {w : DispatcherState DateTime σ × WebhookMetrics} (hw : w.2.dlqDepth = w.1.dlq.length) :
    (callMetered d a w).2.2.dlqDepth = (callMetered d a w).2.1.dlq.length := by
  cases a with
  | drainDlq => simp [callMetered,WebhookDispatcher.drainDlq,hd,WebhookMetrics.setWebhookDlqDepth]
  | dlqDepth => simpa [callMetered,WebhookDispatcher.dlqDepth,hd] using hw
  | dispatch event script =>
    simp only [callMetered,dispatchMetered,hd]
    split
    · exact hw
    · rw [deliverAllMetered]
      generalize d.urls.zipIdx = us
      induction us generalizing w with
      | nil => exact hw
      | cons u us ih => exact ih (deliver_in_memory hd u.1 _ (script.send u.2) (script.failedAt u.2) hw)

/-- The depth gauge never lags. After any sequence of calls on a fresh queue, in memory or in a
cache in which nothing goes wrong, it shows what `dlq_depth` would answer. -/
theorem gauge_is_depth {s : σ} (h : FreshQueue d s) (l : List (Action DateTime)) :
    let w := Machine.final (callMetered d) l (⟨[],s⟩,.new)
    w.2.dlqDepth = (d.dlqDepth w.1).1 := by
  intro w
  obtain hd | ⟨cache,inv,contents,ttls,hd,hc,ht,ht',hs,hempty⟩ := h
  · have hw : w.2.dlqDepth = w.1.dlq.length :=
      Machine.final_invariant
        (P := fun w : DispatcherState DateTime σ × WebhookMetrics => w.2.dlqDepth = w.1.dlq.length)
        (fun a _ hw => call_in_memory hd a hw) l _ rfl
    rw [WebhookDispatcher.dlqDepth,hd]
    exact hw
  · have hfresh : Shown inv contents d.urls ((⟨[],s⟩,.new) :
        DispatcherState DateTime σ × WebhookMetrics) := by
      have hnone : filled contents d.urls s = 0 := by
        rw [filled,List.length_eq_zero_iff,List.filter_eq_nil_iff]
        intro url hurl
        simp [hempty url hurl]
      exact ⟨hs,(congrArg Nat.cast hnone).symm⟩
    have hw := Machine.final_invariant (P := Shown inv contents d.urls)
      (fun a _ hw => hw.call hd hc ht ht' a) l _ hfresh
    have hcount := (countPersisted_spec hc d.urls 0 hw.inv).1
    rw [Nat.zero_add] at hcount
    rw [WebhookDispatcher.dlqDepth,hd]
    exact hw.depth.trans (congrArg Nat.cast hcount.symm)

/-- One URL, a cache, and an event whose only send fails. -/
theorem gauge_is_depth_after_dead_letter :
    let env : Nat → Surroundings := fun _ => ⟨0,0,0,true,true,true,0,0⟩
    let d : WebhookDispatcher String (CacheBackend × Nat) :=
      (WebhookDispatcher.new ["https://a"] 0 (knowing [])).withCache (backendHandle env)
    let event : Audit.Event String := ⟨"e1","doc-1","DocumentRegistered",.null,
      "2024-01-01T00:00:00Z",1,"issuer","k1",.contract,none⟩
    let script : Script String :=
      ⟨fun _ _ => .error "HTTP 500 Internal Server Error",fun _ => "2024-01-01T00:00:01Z"⟩
    let w := Machine.final (callMetered d) [.dispatch event script]
      (⟨[],(.inMemory InMemoryCache.new,0)⟩,.new)
    w.2.dlqDepth = (d.dlqDepth w.1).1 := by
  intro env d event script
  have hlong : ∀ ttl, 0 < ttl.toNat → LongTtl env .fallback ttl :=
    fun ttl httl => longTtl_still httl (by decide)
  exact gauge_is_depth (Or.inr ⟨_,_,_,_,rfl,
    backend_healthy env (fun _ => ⟨rfl,rfl,rfl⟩) .fallback,hlong _ (by decide),
    hlong _ (by decide),steady_new env 0,fun _ _ => rfl⟩) [.dispatch event script]

end Gauge

end ProofStell.Webhook
