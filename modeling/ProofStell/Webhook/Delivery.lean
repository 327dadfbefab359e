import ProofStell.Webhook.DeadLetters

/-! What a dispatcher does for the outside: its sends, the successes it records, and the dead
letters it appends. -/
namespace ProofStell.Webhook
variable {DateTime σ : Type}

inductive Effect (DateTime : Type) where
  | send (url : String) (payload : WebhookPayload DateTime) (attempt : Nat)
    (result : Except String Unit)
  | success (url : String)
  | deadLetter (entry : DeadLetterEntry DateTime)

def Effect.letter : Effect DateTime → Option (DeadLetterEntry DateTime)
  | .deadLetter entry => some entry
  | .send .. | .success _ => none

def sends (url : String) (payload : WebhookPayload DateTime) (send : Nat → Except String Unit) :
    Nat → Nat → List (Effect DateTime)
  | 0, _ => []
  | remaining+1, attempt =>
    match send attempt with
    | .ok () => [.send url payload attempt (.ok ()),.success url]
    | .error e => .send url payload attempt (.error e)::
        sends url payload send remaining (attempt+1)

section
variable (d : WebhookDispatcher DateTime σ)

def deliveryEffects (url : String) (payload : WebhookPayload DateTime)
    (send : Nat → Except String Unit) (failedAt : DateTime) : List (Effect DateTime) :=
  sends url payload send (d.maxRetries.toNat+1) 0++
    ((d.attemptAll send).map fun lastError =>
      .deadLetter (d.deadLetter url payload lastError failedAt)).toList

def deliverLogged (url : String) (payload : WebhookPayload DateTime)
    (send : Nat → Except String Unit) (failedAt : DateTime)
    (w : DispatcherState DateTime σ × List (Effect DateTime)) :
    DispatcherState DateTime σ × List (Effect DateTime) :=
  (d.deliverWithRetry url payload send failedAt w.1,
    w.2++deliveryEffects d url payload send failedAt)

def callLogged (a : Action DateTime) (w : DispatcherState DateTime σ × List (Effect DateTime)) :
    Reply DateTime × (DispatcherState DateTime σ × List (Effect DateTime)) :=
  match a with
  | .dispatch event script =>
    if d.urls.isEmpty then (.dispatched,w)
    else
      let payload := WebhookPayload.ofEvent event
      (.dispatched,d.urls.zipIdx.foldl (fun w u =>
        deliverLogged d u.1 payload (script.send u.2) (script.failedAt u.2) w) w)
  | .drainDlq => (.drained (d.drainDlq w.1).1,((d.drainDlq w.1).2,w.2))
  | .dlqDepth => (.depth (d.dlqDepth w.1).1,((d.dlqDepth w.1).2,w.2))

/-- What a call does for the outside: a dispatch takes the URLs in order, each with the results
of its own sends. -/
def effects : Action DateTime → List (Effect DateTime)
  | .dispatch event script => d.urls.zipIdx.flatMap fun u =>
      deliveryEffects d u.1 (.ofEvent event) (script.send u.2) (script.failedAt u.2)
  | .drainDlq | .dlqDepth => []

def sinceDrain (l : List (Action DateTime)) : List (DeadLetterEntry DateTime) :=
  l.foldl (fun es a => match a with
    | .drainDlq => []
    | .dispatch .. | .dlqDepth => es++(effects d a).filterMap Effect.letter) []

end

def sent (url : String) (payload : WebhookPayload DateTime) (send : Nat → Except String Unit)
    (n : Nat) : List (Effect DateTime) :=
  (List.range n).map fun attempt => .send url payload attempt (send attempt)

/-- A delivery ends exactly once: with a success after the first send that succeeds, or with a
dead letter after `max_retries + 1` failed sends. -/
def EndsOnce (maxRetries : Nat) (url : String) (payload : WebhookPayload DateTime)
    (send : Nat → Except String Unit) (failedAt : DateTime) (effects : List (Effect DateTime)) :
    Prop :=
  (∃ k, k ≤ maxRetries ∧ (∀ a < k, ∃ e, send a = .error e) ∧ send k = .ok () ∧
      effects = sent url payload send (k+1)++[.success url]) ∨
    ∃ attempts lastError, (∀ a ≤ maxRetries, ∃ e, send a = .error e) ∧
      send maxRetries = .error lastError ∧ attempts.toNat = maxRetries+1 ∧
      effects = sent url payload send (maxRetries+1)++
        [.deadLetter ⟨url,payload,attempts,lastError,failedAt⟩]

theorem sends_spec (url : String) (payload : WebhookPayload DateTime)
    (send : Nat → Except String Unit) (remaining a : Nat) (lastError : String) :
    (∃ k, k < remaining ∧ (∀ i < k, ∃ e, send (a+i) = .error e) ∧ send (a+k) = .ok () ∧
        sendLoop send remaining a lastError = none ∧
        sends url payload send remaining a =
          (List.range' a (k+1)).map (fun i => .send url payload i (send i))++[.success url]) ∨
      ∃ e, (∀ i < remaining, ∃ e, send (a+i) = .error e) ∧
        sendLoop send remaining a lastError = some e ∧
        (∀ n, remaining = n+1 → send (a+n) = .error e) ∧
        sends url payload send remaining a =
          (List.range' a remaining).map fun i => .send url payload i (send i) := by
  induction remaining generalizing a lastError with
  | zero => exact Or.inr ⟨lastError,by simp,rfl,by simp,rfl⟩
  | succ remaining ih =>
    cases hsend : send a with
    | ok u =>
      refine Or.inl ⟨0,Nat.succ_pos _,by simp,hsend,?_,?_⟩
      · simp [sendLoop,hsend]
      · simp [sends,hsend]
    | error e =>
      have fails {n : Nat} (h : ∀ i < n, ∃ e, send (a+1+i) = .error e) :
          ∀ i < n+1, ∃ e, send (a+i) = .error e := by
        intro i hi
        cases i with
        | zero => exact ⟨e,hsend⟩
        | succ i =>
          rw [Nat.add_comm i 1,← Nat.add_assoc]
          exact h i (Nat.lt_of_succ_lt_succ hi)
      have shift (n : Nat) : a+1+n = a+(n+1) := by omega
      obtain ⟨k,hk,hfail,hok,hloop,heff⟩ | ⟨e',hfail,hloop,hlast,heff⟩ := ih (a+1) e
      · refine Or.inl ⟨k+1,Nat.succ_lt_succ hk,fails hfail,shift k ▸ hok,?_,?_⟩
        · simpa only [sendLoop,hsend] using hloop
        · rw [List.range'_succ,List.map_cons,hsend]
          simp only [sends,hsend,heff,List.cons_append]
      · refine Or.inr ⟨e',fails hfail,?_,?_,?_⟩
        · simpa only [sendLoop,hsend] using hloop
        · intro n hn
          cases n with
          | zero =>
            have hzero : remaining = 0 := by omega
            subst hzero
            simp only [sendLoop] at hloop
            rw [← Option.some.inj hloop]
            exact hsend
          | succ n =>
            rw [← shift n]
            exact hlast n (by omega)
        · rw [List.range'_succ,List.map_cons,hsend]
          simp only [sends,hsend,heff]

theorem delivery_ends_once {d : WebhookDispatcher DateTime σ}
    (hmax : d.maxRetries.toNat < 2^32-1) (url : String) (payload : WebhookPayload DateTime)
    (send : Nat → Except String Unit) (failedAt : DateTime) :
    EndsOnce d.maxRetries.toNat url payload send failedAt
      (deliveryEffects d url payload send failedAt) := by
  have hattempts : (d.maxRetries+1).toNat = d.maxRetries.toNat+1 := by
    rw [UInt32.toNat_add,UInt32.toNat_one]
    omega
  obtain ⟨k,hk,hfail,hok,hloop,heff⟩ | ⟨e,hfail,hloop,hlast,heff⟩ :=
    sends_spec url payload send (d.maxRetries.toNat+1) 0 "no attempts made"
  · refine Or.inl ⟨k,Nat.lt_succ_iff.mp hk,by simpa using hfail,by simpa using hok,?_⟩
    rw [deliveryEffects,WebhookDispatcher.attemptAll,hloop,heff,sent,List.range_eq_range']
    simp
  · have hlast' := hlast _ rfl
    rw [Nat.zero_add] at hlast'
    refine Or.inr ⟨d.maxRetries+1,e,?_,hlast',hattempts,?_⟩
    · intro a ha
      simpa using hfail a (Nat.lt_succ_of_le ha)
    · rw [deliveryEffects,WebhookDispatcher.attemptAll,hloop,heff,sent,List.range_eq_range']
      rfl

theorem sends_letter (url : String) (payload : WebhookPayload DateTime)
    (send : Nat → Except String Unit) (remaining a : Nat) :
    (sends url payload send remaining a).filterMap Effect.letter = [] := by
  induction remaining generalizing a with
  | zero => rfl
  | succ remaining ih =>
    cases hsend : send a with
    | ok u => simp [sends,hsend,Effect.letter]
    | error e => simp only [sends,hsend,List.filterMap_cons,Effect.letter,ih]

theorem effects_letters (d : WebhookDispatcher DateTime σ) (event : Audit.Event DateTime)
    (script : Script DateTime) :
    (effects d (.dispatch event script)).filterMap Effect.letter =
      deadLettered d event script := by
  rw [effects,deadLettered]
  induction d.urls.zipIdx with
  | nil => rfl
  | cons u us ih =>
    rw [List.flatMap_cons,List.filterMap_append,ih,List.filterMap_cons,deliveryEffects,
      List.filterMap_append,sends_letter]
    cases d.attemptAll (script.send u.2) <;> simp [Effect.letter]

theorem sinceDrain_eq_pending (d : WebhookDispatcher DateTime σ) (l : List (Action DateTime)) :
    sinceDrain d l = pending d l := by
  induction l using List.reverseRecOn with
  | nil => rfl
  | append_singleton l a ih =>
    rw [pending_snoc,← ih]
    simp only [sinceDrain,List.foldl_append,List.foldl_cons,List.foldl_nil]
    cases a with
    | dispatch event script => simp only [effects_letters]
    | drainDlq => rfl
    | dlqDepth => simp only [effects,List.filterMap_nil,List.append_nil]

/-- The log does not touch the dispatcher, and a call adds its effects. -/
theorem callLogged_eq {d : WebhookDispatcher DateTime σ} (hd : d.cache = none)
    (a : Action DateTime) (w : DispatcherState DateTime σ × List (Effect DateTime)) :
    callLogged d a w = ((call d a w.1).1,((call d a w.1).2,w.2++effects d a)) := by
  cases a with
  | drainDlq => simp [callLogged,call,effects]
  | dlqDepth => simp [callLogged,call,effects]
  | dispatch event script =>
    have all (us : List (String × Nat)) :
        us.foldl (fun w u => deliverLogged d u.1 (.ofEvent event) (script.send u.2)
          (script.failedAt u.2) w) w =
        (us.foldl (fun st u => d.deliverWithRetry u.1 (.ofEvent event) (script.send u.2)
          (script.failedAt u.2) st) w.1,w.2++us.flatMap fun u =>
            deliveryEffects d u.1 (.ofEvent event) (script.send u.2) (script.failedAt u.2)) := by
      induction us generalizing w with
      | nil => simp
      | cons u us ih => rw [List.foldl_cons,ih]; simp [deliverLogged]
    simp only [callLogged,call,WebhookDispatcher.dispatch,hd,effects]
    cases hu : d.urls with
    | nil => simp
    | cons u us => simp [all,WebhookDispatcher.deliverAll,hu]

theorem logged_run {d : WebhookDispatcher DateTime σ} (hd : d.cache = none)
    (l : List (Action DateTime)) (w : DispatcherState DateTime σ × List (Effect DateTime)) :
    Machine.final (callLogged d) l w =
      (Machine.final (call d) l w.1,w.2++l.flatMap (effects d)) := by
  induction l generalizing w with
  | nil => simp [Machine.final]
  | cons a l ih => rw [Machine.final,ih,callLogged_eq hd]; simp [Machine.final]

/-- Each delivery ends with one success or one dead letter, and a drain returns the last 10000 dead
letters appended since the previous one, in order. -/
theorem deliveries_end_once {d : WebhookDispatcher DateTime σ} (hd : d.cache = none)
    (hmax : d.maxRetries.toNat < 2^32-1) (l : List (Action DateTime)) (s : σ) :
    Machine.final (callLogged d) l (⟨[],s⟩,[]) =
        (Machine.final (call d) l ⟨[],s⟩,l.flatMap (effects d)) ∧
      (∀ event script, .dispatch event script∈l → ∀ u∈d.urls.zipIdx,
        EndsOnce d.maxRetries.toNat u.1 (.ofEvent event) (script.send u.2) (script.failedAt u.2)
          (deliveryEffects d u.1 (.ofEvent event) (script.send u.2) (script.failedAt u.2))) ∧
      ∀ n, l[n]? = some .drainDlq →
        (Machine.outputs (call d) l ⟨[],s⟩)[n]? = some (.drainDlq,
          .drained (recent MAX_DLQ_DEPTH (sinceDrain d (l.take n)))) ∧
        (Machine.final (call d) (l.take (n+1)) ⟨[],s⟩).dlq = [] := by
  refine ⟨logged_run hd l _,fun event script _ u _ => delivery_ends_once hmax _ _ _ _,?_⟩
  intro n hn
  have hqueue := queue_recent hd (l.take n) s
  constructor
  · rw [Machine.outputs_getElem?,hn,Option.map_some,call,WebhookDispatcher.drainDlq,hd,hqueue,
      sinceDrain_eq_pending]
  · rw [List.take_add_one,hn,Option.toList_some,Machine.final_snoc,call,
      WebhookDispatcher.drainDlq,hd]

/-- The first URL fails twice, the second answers at the second attempt. -/
theorem deliveries_end_once_at_two_urls :
    let d : WebhookDispatcher String Unit := .new ["https://a","https://b"] 1 (knowing [])
    let event : Audit.Event String := ⟨"e1","doc-1","DocumentRegistered",.null,
      "2024-01-01T00:00:00Z",1,"issuer","k1",.contract,none⟩
    let script : Script String := ⟨fun url attempt =>
      if url = 1 ∧ attempt = 1 then .ok () else .error "HTTP 500 Internal Server Error",
      fun _ => "2024-01-01T00:00:01Z"⟩
    let letter : DeadLetterEntry String := ⟨"https://a",.ofEvent event,2,
      "HTTP 500 Internal Server Error","2024-01-01T00:00:01Z"⟩
    (Machine.outputs (call d) [.dispatch event script,.drainDlq] ⟨[],()⟩)[1]? =
      some (.drainDlq,.drained [letter]) := by
  intro d event script letter
  have hdrain := ((deliveries_end_once (d := d) rfl (by decide)
    [.dispatch event script,.drainDlq] ()).2.2 1 rfl).1
  have hsince : sinceDrain d ([.dispatch event script,.drainDlq].take 1) = [letter] := rfl
  rw [hdrain,hsince,recent_of_le (by decide)]

end ProofStell.Webhook
