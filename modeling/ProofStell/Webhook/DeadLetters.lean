import ProofStell.Webhook.Storage
import Mathlib.Data.Finset.Card

/-! The dead-letter queue in the cache against the one in memory. The cache keeps
one slot for each URL, so the two agree exactly while no slot is written twice. -/
namespace ProofStell.Webhook
open Transact Cache
variable {DateTime σ : Type}

theorem dlqKey_injective : Function.Injective dlqKey := by
  intro u v h
  simpa [dlqKey,DLQ_REDIS_KEY_PREFIX] using h

theorem dedupKey_injective : Function.Injective dedupKey := by
  intro key key' h
  simpa [dedupKey,DEDUP_KEY_PREFIX] using h

/-- A deduplication marker never lands in the slot of a URL. -/
theorem dlqKey_ne_dedupKey (url key : String) : dlqKey url≠dedupKey key := by
  intro h
  simp only [dlqKey,dedupKey,CacheKey.events.injEq] at h
  have hl := congrArg (fun s : String => s.toList[9]?) h
  simp [DLQ_REDIS_KEY_PREFIX,DEDUP_KEY_PREFIX,String.toList_append] at hl

variable (d : WebhookDispatcher DateTime σ)

def deadLettered (event : Audit.Event DateTime) (script : Script DateTime) :
    List (DeadLetterEntry DateTime) :=
  d.urls.zipIdx.filterMap fun u => (d.attemptAll (script.send u.2)).map fun lastError =>
    d.deadLetter u.1 (WebhookPayload.ofEvent event) lastError (script.failedAt u.2)

def pending (l : List (Action DateTime)) : List (DeadLetterEntry DateTime) :=
  l.foldl (fun es a => match a with
    | .dispatch event script => es++deadLettered d event script
    | .drainDlq => []
    | .dlqDepth => es) []

def Action.key : Action DateTime → Option String
  | .dispatch event _ => some event.idempotencyKey
  | _ => none

/-- What a replay needs of an entry. -/
def DeadLetterEntry.letter (e : DeadLetterEntry DateTime) :
    String × WebhookPayload DateTime × String :=
  (e.url,e.payload,e.lastError)

theorem mem_deadLettered_url {event : Audit.Event DateTime} {script : Script DateTime}
    {e : DeadLetterEntry DateTime} (h : e∈deadLettered d event script) : e.url∈d.urls := by
  obtain ⟨⟨u,i⟩,hu,he⟩ := List.mem_filterMap.mp h
  obtain ⟨err,_,rfl⟩ := Option.map_eq_some_iff.mp he
  exact List.fst_mem_of_mem_zipIdx hu

theorem pending_snoc (l : List (Action DateTime)) (a : Action DateTime) :
    pending d (l++[a]) = match a with
      | .dispatch event script => pending d l++deadLettered d event script
      | .drainDlq => []
      | .dlqDepth => pending d l := by
  simp only [pending,List.foldl_append,List.foldl_cons,List.foldl_nil]

theorem mem_pending_url {l : List (Action DateTime)} {e : DeadLetterEntry DateTime}
    (h : e∈pending d l) : e.url∈d.urls := by
  induction l using List.reverseRecOn with
  | nil => cases h
  | append_singleton l a ih =>
    rw [pending_snoc] at h
    cases a with
    | dispatch event script =>
      obtain h | h := List.mem_append.mp h
      · exact ih h
      · exact mem_deadLettered_url d h
    | drainDlq => cases h
    | dlqDepth => exact ih h

/-- The check of `dispatch`: the event counts as already delivered. -/
def alreadyDelivered (event : Audit.Event DateTime) (st : DispatcherState DateTime σ) : Bool :=
  !d.urls.isEmpty && match d.cache with
    | some cache =>
      match (cache.getRaw (dedupKey event.idempotencyKey) st.store).1 with
      | .ok (some _) => true
      | _ => false
    | none => false

section Plain
variable {d}

def recent {α : Type} (m : Nat) (es : List α) : List α := es.drop (es.length-m)

theorem length_recent {α : Type} (m : Nat) (es : List α) :
    (recent m es).length = min es.length m := by
  rw [recent,List.length_drop]
  omega

theorem recent_of_le {α : Type} {m : Nat} {es : List α} (h : es.length ≤ m) :
    recent m es = es := by
  rw [recent,Nat.sub_eq_zero_of_le h,List.drop_zero]

theorem recent_snoc {α : Type} {m : Nat} (hm : 0 < m) (es : List α) (e : α) :
    recent m (es++[e]) =
      (if (recent m es).length ≥ m then (recent m es).tail else recent m es)++[e] := by
  rw [length_recent]
  by_cases hfull : m ≤ es.length
  · have hnext : es.length-m+1 = es.length+1-m := by omega
    rw [if_pos (by omega),recent,recent,List.tail_drop,List.length_append,List.length_singleton,
      List.drop_append_of_le_length (by omega),hnext]
  · have hzero : es.length-m = 0 := by omega
    have hzero' : es.length+1-m = 0 := by omega
    rw [if_neg (by omega),recent,recent,List.length_append,List.length_singleton,hzero,hzero',
      List.drop_zero,List.drop_zero]

theorem foldl_pushBounded_recent (es fs : List (DeadLetterEntry DateTime)) :
    fs.foldl WebhookDispatcher.pushBounded (recent MAX_DLQ_DEPTH es) =
      recent MAX_DLQ_DEPTH (es++fs) := by
  have hpush (es : List (DeadLetterEntry DateTime)) (e : DeadLetterEntry DateTime) :
      WebhookDispatcher.pushBounded (recent MAX_DLQ_DEPTH es) e =
        recent MAX_DLQ_DEPTH (es++[e]) :=
    (recent_snoc (by decide) es e).symm
  induction fs generalizing es with
  | nil => rw [List.foldl_nil,List.append_nil]
  | cons f fs ih =>
    rw [List.foldl_cons,hpush,ih,List.append_assoc,List.singleton_append]

theorem plain_dispatch (hd : d.cache = none) (event : Audit.Event DateTime)
    (script : Script DateTime) (st : DispatcherState DateTime σ) :
    d.dispatch event script st = { st with
      dlq := (deadLettered d event script).foldl WebhookDispatcher.pushBounded st.dlq } := by
  have all (us : List (String × Nat)) (st : DispatcherState DateTime σ) :
      us.foldl (fun st u => d.deliverWithRetry u.1 (WebhookPayload.ofEvent event)
        (script.send u.2) (script.failedAt u.2) st) st = { st with
      dlq := (us.filterMap fun u => (d.attemptAll (script.send u.2)).map fun lastError =>
        d.deadLetter u.1 (WebhookPayload.ofEvent event) lastError (script.failedAt u.2)).foldl
          WebhookDispatcher.pushBounded st.dlq } := by
    induction us generalizing st with
    | nil => rfl
    | cons u us ih =>
      rw [List.foldl_cons,ih]
      cases ha : d.attemptAll (script.send u.2) with
      | none => simp [WebhookDispatcher.deliverWithRetry,ha]
      | some err => simp [WebhookDispatcher.deliverWithRetry,ha,hd]
  rw [WebhookDispatcher.dispatch]
  cases hu : d.urls with
  | nil => simp [deadLettered,hu]
  | cons u us =>
    simp only [List.isEmpty_cons,Bool.false_eq_true,if_false,hd]
    exact all d.urls.zipIdx st

/-- The queue in memory holds the most recent entries of what is pending. -/
theorem queue_recent (hd : d.cache = none)
    (l : List (Action DateTime)) (s : σ) :
    (Machine.final (call d) l ⟨[],s⟩).dlq = recent MAX_DLQ_DEPTH (pending d l) := by
  induction l using List.reverseRecOn with
  | nil => simp only [Machine.final,pending,recent,List.foldl_nil,List.drop_nil]
  | append_singleton l a ih =>
    rw [Machine.final_snoc,pending_snoc]
    cases a with
    | dispatch event script =>
      simp only [call,plain_dispatch hd,ih]
      exact foldl_pushBounded_recent _ _
    | drainDlq => simp [call,WebhookDispatcher.drainDlq,hd,recent]
    | dlqDepth => simpa [call,WebhookDispatcher.dlqDepth,hd] using ih

theorem plain_run (hd : d.cache = none) {l : List (Action DateTime)}
    (hbound : (pending d l).length ≤ MAX_DLQ_DEPTH) (s : σ) :
    (Machine.final (call d) l ⟨[],s⟩).dlq = pending d l := by
  rw [queue_recent hd,recent_of_le hbound]

end Plain

def lastFor (url : String) (es : List (DeadLetterEntry DateTime)) :
    Option (DeadLetterEntry DateTime) :=
  (es.filter fun e => e.url = url).getLast?

theorem lastFor_append (url : String) (es fs : List (DeadLetterEntry DateTime)) :
    lastFor url (es++fs) = (lastFor url fs).or (lastFor url es) := by
  simp [lastFor,List.getLast?_append]

theorem mem_of_lastFor {url : String} {es : List (DeadLetterEntry DateTime)}
    {e : DeadLetterEntry DateTime} (h : lastFor url es = some e) : e∈es ∧ e.url = url := by
  have hm := List.mem_of_getLast? h
  simpa using hm

theorem lastFor_isSome {url : String} {es : List (DeadLetterEntry DateTime)} :
    (lastFor url es).isSome = true ↔ url∈es.map DeadLetterEntry.url := by
  simp [lastFor,List.mem_map]

def persist (serde : Serde DateTime) (m : CacheKey → Option String)
    (es : List (DeadLetterEntry DateTime)) : CacheKey → Option String :=
  es.foldl (fun m e => Function.update m (dlqKey e.url) (some (e.serialize serde))) m

theorem persist_dlqKey (serde : Serde DateTime) (m : CacheKey → Option String)
    (es : List (DeadLetterEntry DateTime)) (url : String) :
    persist serde m es (dlqKey url) =
      ((lastFor url es).map (DeadLetterEntry.serialize serde)).or (m (dlqKey url)) := by
  induction es using List.reverseRecOn with
  | nil => simp [persist,lastFor]
  | append_singleton es e ih =>
    have hsnoc : persist serde m (es++[e]) =
        Function.update (persist serde m es) (dlqKey e.url) (some (e.serialize serde)) := by
      simp [persist]
    rw [hsnoc,lastFor_append]
    by_cases hu : url = e.url
    · subst hu
      simp [lastFor]
    · have hne : dlqKey url≠dlqKey e.url := dlqKey_injective.ne hu
      have hne' : e.url≠url := fun h => hu h.symm
      rw [Function.update_of_ne hne,ih]
      simp [lastFor,hne']

theorem persist_dedupKey (serde : Serde DateTime) (m : CacheKey → Option String)
    (es : List (DeadLetterEntry DateTime)) (key : String) :
    persist serde m es (dedupKey key) = m (dedupKey key) := by
  induction es generalizing m with
  | nil => rfl
  | cons e es ih =>
    have h := ih (Function.update m (dlqKey e.url) (some (e.serialize serde)))
    rw [Function.update_of_ne (dlqKey_ne_dedupKey e.url key).symm] at h
    exact h

section Cached
variable {d} {cache : CacheHandle σ} {inv : σ → Prop} {contents : σ → CacheKey → Option String}
  {ttls : UInt64 → Prop}

theorem dispatch_cached (hd : d.cache = some cache) (hurls : d.urls≠[])
    (event : Audit.Event DateTime) (script : Script DateTime) (st : DispatcherState DateTime σ) :
    d.dispatch event script st =
      if alreadyDelivered d event st then
        { st with store := (cache.getRaw (dedupKey event.idempotencyKey) st.store).2 }
      else d.deliverAll (.ofEvent event) script { st with
        store := (cache.setRaw (dedupKey event.idempotencyKey) "delivered" d.deduplicationTtl
          (cache.getRaw (dedupKey event.idempotencyKey) st.store).2).2 } := by
  have hsome : d.urls.isEmpty = false := by simpa using hurls
  rw [WebhookDispatcher.dispatch]
  simp only [alreadyDelivered,hsome,hd,Bool.false_eq_true,if_false,Bool.not_false,Bool.true_and]
  cases hr : cache.getRaw (dedupKey event.idempotencyKey) st.store with
  | mk found s =>
    cases found with
    | error e => rfl
    | ok value => cases value <;> rfl

theorem alreadyDelivered_iff (hd : d.cache = some cache) (hc : cache.Healthy inv contents ttls)
    (event : Audit.Event DateTime) {st : DispatcherState DateTime σ} (hs : inv st.store) :
    alreadyDelivered d event st = true ↔
      d.urls≠[] ∧ (contents st.store (dedupKey event.idempotencyKey)).isSome = true := by
  simp only [alreadyDelivered,hd,(hc.get st.store _ hs).1]
  cases contents st.store (dedupKey event.idempotencyKey) <;> simp

theorem countPersisted_spec (hc : cache.Healthy inv contents ttls) (urls : List String) (n : Nat)
    {s : σ} (hs : inv s) :
    (WebhookDispatcher.countPersisted cache urls n s).1 =
        n+(urls.filter fun u => (contents s (dlqKey u)).isSome).length ∧
      inv (WebhookDispatcher.countPersisted cache urls n s).2 ∧
      contents (WebhookDispatcher.countPersisted cache urls n s).2 = contents s := by
  induction urls generalizing n s with
  | nil => exact ⟨rfl,hs,rfl⟩
  | cons u urls ih =>
    obtain ⟨hget,hinv,hsame⟩ := hc.get s (dlqKey u) hs
    rw [WebhookDispatcher.countPersisted]
    cases hr : cache.getRaw (dlqKey u) s with
    | mk o t =>
      rw [hr] at hget hinv hsame
      simp only at hget hinv hsame
      subst hget
      cases hv : contents s (dlqKey u) with
      | none =>
        have h := ih n hinv
        rw [hsame] at h
        simpa [hv] using h
      | some v =>
        have h := ih (n+1) hinv
        rw [hsame] at h
        simpa [hv,Nat.add_assoc,Nat.add_comm 1] using h

theorem cached_deliver (hd : d.cache = some cache) (hc : cache.Healthy inv contents ttls)
    (ht : ttls DLQ_TTL) (url : String) (payload : WebhookPayload DateTime)
    (send : Nat → Except String Unit) (failedAt : DateTime) (st : DispatcherState DateTime σ)
    (hs : inv st.store) :
    inv (d.deliverWithRetry url payload send failedAt st).store ∧
      contents (d.deliverWithRetry url payload send failedAt st).store =
        persist d.serde (contents st.store) ((d.attemptAll send).map fun lastError =>
          d.deadLetter url payload lastError failedAt).toList := by
  rw [WebhookDispatcher.deliverWithRetry]
  cases ha : d.attemptAll send with
  | none => exact ⟨hs,rfl⟩
  | some lastError =>
    simp only [hd]
    obtain ⟨_,hinv,hset⟩ := hc.set st.store (dlqKey url)
      ((d.deadLetter url payload lastError failedAt).serialize d.serde) DLQ_TTL hs ht
    obtain ⟨_,hinv',hsame⟩ := countPersisted_spec hc d.urls 0 hinv
    exact ⟨hinv',hsame.trans hset⟩

theorem cached_deliverAll (hd : d.cache = some cache) (hc : cache.Healthy inv contents ttls)
    (ht : ttls DLQ_TTL) (event : Audit.Event DateTime) (script : Script DateTime)
    (st : DispatcherState DateTime σ) (hs : inv st.store) :
    inv (d.deliverAll (WebhookPayload.ofEvent event) script st).store ∧
      contents (d.deliverAll (WebhookPayload.ofEvent event) script st).store =
        persist d.serde (contents st.store) (deadLettered d event script) := by
  rw [WebhookDispatcher.deliverAll,deadLettered]
  generalize d.urls.zipIdx = us
  induction us generalizing st with
  | nil => exact ⟨hs,rfl⟩
  | cons u us ih =>
    obtain ⟨hinv,hone⟩ := cached_deliver hd hc ht u.1 (WebhookPayload.ofEvent event)
      (script.send u.2) (script.failedAt u.2) st hs
    obtain ⟨hinv',hrest⟩ := ih _ hinv
    refine ⟨hinv',?_⟩
    rw [List.foldl_cons,hrest,hone]
    cases ha : d.attemptAll (script.send u.2) with
    | none => simp [persist,ha]
    | some err => simp [persist,ha]

theorem cached_pass (hd : d.cache = some cache) (hc : cache.Healthy inv contents ttls)
    (ht : ttls DLQ_TTL) (ht' : ttls d.deduplicationTtl) (hurls : d.urls≠[])
    {event : Audit.Event DateTime} (script : Script DateTime) {st : DispatcherState DateTime σ}
    (hs : inv st.store) (hpass : ¬alreadyDelivered d event st = true) :
    inv (d.dispatch event script st).store ∧
      contents (d.dispatch event script st).store = persist d.serde (Function.update
        (contents st.store) (dedupKey event.idempotencyKey) (some "delivered"))
        (deadLettered d event script) := by
  rw [dispatch_cached hd hurls,if_neg hpass]
  obtain ⟨_,hinv,hsame⟩ := hc.get st.store (dedupKey event.idempotencyKey) hs
  obtain ⟨_,hinv',hset⟩ := hc.set _ (dedupKey event.idempotencyKey) "delivered"
    d.deduplicationTtl hinv ht'
  rw [hsame] at hset
  rw [← hset]
  exact cached_deliverAll hd hc ht event script _ hinv'

theorem cached_dispatch (hd : d.cache = some cache) (hc : cache.Healthy inv contents ttls)
    (ht : ttls DLQ_TTL) (ht' : ttls d.deduplicationTtl) (event : Audit.Event DateTime)
    (script : Script DateTime) (st : DispatcherState DateTime σ) (hs : inv st.store)
    (hnew : contents st.store (dedupKey event.idempotencyKey) = none) :
    inv (d.dispatch event script st).store ∧
      (∀ url, contents (d.dispatch event script st).store (dlqKey url) =
        persist d.serde (contents st.store) (deadLettered d event script) (dlqKey url)) ∧
      ∀ key, key≠event.idempotencyKey →
        contents (d.dispatch event script st).store (dedupKey key) =
          contents st.store (dedupKey key) := by
  by_cases hurls : d.urls = []
  · rw [WebhookDispatcher.dispatch,if_pos (by simp [hurls])]
    exact ⟨hs,fun url => by simp [deadLettered,hurls,persist],fun _ _ => rfl⟩
  · have hpass : ¬alreadyDelivered d event st = true := by
      simp [alreadyDelivered_iff hd hc event hs,hnew]
    obtain ⟨hinv,hall⟩ := cached_pass hd hc ht ht' hurls script hs hpass
    refine ⟨hinv,fun url => ?_,fun key hkey => ?_⟩
    · rw [hall,persist_dlqKey,persist_dlqKey,Function.update_of_ne (dlqKey_ne_dedupKey url _)]
    · rw [hall,persist_dedupKey,Function.update_of_ne (dedupKey_injective.ne hkey)]

theorem drainUrls_marks (hc : cache.Healthy inv contents ttls) (urls : List String)
    (drained : List (DeadLetterEntry DateTime)) {s : σ} (hs : inv s) (key : String) :
    inv (WebhookDispatcher.drainUrls d.serde cache urls drained s).2 ∧
      contents (WebhookDispatcher.drainUrls d.serde cache urls drained s).2 (dedupKey key) =
        contents s (dedupKey key) := by
  induction urls generalizing drained s with
  | nil => exact ⟨hs,rfl⟩
  | cons u urls ih =>
    obtain ⟨_,hinv,hsame⟩ := hc.get s (dlqKey u) hs
    obtain ⟨_,hinv',hdel⟩ := hc.delete _ (dlqKey u) hinv
    obtain ⟨hlast,hrest⟩ := ih (drained++WebhookDispatcher.recovered d.serde
      (cache.getRaw (dlqKey u) s).1) hinv'
    refine ⟨hlast,hrest.trans ?_⟩
    rw [hdel,Function.update_of_ne (dlqKey_ne_dedupKey u key).symm,hsame]

/-- Draining empties the slots of the URLs and returns what could be read from them. -/
theorem drainUrls_spec (hc : cache.Healthy inv contents ttls) {urls : List String}
    (hn : urls.Nodup) (drained : List (DeadLetterEntry DateTime)) {s : σ} (hs : inv s) :
    (WebhookDispatcher.drainUrls d.serde cache urls drained s).1 = drained++urls.filterMap
        (fun u => (contents s (dlqKey u)).bind (DeadLetterEntry.deserialize d.serde)) ∧
      inv (WebhookDispatcher.drainUrls d.serde cache urls drained s).2 ∧
      ∀ k, contents (WebhookDispatcher.drainUrls d.serde cache urls drained s).2 k =
        if k∈urls.map dlqKey then none else contents s k := by
  induction urls generalizing drained s with
  | nil =>
    refine ⟨?_,hs,fun k => ?_⟩ <;> simp [WebhookDispatcher.drainUrls]
  | cons u urls ih =>
    obtain ⟨hnotin,hn'⟩ := List.nodup_cons.mp hn
    obtain ⟨hget,hinv,hsame⟩ := hc.get s (dlqKey u) hs
    obtain ⟨_,hinv',hdel⟩ := hc.delete _ (dlqKey u) hinv
    rw [hsame] at hdel
    obtain ⟨h1,h2,h3⟩ := ih hn'
      (drained++WebhookDispatcher.recovered d.serde (cache.getRaw (dlqKey u) s).1) hinv'
    rw [WebhookDispatcher.drainUrls]
    refine ⟨?_,h2,fun k => ?_⟩
    · have hkeep : ∀ v∈urls,
          contents (cache.delete (dlqKey u) (cache.getRaw (dlqKey u) s).2).2 (dlqKey v) =
            contents s (dlqKey v) := by
        intro v hv
        have hne : v≠u := fun h => hnotin (h ▸ hv)
        rw [hdel,Function.update_of_ne (dlqKey_injective.ne hne)]
      have hslot : WebhookDispatcher.recovered d.serde (cache.getRaw (dlqKey u) s).1 =
          ((contents s (dlqKey u)).bind (DeadLetterEntry.deserialize d.serde)).toList := by
        rw [hget]
        cases contents s (dlqKey u) <;> rfl
      rw [h1,List.filterMap_congr (fun v hv => by rw [hkeep v hv]),hslot,List.filterMap_cons]
      cases (contents s (dlqKey u)).bind (DeadLetterEntry.deserialize d.serde) <;> simp
    · rw [h3 k,hdel]
      by_cases hk : k = dlqKey u
      · simp [hk]
      · simp [hk]

/-- What the cache holds after the run `l`: in each slot the last pending entry of its
URL, and no mark under a key that was not dispatched. -/
structure Tracks (d : WebhookDispatcher DateTime σ) (inv : σ → Prop)
    (contents : σ → CacheKey → Option String) (l : List (Action DateTime)) (s : σ) : Prop where
  inv : inv s
  slots : ∀ url, contents s (dlqKey url) =
    (lastFor url (pending d l)).map (DeadLetterEntry.serialize d.serde)
  unmarked : ∀ key, key∉l.filterMap Action.key → contents s (dedupKey key) = none

theorem cached_call (hd : d.cache = some cache) (hc : cache.Healthy inv contents ttls)
    (ht : ttls DLQ_TTL) (ht' : ttls d.deduplicationTtl) (hurls : d.urls.Nodup)
    {l : List (Action DateTime)} (a : Action DateTime)
    (hkeys : ((l++[a]).filterMap Action.key).Nodup) (st : DispatcherState DateTime σ)
    (h : Tracks d inv contents l st.store) :
    Tracks d inv contents (l++[a]) (call d a st).2.store := by
  cases a with
  | dispatch event script =>
    have hnot : event.idempotencyKey∉l.filterMap Action.key := by
      rw [List.filterMap_append] at hkeys
      intro hin
      exact List.disjoint_of_nodup_append hkeys hin (by simp [Action.key])
    obtain ⟨hinv,hslots,hmarks⟩ := cached_dispatch hd hc ht ht' event script st h.inv
      (h.unmarked _ hnot)
    refine ⟨hinv,fun url => ?_,fun key hkey => ?_⟩
    · rw [pending_snoc,lastFor_append]
      refine (hslots url).trans ?_
      rw [persist_dlqKey,h.slots]
      cases lastFor url (deadLettered d event script) <;> simp
    · simp only [List.filterMap_append,List.mem_append,not_or] at hkey
      have hne : key≠event.idempotencyKey := by simpa [Action.key] using hkey.2
      exact (hmarks key hne).trans (h.unmarked key hkey.1)
  | drainDlq =>
    obtain ⟨_,hinv,hdrained⟩ := drainUrls_spec (d := d) hc hurls [] h.inv
    have hstore : (call d .drainDlq st).2.store =
        (WebhookDispatcher.drainUrls d.serde cache d.urls [] st.store).2 := by
      simp [call,WebhookDispatcher.drainDlq,hd]
    rw [hstore]
    refine ⟨hinv,fun url => ?_,fun key hkey => ?_⟩
    · rw [pending_snoc,hdrained]
      by_cases hu : dlqKey url∈d.urls.map dlqKey
      · simp [hu,lastFor]
      · have hnone : lastFor url (pending d l) = none := by
          cases hl : lastFor url (pending d l) with
          | none => rfl
          | some e =>
            obtain ⟨he,rfl⟩ := mem_of_lastFor hl
            exact absurd (List.mem_map_of_mem (mem_pending_url d he)) hu
        rw [if_neg hu,h.slots,hnone]
        rfl
    · rw [(drainUrls_marks hc d.urls [] h.inv key).2]
      exact h.unmarked key (by simpa [Action.key] using hkey)
  | dlqDepth =>
    obtain ⟨_,hinv,hsame⟩ := countPersisted_spec hc d.urls 0 h.inv
    have hstore : (call d .dlqDepth st).2.store =
        (WebhookDispatcher.countPersisted cache d.urls 0 st.store).2 := by
      simp [call,WebhookDispatcher.dlqDepth,hd]
    rw [hstore]
    refine ⟨hinv,fun url => ?_,fun key hkey => ?_⟩
    · rw [hsame,pending_snoc]
      exact h.slots url
    · rw [hsame]
      exact h.unmarked key (by simpa [Action.key] using hkey)

theorem cached_run (hd : d.cache = some cache) (hc : cache.Healthy inv contents ttls)
    (ht : ttls DLQ_TTL) (ht' : ttls d.deduplicationTtl) (hurls : d.urls.Nodup)
    {l : List (Action DateTime)} (hkeys : (l.filterMap Action.key).Nodup) {s : σ} (hs : inv s)
    (hempty : ∀ k, contents s k = none) :
    Tracks d inv contents l (Machine.final (call d) l ⟨[],s⟩).store := by
  induction l using List.reverseRecOn with
  | nil => exact ⟨hs,fun url => hempty _,fun key _ => hempty _⟩
  | append_singleton l a ih =>
    rw [Machine.final_snoc]
    refine cached_call hd hc ht ht' hurls a hkeys _ (ih ?_)
    rw [List.filterMap_append] at hkeys
    exact (List.nodup_append.mp hkeys).1

end Cached

section Slots
variable {urls : List String} {es : List (DeadLetterEntry DateTime)}

/-- As many slots are filled as there are entries exactly when no two share a URL. -/
theorem filled_slots_iff (hurls : urls.Nodup) (hin : ∀ e∈es, e.url∈urls) :
    (urls.filter fun u => (lastFor u es).isSome).length = es.length ↔
      (es.map DeadLetterEntry.url).Nodup := by
  have hset : (urls.filter fun u => (lastFor u es).isSome).toFinset =
      (es.map DeadLetterEntry.url).toFinset := by
    ext u
    rw [List.mem_toFinset,List.mem_toFinset,List.mem_filter,lastFor_isSome]
    constructor
    · exact fun h => h.2
    · intro h
      obtain ⟨e,he,rfl⟩ := List.mem_map.mp h
      exact ⟨hin e he,h⟩
  have hcard := List.toFinset_card_of_nodup (hurls.filter fun u => (lastFor u es).isSome)
  rw [hset,List.card_toFinset] at hcard
  rw [← hcard,← es.length_map DeadLetterEntry.url]
  constructor
  · intro h
    rw [← (List.dedup_sublist _).eq_of_length h]
    exact List.nodup_dedup _
  · intro h
    rw [List.dedup_eq_self.mpr h]

theorem lastFor_eq_some (hn : (es.map DeadLetterEntry.url).Nodup) {u : String}
    {e : DeadLetterEntry DateTime} : lastFor u es = some e ↔ e∈es ∧ e.url = u := by
  constructor
  · exact mem_of_lastFor
  · intro hyp
    obtain ⟨he,hu⟩ := hyp
    have hsome : (lastFor u es).isSome = true :=
      lastFor_isSome.mpr (List.mem_map.mpr ⟨e,he,hu⟩)
    obtain ⟨f,hf⟩ := Option.isSome_iff_exists.mp hsome
    obtain ⟨hfm,hfu⟩ := mem_of_lastFor hf
    rw [hf,List.inj_on_of_nodup_map hn hfm he (hfu.trans hu.symm)]

theorem slots_perm (hurls : urls.Nodup) (hin : ∀ e∈es, e.url∈urls)
    (hn : (es.map DeadLetterEntry.url).Nodup) :
    (urls.filterMap fun u => lastFor u es).Perm es := by
  refine (List.perm_ext_iff_of_nodup ?_ (List.Nodup.of_map _ hn)).mpr fun e => ?_
  · refine hurls.filterMap fun u v e hu hv => ?_
    exact (mem_of_lastFor hu).2.symm.trans (mem_of_lastFor hv).2
  · rw [List.mem_filterMap]
    constructor
    · intro hyp
      obtain ⟨u,_,h⟩ := hyp
      exact (mem_of_lastFor h).1
    · intro he
      exact ⟨e.url,hin e he,(lastFor_eq_some hn).mpr ⟨he,rfl⟩⟩

/-- Rereading keeps the letters exactly when no metadata is `null`. -/
theorem reread_letters_iff (hurls : urls.Nodup) (hin : ∀ e∈es, e.url∈urls)
    (hn : (es.map DeadLetterEntry.url).Nodup) :
    ((urls.filterMap fun u => (lastFor u es).map fun e =>
        { e with payload := e.payload.reread }).map DeadLetterEntry.letter).Perm
        (es.map DeadLetterEntry.letter) ↔ ∀ e∈es, e.payload.metadata≠some .null := by
  let reread (e : DeadLetterEntry DateTime) : DeadLetterEntry DateTime :=
    { e with payload := e.payload.reread }
  have hslots : ((urls.filterMap fun u => (lastFor u es).map reread).map
      DeadLetterEntry.letter).Perm (es.map fun e => (reread e).letter) := by
    have hp := ((slots_perm hurls hin hn).map reread).map DeadLetterEntry.letter
    rw [List.map_filterMap] at hp
    rw [List.map_map] at hp
    exact hp
  constructor
  · intro hperm e he
    have hmem : e.letter∈es.map fun e => (reread e).letter :=
      hslots.mem_iff.mp (hperm.mem_iff.mpr (List.mem_map_of_mem he))
    obtain ⟨f,hf,heq⟩ := List.mem_map.mp hmem
    simp only [DeadLetterEntry.letter,reread,Prod.mk.injEq] at heq
    have hfe : f = e := List.inj_on_of_nodup_map hn hf he heq.1
    subst hfe
    exact reread_eq_self.mp heq.2.1
  · intro hmeta
    refine hslots.trans (List.Perm.of_eq (List.map_congr_left fun e he => ?_))
    simp only [DeadLetterEntry.letter,reread,reread_eq_self.mpr (hmeta e he)]

end Slots

/-- The run `l` on the dispatcher with and without the cache: the same depth after
every call, and the same letters, in some order, from every drain. -/
def SameDeadLetters (cache : CacheHandle σ) (l : List (Action DateTime)) (s : σ) : Prop :=
  ∀ p, p<+:l →
    let cached := Machine.final (call (d.withCache cache)) p ⟨[],s⟩
    let plain := Machine.final (call d) p ⟨[],s⟩
    ((d.withCache cache).dlqDepth cached).1 = (d.dlqDepth plain).1 ∧
      (p++[.drainDlq]<+:l →
        (((d.withCache cache).drainDlq cached).1.map DeadLetterEntry.letter).Perm
          ((d.drainDlq plain).1.map DeadLetterEntry.letter))

/-- No URL is dead-lettered twice between drains, and no drain finds a letter whose
metadata is an explicit `null`. -/
def OneLetterPerUrl (l : List (Action DateTime)) : Prop :=
  ∀ p, p<+:l → ((pending d p).map DeadLetterEntry.url).Nodup ∧
    (p++[.drainDlq]<+:l → ∀ e∈pending d p, e.payload.metadata≠some .null)

/-- On a healthy, initially empty cache the two queues agree over a run exactly if
the run dead-letters no URL twice between drains and drains no `null` metadata. -/
theorem same_dead_letters_iff (hd : d.cache = none) {cache : CacheHandle σ} {inv : σ → Prop}
    {contents : σ → CacheKey → Option String} {ttls : UInt64 → Prop}
    (hc : cache.Healthy inv contents ttls) (ht : ttls DLQ_TTL) (ht' : ttls d.deduplicationTtl)
    {s : σ} (hs : inv s) (hempty : ∀ k, contents s k = none) (hurls : d.urls.Nodup)
    {l : List (Action DateTime)} (hkeys : (l.filterMap Action.key).Nodup)
    (hbound : ∀ p, p<+:l → (pending d p).length ≤ MAX_DLQ_DEPTH)
    (hserde : ∀ p, p<+:l → ∀ e∈pending d p, d.serde.Exact e) :
    SameDeadLetters d cache l s ↔ OneLetterPerUrl d l := by
  refine forall_congr' fun p => forall_congr' fun hp => ?_
  have hin : ∀ e∈pending d p, e.url∈d.urls := fun e he => mem_pending_url d he
  have hplain := plain_run hd (hbound p hp) s
  have htrack : Tracks (d.withCache cache) inv contents p
      (Machine.final (call (d.withCache cache)) p ⟨[],s⟩).store :=
    cached_run (d := d.withCache cache) rfl hc ht ht' hurls
      (hkeys.sublist (hp.sublist.filterMap _)) hs hempty
  have hslot (u : String) := htrack.slots u
  have hdepth : ((d.withCache cache).dlqDepth
        (Machine.final (call (d.withCache cache)) p ⟨[],s⟩)).1 =
      (d.urls.filter fun u => (lastFor u (pending d p)).isSome).length := by
    have h := (countPersisted_spec hc d.urls 0 htrack.inv).1
    simp only [hslot,Option.isSome_map,Nat.zero_add] at h
    exact h
  have hdrain : ((d.withCache cache).drainDlq
        (Machine.final (call (d.withCache cache)) p ⟨[],s⟩)).1 =
      d.urls.filterMap fun u => (lastFor u (pending d p)).map fun e =>
        { e with payload := e.payload.reread } := by
    have h := (drainUrls_spec (d := d) hc hurls [] htrack.inv).1
    rw [List.nil_append] at h
    refine h.trans (List.filterMap_congr fun u hu => ?_)
    rw [hslot]
    cases hl : lastFor u (pending d p) with
    | none =>
      have hl' : lastFor u (pending (d.withCache cache) p) = none := hl
      rw [hl']
      rfl
    | some e =>
      have hl' : lastFor u (pending (d.withCache cache) p) = some e := hl
      rw [hl']
      exact deserialize_serialize (hserde p hp e (mem_of_lastFor hl).1)
  have hdepth' : (d.dlqDepth (Machine.final (call d) p ⟨[],s⟩)).1 = (pending d p).length := by
    simp [WebhookDispatcher.dlqDepth,hd,hplain]
  have hdrain' : (d.drainDlq (Machine.final (call d) p ⟨[],s⟩)).1 = pending d p := by
    simp [WebhookDispatcher.drainDlq,hd,hplain]
  simp only
  rw [hdepth,hdepth',hdrain,hdrain',filled_slots_iff hurls hin]
  refine and_congr_right fun hn => ?_
  exact forall_congr' fun _ => reread_letters_iff hurls hin hn

/-- A text layer for concrete runs: it prints compactly and reads back what it knows. -/
def knowing (known : List Json.Value) : Serde String :=
  ⟨Json.render,fun s => known.find? fun v => Json.render v = s,.string,Json.asString⟩

theorem knowing_reads (v : Json.Value) :
    (knowing [v]).fromStr ((knowing [v]).toString v) = some v := by
  simp [knowing]

/-- One failing URL, one event, one drain, on an unbounded in-memory cache. -/
theorem same_dead_letters_single :
    let payload : Json.Value := .object [("event_id",.string "e1"),
      ("event_type",.string "DocumentRegistered"),("idempotency_key",.string "k1"),
      ("sequence",Json.ofU64 1),("timestamp",.string "2024-01-01T00:00:00Z"),
      ("aggregate_id",.string "doc-1"),("actor",.string "issuer"),("data",.null)]
    let tree : Json.Value := .object [("url",.string "https://a"),("payload",payload),
      ("attempts",Json.ofU32 1),("last_error",.string "HTTP 500 Internal Server Error"),
      ("failed_at",.string "2024-01-01T00:00:01Z")]
    let d : WebhookDispatcher String (CacheBackend × Nat) := .new ["https://a"] 0 (knowing [tree])
    let event : Audit.Event String := ⟨"e1","doc-1","DocumentRegistered",.null,
      "2024-01-01T00:00:00Z",1,"issuer","k1",.contract,none⟩
    let script : Script String :=
      ⟨fun _ _ => .error "HTTP 500 Internal Server Error",fun _ => "2024-01-01T00:00:01Z"⟩
    let l : List (Action String) := [.dispatch event script,.dlqDepth,.drainDlq]
    let env : Nat → Surroundings := fun _ => ⟨0,0,0,true,true,true,0,0⟩
    SameDeadLetters d (backendHandle env) l (.inMemory InMemoryCache.new,0) := by
  intro payload tree d event script l env
  let e : DeadLetterEntry String := ⟨"https://a",WebhookPayload.ofEvent event,1,
    "HTTP 500 Internal Server Error","2024-01-01T00:00:01Z"⟩
  have htree : e.toJson d.serde = tree := rfl
  have hexact : d.serde.Exact e := by
    refine ⟨?_,rfl,rfl⟩
    rw [htree]
    exact knowing_reads tree
  have hpending : ∀ p, p<+:l → pending d p = [] ∨ pending d p = [e] := by
    intro p hp
    simp only [l,List.prefix_cons_iff,List.prefix_nil] at hp
    obtain rfl | ⟨_,rfl,rfl | ⟨_,rfl,rfl | ⟨_,rfl,rfl⟩⟩⟩ := hp
    · exact Or.inl rfl
    · exact Or.inr rfl
    · exact Or.inr rfl
    · exact Or.inl rfl
  have hlong : ∀ ttl, 0 < ttl.toNat → LongTtl env .fallback ttl :=
    fun ttl httl => longTtl_still httl (by decide)
  refine (same_dead_letters_iff d rfl (backend_healthy env (fun _ => ⟨rfl,rfl,rfl⟩) .fallback)
    (hlong _ (by decide)) (hlong _ (by decide)) (steady_new env 0) (fun _ => rfl) (by decide)
    (by decide) (fun p hp => ?_) fun p hp f hf => ?_).mpr fun p hp => ?_
  · obtain h | h := hpending p hp <;> rw [h] <;> decide
  · obtain h | h := hpending p hp <;> rw [h] at hf
    · cases hf
    · rw [List.mem_singleton.mp hf]
      exact hexact
  · obtain h | h := hpending p hp <;> rw [h]
    · exact ⟨List.nodup_nil,fun _ f hf => by cases hf⟩
    · refine ⟨List.nodup_singleton _,fun _ f hf => ?_⟩
      rw [List.mem_singleton.mp hf]
      exact fun h => by cases h

/-- Two events fail at the same URL: memory keeps both, the cache only the second. -/
theorem dead_letter_overwritten :
    let tree (key : String) : Json.Value := .object [("url",.string "https://a"),
      ("payload",.object [("event_id",.string key),("event_type",.string "DocumentRegistered"),
        ("idempotency_key",.string key),("sequence",Json.ofU64 1),
        ("timestamp",.string "2024-01-01T00:00:00Z"),("aggregate_id",.string "doc-1"),
        ("actor",.string "issuer"),("data",.null)]),
      ("attempts",Json.ofU32 1),("last_error",.string "HTTP 500 Internal Server Error"),
      ("failed_at",.string "2024-01-01T00:00:01Z")]
    let d : WebhookDispatcher String (CacheBackend × Nat) :=
      .new ["https://a"] 0 (knowing [tree "k1",tree "k2"])
    let event (key : String) : Audit.Event String := ⟨key,"doc-1","DocumentRegistered",.null,
      "2024-01-01T00:00:00Z",1,"issuer",key,.contract,none⟩
    let script : Script String :=
      ⟨fun _ _ => .error "HTTP 500 Internal Server Error",fun _ => "2024-01-01T00:00:01Z"⟩
    let l : List (Action String) := [.dispatch (event "k1") script,.dispatch (event "k2") script]
    let env : Nat → Surroundings := fun _ => ⟨0,0,0,true,true,true,0,0⟩
    let d' := d.withCache (backendHandle env)
    let cached := Machine.final (call d') l ⟨[],(.inMemory InMemoryCache.new,0)⟩
    let plain := Machine.final (call d) l ⟨[],(.inMemory InMemoryCache.new,0)⟩
    (d.drainDlq plain).1.map (fun e => e.payload.idempotencyKey) = ["k1","k2"] ∧
      (d'.drainDlq cached).1.map (fun e => e.payload.idempotencyKey) = ["k2"] ∧
      ¬SameDeadLetters d (backendHandle env) l (.inMemory InMemoryCache.new,0) := by
  intro tree d event script l env d' cached plain
  refine ⟨by decide +kernel,by decide +kernel,fun h => ?_⟩
  have h1 : (d'.dlqDepth cached).1 = 1 := by decide +kernel
  have h2 : (d.dlqDepth plain).1 = 2 := by decide +kernel
  have hsame := (h l List.prefix_rfl).1
  rw [h1,h2] at hsame
  cases hsame

end ProofStell.Webhook
