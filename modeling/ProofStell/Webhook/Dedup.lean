import ProofStell.Webhook.DeadLetters

/-! Deduplication: the marker of an idempotency key is written before the deliveries it stands
for. -/
namespace ProofStell.Webhook
open Transact Cache
variable {DateTime σ : Type}

/-- A cache that makes nothing up: it finds only what it holds, and holds only what was set. -/
structure CacheHandle.Honest (cache : CacheHandle σ) (holds : σ → CacheKey → Prop) : Prop where
  found : ∀ s key value, (cache.getRaw key s).1 = .ok (some value) → holds s key
  get : ∀ s key k, holds (cache.getRaw key s).2 k → holds s k
  set : ∀ s key value ttl k, holds (cache.setRaw key value ttl s).2 k → k = key ∨ holds s k
  delete : ∀ s key k, holds (cache.delete key s).2 k → holds s k

def Stored : CacheBackend → CacheKey → Prop
  | .redis c, k => ∃ p, (contents p c k).isSome = true
  | .inMemory c, k => (c.contents k).isSome = true

theorem stored_either {α : Type} (new : CacheKey → Prop) {env : Surroundings}
    {f : RedisServer → α × RedisServer} {x : Exec InMemoryCache CacheError α}
    (hf : ∀ s k, (RedisServer.contents (f s).2 k).isSome = true →
      new k ∨ (RedisServer.contents s k).isSome = true)
    (hx : ∀ c k, ((x c).2.contents k).isSome = true → new k ∨ (c.contents k).isSome = true)
    {b : CacheBackend} {k : CacheKey}
    (h : Stored (CacheBackend.either (RedisCache.orFallback (RedisCache.guarded env f) x) x b).2
      k) : new k ∨ Stored b k := by
  cases b with
  | inMemory c => exact hx c k h
  | redis c =>
    obtain ⟨p,hp⟩ := h
    have hspec := orFallback_spec env f x c
    split at hspec
    · obtain ⟨_,hconn,hfall⟩ := hspec
      cases p with
      | redis =>
        rw [contents,hconn] at hp
        exact (hf c.connection k hp).imp_right fun h => ⟨.redis,h⟩
      | fallback =>
        rw [contents,hfall] at hp
        exact Or.inr ⟨.fallback,hp⟩
    · obtain ⟨_,hconn,hfall⟩ := hspec
      cases p with
      | redis =>
        rw [contents,hconn] at hp
        exact Or.inr ⟨.redis,hp⟩
      | fallback =>
        rw [contents,hfall] at hp
        exact (hx c.fallback k hp).imp_right fun h => ⟨.fallback,h⟩

theorem lookup_evictOldest (oldest : List CacheKey) (c : InMemoryCache) (k : CacheKey)
    (h : ((InMemoryCache.evictOldest oldest c).store.lookup k).isSome = true) :
    (c.store.lookup k).isSome = true := by
  induction oldest generalizing c with
  | nil => exact h
  | cons key older ih =>
    rw [InMemoryCache.evictOldest] at h
    split at h
    · have hrest := ih _ h
      by_cases hk : k = key
      · rw [hk,Finmap.lookup_erase] at hrest
        cases hrest
      · simpa [Finmap.lookup_erase_ne hk] using hrest
    · exact h

theorem stored_setRaw (now : UInt64) (key : CacheKey) (value : String) (ttl : UInt64)
    (c : InMemoryCache) (k : CacheKey)
    (h : ((InMemoryCache.setRaw now key value ttl c).2.contents k).isSome = true) :
    k = key ∨ (c.contents k).isSome = true := by
  by_cases hk : k = key
  · exact Or.inl hk
  · refine Or.inr ?_
    simp only [InMemoryCache.setRaw,Exec.write_apply,InMemoryCache.contents,
      Option.isSome_map] at h ⊢
    split at h
    · have hstore := lookup_evictOldest _ _ _ h
      simpa [Finmap.lookup_insert_of_ne _ hk] using hstore
    · simpa [Finmap.lookup_insert_of_ne _ hk] using h

theorem isSome_of_alive {now : Nat} {o : Option TimedValue} {value : String}
    (h : (alive now o).map TimedValue.value = some value) : o.isSome = true := by
  cases o with
  | none => cases h
  | some v => rfl

theorem isSome_of_keep {p : Place} {m : CacheKey → Option TimedValue} {env : Surroundings}
    {key k : CacheKey} (h : (keep p m ⟨env,.get key⟩ k).isSome = true) : (m k).isSome = true := by
  simp only [keep,Function.update_apply] at h
  split at h
  · next hk =>
    rw [hk]
    cases hm : m key with
    | none => simp [hm,alive] at h
    | some v => rfl
  · exact h

theorem stored_of_found {env : Nat → Surroundings} {s : CacheBackend × Nat} {key : CacheKey}
    {value : String} (h : ((backendHandle env).getRaw key s).1 = .ok (some value)) :
    Stored s.1 key := by
  have hlookup := fun c => (lookup_spec (env s.2) key c).1
  cases hb : s.1 with
  | inMemory c =>
    simp only [backendHandle,atTurn,hb] at h
    have hvalue := (hlookup c).symm.trans h
    exact isSome_of_alive (Except.ok.inj hvalue)
  | redis c =>
    simp only [backendHandle,atTurn,hb,CacheBackend.getRaw,CacheBackend.either,
      RedisCache.getRaw] at h
    have hspec := orFallback_spec (env s.2)
      (RedisServer.get (env s.2).serverSecs key.asString)
      (CacheBackend.lookup (env s.2).nowSecs key) c
    split at hspec
    · rw [hspec.1,(redis_get_spec (env s.2) key c.connection).1] at h
      exact ⟨.redis,isSome_of_alive (Except.ok.inj h)⟩
    · rw [hspec.1,hlookup] at h
      exact ⟨.fallback,isSome_of_alive (Except.ok.inj h)⟩

/-- Whatever happens around it, a backend makes nothing up. -/
theorem backend_honest (env : Nat → Surroundings) :
    (backendHandle env).Honest fun s k => Stored s.1 k where
  found := fun _ _ _ h => stored_of_found h
  get := by
    intro s key k h
    refine (stored_either (fun _ => False) ?_ ?_ h).resolve_left id
    · intro t k h
      rw [(redis_get_spec (env s.2) key t).2] at h
      exact Or.inr (isSome_of_keep h)
    · intro c k h
      rw [(lookup_spec (env s.2) key c).2.1] at h
      exact Or.inr (isSome_of_keep h)
  set := by
    intro s key value ttl k h
    refine stored_either (fun k => k = key) ?_ ?_ h
    · intro t k h
      rw [RedisServer.setEx,redis_update,Function.update_apply] at h
      split at h
      · next hk => exact Or.inl hk
      · exact Or.inr h
    · exact fun c k h => stored_setRaw _ _ _ _ c k h
  delete := by
    intro s key k h
    refine (stored_either (fun _ => False) ?_ ?_ h).resolve_left id
    · intro t k h
      rw [RedisServer.del,redis_update,Function.update_apply] at h
      split at h
      · cases h
      · exact Or.inr h
    · intro c k h
      rw [(inMemory_delete_spec (env s.2) key c).2.1] at h
      simp only [keep,Function.update_apply] at h
      split at h
      · cases h
      · exact Or.inr h

section
variable (d : WebhookDispatcher DateTime σ)

def delivered (script : Script DateTime) : Bool :=
  d.urls.zipIdx.all fun u => (d.attemptAll (script.send u.2)).isNone

def delivers (a : Action DateTime) (st : DispatcherState DateTime σ) : List String :=
  match a with
  | .dispatch event script =>
    if alreadyDelivered d event st = false ∧ delivered d script = true then
      [event.idempotencyKey]
    else []
  | .drainDlq | .dlqDepth => []

/-- A dispatch that is not skipped delivers. -/
def clean (st : DispatcherState DateTime σ) : Action DateTime → Prop
  | .dispatch event script => alreadyDelivered d event st = true ∨ delivered d script = true
  | .drainDlq | .dlqDepth => True

/-- Whenever an event counts as already delivered, an earlier call has delivered its key. -/
def SkipsDelivered (l : List (Action DateTime)) (st : DispatcherState DateTime σ) : Prop :=
  ∀ n event, alreadyDelivered d event (Machine.final (call d) (l.take n) st) = true →
    event.idempotencyKey∈Machine.trace (call d) (delivers d) (l.take n) st

end

section Honest
variable {d : WebhookDispatcher DateTime σ} {cache : CacheHandle σ} {holds : σ → CacheKey → Prop}

theorem honest_count (hc : cache.Honest holds) (urls : List String) (n : Nat) {s : σ}
    {k : CacheKey} (h : holds (WebhookDispatcher.countPersisted cache urls n s).2 k) :
    holds s k := by
  induction urls generalizing n s with
  | nil => exact h
  | cons u urls ih =>
    rw [WebhookDispatcher.countPersisted] at h
    have hget := hc.get s (dlqKey u) k
    split at h
    · next hr =>
      rw [hr] at hget
      exact hget (ih _ h)
    · next hr =>
      rw [hr] at hget
      exact hget (ih _ h)

theorem honest_deliver (hd : d.cache = some cache) (hc : cache.Honest holds) (url : String)
    (payload : WebhookPayload DateTime) (send : Nat → Except String Unit) (failedAt : DateTime)
    {st : DispatcherState DateTime σ} {key : String}
    (h : holds (d.deliverWithRetry url payload send failedAt st).store (dedupKey key)) :
    holds st.store (dedupKey key) := by
  rw [WebhookDispatcher.deliverWithRetry] at h
  split at h
  · exact h
  · simp only [hd] at h
    exact (hc.set _ _ _ _ _ (honest_count hc _ _ h)).resolve_left
      (dlqKey_ne_dedupKey url key).symm

theorem honest_deliverAll (hd : d.cache = some cache) (hc : cache.Honest holds)
    (payload : WebhookPayload DateTime) (script : Script DateTime)
    {st : DispatcherState DateTime σ} {key : String}
    (h : holds (d.deliverAll payload script st).store (dedupKey key)) :
    holds st.store (dedupKey key) := by
  rw [WebhookDispatcher.deliverAll] at h
  revert h
  generalize d.urls.zipIdx = us
  intro h
  induction us generalizing st with
  | nil => exact h
  | cons u us ih => exact honest_deliver hd hc _ _ _ _ (ih h)

theorem honest_drain (hc : cache.Honest holds) (urls : List String)
    (drained : List (DeadLetterEntry DateTime)) {s : σ} {k : CacheKey}
    (h : holds (WebhookDispatcher.drainUrls d.serde cache urls drained s).2 k) : holds s k := by
  induction urls generalizing drained s with
  | nil => exact h
  | cons u urls ih => exact hc.get _ _ _ (hc.delete _ _ _ (ih _ h))

theorem honest_dispatch (hd : d.cache = some cache) (hc : cache.Honest holds)
    (event : Audit.Event DateTime) (script : Script DateTime)
    {st : DispatcherState DateTime σ} {key : String}
    (h : holds (d.dispatch event script st).store (dedupKey key)) :
    holds st.store (dedupKey key) ∨
      (key = event.idempotencyKey ∧ alreadyDelivered d event st = false) := by
  have hget := hc.get st.store (dedupKey event.idempotencyKey) (dedupKey key)
  by_cases hurls : d.urls = []
  · rw [WebhookDispatcher.dispatch,if_pos (by simp [hurls])] at h
    exact Or.inl h
  · rw [dispatch_cached hd hurls] at h
    split at h
    · exact Or.inl (hget h)
    · next hnew =>
      obtain hkey | hold := hc.set _ _ _ _ _ (honest_deliverAll hd hc _ _ h)
      · exact Or.inr ⟨dedupKey_injective hkey,Bool.eq_false_iff.mpr hnew⟩
      · exact Or.inl (hget hold)

def Marks (holds : σ → CacheKey → Prop) (keys : List String) (st : DispatcherState DateTime σ) :
    Prop :=
  ∀ key, holds st.store (dedupKey key) → key∈keys

theorem Marks.call (hd : d.cache = some cache) (hc : cache.Honest holds) {keys : List String}
    {st : DispatcherState DateTime σ} (h : Marks holds keys st) {a : Action DateTime}
    (hclean : clean d st a) : Marks holds (keys++delivers d a st) (call d a st).2 := by
  intro key hkey
  rw [List.mem_append]
  cases a with
  | dispatch event script =>
    obtain hold | ⟨heq,hnew⟩ := honest_dispatch hd hc event script hkey
    · exact Or.inl (h key hold)
    · have hdelivered : delivered d script = true := by
        simpa [clean,hnew] using hclean
      exact Or.inr (by simp [delivers,hnew,hdelivered,heq])
  | drainDlq =>
    simp only [Webhook.call,WebhookDispatcher.drainDlq,hd] at hkey
    exact Or.inl (h key (honest_drain hc _ _ hkey))
  | dlqDepth =>
    simp only [Webhook.call,WebhookDispatcher.dlqDepth,hd] at hkey
    exact Or.inl (h key (honest_count hc _ _ hkey))

/-- With an honest cache, a run of clean steps has a marker only for delivered keys. -/
theorem marks_run (hd : d.cache = some cache) (hc : cache.Honest holds)
    {l : List (Action DateTime)} {st : DispatcherState DateTime σ}
    (hst : ∀ key, ¬holds st.store (dedupKey key))
    (hl : Machine.Along (Webhook.call d) (clean d) l st) :
    Marks holds (Machine.trace (Webhook.call d) (delivers d) l st)
      (Machine.final (Webhook.call d) l st) :=
  Machine.trace_along (h := []) (fun _ _ _ hmarks hclean => hmarks.call hd hc hclean)
    (fun key hkey => absurd hkey (hst key)) hl

theorem skips_delivered (hd : d.cache = some cache) (hc : cache.Honest holds)
    {l : List (Action DateTime)} {st : DispatcherState DateTime σ}
    (hst : ∀ key, ¬holds st.store (dedupKey key))
    (hl : Machine.Along (call d) (clean d) l st) : SkipsDelivered d l st := by
  intro n event h
  have hprefix : Machine.Along (call d) (clean d) (l.take n) st := by
    rw [← List.take_append_drop n l,Machine.along_append] at hl
    exact hl.1
  refine marks_run hd hc hst hprefix _ ?_
  simp only [alreadyDelivered,hd,Bool.and_eq_true] at h
  obtain ⟨_,hfound⟩ := h
  split at hfound
  · next v hv => exact hc.found _ _ v hv
  · cases hfound

end Honest

section Healthy
variable {d : WebhookDispatcher DateTime σ} {cache : CacheHandle σ} {inv : σ → Prop}
  {contents : σ → CacheKey → Option String} {ttls : UInt64 → Prop}

theorem healthy_dispatch (hd : d.cache = some cache) (hc : cache.Healthy inv contents ttls)
    (ht : ttls DLQ_TTL) (ht' : ttls d.deduplicationTtl) (hurls : d.urls≠[])
    (event : Audit.Event DateTime) (script : Script DateTime)
    {st : DispatcherState DateTime σ} (hs : inv st.store) :
    inv (d.dispatch event script st).store ∧ ∀ key,
      (contents (d.dispatch event script st).store (dedupKey key)).isSome = true ↔
        key = event.idempotencyKey ∨ (contents st.store (dedupKey key)).isSome = true := by
  by_cases hskip : alreadyDelivered d event st = true
  · obtain ⟨_,hmark⟩ := (alreadyDelivered_iff hd hc event hs).mp hskip
    obtain ⟨_,hinv,hsame⟩ := hc.get st.store (dedupKey event.idempotencyKey) hs
    rw [dispatch_cached hd hurls,if_pos hskip]
    refine ⟨hinv,fun key => ?_⟩
    simp only [hsame]
    constructor
    · exact Or.inr
    · intro h
      obtain rfl | h := h
      · exact hmark
      · exact h
  · obtain ⟨hinv,hall⟩ := cached_pass hd hc ht ht' hurls script hs hskip
    refine ⟨hinv,fun key => ?_⟩
    rw [hall,persist_dedupKey,Function.update_apply]
    split
    · next hkey => simp [dedupKey_injective hkey]
    · next hkey =>
      have hne : key≠event.idempotencyKey := fun h => hkey (congrArg dedupKey h)
      simp [hne]

structure Remains (inv : σ → Prop) (contents : σ → CacheKey → Option String)
    (keys : List String) (st : DispatcherState DateTime σ) : Prop where
  inv : inv st.store
  marked : ∀ key∈keys, (contents st.store (dedupKey key)).isSome = true

theorem Remains.call (hd : d.cache = some cache) (hc : cache.Healthy inv contents ttls)
    (ht : ttls DLQ_TTL) (ht' : ttls d.deduplicationTtl) (hurls : d.urls≠[]) {keys : List String}
    {st : DispatcherState DateTime σ} (h : Remains inv contents keys st) (a : Action DateTime) :
    Remains inv contents (keys++delivers d a st) (call d a st).2 := by
  cases a with
  | dispatch event script =>
    obtain ⟨hinv,hmarks⟩ := healthy_dispatch hd hc ht ht' hurls event script h.inv
    refine ⟨hinv,fun key hkey => (hmarks key).mpr ?_⟩
    obtain hold | hnew := List.mem_append.mp hkey
    · exact Or.inr (h.marked key hold)
    · rw [delivers] at hnew
      split at hnew
      · exact Or.inl (List.mem_singleton.mp hnew)
      · cases hnew
  | drainDlq =>
    simp only [Webhook.call,WebhookDispatcher.drainDlq,hd,delivers,List.append_nil]
    refine ⟨(drainUrls_marks hc _ _ h.inv "").1,fun key hkey => ?_⟩
    rw [(drainUrls_marks hc _ _ h.inv key).2]
    exact h.marked key hkey
  | dlqDepth =>
    obtain ⟨_,hinv,hsame⟩ := countPersisted_spec hc d.urls 0 h.inv
    simp only [Webhook.call,WebhookDispatcher.dlqDepth,hd,delivers,List.append_nil]
    refine ⟨hinv,fun key hkey => ?_⟩
    rw [hsame]
    exact h.marked key hkey

/-- With a healthy cache a delivered key keeps its marker. -/
theorem remains_run (hd : d.cache = some cache) (hc : cache.Healthy inv contents ttls)
    (ht : ttls DLQ_TTL) (ht' : ttls d.deduplicationTtl) (hurls : d.urls≠[])
    (l : List (Action DateTime)) {st : DispatcherState DateTime σ} (hs : inv st.store) :
    Remains inv contents (Machine.trace (Webhook.call d) (delivers d) l st)
      (Machine.final (Webhook.call d) l st) :=
  Machine.trace_invariant (fun a _ _ h => h.call hd hc ht ht' hurls a) l [] st ⟨hs,by simp⟩

/-- With a healthy cache a run that skips only delivered events has clean steps. -/
theorem clean_of_skips_delivered (hd : d.cache = some cache)
    (hc : cache.Healthy inv contents ttls) (ht : ttls DLQ_TTL) (ht' : ttls d.deduplicationTtl)
    {l : List (Action DateTime)} {st : DispatcherState DateTime σ} (hs : inv st.store)
    (h : SkipsDelivered d l st) : Machine.Along (call d) (clean d) l st := by
  refine Machine.along_iff.mpr fun n a hn => ?_
  cases a with
  | drainDlq | dlqDepth => trivial
  | dispatch event script =>
    by_cases hurls : d.urls = []
    · exact Or.inr (by simp [delivered,hurls])
    · obtain ⟨hinv,hmarked⟩ := remains_run hd hc ht ht' hurls (l.take n) hs
      by_contra hfail
      simp only [clean,not_or,Bool.not_eq_true] at hfail
      have hnext : l.take (n+1) = l.take n++[.dispatch event script] := by
        rw [List.take_add_one,hn,Option.toList_some]
      -- the failed dispatch has left a marker, so its key must have been delivered before it
      obtain ⟨hinv',hmarks⟩ := healthy_dispatch hd hc ht ht' hurls event script hinv
      have hskip := h (n+1) event
      rw [hnext,Machine.final_snoc,Machine.trace_snoc] at hskip
      have hbefore := hskip ((alreadyDelivered_iff hd hc event hinv').mpr
        ⟨hurls,(hmarks _).mpr (Or.inl rfl)⟩)
      simp only [delivers,hfail.2,Bool.false_eq_true,and_false,if_false,List.append_nil] at hbefore
      have hwas := (alreadyDelivered_iff hd hc event hinv).mpr ⟨hurls,hmarked _ hbefore⟩
      rw [hfail.1] at hwas
      cases hwas

end Healthy

/-- Only delivered events are skipped as long as every dispatch that is not skipped delivers to
every URL; where the cache is healthy, no longer than that. -/
theorem skips_delivered_iff {env : Nat → Surroundings}
    {d : WebhookDispatcher DateTime (CacheBackend × Nat)}
    (hd : d.cache = some (backendHandle env)) (l : List (Action DateTime))
    {st : DispatcherState DateTime (CacheBackend × Nat)}
    (hst : ∀ key, ¬Stored st.store.1 (dedupKey key)) :
    (Machine.Along (call d) (clean d) l st → SkipsDelivered d l st) ∧
      ∀ p, (∀ n, Calm (env n)) → LongTtl env p DLQ_TTL → LongTtl env p d.deduplicationTtl →
        Steady env p st.store →
        (SkipsDelivered d l st ↔ Machine.Along (call d) (clean d) l st) := by
  have hfirst := skips_delivered (l := l) hd (backend_honest env) hst
  refine ⟨hfirst,fun p hcalm ht ht' hs => ⟨?_,hfirst⟩⟩
  exact clean_of_skips_delivered hd (backend_healthy env hcalm p) ht ht' hs

/-- The first dispatch delivers, the second is skipped. -/
theorem skips_delivered_twice :
    let env : Nat → Surroundings := fun _ => ⟨0,0,0,true,true,true,0,0⟩
    let d : WebhookDispatcher String (CacheBackend × Nat) :=
      WebhookDispatcher.withCache (.new ["https://a"] 0 (knowing [])) (backendHandle env)
    let event : Audit.Event String := ⟨"e1","doc-1","DocumentRegistered",.null,
      "2024-01-01T00:00:00Z",1,"issuer","k1",.contract,none⟩
    let script : Script String := ⟨fun _ _ => .ok (),fun _ => "2024-01-01T00:00:01Z"⟩
    SkipsDelivered d [.dispatch event script,.dispatch event script]
      ⟨[],(.inMemory InMemoryCache.new,0)⟩ := by
  intro env d event script
  have hlong : ∀ ttl, 0 < ttl.toNat → LongTtl env .fallback ttl :=
    fun ttl httl => longTtl_still httl (by decide)
  have hempty : ∀ key, ¬Stored (.inMemory InMemoryCache.new) (dedupKey key) := by
    intro key h
    cases h
  refine ((skips_delivered_iff rfl _ hempty).2 .fallback (fun _ => ⟨rfl,rfl,rfl⟩)
    (hlong _ (by decide)) (hlong _ (by decide)) (steady_new env 0)).mpr ?_
  exact ⟨Or.inr rfl,Or.inr rfl,trivial⟩

/-- The only URL answers with an error, and the event counts as delivered. -/
theorem skips_failed :
    ¬∀ (env : Nat → Surroundings) (d : WebhookDispatcher String (CacheBackend × Nat))
      (l : List (Action String)) (st : DispatcherState String (CacheBackend × Nat)),
      d.cache = some (backendHandle env) → (∀ key, ¬Stored st.store.1 (dedupKey key)) →
      SkipsDelivered d l st := by
  intro hall
  let env : Nat → Surroundings := fun _ => ⟨0,0,0,true,true,true,0,0⟩
  let d : WebhookDispatcher String (CacheBackend × Nat) :=
    WebhookDispatcher.withCache (.new ["https://a"] 0 (knowing [])) (backendHandle env)
  let event : Audit.Event String := ⟨"e1","doc-1","DocumentRegistered",.null,
    "2024-01-01T00:00:00Z",1,"issuer","k1",.contract,none⟩
  let script : Script String :=
    ⟨fun _ _ => .error "HTTP 500 Internal Server Error",fun _ => "2024-01-01T00:00:01Z"⟩
  have hkey := hall env d [.dispatch event script] ⟨[],(.inMemory InMemoryCache.new,0)⟩ rfl
    (fun key h => by cases h) 1 event (by decide +kernel)
  have hnone : Machine.trace (call d) (delivers d) [.dispatch event script]
      ⟨[],(.inMemory InMemoryCache.new,0)⟩ = [] := by decide +kernel
  rw [List.take_of_length_le (by simp),hnone] at hkey
  cases hkey

end ProofStell.Webhook
