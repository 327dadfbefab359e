import ProofStell.Cache.Failover
import ProofStell.Stellar.Bulkhead
import ProofStell.Stellar.Verification

/-! A client with a cache. Only `warm_cache` writes verification results there, and only a
call that the bulkhead keeps waiting reads them. -/
namespace ProofStell.Stellar
open Hash Cache Transact

namespace VerificationStatus

def ofName : String → Option VerificationStatus
  | "ConfirmedMatch" => some .confirmedMatch
  | "NoMatch" => some .noMatch
  | "NetworkError" => some .networkError
  | "MalformedResponse" => some .malformedResponse
  | _ => none

def toJson (status : VerificationStatus) : Json.Value := .string status.debug

/-- The derived `Deserialize` also takes the name as the key of an object. -/
def ofJson : Json.Value → Option VerificationStatus
  | .string name => ofName name
  | .object [(name,.null)] => ofName name
  | _ => none

theorem ofJson_toJson (status : VerificationStatus) : ofJson status.toJson = some status := by
  cases status <;> rfl

end VerificationStatus

namespace VerificationResult

def toJson (result : VerificationResult) : Json.Value :=
  .object [("status",result.status.toJson),
    ("transaction_id",Json.ofOption .string result.transactionId),
    ("timestamp",Json.ofOption Json.ofI64 result.timestamp),
    ("last_http_status",Json.ofOption Json.ofU16 result.lastHttpStatus)]

def ofJson (v : Json.Value) : Option VerificationResult := do
  let fields ← Json.asRecord ["status","transaction_id","timestamp","last_http_status"] 0 v
  let status ← Json.required "status" VerificationStatus.ofJson fields
  let transactionId ← Json.optional "transaction_id" Json.asString fields
  let timestamp ← Json.optional "timestamp" Json.asI64 fields
  let lastHttpStatus ← Json.optional "last_http_status" Json.asU16 fields
  return ⟨status,transactionId,timestamp,lastHttpStatus⟩

theorem ofJson_toJson (result : VerificationResult) : ofJson result.toJson = some result := by
  obtain ⟨status,transactionId,timestamp,lastHttpStatus⟩ := result
  rw [ofJson,toJson,Json.asRecord_object]
  have hstatus : Json.required "status" VerificationStatus.ofJson
      [("status",status.toJson),("transaction_id",Json.ofOption .string transactionId),
        ("timestamp",Json.ofOption Json.ofI64 timestamp),
        ("last_http_status",Json.ofOption Json.ofU16 lastHttpStatus)] = some status :=
    status.ofJson_toJson
  have hid : Json.optional "transaction_id" Json.asString
      [("status",status.toJson),("transaction_id",Json.ofOption .string transactionId),
        ("timestamp",Json.ofOption Json.ofI64 timestamp),
        ("last_http_status",Json.ofOption Json.ofU16 lastHttpStatus)] = some transactionId :=
    Json.optional_ofOption rfl fun id => ⟨nofun,Json.asString_string id⟩
  have htime : Json.optional "timestamp" Json.asI64
      [("status",status.toJson),("transaction_id",Json.ofOption .string transactionId),
        ("timestamp",Json.ofOption Json.ofI64 timestamp),
        ("last_http_status",Json.ofOption Json.ofU16 lastHttpStatus)] = some timestamp :=
    Json.optional_ofOption rfl fun t => ⟨nofun,Json.asI64_ofI64 t⟩
  have hhttp : Json.optional "last_http_status" Json.asU16
      [("status",status.toJson),("transaction_id",Json.ofOption .string transactionId),
        ("timestamp",Json.ofOption Json.ofI64 timestamp),
        ("last_http_status",Json.ofOption Json.ofU16 lastHttpStatus)] = some lastHttpStatus :=
    Json.optional_ofOption rfl fun status => ⟨nofun,Json.asU16_ofU16 status⟩
  simp only [Option.bind_eq_bind,Option.bind_some,hstatus,hid,htime,hhttp,Option.pure_def]

end VerificationResult

structure WarmEntry where
  hash : String
  result : VerificationResult
  ttl : UInt64
  now : UInt64
  deriving DecidableEq, Repr

namespace CachedClient

section
variable (crates : Crates) (json : Json.Text)

def verificationCacheKey (hash : String) : CacheKey :=
  .verification (normalize crates.lowercase hash)

def write (e : WarmEntry) : InMemoryCache.Write :=
  ⟨e.now,verificationCacheKey crates e.hash,json.toString e.result.toJson,e.ttl⟩

/-- Redis is not warmed. -/
def warmCache (entries : List WarmEntry) :
    Option CacheBackend → Except CacheError Nat × Option CacheBackend
  | some (.inMemory c) =>
    let (loaded,c) := InMemoryCache.warm (entries.map (write crates json)) c
    (loaded,some (.inMemory c))
  | some (.redis c) => (.ok 0,some (.redis c))
  | none => (.ok 0,none)

/-- `CacheBackend::get`: a text that does not parse counts as no value. -/
def get {α : Type} (decode : Json.Value → Option α) (env : Surroundings) (key : CacheKey) :
    Exec CacheBackend CacheError (Option α) := do
  let raw ← CacheBackend.getRaw env key
  return raw.bind fun text => (json.fromStr text).bind decode

def cachedResult (hash : String) (env : Surroundings) :
    Option CacheBackend → Option VerificationResult × Option CacheBackend
  | none => (none,none)
  | some cache =>
    let (result,cache) :=
      get json VerificationResult.ofJson env (verificationCacheKey crates hash) cache
    (result.toOption.join,some cache)

end
end CachedClient

/-- The calls of `verify_hash` at the bulkhead, and the cache that the client shares with
others. -/
structure CachedClient (κ : Type) where
  calls : Bulkhead.Calls κ
  cache : Option CacheBackend

namespace CachedClient
variable {κ : Type}

/-- A step of a call, a `warm_cache`, or a cache operation of somebody else. The answer that
finishes a request is its response with the JSON of the body, if there is any. -/
inductive Event (κ : Type) where
  | call (k : κ)
  | acquire (k : κ)
  | drop (k : κ)
  | timeout (k : κ) (env : Surroundings)
  | send (k : κ)
  | finish (k : κ) (answer : Option (UInt16 × Option Json.Value))
  | warm (entries : List WarmEntry)
  | other (r : Request)

variable (c : StellarClient) (crates : Crates) (json : Json.Text) (hash : κ → String)

variable [DecidableEq κ] in
def onCalls (x : Bulkhead.Step κ) (s : CachedClient κ) : CachedClient κ :=
  { s with calls := (Bulkhead.step c hash x s.calls).2 }

variable [DecidableEq κ] in
def step (x : Event κ) (s : CachedClient κ) : Unit × CachedClient κ :=
  ((),match x with
    | .call k => onCalls c hash (.call k) s
    | .acquire k => onCalls c hash (.acquire k) s
    | .drop k => onCalls c hash (.drop k) s
    | .timeout k env =>
      match s.calls.phase k with
      | .waiting _ =>
        let (cached,cache) := cachedResult crates json (hash k) env s.cache
        { onCalls c hash (.timeout k cached) s with cache := cache }
      | _ => s
    | .send k => onCalls c hash (.send k) s
    | .finish k answer =>
      let parsed := answer.map fun (status,body) =>
        (status,parseHorizonTransaction crates body (hash k))
      onCalls c hash (.finish k parsed) s
    | .warm entries => { s with cache := (warmCache crates json entries s.cache).2 }
    | .other r => { s with cache := s.cache.map fun cache => (request r cache).2 })

def start (maxConcurrent : UInt32) (cache : CacheBackend) : CachedClient κ :=
  ⟨.init maxConcurrent,some cache⟩

def warmed (l : List (Event κ)) : List WarmEntry :=
  l.flatMap fun
    | .warm entries => entries
    | _ => []

theorem verificationCacheKey_accepted {hash : String} (ha : accepted hash = true) :
    verificationCacheKey crates hash = .verification hash := by
  rw [accepted_eq_shape] at ha
  rw [verificationCacheKey,normalize_hex crates.lowercase
    (hexChars_of_bytes (isCanonicalShape_iff.mp ha).2)]

def lastWarm (crates : Crates) (log : List WarmEntry) (hash : String) : Option WarmEntry :=
  (log.filter fun e => normalize crates.lowercase e.hash = hash).getLast?

theorem mem_of_lastWarm {log : List WarmEntry} {hash : String} {e : WarmEntry}
    (h : lastWarm crates log hash = some e) : e∈log :=
  (List.mem_filter.mp (List.mem_of_getLast? h)).1

theorem lastWarm_append (log entries : List WarmEntry) (hash : String) :
    lastWarm crates (log++entries) hash =
      (lastWarm crates entries hash).or (lastWarm crates log hash) := by
  rw [lastWarm,List.filter_append,List.getLast?_append]
  rfl

theorem warmed_warm (entries : List WarmEntry) : warmed [(.warm entries : Event κ)] = entries :=
  List.flatMap_singleton _ _

theorem warmed_snoc (l : List (Event κ)) (x : Event κ) : warmed (l++[x]) = warmed l++warmed [x] :=
  List.flatMap_append

theorem accesses_warm (entries : List WarmEntry) (hash : String) (o : Option Entry) :
    (InMemoryCache.Op.warm (entries.map (write crates json))).accesses.foldl
        (InMemoryCache.afterAccess (.verification hash)) o =
      ((lastWarm crates entries hash).map fun e => (write crates json e).entry).or o := by
  rw [InMemoryCache.Op.accesses]
  induction entries using List.reverseRecOn with
  | nil => rfl
  | append_singleton entries e ih =>
    rw [List.map_append,List.map_append,List.foldl_append,ih,lastWarm_append]
    by_cases he : normalize crates.lowercase e.hash = hash
    · simp [InMemoryCache.afterAccess,write,verificationCacheKey,lastWarm,he]
    · simp [InMemoryCache.afterAccess,write,verificationCacheKey,lastWarm,he]

def Event.op (x : Event κ) (s : CachedClient κ) : Option InMemoryCache.Op :=
  match x with
  | .timeout k env =>
    match s.calls.phase k with
    | .waiting _ => some (.getRawWithExpiry env.nowSecs (verificationCacheKey crates (hash k)))
    | _ => none
  | .warm entries => some (.warm (entries.map (write crates json)))
  | .other ⟨env,.get key⟩ => some (.getRawWithExpiry env.nowSecs key)
  | .other ⟨env,.set key value ttl⟩ => some (.setRaw ⟨env.nowSecs,key,value,ttl⟩)
  | .other ⟨_,.delete key⟩ => some (.delete key)
  | .call _ | .acquire _ | .drop _ | .send _ | .finish .. => none

theorem getRaw_look (env : Surroundings) (key : CacheKey) (m : InMemoryCache) :
    CacheBackend.getRaw env key (.inMemory m) =
      (.ok (InMemoryCache.look env.nowSecs key m).1,
        .inMemory (InMemoryCache.step (.getRawWithExpiry env.nowSecs key) m).2) := by
  rw [CacheBackend.getRaw,CacheBackend.either,CacheBackend.lookup,Exec.bind_apply,
    InMemoryCache.step,InMemoryCache.getRawWithExpiry_eq]
  rfl

theorem cachedResult_inMemory (hash : String) (env : Surroundings) (m : InMemoryCache) :
    cachedResult crates json hash env (some (.inMemory m)) =
      ((InMemoryCache.look env.nowSecs (verificationCacheKey crates hash) m).1.bind fun text =>
          (json.fromStr text).bind VerificationResult.ofJson,
        some (.inMemory (InMemoryCache.step
          (.getRawWithExpiry env.nowSecs (verificationCacheKey crates hash)) m).2)) := by
  rw [cachedResult,get,Exec.bind_apply,getRaw_look]
  rfl

variable [DecidableEq κ] in
theorem cache_step (x : Event κ) {s : CachedClient κ} {m : InMemoryCache}
    (hs : s.cache = some (.inMemory m)) :
    (step c crates json hash x s).2.cache = some (.inMemory
      ((x.op crates json hash s).elim m fun op => (InMemoryCache.step op m).2)) := by
  cases x with
  | call k => exact hs
  | acquire k => exact hs
  | drop k => exact hs
  | send k => exact hs
  | finish k answer => exact hs
  | timeout k env =>
    simp only [step,Event.op]
    split
    · rw [hs,cachedResult_inMemory]
      rfl
    · exact hs
  | warm entries =>
    simp only [step,hs]
    rfl
  | other r =>
    obtain ⟨env,op⟩ := r
    simp only [step,hs,Option.map_some]
    cases op with
    | get key => exact congrArg (fun r => some (Prod.snd r)) (getRaw_look env key m)
    | set key value ttl => rfl
    | delete key => rfl

/-- All but `warm_cache` leave the results of verifications to it. -/
def Event.spares : Event κ → Bool
  | .other ⟨_,.set (.verification _) _ _⟩ => false
  | _ => true

def Warm (log : List WarmEntry) (m : InMemoryCache) : Prop :=
  ∀ hash entry, m.store.lookup (.verification hash) = some entry →
    ∃ e, lastWarm crates log hash = some e ∧ (write crates json e).entry = entry

theorem looked_le {key k : CacheKey} {now : UInt64} {o : Option Entry} {entry : Entry}
    (h : InMemoryCache.afterAccess k o (.look now key) = some entry) : o = some entry := by
  rw [InMemoryCache.afterAccess] at h
  split at h
  · exact (Option.filter_eq_some_iff.mp h).1
  · exact h

theorem Warm.step {log : List WarmEntry} {m : InMemoryCache} (h : Warm crates json log m)
    (ha : InMemoryCache.Aligned m) {x : Event κ} (hx : x.spares = true) (s : CachedClient κ) :
    Warm crates json (log++warmed [x])
      ((x.op crates json hash s).elim m fun op => (InMemoryCache.step op m).2) := by
  have hsame : Warm crates json (log++[]) m := by
    rw [List.append_nil]
    exact h
  cases x with
  | call k => exact hsame
  | acquire k => exact hsame
  | drop k => exact hsame
  | send k => exact hsame
  | finish k answer => exact hsame
  | timeout k env =>
    simp only [Event.op]
    split
    · intro hash' entry hentry
      generalize verificationCacheKey crates (hash k) = key at hentry
      exact hsame hash' entry (looked_le (InMemoryCache.lookup_step_le _ ha hentry))
    · exact hsame
  | warm entries =>
    intro hash' entry hentry
    have hle := InMemoryCache.lookup_step_le _ ha hentry
    rw [accesses_warm] at hle
    rw [warmed_warm,lastWarm_append]
    cases hlast : lastWarm crates entries hash' with
    | none =>
      rw [hlast] at hle
      exact h hash' entry hle
    | some e =>
      rw [hlast] at hle
      exact ⟨e,rfl,Option.some.inj hle⟩
  | other r =>
    obtain ⟨env,op⟩ := r
    intro hash' entry hentry
    refine hsame hash' entry ?_
    cases op with
    | get key => exact looked_le (InMemoryCache.lookup_step_le _ ha hentry)
    | set key value ttl =>
      have hle := InMemoryCache.lookup_step_le _ ha hentry
      cases key with
      | verification hash => cases hx
      | config key => exact hle
      | events hash => exact hle
    | delete key =>
      have hle : (if key = .verification hash' then none
          else m.store.lookup (.verification hash')) = some entry :=
        InMemoryCache.lookup_step_le _ ha hentry
      split at hle
      · cases hle
      · exact hle

/-- Neither a match nor the transaction and the time that come with one. -/
def Bare (result : VerificationResult) : Prop :=
  result.status≠.confirmedMatch ∧ result.transactionId = none ∧ result.timestamp = none

theorem bare {status : VerificationStatus} {http : Option UInt16} (h : status≠.confirmedMatch) :
    Bare ⟨status,none,none,http⟩ := ⟨h,rfl,rfl⟩

def Earned (attempt : Attempt) (result : VerificationResult) : Prop :=
  (∃ status record, attempt = .answered status (.ok (some record)) ∧ isSuccess status = true ∧
    result = ⟨.confirmedMatch,some record.transactionId,some record.timestamp,none⟩) ∨
  (attempt = .noPermit (some result) ∧ (result.verified = true ∨ c.staleCacheOk = true)) ∨
  Bare result

theorem afterAttempt_cases (attempt : Attempt) (http : Option UInt16) :
    (∃ status http', c.afterAttempt attempt http = .inr (status,http') ∧ status≠.confirmedMatch) ∨
      ∃ result, c.afterAttempt attempt http = .inl result ∧ Earned c attempt result := by
  cases attempt with
  | noPermit cached =>
    simp only [StellarClient.afterAttempt]
    cases hf : c.tryStaleCacheFallback cached with
    | none => exact Or.inl ⟨_,_,rfl,by decide⟩
    | some fallback =>
      obtain ⟨rfl,hok⟩ := Option.filter_eq_some_iff.mp hf
      exact Or.inr ⟨_,rfl,Or.inr (Or.inl ⟨rfl,by simpa using hok⟩)⟩
  | sendError => exact Or.inl ⟨_,_,rfl,by decide⟩
  | answered status parsed =>
    simp only [StellarClient.afterAttempt]
    split
    · next hs =>
      cases parsed with
      | error e => exact Or.inl ⟨_,_,rfl,by decide⟩
      | ok record =>
        cases record with
        | none => exact Or.inr ⟨_,rfl,Or.inr (Or.inr (bare (by decide)))⟩
        | some record => exact Or.inr ⟨_,rfl,Or.inl ⟨status,record,rfl,hs,rfl⟩⟩
    · split
      · exact Or.inl ⟨_,_,rfl,by decide⟩
      · exact Or.inr ⟨_,rfl,Or.inr (Or.inr (bare (by decide)))⟩

theorem next_cases (attempt : Attempt) (p : Bulkhead.Progress) :
    (∃ q, Bulkhead.next c attempt p = .waiting q) ∨
      ∃ made result, Bulkhead.next c attempt p = .returned made result ∧
        Earned c attempt result := by
  rw [Bulkhead.next]
  obtain ⟨status,http,hafter,hstatus⟩ | ⟨result,hafter,hearned⟩ :=
    afterAttempt_cases c attempt p.lastHttpStatus
  · rw [hafter]
    dsimp only
    split
    · exact Or.inr ⟨_,_,rfl,Or.inr (Or.inr (bare hstatus))⟩
    · exact Or.inl ⟨_,rfl⟩
  · rw [hafter]
    exact Or.inr ⟨_,_,rfl,hearned⟩

/-- What stands behind an answer: a response of Horizon in this run, or the entry of the cache
that was warmed last for the hash and is in time, or nothing, and then it claims nothing. -/
def Backed (l : List (Event κ)) (k : κ) (result : VerificationResult) : Prop :=
  (∃ status body tx, .finish k (some (status,body))∈l ∧
    (HorizonOutcome.response status body).FirstMatch crates.base64 (hash k) tx ∧
    result = ⟨.confirmedMatch,some tx.id,some ((tx.createdAt.bind crates.rfc3339).getD 0),none⟩) ∨
  (∃ before env after e, l = before++.timeout k env::after ∧
    lastWarm crates (warmed before) (hash k) = some e ∧
    env.nowSecs.toNat < (write crates json e).expiry ∧ e.result = result ∧
    (result.verified = true ∨ c.staleCacheOk = true)) ∨
  Bare result

def BackedPhase (l : List (Event κ)) (k : κ) : Bulkhead.Phase → Prop
  | .idle => True
  | .waiting _ | .holding _ | .ready _ | .inFlight _ => accepted (hash k) = true
  | .returned _ result => Backed c crates json hash l k result

theorem Backed.snoc {l : List (Event κ)} {k : κ} {result : VerificationResult}
    (h : Backed c crates json hash l k result) (x : Event κ) :
    Backed c crates json hash (l++[x]) k result := by
  obtain ⟨status,body,tx,hmem,hfirst,hresult⟩ | ⟨before,env,after,e,rfl,hlast⟩ | hbare := h
  · exact Or.inl ⟨status,body,tx,List.mem_append_left _ hmem,hfirst,hresult⟩
  · exact Or.inr (Or.inl ⟨before,env,after++[x],e,by simp,hlast⟩)
  · exact Or.inr (Or.inr hbare)

theorem BackedPhase.snoc {l : List (Event κ)} {k : κ} {phase : Bulkhead.Phase}
    (h : BackedPhase c crates json hash l k phase) (x : Event κ) :
    BackedPhase c crates json hash (l++[x]) k phase := by
  cases phase with
  | returned made result => exact Backed.snoc c crates json hash h x
  | idle | waiting p | holding p | ready p | inFlight p => exact h

theorem enter_backed (l : List (Event κ)) (k : κ) :
    BackedPhase c crates json hash l k (Bulkhead.enter c (hash k)) := by
  rw [Bulkhead.enter]
  cases hn : CanonicalHash.new (hash k) with
  | error e => exact Or.inr (Or.inr (bare (by decide)))
  | ok canonical =>
    change accepted (hash k) = true
    rw [accepted,hn]
    rfl

theorem next_backed {l : List (Event κ)} {k : κ} (ha : accepted (hash k) = true) (attempt : Attempt)
    (p : Bulkhead.Progress)
    (hbacked : ∀ result, Earned c attempt result → Backed c crates json hash l k result) :
    BackedPhase c crates json hash l k (Bulkhead.next c attempt p) := by
  obtain ⟨q,hq⟩ | ⟨made,result,hr,hearned⟩ := next_cases c attempt p
  · rw [hq]
    exact ha
  · rw [hr]
    exact hbacked result hearned

section Sound
variable {crates} (hbase64 : ∀ bytes, bytes≠[] → crates.base64 bytes≠"")

include hbase64 in
theorem finish_backed {l : List (Event κ)} {k : κ} (ha : accepted (hash k) = true) {status : UInt16}
    {body : Option Json.Value} {record : TransactionRecord} (hs : isSuccess status = true)
    (hparse : parseHorizonTransaction crates body (hash k) = .ok (some record)) :
    Backed c crates json hash (l++[.finish k (some (status,body))]) k
      ⟨.confirmedMatch,some record.transactionId,some record.timestamp,none⟩ := by
  rw [accepted_eq_shape] at ha
  obtain ⟨tx,⟨records,hb,hm⟩,rfl⟩ := (parse_accepts_iff crates).mp hparse
  exact Or.inl ⟨status,body,tx,by simp,
    (firstMatch_some hbase64 ⟨hash k,ha⟩).mp ⟨records,⟨status,body,rfl,hs,hb⟩,hm⟩,rfl⟩

/-- What a timeout finds was warmed last, and is in time. -/
theorem timeout_backed {l : List (Event κ)} {k : κ} (ha : accepted (hash k) = true)
    {m : InMemoryCache} (hwarm : Warm crates json (warmed l) m)
    (htext : ∀ e∈warmed l, json.fromStr (json.toString e.result.toJson) = some e.result.toJson)
    {env : Surroundings} {result : VerificationResult}
    (hfound : (cachedResult crates json (hash k) env (some (.inMemory m))).1 = some result)
    (hok : result.verified = true ∨ c.staleCacheOk = true) :
    Backed c crates json hash (l++[.timeout k env]) k result := by
  rw [cachedResult_inMemory,verificationCacheKey_accepted crates ha] at hfound
  obtain ⟨text,hlook,hread⟩ := Option.bind_eq_some_iff.mp hfound
  obtain ⟨entry,hentry,hlive,heq⟩ | ⟨_,_,_,heq⟩ | ⟨_,heq⟩ :=
    InMemoryCache.look_cases env.nowSecs (.verification (hash k)) m
  · obtain ⟨e,hlast,rfl⟩ := hwarm (hash k) entry hentry
    rw [heq] at hlook
    obtain rfl : json.toString e.result.toJson = text := Option.some.inj hlook
    rw [htext e (mem_of_lastWarm crates hlast),Option.bind_some,
      VerificationResult.ofJson_toJson] at hread
    refine Or.inr (Or.inl ⟨l,env,[],e,rfl,hlast,?_,Option.some.inj hread,hok⟩)
    rw [← InMemoryCache.entry_expiresAt]
    exact UInt64.lt_iff_toNat_lt.mp hlive
  · rw [heq] at hlook
    cases hlook
  · rw [heq] at hlook
    cases hlook

variable (crates) in
structure Sound (l : List (Event κ)) (s : CachedClient κ) : Prop where
  cache : ∃ m, s.cache = some (.inMemory m) ∧ InMemoryCache.WellFormed m ∧
    Warm crates json (warmed l) m
  calls : ∀ k, BackedPhase c crates json hash l k (s.calls.phase k)

theorem elim_wellFormed {m : InMemoryCache} (h : InMemoryCache.WellFormed m)
    (o : Option InMemoryCache.Op) :
    InMemoryCache.WellFormed (o.elim m fun op => (InMemoryCache.step op m).2) := by
  cases o with
  | none => exact h
  | some op => exact (h.step op).1

variable [DecidableEq κ]

include hbase64 in
theorem Sound.step {l : List (Event κ)} {s : CachedClient κ} (h : Sound c crates json hash l s)
    (x : Event κ) (hx : x.spares = true)
    (htext : ∀ e∈warmed l, json.fromStr (json.toString e.result.toJson) = some e.result.toJson) :
    Sound c crates json hash (l++[x]) (CachedClient.step c crates json hash x s).2 := by
  obtain ⟨⟨m,hm,hwell,hwarm⟩,hcalls⟩ := h
  refine ⟨⟨_,cache_step c crates json hash x hm,elim_wellFormed hwell _,?_⟩,?_⟩
  · rw [warmed_snoc]
    exact hwarm.step crates json hash hwell.toAligned hx s
  have hold (k : κ) : BackedPhase c crates json hash (l++[x]) k (s.calls.phase k) :=
    (hcalls k).snoc c crates json hash x
  have phased {k : κ} {phase : Bulkhead.Phase} (hp : s.calls.phase k = phase) :
      BackedPhase c crates json hash (l++[x]) k phase := by
    rw [← hp]
    exact hold k
  have moved {k : κ} {permits : Nat} {phase : Bulkhead.Phase}
      (hp : BackedPhase c crates json hash (l++[x]) k phase) (j : κ) :
      BackedPhase c crates json hash (l++[x]) j ((s.calls.move k permits phase).phase j) :=
    Bulkhead.move_forall (P := BackedPhase c crates json hash (l++[x])) hold permits hp j
  cases x with
  | call k =>
    simp only [CachedClient.step,onCalls,Bulkhead.step]
    split
    · exact moved (enter_backed c crates json hash _ k)
    · exact hold
  | acquire k =>
    simp only [CachedClient.step,onCalls,Bulkhead.step]
    split
    · next p hp =>
      have ha : accepted (hash k) = true := phased hp
      split
      · exact hold
      · exact moved ha
    · exact hold
  | drop k =>
    simp only [CachedClient.step,onCalls,Bulkhead.step]
    split
    · next p hp =>
      have ha : accepted (hash k) = true := phased hp
      exact moved ha
    · exact hold
  | send k =>
    simp only [CachedClient.step,onCalls,Bulkhead.step]
    split
    · next p hp =>
      have ha : accepted (hash k) = true := phased hp
      exact moved ha
    · exact hold
  | timeout k env =>
    simp only [CachedClient.step,onCalls]
    split
    · next p hp =>
      have ha : accepted (hash k) = true := phased hp
      simp only [Bulkhead.step,hp,hm]
      refine moved (next_backed c crates json hash ha _ p fun result hearned => ?_)
      obtain ⟨status,record,heq,_⟩ | ⟨heq,hok⟩ | hbare := hearned
      · cases heq
      · exact timeout_backed c json hash ha hwarm htext (Attempt.noPermit.inj heq) hok
      · exact Or.inr (Or.inr hbare)
    · exact hold
  | finish k answer =>
    simp only [CachedClient.step,onCalls,Bulkhead.step]
    split
    · next p hp =>
      have ha : accepted (hash k) = true := phased hp
      refine moved (next_backed c crates json hash ha _ p fun result hearned => ?_)
      obtain ⟨status,record,heq,hs,rfl⟩ | ⟨heq,_⟩ | hbare := hearned
      · cases answer with
        | none => cases heq
        | some answer =>
          obtain ⟨status',body⟩ := answer
          obtain ⟨rfl,hparse⟩ := Attempt.answered.inj heq
          exact finish_backed c json hash hbase64 ha hs hparse
      · cases answer <;> cases heq
      · exact Or.inr (Or.inr hbare)
    · exact hold
  | warm entries => exact hold
  | other r => exact hold

include hbase64 in
theorem run_sound (maxConcurrent : UInt32) (size : Nat) (l : List (Event κ))
    (hspares : ∀ x∈l, x.spares = true)
    (htext : ∀ e∈warmed l, json.fromStr (json.toString e.result.toJson) = some e.result.toJson) :
    Sound c crates json hash l (Machine.final (CachedClient.step c crates json hash) l
      (start maxConcurrent (.inMemory (.withMaxSize size)))) := by
  induction l using List.reverseRecOn with
  | nil =>
    refine ⟨⟨_,rfl,InMemoryCache.wellFormed_withMaxSize size,fun hash entry hentry => ?_⟩,
      fun _ => trivial⟩
    rw [InMemoryCache.withMaxSize,Finmap.lookup_empty] at hentry
    cases hentry
  | append_singleton l x ih =>
    rw [Machine.final_snoc]
    have hsound := ih (fun y hy => hspares y (List.mem_append_left _ hy)) fun e he => htext e (by
      rw [warmed_snoc]
      exact List.mem_append_left _ he)
    refine hsound.step c json hash hbase64 x (hspares x (by simp)) fun e he => htext e ?_
    rw [warmed_snoc]
    exact List.mem_append_left _ he

/-- An event moves the calls as a step at the bulkhead does, or not at all. -/
theorem calls_step (x : Event κ) (s : CachedClient κ) :
    (CachedClient.step c crates json hash x s).2.calls = s.calls ∨
      ∃ y, (CachedClient.step c crates json hash x s).2.calls =
        (Bulkhead.step c hash y s.calls).2 := by
  cases x with
  | call k => exact Or.inr ⟨.call k,rfl⟩
  | acquire k => exact Or.inr ⟨.acquire k,rfl⟩
  | drop k => exact Or.inr ⟨.drop k,rfl⟩
  | send k => exact Or.inr ⟨.send k,rfl⟩
  | finish k answer => exact Or.inr ⟨.finish k _,rfl⟩
  | timeout k env =>
    simp only [CachedClient.step]
    split
    · exact Or.inr ⟨.timeout k _,rfl⟩
    · exact Or.inl rfl
  | warm entries => exact Or.inl rfl
  | other r => exact Or.inl rfl

variable (crates) in
theorem run_faithful (cache : CacheBackend) (maxConcurrent : UInt32) (l : List (Event κ)) (k : κ) :
    ((Machine.final (CachedClient.step c crates json hash) l
      (start maxConcurrent cache)).calls.phase k).Faithful c (hash k) := by
  have hstep (x : Event κ) (s : CachedClient κ)
      (h : ∀ k, (s.calls.phase k).Faithful c (hash k)) (k : κ) :
      ((CachedClient.step c crates json hash x s).2.calls.phase k).Faithful c (hash k) := by
    obtain hsame | ⟨y,hy⟩ := calls_step c json hash x s
    · rw [hsame]
      exact h k
    · rw [hy]
      exact Bulkhead.step_faithful c hash y s.calls h k
  exact Machine.final_invariant
    (P := fun s : CachedClient κ => ∀ k, (s.calls.phase k).Faithful c (hash k)) hstep l
    (start maxConcurrent cache) (fun _ => trivial) k

end Sound

/-- A call that has returned has run `verify_hash`, and a match is the first record of its own
response to carry the hash, or the entry warmed last, in time. -/
theorem answers_are_backed [DecidableEq κ] (hbase64 : ∀ bytes, bytes≠[] → crates.base64 bytes≠"")
    (maxConcurrent : UInt32) (size : Nat) (l : List (Event κ)) (hspares : ∀ x∈l, x.spares = true)
    (htext : ∀ e∈warmed l, json.fromStr (json.toString e.result.toJson) = some e.result.toJson)
    {k : κ} {made : List Attempt} {result : VerificationResult}
    (hreturned : (Machine.final (step c crates json hash) l
      (start maxConcurrent (.inMemory (.withMaxSize size)))).calls.phase k =
        .returned made result) :
    (∀ script : Nat → Attempt, (∀ i a, made[i]? = some a → script i = a) →
      c.verifyHash (hash k) script = result) ∧
    Backed c crates json hash l k result := by
  have hfaithful := run_faithful c crates json hash (.inMemory (.withMaxSize size))
    maxConcurrent l k
  have hbacked := (run_sound c json hash hbase64 maxConcurrent size l hspares htext).calls k
  rw [hreturned] at hfaithful hbacked
  exact ⟨hfaithful,hbacked⟩

def answer : Bulkhead.Phase → Option VerificationResult
  | .returned _ result => some result
  | _ => none

theorem answer_eq_some {phase : Bulkhead.Phase} {result : VerificationResult}
    (h : answer phase = some result) : ∃ made, phase = .returned made result := by
  cases phase with
  | returned made r => exact ⟨made,congrArg _ (Option.some.inj h)⟩
  | idle | waiting p | holding p | ready p | inFlight p => cases h

/-- A hash that was warmed in capitals is confirmed from the cache while the bulkhead is full. -/
theorem answers_are_backed_when_warmed :
    let c : StellarClient := ⟨"https://horizon",0,⟨5,30000,1⟩,false⟩
    let crates : Crates := ⟨Base64.encode,fun _ => none,⟨fun _ c _ => [c],by simp⟩⟩
    let result : VerificationResult := ⟨.confirmedMatch,some "tx",some (-1),none⟩
    let json : Json.Text := ⟨Json.render,fun text =>
      if text = Json.render result.toJson then some result.toJson else none⟩
    let hash : Unit → String := fun _ =>
      "abababababababababababababababababababababababababababababababab"
    let e : WarmEntry := ⟨"ABABABABABABABABABABABABABABABABABABABABABABABABABABABABABABABAB",
      result,60,1000⟩
    let env : Surroundings := ⟨0,0,0,true,true,true,0,1059⟩
    ∃ made, (Machine.final (step c crates json hash) [.warm [e],.call (),.timeout () env]
        (start 1 (.inMemory (.withMaxSize 10)))).calls.phase () = .returned made result ∧
      Backed c crates json hash [.warm [e],.call (),.timeout () env] () result := by
  intro c crates result json hash e env
  have hanswer : answer ((Machine.final (step c crates json hash)
      [.warm [e],.call (),.timeout () env]
      (start 1 (.inMemory (.withMaxSize 10)))).calls.phase ()) = some result := by
    decide +kernel
  obtain ⟨made,hrun⟩ := answer_eq_some hanswer
  have htext : ∀ e'∈warmed [.warm [e],.call (),.timeout () env],
      json.fromStr (json.toString e'.result.toJson) = some e'.result.toJson := by
    intro e' he'
    have heq : e' = e := by simpa [warmed] using he'
    rw [heq]
    change (if Json.render result.toJson = Json.render result.toJson then some result.toJson
      else none) = some result.toJson
    exact if_pos rfl
  have hbase64 : ∀ bytes, bytes≠[] → crates.base64 bytes≠"" :=
    fun bytes hne hempty => hne (Base64.encode_injective (hempty.trans rfl))
  have hspares : ∀ x∈[.warm [e],.call (),.timeout () env], Event.spares x = true := by
    simp [Event.spares]
  exact ⟨made,hrun,(answers_are_backed c crates json hash hbase64 1 10 _ hspares htext hrun).2⟩

def Event.keeps : Event κ → Bool
  | .other ⟨_,.set (.verification _) _ _⟩ | .other ⟨_,.delete (.verification _)⟩ => false
  | _ => true

def Event.reading : Event κ → Option UInt64
  | .timeout _ env | .other ⟨env,.get _⟩ => some env.nowSecs
  | _ => none

/-- As far as it is in time at `t`, the store holds for a hash what was warmed last. -/
structure Holding (t : UInt64) (log : List WarmEntry) (m : InMemoryCache) : Prop where
  wellFormed : InMemoryCache.WellFormed m
  unlimited : m.maxSize = 0
  holds : ∀ hash, (m.store.lookup (.verification hash)).filter (fun e => e.expiresAt > t) =
    ((lastWarm crates log hash).map fun e => (write crates json e).entry).filter
      (fun e => e.expiresAt > t)

theorem looked_filter {now t : UInt64} (h : now ≤ t) (key k : CacheKey) (o : Option Entry) :
    (InMemoryCache.afterAccess k o (.look now key)).filter (fun e => e.expiresAt > t) =
      o.filter (fun e => e.expiresAt > t) := by
  rw [InMemoryCache.afterAccess]
  split
  · rw [Option.filter_filter]
    congr 1
    funext e
    by_cases he : e.expiresAt > t
    · have hnow : e.expiresAt > now := UInt64.lt_of_le_of_lt h he
      simp [he,hnow]
    · simp [he]
  · rfl

theorem Holding.step {t : UInt64} {log : List WarmEntry} {m : InMemoryCache}
    (h : Holding crates json t log m) {x : Event κ} (hx : x.keeps = true)
    (ht : ∀ now, x.reading = some now → now ≤ t) (s : CachedClient κ) :
    Holding crates json t (log++warmed [x])
      ((x.op crates json hash s).elim m fun op => (InMemoryCache.step op m).2) := by
  have hsame : Holding crates json t (log++[]) m := by
    rw [List.append_nil]
    exact h
  have moved (op : InMemoryCache.Op) (log' : List WarmEntry)
      (hop : ∀ hash, (op.accesses.foldl (InMemoryCache.afterAccess (.verification hash))
          (m.store.lookup (.verification hash))).filter (fun e => e.expiresAt > t) =
        ((lastWarm crates (log++log') hash).map fun e => (write crates json e).entry).filter
          (fun e => e.expiresAt > t)) :
      Holding crates json t (log++log') (InMemoryCache.step op m).2 := by
    refine ⟨(h.wellFormed.step op).1,(h.wellFormed.step op).2.trans h.unlimited,fun hash' => ?_⟩
    rw [InMemoryCache.lookup_step op h.unlimited]
    exact hop hash'
  cases x with
  | call k => exact hsame
  | acquire k => exact hsame
  | drop k => exact hsame
  | send k => exact hsame
  | finish k answer => exact hsame
  | timeout k env =>
    simp only [Event.op]
    split
    · generalize verificationCacheKey crates (hash k) = key
      exact moved _ [] fun hash' => (looked_filter (ht _ rfl) _ _ _).trans (hsame.holds hash')
    · exact hsame
  | warm entries =>
    refine moved _ (warmed [(.warm entries : Event κ)]) fun hash' => ?_
    rw [accesses_warm,warmed_warm,lastWarm_append]
    cases lastWarm crates entries hash' with
    | none => exact h.holds hash'
    | some e => rfl
  | other r =>
    obtain ⟨env,op⟩ := r
    cases op with
    | get key =>
      exact moved _ [] fun hash' => (looked_filter (ht _ rfl) _ _ _).trans (hsame.holds hash')
    | set key value ttl =>
      refine moved _ [] fun hash' => ?_
      cases key with
      | verification hash => cases hx
      | config key => exact hsame.holds hash'
      | events hash => exact hsame.holds hash'
    | delete key =>
      refine moved _ [] fun hash' => ?_
      cases key with
      | verification hash => cases hx
      | config key => exact hsame.holds hash'
      | events hash => exact hsame.holds hash'

def inTime (log : List WarmEntry) (hash : String) (now : UInt64) : Option WarmEntry :=
  (lastWarm crates log hash).filter fun e => now.toNat < (write crates json e).expiry

theorem Holding.looked {log : List WarmEntry} {m : InMemoryCache} {env : Surroundings}
    (h : Holding crates json env.nowSecs log m) {hash : String} (ha : accepted hash = true)
    (htext : ∀ e∈log, json.fromStr (json.toString e.result.toJson) = some e.result.toJson) :
    (cachedResult crates json hash env (some (.inMemory m))).1 =
      (inTime crates json log hash env.nowSecs).map WarmEntry.result := by
  rw [cachedResult_inMemory,verificationCacheKey_accepted crates ha,InMemoryCache.look_value,
    InMemoryCache.afterAccess,if_pos rfl,h.holds,inTime]
  cases hlast : lastWarm crates log hash with
  | none => rfl
  | some e =>
    have hlive : (write crates json e).entry.expiresAt > env.nowSecs ↔
        env.nowSecs.toNat < (write crates json e).expiry := by
      rw [← InMemoryCache.entry_expiresAt]
      exact UInt64.lt_iff_toNat_lt
    rw [Option.map_some,Option.filter_some,Option.filter_some]
    by_cases hin : env.nowSecs.toNat < (write crates json e).expiry
    · rw [if_pos (decide_eq_true (hlive.mpr hin)),if_pos (decide_eq_true hin)]
      have hread : (json.fromStr (write crates json e).entry.value).bind
          VerificationResult.ofJson = some e.result := by
        have htree := htext e (mem_of_lastWarm crates hlast)
        rw [write,InMemoryCache.Write.entry,htree,Option.bind_some]
        exact e.result.ofJson_toJson
      exact hread
    · rw [if_neg (by simpa using fun hgt => hin (hlive.mp hgt)),if_neg (by simpa using hin)]
      rfl

theorem run_holding [DecidableEq κ] (maxConcurrent : UInt32) (t : UInt64) (l : List (Event κ))
    (hkeeps : ∀ x∈l, x.keeps = true) (ht : ∀ x∈l, ∀ now, x.reading = some now → now ≤ t) :
    ∃ m, (Machine.final (CachedClient.step c crates json hash) l
      (start maxConcurrent (.inMemory .new))).cache = some (.inMemory m) ∧
      Holding crates json t (warmed l) m := by
  induction l using List.reverseRecOn with
  | nil => exact ⟨_,rfl,InMemoryCache.wellFormed_withMaxSize 0,rfl,fun hash => rfl⟩
  | append_singleton l x ih =>
    obtain ⟨m,hm,hholding⟩ := ih (fun y hy => hkeeps y (List.mem_append_left _ hy))
      fun y hy => ht y (List.mem_append_left _ hy)
    rw [Machine.final_snoc,warmed_snoc]
    exact ⟨_,cache_step c crates json hash x hm,
      hholding.step crates json hash (hkeeps x (by simp)) (ht x (by simp)) _⟩

/-- While nobody else touches results of verifications, a call that waits in vain is given what was
warmed last for its hash as long as that is in time, and nothing otherwise. -/
theorem timeout_reads_last_warm [DecidableEq κ] (maxConcurrent : UInt32) (l : List (Event κ))
    (hkeeps : ∀ x∈l, x.keeps = true)
    (htext : ∀ e∈warmed l, json.fromStr (json.toString e.result.toJson) = some e.result.toJson)
    {k : κ} {p : Bulkhead.Progress} {env : Surroundings}
    (hclock : ∀ x∈l, ∀ now, x.reading = some now → now ≤ env.nowSecs)
    (hwaiting : (Machine.final (step c crates json hash) l
      (start maxConcurrent (.inMemory .new))).calls.phase k = .waiting p) :
    let s := Machine.final (step c crates json hash) l (start maxConcurrent (.inMemory .new))
    let found := (inTime crates json (warmed l) (hash k) env.nowSecs).map WarmEntry.result
    let after := (step c crates json hash (.timeout k env) s).2.calls.phase k
    after = Bulkhead.next c (.noPermit found) p ∧
      ∀ result, found = some result → (result.verified = true ∨ c.staleCacheOk = true) →
        after = .returned (p.made++[.noPermit found]) result := by
  intro s found after
  have hfaithful := run_faithful c crates json hash (.inMemory .new) maxConcurrent l k
  rw [hwaiting] at hfaithful
  obtain ⟨m,hm,hholding⟩ := run_holding c crates json hash maxConcurrent env.nowSecs l hkeeps hclock
  have hafter : after = Bulkhead.next c (.noPermit found) p := by
    simp only [after,step,s,hwaiting,hm,onCalls,Bulkhead.step]
    rw [hholding.looked crates json hfaithful.1 htext]
    exact Function.update_self _ _ _
  refine ⟨hafter,fun result hfound hok => ?_⟩
  have hserved : c.tryStaleCacheFallback found = some result := by
    rw [StellarClient.tryStaleCacheFallback,hfound,Option.filter_some,if_pos (by simpa using hok)]
  rw [hafter,Bulkhead.next]
  simp only [StellarClient.afterAttempt,hserved]

/-- Without a match to show, the entry is served only where stale answers are allowed. -/
theorem timeout_reads_last_warm_no_match :
    let c : StellarClient := ⟨"https://horizon",0,⟨5,30000,1⟩,true⟩
    let crates : Crates := ⟨Base64.encode,fun _ => none,⟨fun _ c _ => [c],by simp⟩⟩
    let result : VerificationResult := ⟨.noMatch,none,none,some 404⟩
    let json : Json.Text := ⟨Json.render,fun text =>
      if text = Json.render result.toJson then some result.toJson else none⟩
    let hash : Unit → String := fun _ =>
      "abababababababababababababababababababababababababababababababab"
    let e : WarmEntry := ⟨hash (),result,60,1000⟩
    let env : Surroundings := ⟨0,0,0,true,true,true,0,1059⟩
    ∃ made, (step c crates json hash (.timeout () env)
        (Machine.final (step c crates json hash) [.warm [e],.call ()]
          (start 1 (.inMemory .new)))).2.calls.phase () = .returned made result := by
  intro c crates result json hash e env
  obtain ⟨p,hp⟩ := Bulkhead.enter_waiting c (show accepted (hash ()) = true by decide +kernel)
  have htext : ∀ e'∈warmed [.warm [e],(.call () : Event Unit)],
      json.fromStr (json.toString e'.result.toJson) = some e'.result.toJson := by
    intro e' he'
    have heq : e' = e := by simpa [warmed] using he'
    rw [heq]
    change (if Json.render result.toJson = Json.render result.toJson then some result.toJson
      else none) = some result.toJson
    exact if_pos rfl
  have hclock : ∀ x∈[.warm [e],(.call () : Event Unit)], ∀ now, x.reading = some now →
      now ≤ env.nowSecs := by simp [Event.reading]
  have hfound : (inTime crates json (warmed [.warm [e],(.call () : Event Unit)]) (hash ())
      env.nowSecs).map WarmEntry.result = some result := by decide +kernel
  have hwaiting : (Machine.final (step c crates json hash) [.warm [e],.call ()]
      (start 1 (.inMemory .new))).calls.phase () = .waiting p := by
    simp only [Machine.final,step,onCalls,start,Bulkhead.step,Bulkhead.Calls.init,
      Bulkhead.Calls.move,Function.update_self]
    exact hp
  exact ⟨_,(timeout_reads_last_warm c crates json hash 1 [.warm [e],.call ()]
    (by simp [Event.keeps]) htext hclock hwaiting).2 result hfound (Or.inr rfl)⟩

end CachedClient
end ProofStell.Stellar
