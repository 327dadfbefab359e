import ProofStell.Cache.Bulk
import ProofStell.Lib.Float64

/-! The counters of the in-memory cache against its history: what was written, dropped and
looked up, and what `stats` exports of it. -/
namespace ProofStell.Cache
open Transact

namespace InMemoryCache

def newKeys : List Write → InMemoryCache → Nat
  | [], _ => 0
  | w::entries, c => (if (c.store.lookup w.key).isSome then 0 else 1)+newKeys entries (put w c)

def insertions : Op → InMemoryCache → Nat
  | .setRaw w, c => newKeys [w] c
  | .setBatch entries, c | .warm entries, c => newKeys entries c
  | .getRawWithExpiry _ _, _ | .getBatch _ _, _ | .delete _, _ => 0

def deletions : Op → InMemoryCache → Nat
  | .delete key, c => if (c.store.lookup key).isSome then 1 else 0
  | _, _ => 0

def lookups : Op → InMemoryCache → Nat
  | .getRawWithExpiry _ _, _ => 1
  | .getBatch _ keys, _ => keys.length
  | _, _ => 0

/-- The entries there are and those that were evicted or found expired. -/
def population (c : InMemoryCache) : Nat :=
  c.store.keys.card+c.stats.evictions+c.stats.expired

def answered (c : InMemoryCache) : Nat := c.stats.hits+c.stats.misses+c.stats.expired

theorem card_erase {store : Finmap fun _ : CacheKey => Entry} {key : CacheKey}
    (h : key∈store) : (store.erase key).keys.card+1 = store.keys.card := by
  have hkeys : (store.erase key).keys = store.keys.erase key := by
    ext k
    rw [Finmap.mem_keys,Finmap.mem_erase,Finset.mem_erase,Finmap.mem_keys]
  rw [hkeys,Finset.card_erase_add_one (Finmap.mem_keys.mpr h)]

theorem card_insert (store : Finmap fun _ : CacheKey => Entry) (key : CacheKey) (e : Entry) :
    (store.insert key e).keys.card =
      store.keys.card+if (store.lookup key).isSome then 0 else 1 := by
  have hkeys : (store.insert key e).keys = insert key store.keys := by
    ext k
    rw [Finmap.mem_keys,Finmap.mem_insert,Finset.mem_insert,Finmap.mem_keys]
  have hmem : key∈store.keys ↔ (store.lookup key).isSome = true := by
    rw [Finmap.mem_keys,Finmap.lookup_isSome]
  rw [hkeys,Finset.card_insert_eq_ite]
  split
  · next h => rw [if_pos (hmem.mp h)]; rfl
  · next h => rw [if_neg fun hs => h (hmem.mpr hs)]

theorem putAll_counts (entries : List Write) (c : InMemoryCache) :
    population (putAll entries c) = population c+newKeys entries c ∧
      (putAll entries c).stats = c.stats := by
  induction entries generalizing c with
  | nil => exact ⟨rfl,rfl⟩
  | cons w entries ih =>
    obtain ⟨hpop,hstats⟩ := ih (put w c)
    refine ⟨?_,hstats⟩
    rw [putAll,List.foldl_cons,← putAll,hpop]
    simp only [population,newKeys,put,card_insert]
    omega

theorem evictOldest_counts {oldest : List CacheKey} {c : InMemoryCache} (hnodup : oldest.Nodup)
    (hkeys : ∀ k∈oldest, k∈c.store) :
    population (evictOldest oldest c) = population c ∧
      answered (evictOldest oldest c) = answered c := by
  induction oldest generalizing c with
  | nil => exact ⟨rfl,rfl⟩
  | cons key older ih =>
    obtain ⟨hkey,holder⟩ := List.nodup_cons.mp hnodup
    rw [evictOldest]
    split
    · obtain ⟨hpop,hans⟩ := ih (c := { c with
        store := c.store.erase key
        stats := { c.stats with evictions := c.stats.evictions+1 }
        sent := c.sent++[.evicted key] }) holder fun k hk => Finmap.mem_erase.mpr
          ⟨fun he => hkey (he ▸ hk),hkeys k (List.mem_cons_of_mem key hk)⟩
      have hcard := card_erase (hkeys key List.mem_cons_self)
      refine ⟨hpop.trans ?_,hans⟩
      simp only [population]
      omega
    · exact ⟨rfl,rfl⟩

theorem evict_counts {c : InMemoryCache} (h : Aligned c) :
    population (evictOldest c.lruQueue.reverse c) = population c ∧
      answered (evictOldest c.lruQueue.reverse c) = answered c :=
  evictOldest_counts (List.nodup_reverse.mpr h.nodup)
    fun k hk => (h.keys k).mp (List.mem_reverse.mp hk)

theorem setBatch_counts {c : InMemoryCache} (h : Aligned c) (entries : List Write) :
    population (setBatch entries c).2 = population c+newKeys entries c ∧
      answered (setBatch entries c).2 = answered c := by
  obtain ⟨hpop,hstats⟩ := putAll_counts entries c
  have hans : answered (putAll entries c) = answered c := by rw [answered,hstats,answered]
  rw [setBatch,evictIfOver]
  split
  · rw [evictSilently_eq _ _ (putAll entries c).sent]
    obtain ⟨hevict,hkeep⟩ := evict_counts (h.putAll entries)
    exact ⟨hevict.trans hpop,hkeep.trans hans⟩
  · exact ⟨hpop,hans⟩

theorem setRaw_counts {c : InMemoryCache} (h : Aligned c) (w : Write) :
    population (setRaw w.now w.key w.value w.ttl c).2 = population c+newKeys [w] c ∧
      answered (setRaw w.now w.key w.value w.ttl c).2 = answered c := by
  have hpop : population (announce w c) = population c+newKeys [w] c := (putAll_counts [w] c).1
  rw [setRaw_eq]
  split
  · obtain ⟨hevict,hkeep⟩ := evict_counts (h.announce w)
    exact ⟨hevict.trans hpop,hkeep⟩
  · exact ⟨hpop,rfl⟩

theorem look_counts (now : UInt64) (key : CacheKey) (c : InMemoryCache) :
    population (look now key c).2 = population c ∧
      answered (look now key c).2 = answered c+1 := by
  obtain ⟨e,_,_,heq⟩ | ⟨e,he,_,heq⟩ | ⟨_,heq⟩ := look_cases now key c
  · rw [heq]
    refine ⟨rfl,?_⟩
    simp only [answered]
    omega
  · have hcard := card_erase (Finmap.mem_of_lookup_eq_some he)
    rw [heq]
    simp only [population,answered]
    omega
  · rw [heq]
    refine ⟨rfl,?_⟩
    simp only [answered]
    omega

theorem getBatch_counts (now : UInt64) (keys : List CacheKey) (c : InMemoryCache) :
    population (getBatch now keys c).2 = population c ∧
      answered (getBatch now keys c).2 = answered c+keys.length := by
  simp only [getBatch]
  induction keys generalizing c with
  | nil => exact ⟨rfl,rfl⟩
  | cons key keys ih =>
    obtain ⟨hpop,hans⟩ := look_counts now key c
    obtain ⟨hpops,hanss⟩ := ih (look now key c).2
    refine ⟨hpops.trans hpop,?_⟩
    rw [Machine.final,List.length_cons,hanss]
    omega

theorem delete_counts (key : CacheKey) (c : InMemoryCache) :
    population (delete key c).2+deletions (.delete key) c = population c ∧
      answered (delete key c).2 = answered c := by
  refine ⟨?_,rfl⟩
  rw [deletions]
  split
  · next h =>
    have hcard := card_erase (Finmap.lookup_isSome.mp h)
    simp only [delete,Exec.write,population]
    omega
  · next h =>
    have habsent : key∉c.store := fun hs => h (Finmap.lookup_isSome.mpr hs)
    have hsame : (c.store.erase key).keys = c.store.keys := by
      ext k
      rw [Finmap.mem_keys,Finmap.mem_erase,Finmap.mem_keys]
      exact ⟨And.right,fun hk => ⟨fun he => habsent (he ▸ hk),hk⟩⟩
    simp only [delete,Exec.write,population,hsame,Nat.add_zero]

theorem step_counts {c : InMemoryCache} (h : WellFormed c) (op : Op) :
    population (step op c).2+deletions op c = population c+insertions op c ∧
      answered (step op c).2+0 = answered c+lookups op c := by
  cases op with
  | setRaw w => exact setRaw_counts h.toAligned w
  | setBatch entries => exact setBatch_counts h.toAligned entries
  | warm entries =>
    rw [step,warm_eq]
    exact setBatch_counts h.toAligned entries
  | getRawWithExpiry now key =>
    rw [step,getRawWithExpiry_eq]
    exact look_counts now key c
  | getBatch now keys => exact getBatch_counts now keys c
  | delete key => exact delete_counts key c

/-- In every reachable state the store holds what was inserted and neither evicted, expired nor
deleted since, and every lookup was a hit, a miss or an expiry. -/
theorem stats_balance (maxSize : Nat) (ops : List Op) :
    let c := run ops (withMaxSize maxSize)
    (c.store.keys.card : Int) = Machine.total step insertions ops (withMaxSize maxSize)-
        c.stats.evictions-c.stats.expired-Machine.total step deletions ops (withMaxSize maxSize) ∧
      c.stats.hits+c.stats.misses+c.stats.expired =
        Machine.total step lookups ops (withMaxSize maxSize) := by
  intro c
  have hinv : ∀ op s, WellFormed s → WellFormed (step op s).2 := fun op s hs => (hs.step op).1
  have hpop := Machine.total_balance population insertions deletions hinv
    (fun op s hs => (step_counts hs op).1) ops (wellFormed_withMaxSize maxSize)
  have hans := Machine.total_balance answered lookups (fun _ _ => 0) hinv
    (fun op s hs => (step_counts hs op).2) ops (wellFormed_withMaxSize maxSize)
  have hstart : population (withMaxSize maxSize) = 0 := rfl
  have hstart' : answered (withMaxSize maxSize) = 0 := rfl
  change population c+_ = _ at hpop
  change answered c+_ = _ at hans
  rw [hstart,population] at hpop
  rw [hstart',Machine.total_zero,answered] at hans
  omega

end InMemoryCache

def CacheStats.hitRate (s : CacheStats) : ℚ :=
  let total := s.hits+s.misses
  if total = 0 then 0 else Float64.div (Float64.fl s.hits) (Float64.fl total)

structure CacheStatsSnapshot where
  hits : Nat
  misses : Nat
  evictions : Nat
  expired : Nat
  hitRate : ℚ
  currentSize : Nat
  maxSize : Nat

structure CacheMetrics where
  cacheSize : ℚ
  cacheHitRate : ℚ
  cacheEvictions : Nat

namespace CacheMetrics

def new : CacheMetrics := ⟨0,0,0⟩

def setCacheSize (size : Nat) (m : CacheMetrics) : CacheMetrics :=
  { m with cacheSize := Float64.fl size }

def setCacheHitRate (rate : ℚ) (m : CacheMetrics) : CacheMetrics := { m with cacheHitRate := rate }

def incrementCacheEvictionsBy (count : Nat) (m : CacheMetrics) : CacheMetrics :=
  { m with cacheEvictions := m.cacheEvictions+count }

end CacheMetrics

structure MeteredCache where
  cache : InMemoryCache
  metrics : Option CacheMetrics

namespace MeteredCache
open InMemoryCache

def stats (s : MeteredCache) : CacheStatsSnapshot × MeteredCache :=
  let stats := s.cache.stats
  let snapshot : CacheStatsSnapshot := ⟨stats.hits,stats.misses,stats.evictions,stats.expired,
    stats.hitRate,s.cache.store.keys.card,s.cache.maxSize⟩
  (snapshot,{ s with metrics := s.metrics.map fun m =>
    ((m.setCacheSize snapshot.currentSize).setCacheHitRate snapshot.hitRate)
      |>.incrementCacheEvictionsBy stats.evictions })

inductive Call where
  | op (op : Op)
  | stats
  deriving DecidableEq

def step : Call → MeteredCache → (Answer ⊕ CacheStatsSnapshot) × MeteredCache
  | .op op, s => (.inl (InMemoryCache.step op s.cache).1,
      { s with cache := (InMemoryCache.step op s.cache).2 })
  | .stats, s => (.inr s.stats.1,s.stats.2)

def start (maxSize : Nat) : MeteredCache := ⟨withMaxSize maxSize,some .new⟩

/-- Entries that the writes have put into the store, or left there, and that are gone after
the eviction loop. -/
def dropped (op : Op) (entries : List Write) (c : InMemoryCache) : Nat :=
  ((putAll entries c).store.keys \ (InMemoryCache.step op c).2.store.keys).card

def evicted : Call → MeteredCache → Nat
  | .op (.setRaw w), s => dropped (.setRaw w) [w] s.cache
  | .op (.setBatch entries), s => dropped (.setBatch entries) entries s.cache
  | .op (.warm entries), s => dropped (.warm entries) entries s.cache
  | .op (.getRawWithExpiry _ _), _ | .op (.getBatch _ _), _ | .op (.delete _), _ => 0
  | .stats, _ => 0

def exported (s : MeteredCache) : Option Nat := s.metrics.map CacheMetrics.cacheEvictions

theorem evictOldest_expired (oldest : List CacheKey) (c : InMemoryCache) :
    (evictOldest oldest c).stats.expired = c.stats.expired := by
  induction oldest generalizing c with
  | nil => rfl
  | cons key older ih =>
    rw [evictOldest]
    split
    · exact ih _
    · rfl

/-- What eviction takes from the store it adds to its counter. -/
theorem evictions_of_cut {c d e : InMemoryCache} (hcut : Cut c d)
    (hpop : population d = population c) (hexpired : d.stats.expired = c.stats.expired)
    (hstats : c.stats = e.stats) :
    d.stats.evictions = e.stats.evictions+(c.store.keys \ d.store.keys).card := by
  have hsub : d.store.keys ⊆ c.store.keys := by
    intro k hk
    rw [Finmap.mem_keys,← Finmap.lookup_isSome,hcut.lookup] at hk
    rw [Finmap.mem_keys,← Finmap.lookup_isSome]
    split at hk
    · exact hk
    · cases hk
  have hle := Finset.card_le_card hsub
  rw [Finset.card_sdiff_of_subset hsub,← hstats]
  rw [population,population,hexpired] at hpop
  omega

theorem setBatch_evictions {c : InMemoryCache} (h : Aligned c) (entries : List Write) :
    (setBatch entries c).2.stats.evictions = c.stats.evictions+
      ((putAll entries c).store.keys \ (setBatch entries c).2.store.keys).card := by
  obtain ⟨hpop,hstats⟩ := putAll_counts entries c
  refine evictions_of_cut (setBatch_cut h entries)
    ((setBatch_counts h entries).1.trans hpop.symm) ?_ hstats
  rw [setBatch,evictIfOver]
  split
  · rw [evictSilently_eq _ _ (putAll entries c).sent]
    exact evictOldest_expired _ _
  · rfl

theorem setRaw_evictions {c : InMemoryCache} (h : Aligned c) (w : Write) :
    (setRaw w.now w.key w.value w.ttl c).2.stats.evictions = c.stats.evictions+
      ((putAll [w] c).store.keys \ (setRaw w.now w.key w.value w.ttl c).2.store.keys).card := by
  obtain ⟨hpop,hstats⟩ := putAll_counts [w] c
  refine evictions_of_cut (setRaw_cut h w) ((setRaw_counts h w).1.trans hpop.symm) ?_ hstats
  rw [setRaw_eq]
  split
  · exact evictOldest_expired _ _
  · rfl

theorem look_evictions (now : UInt64) (key : CacheKey) (c : InMemoryCache) :
    (look now key c).2.stats.evictions = c.stats.evictions := by
  obtain ⟨e,_,_,heq⟩ | ⟨e,_,_,heq⟩ | ⟨_,heq⟩ := look_cases now key c <;> rw [heq]

theorem step_evictions {s : MeteredCache} (h : WellFormed s.cache) (call : Call) :
    (step call s).2.cache.stats.evictions+0 = s.cache.stats.evictions+evicted call s := by
  cases call with
  | stats => rfl
  | op op =>
    cases op with
    | setRaw w => exact setRaw_evictions h.toAligned w
    | setBatch entries => exact setBatch_evictions h.toAligned entries
    | warm entries =>
      simp only [step,InMemoryCache.step,evicted,dropped,warm_eq]
      exact setBatch_evictions h.toAligned entries
    | getRawWithExpiry now key =>
      simp only [step,InMemoryCache.step,evicted,getRawWithExpiry_eq]
      exact look_evictions now key s.cache
    | getBatch now keys =>
      exact Machine.final_invariant (P := fun d => d.stats.evictions = s.cache.stats.evictions)
        (fun key d hd => (look_evictions now key d).trans hd) keys s.cache rfl
    | delete key => rfl

theorem step_wellFormed {s : MeteredCache} (h : WellFormed s.cache) (call : Call) :
    WellFormed (step call s).2.cache := by
  cases call with
  | stats => exact h
  | op op => exact (h.step op).1

abbrev evictedIn (maxSize : Nat) (calls : List Call) : Nat :=
  Machine.total step evicted calls (start maxSize)

theorem evictions_eq_evictedIn (maxSize : Nat) (calls : List Call) :
    (Machine.final step calls (start maxSize)).cache.stats.evictions = evictedIn maxSize calls := by
  have hbalance := Machine.total_balance (I := fun s : MeteredCache => WellFormed s.cache)
    (fun s => s.cache.stats.evictions) evicted (fun _ _ => 0)
    (fun call s hs => step_wellFormed hs call) (fun call s hs => step_evictions hs call) calls
    (s := start maxSize) (wellFormed_withMaxSize maxSize)
  have hnone : (start maxSize).cache.stats.evictions = 0 := rfl
  rwa [Machine.total_zero,hnone,Nat.add_zero,Nat.zero_add] at hbalance

theorem exported_stats {maxSize : Nat} {calls : List Call} {n : Nat}
    (h : exported (Machine.final step calls (start maxSize)) = some n) :
    exported (Machine.final step (calls++[.stats]) (start maxSize)) =
      some (n+evictedIn maxSize calls) := by
  have hcounter (s : MeteredCache) :
      exported (step .stats s).2 = (exported s).map (· +s.cache.stats.evictions) := by
    rw [exported,exported,Option.map_map]
    exact Option.map_map _ _ _
  rw [Machine.final_snoc,hcounter,h,evictions_eq_evictedIn,Option.map_some]

theorem evictedIn_stats (maxSize : Nat) (calls : List Call) :
    evictedIn maxSize (calls++[.stats]) = evictedIn maxSize calls := by
  rw [evictedIn,Machine.total_append]
  rfl

/-- The counter after a run: at least the evictions before each of its `stats` calls, and
nothing when there were none. -/
theorem exported_run (maxSize : Nat) (calls : List Call) :
    ∃ n, exported (Machine.final step calls (start maxSize)) = some n ∧
      (∀ p q, calls = p++.stats::q → evictedIn maxSize p ≤ n) ∧
      ((∀ p q, calls = p++.stats::q → evictedIn maxSize p = 0) → n = 0) := by
  induction calls using List.reverseRecOn with
  | nil => exact ⟨0,rfl,fun p q h => by simp at h,fun _ => rfl⟩
  | append_singleton calls call ih =>
    obtain ⟨n,hn,hle,hzero⟩ := ih
    cases call with
    | op op =>
      refine ⟨n,?_,fun p q h => ?_,fun hnone => hzero fun p q h => ?_⟩
      · rw [Machine.final_snoc]
        exact hn
      · obtain ⟨_,hcall,_⟩ | ⟨q',_,hcalls⟩ := Recency.snoc_eq_split h
        · cases hcall
        · exact hle p q' hcalls
      · exact hnone p (q++[.op op]) (by rw [h,List.append_assoc,List.cons_append])
    | stats =>
      refine ⟨_,exported_stats hn,fun p q h => ?_,fun hnone => ?_⟩
      · obtain ⟨rfl,_,_⟩ | ⟨q',_,hcalls⟩ := Recency.snoc_eq_split h
        · omega
        · have := hle p q' hcalls
          omega
      · have hlast := hnone calls [] rfl
        have hbefore := hzero fun p q h =>
          hnone p (q++[.stats]) (by rw [h,List.append_assoc,List.cons_append])
        omega

/-- After every `stats` call of the run the exported counter is the number of evictions. -/
def EvictionsExact (maxSize : Nat) (calls : List Call) : Prop :=
  ∀ p r, calls = p++.stats::r → exported (Machine.final step (p++[.stats]) (start maxSize)) =
    some (evictedIn maxSize (p++[.stats]))

/-- The counter is exact as long as no `stats` call that comes after an eviction is followed by
another one, which would count the eviction again. -/
theorem evictions_exact_iff (maxSize : Nat) (calls : List Call) :
    EvictionsExact maxSize calls ↔
      ∀ p q r, calls = p++.stats::(q++.stats::r) → evictedIn maxSize p = 0 := by
  constructor
  · intro hexact p q r hcalls
    obtain ⟨n,hn,hle,_⟩ := exported_run maxSize (p++.stats::q)
    have hsecond := hexact (p++.stats::q) r (by rw [hcalls,List.append_assoc,List.cons_append])
    rw [exported_stats hn,evictedIn_stats,Option.some.injEq] at hsecond
    have hfirst := hle p q rfl
    omega
  · intro hquiet p r hcalls
    obtain ⟨n,hn,_,hzero⟩ := exported_run maxSize p
    have hnone : n = 0 := hzero fun p' q hp =>
      hquiet p' q r (by rw [hcalls,hp,List.append_assoc,List.cons_append])
    rw [exported_stats hn,evictedIn_stats,hnone,Nat.zero_add]

/-- A cache of one entry evicts one, and two `stats` calls export it twice. -/
theorem eviction_exported_twice :
    let write : String → Call := fun key => .op (.setRaw ⟨0,.config key,"",60⟩)
    let calls := [write "a",write "b",.stats,.stats]
    exported (Machine.final step calls (start 1)) = some 2 ∧ evictedIn 1 calls = 1 ∧
      ¬EvictionsExact 1 calls := by
  intro write calls
  have htwo : exported (Machine.final step calls (start 1)) = some 2 := by decide +kernel
  have hone : evictedIn 1 calls = 1 := by decide +kernel
  refine ⟨htwo,hone,fun hexact => ?_⟩
  have hlast := hexact [write "a",write "b",.stats] [] rfl
  change exported (Machine.final step calls (start 1)) = some (evictedIn 1 calls) at hlast
  rw [htwo,hone] at hlast
  exact absurd hlast (by decide)

end MeteredCache
end ProofStell.Cache
