import ProofStell.Cache.InMemory
import ProofStell.Lib.Machine
import ProofStell.Lib.Recency

/-! Bulk operations of the in-memory cache. They write or look up one key after the
other like the single operations do, but evict once at the end and broadcast nothing. -/
namespace ProofStell.Cache.InMemoryCache
open Transact

structure Write where
  now : UInt64
  key : CacheKey
  value : String
  ttl : UInt64
  deriving DecidableEq, Repr

def Write.entry (w : Write) : Entry := ⟨w.value,Saturating.add64 w.now w.ttl⟩

def put (w : Write) (c : InMemoryCache) : InMemoryCache :=
  { c with store := c.store.insert w.key w.entry, lruQueue := touch w.key c.lruQueue }

def putAll (entries : List Write) (c : InMemoryCache) : InMemoryCache :=
  entries.foldl (fun c w => put w c) c

/-- The eviction loop of `warm` and `set_batch`, which reports no `Evicted`. -/
def evictSilently (oldest : List CacheKey) (c : InMemoryCache) : InMemoryCache :=
  match oldest with
  | [] => { c with lruQueue := [] }
  | key::older =>
    if c.store.keys.card > c.maxSize then
      evictSilently older { c with
        store := c.store.erase key
        stats := { c.stats with evictions := c.stats.evictions+1 } }
    else { c with lruQueue := (key::older).reverse }

def evictIfOver (c : InMemoryCache) : InMemoryCache :=
  if c.maxSize > 0 then evictSilently c.lruQueue.reverse c else c

def warm (entries : List Write) : Exec InMemoryCache CacheError Nat := fun c =>
  let (loaded,c) := entries.foldl (fun p w => (p.1+1,put w p.2)) (0,c)
  (.ok loaded,evictIfOver c)

def setBatch (entries : List Write) : Exec InMemoryCache CacheError Nat := fun c =>
  (.ok entries.length,evictIfOver (putAll entries c))

def look (now : UInt64) (key : CacheKey) (c : InMemoryCache) : Option String × InMemoryCache :=
  match c.store.lookup key with
  | some entry =>
    if entry.expiresAt > now then
      (some entry.value,{ c with
        lruQueue := touch key c.lruQueue
        stats := { c.stats with hits := c.stats.hits+1 } })
    else
      (none,{ c with
        store := c.store.erase key
        lruQueue := forget key c.lruQueue
        stats := { c.stats with expired := c.stats.expired+1 } })
  | none => (none,{ c with stats := { c.stats with misses := c.stats.misses+1 } })

/-- The clock is read once for all the keys. -/
def getBatch (now : UInt64) (keys : List CacheKey) :
    Exec InMemoryCache CacheError (List (CacheKey × Option String)) := fun c =>
  (.ok (Machine.outputs (look now) keys c),Machine.final (look now) keys c)

def getRaw (now : UInt64) (key : CacheKey) : Exec InMemoryCache CacheError (Option String) := do
  let (value,_) ← getRawWithExpiry now key
  return value

inductive Op where
  | setRaw (w : Write)
  | setBatch (entries : List Write)
  | warm (entries : List Write)
  | getRawWithExpiry (now : UInt64) (key : CacheKey)
  | getBatch (now : UInt64) (keys : List CacheKey)
  | delete (key : CacheKey)
  deriving DecidableEq, Repr

inductive Answer where
  | done (result : Except CacheError Unit)
  | count (result : Except CacheError Nat)
  | value (result : Except CacheError (Option String × Bool))
  | values (result : Except CacheError (List (CacheKey × Option String)))

/-- Every operation holds the locks of store and queue from its first to its last access. -/
def step (op : Op) (c : InMemoryCache) : Answer × InMemoryCache :=
  match op with
  | .setRaw w => (setRaw w.now w.key w.value w.ttl c).map Answer.done id
  | .setBatch entries => (setBatch entries c).map Answer.count id
  | .warm entries => (warm entries c).map Answer.count id
  | .getRawWithExpiry now key => (getRawWithExpiry now key c).map Answer.value id
  | .getBatch now keys => (getBatch now keys c).map Answer.values id
  | .delete key => (delete key c).map Answer.done id

abbrev run (ops : List Op) (c : InMemoryCache) : InMemoryCache := Machine.final step ops c

/-- Queue and store hold the same keys, the queue none of them twice. -/
structure Aligned (c : InMemoryCache) : Prop where
  nodup : c.lruQueue.Nodup
  keys : ∀ k, k∈c.lruQueue ↔ k∈c.store

structure WellFormed (c : InMemoryCache) : Prop extends Aligned c where
  size : 0 < c.maxSize → c.store.keys.card ≤ c.maxSize

theorem card_keys {store : Finmap fun _ : CacheKey => Entry} {l : List CacheKey}
    (hnodup : l.Nodup) (hkeys : ∀ k, k∈l ↔ k∈store) : store.keys.card = l.length := by
  have hset : store.keys = l.toFinset := by
    ext k
    rw [List.mem_toFinset,hkeys,Finmap.mem_keys]
  rw [hset,List.toFinset_card_of_nodup hnodup]

theorem lookup_of_keys {store : Finmap fun _ : CacheKey => Entry} {l : List CacheKey}
    (hkeys : ∀ k, k∈l ↔ k∈store) (k : CacheKey) :
    store.lookup k = if k∈l then store.lookup k else none := by
  split
  · rfl
  · next hk => exact Finmap.lookup_eq_none.mpr fun hs => hk ((hkeys k).mpr hs)

theorem lookup_put (w : Write) (c : InMemoryCache) (k : CacheKey) :
    (put w c).store.lookup k = if k = w.key then some w.entry else c.store.lookup k := by
  rw [put]
  split
  · next hk => rw [hk,Finmap.lookup_insert]
  · next hk => rw [Finmap.lookup_insert_of_ne _ hk]

theorem Aligned.put {c : InMemoryCache} (h : Aligned c) (w : Write) : Aligned (put w c) := by
  refine ⟨Recency.nodup_touch w.key h.nodup,fun k => ?_⟩
  rw [InMemoryCache.put,Finmap.mem_insert,← h.keys]
  exact Recency.mem_touch

theorem Aligned.putAll {c : InMemoryCache} (h : Aligned c) (entries : List Write) :
    Aligned (putAll entries c) := by
  induction entries generalizing c with
  | nil => exact h
  | cons w entries ih => exact ih (h.put w)

theorem putAll_queue (entries : List Write) (c : InMemoryCache) :
    (putAll entries c).lruQueue = Recency.touchAll (entries.map Write.key) c.lruQueue := by
  induction entries generalizing c with
  | nil => rfl
  | cons w entries ih => exact ih (put w c)

/-- `d` is what eviction leaves of `c`: the front of its queue with the entries there. -/
structure Cut (c d : InMemoryCache) : Prop where
  maxSize : d.maxSize = c.maxSize
  queue : d.lruQueue = Recency.bounded c.maxSize c.lruQueue
  lookup : ∀ k, d.store.lookup k = if k∈d.lruQueue then c.store.lookup k else none

/-- The eviction loop on a queue that holds the keys of the store: what it removes, and
what it reports. -/
theorem evictOldest_spec {oldest : List CacheKey} {c : InMemoryCache} (hnodup : oldest.Nodup)
    (hkeys : ∀ k, k∈oldest ↔ k∈c.store) :
    (evictOldest oldest c).maxSize = c.maxSize ∧
      (evictOldest oldest c).lruQueue = (oldest.drop (oldest.length-c.maxSize)).reverse ∧
      (∀ k, (evictOldest oldest c).store.lookup k =
        if k∈oldest.drop (oldest.length-c.maxSize) then c.store.lookup k else none) ∧
      (evictOldest oldest c).sent =
        c.sent++(oldest.take (oldest.length-c.maxSize)).map CacheEvent.evicted := by
  induction oldest generalizing c with
  | nil =>
    simp only [evictOldest,List.drop_nil,List.take_nil,List.map_nil,List.append_nil]
    exact ⟨trivial,rfl,lookup_of_keys hkeys,trivial⟩
  | cons key older ih =>
    have hcard := card_keys hnodup hkeys
    obtain ⟨hkey,holder⟩ := List.nodup_cons.mp hnodup
    rw [List.length_cons] at hcard ⊢
    rw [evictOldest]
    by_cases hover : c.store.keys.card > c.maxSize
    · have hlen : older.length+1-c.maxSize = older.length-c.maxSize+1 := by omega
      have hrest (k : CacheKey) : k∈older ↔ k∈c.store.erase key := by
        rw [Finmap.mem_erase,← hkeys,List.mem_cons]
        refine ⟨fun hk => ⟨fun he => hkey (he ▸ hk),Or.inr hk⟩,fun hk => hk.2.resolve_left hk.1⟩
      obtain ⟨hmax,hqueue,hlook,hsent⟩ := ih (c := { c with
        store := c.store.erase key
        stats := { c.stats with evictions := c.stats.evictions+1 }
        sent := c.sent++[.evicted key] }) holder hrest
      rw [if_pos hover,hlen,List.drop_succ_cons,List.take_succ_cons]
      refine ⟨hmax,hqueue,fun k => ?_,?_⟩
      · rw [hlook]
        refine if_ctx_congr Iff.rfl (fun hk => ?_) fun _ => rfl
        exact Finmap.lookup_erase_ne fun he => hkey (he ▸ List.mem_of_mem_drop hk)
      · rw [hsent]
        simp
    · have hlen : older.length+1-c.maxSize = 0 := by omega
      rw [if_neg hover,hlen]
      exact ⟨rfl,rfl,lookup_of_keys hkeys,by simp⟩

theorem evictSilently_eq (oldest : List CacheKey) (c : InMemoryCache) (sent : List CacheEvent) :
    evictSilently oldest c = { evictOldest oldest { c with sent } with sent := c.sent } := by
  induction oldest generalizing c sent with
  | nil => rfl
  | cons key older ih =>
    rw [evictSilently,evictOldest]
    split
    · exact ih _ _
    · rfl

theorem evictOldest_cut {c : InMemoryCache} (h : Aligned c) (hmax : 0 < c.maxSize) :
    Cut c (evictOldest c.lruQueue.reverse c) := by
  have hspec := evictOldest_spec (c := c) (List.nodup_reverse.mpr h.nodup) fun k => by
    rw [List.mem_reverse,h.keys]
  obtain ⟨hm,hqueue,hlook,-⟩ := hspec
  have hcut : (c.lruQueue.reverse.drop (c.lruQueue.reverse.length-c.maxSize)).reverse =
      Recency.bounded c.maxSize c.lruQueue := by
    rw [List.drop_reverse,List.reverse_reverse,List.length_reverse,Recency.bounded,
      if_neg (Nat.ne_of_gt hmax),List.take_eq_take_iff]
    omega
  rw [hcut] at hqueue
  refine ⟨hm,hqueue,fun k => ?_⟩
  rw [hlook,hqueue,← hcut]
  simp

theorem Aligned.cut_self {c : InMemoryCache} (h : Aligned c)
    (hq : Recency.bounded c.maxSize c.lruQueue = c.lruQueue) : Cut c c :=
  ⟨rfl,hq.symm,lookup_of_keys h.keys⟩

/-- Where `set_raw` stands before its eviction loop. -/
def announce (w : Write) (c : InMemoryCache) : InMemoryCache :=
  { put w c with sent := c.sent++[.updated w.key] }

theorem setRaw_eq (w : Write) (c : InMemoryCache) :
    (setRaw w.now w.key w.value w.ttl c).2 = if c.maxSize > 0 then
      evictOldest (announce w c).lruQueue.reverse (announce w c) else announce w c := rfl

theorem Aligned.announce {c : InMemoryCache} (h : Aligned c) (w : Write) :
    Aligned (announce w c) :=
  ⟨(h.put w).nodup,(h.put w).keys⟩

theorem setRaw_cut {c : InMemoryCache} (h : Aligned c) (w : Write) :
    Cut (put w c) (setRaw w.now w.key w.value w.ttl c).2 := by
  have hcut : Cut (announce w c) (setRaw w.now w.key w.value w.ttl c).2 := by
    rw [setRaw_eq]
    split
    · next hmax => exact evictOldest_cut (h.announce w) hmax
    · next hmax =>
      exact (h.announce w).cut_self (Recency.bounded_eq_self fun hpos => absurd hpos hmax)
  exact ⟨hcut.maxSize,hcut.queue,hcut.lookup⟩

theorem evictIfOver_cut {c : InMemoryCache} (h : Aligned c) : Cut c (evictIfOver c) := by
  rw [evictIfOver]
  split
  · next hmax =>
    rw [evictSilently_eq _ _ c.sent]
    have hcut := evictOldest_cut h hmax
    exact ⟨hcut.maxSize,hcut.queue,hcut.lookup⟩
  · next hmax => exact h.cut_self (Recency.bounded_eq_self fun hpos => absurd hpos hmax)

theorem warm_eq (entries : List Write) (c : InMemoryCache) :
    warm entries c = setBatch entries c := by
  have loop (n : Nat) : entries.foldl (fun p w => (p.1+1,put w p.2)) (n,c) =
      (n+entries.length,putAll entries c) := by
    induction entries generalizing c n with
    | nil => rfl
    | cons w entries ih =>
      rw [List.foldl_cons,ih,List.length_cons,Nat.add_right_comm,Nat.add_assoc]
      rfl
  rw [warm,loop 0,Nat.zero_add]
  rfl

theorem setBatch_cut {c : InMemoryCache} (h : Aligned c) (entries : List Write) :
    Cut (putAll entries c) (setBatch entries c).2 :=
  evictIfOver_cut (h.putAll entries)

theorem Cut.mem_iff {c d : InMemoryCache} (h : Cut c d) (hc : Aligned c) (k : CacheKey) :
    k∈d.lruQueue ↔ k∈d.store := by
  rw [← Finmap.lookup_isSome,h.lookup]
  split
  · next hk =>
    have hold : k∈c.lruQueue := by
      rw [h.queue] at hk
      exact (Recency.bounded_initial _ _).subset hk
    simpa [hk,Finmap.lookup_isSome] using (hc.keys k).mp hold
  · next hk => simp [hk]

theorem Cut.wellFormed {c d : InMemoryCache} (h : Cut c d) (hc : Aligned c) : WellFormed d := by
  have hnodup : d.lruQueue.Nodup := by
    rw [h.queue]
    exact hc.nodup.sublist (Recency.bounded_initial _ _).sublist
  refine ⟨⟨hnodup,h.mem_iff hc⟩,fun hmax => ?_⟩
  rw [card_keys hnodup (h.mem_iff hc),h.queue,h.maxSize]
  rw [h.maxSize] at hmax
  exact Recency.length_bounded hmax _

/-- A lookup finds a live entry, finds an expired one or finds none. -/
theorem look_cases (now : UInt64) (key : CacheKey) (c : InMemoryCache) :
    (∃ e, c.store.lookup key = some e ∧ e.expiresAt > now ∧
      look now key c = (some e.value,{ c with
        lruQueue := touch key c.lruQueue
        stats := { c.stats with hits := c.stats.hits+1 } })) ∨
    (∃ e, c.store.lookup key = some e ∧ e.expiresAt ≤ now ∧
      look now key c = (none,{ c with
        store := c.store.erase key
        lruQueue := forget key c.lruQueue
        stats := { c.stats with expired := c.stats.expired+1 } })) ∨
    (c.store.lookup key = none ∧
      look now key c = (none,{ c with stats := { c.stats with misses := c.stats.misses+1 } })) := by
  cases hl : c.store.lookup key with
  | none =>
    refine Or.inr (Or.inr ⟨rfl,?_⟩)
    simp only [look,hl]
  | some e =>
    by_cases he : e.expiresAt > now
    · refine Or.inl ⟨e,rfl,he,?_⟩
      simp only [look,hl,he,if_true]
    · refine Or.inr (Or.inl ⟨e,rfl,UInt64.not_lt.mp he,?_⟩)
      simp only [look,hl,he,if_false]

def stale (now : UInt64) (key : CacheKey) (c : InMemoryCache) : Bool :=
  (c.store.lookup key).any fun e => e.expiresAt ≤ now

theorem getRawWithExpiry_eq (now : UInt64) (key : CacheKey) (c : InMemoryCache) :
    getRawWithExpiry now key c = (.ok ((look now key c).1,stale now key c),{ (look now key c).2 with
      sent := c.sent++if stale now key c then [.expired key] else [] }) := by
  cases hl : c.store.lookup key with
  | none => simp [getRawWithExpiry,look,stale,hl]
  | some e =>
    by_cases he : e.expiresAt > now
    · simp [getRawWithExpiry,look,stale,hl,he]
    · have hle : e.expiresAt ≤ now := UInt64.not_lt.mp he
      simp [getRawWithExpiry,look,stale,hl,he,hle]

theorem WellFormed.bounded {c : InMemoryCache} (h : WellFormed c) :
    Recency.bounded c.maxSize c.lruQueue = c.lruQueue := by
  refine Recency.bounded_eq_self fun hmax => ?_
  rw [← card_keys h.nodup h.keys]
  exact h.size hmax

theorem WellFormed.touch {c d : InMemoryCache} (h : WellFormed c) {key : CacheKey}
    (hkey : key∈c.store) (hs : d.store = c.store) (hq : d.lruQueue = touch key c.lruQueue)
    (hm : d.maxSize = c.maxSize) : WellFormed d := by
  refine ⟨⟨?_,fun k => ?_⟩,?_⟩
  · rw [hq]
    exact Recency.nodup_touch key h.nodup
  · have htouch : k∈InMemoryCache.touch key c.lruQueue ↔ k = key ∨ k∈c.lruQueue :=
      Recency.mem_touch
    rw [hq,hs,htouch,h.keys]
    exact ⟨fun hk => hk.elim (fun he => he ▸ hkey) id,Or.inr⟩
  · rw [hs,hm]
    exact h.size

theorem WellFormed.forget {c d : InMemoryCache} (h : WellFormed c) {key : CacheKey}
    (hs : d.store = c.store.erase key) (hq : d.lruQueue = forget key c.lruQueue)
    (hm : d.maxSize = c.maxSize) : WellFormed d := by
  refine ⟨⟨?_,fun k => ?_⟩,fun hmax => ?_⟩
  · rw [hq]
    exact h.nodup.filter _
  · rw [hq,hs,InMemoryCache.forget,List.mem_filter,Finmap.mem_erase,h.keys]
    simp [and_comm]
  · rw [hs,hm]
    rw [hm] at hmax
    refine le_trans (Finset.card_le_card fun k hk => ?_) (h.size hmax)
    rw [Finmap.mem_keys] at hk ⊢
    exact (Finmap.mem_erase.mp hk).2

theorem WellFormed.of_eq {c d : InMemoryCache} (h : WellFormed c) (hs : d.store = c.store)
    (hq : d.lruQueue = c.lruQueue) (hm : d.maxSize = c.maxSize) : WellFormed d := by
  refine ⟨⟨?_,?_⟩,?_⟩
  · rw [hq]
    exact h.nodup
  · rw [hq,hs]
    exact h.keys
  · rw [hs,hm]
    exact h.size

theorem look_maxSize (now : UInt64) (key : CacheKey) (c : InMemoryCache) :
    (look now key c).2.maxSize = c.maxSize := by
  obtain ⟨e,-,-,heq⟩ | ⟨e,-,-,heq⟩ | ⟨-,heq⟩ := look_cases now key c <;> rw [heq]

theorem WellFormed.look {c : InMemoryCache} (h : WellFormed c) (now : UInt64) (key : CacheKey) :
    WellFormed (look now key c).2 := by
  obtain ⟨e,he,-,heq⟩ | ⟨e,-,-,heq⟩ | ⟨-,heq⟩ := look_cases now key c
  · rw [heq]
    exact h.touch (Finmap.mem_of_lookup_eq_some he) rfl rfl rfl
  · rw [heq]
    exact h.forget rfl rfl rfl
  · rw [heq]
    exact h.of_eq rfl rfl rfl

theorem WellFormed.getBatch {c : InMemoryCache} (h : WellFormed c) (now : UInt64)
    (keys : List CacheKey) :
    WellFormed (getBatch now keys c).2 ∧ (getBatch now keys c).2.maxSize = c.maxSize :=
  Machine.final_invariant (P := fun d => WellFormed d ∧ d.maxSize = c.maxSize)
    (fun key d hd => ⟨hd.1.look now key,(look_maxSize now key d).trans hd.2⟩) keys c ⟨h,rfl⟩

theorem putAll_maxSize (entries : List Write) (c : InMemoryCache) :
    (putAll entries c).maxSize = c.maxSize := by
  induction entries generalizing c with
  | nil => rfl
  | cons w entries ih => exact ih (put w c)

theorem WellFormed.step {c : InMemoryCache} (h : WellFormed c) (op : Op) :
    WellFormed (step op c).2 ∧ (step op c).2.maxSize = c.maxSize := by
  have hbatch (entries : List Write) : WellFormed (setBatch entries c).2 ∧
      (setBatch entries c).2.maxSize = c.maxSize := by
    have hcut := setBatch_cut h.toAligned entries
    exact ⟨hcut.wellFormed (h.toAligned.putAll entries),
      hcut.maxSize.trans (putAll_maxSize entries c)⟩
  cases op with
  | setRaw w =>
    have hcut := setRaw_cut h.toAligned w
    exact ⟨hcut.wellFormed (h.toAligned.put w),hcut.maxSize⟩
  | setBatch entries => exact hbatch entries
  | warm entries =>
    rw [InMemoryCache.step,warm_eq]
    exact hbatch entries
  | getRawWithExpiry now key =>
    rw [InMemoryCache.step,getRawWithExpiry_eq]
    exact ⟨(h.look now key).of_eq rfl rfl rfl,look_maxSize now key c⟩
  | getBatch now keys => exact h.getBatch now keys
  | delete key => exact ⟨h.forget rfl rfl rfl,rfl⟩

theorem wellFormed_withMaxSize (maxSize : Nat) : WellFormed (withMaxSize maxSize) := by
  refine ⟨⟨List.nodup_nil,fun k => ?_⟩,fun _ => ?_⟩
  · simp [withMaxSize,Finmap.notMem_empty]
  · simp [withMaxSize]

theorem run_wellFormed (maxSize : Nat) (ops : List Op) :
    WellFormed (run ops (withMaxSize maxSize)) ∧
      (run ops (withMaxSize maxSize)).maxSize = maxSize :=
  Machine.final_invariant (P := fun d => WellFormed d ∧ d.maxSize = maxSize)
    (fun op _ hd => ⟨(hd.1.step op).1,(hd.1.step op).2.trans hd.2⟩) ops _
    ⟨wellFormed_withMaxSize maxSize,rfl⟩

/-- In every reachable state queue and store hold the same keys, within the limit. -/
theorem queue_matches_store (maxSize : Nat) (ops : List Op) :
    WellFormed (run ops new) ∧ WellFormed (run ops (withMaxSize maxSize)) ∧
      (0 < maxSize → (run ops (withMaxSize maxSize)).store.keys.card ≤ maxSize) := by
  obtain ⟨hwell,hmax⟩ := run_wellFormed maxSize ops
  refine ⟨(run_wellFormed 0 ops).1,hwell,fun hpos => ?_⟩
  have hsize := hwell.size
  rw [hmax] at hsize
  exact hsize hpos

/-- Cutting once more behind a cut changes nothing: what an early cut took away would not
have survived the late one. -/
theorem Cut.setRaw {c d : InMemoryCache} (h : Cut c d) (hc : Aligned c) (w : Write) :
    Cut (put w c) (setRaw w.now w.key w.value w.ttl d).2 := by
  have hd := setRaw_cut (h.wellFormed hc).toAligned w
  have hqueue : (InMemoryCache.setRaw w.now w.key w.value w.ttl d).2.lruQueue =
      Recency.bounded c.maxSize (Recency.touch w.key c.lruQueue) := by
    rw [hd.queue,← Recency.bounded_touch_bounded _ _ hc.nodup,← h.queue,← h.maxSize]
    rfl
  refine ⟨hd.maxSize.trans h.maxSize,hqueue,fun k => ?_⟩
  rw [hd.lookup]
  refine if_ctx_congr Iff.rfl (fun hk => ?_) fun _ => rfl
  rw [hd.queue] at hk
  rw [lookup_put,lookup_put]
  refine if_ctx_congr Iff.rfl (fun _ => rfl) fun hkey => ?_
  have hold := Recency.mem_touch.mp ((Recency.bounded_initial _ _).subset hk)
  rw [h.lookup,if_pos (hold.resolve_left hkey)]

def setEach (entries : List Write) (c : InMemoryCache) : InMemoryCache :=
  Machine.final (fun w => setRaw w.now w.key w.value w.ttl) entries c

theorem Cut.setEach {c d : InMemoryCache} (h : Cut c d) (hc : Aligned c) (entries : List Write) :
    Cut (putAll entries c) (setEach entries d) := by
  induction entries generalizing c d with
  | nil => exact h
  | cons w entries ih => exact ih (h.setRaw hc w) (hc.put w)

theorem Cut.unique {c d e : InMemoryCache} (hd : Cut c d) (he : Cut c e) :
    d.store = e.store ∧ d.lruQueue = e.lruQueue := by
  have hqueue : d.lruQueue = e.lruQueue := by rw [hd.queue,he.queue]
  refine ⟨Finmap.ext_lookup fun k => ?_,hqueue⟩
  rw [hd.lookup,he.lookup,hqueue]

theorem setBatch_eq_setEach {c : InMemoryCache} (h : WellFormed c) (entries : List Write) :
    (setBatch entries c).2.store = (setEach entries c).store ∧
      (setBatch entries c).2.lruQueue = (setEach entries c).lruQueue :=
  (setBatch_cut h.toAligned entries).unique
    ((h.toAligned.cut_self h.bounded).setEach h.toAligned entries)

def quiet (c : InMemoryCache) : InMemoryCache := { c with sent := [] }

theorem look_quiet (now : UInt64) (key : CacheKey) (c : InMemoryCache) :
    look now key (quiet c) = ((look now key c).1,quiet (look now key c).2) := by
  rw [look,look,quiet]
  dsimp only
  split
  · split <;> rfl
  · rfl

theorem getRaw_eq (now : UInt64) (key : CacheKey) (c : InMemoryCache) :
    (getRaw now key c).1 = .ok (look now key c).1 ∧
      quiet (getRaw now key c).2 = quiet (look now key c).2 := by
  rw [getRaw,Exec.bind_apply,getRawWithExpiry_eq]
  exact ⟨rfl,rfl⟩

/-- The values of the bulk lookup are those of the single ones, and so is what it leaves. -/
theorem look_each (now : UInt64) (keys : List CacheKey) {c d : InMemoryCache}
    (h : quiet c = quiet d) :
    Machine.outputs (getRaw now) keys d =
        (Machine.outputs (look now) keys c).map (Prod.map id Except.ok) ∧
      quiet (Machine.final (look now) keys c) = quiet (Machine.final (getRaw now) keys d) := by
  induction keys generalizing c d with
  | nil => exact ⟨rfl,h⟩
  | cons key keys ih =>
    obtain ⟨hvalue,hleft⟩ := getRaw_eq now key d
    have hc := look_quiet now key c
    rw [h,look_quiet,Prod.mk.injEq] at hc
    obtain ⟨houts,hfinal⟩ := ih (hc.2.symm.trans hleft.symm)
    refine ⟨?_,hfinal⟩
    simp only [Machine.outputs,hvalue,houts,hc.1,List.map_cons,Prod.map,id]

/-- From every reachable state the bulk operations come to the same as the single ones for
one entry or key after the other. -/
theorem bulk_agrees_with_single (maxSize : Nat) (ops : List Op) (entries : List Write)
    (now : UInt64) (keys : List CacheKey) :
    let c := run ops (withMaxSize maxSize)
    (((setBatch entries c).2.store = (setEach entries c).store ∧
      (setBatch entries c).2.lruQueue = (setEach entries c).lruQueue) ∧
    (warm entries c).2.store = (setEach entries c).store ∧
      (warm entries c).2.lruQueue = (setEach entries c).lruQueue) ∧
    ∃ values, (getBatch now keys c).1 = .ok values ∧
      Machine.outputs (getRaw now) keys c = values.map (Prod.map id Except.ok) ∧
      (getBatch now keys c).2.store = (Machine.final (getRaw now) keys c).store ∧
      (getBatch now keys c).2.lruQueue = (Machine.final (getRaw now) keys c).lruQueue ∧
      (getBatch now keys c).2.stats = (Machine.final (getRaw now) keys c).stats := by
  intro c
  obtain ⟨hwell,-⟩ := run_wellFormed maxSize ops
  have hset := setBatch_eq_setEach hwell entries
  obtain ⟨houts,hfinal⟩ := look_each now keys (c := c) rfl
  refine ⟨⟨hset,?_⟩,_,rfl,houts,?_⟩
  · rw [warm_eq]
    exact hset
  · simp only [quiet,InMemoryCache.mk.injEq] at hfinal
    exact ⟨hfinal.1,hfinal.2.1,hfinal.2.2.2.1⟩

end ProofStell.Cache.InMemoryCache
