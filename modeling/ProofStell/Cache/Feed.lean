import ProofStell.Cache.TtlMap

/-! What a subscriber learns about the keys of the cache from the events it receives. -/
namespace ProofStell.Cache.InMemoryCache
open Transact

def applyEvent (keys : Finset CacheKey) : CacheEvent → Finset CacheKey
  | .updated key => insert key keys
  | .evicted key => keys.erase key
  | .expired key => keys.erase key
  | .deleted key => keys.erase key

/-- The keys in the eyes of a subscriber from the start that has missed nothing. -/
def feed (events : List CacheEvent) : Finset CacheKey := events.foldl applyEvent ∅

def Faithful (c : InMemoryCache) : Prop := feed c.sent = c.store.keys

/-- A batch goes without being noticed if it adds no key and finds none expired: the keys
it writes last, as many as the limit admits, are already there. -/
def Unnoticed (c : InMemoryCache) (op : Op) : Prop :=
  match op with
  | .setBatch entries | .warm entries =>
    ∀ key∈Recency.bounded c.maxSize (entries.map Write.key).dedup.reverse, key∈c.store
  | .getBatch now keys => ∀ key∈keys, stale now key c = false
  | .setRaw _ | .getRawWithExpiry _ _ | .delete _ => True

theorem Faithful.mem_iff {c : InMemoryCache} (h : Faithful c) (key : CacheKey) :
    key∈feed c.sent ↔ key∈c.store := by
  rw [h,Finmap.mem_keys]

theorem feed_append (events : List CacheEvent) (event : CacheEvent) :
    feed (events++[event]) = applyEvent (feed events) event := by
  rw [feed,List.foldl_append]
  rfl

theorem feed_evicted (events : List CacheEvent) (keys : List CacheKey) :
    feed (events++keys.map CacheEvent.evicted) = feed events \ keys.toFinset := by
  induction keys generalizing events with
  | nil => simp
  | cons key keys ih =>
    rw [List.map_cons,List.append_cons,ih,feed_append,applyEvent]
    ext k
    simp only [Finset.mem_sdiff,Finset.mem_erase,List.mem_toFinset,List.mem_cons]
    tauto

theorem faithful_evictOldest {oldest : List CacheKey} {c : InMemoryCache}
    (hnodup : oldest.Nodup) (hkeys : ∀ k, k∈oldest ↔ k∈c.store) (hf : Faithful c) :
    Faithful (evictOldest oldest c) := by
  obtain ⟨-,-,hlook,hsent⟩ := evictOldest_spec hnodup hkeys
  rw [Faithful,hsent,feed_evicted,hf]
  ext k
  have hmem : k∈oldest ↔ k∈oldest.take (oldest.length-c.maxSize) ∨
      k∈oldest.drop (oldest.length-c.maxSize) := by
    rw [← List.mem_append,List.take_append_drop]
  rw [Finset.mem_sdiff,List.mem_toFinset,Finmap.mem_keys,Finmap.mem_keys,
    ← Finmap.lookup_isSome (s := (evictOldest _ _).store),hlook,← hkeys]
  split
  · next hk =>
    have hthere : k∈c.store := (hkeys k).mp (List.mem_of_mem_drop hk)
    have hleft : k∉oldest.take (oldest.length-c.maxSize) := fun htake =>
      List.disjoint_take_drop hnodup (Nat.le_refl _) htake hk
    simp [Finmap.lookup_isSome,hthere,hkeys,hleft]
  · next hk =>
    simp only [hmem,hk,or_false,and_not_self_iff]
    simp

theorem faithful_setRaw {c : InMemoryCache} (h : WellFormed c) (hf : Faithful c) (w : Write) :
    Faithful (setRaw w.now w.key w.value w.ttl c).2 := by
  have hput : Faithful (announce w c) := by
    rw [Faithful,announce,feed_append,hf]
    ext k
    simp [applyEvent,put,Finmap.mem_keys]
  rw [setRaw_eq]
  split
  · have hnew := h.toAligned.announce w
    refine faithful_evictOldest (List.nodup_reverse.mpr hnew.nodup) (fun k => ?_) hput
    rw [List.mem_reverse,hnew.keys]
  · exact hput

theorem putAll_sent (entries : List Write) (c : InMemoryCache) :
    (putAll entries c).sent = c.sent := by
  induction entries generalizing c with
  | nil => rfl
  | cons w entries ih => exact ih (put w c)

theorem setBatch_sent (entries : List Write) (c : InMemoryCache) :
    (setBatch entries c).2.sent = c.sent := by
  rw [setBatch,evictIfOver]
  split
  · rw [evictSilently_eq _ _ []]
    exact putAll_sent entries c
  · exact putAll_sent entries c

theorem faithful_setBatch_iff {c : InMemoryCache} (h : WellFormed c) (hf : Faithful c)
    (entries : List Write) :
    Faithful (setBatch entries c).2 ↔ Unnoticed c (.setBatch entries) := by
  have hcut := setBatch_cut h.toAligned entries
  have hwell := hcut.wellFormed (h.toAligned.putAll entries)
  have hsame : Faithful (setBatch entries c).2 ↔
      ∀ k, k∈(setBatch entries c).2.lruQueue ↔ k∈c.lruQueue := by
    rw [Faithful,setBatch_sent,hf,Finset.ext_iff]
    refine forall_congr' fun k => ?_
    rw [Finmap.mem_keys,Finmap.mem_keys,h.keys,hwell.keys]
    exact iff_comm
  rw [hsame,hcut.queue,putAll_queue,putAll_maxSize,
    Recency.bounded_touchAll_same_iff _ h.nodup h.bounded]
  simp only [h.keys,Unnoticed]

theorem look_sent (now : UInt64) (key : CacheKey) (c : InMemoryCache) :
    (look now key c).2.sent = c.sent := by
  obtain ⟨e,-,-,heq⟩ | ⟨e,-,-,heq⟩ | ⟨-,heq⟩ := look_cases now key c <;> rw [heq]

theorem afterAccess_looks (now : UInt64) (keys : List CacheKey) (k : CacheKey) (o : Option Entry) :
    (keys.map (Access.look now)).foldl (afterAccess k) o =
      if k∈keys then o.filter (fun e => e.expiresAt > now) else o := by
  induction keys generalizing o with
  | nil => simp
  | cons key keys ih =>
    rw [List.map_cons,List.foldl_cons,ih,afterAccess]
    by_cases hkey : key = k
    · simp [hkey,Option.filter_filter]
    · simp [hkey,Ne.symm hkey]

theorem mem_getBatch_iff (now : UInt64) (keys : List CacheKey) (c : InMemoryCache)
    (k : CacheKey) : k∈(getBatch now keys c).2.store ↔
      k∈c.store ∧ (k∈keys → stale now k c = false) := by
  rw [← Finmap.lookup_isSome,lookup_getBatch,afterAccess_looks,← Finmap.lookup_isSome,stale]
  cases c.store.lookup k with
  | none => simp
  | some e => by_cases hk : k∈keys <;> simp [hk,Option.filter_some]

theorem mem_of_stale {now : UInt64} {key : CacheKey} {c : InMemoryCache}
    (h : stale now key c = true) : key∈c.store := by
  obtain ⟨e,he,-⟩ := Option.any_eq_true _ _ |>.mp h
  exact Finmap.mem_of_lookup_eq_some he

theorem faithful_getBatch_iff {c : InMemoryCache} (hf : Faithful c) (now : UInt64)
    (keys : List CacheKey) :
    Faithful (getBatch now keys c).2 ↔ Unnoticed c (.getBatch now keys) := by
  have hsent : (getBatch now keys c).2.sent = c.sent :=
    Machine.final_invariant (P := fun d => d.sent = c.sent)
      (fun key d hd => (look_sent now key d).trans hd) keys c rfl
  rw [Faithful,hsent,hf,Finset.ext_iff]
  simp only [Finmap.mem_keys,mem_getBatch_iff,Unnoticed]
  constructor
  · intro h key hkey
    by_contra hstale
    have hthere := mem_of_stale (Bool.eq_true_of_not_eq_false hstale)
    exact hstale (((h key).mp hthere).2 hkey)
  · intro h k
    exact ⟨fun hk => ⟨hk,h k⟩,And.left⟩

theorem faithful_getRawWithExpiry {c : InMemoryCache} (hf : Faithful c) (now : UInt64)
    (key : CacheKey) : Faithful (getRawWithExpiry now key c).2 := by
  have hlook (k : CacheKey) : k∈(look now key c).2.store ↔
      k∈c.store ∧ (k∈[key] → stale now k c = false) := mem_getBatch_iff now [key] c k
  rw [Faithful,getRawWithExpiry_eq]
  ext k
  simp only [Finmap.mem_keys,hlook,List.mem_singleton]
  cases hs : stale now key c with
  | true =>
    simp only [if_true,feed_append,applyEvent,Finset.mem_erase,hf.mem_iff]
    by_cases hk : k = key <;> simp [hk,hs]
  | false =>
    simp only [Bool.false_eq_true,if_false,List.append_nil,hf.mem_iff]
    by_cases hk : k = key <;> simp [hk,hs]

theorem faithful_delete {c : InMemoryCache} (hf : Faithful c) (key : CacheKey) :
    Faithful (delete key c).2 := by
  rw [Faithful,delete,Exec.write_apply]
  ext k
  simp only [Finmap.mem_keys,Finmap.mem_erase,Finmap.lookup_isSome]
  split
  · simp [feed_append,applyEvent,hf.mem_iff]
  · next hgone =>
    rw [hf.mem_iff]
    exact ⟨fun hk => ⟨fun he => hgone (he ▸ hk),hk⟩,And.right⟩

theorem faithful_step_iff (op : Op) (c : InMemoryCache) (h : WellFormed c) (hf : Faithful c) :
    Faithful (step op c).2 ↔ Unnoticed c op := by
  cases op with
  | setRaw w => exact iff_of_true (faithful_setRaw h hf w) trivial
  | setBatch entries => exact faithful_setBatch_iff h hf entries
  | warm entries =>
    rw [step,warm_eq]
    exact faithful_setBatch_iff h hf entries
  | getRawWithExpiry now key => exact iff_of_true (faithful_getRawWithExpiry hf now key) trivial
  | getBatch now keys => exact faithful_getBatch_iff hf now keys
  | delete key => exact iff_of_true (faithful_delete hf key) trivial

/-- The events mirror the keys after every operation of a run exactly when no batch of the
run changes them. -/
theorem feed_mirrors_keys_iff (maxSize : Nat) (ops : List Op) :
    (∀ n, feed (run (ops.take n) (withMaxSize maxSize)).sent =
      (run (ops.take n) (withMaxSize maxSize)).store.keys) ↔
      Machine.Along step Unnoticed ops (withMaxSize maxSize) :=
  Machine.throughout_iff_along (I := WellFormed) (Q := Faithful)
    (fun op _ h => (h.step op).1) faithful_step_iff ops (wellFormed_withMaxSize maxSize) rfl

/-- A warmed key is in the store and no subscriber has heard of it. -/
theorem warm_goes_unreported :
    let key := CacheKey.config "warmed"
    let c := run [.warm [⟨0,key,"value",60⟩]] new
    c.store.keys = {key} ∧ feed c.sent = ∅ ∧ feed c.sent≠c.store.keys := by
  decide +kernel

end ProofStell.Cache.InMemoryCache
