import ProofStell.Cache.Bulk

/-! The eviction policy against the history of touches: what goes is what was touched
least recently, and nothing goes before enough other keys have been touched. -/
namespace ProofStell.Cache.InMemoryCache
open Transact Recency

def lookMarks (now : UInt64) (key : CacheKey) (c : InMemoryCache) : List (Mark CacheKey) :=
  match c.store.lookup key with
  | some entry => if entry.expiresAt > now then [.touched key] else [.dropped key]
  | none => []

/-- Touched is a key that an operation writes or hits, in the order of a batch; dropped is
one that it deletes or finds expired. -/
def marks (op : Op) (c : InMemoryCache) : List (Mark CacheKey) :=
  match op with
  | .setRaw w => [.touched w.key]
  | .setBatch entries | .warm entries => entries.map (.touched ·.key)
  | .getRawWithExpiry now key => lookMarks now key c
  | .getBatch now keys => Machine.trace (look now) (lookMarks now) keys c
  | .delete key => [.dropped key]

def history (ops : List Op) (c : InMemoryCache) : List (Mark CacheKey) :=
  Machine.trace step marks ops c

/-- The key was in the store or written by the operation and is gone after it, neither
deleted nor found expired. -/
def Evicts (op : Op) (c : InMemoryCache) (key : CacheKey) : Prop :=
  (key∈c.store ∨ key∈touches (marks op c)) ∧ key∉(step op c).2.store ∧
    .dropped key∉marks op c

instance (op : Op) (c : InMemoryCache) (key : CacheKey) : Decidable (Evicts op c key) :=
  inferInstanceAs (Decidable (_ ∧ _ ∧ _))

def Tracked (h : List (Mark CacheKey)) (c : InMemoryCache) : Prop :=
  WellFormed c ∧ Tracks c.maxSize h c.lruQueue

theorem tracked_look (now : UInt64) (key : CacheKey) (h : List (Mark CacheKey))
    (c : InMemoryCache) (ht : Tracked h c) :
    Tracked (h++lookMarks now key c) (look now key c).2 := by
  refine ⟨ht.1.look now key,?_⟩
  rw [look_maxSize]
  obtain ⟨e,he,hlive,heq⟩ | ⟨e,he,hdead,heq⟩ | ⟨he,heq⟩ := look_cases now key c
  · have hm : lookMarks now key c = [.touched key] := by simp [lookMarks,he,hlive]
    rw [hm,heq]
    exact ht.2.touch key
  · have hm : lookMarks now key c = [.dropped key] := by simp [lookMarks,he,hdead]
    rw [hm,heq]
    exact ht.2.drop key
  · have hm : lookMarks now key c = [] := by simp [lookMarks,he]
    rw [hm,heq,List.append_nil]
    exact ht.2

/-- Eviction at the end of a batch leaves what eviction after every write would. -/
theorem tracked_cut (entries : List Write) {h : List (Mark CacheKey)} {c d : InMemoryCache}
    (ht : Tracked h c) (hcut : Cut (putAll entries c) d) :
    Tracked (h++entries.map (.touched ·.key)) d := by
  refine ⟨hcut.wellFormed (ht.1.toAligned.putAll entries),?_⟩
  have htouch := ht.2.touchAll (entries.map Write.key)
  rw [List.map_map] at htouch
  rw [hcut.maxSize,hcut.queue,putAll_maxSize,putAll_queue]
  exact htouch.cut (nodup_touchAll _ ht.1.nodup)

theorem tracked_step (op : Op) (h : List (Mark CacheKey)) (c : InMemoryCache)
    (ht : Tracked h c) : Tracked (h++marks op c) (step op c).2 := by
  cases op with
  | setRaw w => exact tracked_cut [w] ht (setRaw_cut ht.1.toAligned w)
  | setBatch entries => exact tracked_cut entries ht (setBatch_cut ht.1.toAligned entries)
  | warm entries =>
    rw [step,warm_eq]
    exact tracked_cut entries ht (setBatch_cut ht.1.toAligned entries)
  | getRawWithExpiry now key =>
    obtain ⟨hwell,htracks⟩ := tracked_look now key h c ht
    rw [step,getRawWithExpiry_eq]
    exact ⟨hwell.of_eq rfl rfl rfl,htracks⟩
  | getBatch now keys => exact Machine.trace_invariant (tracked_look now) keys h c ht
  | delete key => exact ⟨(ht.1.step (.delete key)).1,ht.2.drop key⟩

theorem tracked_run (maxSize : Nat) (ops : List Op) :
    Tracked (history ops (withMaxSize maxSize)) (run ops (withMaxSize maxSize)) := by
  have hinit : Tracked [] (withMaxSize maxSize) := ⟨wellFormed_withMaxSize maxSize,tracks_nil _⟩
  simpa [history] using Machine.trace_invariant tracked_step ops [] _ hinit

/-- An evicted key was touched before every key that stays, and a key stays until as many others
have been touched as the limit says. -/
theorem least_recently_used_goes_first (maxSize : Nat) (ops : List Op) :
    (∀ op evicted left, Evicts op (run ops (withMaxSize maxSize)) evicted →
      left∈(run (ops++[op]) (withMaxSize maxSize)).store →
        After (history (ops++[op]) (withMaxSize maxSize)) evicted left) ∧
    ∀ key before since, history ops (withMaxSize maxSize) = before++.touched key::since →
      key∉touches since → .dropped key∉since → (touches since).toFinset.card < maxSize →
        key∈(run ops (withMaxSize maxSize)).store := by
  have hops := tracked_run maxSize ops
  constructor
  · intro op evicted left hevicts hleft
    obtain ⟨hthere,hgone,hdrop⟩ := hevicts
    have hnext := tracked_run maxSize (ops++[op])
    rw [run,Machine.final_snoc] at hnext hleft
    refine after_of_initial hnext.2.initial (mem_recent_iff.mpr ?_) (fun hq => hgone ?_) ?_
    · rw [history,Machine.trace_snoc]
      refine present_append (hthere.imp_left fun hstore => ?_) hdrop
      have hqueue := (hops.1.keys evicted).mpr hstore
      exact mem_recent_iff.mp (hops.2.initial.subset hqueue)
    · exact (hnext.1.keys evicted).mp hq
    · exact (hnext.1.keys left).mpr hleft
  · intro key before since hhistory htouch hdrop hfew
    obtain ⟨hwell,htracks⟩ := hops
    rw [hhistory,(run_wellFormed maxSize ops).2] at htracks
    exact (hwell.keys key).mp (htracks.kept htouch hdrop hfew)

theorem least_recently_used_goes_first_at_two :
    let key (s : String) := CacheKey.verification s
    let ops : List Op := [.setRaw ⟨0,key "evict1","value1",60⟩,.setRaw ⟨0,key "evict2","value2",60⟩]
    let op : Op := .setRaw ⟨0,key "evict3","value3",60⟩
    Evicts op (run ops (withMaxSize 2)) (key "evict1") ∧
      After (history (ops++[op]) (withMaxSize 2)) (key "evict1") (key "evict2") ∧
      key "evict1"∈(run ops (withMaxSize 2)).store := by
  intro key ops op
  have hevicts : Evicts op (run ops (withMaxSize 2)) (key "evict1") := by decide +kernel
  obtain ⟨hfirst,hkept⟩ := least_recently_used_goes_first 2 ops
  refine ⟨hevicts,hfirst op _ _ hevicts (by decide +kernel),?_⟩
  exact hkept _ [] [.touched (key "evict2")] rfl (by decide +kernel) (by decide +kernel)
    (by decide +kernel)

end ProofStell.Cache.InMemoryCache
