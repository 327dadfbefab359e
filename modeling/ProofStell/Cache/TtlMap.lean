import ProofStell.Cache.Bulk
import ProofStell.Lib.Register

/-! The unlimited cache is a map whose entries expire. Expired entries stay in the store
until a lookup meets them; what a lookup answers depends on the writes alone. -/
namespace ProofStell.Cache.InMemoryCache
open Transact

inductive Access where
  | set (w : Write)
  | delete (key : CacheKey)
  | look (now : UInt64) (key : CacheKey)
  deriving DecidableEq, Repr

def Op.accesses : Op → List Access
  | .setRaw w => [.set w]
  | .setBatch entries | .warm entries => entries.map .set
  | .getRawWithExpiry now key => [.look now key]
  | .getBatch now keys => keys.map (.look now)
  | .delete key => [.delete key]

def accessLog (ops : List Op) : List Access := ops.flatMap Op.accesses

def Access.reading : Access → Option UInt64
  | .set w => some w.now
  | .delete _ => none
  | .look now _ => some now

def ClockAdvances (log : List Access) : Prop :=
  (log.filterMap Access.reading).Pairwise (· ≤ ·)

instance (log : List Access) : Decidable (ClockAdvances log) :=
  inferInstanceAs (Decidable (List.Pairwise _ _))

def Access.writes (key : CacheKey) : Access → Bool
  | .set w => w.key = key
  | .delete k => k = key
  | .look _ _ => false

/-- `w` is the latest write of `key`; `since` is what came after it. -/
def Latest (log : List Access) (key : CacheKey) (w : Write) (since : List Access) : Prop :=
  w.key = key ∧ (∃ before, log = before++.set w::since) ∧
    ∀ a∈since, a.writes key = false

def Write.expiry (w : Write) : Nat := min (w.now.toNat+w.ttl.toNat) (2^64-1)

def afterAccess (key : CacheKey) (o : Option Entry) : Access → Option Entry
  | .set w => if w.key = key then some w.entry else o
  | .delete k => if k = key then none else o
  | .look now k => if k = key then o.filter (fun e => e.expiresAt > now) else o

theorem lookup_look (now : UInt64) (key k : CacheKey) (c : InMemoryCache) :
    (look now key c).2.store.lookup k = afterAccess k (c.store.lookup k) (.look now key) := by
  rw [afterAccess]
  obtain ⟨e,he,hlive,heq⟩ | ⟨e,he,hdead,heq⟩ | ⟨he,heq⟩ := look_cases now key c
  · rw [heq]
    split
    · next hk =>
      subst hk
      simp [he,Option.filter_some,hlive]
    · rfl
  · rw [heq]
    split
    · next hk =>
      subst hk
      simp [he,Option.filter_some,hdead]
    · next hk => exact Finmap.lookup_erase_ne (Ne.symm hk)
  · rw [heq]
    split
    · next hk =>
      subst hk
      simp [he]
    · rfl

theorem lookup_putAll (entries : List Write) (c : InMemoryCache) (k : CacheKey) :
    (putAll entries c).store.lookup k =
      (entries.map Access.set).foldl (afterAccess k) (c.store.lookup k) := by
  induction entries generalizing c with
  | nil => rfl
  | cons w entries ih =>
    have hw : (put w c).store.lookup k = afterAccess k (c.store.lookup k) (.set w) := by
      rw [lookup_put,afterAccess]
      simp [eq_comm]
    rw [List.map_cons,List.foldl_cons,← hw]
    exact ih (put w c)

theorem lookup_getBatch (now : UInt64) (keys : List CacheKey) (c : InMemoryCache)
    (k : CacheKey) : (getBatch now keys c).2.store.lookup k =
      (keys.map (Access.look now)).foldl (afterAccess k) (c.store.lookup k) := by
  induction keys generalizing c with
  | nil => rfl
  | cons key keys ih =>
    rw [List.map_cons,List.foldl_cons,← lookup_look]
    exact ih (look now key c).2

/-- Without a limit an operation is the sequence of its accesses. -/
theorem lookup_step (op : Op) {c : InMemoryCache} (hmax : c.maxSize = 0) (k : CacheKey) :
    (step op c).2.store.lookup k = op.accesses.foldl (afterAccess k) (c.store.lookup k) := by
  have hbatch (entries : List Write) : (setBatch entries c).2.store.lookup k =
      (entries.map Access.set).foldl (afterAccess k) (c.store.lookup k) := by
    have hover : ¬(putAll entries c).maxSize > 0 := by
      rw [putAll_maxSize,hmax]
      exact Nat.lt_irrefl 0
    rw [setBatch,evictIfOver,if_neg hover]
    exact lookup_putAll entries c k
  cases op with
  | setRaw w =>
    have hset : (step (.setRaw w) c).2 = announce w c := by
      refine (setRaw_eq w c).trans (if_neg ?_)
      rw [hmax]
      exact Nat.lt_irrefl 0
    rw [hset]
    exact lookup_putAll [w] c k
  | setBatch entries => exact hbatch entries
  | warm entries =>
    rw [step,warm_eq]
    exact hbatch entries
  | getRawWithExpiry now key =>
    rw [step,getRawWithExpiry_eq]
    exact lookup_look now key k c
  | getBatch now keys => exact lookup_getBatch now keys c k
  | delete key =>
    simp only [step,delete,Exec.write_apply,Prod.map_snd,id,Op.accesses,List.foldl_cons,
      List.foldl_nil,afterAccess]
    split
    · next hk => rw [hk,Finmap.lookup_erase]
    · next hk => exact Finmap.lookup_erase_ne (Ne.symm hk)

/-- With a limit, what it leaves of a key is what that sequence leaves, or nothing. -/
theorem lookup_step_le (op : Op) {c : InMemoryCache} (h : Aligned c) {k : CacheKey} {e : Entry}
    (he : (step op c).2.store.lookup k = some e) :
    op.accesses.foldl (afterAccess k) (c.store.lookup k) = some e := by
  have hcut {entries : List Write} {d : InMemoryCache} (hd : Cut (putAll entries c) d)
      (he : d.store.lookup k = some e) :
      (entries.map Access.set).foldl (afterAccess k) (c.store.lookup k) = some e := by
    rw [hd.lookup] at he
    split at he
    · rw [← lookup_putAll]
      exact he
    · cases he
  cases op with
  | setRaw w => exact hcut (show Cut (putAll [w] c) _ from setRaw_cut h w) he
  | setBatch entries => exact hcut (setBatch_cut h entries) he
  | warm entries =>
    rw [step,warm_eq] at he
    exact hcut (setBatch_cut h entries) he
  | getRawWithExpiry now key =>
    rw [step,getRawWithExpiry_eq] at he
    rw [← he]
    exact (lookup_look now key k c).symm
  | getBatch now keys =>
    rw [← he]
    exact (lookup_getBatch now keys c k).symm
  | delete key =>
    rw [← he]
    simp only [step,delete,Exec.write_apply,Prod.map_snd,id,Op.accesses,List.foldl_cons,
      List.foldl_nil,afterAccess]
    split
    · next hk => rw [hk,Finmap.lookup_erase]
    · next hk => exact (Finmap.lookup_erase_ne (Ne.symm hk)).symm

theorem lookup_run (ops : List Op) (k : CacheKey) :
    (run ops new).store.lookup k = (accessLog ops).foldl (afterAccess k) none := by
  induction ops using List.reverseRecOn with
  | nil => rfl
  | append_singleton ops op ih =>
    have hmax : (run ops new).maxSize = 0 := (run_wellFormed 0 ops).2
    rw [run,Machine.final_snoc,lookup_step op hmax,ih,← List.foldl_append]
    simp [accessLog]

/-- The entry of the latest write of `key`, if no lookup has come too late for it. -/
def Stored (log : List Access) (key : CacheKey) (e : Entry) : Prop :=
  ∃ w since, Latest log key w since ∧ w.entry = e ∧
    ∀ now, .look now key∈since → e.expiresAt > now

/-- An access as an event of the register that holds the entry of `key`. -/
def Access.effect (key : CacheKey) : Access → Register.Effect Entry
  | .set w => if w.key = key then .assign (some w.entry) else .leave
  | .delete k => if k = key then .assign none else .leave
  | .look now k => if k = key then .check (fun e => e.expiresAt > now) else .leave

theorem afterAccess_eq (key : CacheKey) (o : Option Entry) (a : Access) :
    afterAccess key o a = (a.effect key).apply o := by
  cases a with
  | set w => by_cases hkey : w.key = key <;> simp [afterAccess,Access.effect,hkey]
  | delete k => by_cases hkey : k = key <;> simp [afterAccess,Access.effect,hkey]
  | look now k => by_cases hkey : k = key <;> simp [afterAccess,Access.effect,hkey]

theorem keeps_effect_iff {key : CacheKey} {a : Access} {e : Entry} :
    (a.effect key).Keeps e ↔
      a.writes key = false ∧ ∀ now, a = .look now key → e.expiresAt > now := by
  cases a with
  | set w => by_cases hkey : w.key = key <;> simp [Access.effect,Access.writes,hkey]
  | delete k => by_cases hkey : k = key <;> simp [Access.effect,Access.writes,hkey]
  | look now k => by_cases hkey : k = key <;> simp [Access.effect,Access.writes,hkey]

theorem effect_eq_assign_iff {key : CacheKey} {a : Access} {e : Entry} :
    a.effect key = .assign (some e) ↔ ∃ w, a = .set w ∧ w.key = key ∧ w.entry = e := by
  cases a with
  | set w => by_cases hkey : w.key = key <;> simp [Access.effect,hkey]
  | delete k => by_cases hkey : k = key <;> simp [Access.effect,hkey]
  | look now k => by_cases hkey : k = key <;> simp [Access.effect,hkey]

theorem afterAccess_log_iff {log : List Access} {key : CacheKey} {e : Entry} :
    log.foldl (afterAccess key) none = some e ↔ Stored log key e := by
  have hfold : afterAccess key = fun o a => (a.effect key).apply o :=
    funext fun o => funext fun a => afterAccess_eq key o a
  rw [hfold,← Register.after,Register.after_eq_some_iff]
  simp only [reduceCtorEq,false_and,false_or]
  constructor
  · intro h
    obtain ⟨before,_,since,rfl,hassign,hkeeps⟩ := h
    obtain ⟨w,rfl,hkey,he⟩ := effect_eq_assign_iff.mp hassign
    exact ⟨w,since,⟨hkey,⟨before,rfl⟩,fun a ha => (keeps_effect_iff.mp (hkeeps a ha)).1⟩,he,
      fun now hnow => (keeps_effect_iff.mp (hkeeps _ hnow)).2 now rfl⟩
  · intro h
    obtain ⟨w,since,⟨hkey,⟨before,rfl⟩,hsince⟩,he,hlook⟩ := h
    refine ⟨before,.set w,since,rfl,effect_eq_assign_iff.mpr ⟨w,rfl,hkey,he⟩,fun a ha => ?_⟩
    exact keeps_effect_iff.mpr ⟨hsince a ha,fun now hnow => hlook now (hnow ▸ ha)⟩

/-- What a map of expiring entries answers: the value of the latest write, in time. -/
def Holds (log : List Access) (now : UInt64) (key : CacheKey) (value : String) : Prop :=
  ∃ w since, Latest log key w since ∧ w.value = value ∧ now.toNat < w.expiry

def FoundExpired (log : List Access) (now : UInt64) (key : CacheKey) : Prop :=
  ∃ w since, Latest log key w since ∧ w.expiry ≤ now.toNat ∧
    ∀ t, .look t key∈since → t.toNat < w.expiry

theorem entry_expiresAt (w : Write) : w.entry.expiresAt.toNat = w.expiry :=
  Saturating.add64_toNat w.now w.ttl

theorem reading_le {log rest : List Access} (h : ClockAdvances (log++rest)) {a b : Access}
    {t now : UInt64} (ha : a∈log) (hat : a.reading = some t) (hb : b∈rest)
    (hbt : b.reading = some now) : t ≤ now := by
  rw [ClockAdvances,List.filterMap_append,List.pairwise_append] at h
  exact h.2.2 t (List.mem_filterMap.mpr ⟨a,ha,hat⟩) now (List.mem_filterMap.mpr ⟨b,hb,hbt⟩)

theorem look_value (now : UInt64) (key : CacheKey) (c : InMemoryCache) :
    (look now key c).1 =
      (afterAccess key (c.store.lookup key) (.look now key)).map Entry.value := by
  rw [afterAccess,if_pos rfl]
  obtain ⟨e,he,hlive,heq⟩ | ⟨e,he,hdead,heq⟩ | ⟨he,heq⟩ := look_cases now key c
  · simp [heq,he,Option.filter_some,hlive]
  · simp [heq,he,Option.filter_some,hdead]
  · simp [heq,he]

theorem look_value_look (now : UInt64) (key k : CacheKey) (c : InMemoryCache) :
    (look now k (look now key c).2).1 = (look now k c).1 := by
  rw [look_value,look_value,lookup_look]
  simp only [afterAccess,if_true]
  split
  · rw [Option.filter_filter]
    simp
  · rfl

theorem getBatch_values {now : UInt64} {keys : List CacheKey} {c : InMemoryCache}
    {p : CacheKey × Option String} (hp : p∈Machine.outputs (look now) keys c) :
    p.2 = (look now p.1 c).1 := by
  induction keys generalizing c with
  | nil => cases hp
  | cons key keys ih =>
    obtain rfl | hp := List.mem_cons.mp hp
    · rfl
    · rw [ih hp,look_value_look]

/-- A lookup in the unlimited cache answers what the history says. -/
theorem look_iff_holds {ops : List Op} {now : UInt64} {key : CacheKey}
    (hnow : ∀ t, .look t key∈accessLog ops → t ≤ now) (value : String) :
    (look now key (run ops new)).1 = some value ↔ Holds (accessLog ops) now key value := by
  rw [look_value,lookup_run,afterAccess,if_pos rfl,Option.map_eq_some_iff]
  simp only [Option.filter_eq_some_iff,afterAccess_log_iff,decide_eq_true_eq]
  constructor
  · intro h
    obtain ⟨_,⟨⟨w,since,hlatest,rfl,-⟩,hlive⟩,rfl⟩ := h
    refine ⟨w,since,hlatest,rfl,?_⟩
    rw [← entry_expiresAt]
    exact UInt64.lt_iff_toNat_lt.mp hlive
  · intro h
    obtain ⟨w,since,hlatest,rfl,hlive⟩ := h
    rw [← entry_expiresAt,← UInt64.lt_iff_toNat_lt] at hlive
    obtain ⟨before,hlog⟩ := hlatest.2.1
    refine ⟨w.entry,⟨⟨w,since,hlatest,rfl,fun t ht => ?_⟩,hlive⟩,rfl⟩
    have hle : t ≤ now := hnow t (by rw [hlog]; simp [ht])
    exact UInt64.lt_of_le_of_lt hle hlive

theorem stale_iff_foundExpired (ops : List Op) (now : UInt64) (key : CacheKey) :
    stale now key (run ops new) = true ↔ FoundExpired (accessLog ops) now key := by
  rw [stale,lookup_run,Option.any_eq_true]
  simp only [afterAccess_log_iff,decide_eq_true_eq]
  constructor
  · intro h
    obtain ⟨_,⟨w,since,hlatest,rfl,hlook⟩,hdead⟩ := h
    refine ⟨w,since,hlatest,?_,fun t ht => ?_⟩
    · rw [← entry_expiresAt]
      exact UInt64.le_iff_toNat_le.mp hdead
    · rw [← entry_expiresAt]
      exact UInt64.lt_iff_toNat_lt.mp (hlook t ht)
  · intro h
    obtain ⟨w,since,hlatest,hdead,hlook⟩ := h
    rw [← entry_expiresAt] at hdead
    refine ⟨w.entry,⟨w,since,hlatest,rfl,fun t ht => ?_⟩,UInt64.le_iff_toNat_le.mpr hdead⟩
    rw [gt_iff_lt,UInt64.lt_iff_toNat_lt,entry_expiresAt]
    exact hlook t ht

/-- With a clock that never goes back, every lookup in every run without a limit answers
what the latest write of its key says. -/
theorem ttl_map_semantics {ops : List Op} {op : Op}
    (hclock : ClockAdvances (accessLog (ops++[op]))) :
    (∀ now key, op = .getRawWithExpiry now key → ∃ value wasExpired,
      (step op (run ops new)).1 = .value (.ok (value,wasExpired)) ∧
      (∀ v, value = some v ↔ Holds (accessLog ops) now key v) ∧
      (wasExpired = true ↔ FoundExpired (accessLog ops) now key)) ∧
    ∀ now keys, op = .getBatch now keys → ∃ values,
      (step op (run ops new)).1 = .values (.ok values) ∧ values.map Prod.fst = keys ∧
      ∀ p∈values, ∀ v, p.2 = some v ↔ Holds (accessLog ops) now p.1 v := by
  rw [accessLog,List.flatMap_append,List.flatMap_singleton] at hclock
  constructor
  · intro now key hop
    subst hop
    refine ⟨_,_,?_,look_iff_holds fun t ht => ?_,stale_iff_foundExpired ops now key⟩
    · rw [step,getRawWithExpiry_eq]
      rfl
    · exact reading_le hclock ht rfl (List.mem_singleton_self _) rfl
  · intro now keys hop
    subst hop
    refine ⟨_,rfl,Machine.outputs_map_fst _ _ _,fun p hp v => ?_⟩
    rw [getBatch_values hp]
    have hkey : Access.look now p.1∈keys.map (Access.look now) :=
      List.mem_map_of_mem (Machine.mem_of_mem_outputs hp)
    exact look_iff_holds (fun t ht => reading_le hclock ht rfl hkey rfl) v

theorem ttl_map_semantics_after_ttl :
    let key := CacheKey.verification "ttl_test"
    let ops : List Op := [.setRaw ⟨100,key,"stale",1⟩]
    ClockAdvances (accessLog (ops++[.getRawWithExpiry 102 key])) ∧
      ∃ value wasExpired,
        (step (.getRawWithExpiry 102 key) (run ops new)).1 = .value (.ok (value,wasExpired)) ∧
        (∀ v, value = some v ↔ Holds (accessLog ops) 102 key v) ∧
        (wasExpired = true ↔ FoundExpired (accessLog ops) 102 key) := by
  intro key ops
  have hclock : ClockAdvances (accessLog (ops++[.getRawWithExpiry 102 key])) := by
    decide +kernel
  exact ⟨hclock,(ttl_map_semantics hclock).1 102 key rfl⟩

end ProofStell.Cache.InMemoryCache
