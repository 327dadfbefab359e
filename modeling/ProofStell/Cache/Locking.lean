import ProofStell.Cache.Statistics
import ProofStell.Lib.RootLock

/-! The locks inside the in-memory cache. Its operations take the locks of the store, of the LRU
queue and of the statistics in this order; `stats` takes the last one first. -/
namespace ProofStell.Cache
open Transact InMemoryCache Locks

inductive CacheLock where
  | store | lruQueue | stats
  deriving DecidableEq, Repr

instance : Fintype CacheLock := ⟨{.store,.lruQueue,.stats},fun l => by cases l <;> decide⟩

namespace MeteredCache
variable {κ : Type} [DecidableEq κ]

abbrev Answered (κ : Type) := MeteredCache × List (κ × (Answer ⊕ CacheStatsSnapshot))

def answer (k : κ) (f : MeteredCache → (Answer ⊕ CacheStatsSnapshot) × MeteredCache)
    (s : Answered κ) : Answered κ := ((f s.1).2,s.2++[(k,(f s.1).1)])

def insertRaw (w : Write) (s : MeteredCache) : MeteredCache :=
  { s with cache := { s.cache with
    store := s.cache.store.insert w.key w.entry
    lruQueue := touch w.key s.cache.lruQueue
    sent := s.cache.sent++[.updated w.key] } }

def evictRaw (s : MeteredCache) : MeteredCache :=
  { s with cache := evictOldest s.cache.lruQueue.reverse s.cache }

/-- What a function does behind the write locks of store and queue; the guards are dropped in
the reverse order. -/
def writing (body : List (Act CacheLock (Answered κ))) : List (Act CacheLock (Answered κ)) :=
  [.lock .store .exclusive,.lock .lruQueue .exclusive]++body++[.unlock .lruQueue,.unlock .store]

/-- A call, lock by lock. Only `set_raw` takes the lock of the statistics when it is needed, and
`delete` not at all. -/
def program (maxSize : Nat) (k : κ) : Call → List (Act CacheLock (Answered κ))
  | .op (.setRaw w) =>
    if maxSize > 0 then
      writing [.work fun s => (insertRaw w s.1,s.2),.lock .stats .exclusive,
        .work (answer k fun s => (.inl (.done (.ok ())),evictRaw s)),.unlock .stats]
    else writing [.work (answer k fun s => (.inl (.done (.ok ())),insertRaw w s))]
  | .op (.delete key) => writing [.work (answer k (step (.op (.delete key))))]
  | .op (.setBatch entries) => withStats (.op (.setBatch entries))
  | .op (.warm entries) => withStats (.op (.warm entries))
  | .op (.getRawWithExpiry now key) => withStats (.op (.getRawWithExpiry now key))
  | .op (.getBatch now keys) => withStats (.op (.getBatch now keys))
  | .stats => [.lock .stats .shared,.lock .store .shared,.work (answer k (step .stats)),
      .unlock .store,.unlock .stats]
where
  withStats (call : Call) : List (Act CacheLock (Answered κ)) :=
    writing [.lock .stats .exclusive,.work (answer k (step call)),.unlock .stats]

/-- The order in which all calls but `stats` take the locks. -/
def rank : CacheLock → Nat
  | .store => 0
  | .lruQueue => 1
  | .stats => 2

section
variable (maxSize : Nat) (k : κ)

omit [DecidableEq κ] in
/-- A call that touches the cache does so as it would alone. -/
theorem perform_program (call : Call) {s : Answered κ} (hs : s.1.cache.maxSize = maxSize) :
    perform (works (program maxSize k call)) s = answer k (step call) s := by
  cases call with
  | stats => rfl
  | op op =>
    cases op with
    | setRaw w =>
      have hsplit : (step (.op (.setRaw w)) s.1) = (.inl (.done (.ok ())),
          if maxSize > 0 then evictRaw (insertRaw w s.1) else insertRaw w s.1) := by
        subst hs
        rw [step,InMemoryCache.step]
        simp only [InMemoryCache.setRaw,Exec.write,evictRaw,insertRaw,Write.entry]
        split <;> rfl
      rw [program,answer,hsplit]
      split <;> rfl
    | delete key => rfl
    | setBatch entries => rfl
    | warm entries => rfl
    | getRawWithExpiry now key => rfl
    | getBatch now keys => rfl

omit [DecidableEq κ] in
theorem program_shape {call : Call} (hcall : call≠.stats) : ∃ f g : Answered κ → Answered κ,
    program maxSize k call = writing [.work f] ∨
    program maxSize k call = writing [.lock .stats .exclusive,.work f,.unlock .stats] ∨
    program maxSize k call =
      writing [.work g,.lock .stats .exclusive,.work f,.unlock .stats] := by
  cases call with
  | stats => exact absurd rfl hcall
  | op op =>
    cases op with
    | setRaw w =>
      rw [program]
      split
      · exact ⟨_,_,Or.inr (Or.inr rfl)⟩
      · exact ⟨_,id,Or.inl rfl⟩
    | delete key => exact ⟨_,id,Or.inl rfl⟩
    | setBatch entries => exact ⟨_,id,Or.inr (Or.inl rfl)⟩
    | warm entries => exact ⟨_,id,Or.inr (Or.inl rfl)⟩
    | getRawWithExpiry now key => exact ⟨_,id,Or.inr (Or.inl rfl)⟩
    | getBatch now keys => exact ⟨_,id,Or.inr (Or.inl rfl)⟩

/-- What a call that is not `stats` holds at each point. -/
structure Disciplined (call : Call) (held : List (CacheLock × Mode))
    (todo : List (Act CacheLock (Answered κ))) : Prop where
  clean : todo = [] → held = []
  lock : ∀ l m rest, todo = .lock l m::rest → m = .exclusive ∧ (l = .store ∧ held = [] ∨
    l = .lruQueue ∧ held = [(.store,.exclusive)] ∨
    l = .stats ∧ held = [(.lruQueue,.exclusive),(.store,.exclusive)])
  store : ∀ l m, (l,m)∈held → (.store,.exclusive)∈held
  work : ∀ f rest, todo = .work f::rest → (.store,.exclusive)∈held
  between : works todo≠[] → (works todo).length < (works (program maxSize k call)).length →
    (.store,.exclusive)∈held

omit [DecidableEq κ] in
theorem disciplined {call : Call} (hcall : call≠.stats) {held : List (CacheLock × Mode)}
    {todo : List (Act CacheLock (Answered κ))}
    (hmem : (held,todo)∈configs [] (program maxSize k call)) :
    Disciplined maxSize k call held todo := by
  have hnil := works_nil (ℓ := CacheLock) (σ := Answered κ)
  obtain ⟨f,g,h | h | h⟩ := program_shape maxSize k hcall
  all_goals
    rw [h] at hmem
    simp only [writing,configs,Act.after,List.cons_append,List.nil_append,List.filter_cons,
      List.filter_nil,ne_eq,reduceCtorEq,not_false_eq_true,not_true_eq_false,decide_true,
      decide_false,if_true,Bool.false_eq_true,if_false,List.mem_cons,List.not_mem_nil,or_false,
      Prod.mk.injEq] at hmem
    constructor <;> grind [writing]

omit [DecidableEq κ] in
/-- `stats` takes the lock of the statistics, then that of the store, both for reading. -/
theorem stats_configs {held : List (CacheLock × Mode)} {todo : List (Act CacheLock (Answered κ))}
    (hmem : (held,todo)∈configs [] (program maxSize k .stats)) :
    (todo = [] → held = []) ∧ (∀ f rest, todo = .work f::rest → (.store,.shared)∈held) ∧
      (works todo≠[] → (works todo).length = (works (program maxSize k .stats)).length) ∧
      ∀ l m rest, todo = .lock l m::rest → m = .shared ∧
        (l = .stats ∧ held = [] ∨ l = .store ∧ held = [(.stats,.shared)]) := by
  have hnil := works_nil (ℓ := CacheLock) (σ := Answered κ)
  simp only [program,configs,Act.after,List.filter_cons,List.filter_nil,ne_eq,reduceCtorEq,
    not_false_eq_true,not_true_eq_false,decide_true,decide_false,if_true,Bool.false_eq_true,
    if_false,List.mem_cons,List.not_mem_nil,or_false,Prod.mk.injEq] at hmem
  refine ⟨?_,?_,?_,?_⟩ <;> grind [program]

omit [DecidableEq κ] in
theorem program_clean (call : Call) : Clean (program maxSize k call) := by
  intro held hmem
  by_cases hcall : call = .stats
  · subst hcall
    exact (stats_configs maxSize k hmem).1 rfl
  · exact (disciplined maxSize k hcall hmem).clean rfl

omit [DecidableEq κ] in
theorem program_guarded (call : Call) : Guarded .store (program maxSize k call) := by
  by_cases hcall : call = .stats
  · subst hcall
    refine ⟨fun held f rest hmem => ?_,fun held todo hmem hwork hlt => ?_⟩
    · exact ⟨_,(stats_configs maxSize k hmem).2.1 f rest rfl⟩
    · exact absurd ((stats_configs maxSize k hmem).2.2.1 hwork) (Nat.ne_of_lt hlt)
  · refine ⟨fun held f rest hmem => ?_,fun held todo hmem => ?_⟩
    · exact ⟨_,(disciplined maxSize k hcall hmem).work f rest rfl⟩
    · exact (disciplined maxSize k hcall hmem).between

omit [DecidableEq κ] in
theorem program_ordered {call : Call} (hcall : call≠.stats) :
    Ordered rank (program maxSize k call) := by
  intro held l m rest hmem p hp
  obtain ⟨-,⟨rfl,rfl⟩ | ⟨rfl,rfl⟩ | ⟨rfl,rfl⟩⟩ :=
    (disciplined maxSize k hcall hmem).lock l m rest rfl
  · cases hp
  · obtain rfl := List.mem_singleton.mp hp
    decide
  · obtain rfl | hp := List.mem_cons.mp hp
    · decide
    · obtain rfl := List.mem_singleton.mp hp
      decide

omit [DecidableEq κ] in
theorem program_works (call : Call) : works (program maxSize k call)≠[] := by
  intro hnil
  have hanswer := perform_program maxSize k call (s := (.start maxSize,[])) rfl
  rw [hnil] at hanswer
  have hlog := congrArg Prod.snd hanswer
  exact absurd hlog (List.cons_ne_nil _ _).symm

end

abbrev started (maxSize : Nat) (call : κ → Call) : State κ CacheLock (Answered κ) :=
  Locks.start (start maxSize,[]) fun k => program maxSize k (call k)

omit [DecidableEq κ] in
theorem answer_run (maxSize : Nat) (call : κ → Call) (order : List κ) {s : Answered κ}
    (hwell : WellFormed s.1.cache) (hs : s.1.cache.maxSize = maxSize) :
    order.foldl (fun d k => perform (works (program maxSize k (call k))) d) s =
      (Machine.final (fun k => step (call k)) order s.1,
        s.2++Machine.outputs (fun k => step (call k)) order s.1) := by
  induction order generalizing s with
  | nil => simp [Machine.final,Machine.outputs]
  | cons k order ih =>
    have hnext : (step (call k) s.1).2.cache.maxSize = maxSize := by
      rw [← hs]
      cases call k with
      | stats => rfl
      | op op => exact (hwell.step op).2
    rw [List.foldl_cons,perform_program maxSize k (call k) hs,
      ih (step_wellFormed hwell (call k)) hnext]
    simp [answer,Machine.final,Machine.outputs]

/-- Whenever no call has the store for itself, cache, metrics and answers are those of the calls
that have begun, run one after the other in the order of time. -/
theorem calls_atomic (maxSize : Nat) (call : κ → Call) (l : List κ) :
    let s := Machine.final Locks.step l (started maxSize call)
    let order := serialOrder (start maxSize,[]) (fun k => program maxSize k (call k)) l
    order.Nodup ∧ (∀ k, s.todo k = [] → k∈order) ∧
      (∀ k∈order, s.todo k≠program maxSize k (call k)) ∧
      (∀ n, serialOrder (start maxSize,[]) (fun k => program maxSize k (call k)) (l.take n) <+:
        order) ∧
      ((∀ k, (k,.exclusive)∉(s.locks .store).holders) →
        s.data = (Machine.final (fun k => step (call k)) order (start maxSize),
          Machine.outputs (fun k => step (call k)) order (start maxSize)) ∧
        WellFormed s.data.1.cache) := by
  intro s order
  have hguard (k : κ) : Guarded .store (program maxSize k (call k)) :=
    program_guarded maxSize k (call k)
  have hserial : Serial (fun k => program maxSize k (call k)) (start maxSize,[]) order s :=
    run_serial hguard _ l
  refine ⟨hserial.nodup,fun k hk => ?_,fun k hk heq => ?_,fun n => ?_,fun hfree => ?_⟩
  · rw [hserial.begun,Begun,hk]
    exact List.length_pos_iff.mpr (program_works maxSize k (call k))
  · have hbegun := (hserial.begun k).mp hk
    rw [Begun,heq] at hbegun
    exact Nat.lt_irrefl _ hbegun
  · have hsplit := Machine.trace_append Locks.step (begins fun k => program maxSize k (call k))
      (l.take n) (l.drop n) (started maxSize call)
    rw [List.take_append_drop] at hsplit
    exact ⟨_,hsplit.symm⟩
  · have hdata := hserial.atomic hguard hfree
    have hrun := answer_run maxSize call order (s := (start maxSize,[]))
      (wellFormed_withMaxSize maxSize) rfl
    rw [hrun,List.nil_append] at hdata
    refine ⟨hdata,?_⟩
    rw [hdata]
    exact Machine.final_invariant (P := fun s : MeteredCache => WellFormed s.cache)
      (fun k _ h => step_wellFormed h (call k)) order _ (wellFormed_withMaxSize maxSize)

/-- Wherever calls are stuck, a `stats` call holds the lock of the statistics and waits for the
store, and another call the other way round, for ever. -/
theorem stuck_on_stats (maxSize : Nat) (call : κ → Call) (l : List κ) :
    let s := Machine.final Locks.step l (started maxSize call)
    s.Stuck → ∃ j k, call j = .stats ∧ call k≠.stats ∧
      (s.Holds j .stats ∧ s.Waits j .store .shared) ∧
      (s.Holds k .store ∧ s.Waits k .stats .exclusive) ∧
      ∀ later, (Machine.final Locks.step later s).todo j = s.todo j ∧
        (Machine.final Locks.step later s).todo k = s.todo k := by
  intro s hs
  have hvalid : Valid (fun k => program maxSize k (call k)) s := run_valid _ _ l
  have hclean (k : κ) : Clean (program maxSize k (call k)) := program_clean maxSize k (call k)
  obtain ⟨j,a,b,m,⟨m',hj⟩,⟨hjq,rest,hjt⟩,hrank⟩ := hs.inversion rank hvalid hclean
  obtain ⟨held,hmem,hheld⟩ := hvalid.task j
  rw [hjt] at hmem
  have hja := (hheld a m').mp hj
  have hjcall : call j = .stats := by
    by_contra hcall
    have hlt := program_ordered maxSize j hcall held b m rest hmem _ hja
    exact absurd hrank (Nat.not_le.mpr hlt)
  rw [hjcall] at hmem
  obtain ⟨rfl,⟨rfl,rfl⟩ | ⟨rfl,rfl⟩⟩ := (stats_configs maxSize j hmem).2.2.2 b m rest rfl
  · cases hja
  obtain ⟨rfl,rfl⟩ := Prod.mk.inj (List.mem_singleton.mp hja)
  -- the store is held, and its holder waits too
  obtain ⟨k,m,hk⟩ := hs.held hvalid (List.ne_nil_of_mem hjq)
  obtain ⟨c,n,hkq,rest',hkt⟩ := hs.holder_waits hvalid hclean ⟨m,hk⟩
  obtain ⟨held',hmem',hheld'⟩ := hvalid.task k
  rw [hkt] at hmem'
  have hkstore := (hheld' .store m).mp hk
  have hkcall : call k≠.stats := by
    intro hcall
    rw [hcall] at hmem'
    obtain ⟨-,⟨-,rfl⟩ | ⟨-,rfl⟩⟩ := (stats_configs maxSize k hmem').2.2.2 c n rest' rfl
    · cases hkstore
    · simp at hkstore
  have hdisc := disciplined maxSize k hkcall hmem'
  obtain ⟨rfl,hplace⟩ := hdisc.lock c n rest' rfl
  have hkwrite : (k,.exclusive)∈(s.locks .store).holders :=
    (hheld' _ _).mpr (hdisc.store _ m hkstore)
  have hwaits : c = .stats := by
    obtain ⟨-,rfl⟩ | ⟨rfl,rfl⟩ | ⟨hc,-⟩ := hplace
    · cases hkstore
    · -- whoever held the queue would hold the store too
      obtain ⟨i,n,hi⟩ := hs.held hvalid (List.ne_nil_of_mem hkq)
      obtain ⟨held'',hmem'',hheld''⟩ := hvalid.task i
      have hilru := (hheld'' .lruQueue n).mp hi
      obtain ⟨c',n',-,rest'',hit⟩ := hs.holder_waits hvalid hclean ⟨n,hi⟩
      rw [hit] at hmem''
      have hicall : call i≠.stats := by
        intro hcall
        rw [hcall] at hmem''
        obtain ⟨-,⟨-,rfl⟩ | ⟨-,rfl⟩⟩ := (stats_configs maxSize i hmem'').2.2.2 c' n' rest'' rfl
        · cases hilru
        · simp at hilru
      have histore := (disciplined maxSize i hicall hmem'').store _ n hilru
      have hsame := hvalid.alone .store k hkwrite _ ((hheld'' _ _).mpr histore)
      obtain rfl : i = k := congrArg Prod.fst hsame
      have hboth := (hheld' .lruQueue n).mp hi
      simp at hboth
    · exact hc
  subst hwaits
  have hdead : s.Deadlock j k .stats .store :=
    ⟨fun heq => hkcall (heq ▸ hjcall),⟨_,_,hj,⟨hkq,rest',hkt⟩,Or.inl rfl⟩,
      ⟨_,_,hkwrite,⟨hjq,rest,hjt⟩,Or.inr rfl⟩⟩
  exact ⟨j,k,hjcall,hkcall,⟨⟨_,hj⟩,hjq,rest,hjt⟩,⟨⟨m,hk⟩,hkq,rest',hkt⟩,
    fun later => (hdead.run later).2⟩

def crossing (k : Fin 2) : Call := if k = 0 then .stats else .op (.getRawWithExpiry 0 (.config "k"))

theorem stuck_on_stats_crossing :
    let s := Machine.final Locks.step [0,0,1,1,1,1,1,0] (started 0 crossing)
    s.Stuck ∧ ∃ j k, crossing j = .stats ∧ crossing k≠.stats ∧
      (s.Holds j .stats ∧ s.Waits j .store .shared) ∧
      (s.Holds k .store ∧ s.Waits k .stats .exclusive) ∧
      ∀ later, (Machine.final Locks.step later s).todo j = s.todo j ∧
        (Machine.final Locks.step later s).todo k = s.todo k := by
  have hleft : ((Machine.final Locks.step [0,0,1,1,1,1,1,0]
      (started 0 crossing)).todo 0).isEmpty = false := by decide
  have hblocked : ∀ k, (Machine.final Locks.step [0,0,1,1,1,1,1,0]
      (started 0 crossing)).ready k = false := by decide
  have hstuck : (Machine.final Locks.step [0,0,1,1,1,1,1,0] (started 0 crossing)).Stuck :=
    ⟨⟨0,List.isEmpty_eq_false_iff.mp hleft⟩,hblocked⟩
  exact ⟨hstuck,stuck_on_stats 0 crossing [0,0,1,1,1,1,1,0] hstuck⟩

/-- Without `stats` nobody gets stuck. As long as not all calls have returned one of them can do
something, and after as many such turns as their programs take all have returned. -/
theorem all_return_without_stats [Fintype κ] (maxSize : Nat) (call : κ → Call)
    (hcall : ∀ k, call k≠.stats) (l : List κ) :
    let s := Machine.final Locks.step l (started maxSize call)
    let turns := ∑ k, cost (program maxSize k (call k))
    useful l (started maxSize call) ≤ turns ∧
      (useful l (started maxSize call) < turns → ∃ k, s.ready k = true) ∧
      (useful l (started maxSize call) = turns → ∀ k, s.todo k = []) := by
  intro s turns
  have hvalid : Valid (fun k => program maxSize k (call k)) s := run_valid _ _ l
  have hfree : ¬s.Stuck := never_stuck hvalid (fun k => program_clean maxSize k (call k))
    fun k => program_ordered maxSize k (hcall k)
  have hstart : (started maxSize call).work = turns :=
    Finset.sum_congr rfl fun k _ => owed_of_unqueued fun _ _ => List.not_mem_nil
  have hrun := work_run (start_valid (start maxSize,[]) fun k => program maxSize k (call k)) l
  change s.work+useful l (started maxSize call) = (started maxSize call).work at hrun
  rw [hstart] at hrun
  refine ⟨by omega,fun hlt => exists_ready hfree (by omega),fun heq => ?_⟩
  exact work_eq_zero.mp (by omega)

def lookups (_ : Fin 2) : Call := .op (.getRawWithExpiry 0 (.config "k"))

theorem all_return_without_stats_lookups :
    useful [0,0,1,1,0] (started 0 lookups) ≤ 20 ∧
      (useful [0,0,1,1,0] (started 0 lookups) = 20 →
        ∀ k, (Machine.final Locks.step [0,0,1,1,0] (started 0 lookups)).todo k = []) := by
  have hturns : ∑ k, cost (program 0 k (lookups k)) = 20 := by decide
  have h := all_return_without_stats 0 lookups (fun k => by simp [lookups]) [0,0,1,1,0]
  rw [hturns] at h
  exact ⟨h.1,h.2.2⟩

end MeteredCache
end ProofStell.Cache
