import ProofStell.Lib.Machine
import Mathlib.Algebra.BigOperators.Group.Finset.Basic
import Mathlib.Data.Fintype.BigOperators
import Mathlib.Data.Set.Finite.Lemmas
import Mathlib.Logic.Function.Basic

/-! Tasks that share data behind reader-writer locks with fair queues. What a task holds and has
still to do is a matter of its own program; who waits for whom is not. -/
namespace Locks
variable {κ ℓ σ : Type*}

inductive Mode where
  | shared | exclusive
  deriving DecidableEq, Repr

/-- An action of a task; only `work` touches the data. -/
inductive Act (ℓ σ : Type*) where
  | lock (l : ℓ) (m : Mode)
  | work (f : σ → σ)
  | unlock (l : ℓ)

/-- Who holds a lock, and who waits for it in the order of arrival. -/
structure RwLock (κ : Type*) where
  holders : List (κ × Mode)
  queue : List (κ × Mode)

def RwLock.admits (r : RwLock κ) : Mode → Bool
  | .shared => r.holders.all fun p => p.2 = .shared
  | .exclusive => r.holders.isEmpty

structure State (κ ℓ σ : Type*) where
  data : σ
  locks : ℓ → RwLock κ
  todo : κ → List (Act ℓ σ)

def start (data : σ) (program : κ → List (Act ℓ σ)) : State κ ℓ σ :=
  ⟨data,fun _ => ⟨[],[]⟩,program⟩

section
variable [DecidableEq ℓ]

def Act.after (held : List (ℓ × Mode)) : Act ℓ σ → List (ℓ × Mode)
  | .lock l m => (l,m)::held
  | .work _ => held
  | .unlock l => held.filter fun p => p.1≠l

def configs : List (ℓ × Mode) → List (Act ℓ σ) → List (List (ℓ × Mode) × List (Act ℓ σ))
  | held, [] => [(held,[])]
  | held, a::rest => (held,a::rest)::configs (a.after held) rest

theorem configs_self (held : List (ℓ × Mode)) (program : List (Act ℓ σ)) :
    (held,program)∈configs held program := by
  cases program <;> exact List.mem_cons_self

theorem configs_next {held h : List (ℓ × Mode)} {program rest : List (Act ℓ σ)} {a : Act ℓ σ}
    (hmem : (h,a::rest)∈configs held program) : (a.after h,rest)∈configs held program := by
  induction program generalizing held with
  | nil => simp [configs] at hmem
  | cons b program ih =>
    rw [configs,List.mem_cons] at hmem ⊢
    obtain heq | hmem := hmem
    · cases heq
      exact Or.inr (configs_self _ _)
    · exact Or.inr (ih hmem)

theorem configs_suffix {held : List (ℓ × Mode)} {program : List (Act ℓ σ)}
    {c : List (ℓ × Mode) × List (Act ℓ σ)} (hmem : c∈configs held program) : c.2 <:+ program := by
  induction program generalizing held with
  | nil =>
    obtain rfl := List.mem_singleton.mp hmem
    exact List.suffix_refl _
  | cons b program ih =>
    rw [configs,List.mem_cons] at hmem
    obtain rfl | hmem := hmem
    · exact List.suffix_refl _
    · exact (ih hmem).trans (List.suffix_cons b program)

end

section
variable [DecidableEq κ] [DecidableEq ℓ]

def State.setLock (s : State κ ℓ σ) (l : ℓ) (r : RwLock κ) : State κ ℓ σ :=
  { s with locks := Function.update s.locks l r }

def State.proceed (s : State κ ℓ σ) (k : κ) (rest : List (Act ℓ σ)) : State κ ℓ σ :=
  { s with todo := Function.update s.todo k rest }

namespace State
variable (s : State κ ℓ σ) (l l' : ℓ) (r : RwLock κ) (j k : κ) (rest : List (Act ℓ σ))

omit [DecidableEq κ] in
@[simp] theorem setLock_data : (s.setLock l r).data = s.data := rfl

omit [DecidableEq κ] in
@[simp] theorem setLock_todo : (s.setLock l r).todo = s.todo := rfl

omit [DecidableEq κ] in
@[simp] theorem setLock_locks : (s.setLock l r).locks l' = if l' = l then r else s.locks l' :=
  Function.update_apply _ _ _ _

omit [DecidableEq ℓ] in
@[simp] theorem proceed_data : (s.proceed k rest).data = s.data := rfl

omit [DecidableEq ℓ] in
@[simp] theorem proceed_locks : (s.proceed k rest).locks = s.locks := rfl

omit [DecidableEq ℓ] in
@[simp] theorem proceed_todo : (s.proceed k rest).todo j = if j = k then rest else s.todo j :=
  Function.update_apply _ _ _ _

end State

/-- A turn of a task. It joins the queue of a lock, and takes the lock when it is the first there
and the lock can be had; while it cannot, the turn does nothing. -/
def step (k : κ) (s : State κ ℓ σ) : Unit × State κ ℓ σ :=
  ((),match s.todo k with
    | [] => s
    | .lock l m::rest =>
      let r := s.locks l
      if (k,m)∈r.queue then
        if r.queue.head? = some (k,m) ∧ r.admits m = true then
          (s.setLock l ⟨(k,m)::r.holders,r.queue.tail⟩).proceed k rest
        else s
      else s.setLock l ⟨r.holders,r.queue++[(k,m)]⟩
    | .work f::rest => { s with data := f s.data }.proceed k rest
    | .unlock l::rest =>
      let r := s.locks l
      (s.setLock l ⟨r.holders.filter fun p => p.1≠k,r.queue⟩).proceed k rest)

def State.ready (s : State κ ℓ σ) (k : κ) : Bool :=
  match s.todo k with
  | [] => false
  | .lock l m::_ => (k,m)∉(s.locks l).queue ∨
      ((s.locks l).queue.head? = some (k,m) ∧ (s.locks l).admits m = true)
  | .work _::_ | .unlock _::_ => true

inductive Moves (s : State κ ℓ σ) (k : κ) : State κ ℓ σ → Prop
  | stay : s.ready k = false → Moves s k s
  | join {l : ℓ} {m : Mode} {rest : List (Act ℓ σ)} : s.todo k = .lock l m::rest →
      (k,m)∉(s.locks l).queue →
      Moves s k (s.setLock l ⟨(s.locks l).holders,(s.locks l).queue++[(k,m)]⟩)
  | enter {l : ℓ} {m : Mode} {rest : List (Act ℓ σ)} {queue : List (κ × Mode)} :
      s.todo k = .lock l m::rest → (s.locks l).queue = (k,m)::queue →
      (s.locks l).admits m = true →
      Moves s k ((s.setLock l ⟨(k,m)::(s.locks l).holders,queue⟩).proceed k rest)
  | work {f : σ → σ} {rest : List (Act ℓ σ)} : s.todo k = .work f::rest →
      Moves s k ({ s with data := f s.data }.proceed k rest)
  | leave {l : ℓ} {rest : List (Act ℓ σ)} : s.todo k = .unlock l::rest →
      Moves s k ((s.setLock l
        ⟨(s.locks l).holders.filter fun p => p.1≠k,(s.locks l).queue⟩).proceed k rest)

theorem step_moves (k : κ) (s : State κ ℓ σ) : Moves s k (step k s).2 := by
  cases hk : s.todo k with
  | nil =>
    rw [show (step k s).2 = s by simp only [step,hk]]
    exact .stay (by simp only [State.ready,hk])
  | cons a rest =>
    cases a with
    | lock l m =>
      by_cases hmem : (k,m)∈(s.locks l).queue
      · by_cases hfirst : (s.locks l).queue.head? = some (k,m) ∧ (s.locks l).admits m = true
        · obtain ⟨queue,hqueue⟩ := List.head?_eq_some_iff.mp hfirst.1
          have henter := Moves.enter hk hqueue hfirst.2
          have htail : queue = (s.locks l).queue.tail := by rw [hqueue,List.tail_cons]
          rw [htail] at henter
          simpa only [step,hk,if_pos hmem,if_pos hfirst] using henter
        · rw [show (step k s).2 = s by simp only [step,hk,if_pos hmem,if_neg hfirst]]
          exact .stay (by simp only [State.ready,hk]; simp [hmem,hfirst])
      · simp only [step,hk,if_neg hmem]
        exact .join hk hmem
    | work f =>
      simp only [step,hk]
      exact .work hk
    | unlock l =>
      simp only [step,hk]
      exact .leave hk

/-- What holds in every state: a task is somewhere in its program with the locks that it holds
there, it waits only for the lock it needs next, and a writer is alone. -/
structure Valid (program : κ → List (Act ℓ σ)) (s : State κ ℓ σ) : Prop where
  task : ∀ k, ∃ held, (held,s.todo k)∈configs [] (program k) ∧
    ∀ l m, (k,m)∈(s.locks l).holders ↔ (l,m)∈held
  waiting : ∀ l k m, (k,m)∈(s.locks l).queue → ∃ rest, s.todo k = .lock l m::rest
  nodup : ∀ l, (s.locks l).queue.Nodup
  alone : ∀ l k, (k,.exclusive)∈(s.locks l).holders →
    ∀ p∈(s.locks l).holders, p = (k,.exclusive)

omit [DecidableEq κ] in
theorem start_valid (data : σ) (program : κ → List (Act ℓ σ)) :
    Valid program (start data program) where
  task k := ⟨[],configs_self _ _,by simp [start]⟩
  waiting l k m h := by simp [start] at h
  nodup l := List.nodup_nil
  alone l k h := by simp [start] at h

namespace Valid
variable {program : κ → List (Act ℓ σ)} {s : State κ ℓ σ}

omit [DecidableEq κ] in
theorem waits_once (h : Valid program s) {k : κ} {l l' : ℓ} {m m' : Mode}
    {rest : List (Act ℓ σ)} (hk : s.todo k = .lock l m::rest)
    (hmem : (k,m')∈(s.locks l').queue) : l' = l ∧ m' = m := by
  obtain ⟨rest',hk'⟩ := h.waiting l' k m' hmem
  rw [hk,List.cons.injEq,Act.lock.injEq] at hk'
  exact ⟨hk'.1.1.symm,hk'.1.2.symm⟩

theorem not_queued (h : Valid program s) {k : κ} {l l' : ℓ} {m m' : Mode}
    {rest rest' : List (Act ℓ σ)} {holders queue : List (κ × Mode)}
    (hk : s.todo k = .lock l m::rest) (hqueue : (s.locks l).queue = (k,m)::queue) :
    (k,m')∉(((s.setLock l ⟨holders,queue⟩).proceed k rest').locks l').queue := by
  have hnodup := h.nodup l
  rw [hqueue,List.nodup_cons] at hnodup
  rw [State.proceed_locks,State.setLock_locks]
  split
  · intro hmem
    have hold : (k,m')∈(s.locks l).queue := by
      rw [hqueue]
      exact List.mem_cons_of_mem _ hmem
    obtain ⟨_,rfl⟩ := h.waits_once hk hold
    exact hnodup.1 hmem
  · next hl => exact fun hmem => hl (h.waits_once hk hmem).1

omit [DecidableEq κ] in
theorem task_other (h : Valid program s) {s' : State κ ℓ σ} {j : κ} (htodo : s'.todo j = s.todo j)
    (hheld : ∀ l m, (j,m)∈(s'.locks l).holders ↔ (j,m)∈(s.locks l).holders) :
    ∃ held, (held,s'.todo j)∈configs [] (program j) ∧
      ∀ l m, (j,m)∈(s'.locks l).holders ↔ (l,m)∈held := by
  obtain ⟨held,hmem,hiff⟩ := h.task j
  rw [htodo]
  exact ⟨held,hmem,fun l m => (hheld l m).trans (hiff l m)⟩

omit [DecidableEq κ] in
theorem task_self (h : Valid program s) {s' : State κ ℓ σ} {k : κ} {a : Act ℓ σ}
    {rest : List (Act ℓ σ)} (hk : s.todo k = a::rest) (htodo : s'.todo k = rest)
    (hheld : ∀ held, (∀ l m, (k,m)∈(s.locks l).holders ↔ (l,m)∈held) →
      ∀ l m, (k,m)∈(s'.locks l).holders ↔ (l,m)∈a.after held) :
    ∃ held, (held,s'.todo k)∈configs [] (program k) ∧
      ∀ l m, (k,m)∈(s'.locks l).holders ↔ (l,m)∈held := by
  obtain ⟨held,hmem,hiff⟩ := h.task k
  rw [hk] at hmem
  rw [htodo]
  exact ⟨a.after held,configs_next hmem,hheld held hiff⟩

omit [DecidableEq κ] in
protected theorem join (h : Valid program s) {k : κ} {l : ℓ} {m : Mode} {rest : List (Act ℓ σ)}
    (hk : s.todo k = .lock l m::rest) (hnew : (k,m)∉(s.locks l).queue) :
    Valid program (s.setLock l ⟨(s.locks l).holders,(s.locks l).queue++[(k,m)]⟩) := by
  have hsame (l' : ℓ) : ((s.setLock l ⟨(s.locks l).holders,
      (s.locks l).queue++[(k,m)]⟩).locks l').holders = (s.locks l').holders := by
    rw [State.setLock_locks]
    split
    · next hl => rw [hl]
    · rfl
  refine ⟨fun j => h.task_other rfl fun l' m' => by rw [hsame],fun l' j m' hmem => ?_,
    fun l' => ?_,fun l' j hmem => ?_⟩
  · rw [State.setLock_locks] at hmem
    split at hmem
    · next hl =>
      subst hl
      obtain hmem | heq := List.mem_append.mp hmem
      · exact h.waiting l' j m' hmem
      · cases List.mem_singleton.mp heq
        exact ⟨rest,hk⟩
    · exact h.waiting l' j m' hmem
  · rw [State.setLock_locks]
    split
    · exact (h.nodup l).append (List.nodup_singleton _) (by simpa using hnew)
    · exact h.nodup l'
  · rw [hsame] at hmem ⊢
    exact h.alone l' j hmem

protected theorem enter (h : Valid program s) {k : κ} {l : ℓ} {m : Mode} {rest : List (Act ℓ σ)}
    {queue : List (κ × Mode)} (hk : s.todo k = .lock l m::rest)
    (hqueue : (s.locks l).queue = (k,m)::queue) (hadmits : (s.locks l).admits m = true) :
    Valid program ((s.setLock l ⟨(k,m)::(s.locks l).holders,queue⟩).proceed k rest) := by
  refine ⟨fun j => ?_,fun l' j m' hmem => ?_,fun l' => ?_,fun l' j hmem => ?_⟩
  · by_cases hj : j = k
    · subst hj
      refine h.task_self hk (by simp) fun held hiff l' m' => ?_
      rw [Act.after,List.mem_cons,← hiff,State.proceed_locks,State.setLock_locks]
      split
      · next hl => simp [hl]
      · next hl => simp [hl]
    · refine h.task_other (by simp [hj]) fun l' m' => ?_
      rw [State.proceed_locks,State.setLock_locks]
      split
      · next hl => simp [hl,hj]
      · rfl
  · have hj : j≠k := by
      rintro rfl
      exact h.not_queued hk hqueue hmem
    have hold : (j,m')∈(s.locks l').queue := by
      rw [State.proceed_locks,State.setLock_locks] at hmem
      split at hmem
      · next hl =>
        rw [hl,hqueue]
        exact List.mem_cons_of_mem _ hmem
      · exact hmem
    rw [State.proceed_todo,if_neg hj]
    exact h.waiting l' j m' hold
  · rw [State.proceed_locks,State.setLock_locks]
    split
    · have hnodup := h.nodup l
      rw [hqueue,List.nodup_cons] at hnodup
      exact hnodup.2
    · exact h.nodup l'
  · rw [State.proceed_locks,State.setLock_locks] at hmem ⊢
    split at hmem
    · next hl =>
      rw [if_pos hl]
      cases m with
      | exclusive =>
        have hnone : (s.locks l).holders = [] := List.isEmpty_iff.mp hadmits
        rw [hnone] at hmem ⊢
        intro p hp
        exact (List.mem_singleton.mp hp).trans (List.mem_singleton.mp hmem).symm
      | shared =>
        have hshared := List.all_eq_true.mp hadmits
        obtain heq | hmem := List.mem_cons.mp hmem
        · cases heq
        · exact absurd (hshared _ hmem) (by simp)
    · next hl =>
      rw [if_neg hl]
      exact h.alone l' j hmem

protected theorem work (h : Valid program s) {k : κ} {f : σ → σ} {rest : List (Act ℓ σ)}
    (hk : s.todo k = .work f::rest) : Valid program ({ s with data := f s.data }.proceed k rest) := by
  refine ⟨fun j => ?_,fun l' j m' hmem => ?_,h.nodup,h.alone⟩
  · by_cases hj : j = k
    · subst hj
      exact h.task_self hk (by simp) fun held hiff => hiff
    · exact h.task_other (by simp [hj]) fun _ _ => Iff.rfl
  · obtain ⟨rest',hj'⟩ := h.waiting l' j m' hmem
    have hj : j≠k := by
      rintro rfl
      cases hk.symm.trans hj'
    exact ⟨rest',by rwa [State.proceed_todo,if_neg hj]⟩

protected theorem leave (h : Valid program s) {k : κ} {l : ℓ} {rest : List (Act ℓ σ)}
    (hk : s.todo k = .unlock l::rest) :
    Valid program ((s.setLock l
      ⟨(s.locks l).holders.filter fun p => p.1≠k,(s.locks l).queue⟩).proceed k rest) := by
  have hqueued (l' : ℓ) : (((s.setLock l ⟨(s.locks l).holders.filter fun p => p.1≠k,
      (s.locks l).queue⟩).proceed k rest).locks l').queue = (s.locks l').queue := by
    rw [State.proceed_locks,State.setLock_locks]
    split
    · next hl => rw [hl]
    · rfl
  refine ⟨fun j => ?_,fun l' j m' hmem => ?_,fun l' => by rw [hqueued]; exact h.nodup l',
    fun l' j hmem => ?_⟩
  · by_cases hj : j = k
    · subst hj
      refine h.task_self hk (by simp) fun held hiff l' m' => ?_
      rw [Act.after,List.mem_filter,← hiff,State.proceed_locks,State.setLock_locks]
      split
      · next hl => simp [hl]
      · next hl => simp [hl]
    · refine h.task_other (by simp [hj]) fun l' m' => ?_
      rw [State.proceed_locks,State.setLock_locks]
      split
      · next hl => simp [hl,hj]
      · rfl
  · rw [hqueued] at hmem
    obtain ⟨rest',hj'⟩ := h.waiting l' j m' hmem
    have hj : j≠k := by
      rintro rfl
      cases hk.symm.trans hj'
    exact ⟨rest',by rwa [State.proceed_todo,if_neg hj]⟩
  · rw [State.proceed_locks,State.setLock_locks] at hmem ⊢
    split at hmem
    · next hl =>
      rw [if_pos hl]
      intro p hp
      exact h.alone l j (List.mem_filter.mp hmem).1 p (List.mem_filter.mp hp).1
    · next hl =>
      rw [if_neg hl]
      exact h.alone l' j hmem

protected theorem step (h : Valid program s) (k : κ) : Valid program (step k s).2 := by
  have hmoves := step_moves k s
  generalize (Locks.step k s).2 = s' at hmoves ⊢
  cases hmoves with
  | stay => exact h
  | join hk hnew => exact h.join hk hnew
  | enter hk hqueue hadmits => exact h.enter hk hqueue hadmits
  | work hk => exact h.work hk
  | leave hk => exact h.leave hk

end Valid

theorem run_valid (data : σ) (program : κ → List (Act ℓ σ)) (l : List κ) :
    Valid program (Machine.final step l (start data program)) :=
  Machine.final_invariant (P := Valid program) (fun k _ h => h.step k) l _
    (start_valid data program)

def State.Holds (s : State κ ℓ σ) (k : κ) (l : ℓ) : Prop := ∃ m, (k,m)∈(s.locks l).holders

def State.Waits (s : State κ ℓ σ) (k : κ) (l : ℓ) (m : Mode) : Prop :=
  (k,m)∈(s.locks l).queue ∧ ∃ rest, s.todo k = .lock l m::rest

theorem other_todo {s : State κ ℓ σ} {j k : κ} (hj : j≠k) : (step k s).2.todo j = s.todo j := by
  have hmoves := step_moves k s
  generalize (Locks.step k s).2 = s' at hmoves ⊢
  cases hmoves with
  | stay | join => rfl
  | enter | work | leave => simp [hj]

theorem other_keeps {s : State κ ℓ σ} {j k : κ} (hj : j≠k) (l : ℓ) (m : Mode) :
    ((j,m)∈((step k s).2.locks l).holders ↔ (j,m)∈(s.locks l).holders) ∧
      ((j,m)∈((step k s).2.locks l).queue ↔ (j,m)∈(s.locks l).queue) := by
  have hmoves := step_moves k s
  generalize (Locks.step k s).2 = s' at hmoves ⊢
  cases hmoves with
  | stay => exact ⟨Iff.rfl,Iff.rfl⟩
  | @join l' m' rest hk hnew =>
    rw [State.setLock_locks]
    split
    · next hl => simp [hl,hj]
    · exact ⟨Iff.rfl,Iff.rfl⟩
  | @enter l' m' rest queue hk hqueue hadmits =>
    rw [State.proceed_locks,State.setLock_locks]
    split
    · next hl => simp [hl,hj,hqueue]
    · exact ⟨Iff.rfl,Iff.rfl⟩
  | work hk => exact ⟨Iff.rfl,Iff.rfl⟩
  | @leave l' rest hk =>
    rw [State.proceed_locks,State.setLock_locks]
    split
    · next hl => simp [hl,hj]
    · exact ⟨Iff.rfl,Iff.rfl⟩

omit [DecidableEq ℓ] in
theorem not_ready {s : State κ ℓ σ} {j k : κ} {l : ℓ} {m m' : Mode} (hk : s.Waits k l m)
    (hj : (j,m')∈(s.locks l).holders) (hexcl : m = .exclusive ∨ m' = .exclusive) :
    s.ready k = false := by
  obtain ⟨hmem,rest,htodo⟩ := hk
  have hadmits : (s.locks l).admits m = false := by
    cases m with
    | exclusive =>
      rw [RwLock.admits,List.isEmpty_eq_false_iff]
      exact List.ne_nil_of_mem hj
    | shared =>
      obtain hm | rfl := hexcl
      · cases hm
      · exact List.all_eq_false.mpr ⟨_,hj,by simp⟩
  simp [State.ready,htodo,hmem,hadmits]

/-- Two tasks each hold what the other waits for. -/
structure State.Deadlock (s : State κ ℓ σ) (j k : κ) (l l' : ℓ) : Prop where
  ne : j≠k
  first : ∃ m n, (j,m)∈(s.locks l).holders ∧ s.Waits k l n ∧ (n = .exclusive ∨ m = .exclusive)
  second : ∃ m n, (k,m)∈(s.locks l').holders ∧ s.Waits j l' n ∧ (n = .exclusive ∨ m = .exclusive)

omit [DecidableEq ℓ] in
theorem State.Deadlock.blocked {s : State κ ℓ σ} {j k : κ} {l l' : ℓ} (h : s.Deadlock j k l l') :
    s.ready j = false ∧ s.ready k = false := by
  obtain ⟨-,⟨m,n,hj,hk,hexcl⟩,⟨m',n',hk',hj',hexcl'⟩⟩ := h
  exact ⟨not_ready hj' hk' hexcl',not_ready hk hj hexcl⟩

theorem step_eq_self {s : State κ ℓ σ} {k : κ} (h : s.ready k = false) : (step k s).2 = s := by
  have hmoves := step_moves k s
  generalize (Locks.step k s).2 = s' at hmoves ⊢
  cases hmoves with
  | stay => rfl
  | join hk hnew => simp [State.ready,hk,hnew] at h
  | enter hk hqueue hadmits => simp [State.ready,hk,hqueue,hadmits] at h
  | work hk => simp [State.ready,hk] at h
  | leave hk => simp [State.ready,hk] at h

/-- A deadlock is for ever, and the two never do anything again. -/
theorem State.Deadlock.run {s : State κ ℓ σ} {j k : κ} {l l' : ℓ} (h : s.Deadlock j k l l')
    (turns : List κ) : (Machine.final Locks.step turns s).Deadlock j k l l' ∧
      (Machine.final Locks.step turns s).todo j = s.todo j ∧
      (Machine.final Locks.step turns s).todo k = s.todo k := by
  induction turns generalizing s with
  | nil => exact ⟨h,rfl,rfl⟩
  | cons i turns ih =>
    have hone : (Locks.step i s).2.Deadlock j k l l' ∧ (Locks.step i s).2.todo j = s.todo j ∧
        (Locks.step i s).2.todo k = s.todo k := by
      by_cases hblocked : i = j ∨ i = k
      · have hself : (Locks.step i s).2 = s := by
          obtain rfl | rfl := hblocked
          · exact step_eq_self h.blocked.1
          · exact step_eq_self h.blocked.2
        rw [hself]
        exact ⟨h,rfl,rfl⟩
      · rw [not_or] at hblocked
        obtain ⟨hne,⟨m,n,hj,⟨hk,rest,hkt⟩,hexcl⟩,⟨m',n',hk',⟨hj',rest',hjt⟩,hexcl'⟩⟩ := h
        have hotherj : j≠i := Ne.symm hblocked.1
        have hotherk : k≠i := Ne.symm hblocked.2
        have hwaitk : (Locks.step i s).2.Waits k l n :=
          ⟨(other_keeps hotherk l n).2.mpr hk,rest,(other_todo hotherk).trans hkt⟩
        have hwaitj : (Locks.step i s).2.Waits j l' n' :=
          ⟨(other_keeps hotherj l' n').2.mpr hj',rest',(other_todo hotherj).trans hjt⟩
        exact ⟨⟨hne,⟨m,n,(other_keeps hotherj l m).1.mpr hj,hwaitk,hexcl⟩,
          ⟨m',n',(other_keeps hotherk l' m').1.mpr hk',hwaitj,hexcl'⟩⟩,
          other_todo hotherj,other_todo hotherk⟩
    obtain ⟨hdead,hj,hk⟩ := ih hone.1
    exact ⟨hdead,hj.trans hone.2.1,hk.trans hone.2.2⟩

/-- There is work left, and nobody can do anything. -/
structure State.Stuck (s : State κ ℓ σ) : Prop where
  left : ∃ k, s.todo k≠[]
  blocked : ∀ k, s.ready k = false

def Clean (program : List (Act ℓ σ)) : Prop := ∀ held, (held,[])∈configs [] program → held = []

namespace State.Stuck
variable {program : κ → List (Act ℓ σ)} {s : State κ ℓ σ}

omit [DecidableEq ℓ] in
theorem waits (hs : s.Stuck) {k : κ} (hk : s.todo k≠[]) : ∃ l m, s.Waits k l m := by
  have hblocked := hs.blocked k
  rw [State.ready] at hblocked
  cases htodo : s.todo k with
  | nil => exact absurd htodo hk
  | cons a rest =>
    rw [htodo] at hblocked
    cases a with
    | lock l m =>
      have hmem : (k,m)∈(s.locks l).queue := by
        by_contra hmem
        simp [hmem] at hblocked
      exact ⟨l,m,hmem,rest,htodo⟩
    | work f => cases hblocked
    | unlock l => cases hblocked

theorem held (hs : s.Stuck) (h : Valid program s) {l : ℓ} (hl : (s.locks l).queue≠[]) :
    ∃ k, s.Holds k l := by
  cases hholders : (s.locks l).holders with
  | cons p holders => exact ⟨p.1,p.2,by rw [hholders]; exact List.mem_cons_self⟩
  | nil =>
    obtain ⟨⟨k,m⟩,queue,hqueue⟩ := List.exists_cons_of_ne_nil hl
    obtain ⟨rest,hk⟩ := h.waiting l k m (by rw [hqueue]; exact List.mem_cons_self)
    have hadmits : (s.locks l).admits m = true := by cases m <;> simp [RwLock.admits,hholders]
    have hready : s.ready k = true := by simp [State.ready,hk,hqueue,hadmits]
    rw [hs.blocked k] at hready
    cases hready

/-- A task that holds a lock still has to give it back. -/
theorem holder_waits (hs : s.Stuck) (h : Valid program s) (hclean : ∀ k, Clean (program k)) {k : κ}
    {l : ℓ} (hk : s.Holds k l) : ∃ l' m', s.Waits k l' m' := by
  apply hs.waits
  intro hnil
  obtain ⟨m,hm⟩ := hk
  obtain ⟨held,hmem,hiff⟩ := h.task k
  rw [hnil] at hmem
  rw [hclean k held hmem] at hiff
  exact absurd ((hiff l m).mp hm) List.not_mem_nil

/-- Wherever everybody is stuck somebody holds a lock and waits for one that is not above it. -/
theorem inversion [Finite ℓ] (rank : ℓ → Nat) (hs : s.Stuck) (h : Valid program s)
    (hclean : ∀ k, Clean (program k)) :
    ∃ k l l' m, s.Holds k l ∧ s.Waits k l' m ∧ rank l' ≤ rank l := by
  obtain ⟨k,hk⟩ := hs.left
  obtain ⟨l,m,hwait⟩ := hs.waits hk
  have hsome : {l | ∃ k, s.Holds k l}.Nonempty :=
    ⟨l,hs.held h (List.ne_nil_of_mem hwait.1)⟩
  obtain ⟨top,⟨j,hj⟩,hmax⟩ := Set.exists_max_image _ rank (Set.toFinite _) hsome
  obtain ⟨l',m',hwait'⟩ := hs.holder_waits h hclean hj
  exact ⟨j,top,l',m',hj,hwait',hmax l' (hs.held h (List.ne_nil_of_mem hwait'.1))⟩

end State.Stuck

def Ordered (rank : ℓ → Nat) (program : List (Act ℓ σ)) : Prop :=
  ∀ held l m rest, (held,.lock l m::rest)∈configs [] program → ∀ p∈held, rank p.1 < rank l

theorem never_stuck [Finite ℓ] {rank : ℓ → Nat} {program : κ → List (Act ℓ σ)}
    {s : State κ ℓ σ} (h : Valid program s) (hclean : ∀ k, Clean (program k))
    (hordered : ∀ k, Ordered rank (program k)) : ¬s.Stuck := by
  intro hs
  obtain ⟨k,l,l',m,⟨m',hheld⟩,⟨_,rest,hk⟩,hrank⟩ := hs.inversion rank h hclean
  obtain ⟨held,hmem,hiff⟩ := h.task k
  rw [hk] at hmem
  exact absurd hrank (Nat.not_le.mpr (hordered k held l' m rest hmem (l,m') ((hiff l m').mp hheld)))

/-- Turns that a program takes: a lock is queued for and then taken. -/
def cost : List (Act ℓ σ) → Nat
  | [] => 0
  | .lock _ _::rest => 2+cost rest
  | .work _::rest | .unlock _::rest => 1+cost rest

def State.owed (s : State κ ℓ σ) (k : κ) : Nat :=
  match s.todo k with
  | .lock l m::rest => (if (k,m)∈(s.locks l).queue then 1 else 2)+cost rest
  | rest => cost rest

omit [DecidableEq ℓ] in
theorem owed_of_unqueued {s : State κ ℓ σ} {k : κ} (h : ∀ l m, (k,m)∉(s.locks l).queue) :
    s.owed k = cost (s.todo k) := by
  rw [State.owed]
  split
  · next l m rest hk => rw [if_neg (h l m),hk,cost]
  · rfl

omit [DecidableEq ℓ] in
theorem owed_eq_zero {s : State κ ℓ σ} {k : κ} : s.owed k = 0 ↔ s.todo k = [] := by
  rw [State.owed]
  cases s.todo k with
  | nil => simp [cost]
  | cons a rest =>
    cases a with
    | lock l m => simp only [reduceCtorEq,iff_false]; split <;> omega
    | work f => simp [cost]
    | unlock l => simp [cost]

omit [DecidableEq ℓ] in
theorem owed_congr {s s' : State κ ℓ σ} {k : κ} (htodo : s'.todo k = s.todo k)
    (hqueued : ∀ l m, (k,m)∈(s'.locks l).queue ↔ (k,m)∈(s.locks l).queue) :
    s'.owed k = s.owed k := by
  simp only [State.owed,htodo,hqueued]

theorem owed_other {s : State κ ℓ σ} {j k : κ} (hj : j≠k) :
    (step k s).2.owed j = s.owed j :=
  owed_congr (other_todo hj) fun l m => (other_keeps hj l m).2

namespace Valid
variable {program : κ → List (Act ℓ σ)} {s : State κ ℓ σ}

omit [DecidableEq κ] in
theorem unqueued (h : Valid program s) {k : κ} {a : Act ℓ σ} {rest : List (Act ℓ σ)}
    (hk : s.todo k = a::rest) (ha : ∀ l m, a≠.lock l m) (l : ℓ) (m : Mode) :
    (k,m)∉(s.locks l).queue := by
  intro hmem
  obtain ⟨rest',hk'⟩ := h.waiting l k m hmem
  rw [hk] at hk'
  exact ha l m (List.cons.inj hk').1

theorem owed_self (h : Valid program s) {k : κ} (hready : s.ready k = true) :
    (step k s).2.owed k+1 = s.owed k := by
  have hmoves := step_moves k s
  generalize (Locks.step k s).2 = s' at hmoves ⊢
  cases hmoves with
  | stay hblocked => rw [hblocked] at hready; cases hready
  | @join l m rest hk hnew =>
    simp only [State.owed,State.setLock_todo,State.setLock_locks,hk,if_true,List.mem_append,
      List.mem_singleton,or_true,if_neg hnew]
    omega
  | @enter l m rest queue hk hqueue hadmits =>
    rw [owed_of_unqueued fun l' m' => h.not_queued hk hqueue,State.proceed_todo,if_pos rfl]
    simp only [State.owed,hk,hqueue,List.mem_cons_self,if_true]
    omega
  | @work f rest hk =>
    have hnone := h.unqueued hk (by simp)
    have hafter := owed_of_unqueued (s := ({ s with data := f s.data } : State κ ℓ σ).proceed k rest)
      hnone
    rw [hafter,owed_of_unqueued hnone,State.proceed_todo,if_pos rfl,hk,cost,Nat.add_comm]
  | @leave l rest hk =>
    have hnone := h.unqueued hk (by simp)
    rw [owed_of_unqueued hnone,owed_of_unqueued fun l' m' => ?_,State.proceed_todo,if_pos rfl,hk,
      cost,Nat.add_comm]
    rw [State.proceed_locks,State.setLock_locks]
    split
    · exact hnone l m'
    · exact hnone l' m'

end Valid

section
variable [Fintype κ] {program : κ → List (Act ℓ σ)} {s : State κ ℓ σ}

def State.work (s : State κ ℓ σ) : Nat := ∑ k, s.owed k

/-- Every turn that does something is one turn less; the others change nothing. -/
theorem work_step (h : Valid program s) (k : κ) :
    (step k s).2.work+(if s.ready k = true then 1 else 0) = s.work := by
  by_cases hready : s.ready k = true
  · have hrest : ∑ j∈Finset.univ.erase k, (step k s).2.owed j = ∑ j∈Finset.univ.erase k, s.owed j :=
      Finset.sum_congr rfl fun j hj => owed_other (Finset.ne_of_mem_erase hj)
    have hself := h.owed_self hready
    rw [if_pos hready,State.work,State.work,← Finset.add_sum_erase _ _ (Finset.mem_univ k),
      ← Finset.add_sum_erase _ _ (Finset.mem_univ k),hrest]
    omega
  · rw [step_eq_self (Bool.eq_false_iff.mpr hready),if_neg hready,Nat.add_zero]

abbrev useful (l : List κ) (s : State κ ℓ σ) : Nat :=
  Machine.total step (fun k s => if s.ready k = true then 1 else 0) l s

theorem work_run (h : Valid program s) (l : List κ) :
    (Machine.final step l s).work+useful l s = s.work := by
  have hbalance := Machine.total_balance (I := Valid program) State.work (fun _ _ => 0)
    (fun k s => if s.ready k = true then 1 else 0) (fun k _ h => h.step k)
    (fun k _ h => work_step h k) l h
  rwa [Machine.total_zero,Nat.add_zero] at hbalance

omit [DecidableEq ℓ] in
theorem work_eq_zero : s.work = 0 ↔ ∀ k, s.todo k = [] := by
  simp only [State.work,Finset.sum_eq_zero_iff,Finset.mem_univ,true_implies,owed_eq_zero]

omit [DecidableEq ℓ] in
/-- As long as work is left and nobody gets stuck, there is a turn that does something. -/
theorem exists_ready (hs : ¬s.Stuck) (hwork : s.work≠0) : ∃ k, s.ready k = true := by
  by_contra hnone
  rw [not_exists] at hnone
  have hleft : ∃ k, s.todo k≠[] := by
    by_contra hall
    exact hwork (work_eq_zero.mpr fun k => by by_contra hk; exact hall ⟨k,hk⟩)
  exact hs ⟨hleft,fun k => Bool.eq_false_iff.mpr (hnone k)⟩

end
end
end Locks
