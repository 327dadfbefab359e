import ProofStell.Lib.Machine
import Mathlib.Data.List.Induction
import Mathlib.Logic.Function.Basic

/-! Lock-free update loops on one shared word. Any number of callers load the word,
work out what to put in its place, and swap it in if the word is still the one they
loaded; whatever the interleaving, the calls that are through ran one after another. -/
namespace CasLoop
variable {κ ι ω ο : Type*}

/-- What a caller makes of the word it has loaded: swap in another one, or return
without touching it. -/
inductive Decision (ω ο : Type*) where
  | swap (next : ω) (out : ο)
  | stay (out : ο)

def Decision.apply (cur : ω) : Decision ω ο → ο × ω
  | .swap next out => (out,next)
  | .stay out => (out,cur)

def alone (decide : ι → ω → Decision ω ο) (i : ι) (w : ω) : ο × ω := (decide i w).apply w

inductive Caller (ι ω ο : Type*) where
  | idle
  | started (input : ι)
  | loaded (input : ι) (cur : ω)
  | done (input : ι) (out : ο)

inductive Step (κ ι : Type*) where
  | start (k : κ) (input : ι)
  | load (k : κ)
  | cas (k : κ) (spurious : Bool)

structure State (κ ι ω ο : Type*) where
  word : ω
  callers : κ → Caller ι ω ο

def State.init (w : ω) : State κ ι ω ο := ⟨w,fun _ => .idle⟩

section
variable [DecidableEq κ]

def State.move (s : State κ ι ω ο) (k : κ) (c : Caller ι ω ο) : State κ ι ω ο :=
  { s with callers := Function.update s.callers k c }

variable [DecidableEq ω]

/-- One atomic step; it answers with the call it completes, if any. A step its caller
is not ready for does nothing. -/
def step (decide : ι → ω → Decision ω ο) (x : Step κ ι) (s : State κ ι ω ο) :
    Option (κ × ι × ο) × State κ ι ω ο :=
  match x with
  | .start k i =>
    match s.callers k with
    | .idle => (none,s.move k (.started i))
    | _ => (none,s)
  | .load k =>
    match s.callers k with
    | .started i =>
      match decide i s.word with
      | .stay out => (some (k,i,out),s.move k (.done i out))
      | .swap _ _ => (none,s.move k (.loaded i s.word))
    | _ => (none,s)
  | .cas k spurious =>
    match s.callers k with
    | .loaded i cur =>
      if s.word = cur ∧ spurious = false then
        let r := alone decide i cur
        (some (k,i,r.1),{ s.move k (.done i r.1) with word := r.2 })
      else (none,s.move k (.started i))
    | _ => (none,s)

/-- The calls a run completes, in the order in which they are decided. -/
def completed (decide : ι → ω → Decision ω ο) (l : List (Step κ ι)) (s : State κ ι ω ο) :
    List (κ × ι × ο) :=
  (Machine.outputs (step decide) l s).filterMap Prod.snd

variable (decide : ι → ω → Decision ω ο)

theorem completed_append (u v : List (Step κ ι)) (s : State κ ι ω ο) :
    completed decide (u++v) s =
      completed decide u s++completed decide v (Machine.final (step decide) u s) := by
  rw [completed,Machine.outputs_append,List.filterMap_append]
  rfl

theorem completed_snoc (l : List (Step κ ι)) (x : Step κ ι) (s : State κ ι ω ο) :
    completed decide (l++[x]) s = completed decide l s++
      (step decide x (Machine.final (step decide) l s)).1.toList := by
  rw [completed_append]
  congr 1

/-- A step that completes no call leaves the word alone; one that does acts on the word
as the call alone would. -/
theorem step_word (x : Step κ ι) (s : State κ ι ω ο) :
    ((step decide x s).1 = none ∧ (step decide x s).2.word = s.word) ∨
      ∃ k i o, (step decide x s).1 = some (k,i,o) ∧
        alone decide i s.word = (o,(step decide x s).2.word) := by
  cases x with
  | start k i =>
    simp only [step]
    split <;> exact Or.inl ⟨rfl,rfl⟩
  | load k =>
    simp only [step]
    split
    · next i _ =>
      split
      · next out hd => exact Or.inr ⟨k,i,out,rfl,by rw [alone,hd]; rfl⟩
      · exact Or.inl ⟨rfl,rfl⟩
    · exact Or.inl ⟨rfl,rfl⟩
  | cas k spurious =>
    simp only [step]
    split
    · next i cur _ =>
      split
      · next h =>
        refine Or.inr ⟨k,i,_,rfl,?_⟩
        rw [h.1]
      · exact Or.inl ⟨rfl,rfl⟩
    · exact Or.inl ⟨rfl,rfl⟩

theorem step_done (x : Step κ ι) (s : State κ ι ω ο) (k : κ) (i : ι) (o : ο) :
    (step decide x s).2.callers k = .done i o ↔
      s.callers k = .done i o ∨ (step decide x s).1 = some (k,i,o) := by
  -- a caller that moves was not done before
  have going {j : κ} {c : Caller ι ω ο} (hj : ∀ i o, s.callers j≠.done i o)
      (hc : ∀ i o, c≠.done i o) :
      (s.move j c).callers k = .done i o ↔ s.callers k = .done i o := by
    by_cases hk : k = j
    · simp [State.move,hk,hj,hc]
    · simp [State.move,hk]
  have ending {j : κ} {i' : ι} {o' : ο} (hj : ∀ i o, s.callers j≠.done i o) :
      (s.move j (.done i' o')).callers k = .done i o ↔
        s.callers k = .done i o ∨ some (j,i',o') = some (k,i,o) := by
    by_cases hk : k = j
    · simp [State.move,hk,hj]
    · simp [State.move,hk,Ne.symm hk]
  cases x with
  | start j i' =>
    simp only [step]
    cases hc : s.callers j with
    | idle => simpa using going (by simp [hc]) (by simp)
    | _ => simp
  | load j =>
    simp only [step]
    cases hc : s.callers j with
    | started i' =>
      cases hd : decide i' s.word with
      | swap next out => simpa [hd] using going (by simp [hc]) (by simp)
      | stay out => simpa [hd] using ending (by simp [hc])
    | _ => simp
  | cas j spurious =>
    simp only [step]
    cases hc : s.callers j with
    | loaded i' cur =>
      dsimp only
      split
      · exact ending (by simp [hc])
      · simpa using going (by simp [hc]) (by simp)
    | _ => simp

theorem step_fresh {x : Step κ ι} {s : State κ ι ω ο} {k : κ} {i : ι} {o : ο}
    (h : (step decide x s).1 = some (k,i,o)) (i' : ι) (o' : ο) :
    s.callers k≠.done i' o' := by
  intro hdone
  cases x with
  | start j input =>
    simp only [step] at h
    split at h <;> cases h
  | load j =>
    simp only [step] at h
    split at h
    · next hc =>
      split at h
      · cases h
        rw [hdone] at hc
        cases hc
      · cases h
    · cases h
  | cas j spurious =>
    simp only [step] at h
    split at h
    · next hc =>
      split at h
      · cases h
        rw [hdone] at hc
        cases hc
      · cases h
    · cases h

def Caller.input : Caller ι ω ο → Option ι
  | .idle => none
  | .started i | .loaded i _ | .done i _ => some i

theorem step_input {x : Step κ ι} {s : State κ ι ω ο} {k : κ} {i : ι}
    (h : ((step decide x s).2.callers k).input = some i) :
    (s.callers k).input = some i ∨ x = .start k i := by
  have move {j : κ} {c : Caller ι ω ο} (hc : c.input = (s.callers j).input)
      (h : ((s.move j c).callers k).input = some i) : (s.callers k).input = some i := by
    by_cases hk : k = j
    · subst hk
      simpa [State.move,hc] using h
    · simpa [State.move,hk] using h
  cases x with
  | start j i' =>
    simp only [step] at h
    split at h
    · by_cases hk : k = j
      · subst hk
        have hi : i' = i := by simpa [State.move,Caller.input] using h
        exact Or.inr (by rw [hi])
      · exact Or.inl (by simpa [State.move,hk] using h)
    · exact Or.inl h
  | load j =>
    left
    simp only [step] at h
    split at h
    · next hj =>
      split at h <;> exact move (by rw [hj]; rfl) h
    · exact h
  | cas j spurious =>
    left
    simp only [step] at h
    split at h
    · next hj =>
      split at h <;> exact move (by rw [hj]; rfl) h
    · exact h

theorem started_of_input (l : List (Step κ ι)) (w : ω) {k : κ} {i : ι}
    (h : ((Machine.final (step decide) l (State.init w)).callers k).input = some i) :
    Step.start k i∈l := by
  induction l using List.reverseRecOn with
  | nil => cases h
  | append_singleton l x ih =>
    rw [Machine.final_snoc] at h
    obtain h | h := step_input decide h
    · exact List.mem_append_left _ (ih h)
    · exact List.mem_append_right _ (by rw [h]; exact List.mem_singleton_self _)

structure Linearized (w : ω) (order : List (κ × ι × ο)) (s : State κ ι ω ο) : Prop where
  outcomes : Machine.outputs (alone decide) (order.map (·.2.1)) w = order.map Prod.snd
  word : Machine.final (alone decide) (order.map (·.2.1)) w = s.word
  once : (order.map Prod.fst).Nodup
  complete : ∀ k i o, (k,i,o)∈order ↔ s.callers k = .done i o

theorem linearized_step {w : ω} {order : List (κ × ι × ο)} {s : State κ ι ω ο} (x : Step κ ι)
    (h : Linearized decide w order s) :
    Linearized decide w (order++(step decide x s).1.toList) (step decide x s).2 := by
  obtain ⟨hnone,hw⟩ | ⟨k,i,o,hsome,hw⟩ := step_word decide x s
  · rw [hnone,Option.toList_none,List.append_nil]
    refine ⟨h.outcomes,?_,h.once,?_⟩
    · rw [h.word,hw]
    · intro k i o
      rw [step_done,h.complete,hnone]
      simp
  · rw [hsome,Option.toList_some]
    have hfresh : k∉order.map Prod.fst := by
      intro hk
      obtain ⟨⟨k',i',o'⟩,hmem,heq⟩ := List.mem_map.mp hk
      have hdone := (h.complete k' i' o').mp hmem
      rw [show k' = k from heq] at hdone
      exact step_fresh decide hsome i' o' hdone
    refine ⟨?_,?_,?_,?_⟩
    · rw [List.map_append,Machine.outputs_append,h.outcomes,h.word]
      simp [Machine.outputs,hw]
    · rw [List.map_append,Machine.final_append,h.word]
      simp [Machine.final,hw]
    · rw [List.map_append,List.nodup_append]
      refine ⟨h.once,by simp,?_⟩
      intro a ha b hb hab
      rw [hab] at ha
      simp only [List.map_cons,List.map_nil,List.mem_singleton] at hb
      rw [hb] at ha
      exact hfresh ha
    · intro k' i' o'
      rw [step_done,← h.complete,hsome,List.mem_append,List.mem_singleton]
      simp [eq_comm]

/-- Whatever the interleaving, the completed calls ran one after another, in the order in
which they were decided. -/
theorem linearized (l : List (Step κ ι)) (w : ω) :
    Linearized decide w (completed decide l (State.init w))
      (Machine.final (step decide) l (State.init w)) := by
  induction l using List.reverseRecOn with
  | nil =>
    refine ⟨rfl,rfl,List.nodup_nil,?_⟩
    simp [completed,Machine.outputs,Machine.final,State.init]
  | append_singleton l x ih =>
    rw [completed_snoc,Machine.final_snoc]
    exact linearized_step decide x ih

/-- A call that is through before another one begins comes before it in that order. -/
theorem real_time (l : List (Step κ ι)) (w : ω) (n : Nat) {a b : κ} {i j : ι} {o o' : ο}
    (ha : (Machine.final (step decide) (l.take n) (State.init w)).callers a = .done i o)
    (hb : (Machine.final (step decide) (l.take n) (State.init w)).callers b = .idle)
    (hend : (Machine.final (step decide) l (State.init w)).callers b = .done j o') :
    [a,b].Sublist ((completed decide l (State.init w)).map Prod.fst) := by
  have early := linearized decide (l.take n) w
  have late := linearized decide l w
  have hsplit := completed_append decide (l.take n) (l.drop n) (State.init w)
  rw [List.take_append_drop] at hsplit
  have hin := (late.complete b j o').mpr hend
  rw [hsplit] at hin ⊢
  rw [List.map_append]
  have hfirst := List.mem_map_of_mem (f := Prod.fst) ((early.complete a i o).mpr ha)
  have hsecond : (b,j,o')∈completed decide (l.drop n)
      (Machine.final (step decide) (l.take n) (State.init w)) := by
    obtain hin | hin := List.mem_append.mp hin
    · have hdone := (early.complete b j o').mp hin
      rw [hb] at hdone
      cases hdone
    · exact hin
  have hsecond := List.mem_map_of_mem (f := Prod.fst) hsecond
  exact (List.singleton_sublist.mpr hfirst).append (List.singleton_sublist.mpr hsecond)

end
end CasLoop
