import Mathlib.Logic.Function.Basic
import Mathlib.Tactic.Common

/-! State-and-error computations whose state survives an error, and the
transactional boundary that throws the state of a failed computation away. -/
namespace Transact

/-- A computation that may fail. A failing one still returns the state it had reached. -/
def Exec (σ ε : Type*) (α : Type) := σ → Except ε α × σ

namespace Exec
variable {σ ε δ : Type*} {α β : Type}

protected def pure (a : α) : Exec σ ε α := fun s => (.ok a,s)

protected def bind (x : Exec σ ε α) (f : α → Exec σ ε β) : Exec σ ε β := fun s =>
  match x s with
  | (.ok a,t) => f a t
  | (.error e,t) => (.error e,t)

instance : Monad (Exec σ ε) where
  pure := Exec.pure
  bind := Exec.bind

def fail (e : ε) : Exec σ ε α := fun s => (.error e,s)
def read (f : σ → α) : Exec σ ε α := fun s => (.ok (f s),s)
def write (f : σ → σ) : Exec σ ε Unit := fun s => (.ok (),f s)
def require (b : Bool) (e : ε) : Exec σ ε Unit := if b then pure () else fail e
def demand (o : Option α) (e : ε) : Exec σ ε α :=
  match o with
  | some a => pure a
  | none => fail e

@[simp] theorem pure_apply (a : α) (s : σ) : (pure a : Exec σ ε α) s = (.ok a,s) := rfl
@[simp] theorem fail_apply (e : ε) (s : σ) : (fail e : Exec σ ε α) s = (.error e,s) := rfl
@[simp] theorem read_apply (f : σ → α) (s : σ) : (read f : Exec σ ε α) s = (.ok (f s),s) := rfl
@[simp] theorem write_apply (f : σ → σ) (s : σ) :
    (write f : Exec σ ε Unit) s = (.ok (),f s) := rfl
@[simp] theorem require_true (e : ε) : (require true e : Exec σ ε Unit) = pure () := rfl
@[simp] theorem require_false (e : ε) : (require false e : Exec σ ε Unit) = fail e := rfl
@[simp] theorem demand_some (a : α) (e : ε) : (demand (some a) e : Exec σ ε α) = pure a := rfl
@[simp] theorem demand_none (e : ε) : (demand none e : Exec σ ε α) = fail e := rfl

theorem bind_apply (x : Exec σ ε α) (f : α → Exec σ ε β) (s : σ) :
    (x >>= f) s = match x s with
      | (.ok a,t) => f a t
      | (.error e,t) => (.error e,t) := rfl

@[simp] theorem pure_bind (a : α) (f : α → Exec σ ε β) : (pure a >>= f) = f a := rfl
@[simp] theorem fail_bind (e : ε) (f : α → Exec σ ε β) : (fail e >>= f) = fail e := rfl

theorem bind_assoc {γ : Type} (x : Exec σ ε α) (f : α → Exec σ ε β) (g : β → Exec σ ε γ) :
    ((x >>= f) >>= g) = (x >>= fun a => f a >>= g) := by
  funext s
  simp only [bind_apply]
  cases x s with
  | mk o t => cases o <;> rfl

@[simp] theorem bind_pure (x : Exec σ ε α) : (x >>= fun a => pure a) = x := by
  funext s
  rw [bind_apply]
  cases hs : x s with
  | mk o t => cases o <;> rfl

@[simp] theorem read_bind_apply (g : σ → α) (f : α → Exec σ ε β) (s : σ) :
    (read g >>= f) s = f (g s) s := rfl
@[simp] theorem write_bind_apply (g : σ → σ) (f : Unit → Exec σ ε β) (s : σ) :
    (write g >>= f) s = f () (g s) := rfl

theorem bind_ok {x : Exec σ ε α} {f : α → Exec σ ε β} {s t : σ} {b : β} :
    (x >>= f) s = (.ok b,t) ↔ ∃ a u, x s = (.ok a,u) ∧ f a u = (.ok b,t) := by
  rw [bind_apply]
  rcases x s with ⟨_ | a,u⟩ <;> simp

theorem bind_error {x : Exec σ ε α} {f : α → Exec σ ε β} {s t : σ} {e : ε} :
    (x >>= f) s = (.error e,t) ↔
      x s = (.error e,t) ∨ ∃ a u, x s = (.ok a,u) ∧ f a u = (.error e,t) := by
  rw [bind_apply]
  rcases x s with ⟨_ | a,u⟩ <;> simp

theorem bind_of_ok {x : Exec σ ε α} {s u : σ} {a : α} (h : x s = (.ok a,u))
    (f : α → Exec σ ε β) : (x >>= f) s = f a u := by
  rw [bind_apply,h]

theorem bind_of_error {x : Exec σ ε α} {s u : σ} {e : ε} (h : x s = (.error e,u))
    (f : α → Exec σ ε β) : (x >>= f) s = (.error e,u) := by
  rw [bind_apply,h]

theorem require_ok {b : Bool} {e : ε} {s t : σ} {u : Unit} :
    (require b e : Exec σ ε Unit) s = (.ok u,t) ↔ b = true ∧ s = t := by
  cases b <;> simp

def each (f : α → Exec σ ε β) : List α → Exec σ ε (List β)
  | [] => pure []
  | a::l => do
    let b ← f a
    let bs ← each f l
    return b::bs

@[simp] theorem each_nil (f : α → Exec σ ε β) : each f [] = pure [] := rfl

theorem each_cons_ok {f : α → Exec σ ε β} {a : α} {l : List α} {s t : σ} {r : List β} :
    each f (a::l) s = (.ok r,t) ↔
      ∃ b u bs, f a s = (.ok b,u) ∧ each f l u = (.ok bs,t) ∧ r = b::bs := by
  simp only [each,bind_ok]
  constructor
  · intro hyp
    obtain ⟨b,u,hb,bs,v,hbs,hr⟩ := hyp
    simp only [pure_apply,Prod.mk.injEq,Except.ok.injEq] at hr
    exact ⟨b,u,bs,hb,hr.2 ▸ hbs,hr.1.symm⟩
  · intro hyp
    obtain ⟨b,u,bs,hb,hbs,rfl⟩ := hyp
    exact ⟨b,u,hb,bs,t,hbs,rfl⟩

/-- What the empty loop has and every item extends, a loop that succeeds has. -/
theorem each_induct {f : α → Exec σ ε β} {P : List α → σ → List β → σ → Prop}
    (hnil : ∀ s, P [] s [] s)
    (hcons : ∀ a l s b u bs t, f a s = (.ok b,u) → P l u bs t → P (a::l) s (b::bs) t)
    {l : List α} {s t : σ} {bs : List β} (h : each f l s = (.ok bs,t)) : P l s bs t := by
  induction l generalizing s bs with
  | nil =>
    simp only [each_nil,pure_apply,Prod.mk.injEq,Except.ok.injEq] at h
    obtain ⟨rfl,rfl⟩ := h
    exact hnil s
  | cons a l ih =>
    obtain ⟨b,u,bs',hb,hbs,rfl⟩ := each_cons_ok.mp h
    exact hcons a l s b u bs' t hb (ih hbs)

theorem each_cons_error {f : α → Exec σ ε β} {a : α} {l : List α} {s t : σ} {e : ε} :
    each f (a::l) s = (.error e,t) ↔
      f a s = (.error e,t) ∨ ∃ b u, f a s = (.ok b,u) ∧ each f l u = (.error e,t) := by
  simp only [each,bind_error]
  constructor
  · intro hyp
    obtain h | ⟨b,u,hb,h | ⟨bs,v,_,hr⟩⟩ := hyp
    · exact Or.inl h
    · exact Or.inr ⟨b,u,hb,h⟩
    · simp at hr
  · intro hyp
    obtain h | ⟨b,u,hb,h⟩ := hyp
    · exact Or.inl h
    · exact Or.inr ⟨b,u,hb,Or.inl h⟩

/-- A loop fails exactly at its first failing item, after the items before it succeeded. -/
theorem each_error {f : α → Exec σ ε β} {l : List α} {s t : σ} {e : ε} :
    each f l s = (.error e,t) ↔ ∃ before a after bs u, l = before++a::after ∧
      each f before s = (.ok bs,u) ∧ f a u = (.error e,t) := by
  induction l generalizing s with
  | nil => simp
  | cons x l ih =>
    rw [each_cons_error]
    constructor
    · intro hyp
      obtain h | ⟨b,u,hb,h⟩ := hyp
      · exact ⟨[],x,l,[],s,rfl,rfl,h⟩
      · obtain ⟨before,a,after,bs,v,rfl,hbs,he⟩ := ih.mp h
        exact ⟨x::before,a,after,b::bs,v,rfl,each_cons_ok.mpr ⟨b,u,bs,hb,hbs,rfl⟩,he⟩
    · intro hyp
      obtain ⟨before,a,after,bs,u,hl,hbs,he⟩ := hyp
      cases before with
      | nil =>
        simp only [List.nil_append,List.cons.injEq] at hl
        obtain ⟨rfl,rfl⟩ := hl
        simp only [each_nil,pure_apply,Prod.mk.injEq] at hbs
        exact Or.inl (hbs.2 ▸ he)
      | cons y before =>
        simp only [List.cons_append,List.cons.injEq] at hl
        obtain ⟨rfl,rfl⟩ := hl
        obtain ⟨b,v,bs',hb,hbs',rfl⟩ := each_cons_ok.mp hbs
        exact Or.inr ⟨b,v,hb,ih.mpr ⟨before,a,after,bs',u,rfl,hbs',he⟩⟩

/-- `x` leaves the view `π` of the state alone, whether it succeeds or fails. -/
def Frames (π : σ → δ) (x : Exec σ ε α) : Prop := ∀ s, π (x s).2 = π s

theorem frames_pure (π : σ → δ) (a : α) : Frames π (pure a : Exec σ ε α) := fun _ => rfl
theorem frames_fail (π : σ → δ) (e : ε) : Frames π (fail e : Exec σ ε α) := fun _ => rfl
theorem frames_read (π : σ → δ) (f : σ → α) : Frames π (read f : Exec σ ε α) := fun _ => rfl

theorem frames_write (π : σ → δ) {f : σ → σ} (h : ∀ s, π (f s) = π s) :
    Frames π (write f : Exec σ ε Unit) := h

theorem frames_require (π : σ → δ) (b : Bool) (e : ε) :
    Frames π (require b e : Exec σ ε Unit) := by
  cases b
  · exact frames_fail π e
  · exact frames_pure π ()

theorem frames_demand (π : σ → δ) (o : Option α) (e : ε) :
    Frames π (demand o e : Exec σ ε α) := by
  cases o with
  | none => exact frames_fail π e
  | some a => exact frames_pure π a

theorem Frames.bind {π : σ → δ} {x : Exec σ ε α} {f : α → Exec σ ε β}
    (hx : Frames π x) (hf : ∀ a, Frames π (f a)) : Frames π (x >>= f) := by
  intro s
  have h := hx s
  rw [bind_apply]
  rcases hs : x s with ⟨e | a,t⟩ <;> rw [hs] at h
  · exact h
  · exact (hf a t).trans h

theorem Frames.each {π : σ → δ} {f : α → Exec σ ε β} {l : List α}
    (hf : ∀ a∈l, Frames π (f a)) : Frames π (each f l) := by
  induction l with
  | nil => exact frames_pure π []
  | cons a l ih =>
    refine (hf a List.mem_cons_self).bind fun b => ?_
    exact (ih fun x hx => hf x (List.mem_cons_of_mem a hx)).bind fun bs => frames_pure π (b::bs)

/-- The transactional boundary: a failed computation leaves the state it started from. -/
def commit (x : Exec σ ε α) : Exec σ ε α := fun s =>
  match x s with
  | (.ok a,t) => (.ok a,t)
  | (.error e,_) => (.error e,s)

theorem commit_ok {x : Exec σ ε α} {s t : σ} {a : α} :
    commit x s = (.ok a,t) ↔ x s = (.ok a,t) := by
  rw [commit]
  rcases x s with ⟨_ | _,_⟩ <;> simp

theorem commit_error {x : Exec σ ε α} {s t : σ} {e : ε} :
    commit x s = (.error e,t) ↔ (x s).1 = .error e ∧ t = s := by
  rw [commit]
  rcases x s with ⟨_ | _,_⟩ <;> simp [eq_comm]

@[simp] theorem commit_fst (x : Exec σ ε α) (s : σ) : (commit x s).1 = (x s).1 := by
  rw [commit]
  rcases x s with ⟨_ | _,_⟩ <;> rfl

/-- After the boundary the state is either the one the run started from, or the
run succeeded and nothing was lost. -/
theorem commit_snd (x : Exec σ ε α) (s : σ) :
    (commit x s).2 = s ∨ ∃ a, x s = (.ok a,(commit x s).2) := by
  rw [commit]
  rcases x s with ⟨_ | a,t⟩
  · exact Or.inl rfl
  · exact Or.inr ⟨a,rfl⟩

theorem Frames.commit {π : σ → δ} {x : Exec σ ε α} (hx : Frames π x) :
    Frames π (commit x) := by
  intro s
  rcases commit_snd x s with h | ⟨a,h⟩
  · rw [h]
  · have hs := hx s
    rwa [h] at hs

/-- From related states `x` gives the same answer and ends in related states. -/
def Lockstep (R : σ → σ → Prop) (x : Exec σ ε α) : Prop :=
  ∀ s t, R s t → (x s).1 = (x t).1 ∧ R (x s).2 (x t).2

theorem lockstep_pure (R : σ → σ → Prop) (a : α) : Lockstep R (pure a : Exec σ ε α) :=
  fun _ _ h => ⟨rfl,h⟩
theorem lockstep_fail (R : σ → σ → Prop) (e : ε) : Lockstep R (fail e : Exec σ ε α) :=
  fun _ _ h => ⟨rfl,h⟩

theorem lockstep_read {R : σ → σ → Prop} {f : σ → α} (h : ∀ s t, R s t → f s = f t) :
    Lockstep R (read f : Exec σ ε α) :=
  fun s t hst => ⟨congrArg Except.ok (h s t hst),hst⟩

theorem lockstep_write {R : σ → σ → Prop} {f : σ → σ} (h : ∀ s t, R s t → R (f s) (f t)) :
    Lockstep R (write f : Exec σ ε Unit) :=
  fun s t hst => ⟨rfl,h s t hst⟩

theorem lockstep_require (R : σ → σ → Prop) (b : Bool) (e : ε) :
    Lockstep R (require b e : Exec σ ε Unit) := by
  cases b
  · exact lockstep_fail R e
  · exact lockstep_pure R ()

theorem lockstep_demand (R : σ → σ → Prop) (o : Option α) (e : ε) :
    Lockstep R (demand o e : Exec σ ε α) := by
  cases o with
  | none => exact lockstep_fail R e
  | some a => exact lockstep_pure R a

theorem Lockstep.bind {R : σ → σ → Prop} {x : Exec σ ε α} {f : α → Exec σ ε β}
    (hx : Lockstep R x) (hf : ∀ a, Lockstep R (f a)) : Lockstep R (x >>= f) := by
  intro s t hst
  obtain ⟨ho,hr⟩ := hx s t hst
  rw [bind_apply,bind_apply]
  cases hs : x s with
  | mk o u =>
    cases ht : x t with
    | mk o' v =>
      rw [hs,ht] at ho hr
      simp only at ho hr
      subst ho
      cases o with
      | error e => exact ⟨rfl,hr⟩
      | ok a => exact hf a u v hr

theorem Lockstep.each {R : σ → σ → Prop} {f : α → Exec σ ε β} {l : List α}
    (hf : ∀ a∈l, Lockstep R (f a)) : Lockstep R (each f l) := by
  induction l with
  | nil => exact lockstep_pure R []
  | cons a l ih =>
    refine (hf a List.mem_cons_self).bind fun b => ?_
    exact (ih fun x hx => hf x (List.mem_cons_of_mem a hx)).bind fun bs => lockstep_pure R (b::bs)

theorem Lockstep.commit {R : σ → σ → Prop} {x : Exec σ ε α} (hx : Lockstep R x) :
    Lockstep R (commit x) := by
  intro s t hst
  obtain ⟨ho,hr⟩ := hx s t hst
  refine ⟨by simpa using ho,?_⟩
  cases hs : x s with
  | mk o u =>
    cases ht : x t with
    | mk o' v =>
      rw [hs,ht] at ho hr
      simp only at ho hr
      subst ho
      cases o with
      | error e => simpa [Exec.commit,hs,ht] using hst
      | ok a => simpa [Exec.commit,hs,ht] using hr

end Exec
end Transact
