import Mathlib.Data.List.Basic

/-! A register under a log of events that assign to it or check what it holds: its value goes
back to the last assignment. -/
namespace Register
variable {α β : Type*}

/-- An event replaces the value, or drops it if it fails a check. -/
inductive Effect (β : Type*) where
  | assign (o : Option β)
  | check (ok : β → Bool)

def Effect.apply : Effect β → Option β → Option β
  | .assign o, _ => o
  | .check ok, o => o.filter ok

def Effect.Keeps (b : β) : Effect β → Prop
  | .assign _ => False
  | .check ok => ok b = true

def Effect.leave : Effect β := .check fun _ => true

@[simp] theorem apply_assign (o o' : Option β) : (Effect.assign o).apply o' = o := rfl

@[simp] theorem apply_check (ok : β → Bool) (o : Option β) :
    (Effect.check ok).apply o = o.filter ok := rfl

@[simp] theorem apply_leave (o : Option β) : Effect.leave.apply o = o := by
  cases o <;> rfl

@[simp] theorem not_keeps_assign (o : Option β) (b : β) : ¬(Effect.assign o).Keeps b := id

@[simp] theorem keeps_check (ok : β → Bool) (b : β) : (Effect.check ok).Keeps b ↔ ok b = true :=
  Iff.rfl

@[simp] theorem keeps_leave (b : β) : Effect.leave.Keeps b := rfl

@[simp] theorem leave_ne_assign (o : Option β) : (Effect.leave : Effect β)≠.assign o := fun h => by
  cases h

def after (effect : α → Effect β) (log : List α) (o : Option β) : Option β :=
  log.foldl (fun o a => (effect a).apply o) o

theorem after_append (effect : α → Effect β) (u v : List α) (o : Option β) :
    after effect (u++v) o = after effect v (after effect u o) := List.foldl_append

theorem foldl_apply {κ : Type*} {f : (κ → Option β) → α → κ → Option β} {effect : α → Effect β}
    (k : κ) (hf : ∀ m a, f m a k = (effect a).apply (m k)) (log : List α) (m : κ → Option β) :
    log.foldl f m k = after effect log (m k) :=
  (List.foldl_hom (fun m : κ → Option β => m k) fun m a => (hf m a).symm).symm

/-- Some event assigns `b`, and what comes after it keeps it. -/
def AssignedLast (effect : α → Effect β) (log : List α) (b : β) : Prop :=
  ∃ before a since, log = before++a::since ∧ effect a = .assign (some b) ∧
    ∀ x∈since, (effect x).Keeps b

theorem assignedLast_cons {effect : α → Effect β} {a : α} {log : List α} {b : β} :
    AssignedLast effect (a::log) b ↔
      (effect a = .assign (some b) ∧ ∀ x∈log, (effect x).Keeps b) ∨ AssignedLast effect log b := by
  constructor
  · intro h
    obtain ⟨before,x,since,hlog,h⟩ := h
    cases before with
    | nil =>
      obtain ⟨rfl,rfl⟩ := List.cons_eq_cons.mp hlog
      exact Or.inl h
    | cons y before => exact Or.inr ⟨before,x,since,(List.cons_eq_cons.mp hlog).2,h⟩
  · intro h
    obtain h | ⟨before,x,since,rfl,h⟩ := h
    · exact ⟨[],a,log,rfl,h⟩
    · exact ⟨a::before,x,since,rfl,h⟩

theorem after_eq_some_iff {effect : α → Effect β} {log : List α} {o : Option β} {b : β} :
    after effect log o = some b ↔
      (o = some b ∧ ∀ a∈log, (effect a).Keeps b) ∨ AssignedLast effect log b := by
  induction log generalizing o with
  | nil => simp [after,AssignedLast]
  | cons a log ih =>
    rw [after,List.foldl_cons,← after,ih,assignedLast_cons,List.forall_mem_cons,← or_assoc]
    refine or_congr_left ?_
    cases effect a with
    | assign o' => simp
    | check ok => simp [Option.filter_eq_some_iff,and_assoc]

end Register
