import ProofStell.Lib.CheckThenAct
import ProofStell.Hash.Bytes
import Mathlib.Data.List.AList

/-! The registry of submitted hashes, and calls of `register` that overlap on it. -/
namespace ProofStell.Hash

structure HashEntry where
  timestamp : Int
  algorithm : HashAlgorithm
  deriving DecidableEq, Repr

structure HashRegistry where
  inner : AList fun _ : String => HashEntry

namespace HashRegistry

/-- Looks at every entry and never stops at the first match. -/
def contains (r : HashRegistry) (hash : CanonicalHash) : Bool :=
  r.inner.entries.foldl
    (fun found existing => if asBytes existing.1 = asBytes hash.inner then true else found) false

def insert (r : HashRegistry) (hash : CanonicalHash) (entry : HashEntry) : HashRegistry :=
  ⟨r.inner.insert hash.inner entry⟩

/-- The entry is made before the scan, which is the loop of `contains`. -/
def register (timestamp : Int) (hash : CanonicalHash) (r : HashRegistry) :
    Except ValidationError Unit × HashRegistry :=
  let entry := ⟨timestamp,.sha256⟩
  let seen := r.contains hash
  if seen then (.error .alreadyRegistered,r) else (.ok (),r.insert hash entry)

theorem scan_eq_any (l : List (Sigma fun _ : String => HashEntry)) (bytes : List UInt8)
    (found : Bool) :
    l.foldl (fun found existing => if asBytes existing.1 = bytes then true else found) found =
      (found || l.any fun existing => asBytes existing.1 = bytes) := by
  induction l generalizing found with
  | nil => simp
  | cons e l ih =>
    rw [List.foldl_cons,ih,List.any_cons]
    split
    · next he => simp [he]
    · next he => simp [he]

/-- The scan compares bytes, and finds a hash exactly if it is a key. -/
theorem contains_iff (r : HashRegistry) (hash : CanonicalHash) :
    r.contains hash = true ↔ hash.inner∈r.inner := by
  rw [contains,scan_eq_any,Bool.false_or,AList.mem_keys,AList.keys,List.keys]
  simp only [List.any_eq_true,decide_eq_true_eq,asBytes_injective.eq_iff,List.mem_map]

theorem contains_insert (r : HashRegistry) (hash : CanonicalHash) (entry : HashEntry) :
    (r.insert hash entry).contains hash = true := by
  rw [contains_iff]
  exact (AList.mem_insert _).mpr (Or.inl rfl)

inductive Phase where
  | idle
  | scanned (entry : HashEntry)
  | returned (result : Except ValidationError Unit)
  deriving DecidableEq

def Phase.isScanned : Phase → Bool
  | .scanned _ => true
  | .idle | .returned _ => false

def Phase.view : Phase → CheckThenAct.Phase
  | .idle => .idle
  | .scanned _ => .checked
  | .returned (.ok _) => .won
  | .returned (.error _) => .lost

structure Calls (κ : Type) where
  registry : HashRegistry
  phase : κ → Phase

inductive Step (κ : Type) where
  | scan (k : κ) (timestamp : Int)
  | insert (k : κ)

def Step.view {κ : Type} : Step κ → CheckThenAct.Step κ
  | .scan k _ => .check k
  | .insert k => .act k

namespace Calls
variable {κ : Type}

def init (r : HashRegistry) : Calls κ := ⟨r,fun _ => .idle⟩

/-- No call scans while another one is between its scan and its insertion. -/
def alone (s : Calls κ) : Step κ → Prop
  | .scan k _ => s.phase k = .idle → ∀ j, (s.phase j).isScanned = false
  | .insert _ => True

variable [DecidableEq κ]

def move (s : Calls κ) (r : HashRegistry) (k : κ) (phase : Phase) : Calls κ :=
  ⟨r,Function.update s.phase k phase⟩

def step (hash : CanonicalHash) (x : Step κ) (s : Calls κ) : Unit × Calls κ :=
  match x with
  | .scan k timestamp =>
    match s.phase k with
    | .idle =>
      if s.registry.contains hash then
        ((),s.move s.registry k (.returned (.error .alreadyRegistered)))
      else ((),s.move s.registry k (.scanned ⟨timestamp,.sha256⟩))
    | .scanned _ | .returned _ => ((),s)
  | .insert k =>
    match s.phase k with
    | .scanned entry => ((),s.move (s.registry.insert hash entry) k (.returned (.ok ())))
    | .idle | .returned _ => ((),s)

/-- A call that nobody interrupts is `register`. -/
theorem uninterrupted (hash : CanonicalHash) (k : κ) (timestamp : Int) {s : Calls κ}
    (hk : s.phase k = .idle) :
    Machine.final (step hash) [.scan k timestamp,.insert k] s =
      s.move (register timestamp hash s.registry).2 k
        (.returned (register timestamp hash s.registry).1) := by
  cases hseen : s.registry.contains hash <;>
    simp [Machine.final,step,hk,register,hseen,move]

def view (hash : CanonicalHash) (s : Calls κ) : CheckThenAct.State κ :=
  ⟨s.registry.contains hash,Phase.view∘s.phase⟩

omit [DecidableEq κ] in
@[simp] theorem view_taken (hash : CanonicalHash) (s : Calls κ) :
    (s.view hash).taken = s.registry.contains hash := rfl

omit [DecidableEq κ] in
@[simp] theorem view_phase (hash : CanonicalHash) (s : Calls κ) (k : κ) :
    (s.view hash).phase k = (s.phase k).view := rfl

theorem view_move (hash : CanonicalHash) (s : Calls κ) (r : HashRegistry) (k : κ)
    (phase : Phase) :
    (s.move r k phase).view hash = (s.view hash).move (r.contains hash) k phase.view := by
  simp [view,move,CheckThenAct.State.move,Function.comp_update]

theorem view_step (hash : CanonicalHash) (x : Step κ) (s : Calls κ) :
    CheckThenAct.step x.view (s.view hash) = ((),(step hash x s).2.view hash) := by
  cases x with
  | scan k timestamp =>
    cases hk : s.phase k with
    | idle =>
      cases hseen : s.registry.contains hash <;>
        simp [CheckThenAct.step,step,Step.view,Phase.view,hk,hseen,view_move]
    | scanned entry => simp [CheckThenAct.step,step,Step.view,Phase.view,hk]
    | returned result => cases result <;> simp [CheckThenAct.step,step,Step.view,Phase.view,hk]
  | insert k =>
    cases hk : s.phase k with
    | idle => simp [CheckThenAct.step,step,Step.view,Phase.view,hk]
    | scanned entry =>
      simp [CheckThenAct.step,step,Step.view,Phase.view,hk,view_move,contains_insert]
    | returned result => cases result <;> simp [CheckThenAct.step,step,Step.view,Phase.view,hk]

omit [DecidableEq κ] in
theorem alone_iff (hash : CanonicalHash) (x : Step κ) (s : Calls κ) :
    s.alone x ↔ CheckThenAct.alone (s.view hash) x.view := by
  have hscanned (k : κ) : (s.phase k).isScanned = false ↔ (s.phase k).view≠.checked := by
    cases hk : s.phase k with
    | idle | scanned entry => simp [Phase.isScanned,Phase.view]
    | returned result => cases result <;> simp [Phase.isScanned,Phase.view]
  have hidle (k : κ) : s.phase k = .idle ↔ (s.phase k).view = .idle := by
    cases hk : s.phase k with
    | idle | scanned entry => simp [Phase.view]
    | returned result => cases result <;> simp [Phase.view]
  cases x with
  | scan k timestamp => simp [alone,CheckThenAct.alone,Step.view,hscanned,hidle]
  | insert k => exact Iff.rfl

def viewed (hash : CanonicalHash) (r : HashRegistry) (l : List (Step κ)) :
    List (CheckThenAct.Step κ) :=
  Machine.trace (step hash) (fun x _ => [x.view]) l (init r)

theorem view_run (hash : CanonicalHash) (r : HashRegistry) (l : List (Step κ)) :
    Machine.final CheckThenAct.step (viewed hash r l) (CheckThenAct.start (r.contains hash)) =
        (Machine.final (step hash) l (init r)).view hash ∧
      (Machine.Along (step hash) alone l (init r) ↔ Machine.Along CheckThenAct.step
        CheckThenAct.alone (viewed hash r l) (CheckThenAct.start (r.contains hash))) :=
  Machine.along_simulation (I := fun _ => True) (view hash) (fun x _ => x.view)
    (fun _ _ _ => trivial) (fun x s _ => congrArg Prod.snd (view_step hash x s))
    (fun x s _ => alone_iff hash x s) l trivial

/-- `register` fails with nothing but `AlreadyRegistered`. -/
def Plain (s : Calls κ) : Prop :=
  ∀ k e, s.phase k = .returned (.error e) → e = .alreadyRegistered

theorem Plain.move {s : Calls κ} (h : s.Plain) (r : HashRegistry) (k : κ) {phase : Phase}
    (hphase : ∀ e, phase = .returned (.error e) → e = .alreadyRegistered) :
    (s.move r k phase).Plain := by
  intro j e hj
  simp only [Calls.move,Function.update_apply] at hj
  split at hj
  · exact hphase e hj
  · exact h j e hj

theorem Plain.step {s : Calls κ} (h : s.Plain) (hash : CanonicalHash) (x : Step κ) :
    (step hash x s).2.Plain := by
  cases x with
  | scan k timestamp =>
    simp only [Calls.step]
    split
    · split
      · exact h.move _ k fun e he => by cases he; rfl
      · exact h.move _ k fun e he => by cases he
    · exact h
    · exact h
  | insert k =>
    simp only [Calls.step]
    split
    · exact h.move _ k fun e he => by cases he
    · exact h
    · exact h

theorem plain_run (hash : CanonicalHash) (r : HashRegistry) (l : List (Step κ)) :
    (Machine.final (step hash) l (init r)).Plain :=
  Machine.final_invariant (fun x _ hs => hs.step hash x) l _ fun _ _ h => by cases h

def OneWins (s : Calls κ) : Prop :=
  ∃ k, s.phase k = .returned (.ok ()) ∧
    ∀ j, j≠k → s.phase j = .returned (.error .alreadyRegistered)

omit [DecidableEq κ] in
theorem oneWins_iff {hash : CanonicalHash} {s : Calls κ} (hplain : s.Plain)
    (hdone : ∀ k, ∃ result, s.phase k = .returned result)
    (hsome : ∃ k, (s.view hash).phase k = .won) :
    s.OneWins ↔ CheckThenAct.AtMostOne (s.view hash) := by
  have won (k : κ) : (s.view hash).phase k = .won ↔ s.phase k = .returned (.ok ()) := by
    obtain ⟨result,hk⟩ := hdone k
    cases result <;> simp [hk,Phase.view]
  constructor
  · intro hone i j hi hj
    obtain ⟨k,_,hothers⟩ := hone
    have only (m : κ) (hm : (s.view hash).phase m = .won) : m = k := by
      by_contra hne
      cases ((won m).mp hm).symm.trans (hothers m hne)
    rw [only i hi,only j hj]
  · intro hone
    obtain ⟨k,hk⟩ := hsome
    refine ⟨k,(won k).mp hk,fun j hne => ?_⟩
    obtain ⟨result,hj⟩ := hdone j
    cases result with
    | ok u => exact absurd (hone j k ((won j).mpr hj) hk) hne
    | error e => rw [hj,hplain j e hj]

/-- When all calls on a hash that is not in the registry have returned, exactly one has
registered it exactly if no call scanned between the scan and the insertion of another. -/
theorem one_registration_wins_iff [Nonempty κ] (hash : CanonicalHash) {r : HashRegistry}
    (hr : hash.inner∉r.inner) (l : List (Step κ))
    (hdone : ∀ k, ∃ result, (Machine.final (step hash) l (init r)).phase k = .returned result) :
    OneWins (Machine.final (step hash) l (init r)) ↔
      Machine.Along (step hash) alone l (init r) := by
  have habsent : r.contains hash = false := by
    rw [Bool.eq_false_iff]
    exact fun h => hr ((contains_iff r hash).mp h)
  obtain ⟨hrun,halone⟩ := view_run hash r l
  rw [habsent] at hrun halone
  have hover (k : κ) : ((Machine.final (step hash) l (init r)).view hash).phase k≠.idle ∧
      ((Machine.final (step hash) l (init r)).view hash).phase k≠.checked := by
    obtain ⟨result,hk⟩ := hdone k
    cases result <;> simp [hk,Phase.view]
  have hidle : CheckThenAct.Idle ((Machine.final (step hash) l (init r)).view hash) :=
    fun k => (hover k).2
  have hsome := CheckThenAct.exists_won (viewed hash r l) (hrun ▸ hidle)
    (hrun ▸ (hover (Classical.arbitrary κ)).1)
  rw [oneWins_iff (plain_run hash r l) hdone (hrun ▸ hsome),← hrun,halone]
  exact CheckThenAct.atMostOne_iff _ (CheckThenAct.orderly_start false) (hrun ▸ hidle)

theorem one_registration_wins_in_turn : ∃ hash : CanonicalHash,
    OneWins (Machine.final (step hash) [.scan false 0,.insert false,.scan true 1] (init ⟨∅⟩)) := by
  refine ⟨⟨String.ofList (List.replicate 64 '0'),by decide +kernel⟩,?_⟩
  refine (one_registration_wins_iff _ (AList.notMem_empty _) _ ?_).mpr ?_
  · intro k
    cases k
    · exact ⟨.ok (),by decide +kernel⟩
    · exact ⟨.error .alreadyRegistered,by decide +kernel⟩
  · refine ⟨fun _ j => rfl,trivial,fun _ j => ?_,trivial⟩
    cases j <;> decide +kernel

/-- Both calls scan before either inserts, and both return `Ok`. -/
theorem both_registrations_win :
    ¬∀ (hash : CanonicalHash) (r : HashRegistry) (l : List (Step Bool)), hash.inner∉r.inner →
      (∀ k, ∃ result, (Machine.final (step hash) l (init r)).phase k = .returned result) →
      OneWins (Machine.final (step hash) l (init r)) := by
  intro hall
  obtain ⟨k,_,hothers⟩ := hall ⟨String.ofList (List.replicate 64 '0'),by decide +kernel⟩ ⟨∅⟩
    [.scan false 0,.scan true 0,.insert false,.insert true] (AList.notMem_empty _)
    (fun k => ⟨.ok (),by cases k <;> decide +kernel⟩)
  have hother := hothers (!k) (by cases k <;> decide)
  revert hother
  cases k <;> decide +kernel

end Calls
end HashRegistry
end ProofStell.Hash
