import ProofStell.Lib.Machine
import Mathlib.Logic.Function.Basic
import Mathlib.Data.List.Pairwise
import Mathlib.Algebra.Order.Ring.Nat

/-! Receivers that deduplicate by a token they keep for a while: what is processed twice is
processed a lifetime apart, and every genuine arrival is covered by one processing. -/
namespace Idempotent
variable {α κ : Type*}

/-- Arrivals carry a token and a time; a genuine one may be processed. -/
structure Protocol (α κ : Type*) where
  token : α → κ
  time : α → Nat
  genuine : α → Bool
  lifetime : Nat

inductive Verdict where
  | duplicate | refused | processed
  deriving DecidableEq, Repr

/-- The tokens on file with the time up to which they are kept, and what was processed. -/
structure Receiver (α κ : Type*) where
  kept : κ → Option Nat
  processed : List α

def Receiver.empty : Receiver α κ := ⟨fun _ => none,[]⟩

namespace Protocol
variable (P : Protocol α κ)

def known (r : Receiver α κ) (a : α) : Bool := (r.kept (P.token a)).any fun expiry => P.time a < expiry

def file [DecidableEq κ] (a : α) (r : Receiver α κ) : Receiver α κ :=
  ⟨Function.update r.kept (P.token a) (some (P.time a+P.lifetime)),r.processed++[a]⟩

def receive [DecidableEq κ] (a : α) (r : Receiver α κ) : Verdict × Receiver α κ :=
  if P.known r a then (.duplicate,r)
  else if P.genuine a then (.processed,P.file a r)
  else (.refused,r)

def Covers (a : α) (k : κ) (t : Nat) : Prop :=
  P.token a = k ∧ P.time a ≤ t ∧ t < P.time a+P.lifetime

/-- Whatever is on file was put there by the last processing of its token. -/
structure Orderly (clock : Nat) (r : Receiver α κ) : Prop where
  past : ∀ a∈r.processed, P.time a ≤ clock
  kept : ∀ a∈r.processed, ∃ expiry, r.kept (P.token a) = some expiry ∧
    P.time a+P.lifetime ≤ expiry
  source : ∀ k expiry, r.kept k = some expiry →
    ∃ a∈r.processed, P.token a = k ∧ P.time a+P.lifetime = expiry
  apart : r.processed.Pairwise fun a b => P.token a = P.token b → P.time a+P.lifetime ≤ P.time b

theorem orderly_empty : P.Orderly 0 .empty where
  past _ h := (by cases h)
  kept _ h := (by cases h)
  source _ _ h := (by cases h)
  apart := List.Pairwise.nil

variable {P} {clock : Nat} {r : Receiver α κ} {a : α}

theorem Orderly.later (h : P.Orderly clock r) {now : Nat} (hle : clock ≤ now) :
    P.Orderly now r where
  past b hb := (h.past b hb).trans hle
  kept := h.kept
  source := h.source
  apart := h.apart

theorem known_iff : P.known r a = true ↔ ∃ expiry, r.kept (P.token a) = some expiry ∧
    P.time a < expiry := by
  rw [known]
  cases r.kept (P.token a) <;> simp

theorem Orderly.gone (h : P.Orderly clock r) (hunknown : P.known r a = false) {b : α}
    (hb : b∈r.processed) (htoken : P.token b = P.token a) :
    P.time b+P.lifetime ≤ P.time a := by
  obtain ⟨expiry,hkept,hle⟩ := h.kept b hb
  rw [htoken] at hkept
  by_contra hlt
  have hknown : P.known r a = true := known_iff.mpr ⟨expiry,hkept,by omega⟩
  rw [hknown] at hunknown
  cases hunknown

section
variable [DecidableEq κ]

/-- Within one lifetime a token is processed once. -/
theorem Orderly.once (h : P.Orderly clock r) (hshort : clock < P.lifetime)
    (ha : a∈r.processed) : r.processed.filter (fun b => P.token b = P.token a) = [a] := by
  have hmem : a∈r.processed.filter fun b => P.token b = P.token a :=
    List.mem_filter.mpr ⟨ha,by simp⟩
  have hsame : ∀ b∈r.processed.filter fun b => P.token b = P.token a,
      b∈r.processed ∧ P.token b = P.token a := fun b hb => by simpa using List.mem_filter.mp hb
  have hapart := h.apart.filter fun b => decide (P.token b = P.token a)
  generalize r.processed.filter (fun b => P.token b = P.token a) = l at hmem hsame hapart
  cases l with
  | nil => cases hmem
  | cons b l =>
    cases l with
    | nil => rw [List.mem_singleton.mp hmem]
    | cons b' l =>
      obtain ⟨_,htoken⟩ := hsame b (by simp)
      obtain ⟨hb',htoken'⟩ := hsame b' (by simp)
      have hgap := (List.pairwise_cons.mp hapart).1 b' (by simp) (htoken.trans htoken'.symm)
      have hpast := h.past b' hb'
      omega

theorem file_kept (a : α) (r : Receiver α κ) (k : κ) : (P.file a r).kept k =
    if k = P.token a then some (P.time a+P.lifetime) else r.kept k := by
  rw [file]
  exact Function.update_apply ..

theorem file_processed (a : α) (r : Receiver α κ) :
    (P.file a r).processed = r.processed++[a] := rfl

/-- Everything one arrival can do. -/
theorem receive_spec (P : Protocol α κ) (a : α) (r : Receiver α κ) :
    (P.known r a = true ∧ P.receive a r = (.duplicate,r)) ∨
      (P.known r a = false ∧ P.genuine a = false ∧ P.receive a r = (.refused,r)) ∨
      (P.known r a = false ∧ P.genuine a = true ∧
        P.receive a r = (.processed,P.file a r)) := by
  rw [receive]
  cases P.known r a <;> cases P.genuine a <;> simp

theorem Orderly.file (h : P.Orderly clock r) (hclock : clock ≤ P.time a)
    (hunknown : P.known r a = false) : P.Orderly (P.time a) (P.file a r) := by
  refine ⟨fun b hb => ?_,fun b hb => ?_,fun k expiry hk => ?_,?_⟩
  · rw [file_processed,List.mem_append,List.mem_singleton] at hb
    obtain hb | rfl := hb
    · exact (h.past b hb).trans hclock
    · exact le_rfl
  · rw [file_kept]
    split
    · next htoken =>
      refine ⟨_,rfl,?_⟩
      rw [file_processed,List.mem_append,List.mem_singleton] at hb
      obtain hb | rfl := hb
      · have hgone := h.gone hunknown hb htoken
        omega
      · exact le_rfl
    · next htoken =>
      rw [file_processed,List.mem_append,List.mem_singleton] at hb
      obtain hb | rfl := hb
      · exact h.kept b hb
      · exact absurd rfl htoken
  · rw [file_processed]
    rw [file_kept] at hk
    split at hk
    · next htoken => exact ⟨a,by simp,htoken.symm,Option.some.inj hk⟩
    · obtain ⟨b,hb,hbk,hexp⟩ := h.source k expiry hk
      exact ⟨b,List.mem_append_left _ hb,hbk,hexp⟩
  · rw [file_processed]
    refine List.pairwise_append.mpr ⟨h.apart,List.pairwise_singleton _ _,fun b hb c hc => ?_⟩
    rw [List.mem_singleton.mp hc]
    exact h.gone hunknown hb

theorem Orderly.receive (h : P.Orderly clock r) (hclock : clock ≤ P.time a) :
    P.Orderly (P.time a) (P.receive a r).2 := by
  obtain ⟨_,heq⟩ | ⟨_,_,heq⟩ | ⟨hunknown,_,heq⟩ := P.receive_spec a r
  · rw [heq]
    exact h.later hclock
  · rw [heq]
    exact h.later hclock
  · rw [heq]
    exact h.file hclock hunknown

/-- After an arrival that is not refused its token is covered. -/
theorem Orderly.covered (h : P.Orderly clock r) (hclock : clock ≤ P.time a)
    (hlife : 0 < P.lifetime) (hok : (P.receive a r).1≠.refused) :
    ∃ b∈(P.receive a r).2.processed, P.Covers b (P.token a) (P.time a) := by
  obtain ⟨hknown,heq⟩ | ⟨_,_,heq⟩ | ⟨_,_,heq⟩ := P.receive_spec a r
  · obtain ⟨expiry,hkept,hlt⟩ := known_iff.mp hknown
    obtain ⟨b,hb,htoken,hexp⟩ := h.source _ _ hkept
    rw [heq]
    exact ⟨b,hb,htoken,(h.past b hb).trans hclock,by omega⟩
  · rw [heq] at hok
    exact absurd rfl hok
  · rw [heq]
    exact ⟨a,by simp [file_processed],rfl,le_rfl,by omega⟩

theorem receive_genuine (hgenuine : P.genuine a = true) : (P.receive a r).1≠.refused := by
  obtain ⟨_,heq⟩ | ⟨_,hno,_⟩ | ⟨_,_,heq⟩ := P.receive_spec a r
  · simp [heq]
  · rw [hgenuine] at hno
    cases hno
  · simp [heq]

theorem mem_receive {b : α} : b∈(P.receive a r).2.processed ↔
    b∈r.processed ∨ b = a ∧ P.known r a = false ∧ P.genuine a = true := by
  obtain ⟨hknown,heq⟩ | ⟨_,hno,heq⟩ | ⟨hunknown,hgenuine,heq⟩ := P.receive_spec a r
  · simp [heq,hknown]
  · simp [heq,hno]
  · simp [heq,hunknown,hgenuine,file_processed]

end

end Protocol
end Idempotent
