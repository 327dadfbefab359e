import Mathlib.Data.List.Basic
import Mathlib.Tactic.Common

/-! A watch channel with one receiver: it keeps the latest value only, so that the receiver may
miss values, but never the last one. -/
namespace Watch
variable {α : Type*}

/-- The value, how often it has been replaced, and the replacement that the receiver has seen. -/
structure Channel (α : Type*) where
  value : α
  version : Nat
  seen : Nat

def channel (a : α) : Channel α := ⟨a,0,0⟩

namespace Channel

def send (a : α) (c : Channel α) : Channel α := { c with value := a, version := c.version+1 }

def hasChanged (c : Channel α) : Bool := c.version≠c.seen

def markSeen (c : Channel α) : Channel α := { c with seen := c.version }

def borrowAndUpdate (c : Channel α) : α × Channel α := (c.value,c.markSeen)

end Channel

/-- A receiver that waits for a change and then reads; between the two (`woken`) there may be
further changes. `sent` and `got` are the values of the whole run so far, after the first. -/
structure Follows (first : α) (c : Channel α) (woken : Bool) (sent got : List α) : Prop where
  seen : c.seen ≤ c.version
  latest : c.value = sent.getLast?.getD first
  missed : ∃ old new, sent = old++new ∧ got.Sublist old ∧ got.getLast? = old.getLast? ∧
    (new = [] ↔ woken = false ∧ c.hasChanged = false)

theorem follows_channel (a : α) : Follows a (channel a) false [] [] where
  seen := Nat.le_refl _
  latest := rfl
  missed := ⟨[],[],rfl,List.Sublist.refl _,rfl,by simp [channel,Channel.hasChanged]⟩

section
variable {first : α} {c : Channel α} {woken : Bool} {sent got : List α}

theorem Follows.send (h : Follows first c woken sent got) (a : α) :
    Follows first (c.send a) woken (sent++[a]) got := by
  obtain ⟨old,new,hsent,hsub,hlast,_⟩ := h.missed
  refine ⟨Nat.le_succ_of_le h.seen,by simp [Channel.send],old,new++[a],?_,hsub,hlast,?_⟩
  · rw [hsent,List.append_assoc]
  · have hne : c.version+1≠c.seen := Nat.ne_of_gt (Nat.lt_succ_of_le h.seen)
    simp [Channel.send,Channel.hasChanged,hne]

theorem Follows.wake (h : Follows first c woken sent got) (hc : c.hasChanged = true) :
    Follows first c.markSeen true sent got := by
  obtain ⟨old,new,hsent,hsub,hlast,hnew⟩ := h.missed
  refine ⟨Nat.le_refl _,h.latest,old,new,hsent,hsub,hlast,?_⟩
  simp [hnew,hc]

theorem Follows.read (h : Follows first c true sent got) :
    Follows first c.borrowAndUpdate.2 false sent (got++[c.value]) := by
  obtain ⟨old,new,hsent,hsub,_,hnew⟩ := h.missed
  have hne : new≠[] := by simp [hnew]
  obtain ⟨before,a,rfl⟩ := List.eq_nil_or_concat' new |>.resolve_left hne
  have hvalue : c.value = a := by simp [h.latest,hsent]
  refine ⟨Nat.le_refl _,h.latest,sent,[],(List.append_nil _).symm,?_,?_,?_⟩
  · rw [hsent,hvalue,← List.append_assoc]
    exact (hsub.trans (List.sublist_append_left _ _)).append_right _
  · simp [hsent,hvalue]
  · simp [Channel.borrowAndUpdate,Channel.markSeen,Channel.hasChanged]

theorem Follows.sublist (h : Follows first c woken sent got) : got.Sublist sent := by
  obtain ⟨old,new,hsent,hsub,_,_⟩ := h.missed
  exact hsent ▸ hsub.trans (List.sublist_append_left _ _)

/-- A receiver that waits again has read what was sent last. -/
theorem Follows.caught_up (h : Follows first c false sent got) (hc : c.hasChanged = false) :
    got.getLast? = sent.getLast? := by
  obtain ⟨old,new,hsent,_,hlast,hnew⟩ := h.missed
  rw [hsent,hlast,hnew.mpr ⟨rfl,hc⟩,List.append_nil]

end

end Watch
