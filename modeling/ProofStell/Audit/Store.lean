import ProofStell.Audit.Ingestor

/-! The append-only store numbers the events of each aggregate; what it hands out in this
way an ingestor takes. -/
namespace ProofStell.Audit
variable {DateTime : Type}

/-- A `Vec` never holds more than `isize::MAX` elements. -/
structure Vec (α : Type) where
  items : List α
  fits : items.length < 2^63

def Vec.empty {α : Type} : Vec α := ⟨[],Nat.two_pow_pos 63⟩

/-- `none` where `push` panics for want of capacity. -/
def Vec.push {α : Type} (v : Vec α) (item : α) : Option (Vec α) :=
  if h : (v.items++[item]).length < 2^63 then some ⟨v.items++[item],h⟩ else none

def Event.withSequence (event : Event DateTime) (sequence : UInt64) : Event DateTime :=
  { event with sequence }

structure EventStore (DateTime : Type) where
  events : Finmap fun _ : String => Vec (Event DateTime)

namespace EventStore

def new : EventStore DateTime := ⟨∅⟩

def entry (s : EventStore DateTime) (aggregateId : String) : Vec (Event DateTime) :=
  (s.events.lookup aggregateId).getD Vec.empty

/-- The number and the aggregate that the event has itself are replaced. -/
def finalize (aggregateId : String) (event : Event DateTime) (s : EventStore DateTime) :
    Event DateTime :=
  { event.withSequence (UInt64.ofNat (s.entry aggregateId).items.length+1) with aggregateId }

def append (aggregateId : String) (event : Event DateTime) (s : EventStore DateTime) :
    Option (Event DateTime) × EventStore DateTime :=
  match (s.entry aggregateId).push (finalize aggregateId event s) with
  | some pushed => (some (finalize aggregateId event s),⟨s.events.insert aggregateId pushed⟩)
  | none => (none,s)

def count (s : EventStore DateTime) (aggregateId : String) : Nat :=
  ((s.events.lookup aggregateId).map fun events => events.items.length).getD 0

end EventStore
end ProofStell.Audit
