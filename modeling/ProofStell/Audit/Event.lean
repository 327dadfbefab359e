import ProofStell.Lib.Json

/-! The audit event of `event.rs`. Time stamps are values of the clock library. -/
namespace ProofStell.Audit

inductive EventSource where
  | contract | service
  deriving DecidableEq, Repr

structure Event (DateTime : Type) where
  id : String
  aggregateId : String
  eventType : String
  data : Json.Value
  timestamp : DateTime
  sequence : UInt64
  actor : String
  idempotencyKey : String
  source : EventSource
  metadata : Option Json.Value

end ProofStell.Audit
