import ProofStell.Audit.Ingestor
import ProofStell.Hash.Bytes
import ProofStell.Lib.Saturating

/-! Audit events made from contract events: their sequence numbers and the order in which the
ingestor takes them. -/
namespace ProofStell.Audit
variable {DateTime : Type}

structure ContractEventContext where
  transactionHash : String
  ledgerSequence : UInt64
  eventIndex : UInt32
  documentHash : String
  deriving DecidableEq, Repr

def isBlank (s : String) : Bool := (Hash.trim s.toList).isEmpty

namespace ContractEventContext

def validate (context : ContractEventContext) : Except AuditError Unit :=
  if isBlank context.transactionHash then
    .error (.invalidContractEventContext "transaction hash cannot be empty")
  else if isBlank context.documentHash then
    .error (.invalidContractEventContext "document hash cannot be empty")
  else if context.ledgerSequence = 0 then
    .error (.invalidContractEventContext "ledger sequence must be greater than 0")
  else .ok ()

def idempotencyKey (context : ContractEventContext) (aggregateId eventType : String) : String :=
  "contract:"++context.transactionHash++":"++toString context.ledgerSequence.toNat++":"++
    toString context.eventIndex.toNat++":"++aggregateId++":"++eventType

def sequence (context : ContractEventContext) : UInt64 :=
  Saturating.add64 (Saturating.mul64 context.ledgerSequence 1000) context.eventIndex.toUInt64

def metadata (context : ContractEventContext) : Json.Value :=
  .object [("transaction_hash",.string context.transactionHash),
    ("ledger_sequence",Json.ofU64 context.ledgerSequence),
    ("event_index",Json.ofU32 context.eventIndex),
    ("document_hash",.string context.documentHash),("source",.string "contract")]

end ContractEventContext

def Event.fromContractEvent (id : String) (timestamp : DateTime) (aggregateId eventType : String)
    (data : Json.Value) (actor : String) (context : ContractEventContext) :
    Except AuditError (Event DateTime) :=
  match context.validate with
  | .error e => .error e
  | .ok () =>
    .ok
      { id := id
        aggregateId := aggregateId
        eventType := eventType
        data := data
        timestamp := timestamp
        sequence := context.sequence
        actor := actor
        idempotencyKey := context.idempotencyKey aggregateId eventType
        source := .contract
        metadata := some context.metadata }

namespace ContractEventContext

theorem validate_ok_iff (context : ContractEventContext) :
    context.validate = .ok () ↔ isBlank context.transactionHash = false ∧
      isBlank context.documentHash = false ∧ context.ledgerSequence≠0 := by
  simp only [validate]
  split
  · next h => simp [h]
  · split
    · next h => simp [h]
    · split
      · next h => simp [h]
      · next h₁ h₂ h₃ => simp [h₁,h₂,h₃]

theorem sequence_toNat (context : ContractEventContext) : context.sequence.toNat =
    min (1000*context.ledgerSequence.toNat+context.eventIndex.toNat) (2^64-1) := by
  have hthousand : (1000 : UInt64).toNat = 1000 := rfl
  rw [sequence,Saturating.add64_toNat,Saturating.mul64_toNat,UInt32.toNat_toUInt64,hthousand]
  omega

def Earlier (x y : ContractEventContext) : Prop :=
  x.ledgerSequence < y.ledgerSequence ∨
    x.ledgerSequence = y.ledgerSequence ∧ x.eventIndex < y.eventIndex

/-- The index stays below a thousand for each ledger up to the later event and the index of
that, and the number does not saturate. -/
def fits (x y : ContractEventContext) : Bool :=
  x.eventIndex.toNat <
      1000*(y.ledgerSequence.toNat-x.ledgerSequence.toNat)+y.eventIndex.toNat ∧
    1000*x.ledgerSequence.toNat+x.eventIndex.toNat < 2^64-1

theorem sequence_lt_iff {x y : ContractEventContext} (h : x.Earlier y) :
    x.sequence < y.sequence ↔ x.fits y = true := by
  have hledger : x.ledgerSequence.toNat ≤ y.ledgerSequence.toNat := by
    obtain h | ⟨h,_⟩ := h
    · exact Nat.le_of_lt (UInt64.lt_iff_toNat_lt.mp h)
    · rw [h]
  rw [UInt64.lt_iff_toNat_lt,sequence_toNat,sequence_toNat,fits,decide_eq_true_eq]
  omega

end ContractEventContext
namespace EventIngestor

theorem ahead_new (event : Event DateTime) : Ahead event new :=
  ⟨by simp [new],fun last h => by simp [new] at h⟩

/-- A fresh ingestor takes all events exactly if each precedes all later ones. -/
theorem all_accepted_iff (events : List (Event DateTime)) :
    (∀ p∈Machine.outputs ingest events new, p.2 = .ok ()) ↔ events.Pairwise Precedes := by
  constructor
  · intro h
    have hall : accepted events new = events := by
      rw [accepted,List.filter_eq_self.mpr fun p hp => by rw [h p hp]; rfl,
        Machine.outputs_map_fst]
    rw [← hall]
    exact accepted_pairwise events new
  · intro h
    exact outputs_of_pairwise h fun e _ => ahead_new e

end EventIngestor

def MadeFrom (aggregateId : String) (context : ContractEventContext) (event : Event DateTime) :
    Prop :=
  ∃ id timestamp eventType data actor,
    Event.fromContractEvent id timestamp aggregateId eventType data actor context = .ok event

theorem fromContractEvent_ok {id : String} {timestamp : DateTime} {aggregateId eventType : String}
    {data : Json.Value} {actor : String} {context : ContractEventContext} {event : Event DateTime}
    (h : Event.fromContractEvent id timestamp aggregateId eventType data actor context =
      .ok event) :
    context.validate = .ok () ∧ event.aggregateId = aggregateId ∧
      event.eventType = eventType ∧ event.sequence = context.sequence ∧
      event.idempotencyKey = context.idempotencyKey aggregateId eventType := by
  rw [Event.fromContractEvent] at h
  split at h
  · cases h
  · next hvalid =>
    cases h
    exact ⟨hvalid,rfl,rfl,rfl,rfl⟩

theorem madeFrom_numbers {aggregateId : String} {contexts : List ContractEventContext}
    {events : List (Event DateTime)} (h : List.Forall₂ (MadeFrom aggregateId) contexts events) :
    events.map Event.sequence = contexts.map ContractEventContext.sequence ∧
      ∀ e∈events, e.aggregateId = aggregateId := by
  induction h with
  | nil => simp
  | cons hm _ ih =>
    obtain ⟨_,_,_,_,_,hm⟩ := hm
    obtain ⟨_,hagg,_,hseq,_⟩ := fromContractEvent_ok hm
    refine ⟨by rw [List.map_cons,List.map_cons,hseq,ih.1],?_⟩
    intro e he
    obtain rfl | he := List.mem_cons.mp he
    · exact hagg
    · exact ih.2 e he

theorem pairwise_precedes_iff {aggregateId : String} {contexts : List ContractEventContext}
    {events : List (Event DateTime)} (h : List.Forall₂ (MadeFrom aggregateId) contexts events)
    (hkeys : (events.map Event.idempotencyKey).Nodup) :
    events.Pairwise EventIngestor.Precedes ↔
      contexts.Pairwise fun x y => x.sequence < y.sequence := by
  obtain ⟨hnumbers,hagg⟩ := madeFrom_numbers h
  rw [← List.pairwise_map (f := ContractEventContext.sequence) (R := (· < ·)),← hnumbers,
    List.pairwise_map]
  constructor
  · intro hall
    refine hall.imp_of_mem fun he hf hpair => hpair.2 ?_
    rw [hagg _ he,hagg _ hf]
  · intro hall
    exact ((List.pairwise_map.mp hkeys).and hall).imp fun hpair => ⟨hpair.1,fun _ => hpair.2⟩

/-- The sequence numbers keep the order of the chain exactly if the earlier event fits before the
later one; a fresh ingestor then accepts all of them. -/
theorem chain_order_kept_iff (DateTime : Type) :
    (∀ x y : ContractEventContext, x.validate = .ok () → y.validate = .ok () → x.Earlier y →
      (x.sequence < y.sequence ↔ x.fits y = true)) ∧
    ∀ (aggregateId : String) (contexts : List ContractEventContext)
      (events : List (Event DateTime)), List.Forall₂ (MadeFrom aggregateId) contexts events →
      (events.map Event.idempotencyKey).Nodup → contexts.Pairwise ContractEventContext.Earlier →
      ((∀ p∈Machine.outputs EventIngestor.ingest events .new, p.2 = .ok ()) ↔
        contexts.Pairwise fun x y => x.fits y = true) := by
  refine ⟨fun x y _ _ h => ContractEventContext.sequence_lt_iff h,?_⟩
  intro aggregateId contexts events hmade hkeys horder
  rw [EventIngestor.all_accepted_iff,pairwise_precedes_iff hmade hkeys]
  constructor
  · intro h
    exact (horder.and h).imp fun hpair => (ContractEventContext.sequence_lt_iff hpair.1).mp hpair.2
  · intro h
    exact (horder.and h).imp fun hpair =>
      (ContractEventContext.sequence_lt_iff hpair.1).mpr hpair.2

theorem chain_order_kept_over_two_ledgers :
    let x : ContractEventContext := ⟨"tx",1,999,"document"⟩
    let y : ContractEventContext := ⟨"tx",2,0,"document"⟩
    let event (context : ContractEventContext) : Event Unit := ⟨"id","aggregate","type",.null,(),
      context.sequence,"actor",context.idempotencyKey "aggregate" "type",.contract,
      some context.metadata⟩
    x.sequence < y.sequence ∧
      ∀ p∈Machine.outputs EventIngestor.ingest [event x,event y] .new, p.2 = .ok () := by
  intro x y event
  obtain ⟨hpair,hlist⟩ := chain_order_kept_iff Unit
  have hx : x.validate = .ok () := by decide +kernel
  have hy : y.validate = .ok () := by decide +kernel
  have hxy : x.Earlier y := Or.inl (by decide +kernel)
  have hfits : x.fits y = true := by decide +kernel
  have hmade (context : ContractEventContext) (h : context.validate = .ok ()) :
      MadeFrom "aggregate" context (event context) :=
    ⟨"id",(),"type",.null,"actor",by rw [Event.fromContractEvent,h]⟩
  refine ⟨(hpair x y hx hy hxy).mpr hfits,?_⟩
  refine (hlist "aggregate" [x,y] _ (.cons (hmade x hx) (.cons (hmade y hy) .nil)) ?_ ?_).mpr ?_
  · decide +kernel
  · simpa using hxy
  · simpa using hfits

/-- The event at index 1000 of a ledger gets the number of the first event of the next one. -/
theorem chain_order_lost :
    ¬∀ x y : ContractEventContext, x.validate = .ok () → y.validate = .ok () → x.Earlier y →
      x.sequence < y.sequence := by
  intro hall
  have hlt := hall ⟨"tx",1,1000,"document"⟩ ⟨"tx",2,0,"document"⟩ (by decide +kernel)
    (by decide +kernel) (Or.inl (by decide +kernel))
  revert hlt
  decide +kernel

end ProofStell.Audit
