import ProofStell.Audit.Event
import ProofStell.Lib.Machine
import Mathlib.Data.Finmap

/-! Ingestion of audit events: duplicates are told by their idempotency key, order by the
last accepted sequence number of the aggregate. -/
namespace ProofStell.Audit
variable {DateTime : Type}

inductive AuditError where
  | serializationError (message : String)
  | invalidContractEventContext (message : String)
  | circuitBreakerOpen (message : String)
  | bulkheadFull (message : String)
  | cacheUnhealthy (message : String)
  deriving DecidableEq, Repr

def EVENT_DOCUMENT_REGISTERED : String := "DocumentRegistered"
def EVENT_DOCUMENT_REVOKED : String := "DocumentRevoked"
def EVENT_DOCUMENT_VERIFIED : String := "DocumentVerified"

inductive EventInvalidation where
  | documentRegistered (aggregateId : String)
  | documentRevoked (aggregateId : String)
  | documentVerified (aggregateId : String)
  deriving DecidableEq, Repr

/-- `sent` is what was broadcast. -/
structure EventIngestor where
  seenKeys : Finset String
  lastSequence : Finmap fun _ : String => UInt64
  sent : List EventInvalidation

namespace EventIngestor

def new : EventIngestor := ⟨∅,∅,[]⟩

def duplicateText (event : Event DateTime) : String :=
  "duplicate event: idempotency_key="++event.idempotencyKey

def orderingText (event : Event DateTime) (last : UInt64) : String :=
  "ordering failure: aggregate="++event.aggregateId++" current_seq="++
    toString event.sequence.toNat++" last_seq="++toString last.toNat

def invalidation (event : Event DateTime) : Option EventInvalidation :=
  if event.eventType = EVENT_DOCUMENT_REGISTERED then some (.documentRegistered event.aggregateId)
  else if event.eventType = EVENT_DOCUMENT_REVOKED then some (.documentRevoked event.aggregateId)
  else if event.eventType = EVENT_DOCUMENT_VERIFIED then some (.documentVerified event.aggregateId)
  else none

def behind (event : Event DateTime) (s : EventIngestor) : Option UInt64 :=
  (s.lastSequence.lookup event.aggregateId).filter (event.sequence ≤ ·)

def accept (event : Event DateTime) (s : EventIngestor) : EventIngestor :=
  { s with
    lastSequence := s.lastSequence.insert event.aggregateId event.sequence
    sent := s.sent++(invalidation event).toList }

/-- The key counts as seen from here on, also if the order is wrong. -/
def see (event : Event DateTime) (s : EventIngestor) : EventIngestor :=
  { s with seenKeys := insert event.idempotencyKey s.seenKeys }

def ingest (event : Event DateTime) (s : EventIngestor) :
    Except AuditError Unit × EventIngestor :=
  if event.idempotencyKey∈s.seenKeys then
    (.error (.invalidContractEventContext (duplicateText event)),s)
  else
    match (see event s).behind event with
    | some last => (.error (.invalidContractEventContext (orderingText event last)),see event s)
    | none => (.ok (),(see event s).accept event)

def accepted (events : List (Event DateTime)) (s : EventIngestor) : List (Event DateTime) :=
  ((Machine.outputs ingest events s).filter (·.2.isOk)).map Prod.fst

theorem ingest_cases (event : Event DateTime) (s : EventIngestor) :
    (event.idempotencyKey∈s.seenKeys ∧
      ingest event s = (.error (.invalidContractEventContext (duplicateText event)),s)) ∨
    (event.idempotencyKey∉s.seenKeys ∧ ∃ last, s.behind event = some last ∧
      ingest event s =
        (.error (.invalidContractEventContext (orderingText event last)),see event s)) ∨
    (event.idempotencyKey∉s.seenKeys ∧ s.behind event = none ∧
      ingest event s = (.ok (),(see event s).accept event)) := by
  by_cases hseen : event.idempotencyKey∈s.seenKeys
  · exact Or.inl ⟨hseen,if_pos hseen⟩
  · have hbehind : (see event s).behind event = s.behind event := rfl
    refine Or.inr ?_
    rw [ingest,if_neg hseen,hbehind]
    cases hb : s.behind event with
    | some last => exact Or.inl ⟨hseen,last,rfl,rfl⟩
    | none => exact Or.inr ⟨hseen,rfl,rfl⟩

def Ahead (event : Event DateTime) (s : EventIngestor) : Prop :=
  event.idempotencyKey∉s.seenKeys ∧
    ∀ last, s.lastSequence.lookup event.aggregateId = some last → last < event.sequence

theorem behind_eq_none_iff {event : Event DateTime} {s : EventIngestor} :
    s.behind event = none ↔
      ∀ last, s.lastSequence.lookup event.aggregateId = some last → last < event.sequence := by
  rw [behind,Option.filter_eq_none_iff]
  simp

theorem ingest_ok_iff (event : Event DateTime) (s : EventIngestor) :
    (ingest event s).1 = .ok () ↔ Ahead event s := by
  obtain ⟨hseen,heq⟩ | ⟨-,last,hlast,heq⟩ | ⟨hseen,hlast,heq⟩ := ingest_cases event s
  · simp [heq,Ahead,hseen]
  · simp [heq,Ahead,← behind_eq_none_iff,hlast]
  · simp [heq,Ahead,← behind_eq_none_iff,hlast,hseen]

theorem ingest_isOk_iff (event : Event DateTime) (s : EventIngestor) :
    (ingest event s).1.isOk = true ↔ Ahead event s := by
  rw [← ingest_ok_iff]
  cases (ingest event s).1 <;> simp [Except.isOk,Except.toBool]

theorem accepted_cons (event : Event DateTime) (events : List (Event DateTime))
    (s : EventIngestor) : accepted (event::events) s =
      (if (ingest event s).1.isOk then [event] else [])++accepted events (ingest event s).2 := by
  simp only [accepted,Machine.outputs,List.filter_cons]
  split <;> rfl

theorem accepted_append (u v : List (Event DateTime)) (s : EventIngestor) :
    accepted (u++v) s = accepted u s++accepted v (Machine.final ingest u s) := by
  simp [accepted,Machine.outputs_append]

def Grows (s t : EventIngestor) : Prop :=
  s.seenKeys⊆t.seenKeys ∧ ∀ aggregate last, s.lastSequence.lookup aggregate = some last →
    ∃ next, t.lastSequence.lookup aggregate = some next ∧ last ≤ next

theorem grows_see (event : Event DateTime) (s : EventIngestor) : Grows s (see event s) :=
  ⟨Finset.subset_insert _ _,fun _ last h => ⟨last,h,UInt64.le_refl last⟩⟩

theorem grows_ingest (event : Event DateTime) (s : EventIngestor) :
    Grows s (ingest event s).2 := by
  obtain ⟨-,heq⟩ | ⟨-,last,-,heq⟩ | ⟨-,hnone,heq⟩ := ingest_cases event s
  · rw [heq]
    exact ⟨Finset.Subset.refl _,fun _ last h => ⟨last,h,UInt64.le_refl last⟩⟩
  · rw [heq]
    exact grows_see event s
  · rw [heq]
    refine ⟨Finset.subset_insert _ _,fun aggregate last h => ?_⟩
    by_cases hsame : aggregate = event.aggregateId
    · subst hsame
      have hlt := behind_eq_none_iff.mp hnone last h
      exact ⟨event.sequence,Finmap.lookup_insert _,UInt64.le_of_lt hlt⟩
    · refine ⟨last,?_,UInt64.le_refl last⟩
      rw [← h]
      exact Finmap.lookup_insert_of_ne _ hsame

theorem Grows.ahead {s t : EventIngestor} (h : Grows s t) {event : Event DateTime}
    (ha : Ahead event t) : Ahead event s := by
  refine ⟨fun hseen => ha.1 (h.1 hseen),fun last hlast => ?_⟩
  obtain ⟨next,hnext,hle⟩ := h.2 _ last hlast
  exact UInt64.lt_of_le_of_lt hle (ha.2 next hnext)

/-- What a run accepts was new and ahead at its start. -/
theorem ahead_of_accepted {events : List (Event DateTime)} {s : EventIngestor}
    {event : Event DateTime} (h : event∈accepted events s) : Ahead event s := by
  induction events generalizing s with
  | nil => cases h
  | cons first events ih =>
    rw [accepted_cons,List.mem_append] at h
    obtain h | h := h
    · split at h
      · next hok =>
        rw [List.mem_singleton.mp h]
        exact (ingest_isOk_iff first s).mp hok
      · cases h
    · exact (grows_ingest first s).ahead (ih h)

def Precedes (e f : Event DateTime) : Prop :=
  e.idempotencyKey≠f.idempotencyKey ∧ (e.aggregateId = f.aggregateId → e.sequence < f.sequence)

theorem ahead_ingest_of_ok {e f : Event DateTime} {s : EventIngestor} (he : Ahead e s) :
    Ahead f (ingest e s).2 ↔ Ahead f s ∧ Precedes e f := by
  obtain ⟨hseen,-⟩ | ⟨-,last,hlast,-⟩ | ⟨-,-,heq⟩ := ingest_cases e s
  · exact absurd hseen he.1
  · simp [behind_eq_none_iff.mpr he.2] at hlast
  · rw [heq]
    simp only [Ahead,accept,see,Finset.mem_insert,not_or,Precedes]
    by_cases hagg : f.aggregateId = e.aggregateId
    · have hlast (hlt : e.sequence < f.sequence) (last : UInt64)
          (hl : s.lastSequence.lookup e.aggregateId = some last) : last < f.sequence :=
        UInt64.lt_trans (he.2 last hl) hlt
      rw [hagg,Finmap.lookup_insert]
      simp only [Option.some.injEq,forall_eq',true_imp_iff]
      tauto
    · simp only [Finmap.lookup_insert_of_ne _ hagg,Ne.symm hagg,false_imp_iff,and_true]
      tauto

theorem accepted_pairwise (events : List (Event DateTime)) (s : EventIngestor) :
    (accepted events s).Pairwise Precedes := by
  induction events generalizing s with
  | nil => exact List.Pairwise.nil
  | cons e events ih =>
    rw [accepted_cons]
    split
    · next hok =>
      refine List.Pairwise.cons (fun f hf => ?_) (ih _)
      have he := (ingest_isOk_iff e s).mp hok
      exact ((ahead_ingest_of_ok he).mp (ahead_of_accepted hf)).2
    · exact ih _

theorem outputs_of_pairwise {events : List (Event DateTime)} {s : EventIngestor}
    (h : events.Pairwise Precedes) (hs : ∀ e∈events, Ahead e s) :
    ∀ p∈Machine.outputs ingest events s, p.2 = .ok () := by
  induction events generalizing s with
  | nil => intro p hp; cases hp
  | cons e events ih =>
    obtain ⟨hfirst,hrest⟩ := List.pairwise_cons.mp h
    have he := hs e List.mem_cons_self
    intro p hp
    obtain rfl | hp := List.mem_cons.mp hp
    · exact (ingest_ok_iff e s).mpr he
    · refine ih hrest (fun f hf => ?_) p hp
      exact (ahead_ingest_of_ok he).mpr ⟨hs f (List.mem_cons_of_mem e hf),hfirst f hf⟩

theorem seen_ingest (event : Event DateTime) (s : EventIngestor) :
    event.idempotencyKey∈(ingest event s).2.seenKeys := by
  obtain ⟨hseen,heq⟩ | ⟨-,last,-,heq⟩ | ⟨-,-,heq⟩ := ingest_cases event s
  · rwa [heq]
  · rw [heq]
    exact Finset.mem_insert_self _ _
  · rw [heq]
    exact Finset.mem_insert_self _ _

theorem seen_of_offered {events : List (Event DateTime)} {s : EventIngestor}
    {event : Event DateTime} (h : event∈events) :
    event.idempotencyKey∈(Machine.final ingest events s).seenKeys := by
  obtain ⟨u,v,rfl⟩ := List.append_of_mem h
  rw [Machine.final_append]
  refine Machine.final_invariant (P := fun t => event.idempotencyKey∈t.seenKeys)
    (fun e t ht => (grows_ingest e t).1 ht) v _ ?_
  exact seen_ingest event (Machine.final ingest u s)

theorem ingest_seen {event : Event DateTime} {s : EventIngestor}
    (h : event.idempotencyKey∈s.seenKeys) :
    ingest event s = (.error (.invalidContractEventContext (duplicateText event)),s) :=
  if_pos h

/-- The second sequence is the first with extra copies of events, each put in somewhere
after an offering of the same event. -/
inductive Redelivers (events : List (Event DateTime)) : List (Event DateTime) → Prop where
  | refl : Redelivers events events
  | copy {u v : List (Event DateTime)} {event : Event DateTime} (h : Redelivers events (u++v))
      (hevent : event∈u) : Redelivers events (u++event::v)

theorem accepted_redelivered {events more : List (Event DateTime)}
    (h : Redelivers events more) (s : EventIngestor) : accepted more s = accepted events s := by
  induction h with
  | refl => rfl
  | copy h hevent ih =>
    rw [← ih,accepted_append,accepted_append,accepted_cons,ingest_seen (seen_of_offered hevent)]
    rfl

/-- What a fresh ingestor accepts has distinct keys and rising numbers in each aggregate,
and redelivery does not change it. -/
theorem ingestion_is_ordered_and_replay_safe (events : List (Event DateTime)) :
    ((accepted events new).Pairwise fun e f => e.idempotencyKey≠f.idempotencyKey) ∧
    ((accepted events new).Pairwise fun e f =>
      e.aggregateId = f.aggregateId → e.sequence < f.sequence) ∧
    ∀ more, Redelivers events more → accepted more new = accepted events new := by
  have hpair := accepted_pairwise events new
  exact ⟨hpair.imp And.left,hpair.imp And.right,fun more h => accepted_redelivered h new⟩

/-- A new key with a number that is not ahead: the key is recorded all the same. -/
def OutOfTurn (s : EventIngestor) (event : Event DateTime) : Prop :=
  event.idempotencyKey∉s.seenKeys ∧ ∃ last,
    s.lastSequence.lookup event.aggregateId = some last ∧ event.sequence ≤ last

theorem outOfTurn_iff {s : EventIngestor} {event : Event DateTime} :
    OutOfTurn s event ↔ event.idempotencyKey∉s.seenKeys ∧ ∃ last, s.behind event = some last := by
  simp [OutOfTurn,behind,Option.filter_eq_some_iff]

/-- The rejected event leaves no trace, and what is called a duplicate has been accepted. -/
def RejectsCleanly (events : List (Event DateTime)) (event : Event DateTime) : Prop :=
  let s := Machine.final ingest events new
  ((ingest event s).1≠.ok () → (ingest event s).2.seenKeys = s.seenKeys ∧
    (ingest event s).2.lastSequence = s.lastSequence) ∧
  ((ingest event s).1 = .error (.invalidContractEventContext (duplicateText event)) →
    ∃ earlier∈accepted events new, earlier.idempotencyKey = event.idempotencyKey)

theorem accepted_of_seen {events : List (Event DateTime)}
    (h : Machine.Along ingest (fun s e => ¬OutOfTurn s e) events new) {key : String}
    (hkey : key∈(Machine.final ingest events new).seenKeys) :
    ∃ earlier∈accepted events new, earlier.idempotencyKey = key := by
  induction events using List.reverseRecOn with
  | nil => simp [Machine.final,new] at hkey
  | append_singleton events event ih =>
    obtain ⟨hbefore,hturn⟩ := (Machine.along_snoc events event new).mp h
    have hold (hk : key∈(Machine.final ingest events new).seenKeys) :
        ∃ earlier∈accepted (events++[event]) new, earlier.idempotencyKey = key := by
      obtain ⟨earlier,hmem,hkey⟩ := ih hbefore hk
      rw [accepted_append]
      exact ⟨earlier,List.mem_append_left _ hmem,hkey⟩
    rw [Machine.final_snoc] at hkey
    obtain ⟨-,heq⟩ | ⟨hnew,hlast⟩ | ⟨-,-,heq⟩ :=
      ingest_cases event (Machine.final ingest events new)
    · rw [heq] at hkey
      exact hold hkey
    · obtain ⟨last,hlast,-⟩ := hlast
      exact absurd (outOfTurn_iff.mpr ⟨hnew,last,hlast⟩) hturn
    · rw [heq] at hkey
      obtain hkey | hkey := Finset.mem_insert.mp hkey
      · refine ⟨event,?_,hkey.symm⟩
        rw [accepted_append,accepted_cons,heq]
        simp [Except.isOk,Except.toBool]
      · exact hold hkey

theorem not_outOfTurn_of_clean {events : List (Event DateTime)} {event : Event DateTime}
    (h : RejectsCleanly events event) : ¬OutOfTurn (Machine.final ingest events new) event := by
  intro hout
  obtain ⟨hnew,last,hlast⟩ := outOfTurn_iff.mp hout
  obtain ⟨hseen,-⟩ | ⟨-,_,-,heq⟩ | ⟨-,hnone,-⟩ :=
    ingest_cases event (Machine.final ingest events new)
  · exact hnew hseen
  · have hclean := h.1
    rw [heq] at hclean
    refine hnew ?_
    rw [← (hclean (by simp)).1]
    exact Finset.mem_insert_self _ _
  · simp [hnone] at hlast

theorem clean_of_not_outOfTurn {events : List (Event DateTime)} {event : Event DateTime}
    (hbefore : Machine.Along ingest (fun s e => ¬OutOfTurn s e) events new)
    (h : ¬OutOfTurn (Machine.final ingest events new) event) : RejectsCleanly events event := by
  obtain ⟨hseen,heq⟩ | ⟨hnew,last,hlast,-⟩ | ⟨-,-,heq⟩ :=
    ingest_cases event (Machine.final ingest events new)
  · rw [RejectsCleanly,heq]
    exact ⟨fun _ => ⟨rfl,rfl⟩,fun _ => accepted_of_seen hbefore hseen⟩
  · exact absurd (outOfTurn_iff.mpr ⟨hnew,last,hlast⟩) h
  · rw [RejectsCleanly,heq]
    exact ⟨fun hrejected => absurd rfl hrejected,fun hdup => absurd hdup (by simp)⟩

/-- Every rejection of a run is clean exactly when no event of it is out of turn. -/
theorem rejections_are_clean_iff (events : List (Event DateTime)) :
    (∀ n event, events[n]? = some event → RejectsCleanly (events.take n) event) ↔
      Machine.Along ingest (fun s e => ¬OutOfTurn s e) events new := by
  constructor
  · intro h
    refine Machine.along_iff.mpr fun n event hn => ?_
    exact not_outOfTurn_of_clean (h n event hn)
  · intro h n event hn
    refine clean_of_not_outOfTurn ?_ (Machine.along_iff.mp h n event hn)
    rw [← List.take_append_drop n events,Machine.along_append] at h
    exact h.1

/-- An event that comes too late is called a duplicate when it comes again, although no
event with its key was ever accepted. -/
theorem late_event_becomes_duplicate :
    let event (key : String) (sequence : UInt64) : Event String :=
      ⟨key,"doc-1","Updated",.null,"2026-01-01T00:00:00Z",sequence,"user-1",key,.service,none⟩
    let s := (ingest (event "event1" 10) new).2
    let t := (ingest (event "event2" 5) s).2
    (ingest (event "event2" 5) s).1 =
        .error (.invalidContractEventContext (orderingText (event "event2" 5) 10)) ∧
      t.seenKeys≠s.seenKeys ∧
      (ingest (event "event2" 5) t).1 =
        .error (.invalidContractEventContext (duplicateText (event "event2" 5))) ∧
      (accepted [event "event1" 10,event "event2" 5] new).map Event.idempotencyKey =
        ["event1"] := by
  decide +kernel

end EventIngestor
end ProofStell.Audit
