import ProofStell.Limiter.Exact

/-! Any number of callers racing on one bucket: each load and each compare-exchange is
a step of its own. -/
namespace ProofStell.Limiter.AtomicTokenBucket
variable {κ : Type*} [DecidableEq κ]

def race (b : AtomicTokenBucket) (l : List (CasLoop.Step κ UInt64)) :
    CasLoop.State κ UInt64 UInt64 ConsumeOutcome :=
  Machine.final (CasLoop.step b.attempt) l (CasLoop.State.init b.state)

/-- The calls that are through, in the order of their deciding load or exchange. -/
def decided (b : AtomicTokenBucket) (l : List (CasLoop.Step κ UInt64)) :
    List (κ × UInt64 × ConsumeOutcome) :=
  CasLoop.completed b.attempt l (CasLoop.State.init b.state)

theorem race_linearized (b : AtomicTokenBucket) (l : List (CasLoop.Step κ UInt64)) :
    CasLoop.Linearized b.attempt b.state (b.decided l) (b.race l) :=
  CasLoop.linearized b.attempt l b.state

theorem calls_decided (b : AtomicTokenBucket) (l : List (CasLoop.Step κ UInt64)) :
    b.calls ((b.decided l).map (·.2.1)) = (b.decided l).map Prod.snd := by
  rw [calls_eq]
  exact (b.race_linearized l).outcomes

theorem afterCalls_decided (b : AtomicTokenBucket) (l : List (CasLoop.Step κ UInt64)) :
    b.afterCalls ((b.decided l).map (·.2.1)) = { b with state := (b.race l).word } := by
  rw [afterCalls_eq,(b.race_linearized l).word]

/-- Undisturbed calls at one time get exactly the tokens that are there. -/
theorem grants_replicate (b : AtomicTokenBucket) (n : Nat) {now : UInt64}
    (hnow : now.toNat < 2^32) :
    grants (b.calls (List.replicate n now)) = min n ((b.tokensAt now).toNat/1000) := by
  have hlt : ∀ t∈List.replicate n now, t.toNat < 2^32 := by
    intro t ht
    rw [List.eq_of_mem_replicate ht]
    exact hnow
  rw [grants_calls b hlt,List.map_replicate,TokenBucket.granted_replicate (by decide),
    tokensAt_toNat b hnow]

/-- No interleaving loses or duplicates an update: the calls that are through ran one after
another, in an order that keeps calls apart that did not overlap. -/
theorem race_is_sequential (b : AtomicTokenBucket) (l : List (CasLoop.Step κ UInt64)) :
    ((b.decided l).map Prod.fst).Nodup ∧
    (∀ k now outcome,
      (k,now,outcome)∈b.decided l ↔ (b.race l).callers k = .done now outcome) ∧
    (∀ n a c, (∃ now outcome, (b.race (l.take n)).callers a = .done now outcome) →
      (b.race (l.take n)).callers c = .idle →
      (∃ now outcome, (b.race l).callers c = .done now outcome) →
      [a,c].Sublist ((b.decided l).map Prod.fst)) ∧
    b.calls ((b.decided l).map (·.2.1)) = (b.decided l).map Prod.snd ∧
    (b.afterCalls ((b.decided l).map (·.2.1))).state = (b.race l).word ∧
    ∀ now : UInt64, now.toNat < 2^32 → (∀ k i, CasLoop.Step.start k i∈l → i = now) →
      grants ((b.decided l).map Prod.snd) =
        min (b.decided l).length ((b.tokensAt now).toNat/1000) := by
  have hlin := b.race_linearized l
  refine ⟨hlin.once,hlin.complete,?_,b.calls_decided l,by rw [b.afterCalls_decided l],?_⟩
  · intro n a c ha hc hend
    obtain ⟨now,outcome,ha⟩ := ha
    obtain ⟨now',outcome',hend⟩ := hend
    exact CasLoop.real_time b.attempt l b.state n ha hc hend
  · intro now hnow hcommon
    have hsame : (b.decided l).map (·.2.1) = List.replicate (b.decided l).length now := by
      rw [List.eq_replicate_iff,List.length_map]
      refine ⟨rfl,?_⟩
      intro i hi
      obtain ⟨⟨k,i,outcome⟩,hmem,rfl⟩ := List.mem_map.mp hi
      have hdone := (hlin.complete k i outcome).mp hmem
      exact hcommon k i (CasLoop.started_of_input b.attempt l b.state (by
        rw [show Machine.final _ _ _ = b.race l from rfl,hdone]
        rfl))
    rw [← b.calls_decided l,hsame,b.grants_replicate _ hnow]

theorem race_is_sequential_for_the_last_token :
    let b := new 1 1 0 "issuer" 7
    let l : List (CasLoop.Step Bool UInt64) := [.start false 7,.start true 7,.load false,
      .load true,.cas true true,.cas false false,.load true]
    b.decided l = [(false,7,⟨true,0,false⟩),(true,7,⟨false,0,false⟩)] ∧
      grants ((b.decided l).map Prod.snd) =
        min (b.decided l).length ((b.tokensAt 7).toNat/1000) := by
  refine ⟨by decide +kernel,(race_is_sequential _ _).2.2.2.2.2 7 (by decide) ?_⟩
  intro k i hstart
  have hcases : k = false ∧ i = 7 ∨ k = true ∧ i = 7 := by simpa using hstart
  exact hcases.elim And.right And.right

end ProofStell.Limiter.AtomicTokenBucket
