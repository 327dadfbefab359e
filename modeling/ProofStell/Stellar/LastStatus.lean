import ProofStell.Stellar.Verification

/-! The HTTP status in the answer of `verify_hash`. The loop writes it at error statuses, clears
it at connection errors and carries it through everything else. -/
namespace ProofStell.Stellar
open Hash

namespace HorizonOutcome

def Failed (o : HorizonOutcome) (status : UInt16) : Prop :=
  ∃ body, o = .response status body ∧ isSuccess status = false

def silent : HorizonOutcome → Bool
  | .bulkheadTimeout => true
  | .connectionError => false
  | .response status _ => isSuccess status

def Confirms (crates : Crates) (hash : String) (o : HorizonOutcome) : Prop :=
  ∃ status body record, o = .response status body ∧ isSuccess status = true ∧
    parseHorizonTransaction crates body hash = .ok (some record)

theorem Failed.not_silent {o : HorizonOutcome} {status : UInt16} (h : o.Failed status) :
    ¬o.silent = true := by
  obtain ⟨body,rfl,hs⟩ := h
  simp [silent,hs]

theorem Confirms.silent {crates : Crates} {hash : String} {o : HorizonOutcome}
    (h : o.Confirms crates hash) : o.silent = true := by
  obtain ⟨status,body,record,rfl,hs,_⟩ := h
  exact hs

theorem httpAfter_eq_some_iff (o : HorizonOutcome) (previous : Option UInt16) (status : UInt16) :
    o.httpAfter previous = some status ↔
      o.Failed status ∨ o.silent = true ∧ previous = some status := by
  cases o with
  | bulkheadTimeout => simp [httpAfter,Failed,silent]
  | connectionError => simp [httpAfter,Failed,silent]
  | response s body =>
    cases hs : isSuccess s with
    | true =>
      have hno : ¬(response s body).Failed status := fun hf => hf.not_silent hs
      simp [httpAfter,silent,hs,hno]
    | false =>
      simp only [httpAfter,silent,hs,Bool.false_eq_true,if_false,false_and,or_false,
        Option.some.injEq]
      constructor
      · rintro rfl
        exact ⟨body,rfl,hs⟩
      · rintro ⟨body',ho,_⟩
        cases ho
        rfl

/-- The status carried is that of the last failure, with only silent outcomes after it. -/
theorem httpFrom_eq_some_iff (outcomes : Nat → HorizonOutcome) (k : Nat) (status : UInt16) :
    httpFrom outcomes k = some status ↔ ∃ j < k, (outcomes j).Failed status ∧
      ∀ i, j < i → i < k → (outcomes i).silent = true := by
  induction k with
  | zero => simp [httpFrom]
  | succ k ih =>
    rw [httpFrom,httpAfter_eq_some_iff,ih]
    constructor
    · rintro (hf | ⟨hsilent,j,hj,hf,hafter⟩)
      · exact ⟨k,by omega,hf,fun i hki hik => by omega⟩
      · refine ⟨j,by omega,hf,fun i hji hik => ?_⟩
        obtain hlt | rfl := Nat.lt_succ_iff_lt_or_eq.mp hik
        · exact hafter i hji hlt
        · exact hsilent
    · rintro ⟨j,hj,hf,hafter⟩
      obtain hlt | rfl := Nat.lt_succ_iff_lt_or_eq.mp hj
      · exact Or.inr ⟨hafter k hlt (by omega),j,hlt,hf,fun i hji hik => hafter i hji (by omega)⟩
      · exact Or.inl hf

end HorizonOutcome

section Report
variable {c : StellarClient} {crates : Crates} {h : CanonicalHash}
  {outcomes : Nat → HorizonOutcome} {i : Nat} {result : VerificationResult}

theorem EndsWith.stops (hends : EndsWith c crates h outcomes i result) :
    i = c.maxRetries.toNat ∨ ¬(outcomes i).transient = true := by
  obtain ⟨hi,_⟩ | ⟨_,_,hp,_⟩ | ⟨_,hp,_⟩ | ⟨hr,_⟩ := hends
  · exact Or.inl hi
  · exact Or.inr hp.not_transient
  · exact Or.inr hp.not_transient
  · exact Or.inr hr.not_transient

theorem EndsWith.lastHttpStatus (hends : EndsWith c crates h outcomes i result) :
    ((outcomes i).Confirms crates h.inner ∧ result.lastHttpStatus = none) ∨
      ¬(outcomes i).Confirms crates h.inner ∧
        result.lastHttpStatus = HorizonOutcome.httpFrom outcomes (i+1) := by
  obtain ⟨_,ht,rfl⟩ | ⟨records,tx,⟨status,body,ho,hs,hb⟩,hm,rfl⟩ |
    ⟨records,hp,hm,rfl⟩ | ⟨hr,rfl⟩ := hends
  · refine Or.inr ⟨?_,rfl⟩
    rintro ⟨status,body,record,ho,hs,hparse⟩
    obtain ⟨tx,⟨records,hb,_⟩,_⟩ := (parse_accepts_iff crates).mp hparse
    exact HorizonOutcome.Parsed.not_transient ⟨status,body,ho,hs,hb⟩ ht
  · exact Or.inl ⟨⟨status,body,toRecord crates tx,ho,hs,
      (parse_accepts_iff crates).mpr ⟨tx,⟨records,hb,hm⟩,rfl⟩⟩,rfl⟩
  · refine Or.inr ⟨?_,rfl⟩
    rintro ⟨status,body,record,ho,hs,hparse⟩
    obtain ⟨tx,⟨records',hb,hm'⟩,_⟩ := (parse_accepts_iff crates).mp hparse
    rw [hp.unique ⟨status,body,ho,hs,hb⟩,hm'] at hm
    cases hm
  · refine Or.inr ⟨?_,rfl⟩
    rintro ⟨status,body,record,ho,hs,_⟩
    obtain ⟨_,_,ho',hs',_⟩ := hr
    cases ho.symm.trans ho'
    rw [hs] at hs'
    cases hs'

end Report

theorem executeVerifyHashWithRetry_error {c : StellarClient} {hash : String}
    {script : Nat → Attempt} {e : StellarError}
    (h : c.executeVerifyHashWithRetry hash script = .error e) :
    ∃ reason, e = .retryExhausted "verify_hash" (c.maxRetries+1) c.maxRetries
        (.request c.horizonUrl reason) ∧
      ((∃ status, (c.verifyHash hash script).lastHttpStatus = some status ∧
          reason = "HTTP "++toString status) ∨
        ∃ v : VerificationStatus, reason = "verification returned "++v.debug) := by
  rw [StellarClient.executeVerifyHashWithRetry] at h
  cases hhttp : (c.verifyHash hash script).lastHttpStatus with
  | none =>
    cases hstatus : (c.verifyHash hash script).status <;> simp only [hhttp,hstatus] at h <;>
      cases h
    · exact ⟨_,rfl,Or.inr ⟨_,rfl⟩⟩
    · exact ⟨_,rfl,Or.inr ⟨_,rfl⟩⟩
  | some status =>
    cases hstatus : (c.verifyHash hash script).status <;> simp only [hhttp,hstatus] at h <;>
      cases h
    · exact ⟨_,rfl,Or.inl ⟨status,rfl,rfl⟩⟩
    · exact ⟨_,rfl,Or.inl ⟨status,rfl,rfl⟩⟩

theorem httpReason_injective {s t : UInt16} (h : "HTTP "++toString s = "HTTP "++toString t) :
    s = t := by
  have hvalue (n : Nat) : Nat.ofDigitChars 10 (toString n).toList 0 = n := by
    rw [show (toString n).toList = Nat.toDigits 10 n from Nat.toList_repr]
    exact Nat.ofDigitChars_ten_toDigits
  have hdigits : (toString s.toNat).toList = (toString t.toNat).toList := by
    have hlist := congrArg String.toList h
    rw [String.toList_append,String.toList_append] at hlist
    exact List.append_cancel_left hlist
  refine UInt16.toNat_inj.mp ?_
  rw [← hvalue s.toNat,hdigits,hvalue]

theorem executeVerifyHashWithRetry_reason {c : StellarClient} {hash : String}
    {script : Nat → Attempt} {operation url : String} {made retries : UInt32} {status : UInt16}
    (h : c.executeVerifyHashWithRetry hash script = .error (.retryExhausted operation made retries
      (.request url ("HTTP "++toString status)))) :
    (c.verifyHash hash script).lastHttpStatus = some status := by
  obtain ⟨reason,he,hreason⟩ := executeVerifyHashWithRetry_error h
  obtain ⟨_,_,_,hfinal⟩ := StellarError.retryExhausted.inj he
  obtain ⟨_,rfl⟩ := StellarError.request.inj hfinal
  obtain ⟨s,hs,hsame⟩ | ⟨v,hother⟩ := hreason
  · rw [hs,httpReason_injective hsame]
  · have hlist := congrArg String.toList hother
    rw [String.toList_append,String.toList_append] at hlist
    have hhead : 'H' = 'v' := (List.cons.inj hlist).1
    exact absurd hhead (by decide)

/-- The answer carries the status of the last attempt if that failed with one and none
otherwise, and so does the reason that `verify_hash_with_retry` reports. -/
structure StatusIsFinal (c : StellarClient) (crates : Crates) (h : CanonicalHash)
    (outcomes : Nat → HorizonOutcome) : Prop where
  result : ∀ status, (verify c crates h outcomes).lastHttpStatus = some status ↔
    (outcomes (attempts c crates h outcomes-1)).Failed status
  reason : ∀ (s : Service) (caller now : Nat) (operation url : String) (made retries : UInt32)
    (status : UInt16), (verifyHashWithRetry c (.finish ⟨caller,h.inner⟩
        (fun i => (outcomes i).attempt crates h.inner) now) s).1 =
      some (.error (.retryExhausted operation made retries
        (.request url ("HTTP "++toString status)))) →
    (outcomes (attempts c crates h outcomes-1)).Failed status

/-- The run ends at `i`, on a bulkhead timeout or a 2xx response without a match, and so do the
attempts before it back to one that failed with an error status. -/
def EndsStale (c : StellarClient) (crates : Crates) (h : CanonicalHash)
    (outcomes : Nat → HorizonOutcome) (i : Nat) : Prop :=
  i ≤ c.maxRetries.toNat ∧ (∀ k < i, (outcomes k).transient = true) ∧
    (i = c.maxRetries.toNat ∨ ¬(outcomes i).transient = true) ∧
    ¬(outcomes i).Confirms crates h.inner ∧
    ∃ j < i, (∃ status, (outcomes j).Failed status) ∧
      ∀ k, j < k → k ≤ i → (outcomes k).silent = true

theorem end_unique {maxRetries i j : Nat} {outcomes : Nat → HorizonOutcome}
    (hi : i ≤ maxRetries) (hi' : ∀ k < i, (outcomes k).transient = true)
    (hstop : i = maxRetries ∨ ¬(outcomes i).transient = true)
    (hj : j ≤ maxRetries) (hj' : ∀ k < j, (outcomes k).transient = true)
    (hstop' : j = maxRetries ∨ ¬(outcomes j).transient = true) : i = j := by
  obtain hlt | heq | hlt := Nat.lt_trichotomy i j
  · exact absurd (hj' i hlt) (hstop.resolve_left (by omega))
  · exact heq
  · exact absurd (hi' j hlt) (hstop'.resolve_left (by omega))

/-- The status reported is the final one exactly when no failure is followed to the end by
attempts that leave it standing. -/
theorem statusIsFinal_iff (c : StellarClient) (crates : Crates) (h : CanonicalHash)
    (outcomes : Nat → HorizonOutcome) :
    StatusIsFinal c crates h outcomes ↔ ∀ i, ¬EndsStale c crates h outcomes i := by
  obtain ⟨i,hi,hearlier,hmade,hends⟩ := verify_ends c crates h outcomes
  have hstop := hends.stops
  have hlast : outcomes (attempts c crates h outcomes-1) = outcomes i := by
    rw [hmade,Nat.add_sub_cancel]
  constructor
  · rintro hfinal i' ⟨hi',hearlier',hstop',hconfirms,j,hj,⟨status,hf⟩,hsilent⟩
    obtain rfl := end_unique hi hearlier hstop hi' hearlier' hstop'
    obtain ⟨hmatch,_⟩ | ⟨_,hhttp⟩ := hends.lastHttpStatus
    · exact hconfirms hmatch
    · have hcarried := (HorizonOutcome.httpFrom_eq_some_iff outcomes (i+1) status).mpr
        ⟨j,by omega,hf,fun k hjk hki => hsilent k hjk (by omega)⟩
      have hlastf := (hfinal.result status).mp (hhttp.trans hcarried)
      rw [hlast] at hlastf
      exact hlastf.not_silent (hsilent i hj (Nat.le_refl i))
  · intro hnot
    have hresult : ∀ status, (verify c crates h outcomes).lastHttpStatus = some status ↔
        (outcomes i).Failed status := by
      intro status
      obtain ⟨hmatch,hhttp⟩ | ⟨hconfirms,hhttp⟩ := hends.lastHttpStatus
      · rw [hhttp]
        exact ⟨fun hnone => (by cases hnone),fun hf => absurd hmatch.silent hf.not_silent⟩
      · rw [hhttp,HorizonOutcome.httpFrom_eq_some_iff]
        constructor
        · rintro ⟨j,hj,hf,hsilent⟩
          obtain hlt | rfl := Nat.lt_succ_iff_lt_or_eq.mp hj
          · exact absurd ⟨hi,hearlier,hstop,hconfirms,j,hlt,⟨status,hf⟩,
              fun k hjk hki => hsilent k hjk (by omega)⟩ (hnot i)
          · exact hf
        · exact fun hf => ⟨i,by omega,hf,fun k hik hki => by omega⟩
    refine ⟨fun status => hlast ▸ hresult status,?_⟩
    intro s caller now operation url made retries status hreason
    rw [hlast]
    rw [verifyHashWithRetry] at hreason
    split at hreason
    · exact (hresult status).mp (executeVerifyHashWithRetry_reason (Option.some.inj hreason))
    · cases hreason

/-- One retry: a 503 and then no permit from the bulkhead, which is reported as `HTTP 503`. -/
theorem stale_status_reported :
    let c : StellarClient := ⟨"https://horizon",1,⟨5,30000,1⟩,false⟩
    let crates : Crates := ⟨Base64.encode,fun _ => none,⟨fun _ c _ => [c],by simp⟩⟩
    let h : CanonicalHash :=
      ⟨"1111111111111111111111111111111111111111111111111111111111111111",by decide +kernel⟩
    let outcomes : Nat → HorizonOutcome := fun i =>
      if i = 0 then .response 503 none else .bulkheadTimeout
    (verify c crates h outcomes).lastHttpStatus = some 503 ∧ attempts c crates h outcomes = 2 ∧
      outcomes 1 = .bulkheadTimeout ∧
      c.executeVerifyHashWithRetry h.inner (fun i => (outcomes i).attempt crates h.inner) =
        .error (.retryExhausted "verify_hash" 2 1 (.request "https://horizon" "HTTP 503")) ∧
      ¬StatusIsFinal c crates h outcomes := by
  intro c crates h outcomes
  have hhttp : (verify c crates h outcomes).lastHttpStatus = some 503 := rfl
  have hmade : attempts c crates h outcomes = 2 := by decide +kernel
  refine ⟨hhttp,hmade,rfl,rfl,fun hfinal => ?_⟩
  obtain ⟨body,ho,_⟩ := (hfinal.result 503).mp hhttp
  rw [hmade] at ho
  cases ho

end ProofStell.Stellar
