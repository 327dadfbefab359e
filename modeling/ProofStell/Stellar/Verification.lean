import ProofStell.Hash.Gates
import ProofStell.Stellar.Horizon

/-! `verify_hash` over every script of outcomes: when it confirms a hash, when it denies one,
and how many attempts it takes. The client has no cache. -/
namespace ProofStell.Stellar
open Hash

/-- How an attempt of a client without cache goes; `body` is the response's JSON, if it has any. -/
inductive HorizonOutcome where
  | bulkheadTimeout
  | connectionError
  | response (status : UInt16) (body : Option Json.Value)

/-- The record carries the hash: as text up to case, or as the base64 of its bytes. -/
def CarriesHash (base64 : List UInt8 → String) (hash : String) (tx : HorizonTransaction) : Prop :=
  (tx.memoType = some "text" ∧ ∃ memo, tx.memo = some memo ∧ eqIgnoreAsciiCase memo hash = true) ∨
    (tx.memoType = some "hash" ∧ ∃ bytes, hexEncode bytes = asBytes hash ∧
      tx.memo = some (base64 bytes))

namespace HorizonOutcome

def attempt (crates : Crates) (hash : String) : HorizonOutcome → Attempt
  | .bulkheadTimeout => .noPermit none
  | .connectionError => .sendError
  | .response status body => .answered status (parseHorizonTransaction crates body hash)

def Parsed (o : HorizonOutcome) (records : List HorizonTransaction) : Prop :=
  ∃ status body, o = .response status body ∧ isSuccess status = true ∧
    body.bind horizonRecords = some records

def Refused (o : HorizonOutcome) : Prop :=
  ∃ status body, o = .response status body ∧ isSuccess status = false ∧
    isRetryableStatus status = false

/-- A bulkhead timeout, a connection error, a 408, 429 or 5xx status, or a 2xx response that
does not parse. -/
def transient : HorizonOutcome → Bool
  | .bulkheadTimeout | .connectionError => true
  | .response status body =>
    if isSuccess status then (body.bind horizonRecords).isNone else isRetryableStatus status

def statusAfter : HorizonOutcome → VerificationStatus
  | .bulkheadTimeout | .connectionError => .networkError
  | .response status _ => if isSuccess status then .malformedResponse else .networkError

/-- `last_http_status` after an outcome: one without an error status mostly leaves it alone. -/
def httpAfter (previous : Option UInt16) : HorizonOutcome → Option UInt16
  | .bulkheadTimeout => previous
  | .connectionError => none
  | .response status _ => if isSuccess status then previous else some status

def httpFrom (outcomes : Nat → HorizonOutcome) : Nat → Option UInt16
  | 0 => none
  | k+1 => (outcomes k).httpAfter (httpFrom outcomes k)

/-- `tx` is the first record of a 2xx response to carry the hash. -/
def FirstMatch (base64 : List UInt8 → String) (hash : String) (o : HorizonOutcome)
    (tx : HorizonTransaction) : Prop :=
  ∃ before after, o.Parsed (before++tx::after) ∧ CarriesHash base64 hash tx ∧
    ∀ t∈before, ¬CarriesHash base64 hash t

def Absent (base64 : List UInt8 → String) (hash : String) (o : HorizonOutcome) : Prop :=
  ∃ records, o.Parsed records ∧ ∀ t∈records, ¬CarriesHash base64 hash t

/-- An HTTP error status, a connection error or a bulkhead timeout. -/
def isError : HorizonOutcome → Bool
  | .bulkheadTimeout | .connectionError => true
  | .response status _ => !isSuccess status

theorem Parsed.not_transient {o : HorizonOutcome} {records : List HorizonTransaction}
    (h : o.Parsed records) : ¬o.transient = true := by
  obtain ⟨status,body,rfl,hs,hb⟩ := h
  simp [transient,hs,hb]

theorem Refused.not_transient {o : HorizonOutcome} (h : o.Refused) : ¬o.transient = true := by
  obtain ⟨status,body,rfl,hs,hr⟩ := h
  simp [transient,hs,hr]

theorem parsed_or_refused {o : HorizonOutcome} (h : ¬o.transient = true) :
    (∃ records, o.Parsed records) ∨ o.Refused := by
  cases o with
  | bulkheadTimeout => exact absurd rfl h
  | connectionError => exact absurd rfl h
  | response status body =>
    cases hs : isSuccess status with
    | true =>
      cases hb : body.bind horizonRecords with
      | none => simp [transient,hs,hb] at h
      | some records => exact Or.inl ⟨records,status,body,rfl,hs,hb⟩
    | false =>
      cases hr : isRetryableStatus status with
      | true => simp [transient,hs,hr] at h
      | false => exact Or.inr ⟨status,body,rfl,hs,hr⟩

end HorizonOutcome

namespace StellarClient
variable (c : StellarClient)

def attemptLoopCounted (script : Nat → Attempt) :
    Nat → Nat → VerificationStatus → Option UInt16 → VerificationResult × Nat
  | 0, attempt, lastStatus, lastHttpStatus => (⟨lastStatus,none,none,lastHttpStatus⟩,attempt)
  | remaining+1, attempt, _, lastHttpStatus =>
    match script attempt with
    | .noPermit cached =>
      match c.tryStaleCacheFallback cached with
      | some fallback => (fallback,attempt+1)
      | none => attemptLoopCounted script remaining (attempt+1) .networkError lastHttpStatus
    | .sendError => attemptLoopCounted script remaining (attempt+1) .networkError none
    | .answered status parsed =>
      if isSuccess status then
        match parsed with
        | .ok (some record) =>
          (⟨.confirmedMatch,some record.transactionId,some record.timestamp,none⟩,attempt+1)
        | .ok none => (⟨.noMatch,none,none,lastHttpStatus⟩,attempt+1)
        | .error () =>
          attemptLoopCounted script remaining (attempt+1) .malformedResponse lastHttpStatus
      else if isRetryableStatus status then
        attemptLoopCounted script remaining (attempt+1) .networkError (some status)
      else (⟨.noMatch,none,none,some status⟩,attempt+1)

theorem attemptLoopCounted_fst (script : Nat → Attempt) (remaining attempt : Nat)
    (lastStatus : VerificationStatus) (lastHttpStatus : Option UInt16) :
    (c.attemptLoopCounted script remaining attempt lastStatus lastHttpStatus).1 =
      c.attemptLoop script remaining attempt lastStatus lastHttpStatus := by
  induction remaining generalizing attempt lastStatus lastHttpStatus with
  | zero => rfl
  | succ remaining ih =>
    simp only [attemptLoopCounted,attemptLoop]
    cases script attempt with
    | noPermit cached =>
      cases h : c.tryStaleCacheFallback cached with
      | none => simp only [h,ih]
      | some fallback => simp only [h]
    | sendError => simp only [ih]
    | answered status parsed =>
      cases hs : isSuccess status with
      | true =>
        cases parsed with
        | error e => simp only [hs,if_true,ih]
        | ok record => cases record <;> simp only [hs,if_true]
      | false =>
        cases hr : isRetryableStatus status with
        | true => simp only [hs,hr,Bool.false_eq_true,if_false,if_true,ih]
        | false => simp only [hs,hr,Bool.false_eq_true,if_false]

def attemptsMade (hash : String) (script : Nat → Attempt) : Nat :=
  match CanonicalHash.new hash with
  | .error _ => 0
  | .ok _ => (c.attemptLoopCounted script (c.maxRetries.toNat+1) 0 .noMatch none).2

section Loop
variable (crates : Crates) (hash : String) {outcomes : Nat → HorizonOutcome}

theorem loop_transient {attempt : Nat} (h : (outcomes attempt).transient = true) (remaining : Nat)
    (lastStatus : VerificationStatus) (lastHttpStatus : Option UInt16) :
    c.attemptLoopCounted (fun i => (outcomes i).attempt crates hash) (remaining+1) attempt
        lastStatus lastHttpStatus =
      c.attemptLoopCounted (fun i => (outcomes i).attempt crates hash) remaining (attempt+1)
        (outcomes attempt).statusAfter ((outcomes attempt).httpAfter lastHttpStatus) := by
  rw [attemptLoopCounted]
  cases ho : outcomes attempt with
  | bulkheadTimeout => rfl
  | connectionError => rfl
  | response status body =>
    rw [ho] at h
    simp only [HorizonOutcome.attempt,HorizonOutcome.statusAfter,HorizonOutcome.httpAfter]
    cases hs : isSuccess status with
    | true =>
      have hb : body.bind horizonRecords = none := by simpa [HorizonOutcome.transient,hs] using h
      simp only [if_true,parseHorizonTransaction,hb]
    | false =>
      have hr : isRetryableStatus status = true := by simpa [HorizonOutcome.transient,hs] using h
      simp [hr]

theorem loop_skip (k remaining : Nat) (h : ∀ j < k, (outcomes j).transient = true) :
    ∃ status, c.attemptLoopCounted (fun i => (outcomes i).attempt crates hash) (k+remaining) 0
        .noMatch none =
      c.attemptLoopCounted (fun i => (outcomes i).attempt crates hash) remaining k status
        (HorizonOutcome.httpFrom outcomes k) ∧
      ∀ n, k = n+1 → status = (outcomes n).statusAfter := by
  induction k generalizing remaining with
  | zero => exact ⟨.noMatch,by rw [Nat.zero_add]; rfl,by simp⟩
  | succ k ih =>
    obtain ⟨status,hloop,_⟩ := ih (remaining+1) fun j hj => h j (by omega)
    refine ⟨(outcomes k).statusAfter,?_,?_⟩
    · rw [Nat.add_right_comm,Nat.add_assoc k,hloop,
        c.loop_transient crates hash (h k (by omega)) remaining]
      rfl
    · intro n hn
      rw [Nat.succ_inj.mp hn]

theorem loop_stops {attempt : Nat} (h : ¬(outcomes attempt).transient = true) (remaining : Nat)
    (lastStatus : VerificationStatus) (lastHttpStatus : Option UInt16) :
    ∃ result, c.attemptLoopCounted (fun i => (outcomes i).attempt crates hash) (remaining+1)
        attempt lastStatus lastHttpStatus = (result,attempt+1) ∧
      ((∃ records tx, (outcomes attempt).Parsed records ∧
          firstMatch crates records hash = some tx ∧
          result = ⟨.confirmedMatch,some tx.id,some ((tx.createdAt.bind crates.rfc3339).getD 0),
            none⟩) ∨
        (∃ records, (outcomes attempt).Parsed records ∧
          firstMatch crates records hash = none ∧
          result = ⟨.noMatch,none,none,(outcomes attempt).httpAfter lastHttpStatus⟩) ∨
        (outcomes attempt).Refused ∧
          result = ⟨.noMatch,none,none,(outcomes attempt).httpAfter lastHttpStatus⟩) := by
  rw [attemptLoopCounted]
  obtain ⟨records,hp⟩ | hr := HorizonOutcome.parsed_or_refused h
  · obtain ⟨status,body,ho,hs,hb⟩ := id hp
    simp only [ho,HorizonOutcome.attempt,hs,if_true,parseHorizonTransaction,hb,
      HorizonOutcome.httpAfter]
    rw [ho] at hp
    cases hm : firstMatch crates records hash with
    | none => exact ⟨_,rfl,Or.inr (Or.inl ⟨records,hp,hm,rfl⟩)⟩
    | some tx => exact ⟨_,rfl,Or.inl ⟨records,tx,hp,hm,rfl⟩⟩
  · obtain ⟨status,body,ho,hs,hretry⟩ := id hr
    simp only [ho,HorizonOutcome.attempt,hs,hretry,Bool.false_eq_true,if_false,
      HorizonOutcome.httpAfter]
    rw [ho] at hr
    exact ⟨_,rfl,Or.inr (Or.inr ⟨hr,rfl⟩)⟩

end Loop

end StellarClient

/-- Everything that a run of `verify_hash` on a canonical hash can do: the result and the
number of attempts. -/
inductive Run (crates : Crates) (hash : String) (maxRetries : Nat)
    (outcomes : Nat → HorizonOutcome) : VerificationResult → Nat → Prop
  | confirmed {i : Nat} {tx : HorizonTransaction} (hi : i ≤ maxRetries)
      (earlier : ∀ j < i, (outcomes j).transient = true)
      (found : (outcomes i).FirstMatch crates.base64 hash tx) :
      Run crates hash maxRetries outcomes ⟨.confirmedMatch,some tx.id,
        some ((tx.createdAt.bind crates.rfc3339).getD 0),none⟩ (i+1)
  | absent {i : Nat} {http : Option UInt16} (hi : i ≤ maxRetries)
      (earlier : ∀ j < i, (outcomes j).transient = true)
      (missing : (outcomes i).Absent crates.base64 hash) :
      Run crates hash maxRetries outcomes ⟨.noMatch,none,none,http⟩ (i+1)
  | refused {i : Nat} {http : Option UInt16} (hi : i ≤ maxRetries)
      (earlier : ∀ j < i, (outcomes j).transient = true) (refusal : (outcomes i).Refused) :
      Run crates hash maxRetries outcomes ⟨.noMatch,none,none,http⟩ (i+1)
  | exhausted {http : Option UInt16}
      (all : ∀ j ≤ maxRetries, (outcomes j).transient = true) :
      Run crates hash maxRetries outcomes
        ⟨(outcomes maxRetries).statusAfter,none,none,http⟩ (maxRetries+1)

theorem memoMatches_iff {crates : Crates} (hbase64 : ∀ bytes, bytes≠[] → crates.base64 bytes≠"")
    (h : CanonicalHash) (tx : HorizonTransaction) :
    memoMatches crates h.inner tx = true ↔ CarriesHash crates.base64 h.inner tx := by
  have hc : accepted h.inner = true := by
    rw [accepted_eq_shape]
    exact h.canonical
  have hempty : asBytes h.inner≠[] :=
    List.ne_nil_of_length_pos (Nat.pos_of_ne_zero (length_ne_zero_of_shape h.canonical))
  constructor
  · intro hm
    obtain ⟨ht,htext⟩ | ⟨ht,c,hinner,hb64⟩ := memoMatches_cases crates hc hm
    · cases hmemo : tx.memo with
      | none =>
        rw [hmemo,Option.getD_none] at htext
        exact absurd (eqIgnoreAsciiCase_canonical hc htext) hempty
      | some memo =>
        rw [hmemo,Option.getD_some] at htext
        exact Or.inl ⟨ht,memo,hmemo,htext⟩
    · obtain ⟨bytes,henc,hbytes⟩ := toStellarMemoBase64_ok hb64
      rw [hinner] at hbytes
      refine Or.inr ⟨ht,bytes,hbytes,?_⟩
      cases hmemo : tx.memo with
      | none =>
        rw [hmemo,Option.getD_none] at henc
        refine absurd henc (hbase64 bytes fun hnil => hempty ?_)
        rw [← hbytes,hnil]
        rfl
      | some memo => rw [henc,hmemo,Option.getD_some]
  · intro hm
    obtain ⟨ht,memo,hmemo,htext⟩ | ⟨ht,bytes,hbytes,hmemo⟩ := hm
    · simpa [memoMatches,ht,hmemo] using htext
    · have hnew := canonicalHash_new_of_shape h.canonical
      have hb64 := toStellarMemoBase64_eq crates.base64 crates.lowercase h hbytes
      simp [memoMatches,ht,hmemo,hnew,hb64,Except.toOption]

theorem firstMatch_some {crates : Crates} (hbase64 : ∀ bytes, bytes≠[] → crates.base64 bytes≠"")
    (h : CanonicalHash) {o : HorizonOutcome} {tx : HorizonTransaction} :
    (∃ records, o.Parsed records ∧ firstMatch crates records h.inner = some tx) ↔
      o.FirstMatch crates.base64 h.inner tx := by
  constructor
  · intro hfound
    obtain ⟨records,hp,hm⟩ := hfound
    obtain ⟨htx,before,after,rfl,hbefore⟩ := List.find?_eq_some_iff_append.mp hm
    refine ⟨before,after,hp,(memoMatches_iff hbase64 h tx).mp htx,fun t ht hcarries => ?_⟩
    have hno := hbefore t ht
    rw [(memoMatches_iff hbase64 h t).mpr hcarries] at hno
    cases hno
  · intro hfirst
    obtain ⟨before,after,hp,htx,hbefore⟩ := hfirst
    refine ⟨_,hp,List.find?_eq_some_iff_append.mpr
      ⟨(memoMatches_iff hbase64 h tx).mpr htx,before,after,rfl,fun t ht => ?_⟩⟩
    cases hm : memoMatches crates h.inner t with
    | false => rfl
    | true => exact absurd ((memoMatches_iff hbase64 h t).mp hm) (hbefore t ht)

theorem firstMatch_none {crates : Crates} (hbase64 : ∀ bytes, bytes≠[] → crates.base64 bytes≠"")
    (h : CanonicalHash) {o : HorizonOutcome} {records : List HorizonTransaction}
    (hp : o.Parsed records) (hm : firstMatch crates records h.inner = none) :
    o.Absent crates.base64 h.inner :=
  ⟨records,hp,fun t ht hcarries =>
    List.find?_eq_none.mp hm t ht ((memoMatches_iff hbase64 h t).mpr hcarries)⟩

namespace HorizonOutcome

theorem Parsed.unique {o : HorizonOutcome} {records records' : List HorizonTransaction}
    (h : o.Parsed records) (h' : o.Parsed records') : records = records' := by
  obtain ⟨status,body,rfl,_,hb⟩ := h
  obtain ⟨_,_,ho,_,hb'⟩ := h'
  cases ho
  exact Option.some.inj (hb.symm.trans hb')

theorem Parsed.not_refused {o : HorizonOutcome} {records : List HorizonTransaction}
    (h : o.Parsed records) : ¬o.Refused := by
  obtain ⟨status,body,rfl,hs,_⟩ := h
  intro hr
  obtain ⟨_,_,ho,hs',_⟩ := hr
  cases ho
  rw [hs] at hs'
  cases hs'

theorem Parsed.not_isError {o : HorizonOutcome} {records : List HorizonTransaction}
    (h : o.Parsed records) : ¬o.isError = true := by
  obtain ⟨status,body,rfl,hs,_⟩ := h
  simp [isError,hs]

theorem FirstMatch.unique {crates : Crates}
    (hbase64 : ∀ bytes, bytes≠[] → crates.base64 bytes≠"") {h : CanonicalHash}
    {o : HorizonOutcome} {tx tx' : HorizonTransaction}
    (hfirst : o.FirstMatch crates.base64 h.inner tx)
    (hfirst' : o.FirstMatch crates.base64 h.inner tx') : tx = tx' := by
  obtain ⟨records,hp,hm⟩ := (firstMatch_some hbase64 h).mpr hfirst
  obtain ⟨records',hp',hm'⟩ := (firstMatch_some hbase64 h).mpr hfirst'
  rw [hp.unique hp'] at hm
  exact Option.some.inj (hm.symm.trans hm')

theorem first_stop_unique {outcomes : Nat → HorizonOutcome} {i j : Nat}
    (hi : ∀ k < i, (outcomes k).transient = true) (hstop : ¬(outcomes i).transient = true)
    (hj : ∀ k < j, (outcomes k).transient = true) (hstop' : ¬(outcomes j).transient = true) :
    i = j := by
  obtain hlt | heq | hlt := Nat.lt_trichotomy i j
  · exact absurd (hj i hlt) hstop
  · exact heq
  · exact absurd (hi j hlt) hstop'

theorem statusAfter_cases (o : HorizonOutcome) :
    (o.statusAfter = .networkError ∨ o.statusAfter = .malformedResponse) ∧
      (o.isError = true → o.statusAfter = .networkError) := by
  cases o with
  | bulkheadTimeout => exact ⟨Or.inl rfl,fun _ => rfl⟩
  | connectionError => exact ⟨Or.inl rfl,fun _ => rfl⟩
  | response status body => cases hs : isSuccess status <;> simp [statusAfter,isError,hs]

end HorizonOutcome

section Verify
variable (c : StellarClient) (crates : Crates) (h : CanonicalHash) (outcomes : Nat → HorizonOutcome)

def verify : VerificationResult :=
  c.verifyHash h.inner fun i => (outcomes i).attempt crates h.inner

def attempts : Nat :=
  c.attemptsMade h.inner fun i => (outcomes i).attempt crates h.inner

def EndsWith (i : Nat) (result : VerificationResult) : Prop :=
  (i = c.maxRetries.toNat ∧ (outcomes i).transient = true ∧
    result = ⟨(outcomes i).statusAfter,none,none,HorizonOutcome.httpFrom outcomes (i+1)⟩) ∨
  (∃ records tx, (outcomes i).Parsed records ∧ firstMatch crates records h.inner = some tx ∧
    result = ⟨.confirmedMatch,some tx.id,some ((tx.createdAt.bind crates.rfc3339).getD 0),none⟩) ∨
  (∃ records, (outcomes i).Parsed records ∧ firstMatch crates records h.inner = none ∧
    result = ⟨.noMatch,none,none,HorizonOutcome.httpFrom outcomes (i+1)⟩) ∨
  (outcomes i).Refused ∧
    result = ⟨.noMatch,none,none,HorizonOutcome.httpFrom outcomes (i+1)⟩

theorem verify_ends : ∃ i ≤ c.maxRetries.toNat, (∀ j < i, (outcomes j).transient = true) ∧
    attempts c crates h outcomes = i+1 ∧
    EndsWith c crates h outcomes i (verify c crates h outcomes) := by
  have hnew := canonicalHash_new_of_shape h.canonical
  rw [verify,attempts,StellarClient.verifyHash,StellarClient.attemptsMade,hnew]
  simp only [← StellarClient.attemptLoopCounted_fst]
  by_cases hall : ∀ j ≤ c.maxRetries.toNat, (outcomes j).transient = true
  · obtain ⟨status,hloop,hstatus⟩ := c.loop_skip crates h.inner (c.maxRetries.toNat+1) 0
      fun j hj => hall j (by omega)
    rw [Nat.add_zero] at hloop
    rw [hloop,hstatus _ rfl]
    exact ⟨_,Nat.le_refl _,fun j hj => hall j (by omega),rfl,
      Or.inl ⟨rfl,hall _ (Nat.le_refl _),rfl⟩⟩
  · -- the first attempt that is not transient
    have hex : ∃ i, ¬(i ≤ c.maxRetries.toNat → (outcomes i).transient = true) := by
      simpa using hall
    classical
    obtain ⟨hi,hstop⟩ := Classical.not_imp.mp (Nat.find_spec hex)
    have hearlier : ∀ j < Nat.find hex, (outcomes j).transient = true :=
      fun j hj => not_not.mp (Nat.find_min hex hj) (by omega)
    generalize Nat.find hex = i at hi hstop hearlier
    obtain ⟨status,hloop,_⟩ := c.loop_skip crates h.inner i (c.maxRetries.toNat-i+1) hearlier
    rw [show i+(c.maxRetries.toNat-i+1) = c.maxRetries.toNat+1 by omega] at hloop
    obtain ⟨result,hend,hresult⟩ := c.loop_stops crates h.inner hstop
      (c.maxRetries.toNat-i) status (HorizonOutcome.httpFrom outcomes i)
    rw [hloop,hend]
    exact ⟨i,hi,hearlier,rfl,Or.inr hresult⟩

theorem verify_run (hbase64 : ∀ bytes, bytes≠[] → crates.base64 bytes≠"") :
    Run crates h.inner c.maxRetries.toNat outcomes (verify c crates h outcomes)
      (attempts c crates h outcomes) := by
  obtain ⟨i,hi,hearlier,hmade,hends⟩ := verify_ends c crates h outcomes
  rw [hmade]
  obtain ⟨rfl,hlast,hresult⟩ | ⟨records,tx,hp,hm,hresult⟩ | ⟨records,hp,hm,hresult⟩ |
    ⟨hr,hresult⟩ := hends
  · rw [hresult]
    refine Run.exhausted fun j hj => ?_
    obtain hlt | rfl := Nat.lt_or_eq_of_le hj
    · exact hearlier j hlt
    · exact hlast
  · rw [hresult]
    exact Run.confirmed hi hearlier ((firstMatch_some hbase64 h).mp ⟨records,hp,hm⟩)
  · rw [hresult]
    exact Run.absent hi hearlier (firstMatch_none hbase64 h hp hm)
  · rw [hresult]
    exact Run.refused hi hearlier hr

end Verify

/-- A run ends at the first attempt that is not transient. -/
theorem Run.at_stop {crates : Crates} {hash : String} {maxRetries : Nat}
    {outcomes : Nat → HorizonOutcome} {result : VerificationResult} {made i : Nat}
    (hrun : Run crates hash maxRetries outcomes result made) (hi : i ≤ maxRetries)
    (hearlier : ∀ j < i, (outcomes j).transient = true) (hstop : ¬(outcomes i).transient = true) :
    made = i+1 ∧
      ((∃ tx, (outcomes i).FirstMatch crates.base64 hash tx ∧ result = ⟨.confirmedMatch,some tx.id,
          some ((tx.createdAt.bind crates.rfc3339).getD 0),none⟩) ∨
        (outcomes i).Absent crates.base64 hash ∧ result.status = .noMatch ∨
        (outcomes i).Refused ∧ result.status = .noMatch) := by
  cases hrun with
  | confirmed hi' hearlier' found =>
    obtain ⟨_,_,hp,_⟩ := id found
    obtain rfl := HorizonOutcome.first_stop_unique hearlier hstop hearlier' hp.not_transient
    exact ⟨rfl,Or.inl ⟨_,found,rfl⟩⟩
  | absent hi' hearlier' missing =>
    obtain ⟨_,hp,_⟩ := id missing
    obtain rfl := HorizonOutcome.first_stop_unique hearlier hstop hearlier' hp.not_transient
    exact ⟨rfl,Or.inr (Or.inl ⟨missing,rfl⟩)⟩
  | refused hi' hearlier' refusal =>
    obtain rfl := HorizonOutcome.first_stop_unique hearlier hstop hearlier' refusal.not_transient
    exact ⟨rfl,Or.inr (Or.inr ⟨refusal,rfl⟩)⟩
  | exhausted all => exact absurd (all i hi) hstop

/-- A hash is confirmed exactly by the first attempt that is not transient, if it is a 2xx
response with a record that carries the hash; the first such record is the proof. -/
theorem confirmed_match_iff (c : StellarClient) (crates : Crates)
    (hbase64 : ∀ bytes, bytes≠[] → crates.base64 bytes≠"") (h : CanonicalHash)
    (outcomes : Nat → HorizonOutcome) :
    ((verify c crates h outcomes).status = .confirmedMatch ↔
      ∃ i ≤ c.maxRetries.toNat, (∀ j < i, (outcomes j).transient = true) ∧
        ∃ records, (outcomes i).Parsed records ∧
          ∃ tx∈records, CarriesHash crates.base64 h.inner tx) ∧
    (∀ i ≤ c.maxRetries.toNat, (∀ j < i, (outcomes j).transient = true) →
      ∀ tx, (outcomes i).FirstMatch crates.base64 h.inner tx →
        verify c crates h outcomes = ⟨.confirmedMatch,some tx.id,
          some ((tx.createdAt.bind crates.rfc3339).getD 0),none⟩ ∧
        attempts c crates h outcomes = i+1) ∧
    ((verify c crates h outcomes).status≠.confirmedMatch →
      (verify c crates h outcomes).transactionId = none ∧
        (verify c crates h outcomes).timestamp = none) := by
  have hrun := verify_run c crates h outcomes hbase64
  generalize verify c crates h outcomes = result at hrun ⊢
  generalize attempts c crates h outcomes = made at hrun ⊢
  have hfound : ∀ i ≤ c.maxRetries.toNat, (∀ j < i, (outcomes j).transient = true) →
      ∀ tx, (outcomes i).FirstMatch crates.base64 h.inner tx →
        result = ⟨.confirmedMatch,some tx.id,
          some ((tx.createdAt.bind crates.rfc3339).getD 0),none⟩ ∧ made = i+1 := by
    intro i hi hearlier tx hfirst
    obtain ⟨before,after,hp,htx,_⟩ := id hfirst
    obtain ⟨hmade,⟨tx',found,hresult⟩ | ⟨missing,_⟩ | ⟨refusal,_⟩⟩ :=
      hrun.at_stop hi hearlier hp.not_transient
    · rw [hfirst.unique hbase64 found]
      exact ⟨hresult,hmade⟩
    · obtain ⟨_,hp',hno⟩ := missing
      rw [hp'.unique hp] at hno
      exact absurd htx (hno tx (by simp))
    · exact absurd refusal hp.not_refused
  refine ⟨⟨fun hstatus => ?_,fun hmatch => ?_⟩,hfound,fun hstatus => ?_⟩
  · cases hrun with
    | confirmed hi hearlier found =>
      obtain ⟨before,after,hp,htx,_⟩ := found
      exact ⟨_,hi,hearlier,_,hp,_,by simp,htx⟩
    | absent => cases hstatus
    | refused => cases hstatus
    | exhausted =>
      obtain hs | hs := (outcomes c.maxRetries.toNat).statusAfter_cases.1 <;>
        simp [hs] at hstatus
  · obtain ⟨i,hi,hearlier,records,hp,tx,hmem,htx⟩ := hmatch
    cases hm : firstMatch crates records h.inner with
    | none =>
      exact absurd ((memoMatches_iff hbase64 h tx).mpr htx) (List.find?_eq_none.mp hm tx hmem)
    | some tx' =>
      have hfirst := (firstMatch_some hbase64 h).mp ⟨records,hp,hm⟩
      rw [(hfound i hi hearlier tx' hfirst).1]
  · cases hrun with
    | confirmed => exact absurd rfl hstatus
    | absent => exact ⟨rfl,rfl⟩
    | refused => exact ⟨rfl,rfl⟩
    | exhausted => exact ⟨rfl,rfl⟩

/-- A 503 and then a response whose second record carries the hash of zeros as text. -/
theorem confirmed_match_after_retry :
    let c : StellarClient := ⟨"https://horizon",3,⟨5,30000,1⟩,false⟩
    let crates : Crates := ⟨Base64.encode,fun _ => some 1700000000,⟨fun _ c _ => [c],by simp⟩⟩
    let hash := "0000000000000000000000000000000000000000000000000000000000000000"
    let h : CanonicalHash := ⟨hash,by decide +kernel⟩
    let body : Json.Value := .object [("_embedded",.object [("records",.array [
      .object [("id",.string "other"),("memo_type",.string "none")],
      .object [("id",.string "proof"),("created_at",.string "2023-11-14T22:13:20Z"),
        ("memo_type",.string "text"),("memo",.string hash)]])])]
    let outcomes : Nat → HorizonOutcome := fun i =>
      if i = 0 then .response 503 none else .response 200 (some body)
    verify c crates h outcomes = ⟨.confirmedMatch,some "proof",some 1700000000,none⟩ ∧
      attempts c crates h outcomes = 2 := by
  intro c crates hash h body outcomes
  have hbase64 : ∀ bytes, bytes≠[] → crates.base64 bytes≠"" :=
    fun bytes hne hempty => hne (Base64.encode_injective (hempty.trans rfl))
  let other : HorizonTransaction := ⟨"other",none,none,some "none"⟩
  let proof : HorizonTransaction := ⟨"proof",some "2023-11-14T22:13:20Z",some hash,some "text"⟩
  have hfirst : (outcomes 1).FirstMatch crates.base64 h.inner proof := by
    refine ⟨[other],[],⟨200,some body,rfl,by decide,by decide +kernel⟩,
      Or.inl ⟨rfl,hash,rfl,by decide +kernel⟩,fun t ht hcarries => ?_⟩
    rw [List.mem_singleton.mp ht] at hcarries
    obtain ⟨htype,_⟩ | ⟨htype,_⟩ := hcarries
    · exact absurd (Option.some.inj htype) (by decide)
    · exact absurd (Option.some.inj htype) (by decide)
  refine (confirmed_match_iff c crates hbase64 h outcomes).2.1 1 (by decide) (fun j hj => ?_)
    proof hfirst
  rw [Nat.lt_one_iff.mp hj]
  decide

/-- `NoMatch` is an answer of Horizon, and errors at the end of a run are network errors. -/
structure NoMatchIsAnswer (c : StellarClient) (crates : Crates) (h : CanonicalHash)
    (outcomes : Nat → HorizonOutcome) : Prop where
  answered : (verify c crates h outcomes).status = .noMatch →
    (outcomes (attempts c crates h outcomes-1)).Absent crates.base64 h.inner
  failed : (outcomes (attempts c crates h outcomes-1)).isError = true →
    (verify c crates h outcomes).status = .networkError

/-- It is, as long as the run does not end on an error status that is not retried. -/
theorem no_match_is_answer_iff (c : StellarClient) (crates : Crates)
    (hbase64 : ∀ bytes, bytes≠[] → crates.base64 bytes≠"") (h : CanonicalHash)
    (outcomes : Nat → HorizonOutcome) :
    NoMatchIsAnswer c crates h outcomes ↔
      ∀ i ≤ c.maxRetries.toNat, (∀ j < i, (outcomes j).transient = true) →
        ¬(outcomes i).Refused := by
  have hrun := verify_run c crates h outcomes hbase64
  constructor
  · intro hanswer i hi hearlier hrefused
    obtain ⟨hanswered,_⟩ := hanswer
    obtain ⟨hmade,⟨_,found,_⟩ | ⟨missing,_⟩ | ⟨_,hstatus⟩⟩ :=
      hrun.at_stop hi hearlier hrefused.not_transient
    · obtain ⟨_,_,hp,_⟩ := found
      exact hp.not_refused hrefused
    · obtain ⟨_,hp,_⟩ := missing
      exact hp.not_refused hrefused
    · have hanswer := hanswered hstatus
      rw [hmade,Nat.add_sub_cancel] at hanswer
      obtain ⟨_,hp,_⟩ := hanswer
      exact hp.not_refused hrefused
  · intro hnone
    suffices hboth : ((verify c crates h outcomes).status = .noMatch →
        (outcomes (attempts c crates h outcomes-1)).Absent crates.base64 h.inner) ∧
        ((outcomes (attempts c crates h outcomes-1)).isError = true →
          (verify c crates h outcomes).status = .networkError) from ⟨hboth.1,hboth.2⟩
    generalize verify c crates h outcomes = result at hrun ⊢
    generalize attempts c crates h outcomes = made at hrun ⊢
    cases hrun with
    | confirmed hi hearlier found =>
      obtain ⟨_,_,hp,_⟩ := found
      exact ⟨fun hstatus => (by cases hstatus),fun herror => absurd herror hp.not_isError⟩
    | absent hi hearlier missing =>
      obtain ⟨_,hp,_⟩ := id missing
      exact ⟨fun _ => missing,fun herror => absurd herror hp.not_isError⟩
    | refused hi hearlier refusal => exact absurd refusal (hnone _ hi hearlier)
    | exhausted all =>
      obtain ⟨hcases,herror⟩ := (outcomes c.maxRetries.toNat).statusAfter_cases
      refine ⟨fun hstatus => ?_,herror⟩
      obtain hs | hs := hcases <;> simp [hs] at hstatus

/-- A 500 and then an empty list of records. -/
theorem no_match_is_answer_after_retry :
    let c : StellarClient := ⟨"https://horizon",3,⟨5,30000,1⟩,false⟩
    let crates : Crates := ⟨Base64.encode,fun _ => none,⟨fun _ c _ => [c],by simp⟩⟩
    let h : CanonicalHash :=
      ⟨"0000000000000000000000000000000000000000000000000000000000000000",by decide +kernel⟩
    let body : Json.Value := .object [("_embedded",.object [("records",.array [])])]
    let outcomes : Nat → HorizonOutcome := fun i =>
      if i = 0 then .response 500 none else .response 200 (some body)
    NoMatchIsAnswer c crates h outcomes ∧ (verify c crates h outcomes).status = .noMatch := by
  intro c crates h body outcomes
  have hbase64 : ∀ bytes, bytes≠[] → crates.base64 bytes≠"" :=
    fun bytes hne hempty => hne (Base64.encode_injective (hempty.trans rfl))
  refine ⟨(no_match_is_answer_iff c crates hbase64 h outcomes).mpr fun i _ _ hrefused => ?_,
    by decide +kernel⟩
  obtain ⟨status,body',ho,hs,hr⟩ := hrefused
  by_cases hi : i = 0
  · simp only [outcomes,hi,if_true,HorizonOutcome.response.injEq] at ho
    rw [← ho.1] at hr
    exact absurd hr (by decide)
  · simp only [outcomes,hi,if_false,HorizonOutcome.response.injEq] at ho
    rw [← ho.1] at hs
    exact absurd hs (by decide)

/-- Horizon answers 404 Not Found to the first request, and the hash counts as unproven. -/
theorem not_found_is_no_match :
    let c : StellarClient := ⟨"https://horizon",3,⟨5,30000,1⟩,false⟩
    let crates : Crates := ⟨Base64.encode,fun _ => none,⟨fun _ c _ => [c],by simp⟩⟩
    let h : CanonicalHash :=
      ⟨"0000000000000000000000000000000000000000000000000000000000000000",by decide +kernel⟩
    let outcomes : Nat → HorizonOutcome := fun _ => .response 404 none
    (verify c crates h outcomes).status = .noMatch ∧ attempts c crates h outcomes = 1 ∧
      (outcomes 0).isError = true ∧ ¬NoMatchIsAnswer c crates h outcomes := by
  intro c crates h outcomes
  have hstatus : (verify c crates h outcomes).status = .noMatch := by decide +kernel
  refine ⟨hstatus,by decide +kernel,rfl,fun hanswer => ?_⟩
  have hfailed := hanswer.failed rfl
  rw [hstatus] at hfailed
  cases hfailed

end ProofStell.Stellar
