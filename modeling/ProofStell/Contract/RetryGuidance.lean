import ProofStell.Contract.RateLimit

/-! The retry guidance of a rejected document call. It is written on the path that
ends in `RateLimitExceeded`, and the host drops the writes of a failing invocation,
so no caller can ever read it. -/
namespace ProofStell.Contract
open Transact
variable {Address Symbol : Type} [DecidableEq Address] [DecidableEq Symbol]

def Rejects (env : Env Address) (s : RateLimitScope Address) (w : World Address Symbol) : Prop :=
  (chargeScope env (rateLimitConfig w) s w).1 = .error (.error .rateLimitExceeded)

instance (env : Env Address) (s : RateLimitScope Address) (w : World Address Symbol) :
    Decidable (Rejects env s w) :=
  inferInstanceAs (Decidable (_ = _))

/-- What a call `i` by `a`, rejected at `s`, should leave behind: the getter shows `d`, and after
`d` seconds without a call by `a` the scope does not reject. -/
structure RetryGuided (i : Invocation Address Symbol) (w : World Address Symbol) (a : Address)
    (s : RateLimitScope Address) (d : UInt64) : Prop where
  observed : ∀ env, (invoke ⟨env,.getRateLimitRetryAfter s⟩ (invoke i w).2).1 =
    .ok (.maybeU64 (some d))
  positive : 1 ≤ d
  sound : ∀ (others : List (Invocation Address Symbol)) (env : Env Address),
    let later := run others (invoke i w).2
    (∀ j∈others, j.call.issuer≠some a) → rateLimitConfig later = rateLimitConfig w →
    env.timestamp.toNat = i.env.timestamp.toNat+d.toNat →
    0<((rateLimitConfig w).limits s).1 → 0<((rateLimitConfig w).limits s).2 →
    ¬Rejects env s later

def Unguided (w : World Address Symbol) : Prop := ∀ s, w.storage (.rateLimitRetryAfter s) = none

theorem chargeScope_unguided {env : Env Address} {config : RateLimitConfig}
    {s : RateLimitScope Address} {w v : World Address Symbol} {u : Unit}
    (h : chargeScope env config s w = (.ok u,v)) (hw : Unguided w) : Unguided v := by
  obtain ⟨_,rfl⟩ := chargeScope_ok h
  intro r
  by_cases hr : r = s
  · subst hr
    simp
  · rw [put_storage_ne _ _ (by simpa using hr),put_storage_ne _ _ (by simp)]
    exact hw r

theorem checkRateLimit_unguided {env : Env Address} {a : Address} {w v : World Address Symbol}
    {u : Unit} (h : checkRateLimit env a a w = (.ok u,v)) (hw : Unguided w) : Unguided v := by
  obtain ⟨w',h1,h2⟩ := checkRateLimit_ok h
  exact chargeScope_unguided h2 (chargeScope_unguided h1 hw)

/-- Only a rejection writes guidance, and a rejection is rolled back. -/
theorem invoke_unguided (i : Invocation Address Symbol) (w : World Address Symbol)
    (hw : Unguided w) : Unguided (invoke i w).2 := by
  intro s
  by_cases hok : Succeeds i w
  · cases ha : i.call.issuer with
    | none =>
      rw [invoke_frames i (by simp [Call.Writes,ha])]
      exact hw s
    | some a =>
      obtain ⟨u,hc,hkeep⟩ := invoke_gated ha hok
      rw [hkeep _ (by simp)]
      exact checkRateLimit_unguided hc hw s
  · rw [invoke_failed hok]
    exact hw s

theorem run_unguided (wasm : Hash) (l : List (Invocation Address Symbol)) :
    Unguided (run l (World.initial Address Symbol wasm)) :=
  Machine.final_invariant invoke_unguided l _ fun _ => rfl

/-- No call leaves guidance behind, the rejected ones included: in every reachable
state, for every caller and at every scope. -/
theorem retry_guidance_never (wasm : Hash) (l : List (Invocation Address Symbol))
    (i : Invocation Address Symbol) (a : Address) (s : RateLimitScope Address) (d : UInt64) :
    ¬RetryGuided i (run l (World.initial Address Symbol wasm)) a s d := by
  intro hg
  have hnone := invoke_unguided i _ (run_unguided wasm l) s
  have hread (v : World Address Symbol) : (invoke ⟨i.env,.getRateLimitRetryAfter s⟩ v).1 =
      .ok (.maybeU64 (v.storage (.rateLimitRetryAfter s))) := by
    simp [invoke,perform,getRateLimitRetryAfter]
  have hsome := hg.observed i.env
  rw [hread,hnone] at hsome
  cases hsome

/-- With a burst of one, the second call of a second is rejected and the getter
stays silent about it. -/
theorem retry_guidance_lost :
    let env (t : UInt64) : Env Nat := ⟨t,fun _ => true,fun _ => true⟩
    let w := run [⟨env 1,.initializeContract 9⟩,⟨env 1,.setRateLimitConfig 9 ⟨1,1,1,1⟩⟩,
      ⟨env 2,.registerDocument 0 5 (Vector.replicate 32 1)⟩]
      (World.initial Nat Nat (Vector.replicate 32 0))
    let i : Invocation Nat Nat := ⟨env 2,.registerDocument 0 6 (Vector.replicate 32 2)⟩
    (invoke i w).1 = .error (.error .rateLimitExceeded) ∧ Rejects i.env (.address 0) w ∧
      ¬∃ d, RetryGuided i w 0 (.address 0) d := by
  intro env w i
  refine ⟨by decide +kernel,by decide +kernel,?_⟩
  intro hyp
  obtain ⟨d,hg⟩ := hyp
  have hnone : (invoke ⟨env 2,.getRateLimitRetryAfter (.address 0)⟩ (invoke i w).2).1 =
      .ok (.maybeU64 none) := by decide +kernel
  have hsome := hg.observed (env 2)
  rw [hnone] at hsome
  cases hsome

end ProofStell.Contract
