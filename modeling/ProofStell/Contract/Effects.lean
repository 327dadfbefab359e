import ProofStell.Contract.Footprint

/-! What each entry point does when it succeeds. Later files cite these equations and never
unfold an entry point again. -/
namespace ProofStell.Contract
open Transact
variable {Address Symbol : Type}

theorem sized_ok {α β : Type} {l : List α} {loop : Exec Address Symbol β}
    {w v : World Address Symbol} {r : β} :
    (do Exec.require (!l.isEmpty) (.error .batchEmpty)
        Exec.require (l.length ≤ MAX_BATCH_SIZE) (.error .batchTooLarge)
        loop : Exec Address Symbol β) w = (.ok r,v) ↔
      l≠[] ∧ l.length ≤ MAX_BATCH_SIZE ∧ loop w = (.ok r,v) := by
  cases l with
  | nil => simp
  | cons a l =>
    by_cases hl : l.length+1 ≤ MAX_BATCH_SIZE
    · simp [hl]
    · simp [hl]

/-- The size checks, in the order the code makes them. -/
theorem sized_error {α β : Type} {l : List α} {loop : Exec Address Symbol β}
    {w v : World Address Symbol} {e : Fault}
    (h : (do Exec.require (!l.isEmpty) (.error .batchEmpty)
             Exec.require (l.length ≤ MAX_BATCH_SIZE) (.error .batchTooLarge)
             loop : Exec Address Symbol β) w = (.error e,v)) :
    (l = [] ∧ e = .error .batchEmpty) ∨ (20 < l.length ∧ e = .error .batchTooLarge) ∨
      ((1 ≤ l.length ∧ l.length≤20) ∧ loop w = (.error e,v)) := by
  cases l with
  | nil =>
    simp only [List.isEmpty_nil,Bool.not_true,Exec.require_false,Exec.fail_bind,Exec.fail_apply,
      Prod.mk.injEq,Except.error.injEq] at h
    exact Or.inl ⟨rfl,h.1.symm⟩
  | cons a l =>
    by_cases hl : (a::l).length ≤ MAX_BATCH_SIZE
    · simp only [List.isEmpty_cons,Bool.not_false,Exec.require_true,Exec.pure_bind,hl,
        decide_true] at h
      exact Or.inr (Or.inr ⟨⟨by simp,hl⟩,h⟩)
    · simp only [List.isEmpty_cons,Bool.not_false,Exec.require_true,Exec.pure_bind,hl,
        decide_false,Exec.require_false,Exec.fail_bind,Exec.fail_apply,Prod.mk.injEq,
        Except.error.injEq] at h
      exact Or.inr (Or.inl ⟨Nat.lt_of_not_le hl,h.1.symm⟩)

theorem wrapped_ok {α : Type} {x : Exec Address Symbol α} {f : α → Value Address}
    {w v : World Address Symbol} {r : Value Address} :
    (do return f (← x) : Exec Address Symbol _) w = (.ok r,v) ↔
      ∃ a, x w = (.ok a,v) ∧ r = f a := by
  rw [Exec.bind_ok]
  constructor
  · intro hyp
    obtain ⟨a,u,hx,hr⟩ := hyp
    simp only [Exec.pure_apply,Prod.mk.injEq,Except.ok.injEq] at hr
    exact ⟨a,hr.2 ▸ hx,hr.1.symm⟩
  · intro hyp
    obtain ⟨a,hx,hr⟩ := hyp
    exact ⟨a,v,hx,by simp [hr]⟩

variable [DecidableEq Address] [DecidableEq Symbol]

theorem gated_ok {α : Type} {env : Env Address} {a : Address} {body : Exec Address Symbol α}
    {w v : World Address Symbol} {r : α} :
    (do requireAuth env a; checkRateLimit env a a; body : Exec Address Symbol α) w = (.ok r,v) ↔
      env.auth a = true ∧ ∃ u, checkRateLimit env a a w = (.ok (),u) ∧ body u = (.ok r,v) := by
  rw [requireAuth,Exec.bind_ok]
  constructor
  · intro hyp
    obtain ⟨_,t,hr,hb⟩ := hyp
    obtain ⟨hauth,rfl⟩ := Exec.require_ok.mp hr
    obtain ⟨_,u,hc,hb⟩ := Exec.bind_ok.mp hb
    exact ⟨hauth,u,hc,hb⟩
  · intro hyp
    obtain ⟨hauth,u,hc,hb⟩ := hyp
    exact ⟨(),w,Exec.require_ok.mpr ⟨hauth,rfl⟩,Exec.bind_ok.mpr ⟨(),u,hc,hb⟩⟩

theorem registerBody_ok {env : Env Address} {issuer owner : Address} {h : Hash}
    {w v : World Address Symbol} {r : DocumentRecord Address} :
    registerBody env issuer owner h w = (.ok r,v) ↔
      w.storage (.document h) = none ∧ r = ⟨issuer,owner,env.timestamp,.active⟩ ∧
        v = (w.put (.document h) (some r)).emit (.documentRegistered issuer owner h) := by
  simp only [registerBody,hasKey,setKey,publish]
  cases hs : w.storage (.document h) with
  | none =>
    simp only [Exec.read_bind_apply,hs,Option.isSome_none,Bool.not_false,Exec.require_true,
      Exec.pure_bind,Exec.write_bind_apply,Exec.pure_apply,Prod.mk.injEq,Except.ok.injEq,true_and]
    constructor
    · intro hyp
      obtain ⟨hr,hv⟩ := hyp
      subst hr
      exact ⟨rfl,hv.symm⟩
    · intro hyp
      obtain ⟨hr,hv⟩ := hyp
      subst hr
      exact ⟨rfl,hv.symm⟩
  | some r =>
    simp [Exec.read_bind_apply,hs]

theorem revokeBody_ok {issuer : Address} {h : Hash} {w v : World Address Symbol}
    {r : DocumentRecord Address} :
    revokeBody issuer h w = (.ok r,v) ↔
      ∃ old, w.storage (.document h) = some old ∧ old.issuer = issuer ∧ old.status = .active ∧
        r = { old with status := .revoked } ∧
        v = (w.put (.document h) (some r)).emit (.documentRevoked issuer h) := by
  simp only [revokeBody,getKey,setKey,publish]
  cases hs : w.storage (.document h) with
  | none => simp [Exec.read_bind_apply,hs]
  | some old =>
    by_cases hi : old.issuer = issuer
    · subst issuer
      cases ht : old.status with
      | active =>
        simp only [Exec.read_bind_apply,hs,Exec.demand_some,Exec.pure_bind,ht,decide_true,
          Exec.require_true,ne_eq,reduceCtorEq,not_false_eq_true,Exec.write_bind_apply,
          Exec.pure_apply,Prod.mk.injEq,Except.ok.injEq,Option.some.injEq]
        constructor
        · intro hyp
          obtain ⟨hr,hv⟩ := hyp
          subst hr
          exact ⟨old,rfl,rfl,ht,rfl,hv.symm⟩
        · intro hyp
          obtain ⟨o,ho,_,_,hr,hv⟩ := hyp
          subst ho
          subst hr
          exact ⟨rfl,hv.symm⟩
      | revoked => simp [Exec.read_bind_apply,hs,ht]
    · simp [Exec.read_bind_apply,hs,hi]

omit [DecidableEq Symbol] in
theorem requireAdmin_ok {env : Env Address} {admin : Address} {w v : World Address Symbol}
    {u : Unit} :
    requireAdmin env admin w = (.ok u,v) ↔
      env.auth admin = true ∧ getAdmin w = some admin ∧ v = w := by
  rw [requireAdmin,requireAuth]
  cases hauth : env.auth admin with
  | false => simp
  | true =>
    cases hs : getAdmin w with
    | none => simp [hs]
    | some a =>
      by_cases ha : a=admin
      · simp [hs,ha,eq_comm]
      · simp [hs,ha]

theorem initializeContract_ok {env : Env Address} {admin : Address} {w v : World Address Symbol}
    {u : Unit} :
    initializeContract env admin w = (.ok u,v) ↔
      env.auth admin = true ∧ w.storage .version = none ∧
        v = ((w.put .admin (some admin)).put .version (some CONTRACT_VERSION)).emit
          (.contractInitialized admin CONTRACT_VERSION) := by
  simp only [initializeContract,requireAuth,hasKey,setKey,publish]
  cases hauth : env.auth admin with
  | false => simp
  | true =>
    cases hs : w.storage .version with
    | none => simp [hs,eq_comm]
    | some n => simp [hs]

theorem migrate_ok {env : Env Address} {admin : Address} {w v : World Address Symbol}
    {n : UInt32} :
    migrate env admin w = (.ok n,v) ↔
      env.auth admin = true ∧ getVersion w = 0 ∧ n = CONTRACT_VERSION ∧
        v = (w.put .admin (some admin)).put .version (some CONTRACT_VERSION) := by
  simp only [migrate,requireAuth,setKey]
  cases hauth : env.auth admin with
  | false => simp
  | true =>
    by_cases hs : getVersion w = 0
    · simp [hs,eq_comm]
    · simp [hs]

omit [DecidableEq Symbol] in
theorem upgrade_ok {env : Env Address} {admin : Address} {h : Hash} {w v : World Address Symbol}
    {u : Unit} :
    upgrade env admin h w = (.ok u,v) ↔
      env.auth admin = true ∧ getAdmin w = some admin ∧ env.uploaded h = true ∧
        v = { w with wasm := h }.emit (.contractUpgraded admin (getVersion w) (getVersion w)) := by
  simp only [upgrade,updateCurrentContractWasm,publish]
  rw [Exec.bind_ok]
  constructor
  · intro hyp
    obtain ⟨_,t,ha,hb⟩ := hyp
    obtain ⟨hauth,hs,rfl⟩ := requireAdmin_ok.mp ha
    cases hu : env.uploaded h with
    | false => simp [hu] at hb
    | true => exact ⟨hauth,hs,rfl,by simpa [hu,eq_comm] using hb⟩
  · intro hyp
    obtain ⟨hauth,hs,hu,hv⟩ := hyp
    exact ⟨(),w,requireAdmin_ok.mpr ⟨hauth,hs,rfl⟩,by simp [hu,hv]⟩

theorem administered_ok {env : Env Address} {admin : Address} {k : DataKey Address Symbol}
    {x : k.Val} {w v : World Address Symbol} {u : Unit} :
    (do requireAdmin env admin; setKey k x : Exec Address Symbol Unit) w = (.ok u,v) ↔
      env.auth admin = true ∧ getAdmin w = some admin ∧ v = w.put k (some x) := by
  rw [Exec.bind_ok]
  constructor
  · intro hyp
    obtain ⟨_,t,ha,hb⟩ := hyp
    obtain ⟨hauth,hs,rfl⟩ := requireAdmin_ok.mp ha
    exact ⟨hauth,hs,by simpa [setKey,eq_comm] using hb⟩
  · intro hyp
    obtain ⟨hauth,hs,hv⟩ := hyp
    exact ⟨(),w,requireAdmin_ok.mpr ⟨hauth,hs,rfl⟩,by simp [setKey,hv]⟩

theorem setFeatureFlag_ok {env : Env Address} {admin : Address} {flag : Symbol} {b : Bool}
    {w v : World Address Symbol} {u : Unit} :
    setFeatureFlag env admin flag b w = (.ok u,v) ↔
      env.auth admin = true ∧ getAdmin w = some admin ∧
        v = w.put (.featureFlag flag) (some b) :=
  administered_ok

theorem setRateLimitConfig_ok {env : Env Address} {admin : Address} {config : RateLimitConfig}
    {w v : World Address Symbol} {u : Unit} :
    setRateLimitConfig env admin config w = (.ok u,v) ↔
      env.auth admin = true ∧ getAdmin w = some admin ∧
        v = w.put .rateLimitConfig (some config) :=
  administered_ok

end ProofStell.Contract
