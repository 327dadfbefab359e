import ProofStell.Contract.Effects

/-! Who governs the contract: `Admin` and `Version` appear together and stay, and
nothing administrative changes without the stored admin. -/
namespace ProofStell.Contract
open Transact
variable {Address Symbol : Type}

/-- `initialize` tests `Version` and the other calls test `Admin`; this links the two. -/
structure Governed (w : World Address Symbol) : Prop where
  together : (getAdmin w).isSome = true ↔ (w.storage .version).isSome = true
  current : ∀ v, w.storage .version = some v → v = CONTRACT_VERSION

theorem Governed.initial (wasm : Hash) : Governed (World.initial Address Symbol wasm) where
  together := Iff.rfl
  current := by
    intro v hv
    cases hv

theorem Governed.admin_none {w : World Address Symbol} (hg : Governed w) :
    getAdmin w = none ↔ w.storage .version = none := by
  have h := hg.together
  cases ha : getAdmin w <;> cases hv : w.storage .version <;> simp_all

theorem Governed.version_zero {w : World Address Symbol} (hg : Governed w) :
    getVersion w = 0 ↔ w.storage .version = none := by
  cases hv : w.storage .version with
  | none => simp [getVersion,hv]
  | some v =>
    have h1 := hg.current v hv
    simp [getVersion,hv,h1,CONTRACT_VERSION]

variable [DecidableEq Address] [DecidableEq Symbol]

/-- `i`, run in `w`, is a successful `initialize` or `migrate` authorised by `a`. -/
structure Bootstraps (i : Invocation Address Symbol) (w : World Address Symbol) (a : Address) :
    Prop where
  call : i.call = .initializeContract a ∨ i.call = .migrate a
  authorised : i.env.auth a = true
  succeeds : Succeeds i w

def SameAdministration (w v : World Address Symbol) : Prop :=
  (∀ flag, v.storage (.featureFlag flag) = w.storage (.featureFlag flag)) ∧
    v.storage .rateLimitConfig = w.storage .rateLimitConfig ∧ v.wasm = w.wasm

theorem Bootstraps.effect {i : Invocation Address Symbol} {w : World Address Symbol} {a : Address}
    (hb : Bootstraps i w a) (hg : Governed w) :
    w.storage .version = none ∧ getAdmin (invoke i w).2 = some a ∧
      (invoke i w).2.storage .version = some CONTRACT_VERSION := by
  obtain ⟨hc,_,hok⟩ := hb
  obtain ⟨_,hp⟩ := hok.performs
  obtain hc | hc := hc
  · rw [hc] at hp
    obtain ⟨_,h,_⟩ := wrapped_ok.mp hp
    obtain ⟨_,hv,hw⟩ := initializeContract_ok.mp h
    rw [hw]
    refine ⟨hv,?_,by simp⟩
    simp [getAdmin,put_storage_ne _ _ (show DataKey.admin≠DataKey.version by simp)]
  · rw [hc] at hp
    obtain ⟨_,h,_⟩ := wrapped_ok.mp hp
    obtain ⟨_,hv,_,hw⟩ := migrate_ok.mp h
    rw [hw]
    refine ⟨hg.version_zero.mp hv,?_,by simp⟩
    simp [getAdmin,put_storage_ne _ _ (show DataKey.admin≠DataKey.version by simp)]

theorem invoke_bootstrap (i : Invocation Address Symbol) (w : World Address Symbol) :
    (getAdmin (invoke i w).2 = getAdmin w ∧
        (invoke i w).2.storage .version = w.storage .version) ∨ ∃ a, Bootstraps i w a := by
  by_cases hc : ∃ a, i.call = .initializeContract a ∨ i.call = .migrate a
  · obtain ⟨a,ha⟩ := hc
    by_cases hok : Succeeds i w
    · obtain ⟨_,hx⟩ := hok.performs
      have hauth : i.env.auth a = true := by
        obtain hc | hc := ha <;> rw [hc] at hx <;> obtain ⟨_,h,_⟩ := wrapped_ok.mp hx
        · exact (initializeContract_ok.mp h).1
        · exact (migrate_ok.mp h).1
      exact Or.inr ⟨a,ha,hauth,hok⟩
    · rw [invoke_failed hok]
      exact Or.inl ⟨rfl,rfl⟩
  · have ha : ¬i.call.Writes .admin := hc
    have hv : ¬i.call.Writes .version := hc
    exact Or.inl ⟨invoke_frames i ha w,invoke_frames i hv w⟩

theorem invoke_governed (i : Invocation Address Symbol) (w : World Address Symbol)
    (hg : Governed w) : Governed (invoke i w).2 := by
  obtain ⟨ha,hv⟩ | ⟨a,hb⟩ := invoke_bootstrap i w
  · exact ⟨by rw [ha,hv]; exact hg.together,by rw [hv]; exact hg.current⟩
  · obtain ⟨_,ha,hv⟩ := hb.effect hg
    exact ⟨by simp [ha,hv],by simp [hv]⟩

theorem stateAt_governed (wasm : Hash) (l : List (Invocation Address Symbol)) (n : Nat) :
    Governed (stateAt wasm l n) :=
  Machine.final_invariant invoke_governed _ _ (Governed.initial wasm)

theorem invoke_admin_fixed (i : Invocation Address Symbol) {w : World Address Symbol} {a : Address}
    (hg : Governed w) (ha : getAdmin w = some a) : getAdmin (invoke i w).2 = some a := by
  obtain ⟨h,_⟩ | ⟨b,hb⟩ := invoke_bootstrap i w
  · rw [h,ha]
  · obtain ⟨hv,_,_⟩ := hb.effect hg
    rw [hg.admin_none.mpr hv] at ha
    cases ha

theorem admin_persists {wasm : Hash} {l : List (Invocation Address Symbol)} {m n : Nat}
    {a : Address} (hmn : m ≤ n) (ha : getAdmin (stateAt wasm l m) = some a) :
    getAdmin (stateAt wasm l n) = some a := by
  induction n, hmn using Nat.le_induction with
  | base => exact ha
  | succ n _ ih =>
    cases hi : l[n]? with
    | none =>
      rw [stateAt_past hi]
      exact ih
    | some i =>
      rw [stateAt_succ hi]
      exact invoke_admin_fixed i (stateAt_governed wasm l n) ih

theorem exists_bootstrap {wasm : Hash} {l : List (Invocation Address Symbol)} {n : Nat}
    {a : Address} (ha : getAdmin (stateAt wasm l n) = some a) :
    ∃ k i, k < n ∧ l[k]? = some i ∧ Bootstraps i (stateAt wasm l k) a := by
  induction n with
  | zero => cases ha
  | succ n ih =>
    cases hi : l[n]? with
    | none =>
      rw [stateAt_past hi] at ha
      obtain ⟨k,i,hk,h⟩ := ih ha
      exact ⟨k,i,Nat.lt_succ_of_lt hk,h⟩
    | some i =>
      rw [stateAt_succ hi] at ha
      obtain ⟨h,_⟩ | ⟨b,hb⟩ := invoke_bootstrap i (stateAt wasm l n)
      · rw [h] at ha
        obtain ⟨k,j,hk,hj⟩ := ih ha
        exact ⟨k,j,Nat.lt_succ_of_lt hk,hj⟩
      · obtain ⟨_,hset,_⟩ := hb.effect (stateAt_governed wasm l n)
        rw [ha] at hset
        cases hset
        exact ⟨n,i,Nat.lt_succ_self n,hi,hb⟩

/-- After one bootstrap no other can succeed. -/
theorem bootstrap_unique {wasm : Hash} {l : List (Invocation Address Symbol)} {j k : Nat}
    {i i' : Invocation Address Symbol} {a b : Address} (hi : l[j]? = some i)
    (hb : Bootstraps i (stateAt wasm l j) a) (hb' : Bootstraps i' (stateAt wasm l k) b) :
    ¬j < k := by
  intro hjk
  obtain ⟨_,hset,_⟩ := hb.effect (stateAt_governed wasm l j)
  rw [← stateAt_succ hi] at hset
  have hk := admin_persists hjk hset
  obtain ⟨hv,_,_⟩ := hb'.effect (stateAt_governed wasm l k)
  rw [(stateAt_governed wasm l k).admin_none.mpr hv] at hk
  cases hk

/-- Flags, limits and executable move only in a successful call whose authorised
admin argument is the stored admin. -/
theorem administration_by_admin (i : Invocation Address Symbol) (w : World Address Symbol)
    (hchange : ¬SameAdministration w (invoke i w).2) :
    ∃ a, i.call.admin = some a ∧ i.env.auth a = true ∧ Succeeds i w ∧ getAdmin w = some a := by
  have unchanged (hf : ∀ flag, ¬i.call.Writes (.featureFlag flag))
      (hr : ¬i.call.Writes .rateLimitConfig) (hu : ∀ a g, i.call≠.upgrade a g) :
      SameAdministration w (invoke i w).2 :=
    ⟨fun flag => invoke_frames i (hf flag) w,invoke_frames i hr w,invoke_wasm i hu w⟩
  by_cases hok : Succeeds i w
  · obtain ⟨_,hx⟩ := hok.performs
    cases hc : i.call with
    | upgrade a g =>
      rw [hc] at hx
      obtain ⟨_,h,_⟩ := wrapped_ok.mp hx
      obtain ⟨hauth,ha,_⟩ := upgrade_ok.mp h
      exact ⟨a,rfl,hauth,hok,ha⟩
    | setFeatureFlag a flag b =>
      rw [hc] at hx
      obtain ⟨_,h,_⟩ := wrapped_ok.mp hx
      obtain ⟨hauth,ha,_⟩ := setFeatureFlag_ok.mp h
      exact ⟨a,rfl,hauth,hok,ha⟩
    | setRateLimitConfig a config =>
      rw [hc] at hx
      obtain ⟨_,h,_⟩ := wrapped_ok.mp hx
      obtain ⟨hauth,ha,_⟩ := setRateLimitConfig_ok.mp h
      exact ⟨a,rfl,hauth,hok,ha⟩
    | _ =>
      refine absurd (unchanged ?_ ?_ ?_) hchange <;> simp [hc,Call.Writes]
  · rw [invoke_failed hok] at hchange
    exact absurd ⟨fun _ => rfl,rfl,rfl⟩ hchange

/-- The error an initialised contract gives to a stranger's governance call. -/
def Call.refusal : Call Address Symbol → ContractError
  | .initializeContract _ => .alreadyInitialized
  | .migrate _ => .migrationNotNeeded
  | _ => .unauthorized

omit [DecidableEq Symbol] in
theorem requireAdmin_stranger {env : Env Address} {w : World Address Symbol} {a b : Address}
    (hauth : env.auth a = true) (hb : getAdmin w = some b) (hne : a≠b) :
    requireAdmin env a w = (.error (.error .unauthorized),w) := by
  have hba : b≠a := fun h => hne h.symm
  simp [requireAdmin,requireAuth,hauth,hb,hba]

theorem stranger_refused (i : Invocation Address Symbol) {w : World Address Symbol} {a b : Address}
    (hg : Governed w) (hb : getAdmin w = some b) (ha : i.call.admin = some a) (hne : a≠b) :
    invoke i w =
      (.error (if i.env.auth a = true then .error i.call.refusal else .trap),w) := by
  obtain ⟨v,hv⟩ : ∃ v, w.storage .version = some v := by
    cases hv : w.storage .version with
    | none =>
      rw [hg.admin_none.mpr hv] at hb
      cases hb
    | some v => exact ⟨v,rfl⟩
  have hzero : getVersion w≠0 := by
    intro h0
    rw [hg.version_zero.mp h0] at hv
    cases hv
  refine Exec.commit_error.mpr ⟨?_,rfl⟩
  cases hauth : i.env.auth a with
  | false =>
    cases hc : i.call <;> rw [hc] at ha <;> cases ha <;>
      simp [perform,initializeContract,upgrade,migrate,setFeatureFlag,setRateLimitConfig,
        requireAdmin,requireAuth,hauth]
  | true =>
    have hr := requireAdmin_stranger hauth hb hne
    cases hc : i.call with
    | initializeContract c =>
      rw [hc] at ha
      cases ha
      simp [perform,initializeContract,requireAuth,hasKey,Exec.bind_assoc,hauth,hv,Call.refusal]
    | migrate c =>
      rw [hc] at ha
      cases ha
      simp [perform,migrate,requireAuth,Exec.bind_assoc,hauth,hzero,Call.refusal]
    | upgrade c g =>
      rw [hc] at ha
      cases ha
      simp [perform,upgrade,Exec.bind_assoc,Exec.bind_of_error hr,Call.refusal]
    | setFeatureFlag c flag enabled =>
      rw [hc] at ha
      cases ha
      simp [perform,setFeatureFlag,Exec.bind_assoc,Exec.bind_of_error hr,Call.refusal]
    | setRateLimitConfig c config =>
      rw [hc] at ha
      cases ha
      simp [perform,setRateLimitConfig,Exec.bind_assoc,Exec.bind_of_error hr,Call.refusal]
    | _ =>
      rw [hc] at ha
      cases ha

def SameDocuments (w v : World Address Symbol) : Prop :=
  (∀ h, v.storage (.document h) = w.storage (.document h)) ∧
    (∀ s, v.storage (.rateLimitState s) = w.storage (.rateLimitState s)) ∧
    ∀ s, v.storage (.rateLimitRetryAfter s) = w.storage (.rateLimitRetryAfter s)

theorem governance_keeps_documents (i : Invocation Address Symbol) (w : World Address Symbol)
    {a : Address} (ha : i.call.admin = some a) : SameDocuments w (invoke i w).2 := by
  have hi : i.call.issuer = none := by cases hc : i.call <;> simp_all [Call.admin,Call.issuer]
  have hh : i.call.hashes = [] := by cases hc : i.call <;> simp_all [Call.admin,Call.hashes]
  refine ⟨fun h => invoke_frames i ?_ w,fun s => invoke_frames i ?_ w,fun s => invoke_frames i ?_ w⟩
  · simp [Call.Writes,hh]
  · simp [Call.Writes,hi]
  · simp [Call.Writes,hi]

theorem documents_keep_governance (i : Invocation Address Symbol) (w : World Address Symbol)
    {a : Address} (ha : i.call.issuer = some a) :
    getAdmin (invoke i w).2 = getAdmin w ∧
      (invoke i w).2.storage .version = w.storage .version ∧
        SameAdministration w (invoke i w).2 := by
  have hn : i.call.admin = none := by cases hc : i.call <;> simp_all [Call.admin,Call.issuer]
  refine ⟨invoke_frames i ?_ w,invoke_frames i ?_ w,fun flag => invoke_frames i ?_ w,
    invoke_frames i ?_ w,invoke_wasm i ?_ w⟩
  all_goals cases hc : i.call <;> simp_all [Call.Writes,Call.admin]

structure Governance (wasm : Hash) (l : List (Invocation Address Symbol)) : Prop where
  governed : ∀ n, Governed (stateAt wasm l n)
  set_once : ∀ j k i i' a b, l[j]? = some i → l[k]? = some i' →
    Bootstraps i (stateAt wasm l j) a → Bootstraps i' (stateAt wasm l k) b → j = k
  set_by : ∀ n a, getAdmin (stateAt wasm l n) = some a →
    ∃ k i, k < n ∧ l[k]? = some i ∧ Bootstraps i (stateAt wasm l k) a
  fixed : ∀ m n a, m ≤ n → getAdmin (stateAt wasm l m) = some a →
    getAdmin (stateAt wasm l n) = some a
  changes : ∀ n i, l[n]? = some i →
    ¬SameAdministration (stateAt wasm l n) (stateAt wasm l (n+1)) →
    ∃ a, i.call.admin = some a ∧ i.env.auth a = true ∧ Succeeds i (stateAt wasm l n) ∧
      getAdmin (stateAt wasm l n) = some a
  refused : ∀ n i a b, getAdmin (stateAt wasm l n) = some b → i.call.admin = some a → a≠b →
    invoke i (stateAt wasm l n) =
      (.error (if i.env.auth a = true then .error i.call.refusal else .trap),stateAt wasm l n)
  keeps_documents : ∀ n i a, i.call.admin = some a →
    SameDocuments (stateAt wasm l n) (invoke i (stateAt wasm l n)).2
  keeps_governance : ∀ n i a, i.call.issuer = some a →
    getAdmin (invoke i (stateAt wasm l n)).2 = getAdmin (stateAt wasm l n) ∧
      (invoke i (stateAt wasm l n)).2.storage .version = (stateAt wasm l n).storage .version ∧
      SameAdministration (stateAt wasm l n) (invoke i (stateAt wasm l n)).2

theorem run_governance (wasm : Hash) (l : List (Invocation Address Symbol)) :
    Governance wasm l where
  governed := stateAt_governed wasm l
  set_once := by
    intro j k i i' a b hi hi' hb hb'
    have h1 := bootstrap_unique hi hb hb'
    have h2 := bootstrap_unique hi' hb' hb
    omega
  set_by := fun _ _ ha => exists_bootstrap ha
  fixed := fun _ _ _ hmn ha => admin_persists hmn ha
  changes := by
    intro n i hi hchange
    rw [stateAt_succ hi] at hchange
    exact administration_by_admin i _ hchange
  refused := fun n i _ _ hb ha hne => stranger_refused i (stateAt_governed wasm l n) hb ha hne
  keeps_documents := fun _ i _ ha => governance_keeps_documents i _ ha
  keeps_governance := fun _ i _ ha => documents_keep_governance i _ ha

end ProofStell.Contract
