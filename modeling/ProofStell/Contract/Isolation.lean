import ProofStell.Contract.Registry

/-! Issuers that share no document hash do not interfere: what one group does
changes neither the answers nor the records of the other. -/
namespace ProofStell.Contract
open Transact
variable {Address Symbol : Type}

def Call.issuedBy (p : Address → Bool) (c : Call Address Symbol) : Bool :=
  match c.issuer with
  | some a => p a
  | none => false

def Call.isGovernance : Call Address Symbol → Bool
  | .initializeContract _ | .upgrade _ _ | .migrate _ | .setFeatureFlag _ _ _
  | .setRateLimitConfig _ _ | .getVersion | .getAdmin | .getFeatureFlag _ => true
  | _ => false

def Agree (V : DataKey Address Symbol → Prop) (w v : World Address Symbol) : Prop :=
  ∀ k, V k → w.storage k = v.storage k

variable {V : DataKey Address Symbol → Prop}

theorem publish_lockstep (e : Event Address) :
    Exec.Lockstep (Agree V) (publish e) :=
  Exec.lockstep_write fun _ _ h => h

theorem getKey_lockstep {k : DataKey Address Symbol} (hk : V k) :
    Exec.Lockstep (Agree V) (getKey k) :=
  Exec.lockstep_read fun _ _ h => h k hk

theorem hasKey_lockstep {k : DataKey Address Symbol} (hk : V k) :
    Exec.Lockstep (Agree V) (hasKey k) :=
  Exec.lockstep_read fun _ _ h => by rw [h k hk]

variable [DecidableEq Address] [DecidableEq Symbol]

theorem put_agree {w v : World Address Symbol} (h : Agree V w v) (k : DataKey Address Symbol)
    (o : Option k.Val) : Agree V (w.put k o) (v.put k o) := by
  intro j hj
  by_cases he : j=k
  · subst j
    simp
  · rw [put_storage_ne w o he,put_storage_ne v o he]
    exact h j hj

theorem setKey_lockstep (k : DataKey Address Symbol) (x : k.Val) :
    Exec.Lockstep (Agree V) (setKey k x) :=
  Exec.lockstep_write fun _ _ h => put_agree h k (some x)

theorem removeKey_lockstep (k : DataKey Address Symbol) :
    Exec.Lockstep (Agree V) (removeKey k) :=
  Exec.lockstep_write fun _ _ h => put_agree h k none

theorem chargeScope_lockstep (env : Env Address) (config : RateLimitConfig)
    {scope : RateLimitScope Address} (hs : V (.rateLimitState scope)) :
    Exec.Lockstep (Agree V) (chargeScope env config scope) := by
  refine Exec.Lockstep.bind ?_ fun state => ?_
  · exact Exec.lockstep_read fun w v h => by simp only [bucketAt,h _ hs]
  · dsimp only
    split
    · exact (setKey_lockstep _ _).bind fun _ => Exec.lockstep_fail _ _
    · exact (setKey_lockstep _ _).bind fun _ => removeKey_lockstep _

theorem checkRateLimit_lockstep (env : Env Address) {a : Address} (hc : V .rateLimitConfig)
    (ha : V (.rateLimitState (.address a))) (hi : V (.rateLimitState (.issuer a))) :
    Exec.Lockstep (Agree V) (checkRateLimit env a a) := by
  refine Exec.Lockstep.bind ?_ fun config => ?_
  · exact Exec.lockstep_read fun w v h => by simp only [rateLimitConfig,h _ hc]
  · refine Exec.Lockstep.bind ?_ fun _ => Exec.lockstep_pure _ _
    rw [Exec.each]
    refine (chargeScope_lockstep env config ha).bind fun _ => ?_
    refine Exec.Lockstep.bind ?_ fun _ => Exec.lockstep_pure _ _
    rw [Exec.each]
    refine (chargeScope_lockstep env config hi).bind fun _ => ?_
    exact (Exec.lockstep_pure _ _).bind fun _ => Exec.lockstep_pure _ _

theorem registerBody_agree (env : Env Address) (issuer owner : Address) {h : Hash}
    (hh : V (.document h)) :
    Exec.Lockstep (Agree V) (registerBody env issuer owner h) := by
  refine (hasKey_lockstep hh).bind fun taken => ?_
  refine (Exec.lockstep_require _ _ _).bind fun _ => ?_
  refine (setKey_lockstep _ _).bind fun _ => ?_
  exact (publish_lockstep _).bind fun _ => Exec.lockstep_pure _ _

theorem revokeBody_agree (issuer : Address) {h : Hash} (hh : V (.document h)) :
    Exec.Lockstep (Agree V) (revokeBody issuer h) := by
  refine (getKey_lockstep hh).bind fun stored => ?_
  refine (Exec.lockstep_demand _ _ _).bind fun record => ?_
  refine (Exec.lockstep_require _ _ _).bind fun _ => ?_
  refine (Exec.lockstep_require _ _ _).bind fun _ => ?_
  refine (setKey_lockstep _ _).bind fun _ => ?_
  exact (publish_lockstep _).bind fun _ => Exec.lockstep_pure _ _

omit [DecidableEq Symbol] in
theorem requireAdmin_agree (env : Env Address) (admin : Address) (ha : V .admin) :
    Exec.Lockstep (Agree V) (requireAdmin env admin) := by
  refine (Exec.lockstep_require _ _ _).bind fun _ => ?_
  refine Exec.Lockstep.bind ?_ fun stored => ?_
  · exact Exec.lockstep_read fun w v h => h _ ha
  · exact (Exec.lockstep_demand _ _ _).bind fun _ => Exec.lockstep_require _ _ _

/-- A document-writing call depends on its own hashes and its own buckets only. -/
theorem perform_agree_of_issuer (env : Env Address) {c : Call Address Symbol} {a : Address}
    (hc : c.issuer = some a) (hconf : V .rateLimitConfig)
    (ha : V (.rateLimitState (.address a))) (hi : V (.rateLimitState (.issuer a)))
    (hh : ∀ h∈c.hashes, V (.document h)) : Exec.Lockstep (Agree V) (perform env c) := by
  have gated {α : Type} {body : Exec Address Symbol α} (hb : Exec.Lockstep (Agree V) body) :
      Exec.Lockstep (Agree V) (do requireAuth env a; checkRateLimit env a a; body) :=
    (Exec.lockstep_require _ _ _).bind fun _ =>
      (checkRateLimit_lockstep env hconf ha hi).bind fun _ => hb
  cases c with
  | registerDocument issuer owner g =>
    cases hc
    refine Exec.Lockstep.bind (gated ?_) fun _ => Exec.lockstep_pure _ _
    exact registerBody_agree env a owner (hh g (by simp [Call.hashes]))
  | revokeDocument issuer g =>
    cases hc
    refine Exec.Lockstep.bind (gated ?_) fun _ => Exec.lockstep_pure _ _
    exact revokeBody_agree a (hh g (by simp [Call.hashes]))
  | batchRegisterDocuments issuer ds =>
    cases hc
    refine Exec.Lockstep.bind (gated ?_) fun _ => Exec.lockstep_pure _ _
    refine (Exec.lockstep_require _ _ _).bind fun _ => ?_
    refine (Exec.lockstep_require _ _ _).bind fun _ => ?_
    rw [batchRegisterLoop_start]
    refine Exec.Lockstep.each fun d hd => ?_
    exact registerBody_agree env a d.owner (hh _ (List.mem_map_of_mem hd))
  | batchRevokeDocuments issuer hs =>
    cases hc
    refine Exec.Lockstep.bind (gated ?_) fun _ => Exec.lockstep_pure _ _
    refine (Exec.lockstep_require _ _ _).bind fun _ => ?_
    refine (Exec.lockstep_require _ _ _).bind fun _ => ?_
    rw [batchRevokeLoop_start]
    exact Exec.Lockstep.each fun g hg => revokeBody_agree a (hh g hg)
  | _ => cases hc

theorem perform_agree_of_governance (env : Env Address) {c : Call Address Symbol}
    (hc : c.isGovernance = true) (ha : V .admin) (hv : V .version)
    (hf : ∀ flag, V (.featureFlag flag)) : Exec.Lockstep (Agree V) (perform env c) := by
  have version : Exec.Lockstep (Agree V) (Exec.read getVersion : Exec Address Symbol _) :=
    Exec.lockstep_read fun w v h => by simp only [getVersion,h _ hv]
  cases c with
  | initializeContract admin =>
    refine Exec.Lockstep.bind ?_ fun _ => Exec.lockstep_pure _ _
    refine (Exec.lockstep_require _ _ _).bind fun _ => ?_
    refine (hasKey_lockstep hv).bind fun versioned => ?_
    refine (Exec.lockstep_require _ _ _).bind fun _ => ?_
    refine (setKey_lockstep _ _).bind fun _ => ?_
    exact (setKey_lockstep _ _).bind fun _ => publish_lockstep _
  | upgrade admin g =>
    refine Exec.Lockstep.bind ?_ fun _ => Exec.lockstep_pure _ _
    refine (requireAdmin_agree env admin ha).bind fun _ => ?_
    refine version.bind fun _ => Exec.Lockstep.bind ?_ fun _ => publish_lockstep _
    refine (Exec.lockstep_require _ _ _).bind fun _ => ?_
    exact Exec.lockstep_write fun _ _ h => h
  | migrate admin =>
    refine Exec.Lockstep.bind ?_ fun _ => Exec.lockstep_pure _ _
    refine (Exec.lockstep_require _ _ _).bind fun _ => ?_
    refine version.bind fun n => ?_
    split
    · refine (setKey_lockstep _ _).bind fun _ => ?_
      exact (setKey_lockstep _ _).bind fun _ => Exec.lockstep_pure _ _
    · exact Exec.lockstep_fail _ _
  | setFeatureFlag admin flag b =>
    refine Exec.Lockstep.bind ?_ fun _ => Exec.lockstep_pure _ _
    exact (requireAdmin_agree env admin ha).bind fun _ => setKey_lockstep _ _
  | setRateLimitConfig admin config =>
    refine Exec.Lockstep.bind ?_ fun _ => Exec.lockstep_pure _ _
    exact (requireAdmin_agree env admin ha).bind fun _ => setKey_lockstep _ _
  | getVersion => exact Exec.lockstep_read fun w v h => by simp only [getVersion,h _ hv]
  | getAdmin => exact Exec.lockstep_read fun w v h => by simp only [getAdmin,h _ ha]
  | getFeatureFlag flag =>
    exact Exec.lockstep_read fun w v h => by simp only [getFeatureFlag,h _ (hf flag)]
  | _ => cases hc

omit [DecidableEq Address] [DecidableEq Symbol] in
theorem getter_writes_nothing {c : Call Address Symbol} (hi : c.issuer = none)
    (hg : c.isGovernance = false) (k : DataKey Address Symbol) : ¬c.Writes k := by
  cases c with
  | registerDocument | revokeDocument | batchRegisterDocuments | batchRevokeDocuments => cases hi
  | initializeContract | upgrade | migrate | setFeatureFlag | setRateLimitConfig => cases hg
  | getVersion | getAdmin | getFeatureFlag => cases hg
  | _ => cases k <;> simp [Call.Writes,Call.hashes,Call.issuer]

/-- What the group `p` can see of storage: governance, the hashes its members
mention in the run `l`, and its members' own buckets. -/
def Visible (p : Address → Bool) (l : List (Invocation Address Symbol)) :
    DataKey Address Symbol → Prop
  | .document h => ∃ i∈l, i.call.issuedBy p = true ∧ h∈i.call.hashes
  | .rateLimitState (.address a) | .rateLimitState (.issuer a) => p a = true
  | .rateLimitRetryAfter (.address a) | .rateLimitRetryAfter (.issuer a) => p a = true
  | _ => True

/-- No hash is mentioned both inside and outside the group. -/
def Separated (p : Address → Bool) (l : List (Invocation Address Symbol)) : Prop :=
  ∀ i∈l, ∀ j∈l, i.call.issuedBy p = true → j.call.issuedBy (fun a => !p a) = true →
    ∀ h, h∈i.call.hashes → h∉j.call.hashes

omit [DecidableEq Address] [DecidableEq Symbol] in
theorem outsider_writes_nothing_visible {p : Address → Bool}
    {l : List (Invocation Address Symbol)} (hsep : Separated p l)
    {j : Invocation Address Symbol} (hj : j∈l) (hout : j.call.issuedBy (fun a => !p a) = true)
    {k : DataKey Address Symbol} (hk : Visible p l k) : ¬j.call.Writes k := by
  obtain ⟨b,hb,hpb⟩ : ∃ b, j.call.issuer = some b ∧ p b = false := by
    rw [Call.issuedBy] at hout
    cases hb : j.call.issuer with
    | none => simp [hb] at hout
    | some b => exact ⟨b,rfl,by simpa [hb] using hout⟩
  have bucket (a : Address) (s : RateLimitScope Address) (hs : s = .address a ∨ s = .issuer a)
      (hpa : p a = true) : ¬∃ b', j.call.issuer = some b' ∧ (s = .address b' ∨ s = .issuer b') := by
    intro hyp
    obtain ⟨b',hb',hs'⟩ := hyp
    rw [hb] at hb'
    cases hb'
    have he : a = b := by
      obtain rfl | rfl := hs <;> simpa using hs'
    rw [he,hpb] at hpa
    cases hpa
  cases k with
  | document h =>
    obtain ⟨i,hi,hin,hh⟩ := hk
    exact hsep i hi j hj hin hout h hh
  | rateLimitState s =>
    cases s with
    | address a => exact bucket a _ (Or.inl rfl) hk
    | issuer a => exact bucket a _ (Or.inr rfl) hk
  | rateLimitRetryAfter s =>
    cases s with
    | address a => exact bucket a _ (Or.inl rfl) hk
    | issuer a => exact bucket a _ (Or.inr rfl) hk
  | admin =>
    intro hyp
    obtain ⟨a,ha⟩ := hyp
    obtain ha | ha := ha <;> simp [ha,Call.issuer] at hb
  | version =>
    intro hyp
    obtain ⟨a,ha⟩ := hyp
    obtain ha | ha := ha <;> simp [ha,Call.issuer] at hb
  | featureFlag flag =>
    intro hyp
    obtain ⟨a,x,ha⟩ := hyp
    simp [ha,Call.issuer] at hb
  | rateLimitConfig =>
    intro hyp
    obtain ⟨a,x,ha⟩ := hyp
    simp [ha,Call.issuer] at hb

/-- Deleting the document calls of all issuers outside `p` changes neither the
answers that members of `p` and governance get, nor a record a member mentions. -/
theorem issuer_noninterference (p : Address → Bool) (l : List (Invocation Address Symbol))
    (hsep : Separated p l) (w : World Address Symbol) :
    let seen := fun c : Call Address Symbol => c.issuedBy p || c.isGovernance
    let purged := l.filter fun i => !i.call.issuedBy fun a => !p a
    (Machine.outputs invoke l w).filter (fun o => seen o.1.call) =
        (Machine.outputs invoke purged w).filter (fun o => seen o.1.call) ∧
      ∀ i∈l, i.call.issuedBy p = true → ∀ h∈i.call.hashes,
        docs (run l w) h = docs (run purged w) h := by
  intro seen purged
  have lockstep (i : Invocation Address Symbol) (hi : i∈l) (hs : seen i.call = true) :
      Exec.Lockstep (Agree (Visible p l)) (perform i.env i.call) := by
    cases hg : i.call.isGovernance with
    | true => exact perform_agree_of_governance i.env hg trivial trivial fun _ => trivial
    | false =>
      have hin : i.call.issuedBy p = true := by simpa [seen,hg] using hs
      cases ha : i.call.issuer with
      | none => simp [Call.issuedBy,ha] at hin
      | some a =>
        have hpa : p a = true := by simpa [Call.issuedBy,ha] using hin
        exact perform_agree_of_issuer i.env ha trivial hpa hpa fun h hh => ⟨i,hi,hin,hh⟩
  have hsub : ∀ i∈l, seen i.call = true → (!i.call.issuedBy fun a => !p a) = true := by
    intro i _ hs
    cases ha : i.call.issuer with
    | none => simp [Call.issuedBy,ha]
    | some a =>
      have hg : i.call.isGovernance = false := by
        cases hc : i.call <;> simp_all [Call.isGovernance,Call.issuer]
      simpa [seen,Call.issuedBy,ha,hg] using hs
  have hdrop : ∀ i∈l, (!i.call.issuedBy fun a => !p a) = false →
      ∀ s t, Agree (Visible p l) s t → Agree (Visible p l) (invoke i s).2 t := by
    intro i hi hk s t hst k hV
    have hw := outsider_writes_nothing_visible hsep hi (by simpa using hk) hV
    rw [invoke_frames i hw]
    exact hst k hV
  have hkeep : ∀ i∈l, (!i.call.issuedBy fun a => !p a) = true →
      ∀ s t, Agree (Visible p l) s t → Agree (Visible p l) (invoke i s).2 (invoke i t).2 := by
    intro i hi hk s t hst
    cases hs : seen i.call with
    | true => exact ((lockstep i hi hs).commit s t hst).2
    | false =>
      -- neither a member's call nor governance, and not an outsider's: a getter
      have hnone : i.call.issuer = none := by
        cases ha : i.call.issuer with
        | none => rfl
        | some a => simp_all [seen,Call.issuedBy]
      have hg : i.call.isGovernance = false := by simp_all [seen]
      intro k hV
      have hw := getter_writes_nothing hnone hg k
      rw [invoke_frames i hw,invoke_frames i hw]
      exact hst k hV
  obtain ⟨hout,hfin⟩ := Machine.unwinding (Agree (Visible p l))
    (fun i => !i.call.issuedBy fun a => !p a) (fun i => seen i.call) hsub hdrop hkeep
    (fun i hi hs s t hst => ((lockstep i hi hs).commit s t hst).1) w w fun _ _ => rfl
  exact ⟨hout,fun i hi hin h hh => hfin (.document h) ⟨i,hi,hin,hh⟩⟩

/-- Address 0 registers and revokes one document while address 1 registers another. -/
theorem issuer_noninterference_pair :
    let env : Env Nat := ⟨7,fun _ => true,fun _ => true⟩
    let p : Nat → Bool := fun a => a = 0
    let mine : Hash := Vector.replicate 32 1
    let other : Hash := Vector.replicate 32 2
    let l : List (Invocation Nat Nat) := [⟨env,.registerDocument 0 5 mine⟩,
      ⟨env,.registerDocument 1 6 other⟩,⟨env,.revokeDocument 0 mine⟩]
    let purged := l.filter fun i => !i.call.issuedBy fun a => !p a
    let w := World.initial Nat Nat (Vector.replicate 32 0)
    Separated p l ∧ purged.length = 2 ∧ docs (run l w) mine = docs (run purged w) mine := by
  intro env p mine other l purged w
  have hne : mine≠other := by decide
  have hsep : Separated p l := by
    intro i hi j hj hin hout h hh
    simp only [l,List.mem_cons,List.not_mem_nil,or_false] at hi hj
    obtain rfl | rfl | rfl := hi <;> obtain rfl | rfl | rfl := hj <;>
      simp_all [Call.issuedBy,Call.issuer,Call.hashes,p]
  refine ⟨hsep,rfl,?_⟩
  exact (issuer_noninterference p l hsep w).2 ⟨env,.registerDocument 0 5 mine⟩ (by simp [l]) rfl
    mine (by simp [Call.hashes])

end ProofStell.Contract
