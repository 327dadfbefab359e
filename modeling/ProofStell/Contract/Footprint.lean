import ProofStell.Contract.Entry

/-! Which storage keys an entry point may write, and what it may depend on.
Everything later about frames and about pairs of runs goes through this file. -/
namespace ProofStell.Contract
open Transact
variable {Address Symbol : Type}

def Call.Writes (c : Call Address Symbol) : DataKey Address Symbol → Prop
  | .document h => h∈c.hashes
  | .admin => ∃ a, c = .initializeContract a ∨ c = .migrate a
  | .version => ∃ a, c = .initializeContract a ∨ c = .migrate a
  | .featureFlag flag => ∃ a b, c = .setFeatureFlag a flag b
  | .rateLimitConfig => ∃ a config, c = .setRateLimitConfig a config
  | .rateLimitState s => ∃ a, c.issuer = some a ∧ (s = .address a ∨ s = .issuer a)
  | .rateLimitRetryAfter s => ∃ a, c.issuer = some a ∧ (s = .address a ∨ s = .issuer a)

def keyView (k : DataKey Address Symbol) (w : World Address Symbol) : Option k.Val := w.storage k

variable [DecidableEq Address] [DecidableEq Symbol]

theorem batchRegisterLoop_cons (env : Env Address) (issuer : Address) (d : DocumentInfo Address)
    (ds : List (DocumentInfo Address)) (records : List (DocumentRecord Address)) :
    (batchRegisterLoop env issuer (d::ds) records : Exec Address Symbol _) =
      registerBody env issuer d.owner d.documentHash >>= fun r =>
        batchRegisterLoop env issuer ds (records++[r]) := by
  simp only [batchRegisterLoop,registerBody,Exec.bind_assoc,Exec.pure_bind]

theorem batchRevokeLoop_cons (issuer : Address) (h : Hash) (hs : List Hash)
    (records : List (DocumentRecord Address)) :
    (batchRevokeLoop issuer (h::hs) records : Exec Address Symbol _) =
      revokeBody issuer h >>= fun r => batchRevokeLoop issuer hs (records++[r]) := by
  simp only [batchRevokeLoop,revokeBody,Exec.bind_assoc,Exec.pure_bind]

theorem batchRegisterLoop_eq (env : Env Address) (issuer : Address)
    (ds : List (DocumentInfo Address)) (records : List (DocumentRecord Address)) :
    (batchRegisterLoop env issuer ds records : Exec Address Symbol _) =
      Exec.each (fun d => registerBody env issuer d.owner d.documentHash) ds >>=
        fun rs => pure (records++rs) := by
  induction ds generalizing records with
  | nil => simp [batchRegisterLoop]
  | cons d ds ih =>
    simp only [batchRegisterLoop_cons,Exec.each,Exec.bind_assoc,ih,Exec.pure_bind,
      List.append_assoc,List.singleton_append]

theorem batchRevokeLoop_eq (issuer : Address) (hs : List Hash)
    (records : List (DocumentRecord Address)) :
    (batchRevokeLoop issuer hs records : Exec Address Symbol _) =
      Exec.each (revokeBody issuer) hs >>= fun rs => pure (records++rs) := by
  induction hs generalizing records with
  | nil => simp [batchRevokeLoop]
  | cons h hs ih =>
    simp only [batchRevokeLoop_cons,Exec.each,Exec.bind_assoc,ih,Exec.pure_bind,
      List.append_assoc,List.singleton_append]

theorem batchRegisterLoop_start (env : Env Address) (issuer : Address)
    (ds : List (DocumentInfo Address)) :
    (batchRegisterLoop env issuer ds [] : Exec Address Symbol _) =
      Exec.each (fun d => registerBody env issuer d.owner d.documentHash) ds := by
  simp [batchRegisterLoop_eq]

theorem batchRevokeLoop_start (issuer : Address) (hs : List Hash) :
    (batchRevokeLoop issuer hs [] : Exec Address Symbol _) =
      Exec.each (revokeBody issuer) hs := by
  simp [batchRevokeLoop_eq]

/-- A view of the world that writing `k` does not enter. -/
def Blind {δ : Type} (π : World Address Symbol → δ) (k : DataKey Address Symbol) : Prop :=
  ∀ w v, π (w.put k v) = π w

section
variable {δ : Type} {π : World Address Symbol → δ}

theorem setKey_frames {k : DataKey Address Symbol} (v : k.Val) (h : Blind π k) :
    Exec.Frames π (setKey k v) :=
  Exec.frames_write _ fun w => h w (some v)

theorem chargeScope_frames (env : Env Address) (config : RateLimitConfig)
    {scope : RateLimitScope Address} (hs : Blind π (.rateLimitState scope))
    (hr : Blind π (.rateLimitRetryAfter scope)) :
    Exec.Frames π (chargeScope env config scope) := by
  rw [chargeScope]
  refine (Exec.frames_read _ _).bind fun state => ?_
  dsimp only
  split
  · exact (setKey_frames _ hr).bind fun _ => Exec.frames_fail _ _
  · exact (setKey_frames _ hs).bind fun _ => Exec.frames_write _ fun w => hr w none

theorem checkRateLimit_frames (env : Env Address) {a : Address}
    (hm : ∀ s, s = .address a ∨ s = .issuer a →
      Blind π (.rateLimitState s) ∧ Blind π (.rateLimitRetryAfter s)) :
    Exec.Frames π (checkRateLimit env a a) := by
  rw [checkRateLimit]
  refine (Exec.frames_read _ _).bind fun config => ?_
  refine Exec.Frames.bind ?_ fun _ => Exec.frames_pure _ _
  refine Exec.Frames.each fun s hs => ?_
  obtain ⟨hst,hr⟩ := hm s (by simpa using hs)
  exact chargeScope_frames env config hst hr

theorem registerBody_frames (env : Env Address) (issuer owner : Address) {h : Hash}
    (hk : Blind π (.document h)) (he : ∀ w e, π (w.emit e) = π w) :
    Exec.Frames π (registerBody env issuer owner h) := by
  rw [registerBody]
  refine (Exec.frames_read _ _).bind fun taken => ?_
  refine (Exec.frames_require _ _ _).bind fun _ => ?_
  refine (setKey_frames _ hk).bind fun _ => ?_
  exact (Exec.frames_write _ fun w => he w _).bind fun _ => Exec.frames_pure _ _

theorem revokeBody_frames (issuer : Address) {h : Hash} (hk : Blind π (.document h))
    (he : ∀ w e, π (w.emit e) = π w) : Exec.Frames π (revokeBody issuer h) := by
  rw [revokeBody]
  refine (Exec.frames_read _ _).bind fun stored => ?_
  refine (Exec.frames_demand _ _ _).bind fun record => ?_
  refine (Exec.frames_require _ _ _).bind fun _ => ?_
  refine (Exec.frames_require _ _ _).bind fun _ => ?_
  refine (setKey_frames _ hk).bind fun _ => ?_
  exact (Exec.frames_write _ fun w => he w _).bind fun _ => Exec.frames_pure _ _

omit [DecidableEq Symbol] in
theorem requireAdmin_frames (env : Env Address) (admin : Address) :
    Exec.Frames π (requireAdmin env admin) := by
  rw [requireAdmin]
  refine (Exec.frames_require _ _ _).bind fun _ => ?_
  refine (Exec.frames_read _ _).bind fun stored => ?_
  refine (Exec.frames_demand _ _ _).bind fun _ => ?_
  exact Exec.frames_require _ _ _

/-- A call keeps every view that its footprint, its events and, for an upgrade,
the new executable do not enter; also while it fails. -/
theorem perform_frames (env : Env Address) {c : Call Address Symbol}
    (hk : ∀ k, c.Writes k → Blind π k) (he : ∀ w e, π (w.emit e) = π w)
    (hw : ∀ a g, c = .upgrade a g → ∀ w, π { w with wasm := g } = π w) :
    Exec.Frames π (perform env c) := by
  have emit (e : Event Address) : Exec.Frames π (publish e) :=
    Exec.frames_write _ fun w => he w e
  have gated {α : Type} {a : Address} (ha : c.issuer = some a) {body : Exec Address Symbol α}
      (hb : Exec.Frames π body) :
      Exec.Frames π (do requireAuth env a; checkRateLimit env a a; body) := by
    refine (Exec.frames_require _ _ _).bind fun _ => ?_
    refine (checkRateLimit_frames env fun s hs => ?_).bind fun _ => hb
    exact ⟨hk _ ⟨a,ha,hs⟩,hk _ ⟨a,ha,hs⟩⟩
  cases c with
  | registerDocument issuer owner g =>
    refine Exec.Frames.bind (gated rfl ?_) fun _ => Exec.frames_pure _ _
    exact registerBody_frames env issuer owner (hk (.document g) (List.mem_singleton_self g)) he
  | revokeDocument issuer g =>
    refine Exec.Frames.bind (gated rfl ?_) fun _ => Exec.frames_pure _ _
    exact revokeBody_frames issuer (hk (.document g) (List.mem_singleton_self g)) he
  | batchRegisterDocuments issuer ds =>
    refine Exec.Frames.bind (gated rfl ?_) fun _ => Exec.frames_pure _ _
    refine (Exec.frames_require _ _ _).bind fun _ => ?_
    refine (Exec.frames_require _ _ _).bind fun _ => ?_
    rw [batchRegisterLoop_start]
    refine Exec.Frames.each fun d hd => ?_
    exact registerBody_frames env issuer d.owner
      (hk (.document d.documentHash) (List.mem_map_of_mem hd)) he
  | batchRevokeDocuments issuer hs =>
    refine Exec.Frames.bind (gated rfl ?_) fun _ => Exec.frames_pure _ _
    refine (Exec.frames_require _ _ _).bind fun _ => ?_
    refine (Exec.frames_require _ _ _).bind fun _ => ?_
    rw [batchRevokeLoop_start]
    exact Exec.Frames.each fun g hg => revokeBody_frames issuer (hk (.document g) hg) he
  | initializeContract admin =>
    have ha := hk .admin ⟨admin,Or.inl rfl⟩
    have hv := hk .version ⟨admin,Or.inl rfl⟩
    refine Exec.Frames.bind ?_ fun _ => Exec.frames_pure _ _
    refine (Exec.frames_require _ _ _).bind fun _ => ?_
    refine (Exec.frames_read _ _).bind fun versioned => ?_
    refine (Exec.frames_require _ _ _).bind fun _ => ?_
    refine (setKey_frames _ ha).bind fun _ => ?_
    exact (setKey_frames _ hv).bind fun _ => emit _
  | migrate admin =>
    have ha := hk .admin ⟨admin,Or.inr rfl⟩
    have hv := hk .version ⟨admin,Or.inr rfl⟩
    refine Exec.Frames.bind ?_ fun _ => Exec.frames_pure _ _
    refine (Exec.frames_require _ _ _).bind fun _ => ?_
    refine (Exec.frames_read _ _).bind fun version => ?_
    split
    · refine (setKey_frames _ ha).bind fun _ => ?_
      exact (setKey_frames _ hv).bind fun _ => Exec.frames_pure _ _
    · exact Exec.frames_fail _ _
  | upgrade admin g =>
    refine Exec.Frames.bind ?_ fun _ => Exec.frames_pure _ _
    refine (requireAdmin_frames env admin).bind fun _ => ?_
    refine (Exec.frames_read _ _).bind fun version => ?_
    refine Exec.Frames.bind ?_ fun _ => emit _
    exact (Exec.frames_require _ _ _).bind fun _ => Exec.frames_write _ fun w => hw admin g rfl w
  | setFeatureFlag admin flag enabled =>
    refine Exec.Frames.bind ?_ fun _ => Exec.frames_pure _ _
    refine (requireAdmin_frames env admin).bind fun _ => ?_
    exact setKey_frames _ (hk _ ⟨admin,enabled,rfl⟩)
  | setRateLimitConfig admin config =>
    refine Exec.Frames.bind ?_ fun _ => Exec.frames_pure _ _
    refine (requireAdmin_frames env admin).bind fun _ => ?_
    exact setKey_frames _ (hk _ ⟨admin,config,rfl⟩)
  | getDocumentStatus g =>
    refine (Exec.frames_read _ _).bind fun status => ?_
    exact (Exec.frames_demand _ _ _).bind fun _ => Exec.frames_pure _ _
  | getDocument _ | verifyDocument _ | documentExists _ | getVersion | getAdmin
  | getFeatureFlag _ | getRateLimitRetryAfter _ => exact Exec.frames_read _ _
end

theorem invoke_frames (i : Invocation Address Symbol) {k : DataKey Address Symbol}
    (h : ¬i.call.Writes k) (w : World Address Symbol) :
    (invoke i w).2.storage k = w.storage k := by
  have hf : Exec.Frames (keyView k) (perform i.env i.call) := by
    refine perform_frames i.env ?_ (fun _ _ => rfl) (fun _ _ _ _ => rfl)
    intro j hj w v
    exact put_storage_ne w v fun he => h (he ▸ hj)
  exact hf.commit w

theorem invoke_wasm (i : Invocation Address Symbol) (h : ∀ a g, i.call≠.upgrade a g)
    (w : World Address Symbol) : (invoke i w).2.wasm = w.wasm := by
  have hf : Exec.Frames World.wasm (perform i.env i.call) :=
    perform_frames i.env (fun _ _ _ _ => rfl) (fun _ _ => rfl) fun a g hc => absurd hc (h a g)
  exact hf.commit w

end ProofStell.Contract
