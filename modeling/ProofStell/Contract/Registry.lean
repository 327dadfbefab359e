import ProofStell.Contract.Effects

/-! The document registry as an abstract machine of single actions, and the
contract as a refinement of it: a committed invocation performs exactly the
actions its arguments ask for, in order, and publishes one event for each. -/
namespace ProofStell.Contract
open Transact
variable {Address Symbol : Type}

abbrev Docs (Address : Type) := Hash → Option (DocumentRecord Address)

inductive DocAction (Address : Type) where
  | register (issuer owner : Address) (h : Hash) (time : UInt64)
  | revoke (issuer : Address) (h : Hash)
  deriving DecidableEq

def DocAction.hash : DocAction Address → Hash
  | .register _ _ h _ => h
  | .revoke _ h => h

def DocAction.event : DocAction Address → Event Address
  | .register issuer owner h _ => .documentRegistered issuer owner h
  | .revoke issuer h => .documentRevoked issuer h

def Event.isDocument : Event Address → Bool
  | .documentRegistered .. | .documentRevoked .. => true
  | .contractInitialized .. | .contractUpgraded .. => false

def docs (w : World Address Symbol) : Docs Address := fun h => w.storage (.document h)

def documentEvents (w : World Address Symbol) : List (Event Address) :=
  w.events.filter Event.isDocument

def Call.actions (now : UInt64) : Call Address Symbol → List (DocAction Address)
  | .registerDocument issuer owner h => [.register issuer owner h now]
  | .revokeDocument issuer h => [.revoke issuer h]
  | .batchRegisterDocuments issuer ds =>
      ds.map fun d => .register issuer d.owner d.documentHash now
  | .batchRevokeDocuments issuer hs => hs.map (.revoke issuer)
  | _ => []

variable [DecidableEq Address]

/-- One action of the abstract registry; it is refused where it is not legal. -/
def DocAction.apply (d : Docs Address) : DocAction Address → Option (Docs Address)
  | .register issuer owner h time =>
      if d h = none then some (Function.update d h (some ⟨issuer,owner,time,.active⟩)) else none
  | .revoke issuer h =>
      (d h).bind fun r =>
        if r.issuer = issuer ∧ r.status = .active then
          some (Function.update d h (some { r with status := .revoked }))
        else none

def applyAll (l : List (DocAction Address)) (d : Docs Address) : Option (Docs Address) :=
  l.foldlM DocAction.apply d

@[simp] theorem applyAll_nil (d : Docs Address) : applyAll [] d = some d := rfl

@[simp] theorem applyAll_cons (a : DocAction Address) (l : List (DocAction Address))
    (d : Docs Address) : applyAll (a::l) d = (a.apply d).bind (applyAll l) := rfl

theorem applyAll_append (u v : List (DocAction Address)) (d : Docs Address) :
    applyAll (u++v) d = (applyAll u d).bind (applyAll v) := by
  rw [applyAll,List.foldlM_append]
  rfl

theorem apply_register {d d' : Docs Address} {issuer owner : Address} {h : Hash} {time : UInt64} :
    DocAction.apply d (.register issuer owner h time) = some d' ↔
      d h = none ∧ d' = Function.update d h (some ⟨issuer,owner,time,.active⟩) := by
  simp only [DocAction.apply]
  split <;> simp_all [eq_comm]

theorem apply_revoke {d d' : Docs Address} {issuer : Address} {h : Hash} :
    DocAction.apply d (.revoke issuer h) = some d' ↔
      ∃ r, d h = some r ∧ r.issuer = issuer ∧ r.status = .active ∧
        d' = Function.update d h (some { r with status := .revoked }) := by
  simp only [DocAction.apply,Option.bind_eq_some_iff]
  constructor
  · intro hyp
    obtain ⟨r,hr,hd⟩ := hyp
    split at hd
    · next hc => exact ⟨r,hr,hc.1,hc.2,(Option.some.inj hd).symm⟩
    · cases hd
  · intro hyp
    obtain ⟨r,hr,hi,hs,hd⟩ := hyp
    exact ⟨r,hr,by simp [hi,hs,hd]⟩

/-- What the registry did under one hash, read off the record it holds there. -/
def story (h : Hash) : Option (DocumentRecord Address) → List (DocAction Address)
  | none => []
  | some r => .register r.issuer r.owner h r.timestamp ::
      match r.status with
      | .active => []
      | .revoked => [.revoke r.issuer h]

def onHash (h : Hash) (l : List (DocAction Address)) : List (DocAction Address) :=
  l.filter fun a => a.hash = h

omit [DecidableEq Address] in
theorem onHash_append (h : Hash) (u v : List (DocAction Address)) :
    onHash h (u++v) = onHash h u ++ onHash h v :=
  List.filter_append u v

omit [DecidableEq Address] in
theorem mem_of_onHash {h : Hash} {l : List (DocAction Address)} {a : DocAction Address}
    (ha : a∈onHash h l) : a∈l :=
  List.mem_of_mem_filter ha

theorem story_apply {d d' : Docs Address} {a : DocAction Address} (h : Hash)
    (ha : a.apply d = some d') : story h (d' h) = story h (d h) ++ onHash h [a] := by
  cases a with
  | register issuer owner g time =>
    obtain ⟨hg,rfl⟩ := apply_register.mp ha
    by_cases he : h=g
    · subst h
      simp [story,onHash,DocAction.hash,hg]
    · simp [story,onHash,DocAction.hash,he,Ne.symm he]
  | revoke issuer g =>
    obtain ⟨r,hr,hi,hs,rfl⟩ := apply_revoke.mp ha
    by_cases he : h=g
    · subst h
      simp [story,onHash,DocAction.hash,hr,hi,hs]
    · simp [story,onHash,DocAction.hash,he,Ne.symm he]

theorem story_applyAll {l : List (DocAction Address)} {d d' : Docs Address} (h : Hash)
    (hl : applyAll l d = some d') : story h (d' h) = story h (d h) ++ onHash h l := by
  induction l generalizing d with
  | nil =>
    cases hl
    simp [onHash]
  | cons a l ih =>
    rw [applyAll_cons,Option.bind_eq_some_iff] at hl
    obtain ⟨e,ha,hl⟩ := hl
    rw [ih hl,story_apply h ha,List.append_assoc,← onHash_append]
    rfl

variable [DecidableEq Symbol]

theorem docs_put (w : World Address Symbol) (h : Hash) (r : DocumentRecord Address)
    (e : Event Address) :
    docs ((w.put (.document h) (some r)).emit e) = Function.update (docs w) h (some r) := by
  funext g
  by_cases he : g=h
  · subst g
    simp [docs]
  · have hk : (DataKey.document g : DataKey Address Symbol)≠.document h := by simpa using he
    simp [docs,put_storage_ne w _ hk,he]

/-- `x`, when it succeeds, performs the action `a` and publishes its event. -/
def Performs {α : Type} (x : Exec Address Symbol α) (a : DocAction Address) : Prop :=
  ∀ w v r, x w = (.ok r,v) → a.apply (docs w) = some (docs v) ∧ v.events = w.events++[a.event]

theorem registerBody_performs (env : Env Address) (issuer owner : Address) (h : Hash) :
    Performs (registerBody env issuer owner h : Exec Address Symbol _)
      (.register issuer owner h env.timestamp) := by
  intro w v r hb
  obtain ⟨hn,hr,hv⟩ := registerBody_ok.mp hb
  subst hr
  subst hv
  exact ⟨apply_register.mpr ⟨hn,docs_put w h _ _⟩,rfl⟩

theorem revokeBody_performs (issuer : Address) (h : Hash) :
    Performs (revokeBody issuer h : Exec Address Symbol _) (.revoke issuer h) := by
  intro w v r hb
  obtain ⟨old,ho,hi,ht,hr,hv⟩ := revokeBody_ok.mp hb
  subst hr
  subst hv
  exact ⟨apply_revoke.mpr ⟨old,ho,hi,ht,docs_put w h _ _⟩,rfl⟩

omit [DecidableEq Symbol] in
/-- A loop over the items performs their actions in order. -/
theorem each_performs {α β : Type} {f : α → Exec Address Symbol β} {act : α → DocAction Address}
    (hf : ∀ a, Performs (f a) (act a)) {l : List α} {w v : World Address Symbol} {rs : List β}
    (h : Exec.each f l w = (.ok rs,v)) :
    applyAll (l.map act) (docs w) = some (docs v) ∧
      v.events = w.events++(l.map act).map DocAction.event := by
  refine Exec.each_induct (P := fun l w _ v => applyAll (l.map act) (docs w) = some (docs v) ∧
    v.events = w.events++(l.map act).map DocAction.event) ?_ ?_ h
  · intro w
    simp
  · intro a l w r u rs v hb hr
    obtain ⟨ha,he⟩ := hf a w u r hb
    refine ⟨?_,by simp [hr.2,he]⟩
    rw [List.map_cons,applyAll_cons,ha]
    exact hr.1

theorem checkRateLimit_docs {env : Env Address} {a : Address} {w u : World Address Symbol}
    {o : Except Fault Unit} (h : checkRateLimit env a a w = (o,u)) :
    docs u = docs w ∧ u.events = w.events := by
  have hd : Exec.Frames (docs : World Address Symbol → Docs Address) (checkRateLimit env a a) := by
    refine checkRateLimit_frames env fun s _ => ⟨?_,?_⟩
    · intro v b
      funext g
      exact put_storage_ne v b (by simp)
    · intro v b
      funext g
      exact put_storage_ne v b (by simp)
  have he : Exec.Frames World.events (checkRateLimit env a a : Exec Address Symbol _) :=
    checkRateLimit_frames env fun s _ => ⟨fun _ _ => rfl,fun _ _ => rfl⟩
  have h1 := hd w
  have h2 := he w
  rw [h] at h1 h2
  exact ⟨h1,h2⟩

theorem gated_performs {α : Type} {env : Env Address} {a : Address} {body : Exec Address Symbol α}
    {w v : World Address Symbol} {r : α} {l : List (DocAction Address)}
    (hb : ∀ u, docs u = docs w → u.events = w.events → body u = (.ok r,v) →
      applyAll l (docs u) = some (docs v) ∧ v.events = u.events++l.map DocAction.event)
    (h : (do requireAuth env a; checkRateLimit env a a; body : Exec Address Symbol α) w =
      (.ok r,v)) :
    env.auth a = true ∧ applyAll l (docs w) = some (docs v) ∧
      v.events = w.events++l.map DocAction.event := by
  obtain ⟨hauth,u,hc,hr⟩ := gated_ok.mp h
  obtain ⟨hd,he⟩ := checkRateLimit_docs hc
  obtain ⟨hl,hv⟩ := hb u hd he hr
  rw [hd] at hl
  rw [he] at hv
  exact ⟨hauth,hl,hv⟩

theorem registerDocument_performs {env : Env Address} {issuer owner : Address} {h : Hash}
    {w v : World Address Symbol} {r : DocumentRecord Address}
    (hp : registerDocument env issuer owner h w = (.ok r,v)) :
    env.auth issuer = true ∧
      applyAll [.register issuer owner h env.timestamp] (docs w) = some (docs v) ∧
      v.events = w.events++[.documentRegistered issuer owner h] := by
  refine gated_performs (l := [.register issuer owner h env.timestamp]) ?_ hp
  intro u _ _ hb
  obtain ⟨ha,he⟩ := registerBody_performs env issuer owner h u v r hb
  exact ⟨by simp [ha],he⟩

theorem revokeDocument_performs {env : Env Address} {issuer : Address} {h : Hash}
    {w v : World Address Symbol} {r : DocumentRecord Address}
    (hp : revokeDocument env issuer h w = (.ok r,v)) :
    env.auth issuer = true ∧ applyAll [.revoke issuer h] (docs w) = some (docs v) ∧
      v.events = w.events++[.documentRevoked issuer h] := by
  refine gated_performs (l := [.revoke issuer h]) ?_ hp
  intro u _ _ hb
  obtain ⟨ha,he⟩ := revokeBody_performs issuer h u v r hb
  exact ⟨by simp [ha],he⟩

theorem batchRegisterDocuments_performs {env : Env Address} {issuer : Address}
    {ds : List (DocumentInfo Address)} {w v : World Address Symbol}
    {rs : List (DocumentRecord Address)}
    (hp : batchRegisterDocuments env issuer ds w = (.ok rs,v)) :
    env.auth issuer = true ∧
      applyAll ((Call.batchRegisterDocuments issuer ds : Call Address Symbol).actions
        env.timestamp) (docs w) = some (docs v) ∧
      v.events = w.events++((Call.batchRegisterDocuments issuer ds : Call Address Symbol).actions
        env.timestamp).map DocAction.event := by
  refine gated_performs ?_ hp
  intro u _ _ hb
  obtain ⟨_,_,hl⟩ := sized_ok.mp hb
  rw [batchRegisterLoop_start] at hl
  exact each_performs
    (fun d : DocumentInfo Address => registerBody_performs env issuer d.owner d.documentHash) hl

theorem batchRevokeDocuments_performs {env : Env Address} {issuer : Address} {hs : List Hash}
    {w v : World Address Symbol} {rs : List (DocumentRecord Address)}
    (hp : batchRevokeDocuments env issuer hs w = (.ok rs,v)) :
    env.auth issuer = true ∧ applyAll (hs.map (.revoke issuer)) (docs w) = some (docs v) ∧
      v.events = w.events++(hs.map (.revoke issuer)).map DocAction.event := by
  refine gated_performs ?_ hp
  intro u _ _ hb
  obtain ⟨_,_,hl⟩ := sized_ok.mp hb
  rw [batchRevokeLoop_start] at hl
  exact each_performs (revokeBody_performs issuer) hl

omit [DecidableEq Address] in
theorem actions_documentEvents (l : List (DocAction Address)) :
    (l.map DocAction.event).filter Event.isDocument = l.map DocAction.event := by
  rw [List.filter_eq_self]
  intro e he
  obtain ⟨a,_,rfl⟩ := List.mem_map.mp he
  cases a <;> rfl

theorem perform_docs_of_no_hashes {env : Env Address} {c : Call Address Symbol}
    (hc : c.hashes = []) {w v : World Address Symbol} {o : Except Fault (Value Address)}
    (h : perform env c w = (o,v)) : docs v = docs w := by
  have hf : Exec.Frames (docs : World Address Symbol → Docs Address) (perform env c) := by
    refine perform_frames env ?_ (fun _ _ => rfl) (fun _ _ _ _ => rfl)
    intro k hk w v
    funext g
    refine put_storage_ne w v fun he => ?_
    subst k
    simp [Call.Writes,hc] at hk
  have hd := hf w
  rw [h] at hd
  exact hd

/-- A successful call: its issuer has authorised it, and it performs exactly the
actions its arguments ask for. -/
theorem perform_performs {env : Env Address} {c : Call Address Symbol}
    {w v : World Address Symbol} {x : Value Address} (h : perform env c w = (.ok x,v)) :
    (∀ a, c.issuer = some a → env.auth a = true) ∧
      applyAll (c.actions env.timestamp) (docs w) = some (docs v) ∧
      documentEvents v = documentEvents w++(c.actions env.timestamp).map DocAction.event := by
  -- a document-writing call: the loop or the single body performs the actions
  have writer (a : Address) (ha : c.issuer = some a)
      (hp : env.auth a = true ∧ applyAll (c.actions env.timestamp) (docs w) = some (docs v) ∧
        v.events = w.events++(c.actions env.timestamp).map DocAction.event) :
      (∀ a, c.issuer = some a → env.auth a = true) ∧
        applyAll (c.actions env.timestamp) (docs w) = some (docs v) ∧
        documentEvents v = documentEvents w++(c.actions env.timestamp).map DocAction.event := by
    obtain ⟨hauth,hl,he⟩ := hp
    refine ⟨?_,hl,by simp [documentEvents,he,actions_documentEvents]⟩
    intro b hb
    rw [ha] at hb
    cases hb
    exact hauth
  -- any other call: no action, and no document event
  have other (hc : c.issuer = none) (hh : c.hashes = []) (ha : c.actions env.timestamp = [])
      (he : documentEvents v = documentEvents w) :
      (∀ a, c.issuer = some a → env.auth a = true) ∧
        applyAll (c.actions env.timestamp) (docs w) = some (docs v) ∧
        documentEvents v = documentEvents w++(c.actions env.timestamp).map DocAction.event := by
    refine ⟨by simp [hc],?_,by simp [ha,he]⟩
    rw [ha,applyAll_nil,perform_docs_of_no_hashes hh h]
  cases c with
  | registerDocument issuer owner g =>
    obtain ⟨r,hr,_⟩ := wrapped_ok.mp h
    exact writer issuer rfl (registerDocument_performs hr)
  | revokeDocument issuer g =>
    obtain ⟨r,hr,_⟩ := wrapped_ok.mp h
    exact writer issuer rfl (revokeDocument_performs hr)
  | batchRegisterDocuments issuer ds =>
    obtain ⟨r,hr,_⟩ := wrapped_ok.mp h
    exact writer issuer rfl (batchRegisterDocuments_performs hr)
  | batchRevokeDocuments issuer hs =>
    obtain ⟨r,hr,_⟩ := wrapped_ok.mp h
    exact writer issuer rfl (batchRevokeDocuments_performs hr)
  | initializeContract admin =>
    obtain ⟨_,hr,_⟩ := wrapped_ok.mp h
    obtain ⟨_,_,rfl⟩ := initializeContract_ok.mp hr
    exact other rfl rfl rfl (by simp [documentEvents,Event.isDocument])
  | migrate admin =>
    obtain ⟨_,hr,_⟩ := wrapped_ok.mp h
    obtain ⟨_,_,_,rfl⟩ := migrate_ok.mp hr
    exact other rfl rfl rfl (by simp [documentEvents])
  | upgrade admin g =>
    obtain ⟨_,hr,_⟩ := wrapped_ok.mp h
    obtain ⟨_,_,_,rfl⟩ := upgrade_ok.mp hr
    exact other rfl rfl rfl (by simp [documentEvents,Event.isDocument])
  | setFeatureFlag admin flag b =>
    obtain ⟨_,hr,_⟩ := wrapped_ok.mp h
    obtain ⟨_,_,rfl⟩ := setFeatureFlag_ok.mp hr
    exact other rfl rfl rfl (by simp [documentEvents])
  | setRateLimitConfig admin config =>
    obtain ⟨_,hr,_⟩ := wrapped_ok.mp h
    obtain ⟨_,_,rfl⟩ := setRateLimitConfig_ok.mp hr
    exact other rfl rfl rfl (by simp [documentEvents])
  | getDocumentStatus g =>
    have hv : v = w := by
      simp only [perform,Exec.read_bind_apply] at h
      cases hs : getDocumentStatus w g with
      | none => simp [hs] at h
      | some t => simpa [hs,eq_comm] using (Prod.mk.inj h).2
    exact other rfl rfl rfl (by rw [hv])
  | getDocument _ | verifyDocument _ | documentExists _ | getVersion | getAdmin
  | getFeatureFlag _ | getRateLimitRetryAfter _ =>
    have hv : w = v := (Prod.mk.inj h).2
    exact other rfl rfl rfl (by rw [hv])

/-- The actions an invocation commits: those of its arguments, or none if it fails. -/
def committed (i : Invocation Address Symbol) (w : World Address Symbol) :
    List (DocAction Address) :=
  match (invoke i w).1 with
  | .ok _ => i.call.actions i.env.timestamp
  | .error _ => []

theorem committed_refines (i : Invocation Address Symbol) (w : World Address Symbol) :
    applyAll (committed i w) (docs w) = some (docs (invoke i w).2) ∧
      documentEvents (invoke i w).2 =
        documentEvents w++(committed i w).map DocAction.event := by
  rw [committed]
  cases hi : invoke i w with
  | mk o v =>
    cases o with
    | ok x => exact (perform_performs (Exec.commit_ok.mp hi)).2
    | error e =>
      obtain ⟨_,rfl⟩ := Exec.commit_error.mp hi
      simp

theorem mem_committed {i : Invocation Address Symbol} {w : World Address Symbol}
    {a : DocAction Address} (h : a∈committed i w) :
    (∃ x, (invoke i w).1 = .ok x) ∧ a∈i.call.actions i.env.timestamp ∧
      ∀ b, i.call.issuer = some b → i.env.auth b = true := by
  rw [committed] at h
  cases hi : invoke i w with
  | mk o v =>
    rw [hi] at h
    cases o with
    | ok x => exact ⟨⟨x,rfl⟩,h,(perform_performs (Exec.commit_ok.mp hi)).1⟩
    | error e => simp at h

def history : List (Invocation Address Symbol) → World Address Symbol → List (DocAction Address)
  | [], _ => []
  | i::l, w => committed i w++history l (invoke i w).2

/-- The contract refines the registry: a run from `w` ends in the registry its
committed actions lead to, and its document events spell these actions out. -/
theorem run_refines (l : List (Invocation Address Symbol)) (w : World Address Symbol) :
    applyAll (history l w) (docs w) = some (docs (run l w)) ∧
      documentEvents (run l w) = documentEvents w++(history l w).map DocAction.event := by
  induction l generalizing w with
  | nil => simp [history,run,Machine.final]
  | cons i l ih =>
    obtain ⟨ha,he⟩ := committed_refines i w
    obtain ⟨hl,hv⟩ := ih (invoke i w).2
    constructor
    · rw [history,applyAll_append,ha]
      exact hl
    · rw [history,List.map_append,← List.append_assoc,← he]
      exact hv

end ProofStell.Contract
