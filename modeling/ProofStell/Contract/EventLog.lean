import ProofStell.Contract.Registry

/-! The event log as a second copy of the registry: replaying the committed
document events rebuilds what storage holds. -/
namespace ProofStell.Contract
open Transact
variable {Address Symbol : Type}

abbrev Replica (Address : Type) := Hash → Option (Address × Address × DocumentStatus)

def replayStep (m : Replica Address) : Event Address → Replica Address
  | .documentRegistered issuer owner h => Function.update m h (some (issuer,owner,.active))
  | .documentRevoked _ h =>
      Function.update m h ((m h).map fun (issuer,owner,_) => (issuer,owner,.revoked))
  | _ => m

def replay (l : List (Event Address)) : Replica Address := l.foldl replayStep fun _ => none

def DocumentRecord.summary (r : DocumentRecord Address) : Address × Address × DocumentStatus :=
  (r.issuer,r.owner,r.status)

def Event.mentions (h : Hash) : Event Address → Bool
  | .documentRegistered _ _ g => g = h
  | .documentRevoked _ g => g = h
  | _ => false

def Event.registers (h : Hash) : Event Address → Bool
  | .documentRegistered _ _ g => g = h
  | _ => false

def Event.revokes (h : Hash) : Event Address → Bool
  | .documentRevoked _ g => g = h
  | _ => false

theorem replayStep_other {m : Replica Address} {h : Hash} {e : Event Address}
    (he : e.mentions h = false) : replayStep m e h = m h := by
  cases e with
  | documentRegistered i o g =>
    have hg : h≠g := by intro hg; subst g; simp [Event.mentions] at he
    simp [replayStep,hg]
  | documentRevoked i g =>
    have hg : h≠g := by intro hg; subst g; simp [Event.mentions] at he
    simp [replayStep,hg]
  | contractInitialized a n => rfl
  | contractUpgraded a m n => rfl

theorem replayStep_congr {m n : Replica Address} {h : Hash} (hm : m h = n h)
    (e : Event Address) : replayStep m e h = replayStep n e h := by
  cases e with
  | documentRegistered i o g =>
    by_cases hg : h=g
    · subst g
      simp [replayStep]
    · simp [replayStep,hg,hm]
  | documentRevoked i g =>
    by_cases hg : h=g
    · subst g
      simp [replayStep,hm]
    · simp [replayStep,hg,hm]
  | contractInitialized a k => exact hm
  | contractUpgraded a j k => exact hm

theorem foldl_replayStep_filter (h : Hash) (l : List (Event Address)) (m n : Replica Address)
    (hm : m h = n h) :
    l.foldl replayStep m h = (l.filter (Event.mentions h)).foldl replayStep n h := by
  induction l generalizing m n with
  | nil => exact hm
  | cons e l ih =>
    cases he : e.mentions h with
    | false =>
      rw [List.filter_cons_of_neg (by simp [he]),List.foldl_cons]
      exact ih _ n ((replayStep_other he).trans hm)
    | true =>
      rw [List.filter_cons_of_pos he,List.foldl_cons,List.foldl_cons]
      exact ih _ _ (replayStep_congr hm e)

/-- What a consumer knows about `h` depends on the events that mention `h` only. -/
theorem replay_filter (h : Hash) (l : List (Event Address)) :
    replay l h = replay (l.filter (Event.mentions h)) h :=
  foldl_replayStep_filter h l _ _ rfl

theorem replay_story (h : Hash) (o : Option (DocumentRecord Address)) :
    replay ((story h o).map DocAction.event) h = o.map DocumentRecord.summary := by
  cases o with
  | none => rfl
  | some r =>
    cases hs : r.status <;>
      simp [story,hs,replay,replayStep,DocAction.event,DocumentRecord.summary]

theorem mentions_event (h : Hash) (a : DocAction Address) :
    a.event.mentions h = decide (a.hash = h) := by
  cases a <;> rfl

theorem filter_mentions (h : Hash) (l : List (Event Address)) :
    (l.filter Event.isDocument).filter (Event.mentions h) = l.filter (Event.mentions h) := by
  rw [List.filter_filter]
  congr 1
  funext e
  cases e <;> simp [Event.isDocument,Event.mentions]

variable [DecidableEq Address] [DecidableEq Symbol]

/-- The part of the log about one hash is the story of the record stored there. -/
theorem run_hash_log (wasm : Hash) (l : List (Invocation Address Symbol)) (h : Hash) :
    (run l (World.initial Address Symbol wasm)).events.filter (Event.mentions h) =
      (story h (docs (run l (World.initial Address Symbol wasm)) h)).map DocAction.event := by
  obtain ⟨ha,he⟩ := run_refines l (World.initial Address Symbol wasm)
  have hs := story_applyAll h ha
  have h0 : story h (docs (World.initial Address Symbol wasm) h) = [] := rfl
  rw [h0,List.nil_append] at hs
  rw [hs,← filter_mentions]
  change (documentEvents _).filter _ = _
  rw [he]
  simp only [documentEvents,World.initial,List.filter_nil,List.nil_append,List.filter_map]
  congr 2
  funext a
  exact mentions_event h a

/-- A log that tells exactly what storage holds. -/
structure LogMirrors (w : World Address Symbol) : Prop where
  replayed : replay w.events = fun h => (docs w h).map DocumentRecord.summary
  registered_once : ∀ h r, docs w h = some r →
    w.events.filter (Event.registers h) = [.documentRegistered r.issuer r.owner h]
  revoked_once : ∀ h r, docs w h = some r → r.status = .revoked →
    w.events.filter (Event.revokes h) = [.documentRevoked r.issuer h] ∧
      [.documentRegistered r.issuer r.owner h,.documentRevoked r.issuer h].Sublist w.events
  registered_confirmed : ∀ issuer owner h, .documentRegistered issuer owner h∈w.events →
    ∃ r, docs w h = some r ∧ r.issuer = issuer ∧ r.owner = owner
  revoked_confirmed : ∀ issuer h, .documentRevoked issuer h∈w.events →
    ∃ r, docs w h = some r ∧ r.issuer = issuer ∧ r.status = .revoked

omit [DecidableEq Address] [DecidableEq Symbol] in
theorem filter_registers (h : Hash) (l : List (Event Address)) :
    l.filter (Event.registers h) = (l.filter (Event.mentions h)).filter (Event.registers h) := by
  rw [List.filter_filter]
  congr 1
  funext e
  cases e <;> simp [Event.registers,Event.mentions]

omit [DecidableEq Address] [DecidableEq Symbol] in
theorem filter_revokes (h : Hash) (l : List (Event Address)) :
    l.filter (Event.revokes h) = (l.filter (Event.mentions h)).filter (Event.revokes h) := by
  rw [List.filter_filter]
  congr 1
  funext e
  cases e <;> simp [Event.revokes,Event.mentions]

/-- In every run of a fresh contract the committed events mirror storage. -/
theorem run_log_mirrors (wasm : Hash) (l : List (Invocation Address Symbol)) :
    LogMirrors (run l (World.initial Address Symbol wasm)) := by
  have hlog (h : Hash) := run_hash_log wasm l h
  generalize run l (World.initial Address Symbol wasm) = w at hlog
  have hin (e : Event Address) (h : Hash) (he : e∈w.events) (hm : e.mentions h = true) :
      e∈(story h (docs w h)).map DocAction.event := by
    rw [← hlog h]
    exact List.mem_filter.mpr ⟨he,hm⟩
  constructor
  · funext h
    rw [replay_filter,hlog h,replay_story]
  · intro h r hr
    rw [filter_registers,hlog h,hr]
    cases hs : r.status <;> simp [story,hs,DocAction.event,Event.registers]
  · intro h r hr hs
    have hl := hlog h
    rw [hr] at hl
    simp only [story,hs,DocAction.event,List.map_cons,List.map_nil] at hl
    refine ⟨?_,?_⟩
    · rw [filter_revokes,hl]
      simp [Event.revokes]
    · rw [← hl]
      exact List.filter_sublist
  · intro issuer owner h he
    have hm := hin _ h he (by simp [Event.mentions])
    cases hd : docs w h with
    | none => simp [hd,story] at hm
    | some r =>
      refine ⟨r,rfl,?_⟩
      cases hs : r.status <;> simp_all [story,DocAction.event]
  · intro issuer h he
    have hm := hin _ h he (by simp [Event.mentions])
    cases hd : docs w h with
    | none => simp [hd,story] at hm
    | some r =>
      refine ⟨r,rfl,?_⟩
      cases hs : r.status <;> simp_all [story,DocAction.event]

end ProofStell.Contract
