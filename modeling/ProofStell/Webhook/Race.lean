import ProofStell.Lib.CheckThenAct
import ProofStell.Webhook.Dedup

/-! Dispatches of one event that overlap. The check for a duplicate and the marker are two
awaits, so another dispatch can come in between. -/
namespace ProofStell.Webhook
open Cache
variable {DateTime σ : Type}

structure Call (DateTime σ : Type) where
  dispatcher : WebhookDispatcher DateTime σ
  event : Audit.Event DateTime
  script : Script DateTime

inductive Return where
  | noUrls | alreadyDelivered | finished
  deriving DecidableEq

/-- Where a call of `dispatch` is. The URL it works on comes before those it has still to
do. -/
inductive Phase where
  | idle
  | checked
  | sending (url : String × Nat) (urls : List (String × Nat)) (attempt : Nat)
  | deadLettering (url : String × Nat) (urls : List (String × Nat)) (lastError : String)
  | counting (urls : List (String × Nat)) (left : List String)
  | returned (how : Return)
  deriving DecidableEq

def Phase.next : List (String × Nat) → Phase
  | [] => .returned .finished
  | url::urls => .sending url urls 0

def Phase.target : Phase → Option String
  | .sending url _ _ => some url.1
  | _ => none

/-- A call up to its next await: one read or write of the cache, or one send. -/
def Call.advance (cache : CacheHandle σ) (c : Call DateTime σ) : Phase → σ → Phase × σ
  | .idle, s =>
    if c.dispatcher.urls.isEmpty then (.returned .noUrls,s)
    else
      match cache.getRaw (dedupKey c.event.idempotencyKey) s with
      | (.ok (some _),s) => (.returned .alreadyDelivered,s)
      | (_,s) => (.checked,s)
  | .checked, s =>
    (.next c.dispatcher.urls.zipIdx,(cache.setRaw (dedupKey c.event.idempotencyKey) "delivered"
      c.dispatcher.deduplicationTtl s).2)
  | .sending url urls attempt, s =>
    match c.script.send url.2 attempt with
    | .ok () => (.next urls,s)
    | .error e =>
      if attempt < c.dispatcher.maxRetries.toNat then (.sending url urls (attempt+1),s)
      else (.deadLettering url urls e,s)
  | .deadLettering url urls lastError, s =>
    let entry := c.dispatcher.deadLetter url.1 (.ofEvent c.event) lastError
      (c.script.failedAt url.2)
    (.counting urls c.dispatcher.urls,
      (cache.setRaw (dlqKey url.1) (entry.serialize c.dispatcher.serde) DLQ_TTL s).2)
  | .counting urls [], s => (.next urls,s)
  | .counting urls (url::left), s => (.counting urls left,(cache.getRaw (dlqKey url) s).2)
  | .returned how, s => (.returned how,s)

section Alone
variable {cache : CacheHandle σ} {c : Call DateTime σ}

def Leads (cache : CacheHandle σ) (c : Call DateTime σ) (p q : Phase × σ) : Prop :=
  ∃ n, (fun p : Phase × σ => c.advance cache p.1 p.2)^[n] p = q

theorem Leads.refl (p : Phase × σ) : Leads cache c p p := ⟨0,rfl⟩

theorem Leads.step {phase : Phase} {s : σ} {q : Phase × σ}
    (h : Leads cache c (c.advance cache phase s) q) : Leads cache c (phase,s) q := by
  obtain ⟨n,hn⟩ := h
  exact ⟨n+1,hn⟩

theorem Leads.trans {p q r : Phase × σ} (h : Leads cache c p q) (h' : Leads cache c q r) :
    Leads cache c p r := by
  obtain ⟨m,rfl⟩ := h
  obtain ⟨n,rfl⟩ := h'
  exact ⟨n+m,Function.iterate_add_apply _ n m p⟩

theorem leads_sending (url : String × Nat) (urls : List (String × Nat)) (attempt remaining : Nat)
    (hrem : attempt+remaining = c.dispatcher.maxRetries.toNat) (lastError : String) (s : σ) :
    Leads cache c (.sending url urls attempt,s)
      (match sendLoop (c.script.send url.2) (remaining+1) attempt lastError with
        | none => (.next urls,s)
        | some e => (.deadLettering url urls e,s)) := by
  induction remaining generalizing attempt lastError with
  | zero =>
    refine Leads.step ?_
    rw [Call.advance]
    cases hsend : c.script.send url.2 attempt with
    | ok u =>
      simp only [sendLoop,hsend]
      exact Leads.refl _
    | error e =>
      simp only [sendLoop,hsend]
      rw [if_neg (by omega)]
      exact Leads.refl _
  | succ remaining ih =>
    refine Leads.step ?_
    rw [Call.advance,sendLoop]
    cases hsend : c.script.send url.2 attempt with
    | ok u => exact Leads.refl _
    | error e =>
      simp only
      rw [if_pos (by omega)]
      exact ih (attempt+1) (by omega) e

theorem leads_counting (urls : List (String × Nat)) (left : List String) (n : Nat) (s : σ) :
    Leads cache c (.counting urls left,s)
      (.next urls,(WebhookDispatcher.countPersisted cache left n s).2) := by
  induction left generalizing n s with
  | nil => exact Leads.step (Leads.refl _)
  | cons url left ih =>
    refine Leads.step ?_
    rw [Call.advance,WebhookDispatcher.countPersisted]
    cases hr : cache.getRaw (dlqKey url) s with
    | mk found t =>
      cases found with
      | error e => exact ih _ _
      | ok value => cases value <;> exact ih _ _

theorem leads_deliverAll (hcache : c.dispatcher.cache = some cache)
    (urls : List (String × Nat)) (st : DispatcherState DateTime σ) :
    Leads cache c (.next urls,st.store) (.returned .finished,
      (urls.foldl (fun st u => c.dispatcher.deliverWithRetry u.1 (.ofEvent c.event)
        (c.script.send u.2) (c.script.failedAt u.2) st) st).store) := by
  induction urls generalizing st with
  | nil => exact Leads.refl _
  | cons u urls ih =>
    rw [Phase.next,List.foldl_cons]
    refine Leads.trans ?_ (ih _)
    refine (leads_sending u urls 0 _ (Nat.zero_add _) "no attempts made" st.store).trans ?_
    rw [WebhookDispatcher.deliverWithRetry,WebhookDispatcher.attemptAll]
    cases sendLoop (c.script.send u.2) (c.dispatcher.maxRetries.toNat+1) 0 "no attempts made" with
    | none => exact Leads.refl _
    | some e =>
      simp only [hcache]
      exact Leads.step (leads_counting urls _ 0 _)

/-- A call that nobody interrupts is `dispatch`. -/
theorem uninterrupted (hcache : c.dispatcher.cache = some cache)
    (st : DispatcherState DateTime σ) :
    ∃ how, Leads cache c (.idle,st.store)
      (.returned how,(c.dispatcher.dispatch c.event c.script st).store) := by
  rw [WebhookDispatcher.dispatch]
  split
  · next hurls =>
    refine ⟨.noUrls,Leads.step ?_⟩
    rw [Call.advance,if_pos hurls]
    exact Leads.refl _
  · next hurls =>
    simp only [hcache]
    split
    · next hr =>
      refine ⟨.alreadyDelivered,Leads.step ?_⟩
      rw [Call.advance,if_neg hurls,hr]
      exact Leads.refl _
    · next s hmiss hr =>
      refine ⟨.finished,Leads.step ?_⟩
      have hadvance : c.advance cache .idle st.store = (.checked,s) := by
        rw [Call.advance,if_neg hurls,hr]
        split
        · next heq =>
          cases heq
          exact (hmiss _ rfl).elim
        · next heq =>
          cases heq
          rfl
      rw [hadvance]
      exact Leads.step (leads_deliverAll hcache c.dispatcher.urls.zipIdx { st with
        store := (cache.setRaw (dedupKey c.event.idempotencyKey) "delivered"
          c.dispatcher.deduplicationTtl s).2 })

end Alone

structure Dispatches (κ σ : Type) where
  store : σ
  phase : κ → Phase
  sent : List (κ × String)

namespace Dispatches
variable {κ : Type}

def init (s : σ) : Dispatches κ σ := ⟨s,fun _ => .idle,[]⟩

/-- At most one call has sent anything. -/
def OneSender (s : Dispatches κ σ) : Prop := ∀ p∈s.sent, ∀ q∈s.sent, p.1 = q.1

def Returned (s : Dispatches κ σ) : Prop := ∀ k, ∃ how, s.phase k = .returned how

/-- No call checks while another one is between its check and its marker. -/
def alone (c : κ → Call DateTime σ) (s : Dispatches κ σ) (k : κ) : Prop :=
  s.phase k = .idle → (c k).dispatcher.urls≠[] → ∀ j, s.phase j≠.checked

def step [DecidableEq κ] (cache : CacheHandle σ) (c : κ → Call DateTime σ) (k : κ)
    (s : Dispatches κ σ) : Unit × Dispatches κ σ :=
  let (phase,store) := (c k).advance cache (s.phase k) s.store
  ((),⟨store,Function.update s.phase k phase,
    s.sent++((s.phase k).target.map fun url => (k,url)).toList⟩)

end Dispatches

/-- A call as a caller of the flag: it wins when it puts up the marker. -/
def Phase.view : Phase → CheckThenAct.Phase
  | .idle | .returned .noUrls => .idle
  | .checked => .checked
  | .returned .alreadyDelivered => .lost
  | .sending .. | .deadLettering .. | .counting .. | .returned .finished => .won

theorem Phase.view_next (urls : List (String × Nat)) : (Phase.next urls).view = .won := by
  cases urls <;> rfl

theorem Phase.view_of_target {phase : Phase} {url : String} (h : phase.target = some url) :
    phase.view = .won := by
  cases phase with
  | sending url urls attempt => rfl
  | _ => cases h

theorem Phase.view_checked {phase : Phase} : phase.view = .checked ↔ phase = .checked := by
  cases phase with
  | returned how => cases how <;> simp [view]
  | _ => simp [view]

section Advance
variable {cache : CacheHandle σ} {inv : σ → Prop} {contents : σ → CacheKey → Option String}
  {ttls : UInt64 → Prop} {c : Call DateTime σ}

theorem advance_idle (hc : cache.Healthy inv contents ttls) (hurls : c.dispatcher.urls≠[])
    {s : σ} (hs : inv s) :
    (c.advance cache .idle s).1 =
      if (contents s (dedupKey c.event.idempotencyKey)).isSome then .returned .alreadyDelivered
      else .checked := by
  have hget := (hc.get s (dedupKey c.event.idempotencyKey) hs).1
  rw [Call.advance,if_neg (by simpa using hurls)]
  cases hr : cache.getRaw (dedupKey c.event.idempotencyKey) s with
  | mk found t =>
    rw [hr] at hget
    simp only at hget
    subst hget
    cases contents s (dedupKey c.event.idempotencyKey) <;> rfl

theorem advance_checked (hc : cache.Healthy inv contents ttls)
    (ht' : ttls c.dispatcher.deduplicationTtl) {s : σ} (hs : inv s) :
    inv (c.advance cache .checked s).2 ∧
      (contents (c.advance cache .checked s).2 (dedupKey c.event.idempotencyKey)).isSome =
        true := by
  obtain ⟨_,hinv,hset⟩ := hc.set s (dedupKey c.event.idempotencyKey) "delivered"
    c.dispatcher.deduplicationTtl hs ht'
  rw [Call.advance]
  refine ⟨hinv,?_⟩
  rw [hset,Function.update_self]
  rfl

theorem advance_keeps (hc : cache.Healthy inv contents ttls) (ht : ttls DLQ_TTL) {phase : Phase}
    (hphase : phase≠.checked) {s : σ} (hs : inv s) (key : String) :
    inv (c.advance cache phase s).2 ∧
      contents (c.advance cache phase s).2 (dedupKey key) = contents s (dedupKey key) := by
  cases phase with
  | checked => exact absurd rfl hphase
  | returned how => exact ⟨hs,rfl⟩
  | idle =>
    obtain ⟨_,hinv,hsame⟩ := hc.get s (dedupKey c.event.idempotencyKey) hs
    rw [Call.advance]
    split
    · exact ⟨hs,rfl⟩
    · split
      · next hr =>
        rw [hr] at hinv hsame
        exact ⟨hinv,congrFun hsame _⟩
      · next hr =>
        rw [hr] at hinv hsame
        exact ⟨hinv,congrFun hsame _⟩
  | sending url urls attempt =>
    rw [Call.advance]
    split
    · exact ⟨hs,rfl⟩
    · split <;> exact ⟨hs,rfl⟩
  | deadLettering url urls lastError =>
    obtain ⟨_,hinv,hset⟩ := hc.set s (dlqKey url.1) ((c.dispatcher.deadLetter url.1
      (.ofEvent c.event) lastError (c.script.failedAt url.2)).serialize c.dispatcher.serde)
      DLQ_TTL hs ht
    refine ⟨hinv,?_⟩
    rw [Call.advance,hset,Function.update_of_ne (dlqKey_ne_dedupKey url.1 key).symm]
  | counting urls left =>
    cases left with
    | nil => exact ⟨hs,rfl⟩
    | cons url left =>
      obtain ⟨_,hinv,hsame⟩ := hc.get s (dlqKey url) hs
      exact ⟨hinv,congrFun hsame _⟩

theorem advance_won {phase : Phase} (hphase : phase.view = .won) (s : σ) :
    (c.advance cache phase s).1.view = .won := by
  cases phase with
  | idle | checked => cases hphase
  | returned how => exact hphase
  | sending url urls attempt =>
    rw [Call.advance]
    split
    · exact Phase.view_next urls
    · split <;> rfl
  | deadLettering url urls lastError => rfl
  | counting urls left =>
    cases left with
    | nil => exact Phase.view_next urls
    | cons url left => rfl

theorem advance_to_checked {phase : Phase} {s : σ}
    (h : (c.advance cache phase s).1 = .checked) : c.dispatcher.urls≠[] := by
  cases phase with
  | idle =>
    intro hurls
    rw [Call.advance,if_pos (by simp [hurls])] at h
    cases h
  | checked =>
    intro hurls
    simp only [Call.advance,hurls] at h
    cases h
  | sending url urls attempt =>
    rw [Call.advance] at h
    split at h
    · cases urls <;> cases h
    · split at h <;> cases h
  | deadLettering url urls lastError => cases h
  | counting urls left => cases left <;> cases urls <;> cases h
  | returned how => cases h

theorem advance_to_won {phase : Phase} {s : σ} (h : (c.advance cache phase s).1.view = .won) :
    phase.view = .won ∨ phase = .checked := by
  cases phase with
  | idle =>
    rw [Call.advance] at h
    split at h
    · cases h
    · split at h <;> cases h
  | checked => exact Or.inr rfl
  | sending url urls attempt => exact Or.inl rfl
  | deadLettering url urls lastError => exact Or.inl rfl
  | counting urls left => exact Or.inl rfl
  | returned how => exact Or.inl h

end Advance

namespace Dispatches
section Schedule
variable {κ : Type} {cache : CacheHandle σ} {inv : σ → Prop}
  {contents : σ → CacheKey → Option String} {ttls : UInt64 → Prop} {c : κ → Call DateTime σ}
  {key : String}

def view (contents : σ → CacheKey → Option String) (key : String) (s : Dispatches κ σ) :
    CheckThenAct.State κ :=
  ⟨(contents s.store (dedupKey key)).isSome,Phase.view∘s.phase⟩

def turn (c : κ → Call DateTime σ) (k : κ) (s : Dispatches κ σ) : CheckThenAct.Step κ :=
  match s.phase k with
  | .idle => if (c k).dispatcher.urls.isEmpty then .pass else .check k
  | .checked => .act k
  | _ => .pass

theorem alone_iff (contents : σ → CacheKey → Option String) (key : String) (k : κ)
    (s : Dispatches κ σ) :
    s.alone c k ↔ CheckThenAct.alone (s.view contents key) (turn c k s) := by
  have hchecked : (∀ j, (s.view contents key).phase j≠.checked) ↔ ∀ j, s.phase j≠.checked :=
    forall_congr' fun j => not_congr Phase.view_checked
  rw [turn,alone]
  cases hk : s.phase k with
  | idle =>
    cases hurls : (c k).dispatcher.urls with
    | nil => simp [CheckThenAct.alone]
    | cons u us =>
      have hidle : (s.view contents key).phase k = .idle := congrArg Phase.view hk
      simp [CheckThenAct.alone,hidle,hchecked]
  | _ => simp [CheckThenAct.alone]

variable [DecidableEq κ]

theorem view_step_eq (cache : CacheHandle σ) (c : κ → Call DateTime σ) (k : κ)
    (s : Dispatches κ σ) :
    (step cache c k s).2.view contents key = (s.view contents key).move
      (contents ((c k).advance cache (s.phase k) s.store).2 (dedupKey key)).isSome k
      ((c k).advance cache (s.phase k) s.store).1.view := by
  simp [view,step,CheckThenAct.State.move,Function.comp_update]

theorem view_step (hc : cache.Healthy inv contents ttls) (ht : ttls DLQ_TTL)
    (ht' : ∀ k, ttls (c k).dispatcher.deduplicationTtl)
    (hkey : ∀ k, (c k).event.idempotencyKey = key) (k : κ) {s : Dispatches κ σ}
    (hs : inv s.store) :
    (CheckThenAct.step (turn c k s) (s.view contents key)).2 =
      (step cache c k s).2.view contents key := by
  have hphase : (s.view contents key).phase k = (s.phase k).view := rfl
  have same (hne : s.phase k≠.checked)
      (hview : ((c k).advance cache (s.phase k) s.store).1.view = (s.phase k).view) :
      s.view contents key = (step cache c k s).2.view contents key := by
    rw [view_step_eq,(advance_keeps hc ht hne hs key).2,hview,← hphase]
    exact (CheckThenAct.State.move_self _ k).symm
  rw [turn]
  cases hk : s.phase k with
  | idle =>
    rw [hk] at hphase same
    by_cases hurls : (c k).dispatcher.urls = []
    · simp only [hurls,List.isEmpty_nil,if_true]
      exact same (by simp) (by simp [Call.advance,hurls,Phase.view])
    · have hsome : (c k).dispatcher.urls.isEmpty = false := by simpa using hurls
      have hidle := advance_idle (c := c k) hc hurls hs
      rw [hkey k] at hidle
      simp only [hsome,Bool.false_eq_true,if_false,CheckThenAct.step,hphase,Phase.view,if_true]
      rw [view_step_eq,hk,(advance_keeps hc ht (by simp) hs key).2,hidle]
      split <;> simp_all [view,Phase.view]
  | checked =>
    have hmark := (advance_checked (c := c k) hc (ht' k) hs).2
    rw [hkey k] at hmark
    rw [hk] at hphase
    simp only [CheckThenAct.step,hphase,Phase.view,if_true]
    rw [view_step_eq,hk,hmark,Call.advance,Phase.view_next]
  | sending url urls attempt =>
    rw [hk] at same
    exact same (by simp) (advance_won rfl _)
  | deadLettering url urls lastError =>
    rw [hk] at same
    exact same (by simp) (advance_won rfl _)
  | counting urls left =>
    rw [hk] at same
    exact same (by simp) (advance_won rfl _)
  | returned how =>
    rw [hk] at same
    exact same (by simp) rfl

/-- What the record of the sends says about the calls: whoever has sent has put up the marker,
and whoever has put it up has sent or is about to. -/
structure Regular (c : κ → Call DateTime σ) (inv : σ → Prop) (s : Dispatches κ σ) : Prop where
  inv : inv s.store
  urls : ∀ k, s.phase k = .checked → (c k).dispatcher.urls≠[]
  sent : ∀ p∈s.sent, (s.phase p.1).view = .won
  won : ∀ k, (s.phase k).view = .won → (∃ url, (k,url)∈s.sent) ∨ (s.phase k).target.isSome = true

omit [DecidableEq κ] in
theorem regular_init {s : σ} (hs : inv s) : Regular c inv (init s : Dispatches κ σ) :=
  ⟨hs,by simp [init],by simp [init],by simp [init,Phase.view]⟩

theorem mem_sent_step {p : κ × String} {k : κ} {s : Dispatches κ σ} :
    p∈(step cache c k s).2.sent ↔ p∈s.sent ∨ p.1 = k ∧ (s.phase k).target = some p.2 := by
  obtain ⟨j,url⟩ := p
  simp [step,eq_comm,and_comm]

theorem phase_step (cache : CacheHandle σ) (c : κ → Call DateTime σ) (k j : κ)
    (s : Dispatches κ σ) : (step cache c k s).2.phase j =
      if j = k then ((c k).advance cache (s.phase k) s.store).1 else s.phase j :=
  Function.update_apply _ _ _ _

theorem Regular.sent_step {s : Dispatches κ σ} (h : Regular c inv s) {k : κ}
    {p : κ × String} (hp : p∈(step cache c k s).2.sent) :
    ((step cache c k s).2.phase p.1).view = .won := by
  have hwon : (s.phase p.1).view = .won := by
    obtain hold | ⟨heq,hurl⟩ := mem_sent_step.mp hp
    · exact h.sent p hold
    · rw [heq]
      exact Phase.view_of_target hurl
  rw [phase_step]
  split
  · next heq =>
    rw [heq] at hwon
    exact advance_won hwon _
  · exact hwon

/-- The call whose turn it is has sent, if it could; or it has just put up the marker and has
some URL to send to. -/
theorem Regular.won_step {s : Dispatches κ σ} (h : Regular c inv s) {k : κ}
    (hk : ((c k).advance cache (s.phase k) s.store).1.view = .won) :
    (∃ url, (k,url)∈(step cache c k s).2.sent) ∨
      ((c k).advance cache (s.phase k) s.store).1.target.isSome = true := by
  obtain hwon | hchecked := advance_to_won hk
  · obtain ⟨url,hurl⟩ | htarget := h.won k hwon
    · exact Or.inl ⟨url,mem_sent_step.mpr (Or.inl hurl)⟩
    · obtain ⟨url,hurl⟩ := Option.isSome_iff_exists.mp htarget
      exact Or.inl ⟨url,mem_sent_step.mpr (Or.inr ⟨rfl,hurl⟩)⟩
  · refine Or.inr ?_
    rw [hchecked,Call.advance]
    cases hurls : (c k).dispatcher.urls with
    | nil => exact absurd hurls (h.urls k hchecked)
    | cons u us => rfl

theorem Regular.step (hc : cache.Healthy inv contents ttls) (ht : ttls DLQ_TTL)
    (ht' : ∀ k, ttls (c k).dispatcher.deduplicationTtl) {s : Dispatches κ σ}
    (h : Regular c inv s) (k : κ) : Regular c inv (step cache c k s).2 := by
  refine ⟨?_,fun j hj => ?_,fun p hp => h.sent_step hp,fun j hj => ?_⟩
  · by_cases hk : s.phase k = .checked
    · simp only [Dispatches.step,hk]
      exact (advance_checked hc (ht' k) h.inv).1
    · exact (advance_keeps hc ht hk h.inv "").1
  · rw [phase_step] at hj
    split at hj
    · next heq =>
      rw [heq]
      exact advance_to_checked hj
    · exact h.urls j hj
  · rw [phase_step] at hj ⊢
    split at hj
    · next heq =>
      rw [if_pos heq,heq]
      exact h.won_step hj
    · next hne =>
      rw [if_neg hne]
      obtain ⟨url,hurl⟩ | htarget := h.won j hj
      · exact Or.inl ⟨url,mem_sent_step.mpr (Or.inl hurl)⟩
      · exact Or.inr htarget

omit [DecidableEq κ] in
/-- When nobody is about to send, those who have sent are those who have put up the marker. -/
theorem Regular.sender_iff {s : Dispatches κ σ} (h : Regular c inv s) {k : κ}
    (hk : (s.phase k).target = none) : (∃ url, (k,url)∈s.sent) ↔ (s.phase k).view = .won := by
  constructor
  · intro hsent
    obtain ⟨url,hurl⟩ := hsent
    exact h.sent _ hurl
  · intro hwon
    obtain hsent | htarget := h.won k hwon
    · exact hsent
    · simp [hk] at htarget

omit [DecidableEq κ] in
theorem Regular.oneSender {s : Dispatches κ σ} (h : Regular c inv s)
    (hone : CheckThenAct.AtMostOne (s.view contents key)) : s.OneSender :=
  fun p hp q hq => hone p.1 q.1 (h.sent p hp) (h.sent q hq)

omit [DecidableEq κ] in
theorem Regular.atMostOne {s : Dispatches κ σ} (h : Regular c inv s) (hdone : s.Returned)
    (hone : s.OneSender) : CheckThenAct.AtMostOne (s.view contents key) := by
  have hsent (k : κ) (hk : (s.view contents key).phase k = .won) : ∃ url, (k,url)∈s.sent := by
    refine (h.sender_iff ?_).mpr hk
    obtain ⟨how,hhow⟩ := hdone k
    rw [hhow]
    rfl
  intro i j hi hj
  obtain ⟨url,hurl⟩ := hsent i hi
  obtain ⟨url',hurl'⟩ := hsent j hj
  exact hone _ hurl _ hurl'

def viewed (cache : CacheHandle σ) (c : κ → Call DateTime σ) (s : σ) (schedule : List κ) :
    List (CheckThenAct.Step κ) :=
  Machine.trace (Dispatches.step cache c) (fun k s => [turn c k s]) schedule (init s)

theorem view_run (hc : cache.Healthy inv contents ttls) (ht : ttls DLQ_TTL)
    (ht' : ∀ k, ttls (c k).dispatcher.deduplicationTtl)
    (hkey : ∀ k, (c k).event.idempotencyKey = key) {s : σ} (hs : inv s) (schedule : List κ) :
    Machine.final CheckThenAct.step (viewed cache c s schedule)
        (CheckThenAct.start (contents s (dedupKey key)).isSome) =
        (Machine.final (Dispatches.step cache c) schedule (init s)).view contents key ∧
      (Machine.Along (Dispatches.step cache c) (alone c) schedule (init s) ↔
        Machine.Along CheckThenAct.step CheckThenAct.alone (viewed cache c s schedule)
          (CheckThenAct.start (contents s (dedupKey key)).isSome)) :=
  Machine.along_simulation (I := Regular c inv) (view contents key) (turn c)
    (fun k _ h => h.step hc ht ht' k) (fun k _ h => view_step hc ht ht' hkey k h.inv)
    (fun k s _ => alone_iff contents key k s) schedule (regular_init hs)

/-- Dispatches of one key over a healthy cache: as long as no call checks between the check and the
marker of another, at most one sends; when all have returned, only then. -/
theorem one_sender_iff (hc : cache.Healthy inv contents ttls) (ht : ttls DLQ_TTL)
    (ht' : ∀ k, ttls (c k).dispatcher.deduplicationTtl)
    (hkey : ∀ k, (c k).event.idempotencyKey = key) {s : σ} (hs : inv s) (schedule : List κ) :
    (Machine.Along (step cache c) (alone c) schedule (init s) →
        OneSender (Machine.final (step cache c) schedule (init s))) ∧
      (Returned (Machine.final (step cache c) schedule (init s)) →
        (OneSender (Machine.final (step cache c) schedule (init s)) ↔
          Machine.Along (step cache c) (alone c) schedule (init s))) := by
  have hregular : Regular c inv (Machine.final (step cache c) schedule (init s)) :=
    Machine.final_invariant (fun k _ h => h.step hc ht ht' k) schedule _ (regular_init hs)
  obtain ⟨hview,halone⟩ := view_run hc ht ht' hkey hs schedule
  have hstart := CheckThenAct.orderly_start (κ := κ) (contents s (dedupKey key)).isSome
  refine ⟨fun hrun => ?_,fun hdone => ?_⟩
  · have horderly := Machine.along_invariant (fun _ _ h hx => CheckThenAct.Orderly.step h hx)
      (halone.mp hrun) hstart
    rw [hview] at horderly
    exact hregular.oneSender horderly.atMostOne
  · have hidle : CheckThenAct.Idle
        ((Machine.final (Dispatches.step cache c) schedule (init s)).view contents key) := by
      intro k hk
      obtain ⟨how,hhow⟩ := hdone k
      rw [Phase.view_checked.mp hk] at hhow
      cases hhow
    rw [halone,← CheckThenAct.atMostOne_iff _ hstart (hview ▸ hidle),hview]
    exact ⟨hregular.atMostOne hdone,hregular.oneSender⟩

end Schedule

/-- Two calls one after the other: the second finds the marker of the first. -/
theorem one_sender_in_turn :
    let env : Nat → Surroundings := fun _ => ⟨0,0,0,true,true,true,0,0⟩
    let event : Audit.Event String := ⟨"e1","doc-1","DocumentRegistered",.null,
      "2024-01-01T00:00:00Z",1,"issuer","k1",.contract,none⟩
    let c : Bool → Call String (CacheBackend × Nat) := fun _ =>
      ⟨WebhookDispatcher.withCache (.new ["https://a"] 0 (knowing [])) (backendHandle env),event,
        ⟨fun _ _ => .ok (),fun _ => "2024-01-01T00:00:01Z"⟩⟩
    OneSender (Machine.final (step (backendHandle env) c) [false,false,false,true]
      (init (.inMemory InMemoryCache.new,0))) := by
  intro env event c
  have hlong : ∀ ttl, 0 < ttl.toNat → LongTtl env .fallback ttl :=
    fun ttl httl => longTtl_still httl (by decide)
  refine ((one_sender_iff (backend_healthy env (fun _ => ⟨rfl,rfl,rfl⟩) .fallback)
    (hlong _ (by decide)) (fun _ => hlong _ (by decide))
    (fun _ => show event.idempotencyKey = "k1" from rfl) (steady_new env 0) _).2 ?_).mpr ?_
  · intro k
    cases k
    · exact ⟨.finished,by decide +kernel⟩
    · exact ⟨.alreadyDelivered,by decide +kernel⟩
  · refine ⟨fun _ _ j h => (by cases h),?_,?_,?_,trivial⟩
    · exact fun h => absurd h (by decide +kernel)
    · exact fun h => absurd h (by decide +kernel)
    · intro _ _ j
      cases j <;> decide +kernel

/-- Both calls check before either puts up the marker, and both send. -/
theorem two_senders :
    let env : Nat → Surroundings := fun _ => ⟨0,0,0,true,true,true,0,0⟩
    let event : Audit.Event String := ⟨"e1","doc-1","DocumentRegistered",.null,
      "2024-01-01T00:00:00Z",1,"issuer","k1",.contract,none⟩
    let c : Bool → Call String (CacheBackend × Nat) := fun _ =>
      ⟨WebhookDispatcher.withCache (.new ["https://a"] 0 (knowing [])) (backendHandle env),event,
        ⟨fun _ _ => .ok (),fun _ => "2024-01-01T00:00:01Z"⟩⟩
    ¬∀ schedule, OneSender (Machine.final (step (backendHandle env) c) schedule
      (init (.inMemory InMemoryCache.new,0))) := by
  intro env event c hall
  have hsent : (Machine.final (step (backendHandle env) c) [false,true,false,true,false,true]
      (init (.inMemory InMemoryCache.new,0))).sent = [(false,"https://a"),(true,"https://a")] := by
    decide +kernel
  have hone := hall [false,true,false,true,false,true]
  rw [OneSender,hsent] at hone
  cases hone (false,"https://a") (by simp) (true,"https://a") (by simp)

end Dispatches

end ProofStell.Webhook
