import ProofStell.Contract.Registry
import Mathlib.Data.List.Infix

/-! The life of one document over whole runs: it is created once, its identity
never changes, and it can only be revoked, once, by its issuer. -/
namespace ProofStell.Contract
open Transact
variable {Address Symbol : Type}

def Call.Registers (c : Call Address Symbol) (issuer owner : Address) (h : Hash) : Prop :=
  c = .registerDocument issuer owner h ∨
    ∃ ds, c = .batchRegisterDocuments issuer ds ∧ (⟨owner,h⟩ : DocumentInfo Address)∈ds

def Call.Revokes (c : Call Address Symbol) (issuer : Address) (h : Hash) : Prop :=
  c = .revokeDocument issuer h ∨ ∃ hs, c = .batchRevokeDocuments issuer hs ∧ h∈hs

theorem register_mem_actions {c : Call Address Symbol} {issuer owner : Address} {h : Hash}
    {time now : UInt64} (hm : .register issuer owner h time∈c.actions now) :
    time = now ∧ c.issuer = some issuer ∧ c.Registers issuer owner h := by
  cases c with
  | registerDocument i o g =>
    simp only [Call.actions,List.mem_singleton,DocAction.register.injEq] at hm
    obtain ⟨rfl,rfl,rfl,rfl⟩ := hm
    exact ⟨rfl,rfl,Or.inl rfl⟩
  | batchRegisterDocuments i ds =>
    simp only [Call.actions,List.mem_map,DocAction.register.injEq] at hm
    obtain ⟨d,hd,rfl,rfl,rfl,rfl⟩ := hm
    exact ⟨rfl,rfl,Or.inr ⟨ds,rfl,hd⟩⟩
  | batchRevokeDocuments i hs => simp [Call.actions] at hm
  | _ => simp [Call.actions] at hm

theorem revoke_mem_actions {c : Call Address Symbol} {issuer : Address} {h : Hash} {now : UInt64}
    (hm : .revoke issuer h∈c.actions now) :
    c.issuer = some issuer ∧ c.Revokes issuer h := by
  cases c with
  | revokeDocument i g =>
    simp only [Call.actions,List.mem_singleton,DocAction.revoke.injEq] at hm
    obtain ⟨rfl,rfl⟩ := hm
    exact ⟨rfl,Or.inl rfl⟩
  | batchRevokeDocuments i hs =>
    simp only [Call.actions,List.mem_map,DocAction.revoke.injEq] at hm
    obtain ⟨g,hg,rfl,rfl⟩ := hm
    exact ⟨rfl,Or.inr ⟨hs,rfl,hg⟩⟩
  | batchRegisterDocuments i ds => simp [Call.actions] at hm
  | _ => simp [Call.actions] at hm

/-- A record whose story continues that of `r` keeps the identity of `r`, and a
revoked record has no continuation but itself. -/
theorem story_prefix {h : Hash} {r : DocumentRecord Address} {o : Option (DocumentRecord Address)}
    (hp : story h (some r)<+:story h o) :
    ∃ s, o = some s ∧ s.issuer = r.issuer ∧ s.owner = r.owner ∧ s.timestamp = r.timestamp ∧
      (r.status = .revoked → s = r) := by
  obtain ⟨ri,ro,rt,rs⟩ := r
  cases o with
  | none => simp [story] at hp
  | some s =>
    obtain ⟨si,so,st,ss⟩ := s
    cases rs <;> cases ss <;> simp_all [story,List.cons_prefix_cons]

variable [DecidableEq Address] [DecidableEq Symbol]

def documentAt (wasm : Hash) (l : List (Invocation Address Symbol)) (n : Nat) (h : Hash) :
    Option (DocumentRecord Address) :=
  docs (stateAt wasm l n) h

theorem story_succ (wasm : Hash) {l : List (Invocation Address Symbol)} {n : Nat}
    {i : Invocation Address Symbol} (hi : l[n]? = some i) (h : Hash) :
    story h (documentAt wasm l (n+1) h) =
      story h (documentAt wasm l n h)++onHash h (committed i (stateAt wasm l n)) := by
  rw [documentAt,stateAt_succ hi]
  exact story_applyAll h (committed_refines i _).1

theorem story_mono (wasm : Hash) (l : List (Invocation Address Symbol)) (h : Hash) {m n : Nat}
    (hmn : m ≤ n) : story h (documentAt wasm l m h)<+:story h (documentAt wasm l n h) := by
  induction n, hmn using Nat.le_induction with
  | base => exact List.prefix_rfl
  | succ n _ ih =>
    cases hi : l[n]? with
    | none =>
      have hs : documentAt wasm l (n+1) h = documentAt wasm l n h := by
        simp [documentAt,stateAt_past hi]
      rw [hs]
      exact ih
    | some i =>
      rw [story_succ wasm hi h]
      exact ih.trans (List.prefix_append _ _)

structure Creates (i : Invocation Address Symbol) (w : World Address Symbol) (h : Hash)
    (r : DocumentRecord Address) : Prop where
  absent : docs w h = none
  present : docs (invoke i w).2 h≠none
  succeeds : Succeeds i w
  authorised : i.env.auth r.issuer = true
  registers : i.call.Registers r.issuer r.owner h
  time : i.env.timestamp = r.timestamp

structure RevokedBy (i : Invocation Address Symbol) (w : World Address Symbol) (issuer : Address)
    (h : Hash) : Prop where
  succeeds : Succeeds i w
  authorised : i.env.auth issuer = true
  revokes : i.call.Revokes issuer h

/-- Where an absent record appears, a registration of it was committed. -/
theorem creates_of_appears {wasm : Hash} {l : List (Invocation Address Symbol)} {n : Nat}
    {h : Hash} {r : DocumentRecord Address} (h0 : documentAt wasm l n h = none)
    (h1 : documentAt wasm l (n+1) h = some r) :
    ∃ i, l[n]? = some i ∧ Creates i (stateAt wasm l n) h r := by
  cases hi : l[n]? with
  | none =>
    have hs : documentAt wasm l (n+1) h = documentAt wasm l n h := by
      simp [documentAt,stateAt_past hi]
    rw [hs,h0] at h1
    cases h1
  | some i =>
    have hst := story_succ wasm hi h
    rw [h0,h1] at hst
    have hm : DocAction.register r.issuer r.owner h r.timestamp∈committed i (stateAt wasm l n) := by
      have hin : DocAction.register r.issuer r.owner h r.timestamp∈story h (some r) :=
        List.mem_cons_self
      rw [hst] at hin
      exact mem_of_onHash (by simpa [story] using hin)
    obtain ⟨hok,ha,hauth⟩ := mem_committed hm
    obtain ⟨ht,hiss,hreg⟩ := register_mem_actions ha
    refine ⟨i,rfl,h0,?_,hok,hauth _ hiss,hreg,ht.symm⟩
    have hd : docs (invoke i (stateAt wasm l n)).2 h = some r := by
      rw [← stateAt_succ hi]
      exact h1
    simp [hd]

theorem revokedBy_of_changes {wasm : Hash} {l : List (Invocation Address Symbol)} {n : Nat}
    {h : Hash} {r s : DocumentRecord Address} (h0 : documentAt wasm l n h = some r)
    (h1 : documentAt wasm l (n+1) h = some s) (hne : r.status≠s.status) :
    r.status = .active ∧ s.status = .revoked ∧
      ∃ i, l[n]? = some i ∧ RevokedBy i (stateAt wasm l n) r.issuer h := by
  have hp := story_mono wasm l h (Nat.le_succ n)
  rw [h0,Nat.succ_eq_add_one,h1] at hp
  obtain ⟨s',hs,hsi,_,_,hsame⟩ := story_prefix hp
  cases hs
  have hr : r.status = .active := by
    cases hr : r.status with
    | active => rfl
    | revoked => exact absurd (by rw [hsame hr]) hne
  have hs : s.status = .revoked := by
    cases hs : s.status with
    | active => exact absurd (hr.trans hs.symm) hne
    | revoked => rfl
  refine ⟨hr,hs,?_⟩
  cases hi : l[n]? with
  | none =>
    have he : documentAt wasm l (n+1) h = documentAt wasm l n h := by
      simp [documentAt,stateAt_past hi]
    rw [h0,h1] at he
    cases he
    exact absurd rfl hne
  | some i =>
    have hst := story_succ wasm hi h
    rw [h0,h1] at hst
    have hm : DocAction.revoke r.issuer h∈committed i (stateAt wasm l n) := by
      have hin : DocAction.revoke r.issuer h∈story h (some s) := by simp [story,hs,hsi]
      rw [hst] at hin
      exact mem_of_onHash (by simpa [story,hr] using hin)
    obtain ⟨hok,ha,hauth⟩ := mem_committed hm
    obtain ⟨hiss,hrev⟩ := revoke_mem_actions ha
    exact ⟨i,rfl,hok,hauth _ hiss,hrev⟩

/-- The status of `h` differs before and after invocation `n` of the run. -/
def StatusChanges (wasm : Hash) (l : List (Invocation Address Symbol)) (h : Hash) (n : Nat) :
    Prop :=
  ∃ r s, documentAt wasm l n h = some r ∧ documentAt wasm l (n+1) h = some s ∧ r.status≠s.status

structure Lifecycle (wasm : Hash) (l : List (Invocation Address Symbol)) (h : Hash) : Prop where
  persists : ∀ m n r, m ≤ n → documentAt wasm l m h = some r →
    ∃ s, documentAt wasm l n h = some s ∧
      s.issuer = r.issuer ∧ s.owner = r.owner ∧ s.timestamp = r.timestamp
  created_once : ∀ n r, documentAt wasm l n h = some r →
    ∃! k, k < n ∧ ∃ i, l[k]? = some i ∧ Creates i (stateAt wasm l k) h r
  revoked_only : ∀ n r s, documentAt wasm l n h = some r → documentAt wasm l (n+1) h = some s →
    r.status≠s.status → r.status = .active ∧ s.status = .revoked ∧
      ∃ i, l[n]? = some i ∧ RevokedBy i (stateAt wasm l n) r.issuer h
  changes_once : ∀ m n, StatusChanges wasm l h m → StatusChanges wasm l h n → m = n

theorem documentAt_persists {wasm : Hash} {l : List (Invocation Address Symbol)} {h : Hash}
    {m n : Nat} {r : DocumentRecord Address} (hmn : m ≤ n) (hr : documentAt wasm l m h = some r) :
    ∃ s, documentAt wasm l n h = some s ∧ s.issuer = r.issuer ∧ s.owner = r.owner ∧
      s.timestamp = r.timestamp ∧ (r.status = .revoked → s = r) := by
  have hp := story_mono wasm l h hmn
  rw [hr] at hp
  exact story_prefix hp

theorem exists_creation {wasm : Hash} {l : List (Invocation Address Symbol)} {h : Hash} {n : Nat}
    {r : DocumentRecord Address} (hr : documentAt wasm l n h = some r) :
    ∃ k, k < n ∧ ∃ i, l[k]? = some i ∧ Creates i (stateAt wasm l k) h r := by
  induction n generalizing r with
  | zero => simp [documentAt,stateAt,run,Machine.final,docs,World.initial] at hr
  | succ n ih =>
    cases h0 : documentAt wasm l n h with
    | none =>
      obtain ⟨i,hi,hc⟩ := creates_of_appears h0 hr
      exact ⟨n,Nat.lt_succ_self n,i,hi,hc⟩
    | some q =>
      obtain ⟨s,hs,hsi,hso,hst,_⟩ := documentAt_persists (Nat.le_succ n) h0
      rw [Nat.succ_eq_add_one,hr] at hs
      cases hs
      obtain ⟨k,hk,i,hi,hc⟩ := ih h0
      refine ⟨k,Nat.lt_succ_of_lt hk,i,hi,hc.absent,hc.present,hc.succeeds,?_,?_,?_⟩
      · rw [hsi]
        exact hc.authorised
      · rw [hsi,hso]
        exact hc.registers
      · rw [hst]
        exact hc.time

theorem creation_unique {wasm : Hash} {l : List (Invocation Address Symbol)} {h : Hash}
    {j k : Nat} {i i' : Invocation Address Symbol} {r : DocumentRecord Address}
    (hi : l[j]? = some i) (hc : Creates i (stateAt wasm l j) h r)
    (hc' : Creates i' (stateAt wasm l k) h r) : ¬j < k := by
  intro hjk
  obtain ⟨q,hq⟩ := Option.ne_none_iff_exists'.mp hc.present
  have hp : documentAt wasm l (j+1) h = some q := by
    rw [documentAt,stateAt_succ hi]
    exact hq
  obtain ⟨s,hs,_⟩ := documentAt_persists hjk hp
  have hn : documentAt wasm l k h = none := hc'.absent
  rw [hn] at hs
  cases hs

theorem statusChanges_unique {wasm : Hash} {l : List (Invocation Address Symbol)} {h : Hash}
    {m n : Nat} (hm : StatusChanges wasm l h m) (hn : StatusChanges wasm l h n) : ¬m < n := by
  intro hmn
  obtain ⟨r,s,h0,h1,hne⟩ := hm
  obtain ⟨r',s',h0',h1',hne'⟩ := hn
  obtain ⟨_,hs,_⟩ := revokedBy_of_changes h0 h1 hne
  obtain ⟨q,hq,_,_,_,hsame⟩ := documentAt_persists hmn h1
  rw [h0'] at hq
  cases hq
  obtain ⟨hact,_⟩ := revokedBy_of_changes h0' h1' hne'
  rw [hsame hs,hs] at hact
  cases hact

/-- Every document of every run of a fresh contract has this life, whoever calls
what, at whatever ledger times and with whatever failures in between. -/
theorem document_lifecycle (wasm : Hash) (l : List (Invocation Address Symbol)) (h : Hash) :
    Lifecycle wasm l h where
  persists := by
    intro m n r hmn hr
    obtain ⟨s,hs,hsi,hso,hst,_⟩ := documentAt_persists hmn hr
    exact ⟨s,hs,hsi,hso,hst⟩
  created_once := by
    intro n r hr
    obtain ⟨k,hk,i,hi,hc⟩ := exists_creation hr
    refine ⟨k,⟨hk,i,hi,hc⟩,?_⟩
    intro j ⟨_,i',hi',hc'⟩
    have h1 := creation_unique hi hc hc'
    have h2 := creation_unique hi' hc' hc
    omega
  revoked_only := fun _ _ _ h0 h1 hne => revokedBy_of_changes h0 h1 hne
  changes_once := by
    intro m n hm hn
    have h1 := statusChanges_unique hm hn
    have h2 := statusChanges_unique hn hm
    omega

end ProofStell.Contract
