import ProofStell.Contract.Registry

/-! Batches as all-or-nothing folds of the single operations. -/
namespace ProofStell.Contract
open Transact
variable {Address Symbol : Type}

def SameRegistry (w v : World Address Symbol) : Prop := docs w = docs v ∧ w.events = v.events

theorem sameRegistry_storage {w v : World Address Symbol} (h : SameRegistry w v) (g : Hash) :
    w.storage (.document g) = v.storage (.document g) :=
  congrFun h.1 g

def Registrable (o : Option (DocumentRecord Address)) : Prop := o = none

def Revocable (issuer : Address) (o : Option (DocumentRecord Address)) : Prop :=
  ∃ r, o = some r ∧ r.status = .active ∧ r.issuer = issuer

/-- An operation on one hash that succeeds exactly on a legal record, touches no
other document, and leaves behind a record on which no item is legal any more. -/
structure SpendsHash {α : Type} (body : α → Exec Address Symbol (DocumentRecord Address))
    (key : α → Hash) (Legal : Option (DocumentRecord Address) → Prop) : Prop where
  ok_iff : ∀ a w, (∃ r v, body a w = (.ok r,v)) ↔ Legal (docs w (key a))
  others : ∀ a w r v, body a w = (.ok r,v) → ∀ h, h≠key a → docs v h = docs w h
  spent : ∀ a w r v, body a w = (.ok r,v) → ¬Legal (docs v (key a))

section
variable {α : Type} {body : α → Exec Address Symbol (DocumentRecord Address)} {key : α → Hash}
  {Legal : Option (DocumentRecord Address) → Prop}

/-- The loop succeeds exactly when the hashes are distinct and all are legal at the start. -/
theorem SpendsHash.each_ok_iff (hb : SpendsHash body key Legal) (l : List α)
    (w : World Address Symbol) :
    (∃ rs v, Exec.each body l w = (.ok rs,v)) ↔
      (l.map key).Nodup ∧ ∀ a∈l, Legal (docs w (key a)) := by
  induction l generalizing w with
  | nil => simp
  | cons a l ih =>
    constructor
    · intro hyp
      obtain ⟨rs,v,h⟩ := hyp
      obtain ⟨r,u,rs',hr,hrs,_⟩ := Exec.each_cons_ok.mp h
      obtain ⟨hn,hl⟩ := (ih u).mp ⟨rs',v,hrs⟩
      have hfresh : ∀ b∈l, key b≠key a := by
        intro b hbl he
        have hlegal := hl b hbl
        rw [he] at hlegal
        exact hb.spent a w r u hr hlegal
      refine ⟨?_,?_⟩
      · rw [List.map_cons,List.nodup_cons]
        refine ⟨?_,hn⟩
        intro hm
        obtain ⟨b,hbl,he⟩ := List.mem_map.mp hm
        exact hfresh b hbl he
      · intro b hbl
        cases hbl with
        | head => exact (hb.ok_iff a w).mp ⟨r,u,hr⟩
        | tail _ hbl =>
          rw [← hb.others a w r u hr (key b) (hfresh b hbl)]
          exact hl b hbl
    · intro hyp
      obtain ⟨hn,hl⟩ := hyp
      rw [List.map_cons,List.nodup_cons] at hn
      obtain ⟨r,u,hr⟩ := (hb.ok_iff a w).mpr (hl a List.mem_cons_self)
      have hl' : ∀ b∈l, Legal (docs u (key b)) := by
        intro b hbl
        have hne : key b≠key a := fun he => hn.1 (he ▸ List.mem_map_of_mem hbl)
        rw [hb.others a w r u hr (key b) hne]
        exact hl b (List.mem_cons_of_mem a hbl)
      obtain ⟨rs,v,hrs⟩ := (ih u).mpr ⟨hn.2,hl'⟩
      exact ⟨r::rs,v,Exec.each_cons_ok.mpr ⟨r,u,rs,hr,hrs,rfl⟩⟩

theorem SpendsHash.each_others (hb : SpendsHash body key Legal) {l : List α}
    {w v : World Address Symbol} {rs : List (DocumentRecord Address)}
    (h : Exec.each body l w = (.ok rs,v)) {g : Hash} (hg : g∉l.map key) :
    docs v g = docs w g := by
  revert hg
  refine Exec.each_induct (P := fun l w _ v => g∉l.map key → docs v g = docs w g) ?_ ?_ h
  · intro w _
    rfl
  · intro a l w r u rs v hr ih hg
    rw [List.map_cons,List.mem_cons,not_or] at hg
    rw [ih hg.2,hb.others a w r u hr g hg.1]

structure AllOrNothing (batch : Exec Address Symbol (List (DocumentRecord Address)))
    (body : α → Exec Address Symbol (DocumentRecord Address)) (key : α → Hash)
    (Legal : Option (DocumentRecord Address) → Prop) (l : List α) (w : World Address Symbol) :
    Prop where
  ok_iff : (∃ rs v, batch w = (.ok rs,v)) ↔
    (1 ≤ l.length ∧ l.length≤20) ∧ (l.map key).Nodup ∧ ∀ a∈l, Legal (docs w (key a))
  ok_folds : ∀ rs v, batch w = (.ok rs,v) →
    (∃ t, Exec.each body l w = (.ok rs,t) ∧ docs v = docs t ∧ v.events = t.events) ∧
      ∀ h, h∉l.map key → docs v h = docs w h
  error_first : ∀ e v, batch w = (.error e,v) →
    (l = [] ∧ e = .error .batchEmpty) ∨ (20 < l.length ∧ e = .error .batchTooLarge) ∨
      ((1 ≤ l.length ∧ l.length≤20) ∧ ∃ before a after rs u, l = before++a::after ∧
        Exec.each body before w = (.ok rs,u) ∧ (body a u).1 = .error e)
  error_rollback : ∀ e v, Exec.commit batch w = (.error e,v) →
    docs v = docs w ∧ v.events = w.events
end

variable [DecidableEq Address] [DecidableEq Symbol]

theorem sameRegistry_write {w v : World Address Symbol} (h : SameRegistry w v) (g : Hash)
    (r : DocumentRecord Address) (e : Event Address) :
    SameRegistry ((w.put (.document g) (some r)).emit e)
      ((v.put (.document g) (some r)).emit e) := by
  refine ⟨?_,by simp [h.2]⟩
  rw [docs_put,docs_put,h.1]

theorem setDocument_lockstep (g : Hash) (r : DocumentRecord Address) (e : Event Address)
    {α : Type} (a : α) :
    Exec.Lockstep SameRegistry
      (do setKey (.document g) r; publish e; return a : Exec Address Symbol α) :=
  fun _ _ h => ⟨rfl,sameRegistry_write h g r e⟩

theorem registerBody_lockstep (env : Env Address) (issuer owner : Address) (g : Hash) :
    Exec.Lockstep SameRegistry (registerBody env issuer owner g : Exec Address Symbol _) := by
  refine Exec.Lockstep.bind ?_ fun taken => ?_
  · exact Exec.lockstep_read fun w v h => by rw [sameRegistry_storage h g]
  · exact (Exec.lockstep_require _ _ _).bind fun _ => setDocument_lockstep g _ _ _

theorem revokeBody_lockstep (issuer : Address) (g : Hash) :
    Exec.Lockstep SameRegistry (revokeBody issuer g : Exec Address Symbol _) := by
  refine Exec.Lockstep.bind ?_ fun stored => ?_
  · exact Exec.lockstep_read fun w v h => sameRegistry_storage h g
  · refine (Exec.lockstep_demand _ _ _).bind fun record => ?_
    refine (Exec.lockstep_require _ _ _).bind fun _ => ?_
    exact (Exec.lockstep_require _ _ _).bind fun _ => setDocument_lockstep g _ _ _

theorem registerBody_spends (env : Env Address) (issuer : Address) :
    SpendsHash (fun d : DocumentInfo Address =>
        (registerBody env issuer d.owner d.documentHash : Exec Address Symbol _))
      DocumentInfo.documentHash Registrable where
  ok_iff := by
    intro d w
    constructor
    · intro hyp
      obtain ⟨r,v,h⟩ := hyp
      exact (registerBody_ok.mp h).1
    · intro h
      exact ⟨_,_,registerBody_ok.mpr ⟨h,rfl,rfl⟩⟩
  others := by
    intro d w r v h g hg
    obtain ⟨_,_,rfl⟩ := registerBody_ok.mp h
    rw [docs_put,Function.update_of_ne hg]
  spent := by
    intro d w r v h
    obtain ⟨_,_,rfl⟩ := registerBody_ok.mp h
    rw [docs_put,Function.update_self]
    simp [Registrable]

theorem revokeBody_spends (issuer : Address) :
    SpendsHash (revokeBody issuer : Hash → Exec Address Symbol _) id (Revocable issuer) where
  ok_iff := by
    intro g w
    constructor
    · intro hyp
      obtain ⟨r,v,h⟩ := hyp
      obtain ⟨old,ho,hi,ht,_⟩ := revokeBody_ok.mp h
      exact ⟨old,ho,ht,hi⟩
    · intro hyp
      obtain ⟨old,ho,ht,hi⟩ := hyp
      exact ⟨_,_,revokeBody_ok.mpr ⟨old,ho,hi,ht,rfl,rfl⟩⟩
  others := by
    intro g w r v h k hk
    simp only [id] at hk
    obtain ⟨_,_,_,_,_,rfl⟩ := revokeBody_ok.mp h
    rw [docs_put,Function.update_of_ne hk]
  spent := by
    intro g w r v h
    obtain ⟨old,_,_,_,rfl,rfl⟩ := revokeBody_ok.mp h
    simp only [id]
    rw [docs_put,Function.update_self]
    simp [Revocable]

/-- A gated loop over a hash-spending body is all or nothing. -/
theorem gated_all_or_nothing {α : Type} {env : Env Address} {issuer : Address}
    {body : α → Exec Address Symbol (DocumentRecord Address)} {key : α → Hash}
    {Legal : Option (DocumentRecord Address) → Prop} (hb : SpendsHash body key Legal)
    (hstep : ∀ a, Exec.Lockstep SameRegistry (body a)) (l : List α) {w : World Address Symbol}
    (hauth : env.auth issuer = true) (hrate : (checkRateLimit env issuer issuer w).1 = .ok ()) :
    AllOrNothing
      (do requireAuth env issuer
          checkRateLimit env issuer issuer
          Exec.require (!l.isEmpty) (.error .batchEmpty)
          Exec.require (l.length ≤ MAX_BATCH_SIZE) (.error .batchTooLarge)
          Exec.each body l)
      body key Legal l w := by
  obtain ⟨u,hu⟩ : ∃ u, checkRateLimit env issuer issuer w = (.ok (),u) :=
    ⟨_,Prod.ext hrate rfl⟩
  obtain ⟨hd,he⟩ := checkRateLimit_docs hu
  have hsame : SameRegistry w u := ⟨hd.symm,he.symm⟩
  -- past the gate the batch is the sized loop, run in the charged state
  have gate : (do
      requireAuth env issuer
      checkRateLimit env issuer issuer
      Exec.require (!l.isEmpty) (.error .batchEmpty)
      Exec.require (l.length ≤ MAX_BATCH_SIZE) (.error .batchTooLarge)
      Exec.each body l : Exec Address Symbol _) w = (do
      Exec.require (!l.isEmpty) (.error .batchEmpty)
      Exec.require (l.length ≤ MAX_BATCH_SIZE) (.error .batchTooLarge)
      Exec.each body l : Exec Address Symbol _) u := by
    rw [requireAuth,hauth,Exec.require_true,Exec.pure_bind,Exec.bind_of_ok hu]
  constructor
  · rw [gate]
    have hiff := hb.each_ok_iff l u
    rw [hd] at hiff
    rw [← hiff]
    constructor
    · intro hyp
      obtain ⟨rs,v,h⟩ := hyp
      obtain ⟨hne,hlen,hl⟩ := sized_ok.mp h
      exact ⟨⟨List.length_pos_iff.mpr hne,hlen⟩,rs,v,hl⟩
    · intro hyp
      obtain ⟨⟨hpos,hlen⟩,rs,v,hl⟩ := hyp
      exact ⟨rs,v,sized_ok.mpr ⟨List.length_pos_iff.mp hpos,hlen,hl⟩⟩
  · intro rs v h
    rw [gate] at h
    obtain ⟨_,_,hl⟩ := sized_ok.mp h
    obtain ⟨ho,hr⟩ := Exec.Lockstep.each (fun a _ => hstep a) w u hsame
    rw [hl] at ho hr
    refine ⟨⟨(Exec.each body l w).2,Prod.ext ho rfl,hr.1.symm,hr.2.symm⟩,?_⟩
    intro g hg
    rw [hb.each_others hl hg,hd]
  · intro e v h
    rw [gate] at h
    obtain hnil | hbig | ⟨hsize,hl⟩ := sized_error h
    · exact Or.inl hnil
    · exact Or.inr (Or.inl hbig)
    · obtain ⟨before,a,after,rs,t,hsplit,hrs,ha⟩ := Exec.each_error.mp hl
      obtain ⟨ho,hr⟩ := Exec.Lockstep.each (fun a _ => hstep a) w u hsame
      rw [hrs] at ho hr
      obtain ⟨ho',_⟩ := hstep a _ t hr
      rw [ha] at ho'
      exact Or.inr (Or.inr
        ⟨hsize,before,a,after,rs,(Exec.each body before w).2,hsplit,Prod.ext ho rfl,ho'⟩)
  · intro e v h
    obtain ⟨_,rfl⟩ := Exec.commit_error.mp h
    exact ⟨rfl,rfl⟩

/-- Both batch calls are all-or-nothing folds of their single operations, in every
state in which the issuer has authorised the call and passes the rate-limit check. -/
theorem batches_all_or_nothing (env : Env Address) (issuer : Address)
    (ds : List (DocumentInfo Address)) (hs : List Hash) (w : World Address Symbol)
    (hauth : env.auth issuer = true) (hrate : (checkRateLimit env issuer issuer w).1 = .ok ()) :
    AllOrNothing (batchRegisterDocuments env issuer ds)
        (fun d => registerBody env issuer d.owner d.documentHash)
        DocumentInfo.documentHash Registrable ds w ∧
      AllOrNothing (batchRevokeDocuments env issuer hs) (revokeBody issuer) id
        (Revocable issuer) hs w := by
  constructor
  · have h := gated_all_or_nothing (registerBody_spends env issuer)
      (fun d => registerBody_lockstep env issuer d.owner d.documentHash) ds hauth hrate
    rw [← batchRegisterLoop_start env issuer ds] at h
    exact h
  · have h := gated_all_or_nothing (revokeBody_spends issuer) (revokeBody_lockstep issuer) hs
      hauth hrate
    rw [← batchRevokeLoop_start issuer hs] at h
    exact h

/-- Two documents, one of them twice, in a fresh contract with the default limits. -/
theorem batches_all_or_nothing_fresh :
    let env : Env Nat := ⟨7,fun _ => true,fun _ => true⟩
    let w : World Nat Nat := World.initial Nat Nat (Vector.replicate 32 0)
    let a : DocumentInfo Nat := ⟨1,Vector.replicate 32 1⟩
    let b : DocumentInfo Nat := ⟨2,Vector.replicate 32 2⟩
    (checkRateLimit env 0 0 w).1 = .ok () ∧
      AllOrNothing (batchRegisterDocuments env 0 [a,b,a])
        (fun d => registerBody env 0 d.owner d.documentHash)
        DocumentInfo.documentHash Registrable [a,b,a] w ∧
      AllOrNothing (batchRevokeDocuments env 0 [a.documentHash]) (revokeBody 0) id
        (Revocable 0) [a.documentHash] w := by
  intro env w a b
  have hrate : (checkRateLimit env 0 0 w).1 = .ok () := by decide +kernel
  exact ⟨hrate,batches_all_or_nothing env 0 [a,b,a] [a.documentHash] w rfl hrate⟩

end ProofStell.Contract
