import ProofStell.Limiter.Tiers

/-! What the calls of one caller do to the global quota all issuers share: queries of the
status, and requests that the issuer's own tier rejects. -/
namespace ProofStell.Limiter.PerIssuerRateLimiter
variable {γ : Type} (G : Governor γ)

def Call.isCheck : Call → Bool
  | .check .. => true
  | _ => false

def Call.isStatus : Call → Bool
  | .status .. => true
  | _ => false

def exhausted (s : PerIssuerRateLimiter γ) (call : Call) : Bool :=
  match call with
  | .status _ _ instant => G.cells s.global instant == 0
  | _ => true

def checkAnswers (l : List Call) (s : PerIssuerRateLimiter γ) : List (Call × Answer) :=
  (Machine.outputs (step G) l s).filter (·.1.isCheck)

/-- Deleting the status calls changes no answer of a check. -/
def StatusUnseen (l : List Call) (s : PerIssuerRateLimiter γ) : Prop :=
  checkAnswers G l s = checkAnswers G (l.filter fun call => !call.isStatus) s

theorem checkAnswers_append (u v : List Call) (s : PerIssuerRateLimiter γ) :
    checkAnswers G (u++v) s =
      checkAnswers G u s++checkAnswers G v (Machine.final (step G) u s) := by
  rw [checkAnswers,Machine.outputs_append,List.filter_append]
  rfl

def row (s : PerIssuerRateLimiter γ) (issuer : String) (instant : Nat) (now : UInt64) :
    List Call :=
  List.replicate (G.cells s.global instant) (.check issuer instant instant now)

section
variable {G} (hG : G.TakesOne)
include hG

theorem keeps_of_empty {g : γ} {instant : Nat} (h : G.cells g instant = 0) :
    (G.check instant g).2 = g := by
  cases hc : (G.check instant g).1 with
  | error e => exact hG.keeps instant g e hc
  | ok u =>
    have hpos := (hG.passes instant g).mp hc
    omega

/-- A status call that finds the quota exhausted leaves no trace. -/
theorem status_exhausted {s : PerIssuerRateLimiter γ} {issuer : String} {now : UInt64}
    {instant : Nat} (h : G.cells s.global instant = 0) :
    (step G (.status issuer now instant) s).2 = s := by
  simp only [step,status,keeps_of_empty hG h]

theorem purge_exhausted {l : List Call} {s : PerIssuerRateLimiter γ}
    (h : Machine.Along (step G) (fun s call => exhausted G s call = true) l s) :
    Machine.final (step G) (l.filter fun call => !call.isStatus) s = Machine.final (step G) l s ∧
      StatusUnseen G l s := by
  induction l generalizing s with
  | nil => exact ⟨rfl,rfl⟩
  | cons call l ih =>
    obtain ⟨hhead,htail⟩ := h
    obtain ⟨hfinal,hunseen⟩ := ih htail
    rw [StatusUnseen,checkAnswers,checkAnswers] at hunseen ⊢
    cases call with
    | check issuer instant later now =>
      simp only [Call.isStatus,Bool.not_false,List.filter_cons_of_pos,Machine.final,
        Machine.outputs,Call.isCheck]
      exact ⟨hfinal,congrArg _ hunseen⟩
    | status issuer now instant =>
      have hempty : G.cells s.global instant = 0 := by simpa [exhausted] using hhead
      rw [status_exhausted hG hempty] at hfinal hunseen
      simp only [Call.isStatus,Bool.not_true,Bool.false_eq_true,not_false_eq_true,
        List.filter_cons_of_neg,Machine.final,Machine.outputs,Call.isCheck,
        status_exhausted hG hempty]
      exact ⟨hfinal,hunseen⟩
    | evictStale now =>
      simp only [Call.isStatus,Bool.not_false,List.filter_cons_of_pos,Machine.final,
        Machine.outputs,Call.isCheck,Bool.false_eq_true,not_false_eq_true,
        List.filter_cons_of_neg]
      exact ⟨hfinal,hunseen⟩

theorem check_cells (s : PerIssuerRateLimiter γ) (issuer : String) (instant later : Nat)
    (now : UInt64) :
    (G.cells s.global instant = 0 ∧
      ∃ wait, s.check G issuer instant later now = (.error (.globalExhausted wait),s)) ∨
    (G.cells (s.check G issuer instant later now).2.global instant+1 = G.cells s.global instant ∧
      ∀ wait, (s.check G issuer instant later now).1≠.error (.globalExhausted wait)) := by
  obtain ⟨earliest,herr,heq⟩ | ⟨hok,hafter,hanswer⟩ := s.check_spec G issuer instant later now
  · have hempty : G.cells s.global instant = 0 := by
      by_contra hne
      have hpass := (hG.passes instant s.global).mpr (by omega)
      rw [herr] at hpass
      cases hpass
    rw [heq,keeps_of_empty hG hempty]
    exact Or.inl ⟨hempty,_,rfl⟩
  · right
    constructor
    · rw [hafter]
      exact hG.takes instant s.global hok
    · intro wait
      obtain ⟨_,h⟩ | ⟨_,wait',h⟩ := hanswer <;> simp [h]

def passesGlobal : Call × Answer → Bool
  | (_,.checked (.error (.globalExhausted _))) => false
  | _ => true

theorem checks_in_a_row (n : Nat) (issuer : String) (instant : Nat) (now : UInt64)
    (s : PerIssuerRateLimiter γ) :
    (checkAnswers G (List.replicate n (.check issuer instant instant now)) s).countP passesGlobal =
      min n (G.cells s.global instant) := by
  induction n generalizing s with
  | zero => simp [checkAnswers,Machine.outputs]
  | succ n ih =>
    have htail := ih (s.check G issuer instant instant now).2
    rw [checkAnswers] at htail
    rw [checkAnswers,List.replicate_succ,Machine.outputs,List.filter_cons_of_pos rfl,
      List.countP_cons]
    simp only [step,htail]
    obtain ⟨hempty,wait,heq⟩ | ⟨hcells,hanswer⟩ := check_cells hG s issuer instant instant now
    · simp [heq,passesGlobal,hempty]
    · have hpass : passesGlobal (.check issuer instant instant now,
          .checked (s.check G issuer instant instant now).1) = true := by
        cases hr : (s.check G issuer instant instant now).1 with
        | ok _ => rfl
        | error e =>
          cases e with
          | issuerExhausted _ _ => rfl
          | globalExhausted wait => exact absurd hr (hanswer wait)
      simp only [hpass,if_true]
      omega

/-- A status call that takes a cell is seen by as many checks at that instant as there were
cells. -/
theorem status_seen {s : PerIssuerRateLimiter γ} {issuer : String} {now : UInt64} {instant : Nat}
    (hpos : 0 < G.cells s.global instant) :
    checkAnswers G (.status issuer now instant::row G s issuer instant now) s≠
      checkAnswers G (row G s issuer instant now) s := by
  intro heq
  have htakes := hG.takes instant s.global ((hG.passes instant s.global).mpr hpos)
  have hskip : checkAnswers G (.status issuer now instant::row G s issuer instant now) s =
      checkAnswers G (row G s issuer instant now) (step G (.status issuer now instant) s).2 := by
    rw [checkAnswers,Machine.outputs,List.filter_cons_of_neg (by simp [Call.isCheck])]
    rfl
  have hcount := congrArg (List.countP passesGlobal) heq
  rw [hskip,row,checks_in_a_row hG,checks_in_a_row hG,show
    (step G (.status issuer now instant) s).2.global = (G.check instant s.global).2 from rfl]
    at hcount
  omega

/-- Status calls go unseen by every check, however the run goes on, exactly if each of them
finds the global quota exhausted. -/
theorem status_unseen_iff (config : RateLimitConfig) (l : List Call) :
    (∀ n e, (∀ call∈e, call.isStatus = false) → StatusUnseen G (l.take n++e) (new G config)) ↔
      Machine.Along (step G) (fun s call => exhausted G s call = true) l (new G config) := by
  constructor
  · intro h
    induction l using List.reverseRecOn with
    | nil => trivial
    | append_singleton l x ih =>
      have hbefore := ih fun n e he => by
        have hcut := h (min n l.length) e he
        rwa [List.take_append_of_le_length (Nat.min_le_right _ _),← List.take_eq_take_min] at hcut
      refine (Machine.along_snoc l x _).mpr ⟨hbefore,?_⟩
      cases x with
      | check issuer instant later now => rfl
      | evictStale now => rfl
      | status issuer now instant =>
        obtain ⟨hfinal,hunseen⟩ := purge_exhausted hG hbefore
        simp only [exhausted,beq_iff_eq]
        by_contra hne
        have hcut := h (l.length+1) (row G (Machine.final (step G) l (new G config)) issuer
          instant now) fun call hcall => by rw [List.eq_of_mem_replicate hcall]; rfl
        rw [List.take_of_length_le (by simp),List.append_assoc,List.singleton_append,StatusUnseen,
          List.filter_append,List.filter_cons_of_neg (by simp [Call.isStatus]),row,
          List.filter_replicate_of_pos rfl,checkAnswers_append,checkAnswers_append,hfinal,
          ← hunseen] at hcut
        exact status_seen hG (by omega) (List.append_cancel_left hcut)
  · intro h n e he
    refine (purge_exhausted hG ((Machine.along_append _ _ _).mpr ⟨?_,?_⟩)).2
    · rw [← List.take_append_drop n l] at h
      exact ((Machine.along_append _ _ _).mp h).1
    · refine Machine.along_of_forall (fun call hcall s => ?_) _
      have hnot := he call hcall
      cases call with
      | status issuer now instant => cases hnot
      | _ => rfl

end

theorem status_unseen_after_the_last_cell :
    let config := { RateLimitConfig.default with globalPerSecond := 1, globalBurst := 1 }
    StatusUnseen gcra ([.check "a" 0 0 0,.status "a" 0 0,.check "b" 0 0 0].take 3++[])
      (new gcra config) :=
  (status_unseen_iff gcra_takesOne _ _).mpr (by decide +kernel) 3 [] (by simp)

/-- The only cell of the second goes to a status call, and the request of another issuer is
rejected. -/
theorem status_takes_the_last_cell :
    ¬∀ (config : RateLimitConfig) (l : List Call), StatusUnseen gcra l (new gcra config) := by
  intro hall
  have hseen := hall { RateLimitConfig.default with globalPerSecond := 1, globalBurst := 1 }
    [.status "a" 0 0,.check "b" 0 0 0]
  revert hseen
  rw [StatusUnseen]
  decide +kernel

def available (s : PerIssuerRateLimiter γ) (issuer : String) (now : UInt64) : Nat :=
  ((s.bucketFor issuer now).tokensAt now).toNat

/-- No tier holds fewer tokens in `t` than in `s`, at the same readings of the clocks. -/
def NoFewer (instant : Nat) (now : UInt64) (s t : PerIssuerRateLimiter γ) : Prop :=
  G.cells s.global instant ≤ G.cells t.global instant ∧
    ∀ issuer, s.available issuer now ≤ t.available issuer now

/-- A rejected check consumes nothing, and one that its own tier rejects costs no other issuer
a request at that time. -/
def RejectionIsFree (issuer : String) (instant later : Nat) (now : UInt64)
    (s : PerIssuerRateLimiter γ) : Prop :=
  (∀ err, (s.check G issuer instant later now).1 = .error err →
    NoFewer G instant now s (s.check G issuer instant later now).2) ∧
  ∀ wait, (s.check G issuer instant later now).1 = .error (.issuerExhausted issuer wait) →
    ∀ other, other≠issuer → (s.check G other instant later now).1 = .ok () →
      ((s.check G issuer instant later now).2.check G other instant later now).1 = .ok ()

section
variable {G} (hG : G.TakesOne)
include hG

/-- A rejected request is free exactly if the global tier rejects it or the issuer has a
token: the global cell of a request its own tier rejects is gone. -/
theorem rejection_is_free_iff (s : PerIssuerRateLimiter γ) (issuer : String)
    (instant later : Nat) (now : UInt64) :
    s.RejectionIsFree G issuer instant later now ↔
      G.cells s.global instant = 0 ∨ 1000 ≤ s.available issuer now := by
  have hgranted := (s.bucketFor issuer now).granted_iff now
  constructor
  · intro hfree
    by_contra hnot
    obtain ⟨hcell,htoken⟩ := not_or.mp hnot
    obtain ⟨hempty,_⟩ | ⟨hcells,_⟩ := check_cells hG s issuer instant later now
    · exact hcell hempty
    · obtain ⟨earliest,herr,heq⟩ | ⟨_,_,hanswer⟩ := s.check_spec G issuer instant later now
      · have hless := (hfree.1 _ (congrArg Prod.fst heq)).1
        omega
      · obtain ⟨htrue,_⟩ | ⟨_,wait,herr⟩ := hanswer
        · exact htoken (hgranted.mp htrue)
        · have hless := (hfree.1 _ herr).1
          omega
  · intro hcond
    obtain ⟨_,wait,heq⟩ | ⟨hcells,hglobal⟩ := check_cells hG s issuer instant later now
    · -- the global tier rejects before anything is touched
      rw [RejectionIsFree,heq]
      refine ⟨fun _ _ => ⟨Nat.le_refl _,fun _ => Nat.le_refl _⟩,?_⟩
      intro wait' herr
      cases herr
    · have hok : (s.check G issuer instant later now).1 = .ok () := by
        obtain ⟨earliest,_,heq⟩ | ⟨_,_,hanswer⟩ := s.check_spec G issuer instant later now
        · exact absurd (congrArg Prod.fst heq) (hglobal _)
        · obtain ⟨_,hok⟩ | ⟨hfalse,_⟩ := hanswer
          · exact hok
          · obtain hempty | htoken := hcond
            · omega
            · rw [hgranted.mpr htoken] at hfalse
              cases hfalse
      constructor
      · intro err herr
        rw [hok] at herr
        cases herr
      · intro wait herr
        rw [hok] at herr
        cases herr

end

theorem rejection_is_free_before_the_last_token :
    let s : PerIssuerRateLimiter Gcra := new gcra RateLimitConfig.default
    s.RejectionIsFree gcra "a" 0 0 7 :=
  (rejection_is_free_iff gcra_takesOne _ _ _ _ _).mpr (Or.inr (by decide +kernel))

/-- Issuer `a` has used its only token; its rejected request takes the last global cell from
issuer `b`. -/
theorem rejected_request_takes_a_global_cell :
    ¬∀ (config : RateLimitConfig) (l : List Call) (issuer : String) (instant later : Nat)
      (now : UInt64),
      (Machine.final (step gcra) l (new gcra config)).RejectionIsFree gcra issuer instant later
        now := by
  intro hall
  have hfree := (hall ⟨1,2,1,1,3600,0⟩ [.check "a" 0 0 7] "a" 0 0 7).2 1000000000
    (by decide +kernel) "b" (by decide) (by decide +kernel)
  revert hfree
  decide +kernel

end ProofStell.Limiter.PerIssuerRateLimiter
