import Mathlib.Data.List.Infix
import ProofStell.Audit.ContractEvents

/-! Idempotency keys of contract events: five fields joined with colons, three of them free
text. -/
namespace ProofStell.Audit

theorem split_at_last {α : Type*} {c : α} {u v u' v' : List α} (hv : c∉v) (hv' : c∉v')
    (h : u++c::v = u'++c::v') : u = u' ∧ v = v' := by
  obtain ⟨w,hw,hrest⟩ | ⟨w,hw,hrest⟩ := List.append_eq_append_iff.mp h
  · cases w with
    | nil => exact ⟨by simpa using hw.symm,by simpa using hrest⟩
    | cons d w =>
      have hmem : c∈v := by
        rw [(List.cons.inj hrest).2]
        simp
      exact absurd hmem hv
  · cases w with
    | nil => exact ⟨by simpa using hw,by simpa using hrest.symm⟩
    | cons d w =>
      have hmem : c∈v' := by
        rw [(List.cons.inj hrest).2]
        simp
      exact absurd hmem hv'

theorem rest_ends {α : Type*} {c : α} {u v w : List α} (h : u++[c] = v++w) (hw : w≠[]) :
    ∃ w', w = w'++[c] ∧ u = v++w' := by
  obtain rfl | ⟨w',d,rfl⟩ := List.eq_nil_or_concat w
  · exact absurd rfl hw
  · rw [List.concat_eq_append,← List.append_assoc] at h
    obtain ⟨hfront,hlast⟩ := List.append_inj' h rfl
    rw [List.concat_eq_append,hlast]
    exact ⟨w',rfl,hfront⟩

def digits (n : Nat) : List Char := (toString n).toList

theorem colon_not_mem_digits (n : Nat) : ':'∉digits n := by
  intro h
  have hdigit : ':'.isDigit = true :=
    Nat.isDigit_of_mem_toDigits (b := 10) (n := n) (by decide) (by decide)
      (by simpa [digits] using h)
  revert hdigit
  decide

theorem digits_injective {m n : Nat} (h : digits m = digits n) : m = n := by
  have hread (k : Nat) : Nat.ofDigitChars 10 (digits k) 0 = k := by
    rw [digits,show (toString k).toList = Nat.toDigits 10 k from Nat.toList_repr]
    exact Nat.ofDigitChars_ten_toDigits
  rw [← hread m,h,hread]

def heading (transactionHash : List Char) (ledger index : Nat) : List Char :=
  transactionHash++ ':'::(digits ledger++ ':'::(digits index++[':']))

theorem heading_injective {tx tx' : List Char} {ledger ledger' index index' : Nat}
    (h : heading tx ledger index = heading tx' ledger' index') :
    tx = tx' ∧ ledger = ledger' ∧ index = index' := by
  have hsplit (tx : List Char) (ledger index : Nat) : heading tx ledger index =
      (tx++ ':'::digits ledger)++ ':'::digits index++[':'] := by simp [heading]
  rw [hsplit,hsplit,List.append_left_inj] at h
  obtain ⟨hfront,hindex⟩ :=
    split_at_last (colon_not_mem_digits index) (colon_not_mem_digits index') h
  obtain ⟨htx,hledger⟩ :=
    split_at_last (colon_not_mem_digits ledger) (colon_not_mem_digits ledger') hfront
  exact ⟨htx,digits_injective hledger,digits_injective hindex⟩

theorem heading_unique {tx tx' agg agg' ty ty' : List Char} {ledger ledger' index index' : Nat}
    (hagg : ':'∉agg) (hty : ':'∉ty)
    (hshort : ¬heading tx' ledger' index' <+: tx++ ':'::(digits ledger++[':']))
    (h : heading tx ledger index++(agg++ ':'::ty) =
      heading tx' ledger' index'++(agg'++ ':'::ty')) :
    heading tx ledger index = heading tx' ledger' index' ∧ agg = agg' ∧ ty = ty' := by
  have hends (tx : List Char) (ledger index : Nat) : heading tx ledger index =
      tx++ ':'::(digits ledger++ ':'::digits index)++[':'] := by simp [heading]
  have hsame (hrest : agg++ ':'::ty = agg'++ ':'::ty') : agg = agg' ∧ ty = ty' := by
    obtain ⟨hfirst,_,hlast⟩ := (List.append_cons_inj_of_notMem hagg hty).mp hrest
    exact ⟨hfirst,hlast⟩
  obtain ⟨w,hw,hrest⟩ | ⟨w,hw,hrest⟩ := List.append_eq_append_iff.mp h
  · by_cases hnil : w = []
    · rw [hnil,List.append_nil] at hw
      rw [hnil,List.nil_append] at hrest
      exact ⟨hw.symm,hsame hrest⟩
    · -- the colon at the end of the longer heading would be a second one in `agg:ty`
      rw [hends tx' ledger' index'] at hw
      obtain ⟨w',rfl,_⟩ := rest_ends hw hnil
      have hcount := congrArg (List.count ':') hrest
      simp only [List.count_append,List.count_cons_self,List.count_nil,
        List.count_eq_zero_of_not_mem hagg,List.count_eq_zero_of_not_mem hty] at hcount
      omega
  · by_cases hnil : w = []
    · rw [hnil,List.append_nil] at hw
      rw [hnil,List.nil_append] at hrest
      exact ⟨hw,hsame hrest.symm⟩
    · rw [hends tx ledger index] at hw
      obtain ⟨w',_,hfront⟩ := rest_ends hw hnil
      have hparts : (tx++ ':'::(digits ledger++[':']))++digits index =
          heading tx' ledger' index'++w' := by simpa using hfront
      obtain ⟨v,hv,hleft⟩ | ⟨v,hv,_⟩ := List.append_eq_append_iff.mp hparts
      · by_cases hv' : v = []
        · rw [hv',List.append_nil] at hv
          exact absurd (hv ▸ List.prefix_refl _) hshort
        · rw [hends tx' ledger' index'] at hv
          obtain ⟨v',rfl,_⟩ := rest_ends hv hv'
          have hmem : ':'∈digits index := by
            rw [hleft]
            simp
          exact absurd hmem (colon_not_mem_digits index)
      · exact absurd ⟨v,hv.symm⟩ hshort

theorem key_toList (context : ContractEventContext) (aggregateId eventType : String) :
    (context.idempotencyKey aggregateId eventType).toList = "contract:".toList ++
      (heading context.transactionHash.toList context.ledgerSequence.toNat
        context.eventIndex.toNat ++ (aggregateId.toList++ ':'::eventType.toList)) := by
  change ("contract:"++context.transactionHash++":"++toString context.ledgerSequence.toNat++":"++
    toString context.eventIndex.toNat++":"++aggregateId++":"++eventType).toList = _
  simp [heading,digits]

theorem key_eq_iff {c c' : ContractEventContext} {agg ty agg' ty' : String} :
    c'.idempotencyKey agg' ty' = c.idempotencyKey agg ty ↔
      heading c'.transactionHash.toList c'.ledgerSequence.toNat c'.eventIndex.toNat ++
          (agg'.toList++ ':'::ty'.toList) =
        heading c.transactionHash.toList c.ledgerSequence.toNat c.eventIndex.toNat ++
          (agg.toList++ ':'::ty.toList) := by
  rw [← String.toList_inj,key_toList,key_toList,List.append_right_inj]

/-- Neither the aggregate id nor the event type has a colon, and the transaction hash with the
ledger does not begin like the heading of another event. -/
def Unambiguous (context : ContractEventContext) (aggregateId eventType : String) : Prop :=
  ':'∉aggregateId.toList ∧ ':'∉eventType.toList ∧
    ∀ (tx : String) (ledger : UInt64) (index : UInt32), isBlank tx = false → ledger≠0 →
      ¬heading tx.toList ledger.toNat index.toNat <+:
        context.transactionHash.toList++ ':'::(digits context.ledgerSequence.toNat++[':'])

/-- A transaction hash without colons cannot be taken for a heading. -/
theorem unambiguous_of_no_colon {context : ContractEventContext} {aggregateId eventType : String}
    (htx : ':'∉context.transactionHash.toList) (hagg : ':'∉aggregateId.toList)
    (hty : ':'∉eventType.toList) : Unambiguous context aggregateId eventType := by
  refine ⟨hagg,hty,fun tx ledger index _ _ hshort => ?_⟩
  have hcount := hshort.sublist.count_le ':'
  simp only [heading,List.count_append,List.count_cons_self,List.count_nil,
    List.count_eq_zero_of_not_mem htx,
    List.count_eq_zero_of_not_mem (colon_not_mem_digits _)] at hcount
  omega

def SameFields (c c' : ContractEventContext) (agg ty agg' ty' : String) : Prop :=
  c'.transactionHash = c.transactionHash ∧ c'.ledgerSequence = c.ledgerSequence ∧
    c'.eventIndex = c.eventIndex ∧ agg' = agg ∧ ty' = ty

theorem sameFields_of_unambiguous {c c' : ContractEventContext} {agg ty agg' ty' : String}
    (hvalid : c'.validate = .ok ()) (h : Unambiguous c agg ty)
    (hkey : c'.idempotencyKey agg' ty' = c.idempotencyKey agg ty) :
    SameFields c c' agg ty agg' ty' := by
  obtain ⟨hagg,hty,hshort⟩ := h
  obtain ⟨hblank,_,hledger⟩ := (ContractEventContext.validate_ok_iff c').mp hvalid
  obtain ⟨hheading,hagg',hty'⟩ :=
    heading_unique hagg hty (hshort _ _ _ hblank hledger) (key_eq_iff.mp hkey).symm
  obtain ⟨htx,hnumber,hindex⟩ := heading_injective hheading
  exact ⟨(String.toList_inj.mp htx).symm,(UInt64.toNat_inj.mp hnumber).symm,
    (UInt32.toNat_inj.mp hindex).symm,(String.toList_inj.mp hagg').symm,
    (String.toList_inj.mp hty').symm⟩

theorem unambiguous_of_sameFields {c : ContractEventContext} {agg ty : String}
    (hvalid : c.validate = .ok ())
    (h : ∀ (c' : ContractEventContext) (agg' ty' : String), c'.validate = .ok () →
      c'.idempotencyKey agg' ty' = c.idempotencyKey agg ty → SameFields c c' agg ty agg' ty') :
    Unambiguous c agg ty := by
  refine ⟨fun hmem => ?_,fun hmem => ?_,?_⟩
  · obtain ⟨u,v,huv⟩ := List.append_of_mem hmem
    obtain ⟨_,_,_,hagg,_⟩ := h c (String.ofList u) (String.ofList (v++ ':'::ty.toList)) hvalid
      (key_eq_iff.mpr (by simp [huv]))
    have hlength := congrArg (fun s : String => s.toList.length) hagg
    simp only [String.toList_ofList,huv,List.length_append,List.length_cons] at hlength
    omega
  · obtain ⟨u,v,huv⟩ := List.append_of_mem hmem
    obtain ⟨_,_,_,_,hty⟩ := h c (String.ofList (agg.toList++ ':'::u)) (String.ofList v) hvalid
      (key_eq_iff.mpr (by simp [huv]))
    have hlength := congrArg (fun s : String => s.toList.length) hty
    simp only [String.toList_ofList,huv,List.length_append,List.length_cons] at hlength
    omega
  · intro tx ledger index hblank hledger hshort
    obtain ⟨w,hw⟩ := hshort
    obtain ⟨_,hdocument,_⟩ := (ContractEventContext.validate_ok_iff c).mp hvalid
    have hvalid' : (⟨tx,ledger,index,c.documentHash⟩ : ContractEventContext).validate = .ok () :=
      (ContractEventContext.validate_ok_iff _).mpr ⟨hblank,hdocument,hledger⟩
    have hfront := congrArg
      (· ++ (digits c.eventIndex.toNat++ ':'::(agg.toList++ ':'::ty.toList))) hw
    obtain ⟨_,_,_,_,hty⟩ := h _ (String.ofList (w++digits c.eventIndex.toNat))
      (String.ofList (agg.toList++ ':'::ty.toList)) hvalid'
      (key_eq_iff.mpr (by simpa [heading] using hfront))
    have hlength := congrArg (fun s : String => s.toList.length) hty
    simp only [String.toList_ofList,List.length_append,List.length_cons] at hlength
    omega

/-- The key of an event stands for its five fields alone exactly if they are unambiguous. -/
theorem key_identifies_iff {DateTime : Type} {id aggregateId eventType actor : String}
    {timestamp : DateTime} {data : Json.Value} {context : ContractEventContext}
    {event : Event DateTime}
    (h : Event.fromContractEvent id timestamp aggregateId eventType data actor context =
      .ok event) :
    (∀ (id' : String) (timestamp' : DateTime) (aggregateId' eventType' : String)
      (data' : Json.Value) (actor' : String) (context' : ContractEventContext)
      (event' : Event DateTime), Event.fromContractEvent id' timestamp' aggregateId' eventType'
        data' actor' context' = .ok event' →
      event'.idempotencyKey = event.idempotencyKey →
      SameFields context context' aggregateId eventType aggregateId' eventType') ↔
    Unambiguous context aggregateId eventType := by
  obtain ⟨hvalid,_,_,_,hkey⟩ := fromContractEvent_ok h
  rw [hkey]
  constructor
  · intro hall
    refine unambiguous_of_sameFields hvalid fun c' agg' ty' hvalid' hsame => ?_
    exact hall id timestamp agg' ty' data actor c' _
      (by rw [Event.fromContractEvent,hvalid']) hsame
  · intro hunambiguous id' timestamp' agg' ty' data' actor' c' event' h' hsame
    obtain ⟨hvalid',_,_,_,hkey'⟩ := fromContractEvent_ok h'
    exact sameFields_of_unambiguous hvalid' hunambiguous (hkey'.symm.trans hsame)

theorem key_identifies_a_plain_event :
    let context : ContractEventContext := ⟨"tx",1,0,"document"⟩
    context.idempotencyKey "other" "type"≠context.idempotencyKey "aggregate" "type" := by
  intro context hsame
  have hvalid : context.validate = .ok () := by decide +kernel
  have hmade (agg : String) : Event.fromContractEvent "id" () agg "type" .null "actor" context =
      .ok ⟨"id",agg,"type",.null,(),context.sequence,"actor",context.idempotencyKey agg "type",
        .contract,some context.metadata⟩ := by
    rw [Event.fromContractEvent,hvalid]
  have hplain : Unambiguous context "aggregate" "type" :=
    unambiguous_of_no_colon (by decide +kernel) (by decide +kernel) (by decide +kernel)
  have hfields := (key_identifies_iff (hmade "aggregate")).mpr hplain _ _ _ _ _ _ _ _
    (hmade "other") hsame
  exact absurd hfields.2.2.2.1 (by decide)

/-- The same key for aggregate `a:b` with type `c` and for aggregate `a` with type `b:c`. -/
theorem keys_collide :
    ¬∀ (agg ty agg' ty' : String) (c c' : ContractEventContext) (event event' : Event Unit),
      Event.fromContractEvent "id" () agg ty .null "actor" c = .ok event →
      Event.fromContractEvent "id" () agg' ty' .null "actor" c' = .ok event' →
      event'.idempotencyKey = event.idempotencyKey → SameFields c c' agg ty agg' ty' := by
  intro hall
  have hvalid : (⟨"tx",1,0,"document"⟩ : ContractEventContext).validate = .ok () := by
    decide +kernel
  have hsame := hall "a:b" "c" "a" "b:c" ⟨"tx",1,0,"document"⟩ ⟨"tx",1,0,"document"⟩ _ _
    (by rw [Event.fromContractEvent,hvalid]) (by rw [Event.fromContractEvent,hvalid])
    (by decide +kernel)
  exact absurd hsame.2.2.2.1 (by decide)

end ProofStell.Audit
