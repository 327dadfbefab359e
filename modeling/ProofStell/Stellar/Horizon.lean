import ProofStell.Hash.Bytes
import ProofStell.Lib.Base64
import ProofStell.Lib.Json
import ProofStell.Stellar.Client

/-! What `parse_horizon_transaction` accepts: the first record of the response whose memo
carries the expected hash, as text or as the base64 of its bytes. -/
namespace ProofStell.Stellar
open Hash

structure HorizonTransaction where
  id : String
  createdAt : Option String
  memo : Option String
  memoType : Option String
  deriving DecidableEq, Repr

/-- Only `memo` and `memo_type` have a default. -/
def HorizonTransaction.ofJson (v : Json.Value) : Option HorizonTransaction := do
  let fields ← Json.asRecord ["id","created_at","memo","memo_type"] 2 v
  let id ← Json.required "id" Json.asString fields
  let createdAt ← Json.optional "created_at" Json.asString fields
  let memo ← Json.optional "memo" Json.asString fields
  let memoType ← Json.optional "memo_type" Json.asString fields
  return ⟨id,createdAt,memo,memoType⟩

def horizonRecords (v : Json.Value) : Option (List HorizonTransaction) := do
  let fields ← Json.asRecord ["_embedded"] 0 v
  let embedded ← Json.required "_embedded" (Json.asRecord ["records"] 0) fields
  let records ← Json.required "records" Json.asItems embedded
  records.mapM HorizonTransaction.ofJson

def toAsciiLowercase (b : UInt8) : UInt8 := if 65 ≤ b && b ≤ 90 then b+32 else b

def eqIgnoreAsciiCase (s t : String) : Bool :=
  (asBytes s).map toAsciiLowercase == (asBytes t).map toAsciiLowercase

/-- The crates the parser calls: base64, `chrono` (the Unix time of an RFC 3339 text) and
Unicode lowercase. -/
structure Crates where
  base64 : List UInt8 → String
  rfc3339 : String → Option Int64
  lowercase : CaseMapping

variable (crates : Crates)

def memoMatches (expectedHash : String) (tx : HorizonTransaction) : Bool :=
  let memo := tx.memo.getD ""
  -- both steps may fail, and `ok()` drops their errors
  let expectedHashB64 := match CanonicalHash.new expectedHash with
    | .ok c => (c.toStellarMemoBase64 crates.base64 crates.lowercase).toOption
    | .error _ => none
  match tx.memoType with
  | some "text" => eqIgnoreAsciiCase memo expectedHash
  | some "hash" => (expectedHashB64.map (· == memo)).getD false
  | _ => false

def toRecord (tx : HorizonTransaction) : TransactionRecord :=
  ⟨tx.id,(tx.createdAt.bind crates.rfc3339).getD 0,true⟩

def firstMatch (records : List HorizonTransaction) (expectedHash : String) :
    Option HorizonTransaction :=
  records.find? (memoMatches crates expectedHash)

/-- `body` is the response's JSON, if it has any. -/
def parseHorizonTransaction (body : Option Json.Value) (expectedHash : String) :
    Except Unit (Option TransactionRecord) :=
  match body.bind horizonRecords with
  | none => .error ()
  | some records => .ok ((firstMatch crates records expectedHash).map (toRecord crates))

def Accepts (body : Option Json.Value) (tx : HorizonTransaction) (expectedHash : String) : Prop :=
  ∃ records, body.bind horizonRecords = some records ∧
    firstMatch crates records expectedHash = some tx

theorem parse_accepts_iff {body : Option Json.Value} {expectedHash : String}
    {record : TransactionRecord} :
    parseHorizonTransaction crates body expectedHash = .ok (some record) ↔
      ∃ tx, Accepts crates body tx expectedHash ∧ toRecord crates tx = record := by
  rw [parseHorizonTransaction]
  cases hb : body.bind horizonRecords with
  | none => simp [Accepts,hb]
  | some records => simp [Accepts,hb]

theorem toAsciiLowercase_hex {b : UInt8} (h : isHex b = true) : toAsciiLowercase b = b := by
  have hall : ∀ a∈List.range 256, isHex (UInt8.ofNat a) = true →
      toAsciiLowercase (UInt8.ofNat a) = UInt8.ofNat a := by decide +kernel
  have hb := hall b.toNat (List.mem_range.mpr b.toNat_lt)
  rw [UInt8.ofNat_toNat] at hb
  exact hb h

theorem eqIgnoreAsciiCase_canonical {memo hash : String} (hc : accepted hash = true)
    (h : eqIgnoreAsciiCase memo hash = true) :
    asBytes hash = (asBytes memo).map toAsciiLowercase := by
  rw [accepted_eq_shape] at hc
  have hall := List.all_eq_true.mp (isCanonicalShape_iff.mp hc).2
  have hsame : (asBytes hash).map toAsciiLowercase = asBytes hash := by
    conv_rhs => rw [← List.map_id (asBytes hash)]
    exact List.map_congr_left fun b hb => toAsciiLowercase_hex (hall b hb)
  rw [eqIgnoreAsciiCase,beq_iff_eq,hsame] at h
  exact h.symm

/-- The two ways in which a record carries a hash. -/
theorem memoMatches_cases {hash : String} (hc : accepted hash = true) {tx : HorizonTransaction}
    (h : memoMatches crates hash tx = true) :
    (tx.memoType = some "text" ∧ eqIgnoreAsciiCase (tx.memo.getD "") hash = true) ∨
      (tx.memoType = some "hash" ∧ ∃ c : CanonicalHash, c.inner = hash ∧
        c.toStellarMemoBase64 crates.base64 crates.lowercase = .ok (tx.memo.getD "")) := by
  rw [accepted_eq_shape] at hc
  have hlen : (asBytes hash).length≠0 := by
    rw [(isCanonicalShape_iff.mp hc).1]
    decide
  have hnew : CanonicalHash.new hash = .ok ⟨hash,hc⟩ := by
    rw [CanonicalHash.new,if_neg hlen,dif_pos hc,validateSha256_of_shape hc]
  simp only [memoMatches,hnew] at h
  split at h
  · next ht => exact Or.inl ⟨ht,h⟩
  · next ht =>
    refine Or.inr ⟨ht,⟨hash,hc⟩,rfl,?_⟩
    cases hb : CanonicalHash.toStellarMemoBase64 crates.base64 crates.lowercase ⟨hash,hc⟩ with
    | error e => simp [hb,Except.toOption] at h
    | ok memo =>
      have heq : memo = tx.memo.getD "" := by simpa [hb,Except.toOption] using h
      rw [heq]
  · cases h

/-- One transaction proves at most one document: whatever responses list it, the parser accepts
it for a single canonical hash. -/
theorem one_transaction_one_document (hinj : Function.Injective crates.base64)
    {body1 body2 : Option Json.Value} {tx : HorizonTransaction} {h1 h2 : String}
    (hc1 : accepted h1 = true) (hc2 : accepted h2 = true)
    (ha1 : Accepts crates body1 tx h1) (ha2 : Accepts crates body2 tx h2) : h1 = h2 := by
  obtain ⟨_,_,hm1⟩ := ha1
  obtain ⟨_,_,hm2⟩ := ha2
  obtain ⟨ht1,htext1⟩ | ⟨ht1,c1,hi1,hb1⟩ := memoMatches_cases crates hc1 (List.find?_some hm1)
  · obtain ⟨ht2,htext2⟩ | ⟨ht2,_⟩ := memoMatches_cases crates hc2 (List.find?_some hm2)
    · apply asBytes_injective
      rw [eqIgnoreAsciiCase_canonical hc1 htext1,eqIgnoreAsciiCase_canonical hc2 htext2]
    · rw [ht1] at ht2
      exact absurd (Option.some.inj ht2) (by decide)
  · obtain ⟨ht2,_⟩ | ⟨ht2,c2,hi2,hb2⟩ := memoMatches_cases crates hc2 (List.find?_some hm2)
    · rw [ht1] at ht2
      exact absurd (Option.some.inj ht2) (by decide)
    · rw [← hi1,← hi2]
      exact toStellarMemoBase64_injective hinj hb1 hb2

theorem one_transaction_one_document_of_zeros :
    let crates : Crates := ⟨Base64.encode,fun _ => none,⟨fun _ c _ => [c],by simp⟩⟩
    let memo := "AAAAAAAAAAAAAAAAAAAAAAAAAAAAAAAAAAAAAAAAAAA="
    let tx : HorizonTransaction := ⟨"tx",none,some memo,some "hash"⟩
    let body : Json.Value := .object [("_embedded",.object [("records",.array [.object
      [("id",.string "tx"),("memo_type",.string "hash"),("memo",.string memo)]])])]
    let hash := "0000000000000000000000000000000000000000000000000000000000000000"
    Accepts crates (some body) tx hash ∧ hash = String.ofList (List.replicate 64 '0') := by
  intro crates memo tx body hash
  have hliteral : Accepts crates (some body) tx hash := ⟨[tx],by decide +kernel,by decide +kernel⟩
  have hbuilt : Accepts crates (some body) tx (String.ofList (List.replicate 64 '0')) :=
    ⟨[tx],by decide +kernel,by decide +kernel⟩
  exact ⟨hliteral,one_transaction_one_document crates Base64.encode_injective (by decide +kernel)
    (by decide +kernel) hliteral hbuilt⟩

end ProofStell.Stellar
