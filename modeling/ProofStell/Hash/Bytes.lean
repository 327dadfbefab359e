import ProofStell.Hash.Canonical
import Mathlib.Data.List.Basic

/-! From the hex text of a hash to its 32 bytes, with the legacy check on the way: it looks
at the trimmed and lowercased text, the decoder at the text as it is. -/
namespace ProofStell.Hash

/-- `char::is_whitespace`, the Unicode property `White_Space`. -/
def isWhitespace (c : Char) : Bool :=
  (9 ≤ c.toNat && c.toNat ≤ 13) || (0x2000 ≤ c.toNat && c.toNat ≤ 0x200A) ||
    [0x20,0x85,0xA0,0x1680,0x2028,0x2029,0x202F,0x205F,0x3000].contains c.toNat

def trim (cs : List Char) : List Char :=
  ((cs.dropWhile isWhitespace).reverse.dropWhile isWhitespace).reverse

/-- Lowercase beyond ASCII, which may look at the characters around; none disappears. -/
structure CaseMapping where
  lower : List Char → Char → List Char → List Char
  nonempty : ∀ before c after, lower before c after≠[]

def toLowercase (mapping : CaseMapping) : List Char → List Char → List Char
  | _, [] => []
  | before, c::after => (if c.toNat < 128 then [c.toLower] else mapping.lower before c after)++
      toLowercase mapping (before++[c]) after

def normalize (mapping : CaseMapping) (hash : String) : String :=
  String.ofList (toLowercase mapping [] (trim hash.toList))

def isHexChar (c : Char) : Bool :=
  (48 ≤ c.toNat && c.toNat ≤ 57) || (97 ≤ c.toNat && c.toNat ≤ 102)

def validateWithLength (mapping : CaseMapping) (hash : String) (expectedLen : Nat) :
    Except ValidationError Unit :=
  let normalized := normalize mapping hash
  if (asBytes normalized).length = 0 then .error .emptyHash
  else if (asBytes normalized).length≠expectedLen then
    .error (.wrongLength expectedLen (asBytes normalized).length)
  else
    match normalized.toList.findIdx? fun c => !isHexChar c with
    | some position => .error (.invalidCharacter position (normalized.toList.getD position ' '))
    | none => .ok ()

def hexNibble (b : UInt8) : Option UInt8 :=
  if 48 ≤ b && b ≤ 57 then some (b-48)
  else if 97 ≤ b && b ≤ 102 then some (b-97+10)
  else none

/-- An `Err`, or an index out of bounds. -/
inductive Failure where
  | err (e : ValidationError)
  | panic
  deriving DecidableEq, Repr

def nibbleAt (b : UInt8) (position : Nat) : Except Failure UInt8 :=
  match hexNibble b with
  | some n => .ok n
  | none => .error (.err (.invalidCharacter position (Char.ofNat b.toNat)))

/-- The loop over `chunks(2)`; `bytes` is the array it writes to. -/
def decodeChunks (i : Nat) (bytes : List UInt8) : List UInt8 → Except Failure (List UInt8)
  | [] => .ok bytes
  | [a] => do
    let _ ← nibbleAt a (i*2)
    .error .panic
  | a::b::rest => do
    let hi ← nibbleAt a (i*2)
    let lo ← nibbleAt b (i*2+1)
    if i < bytes.length then decodeChunks (i+1) (bytes.set i (hi <<< 4 ||| lo)) rest
    else .error .panic

def hexToBytes32 (mapping : CaseMapping) (hex : String) : Except Failure (List UInt8) :=
  match validateWithLength mapping hex 64 with
  | .error e => .error (.err e)
  | .ok () => decodeChunks 0 (List.replicate 32 0) (asBytes hex)

def detectAlgorithm (hash : String) : Option HashAlgorithm :=
  if (asBytes hash).length = 64 then some .sha256
  else if (asBytes hash).length = 128 then some .sha512
  else none

namespace CanonicalHash

def toBytes (mapping : CaseMapping) (h : CanonicalHash) : Except Failure (List UInt8) :=
  hexToBytes32 mapping h.inner

def validateStellarMemo (h : CanonicalHash) : Except ValidationError Unit :=
  match detectAlgorithm h.inner with
  | some .sha256 => .ok ()
  | some .sha512 => .error .invalidStellarMemoFormat
  | none => .error .invalidStellarMemoFormat

def toStellarMemoHash (mapping : CaseMapping) (h : CanonicalHash) :
    Except Failure (List UInt8) :=
  match h.validateStellarMemo with
  | .error e => .error (.err e)
  | .ok () => h.toBytes mapping

/-- `encode` is the standard encoding of the base64 crate. -/
def toStellarMemoBase64 (encode : List UInt8 → String) (mapping : CaseMapping)
    (h : CanonicalHash) : Except Failure String :=
  (h.toStellarMemoHash mapping).map encode

end CanonicalHash

theorem asBytes_injective : Function.Injective asBytes := by
  intro s t h
  rw [asBytes,asBytes] at h
  exact String.toByteArray_inj.mp (ByteArray.ext (Array.toList_inj.mp h))

def hexDigit (n : UInt8) : UInt8 := if n < 10 then n+48 else n+87

def hexEncode : List UInt8 → List UInt8
  | [] => []
  | b::bytes => hexDigit (b >>> 4)::hexDigit (b &&& 15)::hexEncode bytes

theorem hexEncode_length (bytes : List UInt8) : (hexEncode bytes).length = 2*bytes.length := by
  induction bytes with
  | nil => rfl
  | cons b bytes ih =>
    simp only [hexEncode,List.length_cons,ih]
    omega

theorem hexNibble_spec {b n : UInt8} (h : hexNibble b = some n) : n < 16 ∧ hexDigit n = b := by
  have hall : ∀ a∈List.range 256, (hexNibble (UInt8.ofNat a)).all
      (fun n => decide (n < 16 ∧ hexDigit n = UInt8.ofNat a)) = true := by decide +kernel
  have hb := hall b.toNat (List.mem_range.mpr b.toNat_lt)
  rw [UInt8.ofNat_toNat,h] at hb
  exact of_decide_eq_true hb

theorem hexDigits_join {hi lo : UInt8} (hhi : hi < 16) (hlo : lo < 16) :
    (hi <<< 4 ||| lo) >>> 4 = hi ∧ (hi <<< 4 ||| lo) &&& 15 = lo := by
  have hall : ∀ a∈List.range 16, ∀ b∈List.range 16,
      (UInt8.ofNat a <<< 4 ||| UInt8.ofNat b) >>> 4 = UInt8.ofNat a ∧
        (UInt8.ofNat a <<< 4 ||| UInt8.ofNat b) &&& 15 = UInt8.ofNat b := by decide +kernel
  have h := hall hi.toNat (List.mem_range.mpr (UInt8.lt_iff_toNat_lt.mp hhi)) lo.toNat
    (List.mem_range.mpr (UInt8.lt_iff_toNat_lt.mp hlo))
  rwa [UInt8.ofNat_toNat,UInt8.ofNat_toNat] at h

theorem nibbleAt_ok {b n : UInt8} {position : Nat} (h : nibbleAt b position = .ok n) :
    n < 16 ∧ hexDigit n = b := by
  rw [nibbleAt] at h
  split at h
  · next m hm =>
    cases h
    exact hexNibble_spec hm
  · cases h

theorem decodeChunks_pair_ok {i : Nat} {bytes rest bs : List UInt8} {a b : UInt8}
    (h : decodeChunks i bytes (a::b::rest) = .ok bs) :
    ∃ hi lo, nibbleAt a (i*2) = .ok hi ∧ nibbleAt b (i*2+1) = .ok lo ∧ i < bytes.length ∧
      decodeChunks (i+1) (bytes.set i (hi <<< 4 ||| lo)) rest = .ok bs := by
  rw [decodeChunks] at h
  cases hhi : nibbleAt a (i*2) with
  | error e =>
    rw [hhi] at h
    cases h
  | ok hi =>
    cases hlo : nibbleAt b (i*2+1) with
    | error e =>
      rw [hhi,hlo] at h
      cases h
    | ok lo =>
      rw [hhi,hlo] at h
      simp only [bind,Except.bind] at h
      split at h
      · next hlt => exact ⟨hi,lo,rfl,rfl,hlt,h⟩
      · cases h

/-- What the loop writes encodes to what it has read. -/
theorem decodeChunks_ok {i : Nat} {bytes l bs : List UInt8} (h : decodeChunks i bytes l = .ok bs) :
    ∃ written, hexEncode written = l ∧
      bs = bytes.take i++written++bytes.drop (i+written.length) := by
  induction i, bytes, l using decodeChunks.induct with
  | case1 i bytes =>
    cases h
    exact ⟨[],rfl,by simp⟩
  | case2 i bytes a =>
    rw [decodeChunks] at h
    cases hn : nibbleAt a (i*2) <;> rw [hn] at h <;> cases h
  | case3 i bytes a b rest ih =>
    obtain ⟨hi,lo,hhi,hlo,hlt,h⟩ := decodeChunks_pair_ok h
    obtain ⟨written,hrest,hbs⟩ := ih hi lo h
    obtain ⟨hhi',ha⟩ := nibbleAt_ok hhi
    obtain ⟨hlo',hb⟩ := nibbleAt_ok hlo
    obtain ⟨hhigh,hlow⟩ := hexDigits_join hhi' hlo'
    refine ⟨(hi <<< 4 ||| lo)::written,?_,?_⟩
    · rw [hexEncode,hhigh,hlow,ha,hb,hrest]
    · have htake : (bytes.set i (hi <<< 4 ||| lo)).take (i+1) =
          bytes.take i++[hi <<< 4 ||| lo] := by
        rw [List.take_add_one,List.take_set_of_le (Nat.le_refl i),
          List.getElem?_set_self hlt,Option.toList_some]
      rw [hbs,htake,List.drop_set_of_lt (by omega),List.length_cons,Nat.add_right_comm i 1]
      simp [Nat.add_assoc]

/-- The bytes of a canonical hash encode to its text. -/
theorem hexEncode_toBytes {mapping : CaseMapping} {h : CanonicalHash} {bs : List UInt8}
    (hok : h.toBytes mapping = .ok bs) : hexEncode bs = asBytes h.inner := by
  rw [CanonicalHash.toBytes,hexToBytes32] at hok
  split at hok
  · cases hok
  · obtain ⟨written,hwritten,hbs⟩ := decodeChunks_ok hok
    have hlen := (isCanonicalShape_iff.mp h.canonical).1
    rw [← hwritten,hexEncode_length] at hlen
    have hall : written.length = 32 := by omega
    rw [List.take_zero,List.nil_append,hall,Nat.zero_add,List.drop_replicate,Nat.sub_self,
      List.replicate_zero,List.append_nil] at hbs
    rw [hbs,hwritten]

theorem toStellarMemoBase64_ok {encode : List UInt8 → String} {mapping : CaseMapping}
    {h : CanonicalHash} {memo : String} (hm : h.toStellarMemoBase64 encode mapping = .ok memo) :
    ∃ bs, encode bs = memo ∧ hexEncode bs = asBytes h.inner := by
  rw [CanonicalHash.toStellarMemoBase64,CanonicalHash.toStellarMemoHash] at hm
  split at hm
  · cases hm
  · cases hb : h.toBytes mapping with
    | error e =>
      rw [hb] at hm
      cases hm
    | ok bs =>
      rw [hb] at hm
      exact ⟨bs,Except.ok.inj hm,hexEncode_toBytes hb⟩

theorem toStellarMemoBase64_injective {encode : List UInt8 → String} {mapping : CaseMapping}
    (hinj : Function.Injective encode) {h1 h2 : CanonicalHash} {memo : String}
    (hm1 : h1.toStellarMemoBase64 encode mapping = .ok memo)
    (hm2 : h2.toStellarMemoBase64 encode mapping = .ok memo) : h1.inner = h2.inner := by
  obtain ⟨bs1,he1,hx1⟩ := toStellarMemoBase64_ok hm1
  obtain ⟨bs2,he2,hx2⟩ := toStellarMemoBase64_ok hm2
  have hbs : bs1 = bs2 := hinj (he1.trans he2.symm)
  rw [hbs,hx2] at hx1
  exact asBytes_injective hx1.symm

end ProofStell.Hash
