import Mathlib.Data.UInt
import Mathlib.Tactic.Common

/-! The gate every hash string passes: its UTF-8 bytes must be the 64 lowercase hex
digits of a SHA-256 hash. -/
namespace ProofStell.Hash

inductive ValidationError where
  | wrongLength (expected actual : Nat)
  | invalidCharacter (position : Nat) (character : Char)
  | emptyHash
  | unsupportedAlgorithm
  | notCanonical
  | invalidStellarMemoFormat
  | alreadyRegistered
  deriving DecidableEq, Repr

inductive HashAlgorithm where
  | sha256 | sha512
  deriving DecidableEq, Repr

def HashAlgorithm.hexLength : HashAlgorithm → Nat
  | .sha256 => 64
  | .sha512 => 128

def asBytes (s : String) : List UInt8 := s.toByteArray.data.toList

def isHex (b : UInt8) : Bool := (48 ≤ b && b≤57) || (97 ≤ b && b≤102)

def isCanonicalShapeWithLen (hash : String) (len : Nat) : Bool :=
  if (asBytes hash).length≠len then false else (asBytes hash).all isHex

def isCanonicalShape (hash : String) : Bool :=
  isCanonicalShapeWithLen hash HashAlgorithm.sha256.hexLength

/-- The mask the constant-time loop leaves: all ones before the first byte, then 1
while every byte is a hex digit. -/
def allValid (bytes : List UInt8) : UInt8 :=
  bytes.foldl (fun mask b => mask &&& ((isHex b).toUInt8 &&& 1)) 0xFF

def validateWithLengthConstantTime (hash : String) (expectedLen : Nat) :
    Except ValidationError Unit :=
  let bytes := asBytes hash
  let charsOk := allValid bytes≠0
  if bytes.length = 0 then .error .emptyHash
  else if bytes.length≠expectedLen then .error (.wrongLength expectedLen bytes.length)
  else if ¬charsOk then
    let position := (bytes.findIdx? fun b => !isHex b).getD 0
    .error (.invalidCharacter position (Char.ofNat (bytes.getD position 0).toNat))
  else .ok ()

def validateSha256ConstantTime (hash : String) : Except ValidationError Unit :=
  validateWithLengthConstantTime hash 64

structure CanonicalHash where
  inner : String
  canonical : isCanonicalShape inner = true

def CanonicalHash.new (hash : String) : Except ValidationError CanonicalHash :=
  if (asBytes hash).length = 0 then .error .emptyHash
  else if h : isCanonicalShape hash = true then
    match validateSha256ConstantTime hash with
    | .error e => .error e
    | .ok () => .ok ⟨hash,h⟩
  else if (asBytes hash).all isHex then
    .error (.wrongLength HashAlgorithm.sha256.hexLength (asBytes hash).length)
  else .error .notCanonical

theorem allValid_eq_one {bytes : List UInt8} (hne : bytes≠[]) (h : bytes.all isHex = true) :
    allValid bytes = 1 := by
  have stays (l : List UInt8) (hl : l.all isHex = true) :
      l.foldl (fun mask b => mask &&& ((isHex b).toUInt8 &&& 1)) 1 = 1 := by
    induction l with
    | nil => rfl
    | cons b l ih =>
      simp only [List.all_cons,Bool.and_eq_true] at hl
      rw [List.foldl_cons,hl.1]
      exact ih hl.2
  cases bytes with
  | nil => exact absurd rfl hne
  | cons b l =>
    simp only [List.all_cons,Bool.and_eq_true] at h
    rw [allValid,List.foldl_cons,h.1]
    exact stays l h.2

theorem isCanonicalShape_iff {hash : String} : isCanonicalShape hash = true ↔
    (asBytes hash).length = 64 ∧ (asBytes hash).all isHex = true := by
  rw [isCanonicalShape,isCanonicalShapeWithLen,HashAlgorithm.hexLength]
  by_cases hlen : (asBytes hash).length = 64 <;> simp [hlen]

theorem validateSha256_of_shape {hash : String} (h : isCanonicalShape hash = true) :
    validateSha256ConstantTime hash = .ok () := by
  obtain ⟨hlen,hall⟩ := isCanonicalShape_iff.mp h
  have hne : asBytes hash≠[] := by
    intro hnil
    rw [hnil] at hlen
    exact absurd hlen (by decide)
  have hmask := allValid_eq_one hne hall
  simp [validateSha256ConstantTime,validateWithLengthConstantTime,hlen,hmask]

def accepted (hash : String) : Bool := (CanonicalHash.new hash).isOk

theorem accepted_eq_shape (hash : String) : accepted hash = isCanonicalShape hash := by
  by_cases h : isCanonicalShape hash = true
  · have hlen : (asBytes hash).length≠0 := by
      rw [(isCanonicalShape_iff.mp h).1]
      decide
    rw [accepted,CanonicalHash.new,if_neg hlen,dif_pos h,validateSha256_of_shape h,h]
    rfl
  · rw [accepted,CanonicalHash.new,dif_neg h]
    simp only [Bool.not_eq_true] at h
    rw [h]
    split
    · rfl
    · split <;> rfl

end ProofStell.Hash
