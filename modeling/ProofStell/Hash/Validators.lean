import ProofStell.Hash.Codec

/-! The constant-time validator against the legacy one, and its mask against the two values
that `subtle` takes for a `Choice`. -/
namespace ProofStell.Hash

def validateSha512ConstantTime (hash : String) : Except ValidationError Unit :=
  validateWithLengthConstantTime hash 128

theorem findIdx?_flatMap_utf8 (l : List Char) :
    (l.flatMap String.utf8EncodeChar).findIdx? (fun b => !isHex b) =
      l.findIdx? fun c => !isHexChar c := by
  induction l with
  | nil => rfl
  | cons c l ih =>
    obtain ⟨b,bs,hc,hhex,_⟩ := utf8EncodeChar_head c
    rw [List.flatMap_cons,List.findIdx?_cons]
    cases hdigit : isHexChar c with
    | false => rw [hc,List.cons_append,List.findIdx?_cons,hhex,hdigit]; rfl
    | true =>
      obtain ⟨b',hb',hhex'⟩ := utf8EncodeChar_hex hdigit
      rw [hb',List.cons_append,List.nil_append,List.findIdx?_cons,hhex',ih]

theorem getD_flatMap_utf8 {l : List Char} {position : Nat}
    (h : l.findIdx? (fun c => !isHexChar c) = some position)
    (hascii : (l.getD position ' ').toNat < 128) :
    Char.ofNat ((l.flatMap String.utf8EncodeChar).getD position 0).toNat =
      l.getD position ' ' := by
  induction l generalizing position with
  | nil => cases h
  | cons c l ih =>
    rw [List.findIdx?_cons] at h
    cases hdigit : isHexChar c with
    | false =>
      rw [hdigit] at h
      obtain rfl : 0 = position := Option.some.inj h
      obtain ⟨b,bs,hc,_,hone⟩ := utf8EncodeChar_head c
      rw [List.getD_cons_zero] at hascii ⊢
      rw [List.flatMap_cons,hc,List.cons_append,List.getD_cons_zero,(hone hascii).2,
        Char.ofNat_toNat]
    | true =>
      rw [hdigit] at h
      obtain ⟨p,hp,rfl⟩ := Option.map_eq_some_iff.mp h
      obtain ⟨b,hb,_⟩ := utf8EncodeChar_hex hdigit
      rw [List.getD_cons_succ] at hascii ⊢
      rw [List.flatMap_cons,hb,List.cons_append,List.nil_append,List.getD_cons_succ]
      exact ih hp hascii

theorem allValid_eq_zero_iff {bytes : List UInt8} (hne : bytes≠[]) :
    allValid bytes = 0 ↔ ¬bytes.all isHex = true := by
  constructor
  · intro hzero hall
    rw [allValid_eq_one hne hall] at hzero
    cases hzero
  · intro hall
    by_contra hmask
    exact hall (all_isHex_of_allValid hmask)

/-- The same variant with the same lengths or position, and the same character where the
legacy one is ASCII. -/
def SameVerdict : Except ValidationError Unit → Except ValidationError Unit → Prop
  | .ok (), .ok () => True
  | .error (.invalidCharacter p c), .error (.invalidCharacter q d) =>
    p = q ∧ (d.toNat < 128 → c = d)
  | .error e, .error f => e = f
  | _, _ => False

theorem asBytes_ne_nil {s : String} (h : s≠"") : asBytes s≠[] :=
  fun hnil => h (asBytes_injective hnil)

/-- On the normalised text the constant-time validator says what the legacy one says. -/
theorem constant_time_agrees_with_legacy (mapping : CaseMapping) (s : String)
    (hne : normalize mapping s≠"") (expectedLen : Nat) :
    SameVerdict (validateWithLengthConstantTime (normalize mapping s) expectedLen)
      (validateWithLength mapping s expectedLen) := by
  have hbytes := asBytes_ne_nil hne
  have hlen : (asBytes (normalize mapping s)).length≠0 := by
    rwa [Ne,List.length_eq_zero_iff]
  have hfind := findIdx?_flatMap_utf8 (normalize mapping s).toList
  rw [← asBytes_eq_flatMap] at hfind
  simp only [validateWithLengthConstantTime,validateWithLength]
  rw [if_neg hlen,if_neg hlen]
  split
  · rfl
  · rw [← hfind]
    cases hpos : (asBytes (normalize mapping s)).findIdx? fun b => !isHex b with
    | none =>
      have hall : (asBytes (normalize mapping s)).all isHex = true := by
        simpa [List.findIdx?_eq_none_iff] using hpos
      rw [allValid_eq_one hbytes hall]
      trivial
    | some position =>
      have hbad : allValid (asBytes (normalize mapping s)) = 0 := by
        refine (allValid_eq_zero_iff hbytes).mpr fun hall => ?_
        rw [List.findIdx?_eq_none_iff.mpr] at hpos
        · cases hpos
        · intro b hb
          rw [List.all_eq_true.mp hall b hb]
          rfl
      rw [hbad,if_pos (by simp)]
      refine ⟨rfl,fun hascii => ?_⟩
      rw [Option.getD_some,asBytes_eq_flatMap]
      exact getD_flatMap_utf8 (hfind.symm.trans hpos) hascii

/-- An uppercase letter and a stray one between blanks. -/
theorem constant_time_agrees_padded :
    normalize ⟨fun _ c _ => [c],by simp⟩ " Az "≠"" ∧
      SameVerdict
        (validateWithLengthConstantTime (normalize ⟨fun _ c _ => [c],by simp⟩ " Az ") 2)
        (validateWithLength ⟨fun _ c _ => [c],by simp⟩ " Az " 2) :=
  ⟨by decide +kernel,constant_time_agrees_with_legacy _ _ (by decide +kernel) 2⟩

/-- `Choice::from` of `subtle` in a debug build, where it panics on all bytes but 0 and 1. -/
def AssertsChoice (choiceFrom : UInt8 → Option UInt8) : Prop :=
  ∀ input, choiceFrom input = if input = 0 ∨ input = 1 then some input else none

section
variable (choiceFrom : UInt8 → Option UInt8)

def validateWithLengthConstantTimeDebug (hash : String) (expectedLen : Nat) :
    Option (Except ValidationError Unit) := do
  let bytes := asBytes hash
  let charsOk ← choiceFrom (allValid bytes)
  let badChars := ¬charsOk≠0
  if bytes.length = 0 then return .error .emptyHash
  else if bytes.length≠expectedLen then return .error (.wrongLength expectedLen bytes.length)
  else if badChars then
    let position := (bytes.findIdx? fun b => !isHex b).getD 0
    return .error (.invalidCharacter position (Char.ofNat (bytes.getD position 0).toNat))
  else return .ok ()

def validateSha256ConstantTimeDebug (hash : String) : Option (Except ValidationError Unit) :=
  validateWithLengthConstantTimeDebug choiceFrom hash 64

def validateSha512ConstantTimeDebug (hash : String) : Option (Except ValidationError Unit) :=
  validateWithLengthConstantTimeDebug choiceFrom hash 128

/-- The mask after the loop is a `Choice`, it is 1 on digits only, and no validator panics. -/
structure MaskLegal (hash : String) (expectedLen : Nat) : Prop where
  choice : allValid (asBytes hash) = 0 ∨ allValid (asBytes hash) = 1
  digits : allValid (asBytes hash) = 1 ↔ ∀ b∈asBytes hash, isHex b = true
  returns : validateWithLengthConstantTimeDebug choiceFrom hash expectedLen =
    some (validateWithLengthConstantTime hash expectedLen)
  sha256 : validateSha256ConstantTimeDebug choiceFrom hash = some (validateSha256ConstantTime hash)
  sha512 : validateSha512ConstantTimeDebug choiceFrom hash = some (validateSha512ConstantTime hash)

variable {choiceFrom} (hassert : AssertsChoice choiceFrom)
include hassert

theorem validateDebug_eq (hash : String) (expectedLen : Nat) :
    validateWithLengthConstantTimeDebug choiceFrom hash expectedLen =
      (choiceFrom (allValid (asBytes hash))).map fun _ =>
        validateWithLengthConstantTime hash expectedLen := by
  rw [validateWithLengthConstantTimeDebug,hassert]
  split
  · simp only [validateWithLengthConstantTime,Option.bind_eq_bind,Option.bind_some,
      Option.map_some,Option.pure_def]
    split
    · rfl
    · split
      · rfl
      · split <;> rfl
  · rfl

omit hassert in
theorem allValid_choice {bytes : List UInt8} (hne : bytes≠[]) :
    allValid bytes = 0 ∨ allValid bytes = 1 := by
  by_cases hall : bytes.all isHex = true
  · exact .inr (allValid_eq_one hne hall)
  · exact .inl ((allValid_eq_zero_iff hne).mpr hall)

theorem validateDebug_of_ne {hash : String} (hne : hash≠"") (expectedLen : Nat) :
    validateWithLengthConstantTimeDebug choiceFrom hash expectedLen =
      some (validateWithLengthConstantTime hash expectedLen) := by
  rw [validateDebug_eq hassert,hassert,if_pos (allValid_choice (asBytes_ne_nil hne)),
    Option.map_some]

/-- The loop brings the mask into range with its first byte, so only the empty string fails. -/
theorem maskLegal_iff (hash : String) (expectedLen : Nat) :
    MaskLegal choiceFrom hash expectedLen ↔ hash≠"" := by
  constructor
  · intro h hempty
    have hmask : allValid (asBytes hash) = 0xFF := by
      rw [hempty]
      rfl
    have hchoice := h.choice
    rw [hmask] at hchoice
    rcases hchoice with hchoice|hchoice <;> cases hchoice
  · intro hne
    have hbytes := asBytes_ne_nil hne
    refine ⟨allValid_choice hbytes,?_,validateDebug_of_ne hassert hne expectedLen,
      validateDebug_of_ne hassert hne 64,validateDebug_of_ne hassert hne 128⟩
    rw [← List.all_eq_true]
    constructor
    · intro hone
      refine all_isHex_of_allValid ?_
      rw [hone]
      decide
    · exact allValid_eq_one hbytes

end

theorem mask_legal_of_one_digit :
    MaskLegal (fun input => if input = 0 ∨ input = 1 then some input else none) "a" 64 :=
  (maskLegal_iff (fun _ => rfl) "a" 64).mpr (by decide)

/-- The public validator of SHA-256 hashes panics on the empty string where it was to return
`EmptyHash`. -/
theorem empty_hash_panics :
    let choiceFrom : UInt8 → Option UInt8 := fun input =>
      if input = 0 ∨ input = 1 then some input else none
    ¬MaskLegal choiceFrom "" 64 ∧ allValid (asBytes "") = 0xFF ∧
      validateSha256ConstantTimeDebug choiceFrom "" = none ∧
      validateSha256ConstantTime "" = .error .emptyHash := by
  refine ⟨fun h => ?_,rfl,rfl,rfl⟩
  have hchoice := h.choice
  revert hchoice
  decide

end ProofStell.Hash
