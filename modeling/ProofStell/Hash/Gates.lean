import ProofStell.Hash.Bytes
import Mathlib.Tactic.TFAE

/-! The gates that take a hash string. They read its bytes, its characters or its trimmed and
lowercased form, and accept the same strings. -/
namespace ProofStell.Hash

def isCanonical (hash : String) (algorithm : HashAlgorithm) : Bool :=
  isCanonicalShapeWithLen hash algorithm.hexLength

def validateForContract (hash : String) : Except ValidationError String :=
  if (asBytes hash).length = 0 then .error .emptyHash
  else if !isCanonicalShape hash then
    if (asBytes hash).length = HashAlgorithm.sha512.hexLength then .error .unsupportedAlgorithm
    else if (asBytes hash).length = HashAlgorithm.sha256.hexLength then .error .notCanonical
    else .error (.wrongLength HashAlgorithm.sha256.hexLength (asBytes hash).length)
  else
    match validateSha256ConstantTime hash with
    | .error e => .error e
    | .ok () => .ok hash

theorem asBytes_eq_flatMap (s : String) :
    asBytes s = s.toList.flatMap String.utf8EncodeChar := by
  rw [asBytes,← String.utf8Encode_toList,List.utf8Encode]
  simp

theorem isHex_iff {b : UInt8} : isHex b = true ↔
    (48 ≤ b.toNat ∧ b.toNat ≤ 57) ∨ (97 ≤ b.toNat ∧ b.toNat ≤ 102) := by
  simp [isHex,UInt8.le_iff_toNat_le]

theorem isHexChar_iff {c : Char} : isHexChar c = true ↔
    (48 ≤ c.toNat ∧ c.toNat ≤ 57) ∨ (97 ≤ c.toNat ∧ c.toNat ≤ 102) := by
  simp [isHexChar]

/-- The first byte of a character tells whether it is a digit, and is all of it below 128. -/
theorem utf8EncodeChar_head (c : Char) : ∃ b bs, String.utf8EncodeChar c = b::bs ∧
    isHex b = isHexChar c ∧ (c.toNat < 128 → bs = [] ∧ b.toNat = c.toNat) := by
  have hval : c.toNat = c.val.toNat := rfl
  have hbig {n : Nat} (hn : 192 ≤ n) (hlt : n < 256) (hc : 128 ≤ c.val.toNat) :
      isHex (UInt8.ofNat n) = isHexChar c := by
    rw [Bool.eq_iff_iff,isHex_iff,isHexChar_iff,UInt8.toNat_ofNat']
    omega
  fun_cases String.utf8EncodeChar with
  | case1 v hv =>
    refine ⟨_,_,rfl,?_,fun _ => ⟨rfl,?_⟩⟩
    · rw [Bool.eq_iff_iff,isHex_iff,isHexChar_iff,UInt8.toNat_ofNat']
      omega
    · rw [UInt8.toNat_ofNat']
      omega
  | case2 v hv hv' => exact ⟨_,_,rfl,hbig (by omega) (by omega) (by omega),fun h => by omega⟩
  | case3 v hv hv' hv'' => exact ⟨_,_,rfl,hbig (by omega) (by omega) (by omega),fun h => by omega⟩
  | case4 v hv hv' hv'' => exact ⟨_,_,rfl,hbig (by omega) (by omega) (by omega),fun h => by omega⟩

theorem isHexChar_of_bytes {c : Char} (h : (String.utf8EncodeChar c).all isHex = true) :
    isHexChar c = true := by
  obtain ⟨b,bs,hc,hhex,_⟩ := utf8EncodeChar_head c
  rw [hc,List.all_cons,Bool.and_eq_true] at h
  exact hhex.symm.trans h.1

theorem hexChars_of_bytes {s : String} (h : (asBytes s).all isHex = true) :
    ∀ c∈s.toList, isHexChar c = true := by
  intro c hc
  rw [asBytes_eq_flatMap,List.all_flatMap,List.all_eq_true] at h
  exact isHexChar_of_bytes (h c hc)

theorem isWhitespace_of_hex {c : Char} (h : isHexChar c = true) : isWhitespace c = false := by
  rw [isHexChar_iff] at h
  simp [isWhitespace]
  omega

theorem dropWhile_hex {l : List Char} (h : ∀ c∈l, isHexChar c = true) :
    l.dropWhile isWhitespace = l := by
  cases l with
  | nil => rfl
  | cons c l =>
    rw [List.dropWhile_cons,if_neg (by simp [isWhitespace_of_hex (h c List.mem_cons_self)])]

theorem trim_hex {cs : List Char} (h : ∀ c∈cs, isHexChar c = true) : trim cs = cs := by
  rw [trim,dropWhile_hex h,dropWhile_hex fun c hc => h c (List.mem_reverse.mp hc),
    List.reverse_reverse]

theorem toLowercase_hex_append (mapping : CaseMapping) (before : List Char) {cs : List Char}
    (h : ∀ c∈cs, isHexChar c = true) (ds : List Char) : toLowercase mapping before (cs++ds) =
      cs++toLowercase mapping (before++cs) ds := by
  induction cs generalizing before with
  | nil => rw [List.append_nil,List.nil_append,List.nil_append]
  | cons c cs ih =>
    have hc := isHexChar_iff.mp (h c List.mem_cons_self)
    have hlower : c.toLower = c := by
      refine dif_neg ?_
      intro hupper
      have hA := UInt32.le_iff_toNat_le.mp hupper.1
      have hZ := UInt32.le_iff_toNat_le.mp hupper.2
      change 65 ≤ c.toNat at hA
      change c.toNat ≤ 90 at hZ
      omega
    rw [List.cons_append,toLowercase,if_pos (by omega),hlower,
      ih _ fun d hd => h d (List.mem_cons_of_mem c hd),List.append_assoc]
    rfl

theorem toLowercase_hex (mapping : CaseMapping) (before : List Char) {cs : List Char}
    (h : ∀ c∈cs, isHexChar c = true) : toLowercase mapping before cs = cs := by
  have happ := toLowercase_hex_append mapping before h []
  rwa [List.append_nil,toLowercase,List.append_nil] at happ

theorem normalize_hex (mapping : CaseMapping) {s : String}
    (h : ∀ c∈s.toList, isHexChar c = true) : normalize mapping s = s := by
  rw [normalize,trim_hex h,toLowercase_hex mapping [] h,String.ofList_toList]

theorem validateWithLength_of_shape (mapping : CaseMapping) {s : String}
    (h : isCanonicalShape s = true) : validateWithLength mapping s 64 = .ok () := by
  obtain ⟨hlen,hall⟩ := isCanonicalShape_iff.mp h
  have hchars := hexChars_of_bytes hall
  have hfind : s.toList.findIdx? (fun c => !isHexChar c) = none := by
    rw [List.findIdx?_eq_none_iff]
    intro c hc
    simp [hchars c hc]
  simp only [validateWithLength]
  rw [normalize_hex mapping hchars,hlen,if_neg (by decide),if_neg (by decide),hfind]

theorem nibbleAt_of_hex {b : UInt8} (h : isHex b = true) (position : Nat) :
    ∃ n, nibbleAt b position = .ok n := by
  have hsome : ∃ n, hexNibble b = some n := by
    rw [isHex,Bool.or_eq_true] at h
    rw [hexNibble]
    by_cases hd : (48 ≤ b && b ≤ 57) = true
    · exact ⟨_,if_pos hd⟩
    · exact ⟨_,(if_neg hd).trans (if_pos (h.resolve_left hd))⟩
  obtain ⟨n,hn⟩ := hsome
  exact ⟨n,by rw [nibbleAt,hn]⟩

theorem decodeChunks_of_hex {i : Nat} {bytes l : List UInt8} (hl : l.all isHex = true)
    (hlen : l.length+2*i = 2*bytes.length) : ∃ bs, decodeChunks i bytes l = .ok bs := by
  induction i, bytes, l using decodeChunks.induct with
  | case1 i bytes => exact ⟨bytes,rfl⟩
  | case2 i bytes a =>
    simp only [List.length_cons,List.length_nil] at hlen
    omega
  | case3 i bytes a b rest ih =>
    simp only [List.all_cons,Bool.and_eq_true] at hl
    simp only [List.length_cons] at hlen
    obtain ⟨hi,hhi⟩ := nibbleAt_of_hex hl.1 (i*2)
    obtain ⟨lo,hlo⟩ := nibbleAt_of_hex hl.2.1 (i*2+1)
    obtain ⟨bs,hbs⟩ := ih hi lo hl.2.2 (by rw [List.length_set]; omega)
    refine ⟨bs,?_⟩
    rw [decodeChunks,hhi,hlo]
    simp only [bind,Except.bind]
    rw [if_pos (by omega),hbs]

theorem hexEncode_isHex (bytes : List UInt8) : (hexEncode bytes).all isHex = true := by
  have hall : ∀ a∈List.range 256, isHex (hexDigit (UInt8.ofNat a >>> 4)) = true ∧
      isHex (hexDigit (UInt8.ofNat a &&& 15)) = true := by decide +kernel
  induction bytes with
  | nil => rfl
  | cons b bytes ih =>
    have hb := hall b.toNat (List.mem_range.mpr b.toNat_lt)
    rw [UInt8.ofNat_toNat] at hb
    rw [hexEncode,List.all_cons,List.all_cons,hb.1,hb.2,ih]
    rfl

/-- The decoder reads the raw text, so what it accepts needed no trimming and no lowercasing. -/
theorem hexToBytes32_ok_iff (mapping : CaseMapping) (s : String) :
    (∃ bs, hexToBytes32 mapping s = .ok bs) ↔ isCanonicalShape s = true := by
  constructor
  · intro h
    obtain ⟨bs,hbs⟩ := h
    rw [hexToBytes32] at hbs
    split at hbs
    · cases hbs
    · next hvalid =>
      obtain ⟨written,hwritten,_⟩ := decodeChunks_ok hbs
      have hall : (asBytes s).all isHex = true := by
        rw [← hwritten]
        exact hexEncode_isHex written
      refine isCanonicalShape_iff.mpr ⟨?_,hall⟩
      simp only [validateWithLength] at hvalid
      rw [normalize_hex mapping (hexChars_of_bytes hall)] at hvalid
      by_contra hlen
      rw [if_pos hlen] at hvalid
      split at hvalid <;> cases hvalid
  · intro h
    obtain ⟨hlen,hall⟩ := isCanonicalShape_iff.mp h
    have hdecode : ∃ bs, decodeChunks 0 (List.replicate 32 0) _ = .ok bs :=
      decodeChunks_of_hex hall (by rw [hlen,List.length_replicate])
    obtain ⟨bs,hbs⟩ := hdecode
    refine ⟨bs,?_⟩
    rw [hexToBytes32,validateWithLength_of_shape mapping h]
    exact hbs

theorem all_isHex_of_allValid {bytes : List UInt8} (h : allValid bytes≠0) :
    bytes.all isHex = true := by
  have dead (l : List UInt8) :
      l.foldl (fun mask b => mask &&& ((isHex b).toUInt8 &&& 1)) 0 = 0 := by
    induction l with
    | nil => rfl
    | cons b l ih => rw [List.foldl_cons,UInt8.zero_and,ih]
  have passes (l : List UInt8) (mask : UInt8)
      (hl : l.foldl (fun mask b => mask &&& ((isHex b).toUInt8 &&& 1)) mask≠0) :
      l.all isHex = true := by
    induction l generalizing mask with
    | nil => rfl
    | cons b l ih =>
      rw [List.foldl_cons] at hl
      cases hb : isHex b with
      | false =>
        rw [hb,show (false.toUInt8 &&& 1 : UInt8) = 0 from rfl,UInt8.and_zero] at hl
        exact absurd (dead l) hl
      | true =>
        rw [List.all_cons,hb,Bool.true_and]
        exact ih _ hl
  exact passes bytes 0xFF h

theorem validateSha256_ok_iff (s : String) :
    validateSha256ConstantTime s = .ok () ↔ isCanonicalShape s = true := by
  refine ⟨fun h => ?_,validateSha256_of_shape⟩
  simp only [validateSha256ConstantTime,validateWithLengthConstantTime] at h
  split at h
  · cases h
  · split at h
    · cases h
    · next hlen =>
      split at h
      · cases h
      · next hmask =>
        exact isCanonicalShape_iff.mpr
          ⟨not_not.mp hlen,all_isHex_of_allValid (not_not.mp hmask)⟩

theorem canonicalHash_new_ok {s : String} {h : CanonicalHash}
    (hok : CanonicalHash.new s = .ok h) : isCanonicalShape s = true ∧ h.inner = s := by
  rw [CanonicalHash.new] at hok
  split at hok
  · cases hok
  · split at hok
    · next hshape =>
      rw [validateSha256_of_shape hshape] at hok
      cases hok
      exact ⟨hshape,rfl⟩
    · split at hok <;> cases hok

theorem length_ne_zero_of_shape {s : String} (h : isCanonicalShape s = true) :
    (asBytes s).length≠0 := by
  rw [(isCanonicalShape_iff.mp h).1]
  decide

theorem canonicalHash_new_of_shape {s : String} (h : isCanonicalShape s = true) :
    CanonicalHash.new s = .ok ⟨s,h⟩ := by
  rw [CanonicalHash.new,if_neg (length_ne_zero_of_shape h),dif_pos h,validateSha256_of_shape h]

theorem validateForContract_ok {s t : String} (hok : validateForContract s = .ok t) :
    isCanonicalShape s = true ∧ t = s := by
  rw [validateForContract] at hok
  split at hok
  · cases hok
  · split at hok
    · split at hok
      · cases hok
      · split at hok <;> cases hok
    · next hshape =>
      have hshape : isCanonicalShape s = true := by simpa using hshape
      rw [validateSha256_of_shape hshape] at hok
      cases hok
      exact ⟨hshape,rfl⟩

theorem validateForContract_of_shape {s : String} (h : isCanonicalShape s = true) :
    validateForContract s = .ok s := by
  rw [validateForContract,if_neg (length_ne_zero_of_shape h),h,validateSha256_of_shape h]
  rfl

theorem hexEncode_injective : Function.Injective hexEncode := by
  have hall : ∀ a∈List.range 256, (hexNibble (hexDigit (UInt8.ofNat a >>> 4))).getD 0 <<< 4 |||
      (hexNibble (hexDigit (UInt8.ofNat a &&& 15))).getD 0 = UInt8.ofNat a := by decide +kernel
  have hdigits (b : UInt8) : (hexNibble (hexDigit (b >>> 4))).getD 0 <<< 4 |||
      (hexNibble (hexDigit (b &&& 15))).getD 0 = b := by
    have hb := hall b.toNat (List.mem_range.mpr b.toNat_lt)
    rwa [UInt8.ofNat_toNat] at hb
  intro l
  induction l with
  | nil =>
    intro m h
    cases m with
    | nil => rfl
    | cons b m => cases h
  | cons a l ih =>
    intro m h
    cases m with
    | nil => cases h
    | cons b m =>
      simp only [hexEncode,List.cons.injEq] at h
      obtain ⟨hhi,hlo,hrest⟩ := h
      rw [ih hrest,← hdigits a,← hdigits b,hhi,hlo]

theorem toBytes_eq (mapping : CaseMapping) {h : CanonicalHash} {bytes : List UInt8}
    (hb : asBytes h.inner = hexEncode bytes) : h.toBytes mapping = .ok bytes := by
  obtain ⟨bs,hbs⟩ := (hexToBytes32_ok_iff mapping h.inner).mpr h.canonical
  have hsame : bs = bytes := hexEncode_injective ((hexEncode_toBytes hbs).trans hb)
  rw [CanonicalHash.toBytes,hbs,hsame]

theorem toStellarMemoBase64_eq (encode : List UInt8 → String) (mapping : CaseMapping)
    (h : CanonicalHash) {bytes : List UInt8} (hb : hexEncode bytes = asBytes h.inner) :
    h.toStellarMemoBase64 encode mapping = .ok (encode bytes) := by
  have hlen := (isCanonicalShape_iff.mp h.canonical).1
  have hmemo : h.validateStellarMemo = .ok () := by
    simp [CanonicalHash.validateStellarMemo,detectAlgorithm,hlen]
  rw [CanonicalHash.toStellarMemoBase64,CanonicalHash.toStellarMemoHash,hmemo]
  change (h.toBytes mapping).map encode = _
  rw [toBytes_eq mapping hb.symm]
  rfl

/-- Every gate accepts the strings of exactly 64 bytes in `0-9` and `a-f`, and hands on the
string it was given. -/
theorem hash_gates_agree (mapping : CaseMapping) (s : String) :
    [∃ h, CanonicalHash.new s = .ok h,∃ t, validateForContract s = .ok t,
      isCanonical s .sha256 = true,∃ bs, hexToBytes32 mapping s = .ok bs,
      s≠"" ∧ validateSha256ConstantTime s = .ok (),
      (asBytes s).length = 64 ∧ ∀ b∈asBytes s,
        (48 ≤ b.toNat ∧ b.toNat ≤ 57) ∨ (97 ≤ b.toNat ∧ b.toNat ≤ 102)].TFAE ∧
    (∀ h, CanonicalHash.new s = .ok h → h.inner = s) ∧
    ∀ t, validateForContract s = .ok t → t = s := by
  refine ⟨?_,fun h hok => (canonicalHash_new_ok hok).2,fun t hok => (validateForContract_ok hok).2⟩
  tfae_have 3 → 1 := fun h => ⟨_,canonicalHash_new_of_shape h⟩
  tfae_have 1 → 3 := fun h => (canonicalHash_new_ok h.choose_spec).1
  tfae_have 3 → 2 := fun h => ⟨_,validateForContract_of_shape h⟩
  tfae_have 2 → 3 := fun h => (validateForContract_ok h.choose_spec).1
  tfae_have 4 ↔ 3 := hexToBytes32_ok_iff mapping s
  tfae_have 5 → 3 := fun h => (validateSha256_ok_iff s).mp h.2
  tfae_have 3 → 5 := by
    intro h
    refine ⟨fun hempty => ?_,validateSha256_of_shape h⟩
    exact length_ne_zero_of_shape h (by rw [hempty]; rfl)
  tfae_have 3 ↔ 6 := by
    refine isCanonicalShape_iff.trans (and_congr_right fun _ => ?_)
    simp only [List.all_eq_true,isHex_iff]
  tfae_finish

end ProofStell.Hash
