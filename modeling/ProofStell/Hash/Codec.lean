import ProofStell.Hash.Gates

/-! The hex text of 32 bytes and back. The decoder checks the length of the trimmed and
lowercased text and then walks the raw one, so its indices are safe only because a digit is
neither trimmed nor changed. -/
namespace ProofStell.Hash

/-- `encode` is `hex::encode`; no value when the debug assertion fails. -/
def CanonicalHash.fromBytes (encode : List UInt8 → String) (bytes : List UInt8) :
    Option CanonicalHash :=
  let hex := encode bytes
  if h : isCanonicalShape hex = true then some ⟨hex,h⟩ else none

theorem utf8EncodeChar_hex {c : Char} (h : isHexChar c = true) :
    ∃ b, String.utf8EncodeChar c = [b] ∧ isHex b = true := by
  obtain ⟨b,bs,hc,hhex,hascii⟩ := utf8EncodeChar_head c
  have hbs := (hascii (by rw [isHexChar_iff] at h; omega)).1
  exact ⟨b,by rw [hc,hbs],hhex.trans h⟩

theorem hexChars_of_hexPrefix {p q : List UInt8} (hp : p.all isHex = true) {l : List Char}
    (hl : l.flatMap String.utf8EncodeChar = p++q) :
    ∃ cs ds, l = cs++ds ∧ cs.length = p.length ∧ ∀ c∈cs, isHexChar c = true := by
  induction p generalizing l with
  | nil => exact ⟨[],l,rfl,rfl,by simp⟩
  | cons a p ih =>
    rw [List.all_cons,Bool.and_eq_true] at hp
    cases l with
    | nil => cases hl
    | cons c l =>
      obtain ⟨b,bs,hc,hhex,_⟩ := utf8EncodeChar_head c
      rw [List.flatMap_cons,hc,List.cons_append,List.cons_append,List.cons.injEq] at hl
      have hdigit : isHexChar c = true := by rw [← hhex,hl.1,hp.1]
      obtain ⟨b',hb',_⟩ := utf8EncodeChar_hex hdigit
      have hbs : bs = [] := (List.cons.inj (hc.symm.trans hb')).2
      rw [hbs,List.nil_append] at hl
      obtain ⟨cs,ds,hcs,hlen,hall⟩ := ih hp.2 hl.2
      refine ⟨c::cs,ds,by rw [hcs,List.cons_append],by rw [List.length_cons,List.length_cons,hlen],
        ?_⟩
      intro d hd
      rcases List.mem_cons.mp hd with rfl|hd
      · exact hdigit
      · exact hall d hd

theorem trim_hex_append {cs : List Char} (h : ∀ c∈cs, isHexChar c = true) (hne : cs≠[])
    (ds : List Char) : ∃ es, trim (cs++ds) = cs++es := by
  have hfront : (cs++ds).dropWhile isWhitespace = cs++ds := by
    cases cs with
    | nil => exact absurd rfl hne
    | cons c cs =>
      rw [List.cons_append,List.dropWhile_cons,
        if_neg (by simp [isWhitespace_of_hex (h c List.mem_cons_self)])]
  rw [trim,hfront,List.reverse_append,List.dropWhile_append,
    dropWhile_hex fun c hc => h c (List.mem_reverse.mp hc)]
  split
  · exact ⟨[],by rw [List.reverse_reverse,List.append_nil]⟩
  · exact ⟨_,by rw [List.reverse_append,List.reverse_reverse]⟩

theorem length_flatMap_hex {cs : List Char} (h : ∀ c∈cs, isHexChar c = true) :
    (cs.flatMap String.utf8EncodeChar).length = cs.length := by
  induction cs with
  | nil => rfl
  | cons c cs ih =>
    obtain ⟨b,hb,_⟩ := utf8EncodeChar_hex (h c List.mem_cons_self)
    rw [List.flatMap_cons,hb,List.length_append,ih fun d hd => h d (List.mem_cons_of_mem c hd),
      List.length_cons,List.length_cons,List.length_nil]
    omega

/-- The normalised text is at least as long as the digits it starts with. -/
theorem length_le_normalize (mapping : CaseMapping) {s : String} {p q : List UInt8}
    (hp : p.all isHex = true) (hne : p≠[]) (hs : asBytes s = p++q) :
    p.length ≤ (asBytes (normalize mapping s)).length := by
  rw [asBytes_eq_flatMap] at hs
  obtain ⟨cs,ds,hcs,hlen,hall⟩ := hexChars_of_hexPrefix hp hs
  have hcs' : cs≠[] := by
    intro hnil
    rw [hnil] at hlen
    exact hne (List.length_eq_zero_iff.mp hlen.symm)
  obtain ⟨es,hes⟩ := trim_hex_append hall hcs' ds
  rw [asBytes_eq_flatMap,normalize,String.toList_ofList,hcs,hes,
    toLowercase_hex_append mapping [] hall,List.flatMap_append,List.length_append,
    length_flatMap_hex hall,hlen]
  omega

theorem nibbleAt_cases (b : UInt8) (position : Nat) :
    (∃ e, nibbleAt b position = .error (.err e)) ∨
      ∃ n, nibbleAt b position = .ok n ∧ isHex b = true := by
  rw [nibbleAt,hexNibble,isHex]
  split
  · next hn =>
    refine .inr ⟨_,rfl,?_⟩
    split at hn
    · next hdigit => rw [hdigit,Bool.true_or]
    · split at hn
      · next hletter => rw [hletter,Bool.or_true]
      · cases hn
  · exact .inl ⟨_,rfl⟩

/-- An index leaves its range only after digits: an odd number of them that are the whole text,
or two for each place of the array and two more. -/
theorem decodeChunks_panic {i : Nat} {bytes l : List UInt8}
    (h : decodeChunks i bytes l = .error .panic) : ∃ p q, l = p++q ∧ p.all isHex = true ∧
      (q = [] ∧ p.length % 2 = 1 ∨ p.length = 2*(bytes.length-i)+2) := by
  induction i, bytes, l using decodeChunks.induct with
  | case1 i bytes => cases h
  | case2 i bytes a =>
    rw [decodeChunks] at h
    obtain ⟨e,he⟩|⟨n,hn,ha⟩ := nibbleAt_cases a (i*2)
    · rw [he] at h
      cases h
    · exact ⟨[a],[],rfl,by rw [List.all_cons,ha]; rfl,.inl ⟨rfl,rfl⟩⟩
  | case3 i bytes a b rest ih =>
    rw [decodeChunks] at h
    obtain ⟨e,he⟩|⟨hi,hhi,ha⟩ := nibbleAt_cases a (i*2)
    · rw [he] at h
      cases h
    obtain ⟨e,he⟩|⟨lo,hlo,hb⟩ := nibbleAt_cases b (i*2+1)
    · rw [hhi,he] at h
      cases h
    rw [hhi,hlo] at h
    simp only [bind,Except.bind] at h
    split at h
    · obtain ⟨p,q,hrest,hp,hlen⟩ := ih hi lo h
      refine ⟨a::b::p,q,by rw [hrest]; rfl,by rw [List.all_cons,List.all_cons,ha,hb,hp]; rfl,?_⟩
      rw [List.length_set] at hlen
      rw [List.length_cons,List.length_cons]
      exact hlen.imp (fun hodd => ⟨hodd.1,by omega⟩) (by omega)
    · refine ⟨[a,b],rest,rfl,by rw [List.all_cons,List.all_cons,ha,hb]; rfl,.inr ?_⟩
      rw [List.length_cons,List.length_cons,List.length_nil]
      omega

theorem validateWithLength_ok_length {mapping : CaseMapping} {s : String} {n : Nat}
    (h : validateWithLength mapping s n = .ok ()) :
    (asBytes (normalize mapping s)).length = n := by
  simp only [validateWithLength] at h
  split at h
  · cases h
  · split at h
    · cases h
    · next hlen => exact not_not.mp hlen

theorem hexToBytes32_ne_panic (mapping : CaseMapping) (s : String) :
    hexToBytes32 mapping s≠.error .panic := by
  intro h
  rw [hexToBytes32] at h
  split at h
  · cases h
  · next hvalid =>
    have hnorm := validateWithLength_ok_length hvalid
    obtain ⟨p,q,hs,hp,⟨rfl,hodd⟩|hlong⟩ := decodeChunks_panic h
    · rw [List.append_nil] at hs
      rw [← hs] at hp hodd
      rw [normalize_hex mapping (hexChars_of_bytes hp)] at hnorm
      omega
    · rw [List.length_replicate] at hlong
      have hne : p≠[] := by
        intro hnil
        rw [hnil] at hlong
        cases hlong
      have hle := length_le_normalize mapping hp hne hs
      omega

def WritesDigits (encode : List UInt8 → String) : Prop :=
  ∀ bytes, asBytes (encode bytes) = hexEncode bytes

theorem fromBytes_eq {encode : List UInt8 → String} (henc : WritesDigits encode)
    {bytes : List UInt8} (hlen : bytes.length = 32) :
    ∃ h : CanonicalHash, CanonicalHash.fromBytes encode bytes = some h ∧
      h.inner = encode bytes := by
  have hshape : isCanonicalShape (encode bytes) = true := by
    refine isCanonicalShape_iff.mpr ⟨?_,?_⟩
    · rw [henc,hexEncode_length,hlen]
    · rw [henc]
      exact hexEncode_isHex bytes
  exact ⟨⟨_,hshape⟩,dif_pos hshape,rfl⟩

/-- Bytes and canonical hashes are the same data, and no text takes the decoder out of its
arrays. -/
theorem hex_codec_round_trip (encode : List UInt8 → String) (henc : WritesDigits encode)
    (mapping : CaseMapping) :
    (∀ bytes : List UInt8, bytes.length = 32 → ∃ h : CanonicalHash,
      CanonicalHash.fromBytes encode bytes = some h ∧ h.inner = encode bytes ∧
        isCanonicalShape h.inner = true ∧ h.toBytes mapping = .ok bytes) ∧
    (∀ h : CanonicalHash, ∃ bytes, h.toBytes mapping = .ok bytes ∧ bytes.length = 32 ∧
      CanonicalHash.fromBytes encode bytes = some h) ∧
    ∀ s, (∃ bytes, hexToBytes32 mapping s = .ok bytes) ∨
      ∃ e, hexToBytes32 mapping s = .error (.err e) := by
  refine ⟨fun bytes hlen => ?_,fun h => ?_,fun s => ?_⟩
  · obtain ⟨h,hfrom,hinner⟩ := fromBytes_eq henc hlen
    exact ⟨h,hfrom,hinner,h.canonical,toBytes_eq mapping (by rw [hinner,henc])⟩
  · obtain ⟨bytes,hbytes⟩ := (hexToBytes32_ok_iff mapping h.inner).mpr h.canonical
    have hspell : hexEncode bytes = asBytes h.inner := hexEncode_toBytes hbytes
    have hlen : bytes.length = 32 := by
      have h64 := (isCanonicalShape_iff.mp h.canonical).1
      rw [← hspell,hexEncode_length] at h64
      omega
    have hback : encode bytes = h.inner := asBytes_injective ((henc bytes).trans hspell)
    refine ⟨bytes,hbytes,hlen,?_⟩
    obtain ⟨inner,canonical⟩ := h
    subst hback
    exact dif_pos canonical
  · cases hs : hexToBytes32 mapping s with
    | ok bytes => exact .inl ⟨bytes,rfl⟩
    | error f =>
      cases f with
      | err e => exact .inr ⟨e,rfl⟩
      | panic => exact absurd hs (hexToBytes32_ne_panic mapping s)

def digitString (bytes : List UInt8) : String :=
  String.ofList ((hexEncode bytes).map fun b => Char.ofNat b.toNat)

theorem digitString_writesDigits : WritesDigits digitString := by
  intro bytes
  have hall : ∀ a∈List.range 128, String.utf8EncodeChar (Char.ofNat a) = [UInt8.ofNat a] := by
    decide +kernel
  have digits (l : List UInt8) (hl : l.all isHex = true) :
      (l.map fun b => Char.ofNat b.toNat).flatMap String.utf8EncodeChar = l := by
    induction l with
    | nil => rfl
    | cons b l ih =>
      rw [List.all_cons,Bool.and_eq_true] at hl
      have hb := isHex_iff.mp hl.1
      rw [List.map_cons,List.flatMap_cons,ih hl.2,
        hall b.toNat (List.mem_range.mpr (by omega)),UInt8.ofNat_toNat]
      rfl
  rw [asBytes_eq_flatMap,digitString,String.toList_ofList]
  exact digits (hexEncode bytes) (hexEncode_isHex bytes)

/-- The hash of 32 zero bytes is 64 zeros. -/
theorem hex_codec_zeros : WritesDigits digitString ∧ ∃ h : CanonicalHash,
    CanonicalHash.fromBytes digitString (List.replicate 32 0) = some h ∧
      h.inner = digitString (List.replicate 32 0) ∧ isCanonicalShape h.inner = true ∧
      h.toBytes ⟨fun _ c _ => [c],by simp⟩ = .ok (List.replicate 32 0) :=
  ⟨digitString_writesDigits,
    (hex_codec_round_trip digitString digitString_writesDigits ⟨fun _ c _ => [c],by simp⟩).1
      (List.replicate 32 0) (by rfl)⟩

end ProofStell.Hash
