import ProofStell.Lib.CasLoop
import ProofStell.Lib.Saturating
import ProofStell.Lib.TokenBucket
import ProofStell.Hash.Canonical

/-! The lock-free bucket of one issuer: last refill time and milli-tokens share one
word, and a call swaps in the refilled and charged word. -/
namespace ProofStell.Limiter

def MILLI : UInt64 := 1000

def pack (secs milli : UInt32) : UInt64 := secs.toUInt64 <<< 32 ||| milli.toUInt64

def unpack (v : UInt64) : UInt32 × UInt32 := ((v >>> 32).toUInt32,(v &&& 0xFFFFFFFF).toUInt32)

/-- FNV-1a over the bytes of the issuer. -/
def deterministicJitter (issuer : String) (window : UInt64) : UInt64 :=
  if window = 0 then 0
  else
    (Hash.asBytes issuer).foldl (fun hash b => (hash ^^^ b.toUInt64)*0x100000001b3)
      0xcbf29ce484222325 % window

structure ConsumeOutcome where
  granted : Bool
  refilledMilli : UInt64
  reset : Bool
  deriving DecidableEq, Repr

structure AtomicTokenBucket where
  state : UInt64
  capacityMilli : UInt32
  refillMilliPerSec : UInt32
  jitterOffset : UInt64
  deriving DecidableEq, Repr

/-- `units.clamp(1, max_units)` for the largest number of units whose milli-units fit. -/
def clampUnits (units : UInt32) : UInt32 := min (max units 1) (max (0xFFFFFFFF/MILLI.toUInt32) 1)

namespace AtomicTokenBucket

def new (burst perSecond : UInt32) (jitterSeconds : UInt64) (issuer : String) (now : UInt64) :
    AtomicTokenBucket :=
  let capacityMilli := clampUnits burst*MILLI.toUInt32
  let refillMilliPerSec := clampUnits perSecond*MILLI.toUInt32
  ⟨pack now.toUInt32 capacityMilli,capacityMilli,refillMilliPerSec,
    deterministicJitter issuer jitterSeconds⟩

def refilled (b : AtomicTokenBucket) (tokensMilli last : UInt32) (now : UInt64) : UInt32 :=
  let elapsed := Saturating.sub64 now last.toUInt64
  let add := Saturating.mul64 elapsed b.refillMilliPerSec.toUInt64
  (min (tokensMilli.toUInt64+add) b.capacityMilli.toUInt64).toUInt32

def attempt (b : AtomicTokenBucket) (now cur : UInt64) : CasLoop.Decision UInt64 ConsumeOutcome :=
  let (last,tokensMilli) := unpack cur
  let refilled := b.refilled tokensMilli last now
  let refillAdded := (Saturating.sub32 refilled tokensMilli).toUInt64
  let reset := tokensMilli == 0 && refilled > 0
  if refilled ≥ MILLI.toUInt32 then
    .swap (pack now.toUInt32 (refilled-MILLI.toUInt32)) ⟨true,refillAdded,reset⟩
  else
    let next := pack now.toUInt32 refilled
    if cur = next then .stay ⟨false,0,false⟩ else .swap next ⟨false,refillAdded,reset⟩

def tryConsume (now : UInt64) (b : AtomicTokenBucket) : ConsumeOutcome × AtomicTokenBucket :=
  let (outcome,state) := CasLoop.alone b.attempt now b.state
  (outcome,{ b with state := state })

def tokensAt (b : AtomicTokenBucket) (now : UInt64) : UInt32 :=
  b.refilled (unpack b.state).2 (unpack b.state).1 now

def resetAt (b : AtomicTokenBucket) (tokensMilli : UInt32) (now : UInt64) : UInt64 :=
  let deficit := (Saturating.sub32 b.capacityMilli tokensMilli).toUInt64
  let secsToFull :=
    if b.refillMilliPerSec = 0 then 0
    else divCeil deficit b.refillMilliPerSec.toUInt64
  now+secsToFull+b.jitterOffset
where
  divCeil (a d : UInt64) : UInt64 := if a % d = 0 then a/d else a/d+1

def snapshot (b : AtomicTokenBucket) (now : UInt64) : UInt32 × UInt64 :=
  (b.tokensAt now/MILLI.toUInt32,b.resetAt (b.tokensAt now) now)

def timeToNextToken (b : AtomicTokenBucket) (now : UInt64) : UInt64 :=
  if b.tokensAt now ≥ MILLI.toUInt32 then 0
  else if b.refillMilliPerSec = 0 then 1
  else max (resetAt.divCeil (MILLI-(b.tokensAt now).toUInt64) b.refillMilliPerSec.toUInt64) 1

def lastSeen (b : AtomicTokenBucket) : UInt64 := (unpack b.state).1.toUInt64

theorem granted_iff (b : AtomicTokenBucket) (t : UInt64) :
    (tryConsume t b).1.granted = true ↔ 1000 ≤ (b.tokensAt t).toNat := by
  have hmilli : MILLI.toUInt32.toNat = 1000 := rfl
  rw [← hmilli,← UInt32.le_iff_toNat_le]
  simp only [tryConsume,CasLoop.alone,attempt,tokensAt]
  split
  · next h => exact ⟨fun _ => h,fun _ => rfl⟩
  · next h =>
    split
    · exact ⟨fun hg => (by cases hg),fun hle => absurd hle h⟩
    · exact ⟨fun hg => (by cases hg),fun hle => absurd hle h⟩

end AtomicTokenBucket

theorem pack_toNat (secs milli : UInt32) :
    (pack secs milli).toNat = secs.toNat*2^32+milli.toNat := by
  have hs := secs.toNat_lt
  have hm := milli.toNat_lt
  simp only [pack,UInt64.toNat_or,UInt64.toNat_shiftLeft,UInt32.toNat_toUInt64]
  rw [show (32 : UInt64).toNat % 64 = 32 from rfl,Nat.shiftLeft_eq,
    Nat.mod_eq_of_lt (by omega),← Nat.shiftLeft_eq,← Nat.shiftLeft_add_eq_or_of_lt hm,
    Nat.shiftLeft_eq]

@[simp] theorem unpack_pack (secs milli : UInt32) : unpack (pack secs milli) = (secs,milli) := by
  have hm := milli.toNat_lt
  have hs := secs.toNat_lt
  have hp := pack_toNat secs milli
  refine Prod.ext (UInt32.toNat_inj.mp ?_) (UInt32.toNat_inj.mp ?_)
  · simp only [unpack,UInt64.toNat_toUInt32,UInt64.toNat_shiftRight,hp]
    rw [show (32 : UInt64).toNat % 64 = 32 from rfl,Nat.shiftRight_eq_div_pow]
    omega
  · simp only [unpack,UInt64.toNat_toUInt32,UInt64.toNat_and,hp]
    rw [show (0xFFFFFFFF : UInt64).toNat = 2^32-1 from rfl,Nat.and_two_pow_sub_one_eq_mod]
    omega

theorem clampUnits_toNat (units : UInt32) :
    (clampUnits units).toNat = min (max units.toNat 1) 4294967 := by
  rw [clampUnits,Saturating.min32_toNat,Saturating.max32_toNat]
  rfl

theorem clampUnits_pos (units : UInt32) : 0 < (clampUnits units).toNat := by
  rw [clampUnits_toNat]
  omega

theorem clampUnits_of_pos {units : UInt32} (h : 0 < units.toNat) :
    (clampUnits units).toNat = min units.toNat 4294967 := by
  rw [clampUnits_toNat]
  omega

theorem milli_units_toNat (units : UInt32) :
    (clampUnits units*MILLI.toUInt32).toNat = 1000*(clampUnits units).toNat := by
  have h := clampUnits_toNat units
  rw [UInt32.toNat_mul,show MILLI.toUInt32.toNat = 1000 from rfl]
  omega

/-- The abstract bucket a word stands for. -/
def wordView (v : UInt64) : TokenBucket.Bucket := ⟨(unpack v).2.toNat,(unpack v).1.toNat⟩

namespace AtomicTokenBucket

def abstractStep (b : AtomicTokenBucket) (now : Nat) :
    TokenBucket.Bucket → Bool × TokenBucket.Bucket :=
  TokenBucket.consume b.capacityMilli.toNat b.refillMilliPerSec.toNat 1000 now

theorem refilled_toNat (b : AtomicTokenBucket) (cur : UInt64) {now : UInt64}
    (hnow : now.toNat < 2^32) :
    (b.refilled (unpack cur).2 (unpack cur).1 now).toNat =
      (wordView cur).refill b.capacityMilli.toNat b.refillMilliPerSec.toNat now.toNat := by
  have ht := (unpack cur).2.toNat_lt
  have hc := b.capacityMilli.toNat_lt
  have hr := b.refillMilliPerSec.toNat_lt
  -- neither the product nor the sum leaves 64 bits
  have hmul : (now.toNat-(unpack cur).1.toNat)*b.refillMilliPerSec.toNat ≤ (2^32-1)*(2^32-1) :=
    Nat.mul_le_mul (by omega) (by omega)
  rw [Nat.mul_comm] at hmul
  simp only [refilled,TokenBucket.Bucket.refill,wordView,UInt64.toNat_toUInt32,
    Saturating.min64_toNat,
    UInt64.toNat_add,UInt32.toNat_toUInt64,Saturating.mul64_toNat,Saturating.sub64_toNat]
  rw [Nat.mul_comm (now.toNat-_)]
  omega

/-- One undisturbed call is one request to the abstract bucket. -/
theorem alone_attempt (b : AtomicTokenBucket) (cur : UInt64) {now : UInt64}
    (hnow : now.toNat < 2^32) :
    b.abstractStep now.toNat (wordView cur) =
      ((CasLoop.alone b.attempt now cur).1.granted,
        wordView (CasLoop.alone b.attempt now cur).2) := by
  have href := b.refilled_toNat cur hnow
  have hstamp : now.toUInt32.toNat = now.toNat := by
    rw [UInt64.toNat_toUInt32]
    exact Nat.mod_eq_of_lt hnow
  have hmilli : MILLI.toUInt32.toNat = 1000 := rfl
  simp only [abstractStep,TokenBucket.consume,CasLoop.alone,attempt,ge_iff_le,
    UInt32.le_iff_toNat_le,hmilli,href]
  split
  · next h =>
    have hle : MILLI.toUInt32 ≤ b.refilled (unpack cur).2 (unpack cur).1 now := by
      rw [UInt32.le_iff_toNat_le,href]
      exact h
    simp [CasLoop.Decision.apply,wordView,hstamp,UInt32.toNat_sub_of_le _ _ hle,href,hmilli]
  · split
    · next heq =>
      rw [CasLoop.Decision.apply]
      conv_rhs => rw [heq]
      simp [wordView,hstamp,href]
    · simp [CasLoop.Decision.apply,wordView,hstamp,href]

end AtomicTokenBucket
end ProofStell.Limiter
