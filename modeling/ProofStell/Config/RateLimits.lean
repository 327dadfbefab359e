import ProofStell.Limiter.Tiers

/-! The rate-limit part of `AppConfig::from_env`: every variable falls back to its default,
and every violated rule adds a line to the errors. A configuration is accepted if there are
none, and no other part of `from_env` reads these variables. -/
namespace ProofStell.Config

abbrev Env := String → Option String

def getEnvOrDefault (env : Env) (key default : String) : String := (env key).getD default

/-- `str::parse` of an unsigned integer below `limit`: an optional plus sign and at least
one digit. -/
def parseUnsigned (limit : Nat) (s : String) : Option Nat :=
  let digits := match s.toList with
    | '+'::cs => cs
    | cs => cs
  if digits = [] ∨ ¬digits.all (·.isDigit) then none
  else
    let n := digits.foldl (fun n c => 10*n+(c.toNat-48)) 0
    if n < limit then some n else none

structure Unsigned (n : Type) where
  name : String
  parse : String → Option n

def u32 : Unsigned UInt32 := ⟨"u32",fun s => (parseUnsigned (2^32) s).map UInt32.ofNat⟩
def u64 : Unsigned UInt64 := ⟨"u64",fun s => (parseUnsigned (2^64) s).map UInt64.ofNat⟩

section
variable {n : Type}

abbrev Checked (α : Type) := α × List String

def number (ty : Unsigned n) (field raw : String) (fallback : n) : Checked n :=
  match ty.parse raw with
  | some v => (v,[])
  | none => (fallback,[field++" must be a valid "++ty.name++", got '"++raw++"'"])

def positive [OfNat n 0] [LT n] [DecidableLT n] (ty : Unsigned n) (field raw : String)
    (fallback : n) : Checked n :=
  match ty.parse raw with
  | some v => if v > 0 then (v,[]) else (fallback,[field++" must be greater than 0"])
  | none => (fallback,[field++" must be a valid "++ty.name++", got '"++raw++"'"])

theorem positive_pos [OfNat n 0] [LT n] [DecidableLT n] {ty : Unsigned n} {field raw : String}
    {fallback : n} (h : (positive ty field raw fallback).2 = []) :
    (positive ty field raw fallback).1 > 0 := by
  simp only [positive] at h ⊢
  split at h
  · split at h
    · next hv =>
      rw [if_pos hv]
      exact hv
    · cases h
  · cases h

end

def rule (violated : Bool) (text : String) : List String := if violated then [text] else []

structure RateLimits where
  rateLimitPerSecond : UInt32
  rateLimitBurst : UInt32
  perIssuerRateLimitPerSecond : UInt32
  perIssuerRateLimitBurst : UInt32
  issuerRateLimitTtlSeconds : UInt64
  perIssuerRateLimitJitterSeconds : UInt64
  deriving DecidableEq, Repr

def between (left : String) (a : Nat) (relation right : String) (b : Nat) : String :=
  left++" ("++toString a++") must "++relation++" "++right++" ("++toString b++")"

def rateLimits (env : Env) : Checked RateLimits :=
  let rateLimitPerSecondRaw := getEnvOrDefault env "RATE_LIMIT_PER_SECOND" "100"
  let rateLimitBurstRaw := getEnvOrDefault env "RATE_LIMIT_BURST" rateLimitPerSecondRaw
  let perIssuerRpsRaw := getEnvOrDefault env "PER_ISSUER_RATE_LIMIT_PER_SECOND" "10"
  let perIssuerBurstDefault :=
    toString (min (((u32.parse perIssuerRpsRaw).getD 10).toNat*2) (2^32-1))
  let perIssuerBurstRaw := getEnvOrDefault env "PER_ISSUER_RATE_LIMIT_BURST" perIssuerBurstDefault
  let issuerTtlRaw := getEnvOrDefault env "ISSUER_RATE_LIMIT_TTL_SECONDS" "3600"
  let perIssuerJitterRaw := getEnvOrDefault env "PER_ISSUER_RATE_LIMIT_JITTER_SECONDS" "0"
  let (rateLimitPerSecond,e1) := positive u32 "RATE_LIMIT_PER_SECOND" rateLimitPerSecondRaw 100
  let (rateLimitBurst,e2) :=
    number u32 "RATE_LIMIT_BURST" rateLimitBurstRaw rateLimitPerSecond
  let e3 := rule (rateLimitBurst == 0) "RATE_LIMIT_BURST must be greater than 0"
  let e4 := rule (rateLimitBurst < rateLimitPerSecond)
    (between "RATE_LIMIT_BURST" rateLimitBurst.toNat "be >=" "RATE_LIMIT_PER_SECOND"
      rateLimitPerSecond.toNat)
  let (perIssuerRateLimitPerSecond,e5) :=
    positive u32 "PER_ISSUER_RATE_LIMIT_PER_SECOND" perIssuerRpsRaw 10
  let (perIssuerRateLimitBurst,e6) :=
    positive u32 "PER_ISSUER_RATE_LIMIT_BURST" perIssuerBurstRaw (perIssuerRateLimitPerSecond*2)
  let e7 := rule (perIssuerRateLimitBurst < perIssuerRateLimitPerSecond)
    (between "PER_ISSUER_RATE_LIMIT_BURST" perIssuerRateLimitBurst.toNat "be >="
      "PER_ISSUER_RATE_LIMIT_PER_SECOND" perIssuerRateLimitPerSecond.toNat)
  let e8 := rule (perIssuerRateLimitPerSecond > rateLimitPerSecond)
    (between "PER_ISSUER_RATE_LIMIT_PER_SECOND" perIssuerRateLimitPerSecond.toNat "not exceed"
      "RATE_LIMIT_PER_SECOND" rateLimitPerSecond.toNat)
  let (issuerRateLimitTtlSeconds,e9) :=
    positive u64 "ISSUER_RATE_LIMIT_TTL_SECONDS" issuerTtlRaw 3600
  let (perIssuerRateLimitJitterSeconds,e10) :=
    number u64 "PER_ISSUER_RATE_LIMIT_JITTER_SECONDS" perIssuerJitterRaw 0
  let e11 := rule (perIssuerRateLimitJitterSeconds ≥ issuerRateLimitTtlSeconds)
    (between "PER_ISSUER_RATE_LIMIT_JITTER_SECONDS" perIssuerRateLimitJitterSeconds.toNat "be <"
      "ISSUER_RATE_LIMIT_TTL_SECONDS" issuerRateLimitTtlSeconds.toNat)
  (⟨rateLimitPerSecond,rateLimitBurst,perIssuerRateLimitPerSecond,perIssuerRateLimitBurst,
    issuerRateLimitTtlSeconds,perIssuerRateLimitJitterSeconds⟩,
    e1++e2++e3++e4++e5++e6++e7++e8++e9++e10++e11)

def RateLimits.fromConfig (cfg : RateLimits) : Limiter.RateLimitConfig :=
  ⟨cfg.rateLimitPerSecond,cfg.rateLimitBurst,cfg.perIssuerRateLimitPerSecond,
    cfg.perIssuerRateLimitBurst,cfg.issuerRateLimitTtlSeconds,cfg.perIssuerRateLimitJitterSeconds⟩

theorem accepted_positive {env : Env} {cfg : RateLimits} (h : rateLimits env = (cfg,[])) :
    0 < cfg.perIssuerRateLimitPerSecond.toNat ∧ 0 < cfg.perIssuerRateLimitBurst.toNat := by
  have herrors := congrArg Prod.snd h
  have hcfg := congrArg Prod.fst h
  simp only [rateLimits,List.append_eq_nil_iff] at herrors
  simp only [rateLimits] at hcfg
  obtain ⟨⟨⟨⟨⟨⟨⟨_,hrate⟩,hburst⟩,_⟩,_⟩,_⟩,_⟩,_⟩ := herrors
  rw [← hcfg]
  exact ⟨UInt32.lt_iff_toNat_lt.mp (positive_pos hrate),
    UInt32.lt_iff_toNat_lt.mp (positive_pos hburst)⟩

example : rateLimits (fun _ => none) = (⟨100,100,10,20,3600,0⟩,[]) := by decide +kernel

end ProofStell.Config
