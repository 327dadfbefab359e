import ProofStell.Lib.Transact
import ProofStell.Lib.Saturating

/-! Data model of the Soroban contract in `lib.rs`: ledger keys, the values stored
under them, errors, events, and the host primitives the entry points call.
Addresses and symbols are host handles that the contract only compares. -/
namespace ProofStell.Contract
open Transact

abbrev Hash := Vector UInt8 32

inductive DocumentStatus where
  | active | revoked
  deriving DecidableEq, Repr

structure DocumentRecord (Address : Type) where
  issuer : Address
  owner : Address
  timestamp : UInt64
  status : DocumentStatus
  deriving DecidableEq, Repr

structure DocumentInfo (Address : Type) where
  owner : Address
  documentHash : Hash

structure RateLimitConfig where
  perAddressPerSecond : UInt32
  perAddressBurst : UInt32
  perIssuerPerSecond : UInt32
  perIssuerBurst : UInt32
  deriving DecidableEq, Repr

def RateLimitConfig.default : RateLimitConfig := ⟨100,200,100,200⟩

structure RateLimitBucketState where
  tokens : UInt32
  lastRefill : UInt64
  deriving DecidableEq, Repr

inductive RateLimitScope (Address : Type) where
  | address (a : Address)
  | issuer (a : Address)
  deriving DecidableEq, Repr

inductive DataKey (Address Symbol : Type) where
  | document (h : Hash)
  | admin
  | version
  | featureFlag (flag : Symbol)
  | rateLimitConfig
  | rateLimitState (scope : RateLimitScope Address)
  | rateLimitRetryAfter (scope : RateLimitScope Address)
  deriving DecidableEq

/-- The type of the value each key holds. -/
@[reducible] def DataKey.Val {Address Symbol : Type} : DataKey Address Symbol → Type
  | .document _ => DocumentRecord Address
  | .admin => Address
  | .version => UInt32
  | .featureFlag _ => Bool
  | .rateLimitConfig => RateLimitConfig
  | .rateLimitState _ => RateLimitBucketState
  | .rateLimitRetryAfter _ => UInt64

/-- Persistent storage: every key is absent or holds a value of its own type. -/
abbrev Storage (Address Symbol : Type) := (k : DataKey Address Symbol) → Option k.Val

def CONTRACT_VERSION : UInt32 := 1
def MAX_BATCH_SIZE : Nat := 20

inductive ContractError where
  | documentNotFound | alreadyRegistered | onlyIssuerCanRevoke | alreadyRevoked
  | invalidOwner | invalidIssuer | batchTooLarge | batchEmpty
  | alreadyInitialized | notInitialized | unauthorized | migrationNotNeeded
  | rateLimitExceeded
  deriving DecidableEq, Repr

inductive Event (Address : Type) where
  | documentRegistered (issuer owner : Address) (documentHash : Hash)
  | documentRevoked (issuer : Address) (documentHash : Hash)
  | contractInitialized (admin : Address) (version : UInt32)
  | contractUpgraded (admin : Address) (oldVersion newVersion : UInt32)
  deriving DecidableEq

/-- How an invocation fails: a `ContractError` of its own, or a trap of the host
(a missing authorisation, a WASM hash that was never uploaded). -/
inductive Fault where
  | error (e : ContractError)
  | trap
  deriving DecidableEq, Repr

structure Env (Address : Type) where
  timestamp : UInt64
  auth : Address → Bool
  uploaded : Hash → Bool

/-- Ledger state of the contract: its storage, its event log and its executable. -/
structure World (Address Symbol : Type) where
  storage : Storage Address Symbol
  events : List (Event Address)
  wasm : Hash

def World.initial (Address Symbol : Type) (wasm : Hash) : World Address Symbol :=
  ⟨fun _ => none,[],wasm⟩

variable {Address Symbol : Type}

abbrev Exec (Address Symbol α : Type) := Transact.Exec (World Address Symbol) Fault α

def requireAuth (env : Env Address) (a : Address) : Exec Address Symbol Unit :=
  Exec.require (env.auth a) .trap

def getKey (k : DataKey Address Symbol) : Exec Address Symbol (Option k.Val) :=
  Exec.read fun w => w.storage k

def hasKey (k : DataKey Address Symbol) : Exec Address Symbol Bool :=
  Exec.read fun w => (w.storage k).isSome

section
variable [DecidableEq Address] [DecidableEq Symbol]

def World.put (w : World Address Symbol) (k : DataKey Address Symbol) (v : Option k.Val) :
    World Address Symbol :=
  { w with storage := Function.update w.storage k v }

def setKey (k : DataKey Address Symbol) (v : k.Val) : Exec Address Symbol Unit :=
  Exec.write fun w => w.put k (some v)

def removeKey (k : DataKey Address Symbol) : Exec Address Symbol Unit :=
  Exec.write fun w => w.put k none

@[simp] theorem put_storage_self (w : World Address Symbol) (k : DataKey Address Symbol)
    (v : Option k.Val) : (w.put k v).storage k = v := by
  simp [World.put]

theorem put_storage_ne (w : World Address Symbol) {k j : DataKey Address Symbol}
    (v : Option k.Val) (h : j≠k) : (w.put k v).storage j = w.storage j := by
  simp [World.put,h]

@[simp] theorem put_events (w : World Address Symbol) (k : DataKey Address Symbol)
    (v : Option k.Val) : (w.put k v).events = w.events := rfl
@[simp] theorem put_wasm (w : World Address Symbol) (k : DataKey Address Symbol)
    (v : Option k.Val) : (w.put k v).wasm = w.wasm := rfl
end

def World.emit (w : World Address Symbol) (e : Event Address) : World Address Symbol :=
  { w with events := w.events++[e] }

def publish (e : Event Address) : Exec Address Symbol Unit := Exec.write fun w => w.emit e

@[simp] theorem emit_storage (w : World Address Symbol) (e : Event Address) :
    (w.emit e).storage = w.storage := rfl
@[simp] theorem emit_events (w : World Address Symbol) (e : Event Address) :
    (w.emit e).events = w.events++[e] := rfl
@[simp] theorem emit_wasm (w : World Address Symbol) (e : Event Address) :
    (w.emit e).wasm = w.wasm := rfl

/-- `env.deployer().update_current_contract_wasm`: traps unless the code was uploaded. -/
def updateCurrentContractWasm (env : Env Address) (newWasmHash : Hash) :
    Exec Address Symbol Unit := do
  Exec.require (env.uploaded newWasmHash) .trap
  Exec.write fun w => { w with wasm := newWasmHash }

end ProofStell.Contract
