import ProofStell.Contract.Types
import ProofStell.Lib.Machine

/-! The entry points of `ProofStellContract`, and an invocation of one of them
behind the host's rollback of everything a failing invocation wrote. -/
namespace ProofStell.Contract
open Transact
variable {Address Symbol : Type}

def rateLimitConfig (w : World Address Symbol) : RateLimitConfig :=
  (w.storage .rateLimitConfig).getD .default

def RateLimitConfig.limits (config : RateLimitConfig) : RateLimitScope Address → UInt32 × UInt32
  | .address _ => (config.perAddressBurst,config.perAddressPerSecond)
  | .issuer _ => (config.perIssuerBurst,config.perIssuerPerSecond)

/-- The bucket of `scope` as the check at time `now` reads it; a first use finds it full. -/
def bucketAt (w : World Address Symbol) (config : RateLimitConfig) (now : UInt64)
    (scope : RateLimitScope Address) : RateLimitBucketState :=
  (w.storage (.rateLimitState scope)).getD ⟨(config.limits scope).1,now⟩

/-- `state.tokens.saturating_add(refill as u32).min(capacity)`, the cast being a truncation. -/
def refilledTokens (state : RateLimitBucketState) (now : UInt64) (capacity perSecond : UInt32) :
    UInt32 :=
  let elapsed := Saturating.sub64 now state.lastRefill
  let refill := Saturating.mul64 elapsed perSecond.toUInt64
  min (Saturating.add32 state.tokens refill.toUInt32) capacity

def retryAfter (perSecond : UInt32) : UInt64 :=
  if perSecond>0 then max (1/perSecond.toUInt64) 1 else 1

section
variable [DecidableEq Address] [DecidableEq Symbol]

/-- One round of the loop in `check_rate_limit`. A rejection records the retry
guidance and fails in the same breath. -/
def chargeScope (env : Env Address) (config : RateLimitConfig) (scope : RateLimitScope Address) :
    Exec Address Symbol Unit := do
  let state ← Exec.read fun w => bucketAt w config env.timestamp scope
  let tokens := refilledTokens state env.timestamp (config.limits scope).1 (config.limits scope).2
  if tokens=0 then
    setKey (.rateLimitRetryAfter scope) (retryAfter (config.limits scope).2)
    Exec.fail (.error .rateLimitExceeded)
  else
    setKey (.rateLimitState scope) ⟨Saturating.sub32 tokens 1,env.timestamp⟩
    removeKey (.rateLimitRetryAfter scope)

def checkRateLimit (env : Env Address) (caller issuer : Address) : Exec Address Symbol Unit := do
  let config ← Exec.read rateLimitConfig
  let _ ← Exec.each (chargeScope env config) [.address caller,.issuer issuer]
  return ()

def registerBody (env : Env Address) (issuer owner : Address) (documentHash : Hash) :
    Exec Address Symbol (DocumentRecord Address) := do
  let taken ← hasKey (.document documentHash)
  Exec.require (!taken) (.error .alreadyRegistered)
  let record : DocumentRecord Address := ⟨issuer,owner,env.timestamp,.active⟩
  setKey (.document documentHash) record
  publish (.documentRegistered issuer record.owner documentHash)
  return record

def registerDocument (env : Env Address) (issuer owner : Address) (documentHash : Hash) :
    Exec Address Symbol (DocumentRecord Address) := do
  requireAuth env issuer
  checkRateLimit env issuer issuer
  registerBody env issuer owner documentHash

def revokeBody (issuer : Address) (documentHash : Hash) :
    Exec Address Symbol (DocumentRecord Address) := do
  let stored ← getKey (.document documentHash)
  let record ← Exec.demand stored (.error .documentNotFound)
  Exec.require (record.issuer = issuer) (.error .onlyIssuerCanRevoke)
  Exec.require (record.status ≠ .revoked) (.error .alreadyRevoked)
  let record := { record with status := .revoked }
  setKey (.document documentHash) record
  publish (.documentRevoked issuer documentHash)
  return record

def revokeDocument (env : Env Address) (issuer : Address) (documentHash : Hash) :
    Exec Address Symbol (DocumentRecord Address) := do
  requireAuth env issuer
  checkRateLimit env issuer issuer
  revokeBody issuer documentHash

/-- The `for doc in documents.iter()` loop; `records` is what was pushed so far. -/
def batchRegisterLoop (env : Env Address) (issuer : Address) :
    List (DocumentInfo Address) → List (DocumentRecord Address) →
      Exec Address Symbol (List (DocumentRecord Address))
  | [], records => return records
  | doc::documents, records => do
    let taken ← hasKey (.document doc.documentHash)
    Exec.require (!taken) (.error .alreadyRegistered)
    let record : DocumentRecord Address := ⟨issuer,doc.owner,env.timestamp,.active⟩
    setKey (.document doc.documentHash) record
    publish (.documentRegistered issuer doc.owner doc.documentHash)
    batchRegisterLoop env issuer documents (records++[record])

def batchRegisterDocuments (env : Env Address) (issuer : Address)
    (documents : List (DocumentInfo Address)) :
    Exec Address Symbol (List (DocumentRecord Address)) := do
  requireAuth env issuer
  checkRateLimit env issuer issuer
  Exec.require (!documents.isEmpty) (.error .batchEmpty)
  Exec.require (documents.length ≤ MAX_BATCH_SIZE) (.error .batchTooLarge)
  batchRegisterLoop env issuer documents []

def batchRevokeLoop (issuer : Address) :
    List Hash → List (DocumentRecord Address) →
      Exec Address Symbol (List (DocumentRecord Address))
  | [], records => return records
  | documentHash::documentHashes, records => do
    let stored ← getKey (.document documentHash)
    let record ← Exec.demand stored (.error .documentNotFound)
    Exec.require (record.issuer = issuer) (.error .onlyIssuerCanRevoke)
    Exec.require (record.status ≠ .revoked) (.error .alreadyRevoked)
    let record := { record with status := .revoked }
    setKey (.document documentHash) record
    publish (.documentRevoked issuer documentHash)
    batchRevokeLoop issuer documentHashes (records++[record])

def batchRevokeDocuments (env : Env Address) (issuer : Address) (documentHashes : List Hash) :
    Exec Address Symbol (List (DocumentRecord Address)) := do
  requireAuth env issuer
  checkRateLimit env issuer issuer
  Exec.require (!documentHashes.isEmpty) (.error .batchEmpty)
  Exec.require (documentHashes.length ≤ MAX_BATCH_SIZE) (.error .batchTooLarge)
  batchRevokeLoop issuer documentHashes []

def initializeContract (env : Env Address) (admin : Address) : Exec Address Symbol Unit := do
  requireAuth env admin
  let versioned ← hasKey .version
  Exec.require (!versioned) (.error .alreadyInitialized)
  setKey .admin admin
  setKey .version CONTRACT_VERSION
  publish (.contractInitialized admin CONTRACT_VERSION)

def getVersion (w : World Address Symbol) : UInt32 := (w.storage .version).getD 0

def getAdmin (w : World Address Symbol) : Option Address := w.storage .admin

/-- The guard shared by `upgrade`, `set_feature_flag` and `set_rate_limit_config`. -/
def requireAdmin (env : Env Address) (admin : Address) : Exec Address Symbol Unit := do
  requireAuth env admin
  let stored ← Exec.read getAdmin
  let storedAdmin ← Exec.demand stored (.error .notInitialized)
  Exec.require (storedAdmin = admin) (.error .unauthorized)

def upgrade (env : Env Address) (admin : Address) (newWasmHash : Hash) :
    Exec Address Symbol Unit := do
  requireAdmin env admin
  let oldVersion ← Exec.read getVersion
  updateCurrentContractWasm env newWasmHash
  publish (.contractUpgraded admin oldVersion oldVersion)

def migrate (env : Env Address) (admin : Address) : Exec Address Symbol UInt32 := do
  requireAuth env admin
  let currentVersion ← Exec.read getVersion
  if currentVersion=0 then
    setKey .admin admin
    setKey .version CONTRACT_VERSION
    return CONTRACT_VERSION
  else
    Exec.fail (.error .migrationNotNeeded)

def setFeatureFlag (env : Env Address) (admin : Address) (flag : Symbol) (enabled : Bool) :
    Exec Address Symbol Unit := do
  requireAdmin env admin
  setKey (.featureFlag flag) enabled

def setRateLimitConfig (env : Env Address) (admin : Address) (config : RateLimitConfig) :
    Exec Address Symbol Unit := do
  requireAdmin env admin
  setKey .rateLimitConfig config
end

def getDocument (w : World Address Symbol) (h : Hash) : Option (DocumentRecord Address) :=
  w.storage (.document h)

def verifyDocument (w : World Address Symbol) (h : Hash) : Bool :=
  (getDocument w h).elim false fun record => record.status = .active

def getDocumentStatus (w : World Address Symbol) (h : Hash) : Option DocumentStatus :=
  (getDocument w h).map DocumentRecord.status

def documentExists (w : World Address Symbol) (h : Hash) : Bool := (getDocument w h).isSome

def getFeatureFlag (w : World Address Symbol) (flag : Symbol) : Bool :=
  (w.storage (.featureFlag flag)).getD false

def getRateLimitRetryAfter (w : World Address Symbol) (scope : RateLimitScope Address) :
    Option UInt64 :=
  w.storage (.rateLimitRetryAfter scope)

inductive Call (Address Symbol : Type) where
  | registerDocument (issuer owner : Address) (documentHash : Hash)
  | revokeDocument (issuer : Address) (documentHash : Hash)
  | batchRegisterDocuments (issuer : Address) (documents : List (DocumentInfo Address))
  | batchRevokeDocuments (issuer : Address) (documentHashes : List Hash)
  | initializeContract (admin : Address)
  | upgrade (admin : Address) (newWasmHash : Hash)
  | migrate (admin : Address)
  | setFeatureFlag (admin : Address) (flag : Symbol) (enabled : Bool)
  | setRateLimitConfig (admin : Address) (config : RateLimitConfig)
  | getDocument (documentHash : Hash)
  | verifyDocument (documentHash : Hash)
  | getDocumentStatus (documentHash : Hash)
  | documentExists (documentHash : Hash)
  | getVersion
  | getAdmin
  | getFeatureFlag (flag : Symbol)
  | getRateLimitRetryAfter (scope : RateLimitScope Address)

inductive Value (Address : Type) where
  | unit
  | record (r : DocumentRecord Address)
  | records (rs : List (DocumentRecord Address))
  | maybeRecord (r : Option (DocumentRecord Address))
  | bool (b : Bool)
  | status (s : DocumentStatus)
  | u32 (n : UInt32)
  | maybeAddress (a : Option Address)
  | maybeU64 (n : Option UInt64)
  deriving DecidableEq

structure Invocation (Address Symbol : Type) where
  env : Env Address
  call : Call Address Symbol

section
variable [DecidableEq Address] [DecidableEq Symbol]

def perform (env : Env Address) : Call Address Symbol → Exec Address Symbol (Value Address)
  | .registerDocument issuer owner h => return .record (← registerDocument env issuer owner h)
  | .revokeDocument issuer h => return .record (← revokeDocument env issuer h)
  | .batchRegisterDocuments issuer docs =>
      return .records (← batchRegisterDocuments env issuer docs)
  | .batchRevokeDocuments issuer hs => return .records (← batchRevokeDocuments env issuer hs)
  | .initializeContract admin => do initializeContract env admin; return .unit
  | .upgrade admin wasm => do upgrade env admin wasm; return .unit
  | .migrate admin => return .u32 (← migrate env admin)
  | .setFeatureFlag admin flag enabled => do setFeatureFlag env admin flag enabled; return .unit
  | .setRateLimitConfig admin config => do setRateLimitConfig env admin config; return .unit
  | .getDocument h => Exec.read fun w => .maybeRecord (getDocument w h)
  | .verifyDocument h => Exec.read fun w => .bool (verifyDocument w h)
  | .getDocumentStatus h => do
      let status ← Exec.read fun w => getDocumentStatus w h
      return .status (← Exec.demand status (.error .documentNotFound))
  | .documentExists h => Exec.read fun w => .bool (documentExists w h)
  | .getVersion => Exec.read fun w => .u32 (getVersion w)
  | .getAdmin => Exec.read fun w => .maybeAddress (getAdmin w)
  | .getFeatureFlag flag => Exec.read fun w => .bool (getFeatureFlag w flag)
  | .getRateLimitRetryAfter scope => Exec.read fun w => .maybeU64 (getRateLimitRetryAfter w scope)

/-- One invocation: the host keeps the writes and events of a success and drops
those of a failure. -/
def invoke (i : Invocation Address Symbol) (w : World Address Symbol) :
    Except Fault (Value Address) × World Address Symbol :=
  Exec.commit (perform i.env i.call) w

def run (l : List (Invocation Address Symbol)) (w : World Address Symbol) :
    World Address Symbol :=
  Machine.final invoke l w

def stateAt (wasm : Hash) (l : List (Invocation Address Symbol)) (n : Nat) :
    World Address Symbol :=
  run (l.take n) (World.initial Address Symbol wasm)

def Succeeds (i : Invocation Address Symbol) (w : World Address Symbol) : Prop :=
  ∃ x, (invoke i w).1 = .ok x

theorem Succeeds.performs {i : Invocation Address Symbol} {w : World Address Symbol}
    (h : Succeeds i w) : ∃ x, perform i.env i.call w = (.ok x,(invoke i w).2) := by
  obtain ⟨x,hx⟩ := h
  exact ⟨x,Exec.commit_ok.mp (Prod.ext hx rfl)⟩

/-- A failing invocation leaves nothing behind. -/
theorem invoke_failed {i : Invocation Address Symbol} {w : World Address Symbol}
    (h : ¬Succeeds i w) : (invoke i w).2 = w := by
  obtain hsame | ⟨x,hx⟩ := Exec.commit_snd (perform i.env i.call) w
  · exact hsame
  · exact absurd ⟨x,congrArg Prod.fst (Exec.commit_ok.mpr hx)⟩ h

theorem stateAt_succ {wasm : Hash} {l : List (Invocation Address Symbol)} {n : Nat}
    {i : Invocation Address Symbol} (hi : l[n]? = some i) :
    stateAt wasm l (n+1) = (invoke i (stateAt wasm l n)).2 := by
  simp only [stateAt,run]
  rw [List.take_add_one,hi,Option.toList_some,Machine.final_snoc]

theorem stateAt_past {wasm : Hash} {l : List (Invocation Address Symbol)} {n : Nat}
    (hn : l[n]? = none) : stateAt wasm l (n+1) = stateAt wasm l n := by
  simp only [stateAt]
  rw [List.take_add_one,hn,Option.toList_none,List.append_nil]

end

def Call.issuer : Call Address Symbol → Option Address
  | .registerDocument issuer _ _ => some issuer
  | .revokeDocument issuer _ => some issuer
  | .batchRegisterDocuments issuer _ => some issuer
  | .batchRevokeDocuments issuer _ => some issuer
  | _ => none

def Call.admin : Call Address Symbol → Option Address
  | .initializeContract admin => some admin
  | .upgrade admin _ => some admin
  | .migrate admin => some admin
  | .setFeatureFlag admin _ _ => some admin
  | .setRateLimitConfig admin _ => some admin
  | _ => none

def Call.hashes : Call Address Symbol → List Hash
  | .registerDocument _ _ h => [h]
  | .revokeDocument _ h => [h]
  | .batchRegisterDocuments _ docs => docs.map DocumentInfo.documentHash
  | .batchRevokeDocuments _ hs => hs
  | _ => []

end ProofStell.Contract
