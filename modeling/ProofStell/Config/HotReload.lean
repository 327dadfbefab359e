import ProofStell.Config.AppConfig
import ProofStell.Lib.Watch

/-! Versions of the configuration schema, `from_env` with its two counters, and the channel through
which a reloaded configuration is published. -/
namespace ProofStell.Config

def CONFIG_VERSION : UInt32 := 1

/-- Only `new` and `current` make one. -/
structure ConfigVersion where
  value : UInt32
  valid : value≠0 ∧ value ≤ CONFIG_VERSION

namespace ConfigVersion

def current : ConfigVersion := ⟨CONFIG_VERSION,by decide,by decide⟩

theorem eq_current (v : ConfigVersion) : v = current := by
  obtain ⟨value,hzero,hle⟩ := v
  have hone : value.toNat ≤ 1 := UInt32.le_iff_toNat_le.mp hle
  have hpos : value.toNat≠0 := fun h => hzero (UInt32.toNat_inj.mp h)
  have hvalue : value = CONFIG_VERSION := UInt32.toNat_inj.mp (show value.toNat = 1 by omega)
  simp only [current,hvalue]

end ConfigVersion

structure ConfigUpdate where
  config : AppConfig
  version : ConfigVersion

def ConfigUpdate.new (config : AppConfig) : Except ConfigError ConfigUpdate :=
  .ok ⟨config,.current⟩

abbrev ConfigWatcher := Watch.Channel ConfigUpdate

/-- The receiver is the channel seen from its other end. -/
def configChannel (initial : AppConfig) : Except ConfigError ConfigWatcher := do
  let update ← ConfigUpdate.new initial
  return Watch.channel update

/-- The counters of `from_env`. -/
structure ConfigMetrics where
  configValidationFailures : Nat
  configReloadTotal : Nat
  deriving DecidableEq, Repr

namespace ConfigMetrics

def new : ConfigMetrics := ⟨0,0⟩

def incrementConfigValidationFailure (m : ConfigMetrics) : ConfigMetrics :=
  { m with configValidationFailures := m.configValidationFailures+1 }

def incrementConfigReload (m : ConfigMetrics) : ConfigMetrics :=
  { m with configReloadTotal := m.configReloadTotal+1 }

end ConfigMetrics

def fromEnvWithMetrics (parsers : Parsers) (env : Env) (m : ConfigMetrics) :
    Except ConfigError AppConfig × ConfigMetrics :=
  match fromEnv parsers env with
  | .error e => (.error e,m.incrementConfigValidationFailure)
  | .ok config => (.ok config,m.incrementConfigReload)

end ProofStell.Config
