import ProofStell.Lib.Transact
import ProofStell.Lib.Machine
import ProofStell.Lib.TokenBucket
import ProofStell.Lib.Recency
import ProofStell.Lib.CasLoop
import ProofStell.Lib.CheckThenAct
import ProofStell.Lib.Base64
import ProofStell.Lib.Float64
import ProofStell.Lib.Duration
import ProofStell.Lib.Backoff
import ProofStell.Lib.Idempotent
import ProofStell.Lib.Json
import ProofStell.Lib.Saturating
import ProofStell.Lib.Watch
import ProofStell.Lib.Locks
import ProofStell.Lib.RootLock
import ProofStell.Lib.Semaphore
import ProofStell.Lib.Register
import ProofStell.Contract.Types
import ProofStell.Contract.Entry
import ProofStell.Contract.Footprint
import ProofStell.Contract.Effects
import ProofStell.Contract.Registry
import ProofStell.Contract.Lifecycle
import ProofStell.Contract.EventLog
import ProofStell.Contract.Batch
import ProofStell.Contract.Isolation
import ProofStell.Contract.Governance
import ProofStell.Contract.RateLimit
import ProofStell.Contract.RetryGuidance
import ProofStell.Contract.Refill
import ProofStell.Hash.Canonical
import ProofStell.Hash.Bytes
import ProofStell.Hash.Registry
import ProofStell.Hash.Gates
import ProofStell.Hash.Codec
import ProofStell.Hash.Validators
import ProofStell.Audit.Event
import ProofStell.Audit.Ingestor
import ProofStell.Audit.Store
import ProofStell.Audit.ContractEvents
import ProofStell.Audit.EventKeys
import ProofStell.Webhook.Payload
import ProofStell.Cache.InMemory
import ProofStell.Cache.Breaker
import ProofStell.Cache.Redis
import ProofStell.Webhook.Dispatcher
import ProofStell.Cache.Bulk
import ProofStell.Cache.TtlMap
import ProofStell.Cache.Failover
import ProofStell.Webhook.Storage
import ProofStell.Webhook.DeadLetters
import ProofStell.Audit.EventJson
import ProofStell.Cache.Statistics
import ProofStell.Cache.Lru
import ProofStell.Cache.Feed
import ProofStell.Limiter.Bucket
import ProofStell.Limiter.Exact
import ProofStell.Limiter.Tiers
import ProofStell.Config.RateLimits
import ProofStell.Config.CacheBreaker
import ProofStell.Cache.BreakerRuns
import ProofStell.Cache.BreakerWaits
import ProofStell.Cache.BreakerProbes
import ProofStell.Cache.TransitionReports
import ProofStell.Cache.HealthChecks
import ProofStell.Cache.Locking
import ProofStell.Cache.Overlapping
import ProofStell.Cache.BreakerBackoffs
import ProofStell.Limiter.Waits
import ProofStell.Limiter.Contention
import ProofStell.Limiter.Snapshots
import ProofStell.Limiter.Delayed
import ProofStell.Limiter.Eviction
import ProofStell.Limiter.SharedQuota
import ProofStell.Limiter.Accounts
import ProofStell.Limiter.Fairness
import ProofStell.Config.AppConfig
import ProofStell.Config.Documented
import ProofStell.Stellar.Breaker
import ProofStell.Stellar.Client
import ProofStell.Stellar.RetryDelay
import ProofStell.Webhook.Backoff
import ProofStell.Config.Overflow
import ProofStell.Config.HotReload
import ProofStell.Config.Redaction
import ProofStell.Stellar.CallerMistakes
import ProofStell.Stellar.Transitions
import ProofStell.Stellar.Reference
import ProofStell.Stellar.Overlap
import ProofStell.Stellar.Probes
import ProofStell.Stellar.Ledger
import ProofStell.Stellar.Bulkhead
import ProofStell.Stellar.Horizon
import ProofStell.Stellar.Verification
import ProofStell.Stellar.LastStatus
import ProofStell.Stellar.Outages
import ProofStell.Stellar.WarmCache
import ProofStell.Webhook.Delivery
import ProofStell.Webhook.Dedup
import ProofStell.Webhook.Race
import ProofStell.Webhook.Metrics
import ProofStell.Webhook.Requests
import ProofStell.Webhook.Receivers
import ProofStell.Webhook.Deadlines
import ProofStell.Service.Server
import ProofStell.Service.Reload
import ProofStell.Service.Responses
import ProofStell.Service.Secrets
