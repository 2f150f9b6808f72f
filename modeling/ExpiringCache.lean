import ExpiringCache.Cache.Lemmas
import ExpiringCache.Cache.Step
import ExpiringCache.Documents
import ExpiringCache.Health.Monitor
import ExpiringCache.Proofs.Callers
import ExpiringCache.Proofs.Commands
import ExpiringCache.Proofs.Configuration
import ExpiringCache.Proofs.Contents
import ExpiringCache.Proofs.Decimals
import ExpiringCache.Proofs.Endings
import ExpiringCache.Proofs.HeldUp
import ExpiringCache.Proofs.Ledger
import ExpiringCache.Proofs.Loads
import ExpiringCache.Proofs.Lookups
import ExpiringCache.Proofs.Monitoring
import ExpiringCache.Proofs.Promptness
import ExpiringCache.Proofs.Removals
import ExpiringCache.Proofs.Rounds
import ExpiringCache.Proofs.Saturation
import ExpiringCache.Proofs.Shift
import ExpiringCache.Proofs.Statuses
import ExpiringCache.Proofs.Stopping
import ExpiringCache.Proofs.Sweeping
import ExpiringCache.Proofs.Tending
import ExpiringCache.Proofs.Writers
import ExpiringCache.TendedStore
import ExpiringCache.Version
import ExpiringCache.Worker
