import CrawlTrove.Invariants.Discovery
import CrawlTrove.Invariants.Reconciliation
import CrawlTrove.Invariants.Fencing
import CrawlTrove.Invariants.Cancellation
import CrawlTrove.Invariants.Outcome
import CrawlTrove.Origins.Spacing
import CrawlTrove.Origins.Circuit
import CrawlTrove.Protocol.Claim
import CrawlTrove.Protocol.View
import CrawlTrove.Protocol.Failure
import CrawlTrove.Protocol.Session
import CrawlTrove.Protocol.Completion
import CrawlTrove.Maintenance.Finalization
import CrawlTrove.Sessions.Starting
import CrawlTrove.Limits.WindingDown
import CrawlTrove.Sessions.Parked
import CrawlTrove.Limits.Reaping
import CrawlTrove.Limits.FailureLimit
import CrawlTrove.Claiming.BudgetDrains
import CrawlTrove.Claiming.WorkConservation
import CrawlTrove.Acquisition.SameOrigin
import CrawlTrove.Scheduling.Fires
import CrawlTrove.Artifacts.Confinement
import CrawlTrove.Artifacts.Contents
import CrawlTrove.Artifacts.Keeping
import CrawlTrove.Normalize.DotSegments
import CrawlTrove.Normalize.OriginKeys
import CrawlTrove.Proxies.Revocation
import CrawlTrove.Proxies.Cooldown
import CrawlTrove.Proxies.Leases
import CrawlTrove.Signals.Changes
import CrawlTrove.Corpus.Routing
import CrawlTrove.Corpus.Rebuild
import CrawlTrove.Corpus.Rescan
import CrawlTrove.Research.Reading
import CrawlTrove.Checkpoints.Restarts
import CrawlTrove.Signals.Dedup
import CrawlTrove.Sessions.Tokens
import CrawlTrove.Acquisition.Router
import CrawlTrove.Sessions.Tunnel
import CrawlTrove.Egress.Connecting
import CrawlTrove.Egress.Relaying
import CrawlTrove.Egress.Handshake
import CrawlTrove.Retrieval.Deepening
import CrawlTrove.Retrieval.Windows
import CrawlTrove.Retrieval.VectorSearch
import CrawlTrove.Retrieval.Upserts
import CrawlTrove.Deployment.Migrations
import CrawlTrove.Acquisition.Pinning
import CrawlTrove.Lifecycle.History
import CrawlTrove.Crawler.Limits
