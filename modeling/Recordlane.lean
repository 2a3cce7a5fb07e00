import Recordlane.Approvals
import Recordlane.Publications
import Recordlane.Publication.Order
import Recordlane.Publication.Limits
import Recordlane.Publication.Reconciliation
import Recordlane.Publication.Receipts
import Recordlane.Batches
import Recordlane.Ordering
import Recordlane.Arrivals
import Recordlane.Separation
import Recordlane.VersionBinding
import Recordlane.Registry
import Recordlane.Canonical
import Recordlane.Simulations
import Recordlane.Tenancy
import Recordlane.LinkChanges
import Recordlane.CandidateIndex
import Recordlane.FieldControl
import Recordlane.Snapshots
import Recordlane.Jobs.Fencing
import Recordlane.Completion
import Recordlane.Evidence
import Recordlane.Contributions
import Recordlane.Accounts
import Recordlane.Backfills
import Recordlane.AuditChain
import Recordlane.Duties
import Recordlane.TaskViews
import Recordlane.Redelivery
import Recordlane.Retirements
import Recordlane.SnapshotRuns
import Recordlane.Tombstones
import Recordlane.Quality
import Recordlane.ChangeEvents
import Recordlane.BlockingKeys
import Recordlane.RowOrder
import Recordlane.Merges
import Recordlane.Reversals
import Recordlane.Relationships
import Recordlane.Logins
import Recordlane.Entitlements
import Recordlane.Deliveries
import Recordlane.PolicyDocuments
import Recordlane.Mastering.Catalogue
import Recordlane.Activations
import Recordlane.Secrets
import Recordlane.Assistant.Drafts
import Recordlane.Scores
import Recordlane.ScoreBounds
import Recordlane.Precedence
import Recordlane.Typing
import Recordlane.Fitting
import Recordlane.Pagination
import Recordlane.Connectors.Files
import Recordlane.Connectors.Links
import Recordlane.SingleUse
import Recordlane.Amounts
import Recordlane.Idempotence
import Recordlane.Library.DecimalRounding
import Recordlane.Publication.Consumption
import Recordlane.Publication.Recovery
import Recordlane.Resubmission
import Recordlane.Credentials
import Recordlane.ClosedSessions
import Recordlane.Reimports
import Recordlane.Upgrades
import Recordlane.Jobs.Draining
import Recordlane.Secrets.Rotation
