import IsmsPortal.Foundation.Runs
import IsmsPortal.Foundation.Interleaving
import IsmsPortal.Foundation.Locking
import IsmsPortal.Foundation.Refinement
import IsmsPortal.Foundation.Query
import IsmsPortal.Foundation.Table
import IsmsPortal.Foundation.Condition
import IsmsPortal.Foundation.HashChain
import IsmsPortal.Foundation.Text
import IsmsPortal.Foundation.Utf8
import IsmsPortal.Foundation.JsString
import IsmsPortal.Foundation.Decimal
import IsmsPortal.Foundation.Json
import IsmsPortal.Foundation.Canonical
import IsmsPortal.Foundation.CodeUnits
import IsmsPortal.Foundation.IsoDate
import IsmsPortal.Foundation.Inheritance
import IsmsPortal.Foundation.Lineage
import IsmsPortal.Foundation.Forest
import IsmsPortal.Foundation.Checks
import IsmsPortal.Foundation.Revision
import IsmsPortal.Foundation.CommonSubsequence
import IsmsPortal.Foundation.Replacement
import IsmsPortal.Foundation.OrderedMap
import IsmsPortal.Foundation.Regrouping
import IsmsPortal.Foundation.Glob
import IsmsPortal.Foundation.Csv
import IsmsPortal.Foundation.PosixPath
import IsmsPortal.Foundation.Numerals
import IsmsPortal.Foundation.Double
import IsmsPortal.Foundation.NumberText
import IsmsPortal.Foundation.Der
import IsmsPortal.Foundation.IpAddress
import IsmsPortal.Foundation.StableSort
import IsmsPortal.Foundation.Carry
import IsmsPortal.Foundation.Framing
import IsmsPortal.Foundation.Base64
import IsmsPortal.Foundation.Interaction
import IsmsPortal.Foundation.Throughout
import IsmsPortal.Foundation.Preorder
import IsmsPortal.Foundation.TableLayout
import IsmsPortal.Foundation.Markup
import IsmsPortal.Audit.Stable
import IsmsPortal.Audit.Store
import IsmsPortal.Audit.Chain
import IsmsPortal.Audit.Verify
import IsmsPortal.Audit.Journal
import IsmsPortal.Audit.Soundness
import IsmsPortal.Audit.Retention
import IsmsPortal.Audit.Tampering
import IsmsPortal.Destruction.Database
import IsmsPortal.Destruction.Requests
import IsmsPortal.Destruction.Steps
import IsmsPortal.Destruction.Writes
import IsmsPortal.Destruction.Integrity
import IsmsPortal.Destruction.Protection
import IsmsPortal.Destruction.Approval
import IsmsPortal.Destruction.Completeness
import IsmsPortal.Access.Store
import IsmsPortal.Access.Authorization
import IsmsPortal.Access.Resolution
import IsmsPortal.Access.Monotonicity
import IsmsPortal.Access.Agreement
import IsmsPortal.Access.Expiry
import IsmsPortal.Access.Catalog
import IsmsPortal.Access.Listing
import IsmsPortal.Access.Categories
import IsmsPortal.Access.Overrides
import IsmsPortal.Access.Menu
import IsmsPortal.Access.Preview
import IsmsPortal.Access.Rights
import IsmsPortal.Access.Snapshots
import IsmsPortal.Access.Requests
import IsmsPortal.Categories.Requests
import IsmsPortal.Categories.Hierarchy
import IsmsPortal.Categories.Placement
import IsmsPortal.Versions.Labels
import IsmsPortal.Versions.Differences
import IsmsPortal.Versions.LongestCommon
import IsmsPortal.Versions.Decoding
import IsmsPortal.Sharing.Signatures
import IsmsPortal.Sharing.Links
import IsmsPortal.Sharing.Sensitive
import IsmsPortal.Approvals.Requests
import IsmsPortal.Approvals.FourEyes
import IsmsPortal.Approvals.Execution
import IsmsPortal.Publication.Scans
import IsmsPortal.Publication.Safety
import IsmsPortal.Publication.Content
import IsmsPortal.Publication.Watermark
import IsmsPortal.Publication.Export
import IsmsPortal.Publication.Manifest
import IsmsPortal.Editing.Requests
import IsmsPortal.Editing.Steps
import IsmsPortal.Editing.Conflicts
import IsmsPortal.Editing.Moves
import IsmsPortal.Editing.Reading
import IsmsPortal.Editing.Reservations
import IsmsPortal.Editing.Typing
import IsmsPortal.Editing.References
import IsmsPortal.Editing.Validity
import IsmsPortal.Editing.Usability
import IsmsPortal.Storage.Receipts
import IsmsPortal.Storage.Archive
import IsmsPortal.Storage.Writes
import IsmsPortal.Storage.Interference
import IsmsPortal.Storage.Consistency
import IsmsPortal.Storage.Idempotency
import IsmsPortal.Storage.Dangling
import IsmsPortal.Storage.Targets
import IsmsPortal.Storage.Indexing
import IsmsPortal.Storage.Routing
import IsmsPortal.Accounts.Store
import IsmsPortal.Accounts.Login
import IsmsPortal.Accounts.Lockout
import IsmsPortal.Accounts.Passwords
import IsmsPortal.Accounts.Enrichment
import IsmsPortal.Accounts.Identity
import IsmsPortal.Accounts.BrowserIdentity
import IsmsPortal.Accounts.MailboxPolicy
import IsmsPortal.Accounts.Base32
import IsmsPortal.Accounts.TrustedProxies
import IsmsPortal.Governance.Exceptions
import IsmsPortal.Governance.Reviews
import IsmsPortal.Governance.Closing
import IsmsPortal.Governance.Steps
import IsmsPortal.Governance.Finality
import IsmsPortal.Governance.Incidents
import IsmsPortal.Notifications.Queue
import IsmsPortal.Notifications.Outbox
import IsmsPortal.Notifications.Delivery
import IsmsPortal.Notifications.Cycles
import IsmsPortal.Notifications.Duplicates
import IsmsPortal.Notifications.Webhooks
import IsmsPortal.Directory.Synchronization
import IsmsPortal.Publication.Sensitivity
import IsmsPortal.Filters.Wildcard
import IsmsPortal.Filters.SheetRange
import IsmsPortal.Timestamps.Response
import IsmsPortal.Timestamps.Request
import IsmsPortal.Filters.GroupValues
import IsmsPortal.Notifications.Smtp
import IsmsPortal.Notifications.HealthAlerts
import IsmsPortal.Accounts.SsoDirectory
import IsmsPortal.Storage.UploadAttempts
import IsmsPortal.Secrets.Encryption
import IsmsPortal.Secrets.TimestampSettings
import IsmsPortal.Storage.Antivirus
import IsmsPortal.Storage.LocalFiles
import IsmsPortal.Publication.Articles
import IsmsPortal.Publication.BatchImport
import IsmsPortal.Directory.Login
import IsmsPortal.Categories.Listing
import IsmsPortal.Filters.SheetTable
import IsmsPortal.Packages.Cleanup
import IsmsPortal.Notifications.Mail
import IsmsPortal.Notifications.Templates
