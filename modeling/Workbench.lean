import Workbench.Query.Sequence
import Workbench.Query.Writes
import Workbench.Query.LiteralBodies
import Workbench.Query.Separators
import Workbench.Web.EditorAgreement
import Workbench.Schema.Injection
import Workbench.Schema.Destructive
import Workbench.Identity.Confinement
import Workbench.Table.Browse
import Workbench.Query.Transactions
import Workbench.Query.Export
import Workbench.Query.Slices
import Workbench.Session.Coherence
import Workbench.Table.Reload
import Workbench.Schema.SavePreview
import Workbench.Schema.Durability
import Workbench.Schema.SingleUse
import Workbench.Table.Resume
import Workbench.Table.RowKey
import Workbench.Table.Rows
import Workbench.Schema.DraftCorrect
import Workbench.Schema.ColumnEdits
import Workbench.Schema.IndexOps
import Workbench.Schema.ForeignKeys
import Workbench.Schema.LoadedIndexes
import Workbench.Schema.Metadata
import Workbench.Identity.Faults
import Workbench.Identity.Bootstrap
import Workbench.Storage.TimeBuckets
import Workbench.Registry.Audit
import Workbench.Migrate.Rerun
import Workbench.Web.Settings
import Workbench.Web.ApiClient
import Workbench.Session.Owners
import Workbench.Session.Handles
import Workbench.Identity.Revocation
import Workbench.Network.Suffixes
import Workbench.Network.Dsn
import Workbench.Logs.EventStream
import Workbench.Logs.RemoteTail
import Workbench.Logs.TextSearch
import Workbench.Storage.ScopeFilters
import Workbench.Logs.ImportTail
import Workbench.Mongo.KeyOrder
import Workbench.Table.OpenedTable
import Workbench.Table.RowStatements
import Workbench.Table.Editing
import Workbench.Web.DdlObjects
import Workbench.Redis.Expiry
import Workbench.Redis.KeyView
import Workbench.Redis.Console
import Workbench.Redis.KeyTree
import Workbench.Web.ConnectionForm
import Workbench.Web.WorkspaceTabs
import Workbench.Web.AuthTabs
import Workbench.Logs.TailCommand
import Workbench.Logs.IsoLines
import Workbench.Logs.UploadPaths
import Workbench.Logs.RemoteScan
import Workbench.Storage.Provenance
