import Recordkeeper.Cache
import Recordkeeper.Cache.Address
import Recordkeeper.Cache.Expiring
import Recordkeeper.Cache.Locked
import Recordkeeper.Cache.Redis
import Recordkeeper.Calendar
import Recordkeeper.Calendar.Reader
import Recordkeeper.Config
import Recordkeeper.Config.Typed
import Recordkeeper.Duration
import Recordkeeper.Entity
import Recordkeeper.Entity.Catalog
import Recordkeeper.Entity.Schema
import Recordkeeper.Error
import Recordkeeper.Error.Report
import Recordkeeper.Fault
import Recordkeeper.Identifier
import Recordkeeper.Json
import Recordkeeper.Json.Fields
import Recordkeeper.Json.Printer
import Recordkeeper.Json.Reader
import Recordkeeper.Memory
import Recordkeeper.Number
import Recordkeeper.Number.Double
import Recordkeeper.Number.Shortest
import Recordkeeper.Program
import Recordkeeper.Proofs.Cache.Adversary
import Recordkeeper.Proofs.Cache.Coherence
import Recordkeeper.Proofs.Cache.Cursor
import Recordkeeper.Proofs.Cache.Entries
import Recordkeeper.Proofs.Cache.Expiry
import Recordkeeper.Proofs.Cache.Key
import Recordkeeper.Proofs.Cache.Mirror
import Recordkeeper.Proofs.Cache.Overrun
import Recordkeeper.Proofs.Cache.Purging
import Recordkeeper.Proofs.Cache.Transparency
import Recordkeeper.Proofs.Cache.Variants
import Recordkeeper.Proofs.Calendar
import Recordkeeper.Proofs.Calendar.Order
import Recordkeeper.Proofs.Conversation
import Recordkeeper.Proofs.Dates
import Recordkeeper.Proofs.Entity.Columnar
import Recordkeeper.Proofs.Entity.Item
import Recordkeeper.Proofs.Entity.Schema
import Recordkeeper.Proofs.Entity.Storable
import Recordkeeper.Proofs.Hidden
import Recordkeeper.Proofs.Identifier
import Recordkeeper.Proofs.Identity
import Recordkeeper.Proofs.Independence
import Recordkeeper.Proofs.Instants
import Recordkeeper.Proofs.Json.Text
import Recordkeeper.Proofs.Lifecycle
import Recordkeeper.Proofs.Locality
import Recordkeeper.Proofs.Memory
import Recordkeeper.Proofs.Number.Whole
import Recordkeeper.Proofs.Numeral
import Recordkeeper.Proofs.Object
import Recordkeeper.Proofs.Operation
import Recordkeeper.Proofs.Paging
import Recordkeeper.Proofs.Position
import Recordkeeper.Proofs.Program
import Recordkeeper.Proofs.Protocol
import Recordkeeper.Proofs.Query.Compile
import Recordkeeper.Proofs.Query.Composition
import Recordkeeper.Proofs.Query.Draft
import Recordkeeper.Proofs.Query.Expansion
import Recordkeeper.Proofs.Query.Meaning
import Recordkeeper.Proofs.Query.Nulls
import Recordkeeper.Proofs.Query.Occurrence
import Recordkeeper.Proofs.Query.Policies
import Recordkeeper.Proofs.Query.Reordering
import Recordkeeper.Proofs.Query.SortClause
import Recordkeeper.Proofs.Query.Template
import Recordkeeper.Proofs.Refusal
import Recordkeeper.Proofs.Run
import Recordkeeper.Proofs.Shown
import Recordkeeper.Proofs.Sorted
import Recordkeeper.Proofs.Sql.Grouping
import Recordkeeper.Proofs.Sql.Injection
import Recordkeeper.Proofs.Sql.InsertList
import Recordkeeper.Proofs.Sql.Legible
import Recordkeeper.Proofs.Sql.Parameters
import Recordkeeper.Proofs.Sql.Places
import Recordkeeper.Proofs.Sql.Quoting
import Recordkeeper.Proofs.Sql.Reader
import Recordkeeper.Proofs.Sql.RowStatements
import Recordkeeper.Proofs.Sql.SetList
import Recordkeeper.Proofs.Sql.Update
import Recordkeeper.Proofs.Table.Agreement
import Recordkeeper.Proofs.Table.Columns
import Recordkeeper.Proofs.Table.Congruence
import Recordkeeper.Proofs.Table.Counter
import Recordkeeper.Proofs.Table.Outcome
import Recordkeeper.Proofs.Table.Query
import Recordkeeper.Proofs.Table.Ranking
import Recordkeeper.Proofs.Table.Rows
import Recordkeeper.Proofs.Table.Search
import Recordkeeper.Proofs.Table.Sorting
import Recordkeeper.Proofs.Text.Like
import Recordkeeper.Proofs.Wire
import Recordkeeper.Proofs.Write
import Recordkeeper.Proofs.Written
import Recordkeeper.Query
import Recordkeeper.Query.Compile
import Recordkeeper.Query.SortClause
import Recordkeeper.Repository
import Recordkeeper.Request
import Recordkeeper.Request.Position
import Recordkeeper.Request.Wire
import Recordkeeper.Response
import Recordkeeper.Sql.Command
import Recordkeeper.Sql.Predicate
import Recordkeeper.Sql.Select
import Recordkeeper.Sql.Token
import Recordkeeper.Store
import Recordkeeper.Store.Matching
import Recordkeeper.Store.Postgres
import Recordkeeper.Store.Table
import Recordkeeper.Text.Blank
import Recordkeeper.Text.CaseTable
import Recordkeeper.Text.Glob
import Recordkeeper.Text.Like
import Recordkeeper.Text.Lowercase
import Recordkeeper.Text.Numeral
import Recordkeeper.Yaml
import Recordkeeper.Yaml.Cell
import Recordkeeper.Yaml.Lines
import Recordkeeper.Yaml.Property
import Recordkeeper.Yaml.Reader
import Recordkeeper.Yaml.Scalar
import Recordkeeper.Yaml.Stream
