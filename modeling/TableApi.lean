import TableApi.Calendar.Date
import TableApi.Calendar.Moment
import TableApi.Calendar.Reader
import TableApi.Coercion
import TableApi.Entries
import TableApi.Json.Reader
import TableApi.Json.Writer
import TableApi.Listing.Compile
import TableApi.Listing.Condition
import TableApi.Listing.SortTerm
import TableApi.Listing.Window
import TableApi.Main
import TableApi.Migration.Command
import TableApi.Migration.Database
import TableApi.Migration.Revision
import TableApi.Migration.Statement
import TableApi.Number.Decimal
import TableApi.Number.Double
import TableApi.Number.Integer
import TableApi.Number.Power
import TableApi.Number.Shortest
import TableApi.Options.Basic
import TableApi.Options.Merge
import TableApi.Options.Resolve
import TableApi.Params.Key
import TableApi.Params.Tree
import TableApi.Posts.Model
import TableApi.Posts.Resource
import TableApi.Posts.Seed
import TableApi.Proofs.Calendar.Order
import TableApi.Proofs.Calendar.RoundTrip
import TableApi.Proofs.Coercion
import TableApi.Proofs.Coercion.Instance
import TableApi.Proofs.Coercion.Nested
import TableApi.Proofs.Coercion.Shown
import TableApi.Proofs.Coercion.Texts
import TableApi.Proofs.Except
import TableApi.Proofs.Listing.Building
import TableApi.Proofs.Listing.Condition
import TableApi.Proofs.Listing.FilterAlgebra
import TableApi.Proofs.Listing.FilteredRows
import TableApi.Proofs.Listing.Integers
import TableApi.Proofs.Listing.Limited
import TableApi.Proofs.Listing.Numerals
import TableApi.Proofs.Listing.Pages
import TableApi.Proofs.Listing.RawFilters
import TableApi.Proofs.Listing.Refinement
import TableApi.Proofs.Listing.Searching
import TableApi.Proofs.Listing.SetFilters
import TableApi.Proofs.Listing.SortKeys
import TableApi.Proofs.Listing.Sorting
import TableApi.Proofs.Listing.Spellings
import TableApi.Proofs.Listing.Terms
import TableApi.Proofs.Listing.TextFilters
import TableApi.Proofs.Listing.Window
import TableApi.Proofs.Number.Double
import TableApi.Proofs.Number.Integer
import TableApi.Proofs.Number.Solid
import TableApi.Proofs.Options
import TableApi.Proofs.Options.Faults
import TableApi.Proofs.Options.Memory
import TableApi.Proofs.Options.Merged
import TableApi.Proofs.Params.Grammar
import TableApi.Proofs.Params.Key
import TableApi.Proofs.Params.LastWriter
import TableApi.Proofs.Params.Roots
import TableApi.Proofs.Params.RoundTrip
import TableApi.Proofs.Posts.History
import TableApi.Proofs.Posts.Index
import TableApi.Proofs.Posts.Map
import TableApi.Proofs.Posts.Requests
import TableApi.Proofs.Posts.Timestamps
import TableApi.Proofs.Posts.Unbindable
import TableApi.Proofs.Resource.Address
import TableApi.Proofs.Resource.Admissible
import TableApi.Proofs.Resource.Coercible
import TableApi.Proofs.Resource.Commit
import TableApi.Proofs.Resource.Conforming
import TableApi.Proofs.Resource.Envelope
import TableApi.Proofs.Resource.Findable
import TableApi.Proofs.Resource.Frame
import TableApi.Proofs.Resource.HookCalls
import TableApi.Proofs.Resource.Identity
import TableApi.Proofs.Resource.KeyTexts
import TableApi.Proofs.Resource.Lifecycle
import TableApi.Proofs.Resource.Listed
import TableApi.Proofs.Resource.Named
import TableApi.Proofs.Resource.Narrowing
import TableApi.Proofs.Resource.Numbers
import TableApi.Proofs.Resource.Overflow
import TableApi.Proofs.Resource.Payload
import TableApi.Proofs.Resource.Readings
import TableApi.Proofs.Resource.Registered
import TableApi.Proofs.Resource.Registrations
import TableApi.Proofs.Resource.Run
import TableApi.Proofs.Resource.Scope
import TableApi.Proofs.Resource.Showable
import TableApi.Proofs.Resource.Textual
import TableApi.Proofs.Resource.Transaction
import TableApi.Proofs.Resource.Visibility
import TableApi.Proofs.Resource.Writes
import TableApi.Proofs.Statement.Check
import TableApi.Proofs.Statement.Mask
import TableApi.Proofs.Statement.Operand
import TableApi.Proofs.Statement.Order
import TableApi.Proofs.Statement.Rows
import TableApi.Proofs.Statement.Search
import TableApi.Proofs.Store.Canonical
import TableApi.Proofs.Store.Cells
import TableApi.Proofs.Store.Conforming
import TableApi.Proofs.Store.Failures
import TableApi.Proofs.Store.Keys
import TableApi.Proofs.Store.Named
import TableApi.Proofs.Store.Order
import TableApi.Proofs.Store.Rows
import TableApi.Proofs.Store.Schema
import TableApi.Proofs.Store.Showable
import TableApi.Proofs.Store.Sound
import TableApi.Proofs.Store.UniqueKeys
import TableApi.Proofs.Store.Writes
import TableApi.Proofs.Text.Commas
import TableApi.Proofs.Text.Ends
import TableApi.Proofs.Uuid
import TableApi.Proofs.Value.Plain
import TableApi.Proofs.Web.Fields
import TableApi.Proofs.Web.Handling
import TableApi.Proofs.Web.Marks
import TableApi.Record.Basic
import TableApi.Record.Write
import TableApi.Resource.Address
import TableApi.Resource.Answer
import TableApi.Resource.Basic
import TableApi.Resource.Hook
import TableApi.Resource.Payload
import TableApi.Resource.Refusal
import TableApi.Resource.Registry
import TableApi.Resource.Service
import TableApi.Resource.Session
import TableApi.Schema.Column
import TableApi.Schema.Model
import TableApi.Settings
import TableApi.Statement.Clause
import TableApi.Statement.Pattern
import TableApi.Statement.Select
import TableApi.Statement.Term
import TableApi.Store.Binding
import TableApi.Store.Cell
import TableApi.Store.Error
import TableApi.Store.Loading
import TableApi.Store.Table
import TableApi.Text.Blank
import TableApi.Text.Digit
import TableApi.Text.Printable
import TableApi.Text.Quoted
import TableApi.Text.Utf8
import TableApi.Uuid
import TableApi.Value
import TableApi.Value.Equality
import TableApi.Value.Literal
import TableApi.Value.Plain
import TableApi.Web.App
import TableApi.Web.Message
import TableApi.Web.Payload
import TableApi.Web.Query
import TableApi.Web.RequestTag
import TableApi.Web.Route
import TableApi.Web.Sharing
