import Reconciler.Activation
import Reconciler.Assoc
import Reconciler.Association
import Reconciler.Attribute.Definition
import Reconciler.Attribute.Layer
import Reconciler.Attribute.Refinement
import Reconciler.Attribute.ValueType
import Reconciler.Availability
import Reconciler.Binary64
import Reconciler.Binary64.Shortest
import Reconciler.Caching
import Reconciler.Capability
import Reconciler.Completion
import Reconciler.Configuration
import Reconciler.Connector
import Reconciler.DefinitionCache
import Reconciler.Definitions
import Reconciler.Error
import Reconciler.Error.Cause
import Reconciler.Error.Reader
import Reconciler.Inheritance
import Reconciler.Instant
import Reconciler.Interleaving
import Reconciler.ItemName
import Reconciler.Json.Basic
import Reconciler.Json.Codec
import Reconciler.Json.Flaw
import Reconciler.Json.Reader
import Reconciler.Json.Text
import Reconciler.KeyedMerge
import Reconciler.Log
import Reconciler.MatchingRule
import Reconciler.ObjectClass
import Reconciler.ObjectDefinition
import Reconciler.ObjectKind
import Reconciler.ObjectType
import Reconciler.ObjectType.Declaration
import Reconciler.Operation
import Reconciler.Program
import Reconciler.Proofs.Cache.Admission
import Reconciler.Proofs.Cache.Agreement
import Reconciler.Proofs.Cache.Deletion
import Reconciler.Proofs.Cache.Eviction
import Reconciler.Proofs.Cache.Freshness
import Reconciler.Proofs.Cache.Hits
import Reconciler.Proofs.Cache.Latest
import Reconciler.Proofs.Cache.Offers
import Reconciler.Proofs.Cache.Operations
import Reconciler.Proofs.Cache.Origins
import Reconciler.Proofs.Cache.Reads
import Reconciler.Proofs.Cache.Representation
import Reconciler.Proofs.Cache.Served
import Reconciler.Proofs.Cache.Transparency
import Reconciler.Proofs.Codec.Calendar
import Reconciler.Proofs.Codec.Containers
import Reconciler.Proofs.Codec.Documents
import Reconciler.Proofs.Codec.Instants
import Reconciler.Proofs.Completion.Again
import Reconciler.Proofs.Completion.Ancestry
import Reconciler.Proofs.Completion.Chain
import Reconciler.Proofs.Completion.Declarations
import Reconciler.Proofs.Completion.Gate
import Reconciler.Proofs.Completion.Reach
import Reconciler.Proofs.Completion.Refinements
import Reconciler.Proofs.Completion.Unfetched
import Reconciler.Proofs.Exchanges
import Reconciler.Proofs.History
import Reconciler.Proofs.Layering
import Reconciler.Proofs.Marking
import Reconciler.Proofs.Matching.Again
import Reconciler.Proofs.Matching.Blanks
import Reconciler.Proofs.Matching.Forms
import Reconciler.Proofs.Merging.Again
import Reconciler.Proofs.Merging.Entries
import Reconciler.Proofs.Merging.Reading
import Reconciler.Proofs.Merging.Settings
import Reconciler.Proofs.Monitoring
import Reconciler.Proofs.Names
import Reconciler.Proofs.Observing
import Reconciler.Proofs.Overriding
import Reconciler.Proofs.Paging
import Reconciler.Proofs.Protection.Comparing
import Reconciler.Proofs.Protection.Growing
import Reconciler.Proofs.Protection.Normalised
import Reconciler.Proofs.Recording
import Reconciler.Proofs.Results
import Reconciler.Proofs.Schema.Accounting
import Reconciler.Proofs.Schema.Composing
import Reconciler.Proofs.Schema.Lookups
import Reconciler.Proofs.Schema.Order
import Reconciler.Proofs.Schema.Refining
import Reconciler.Proofs.Searching
import Reconciler.Proofs.Sequential
import Reconciler.Proofs.Session
import Reconciler.Proofs.Shadow.Attributes
import Reconciler.Proofs.Shadow.Cardinality
import Reconciler.Proofs.Shadow.Convergence
import Reconciler.Proofs.Shadow.Failures
import Reconciler.Proofs.Shadow.InLine
import Reconciler.Proofs.Shadow.Items
import Reconciler.Proofs.Shadow.Minimality
import Reconciler.Proofs.Shadow.Naming
import Reconciler.Proofs.Shadow.Noninterference
import Reconciler.Proofs.Shadow.Repetition
import Reconciler.Proofs.Shadow.Reports
import Reconciler.Proofs.Shadow.Retention
import Reconciler.Proofs.Shadow.Rounds
import Reconciler.Proofs.Shadow.Stamp
import Reconciler.Proofs.Shadow.WriteForm
import Reconciler.Proofs.Text.Blanks
import Reconciler.Proofs.Text.Lowering
import Reconciler.Proofs.Text.Pieces
import Reconciler.Proofs.Versions
import Reconciler.Protection
import Reconciler.Protection.Pattern
import Reconciler.Resource
import Reconciler.Schema
import Reconciler.Schema.Build
import Reconciler.Service
import Reconciler.Settings
import Reconciler.Shadow
import Reconciler.Shadow.Delta
import Reconciler.Shadow.Observation
import Reconciler.Shadow.Reconcile
import Reconciler.SortedMap
import Reconciler.Store
import Reconciler.Text.Blank
import Reconciler.Text.CaseTable
import Reconciler.Text.Cut
import Reconciler.Text.Lowercase
import Reconciler.Tuning
import Reconciler.Version
import Reconciler.World
