import LaGraph.Agent.Answers
import LaGraph.Agent.Calls
import LaGraph.Agent.Events
import LaGraph.Agent.Evidence
import LaGraph.Agent.Evidence.Citations
import LaGraph.Agent.Evidence.Closed
import LaGraph.Agent.Evidence.Trim
import LaGraph.Agent.Evidence.Truncation
import LaGraph.Agent.Grounding
import LaGraph.Agent.Grounding.Answers
import LaGraph.Agent.Models
import LaGraph.Agent.Scope.Selection
import LaGraph.Agent.Workflow
import LaGraph.Conversations.History
import LaGraph.Conversations.Leases
import LaGraph.Conversations.Listing
import LaGraph.Conversations.Pruning
import LaGraph.Conversations.Records
import LaGraph.Conversations.Responses
import LaGraph.Conversations.Stores
import LaGraph.Conversations.Stores.Agreement
import LaGraph.Foundation.Base64
import LaGraph.Foundation.Budgets
import LaGraph.Foundation.Calendar
import LaGraph.Foundation.Capped
import LaGraph.Foundation.Dictionaries
import LaGraph.Foundation.Duplicates
import LaGraph.Foundation.Faulty
import LaGraph.Foundation.Guarantees
import LaGraph.Foundation.Interleaving
import LaGraph.Foundation.Interleaving.Rely
import LaGraph.Foundation.Interleaving.Sessions
import LaGraph.Foundation.Json
import LaGraph.Foundation.Json.Accepted
import LaGraph.Foundation.Json.Ascii
import LaGraph.Foundation.Json.Compact
import LaGraph.Foundation.Json.Decode
import LaGraph.Foundation.Json.Quotes
import LaGraph.Foundation.Json.RoundTrip
import LaGraph.Foundation.Json.Tokens
import LaGraph.Foundation.Json.Written
import LaGraph.Foundation.Locked
import LaGraph.Foundation.Locked.Serial
import LaGraph.Foundation.Multigraph
import LaGraph.Foundation.Multigraph.FirstArrival
import LaGraph.Foundation.Multigraph.Levels
import LaGraph.Foundation.Multigraph.Routes
import LaGraph.Foundation.Outlines
import LaGraph.Foundation.Paging
import LaGraph.Foundation.Pairing
import LaGraph.Foundation.Patterns
import LaGraph.Foundation.Results
import LaGraph.Foundation.Runs
import LaGraph.Foundation.SortedSets
import LaGraph.Foundation.Tables
import LaGraph.Foundation.Text
import LaGraph.Foundation.Tiling
import LaGraph.Foundation.Transactions
import LaGraph.Foundation.Transactions.Alone
import LaGraph.Foundation.Transducers
import LaGraph.Foundation.Unicode
import LaGraph.Foundation.Views
import LaGraph.Graphify.Client
import LaGraph.Graphify.Labels
import LaGraph.Graphify.Search
import LaGraph.Graphify.Sessions
import LaGraph.Graphify.Written
import LaGraph.Knowledge.Agreement
import LaGraph.Knowledge.Agreement.Ingestion
import LaGraph.Knowledge.Agreement.Runs
import LaGraph.Knowledge.Converters
import LaGraph.Knowledge.Ingestion
import LaGraph.Knowledge.Ingestion.Activate
import LaGraph.Knowledge.Ingestion.Build
import LaGraph.Knowledge.Ingestion.Execute
import LaGraph.Knowledge.Ingestion.Finish
import LaGraph.Knowledge.Ingestion.Prune
import LaGraph.Knowledge.Ingestion.Record
import LaGraph.Knowledge.Manifest
import LaGraph.Knowledge.ManifestFile
import LaGraph.Knowledge.Operations
import LaGraph.Knowledge.Provenance.Ingestion
import LaGraph.Knowledge.Provenance.Runs
import LaGraph.Knowledge.Retention.Ingestion
import LaGraph.Knowledge.Retention.Runs
import LaGraph.Knowledge.Sources
import LaGraph.Knowledge.State
import LaGraph.Knowledge.State.Writers
import LaGraph.Knowledge.Store
import LaGraph.Llm.Lines
import LaGraph.Llm.Recovery
import LaGraph.Llm.Structured
import LaGraph.Plsql.Caches
import LaGraph.Plsql.Caches.Answers
import LaGraph.Plsql.Caches.Impact
import LaGraph.Plsql.Caches.Lookups
import LaGraph.Plsql.Caches.Operations
import LaGraph.Plsql.Catalog
import LaGraph.Plsql.Catalog.Queries
import LaGraph.Plsql.Client
import LaGraph.Plsql.Dependencies
import LaGraph.Plsql.Dependencies.Health
import LaGraph.Plsql.Dependencies.Rows
import LaGraph.Plsql.Dependencies.Summary
import LaGraph.Plsql.Endpoints
import LaGraph.Plsql.Endpoints.Following
import LaGraph.Plsql.Endpoints.Listings
import LaGraph.Plsql.Endpoints.Pages
import LaGraph.Plsql.FileSource
import LaGraph.Plsql.FindPaths
import LaGraph.Plsql.FindPaths.Enumerate
import LaGraph.Plsql.FindPaths.Fresh
import LaGraph.Plsql.FindPaths.Pages
import LaGraph.Plsql.FindPaths.Rounds
import LaGraph.Plsql.FindPaths.SimplePaths
import LaGraph.Plsql.Foreign
import LaGraph.Plsql.Identifiers
import LaGraph.Plsql.Impact
import LaGraph.Plsql.Impact.Exact
import LaGraph.Plsql.Impact.Graph
import LaGraph.Plsql.Impact.Items
import LaGraph.Plsql.Impact.Overview
import LaGraph.Plsql.Impact.Rounds
import LaGraph.Plsql.Impact.Routes
import LaGraph.Plsql.Impact.Visits
import LaGraph.Plsql.Isolation
import LaGraph.Plsql.Isolation.Operations
import LaGraph.Plsql.Isolation.Templates
import LaGraph.Plsql.Pagination
import LaGraph.Plsql.Rows
import LaGraph.Plsql.Source
import LaGraph.Plsql.Source.Lines
import LaGraph.Plsql.Source.Numbering
import LaGraph.Plsql.Synthetic
import LaGraph.Plsql.Synthetic.Dependencies
import LaGraph.Plsql.Synthetic.Overview
import LaGraph.Plsql.Synthetic.Paths
import LaGraph.Projects.Access.Authority
import LaGraph.Projects.Access.Escalation
import LaGraph.Projects.Access.Listing
import LaGraph.Projects.Access.Memberships
import LaGraph.Projects.Access.Owners
import LaGraph.Projects.Access.Requests.Approval
import LaGraph.Projects.Access.Requests.Pending
import LaGraph.Projects.Access.Requests.Runs
import LaGraph.Projects.Access.Routes
import LaGraph.Projects.Builds
import LaGraph.Projects.Builds.Jobs
import LaGraph.Projects.Builds.Runs
import LaGraph.Projects.Builds.Stages
import LaGraph.Projects.Creation
import LaGraph.Projects.Lifecycle
import LaGraph.Projects.Lifecycle.Builds
import LaGraph.Projects.Lifecycle.Contents
import LaGraph.Projects.Lifecycle.Ends
import LaGraph.Projects.Lifecycle.Runs
import LaGraph.Projects.Repository
import LaGraph.Projects.Requests
import LaGraph.Projects.Retention
import LaGraph.Projects.Retention.Recovery
import LaGraph.Projects.Retention.Rounds
import LaGraph.Projects.Retention.Steps
import LaGraph.Projects.Rows
import LaGraph.Projects.Snapshots
import LaGraph.Projects.Snapshots.Operations
import LaGraph.Projects.Snapshots.Runs
import LaGraph.Projects.Storage
import LaGraph.Projects.Storage.Discovery
import LaGraph.Projects.Storage.Parts
import LaGraph.Projects.Storage.Parts.Received
import LaGraph.Projects.Storage.Reception
import LaGraph.Projects.Storage.Reception.Runs
import LaGraph.Projects.Storage.Retry
import LaGraph.Projects.Uploads
import LaGraph.Projects.Uploads.Finalization
import LaGraph.Projects.Uploads.Finalization.Commit
import LaGraph.Projects.Uploads.Finalization.Success
import LaGraph.Projects.Uploads.Finalization.Writes
import LaGraph.Projects.Uploads.Limits
import LaGraph.Projects.Uploads.Replacement
import LaGraph.Retrieval.Chunking
import LaGraph.Retrieval.Chunking.Blocks
import LaGraph.Retrieval.Chunking.Coverage
import LaGraph.Retrieval.Chunking.Families
import LaGraph.Retrieval.Chunking.Headings
import LaGraph.Retrieval.Chunking.Identifiers
import LaGraph.Retrieval.Chunking.Lines
import LaGraph.Retrieval.Chunking.Pages
import LaGraph.Retrieval.Chunking.Ranges
import LaGraph.Retrieval.Chunking.Sizes
import LaGraph.Retrieval.Haystack
import LaGraph.Retrieval.Haystack.Scope
import LaGraph.Retrieval.Index
import LaGraph.Retrieval.Index.Families
import LaGraph.Web.ChatRoute
import LaGraph.Web.ChatRoute.Emitted
import LaGraph.Web.ChatRoute.Frames
import LaGraph.Web.ChatRoute.WellFormed
import LaGraph.Web.Uploads
