import FlowGraph.Text.Blank
import FlowGraph.Text.Quoted
import FlowGraph.Table
import FlowGraph.Json
import FlowGraph.Document
import FlowGraph.Document.Double
import FlowGraph.Document.Literal
import FlowGraph.Document.Token
import FlowGraph.Document.Reader
import FlowGraph.Store
import FlowGraph.Fault
import FlowGraph.Run
import FlowGraph.Topology
import FlowGraph.Flowchart
import FlowGraph.Machine
import FlowGraph.Graph
import FlowGraph.Draft
import FlowGraph.Component
import FlowGraph.Member
import FlowGraph.Composer
import FlowGraph.Refusal
import FlowGraph.Plan
import FlowGraph.Scan
import FlowGraph.Scan.Extensions
import FlowGraph.Scan.Handlers
import FlowGraph.Definition
import FlowGraph.Shelf
import FlowGraph.Settings
import FlowGraph.Enrollment
import FlowGraph.Stored
import FlowGraph.Settings.Storage
import FlowGraph.Script
import FlowGraph.Script.Written
import FlowGraph.Proofs.Traversal
import FlowGraph.Proofs.Legality
import FlowGraph.Proofs.Superstep
import FlowGraph.Proofs.Boundaries
import FlowGraph.Proofs.Frontier
import FlowGraph.Proofs.PlainScan
import FlowGraph.Proofs.WellFormed
import FlowGraph.Proofs.StoreGrowth
import FlowGraph.Proofs.Nesting
import FlowGraph.Proofs.Writes
import FlowGraph.Proofs.LoneWriter
import FlowGraph.Proofs.Ledger
import FlowGraph.Proofs.Unwritten
import FlowGraph.Proofs.Accumulation
import FlowGraph.Proofs.Lookups
import FlowGraph.Proofs.DeclarationOrder
import FlowGraph.Proofs.Rounds
import FlowGraph.Proofs.Budget
import FlowGraph.Proofs.Interrupts
import FlowGraph.Proofs.Walks
import FlowGraph.Proofs.Acceptance
import FlowGraph.Proofs.DirectBuild
import FlowGraph.Proofs.Deferral
import FlowGraph.Proofs.Handling
import FlowGraph.Proofs.Independence
import FlowGraph.Proofs.ShelfHistory
import FlowGraph.Proofs.Enrolling
import FlowGraph.Proofs.FailureOrigins
import FlowGraph.Proofs.StoreOnly
import FlowGraph.Proofs.Supplying
import FlowGraph.Proofs.Canonical
import FlowGraph.Proofs.StoredForms
import FlowGraph.Proofs.Offering
import FlowGraph.Proofs.RoleTags
import FlowGraph.Proofs.StoppedScan
import FlowGraph.Proofs.Interception
import FlowGraph.Proofs.LastMention
import FlowGraph.Proofs.RepeatedConfig
import FlowGraph.Proofs.GraphNames
import FlowGraph.Proofs.FullForm
import FlowGraph.Proofs.FlowchartReading
import FlowGraph.Proofs.Updates
