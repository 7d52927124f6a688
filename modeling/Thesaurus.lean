import Thesaurus.Canvas.Basic
import Thesaurus.Canvas.Drawing
import Thesaurus.Concept
import Thesaurus.Counting
import Thesaurus.Decimal.Shortest
import Thesaurus.Descendants
import Thesaurus.Descent
import Thesaurus.Drag
import Thesaurus.Expansion
import Thesaurus.Failure
import Thesaurus.Forest
import Thesaurus.Graph
import Thesaurus.IndexedGraph
import Thesaurus.Interchange
import Thesaurus.Json.Fields
import Thesaurus.Json.Format
import Thesaurus.Json.Numeral
import Thesaurus.Json.Quoted
import Thesaurus.Json.Reader
import Thesaurus.Json.Value
import Thesaurus.Json.Writer
import Thesaurus.Layout.Basic
import Thesaurus.Layout.Plane
import Thesaurus.Layout.Simulation
import Thesaurus.Layout.Snapshot
import Thesaurus.Layout.Step
import Thesaurus.Page.App
import Thesaurus.Page.Browser
import Thesaurus.Page.Document
import Thesaurus.Page.GraphView
import Thesaurus.Page.TreeView
import Thesaurus.Path
import Thesaurus.Projection
import Thesaurus.Repository
import Thesaurus.Samples
import Thesaurus.Search
import Thesaurus.Session
import Thesaurus.Settings
import Thesaurus.Table
import Thesaurus.Text.Blank
import Thesaurus.Text.CaseTable
import Thesaurus.Text.Lowercase
import Thesaurus.TextSet
import Thesaurus.Proofs.Reachability
import Thesaurus.Proofs.Ingest
import Thesaurus.Proofs.GuardedChange
import Thesaurus.Proofs.PathCodec
import Thesaurus.Proofs.Placement
import Thesaurus.Proofs.SessionEvents
import Thesaurus.Proofs.SessionRun
import Thesaurus.Proofs.DropAnswered
import Thesaurus.Proofs.Exchange
import Thesaurus.Proofs.RoundTrips
import Thesaurus.Proofs.WellLinked
import Thesaurus.Proofs.Ways
import Thesaurus.Proofs.Unfolding
import Thesaurus.Proofs.CyclePrevention
import Thesaurus.Proofs.SessionSteps
import Thesaurus.Proofs.Settlement
import Thesaurus.Proofs.HeldParent
import Thesaurus.Proofs.Marking
import Thesaurus.Proofs.SchemeIsolation
import Thesaurus.Proofs.Dialogue
import Thesaurus.Proofs.Staleness
import Thesaurus.Proofs.Revealing
import Thesaurus.Proofs.SnapshotShape
import Thesaurus.Proofs.Forces
import Thesaurus.Proofs.LayoutSync
import Thesaurus.Proofs.HitConcepts
import Thesaurus.Proofs.WellRelated
import Thesaurus.Proofs.TablesInStep
import Thesaurus.Proofs.GraphEdits
import Thesaurus.Proofs.HeldNodes
import Thesaurus.Proofs.PointerHold
import Thesaurus.Proofs.ViewEmphasis
import Thesaurus.Proofs.KeptRows
import Thesaurus.Proofs.VisibleRows
import Thesaurus.Proofs.FinishingOrder
import Thesaurus.Proofs.HonestAnswers
import Thesaurus.Proofs.LiteralHits
import Thesaurus.Proofs.QuotedText
import Thesaurus.Proofs.Spelling
import Thesaurus.Proofs.ExactReading
import Thesaurus.Proofs.WrittenValues
import Thesaurus.Proofs.WireFormat
import Thesaurus.Proofs.NamedLinks
import Thesaurus.Proofs.RepeatedRecords
import Thesaurus.Proofs.MirroredRecords
import Thesaurus.Proofs.Addresses
import Thesaurus.Proofs.RootDistances
import Thesaurus.Proofs.HoveredPlace
import Thesaurus.Proofs.DragHistory
import Thesaurus.Proofs.Contexts
import Thesaurus.Proofs.OccurrenceCounts
import Thesaurus.Proofs.PinnedNodes
import Thesaurus.Proofs.OpenedPaths
