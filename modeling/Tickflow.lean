import Tickflow.CommandLine.Arguments
import Tickflow.CommandLine.Commands
import Tickflow.CommandLine.Example
import Tickflow.CommandLine.Grammar
import Tickflow.CommandLine.Host
import Tickflow.CommandLine.Literal
import Tickflow.CommandLine.Report
import Tickflow.CommandLine.Similarity
import Tickflow.CommandLine.World
import Tickflow.Compiled.Basic
import Tickflow.Compiled.Build
import Tickflow.Compiled.Lint
import Tickflow.Digraph
import Tickflow.Engine
import Tickflow.Engine.Document
import Tickflow.Engine.Event
import Tickflow.Engine.Instance
import Tickflow.Engine.Store
import Tickflow.Error
import Tickflow.Graph.Basic
import Tickflow.Graph.Document
import Tickflow.Json.Basic
import Tickflow.Json.Reader
import Tickflow.Json.Schema
import Tickflow.Json.Writer
import Tickflow.Main
import Tickflow.Member
import Tickflow.Node.Basic
import Tickflow.Node.Builtin
import Tickflow.Node.Kind
import Tickflow.Node.Scripted
import Tickflow.Number.Binary
import Tickflow.Number.Decimal
import Tickflow.Pin.Basic
import Tickflow.Pin.Set
import Tickflow.Pin.Laws
import Tickflow.Uuid
import Tickflow.Value.Basic
import Tickflow.Value.Display
import Tickflow.Value.Document
import Tickflow.Proofs.Members
import Tickflow.Proofs.Store
import Tickflow.Proofs.Delivery
import Tickflow.Proofs.Tick
import Tickflow.Proofs.Run
import Tickflow.Proofs.TokenFlow
import Tickflow.Proofs.Counting
import Tickflow.Proofs.Lineage
import Tickflow.Proofs.BackEdges
import Tickflow.Proofs.ForwardPaths
import Tickflow.Proofs.Descent
import Tickflow.Proofs.Activations
import Tickflow.Proofs.Latching
import Tickflow.Proofs.Layout
import Tickflow.Proofs.Slots
import Tickflow.Proofs.Joins
import Tickflow.Proofs.Parking
import Tickflow.Proofs.JoinRuns
import Tickflow.Proofs.FullMerge
import Tickflow.Proofs.Arrivals
import Tickflow.Proofs.SlotOrder
import Tickflow.Proofs.Stalls
import Tickflow.Proofs.StallRuns
import Tickflow.Proofs.ActivationState
import Tickflow.Proofs.Lifecycle
import Tickflow.Proofs.Firing
import Tickflow.Proofs.CycleSearch
import Tickflow.Proofs.Checking
import Tickflow.Proofs.Rounding
import Tickflow.Proofs.Shortest
import Tickflow.Proofs.DecimalText
import Tickflow.Proofs.JsonText
import Tickflow.Proofs.Wiring
import Tickflow.Proofs.Loops
import Tickflow.Proofs.DataValues
import Tickflow.Proofs.Resuming
import Tickflow.Proofs.Triggering
import Tickflow.Proofs.Diagnostics
import Tickflow.Proofs.JoinTimeouts
import Tickflow.Proofs.TimeoutRuns
import Tickflow.Proofs.TracedArrivals
import Tickflow.Proofs.PinIndices
import Tickflow.Proofs.SlotSweeps
import Tickflow.Proofs.GraphDocuments
