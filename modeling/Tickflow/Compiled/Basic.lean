import Tickflow.Node.Kind
import Tickflow.Digraph
/-! # Compiled graphs

A compiled graph is a definition that passed every check, its nodes in definition order and
addressed by index, each with its type, output ordinals, wired flow inputs, targets per ordinal
(marked when they close a loop) and data sources.
-/
namespace Tickflow

/-- Where a flow output sends a token. -/
structure FlowTarget where
  node : Nat
  pin : Nat
  /-- The wire closes a loop: a token crossing it starts a new activation. -/
  backEdge : Bool
  deriving DecidableEq, Repr, Inhabited

/-- Where a data input reads from. -/
structure DataLink where
  node : Nat
  pin : Nat
  deriving DecidableEq, Repr, Inhabited

/-- A node of a compiled graph. -/
structure CompiledNode where
  spec : NodeSpec
  kind : NodeKind
  flowOutputs : List Nat
  connectedInputs : PinSet
  /-- Targets per output ordinal, in wiring order. -/
  targets : List (List FlowTarget)
  /-- Sources of wired data inputs, ascending by pin. -/
  dataSources : List (Nat × DataLink)
  deriving Inhabited

namespace CompiledNode

/-- The targets of output ordinal `o`; none past the declared outputs. -/
def targetsOf (n : CompiledNode) (o : Nat) : List FlowTarget := n.targets.getD o []

def dataSource? (n : CompiledNode) (pin : Nat) : Option DataLink :=
  (n.dataSources.find? (·.1 == pin)).map (·.2)

def pins (n : CompiledNode) : List PinType := n.kind.pins

def hasFlowPins (n : CompiledNode) : Bool := n.pins.any (·.kind == .flow)

def classification (n : CompiledNode) : Classification := n.kind.classification

end CompiledNode

/-- A graph ready to run. -/
structure CompiledGraph where
  id : Uuid
  name : String
  settings : GraphSettings
  nodes : Array CompiledNode
  /-- The flow wiring between node indices, in wiring order. -/
  flow : Digraph
  /-- Indices of the entry nodes, ascending. -/
  entries : List Nat
  /-- Every node's index is below `nodeIndexEnd`. -/
  size_le : nodes.size ≤ nodeIndexEnd := by decide

instance : Inhabited CompiledGraph := ⟨{ id := default,name := "",settings := {},nodes := #[],flow := default,entries := [] }⟩

namespace CompiledGraph

def node? (g : CompiledGraph) (i : Nat) : Option CompiledNode := g.nodes[i]?

def indexOf? (g : CompiledGraph) (id : Uuid) : Option Nat := g.nodes.findIdx? (·.spec.id == id)

def nodeCount (g : CompiledGraph) : Nat := g.nodes.size

def flowEdgeCount (g : CompiledGraph) : Nat := g.flow.edges.length

def nodeId (g : CompiledGraph) (i : Nat) : Uuid := ((g.node? i).map (·.spec.id)).getD Uuid.nil

end CompiledGraph

end Tickflow
