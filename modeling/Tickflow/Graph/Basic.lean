import Tickflow.Uuid
import Tickflow.Value.Basic
/-! # Graph definitions

A graph definition is what an author writes: nodes, each of a named type with its own
configuration, and connections from an output pin of one node to an input pin of another.
Nodes keep the order in which they are listed; that order is the order of every report
about them. A node's label is its name when it has one, else its type.
-/
namespace Tickflow

/-- Where a node is drawn; single-precision coordinates. -/
structure Position where
  x : Binary32
  y : Binary32
  deriving DecidableEq, Inhabited

/-- One node of a definition. -/
structure NodeSpec where
  id : Uuid
  nodeType : String
  name : Option String := none
  /-- Configuration members in ascending key order. -/
  config : List (String × Value) := []
  position : Option Position := none
  deriving Inhabited

/-- A wire from output pin `fromPin` of `fromNode` to input pin `toPin` of `toNode`. -/
structure Connection where
  fromNode : Uuid
  fromPin : Nat
  toNode : Uuid
  toPin : Nat
  deriving DecidableEq, Inhabited

/-- Graph-wide settings. -/
structure GraphSettings where
  /-- A join that waits longer than this many ticks is reported as timed out. -/
  joinTimeoutTicks : Option Nat := none
  /-- Every flow output must be wired. -/
  strictOutputs : Bool := false
  deriving DecidableEq, Inhabited

/-- A graph definition. -/
structure Graph where
  id : Uuid
  name : String
  description : Option String := none
  nodes : List NodeSpec
  connections : List Connection := []
  settings : GraphSettings := {}
  deriving Inhabited

namespace NodeSpec

def label (n : NodeSpec) : String := n.name.getD n.nodeType

def configValue? (n : NodeSpec) (key : String) : Option Value := lookupMember key n.config

end NodeSpec

namespace Graph

def findNode? (g : Graph) (id : Uuid) : Option NodeSpec := g.nodes.find? (·.id == id)

end Graph

end Tickflow
