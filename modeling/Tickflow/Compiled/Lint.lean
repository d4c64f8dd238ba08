import Tickflow.Compiled.Basic
/-! # Authoring diagnostics

Lint reports gaps that do not stop a graph from running: a graph without an entry node,
a node with flow pins that no flow path from an entry reaches, and a flow output with no
wire. The missing entry comes first; then, node by node in definition order, its
unreachability and its unwired outputs in ascending pin order.
-/
namespace Tickflow

/-- How serious a diagnostic is. -/
inductive Severity where
  | info
  | warning
  deriving DecidableEq, Repr

/-- One authoring gap. -/
inductive Diagnostic where
  | noEntry
  | unreachable (node : Uuid)
  | unwiredOutput (node : Uuid) (pin : Nat)
  deriving DecidableEq, Repr

namespace Diagnostic

/-- A missing entry and an unreachable node are warnings; an unwired output is information. -/
def severity : Diagnostic → Severity
  | .noEntry | .unreachable _ => .warning
  | .unwiredOutput .. => .info

def message : Diagnostic → String
  | .noEntry => "graph has no entry node"
  | .unreachable n => "node " ++ n.toText ++ " is unreachable from any entry node"
  | .unwiredOutput n pin => "flow output " ++ toString pin ++ " of node " ++ n.toText ++ " is not wired"

end Diagnostic

namespace CompiledGraph

def nodeDiagnostics (reached : Array Bool) (i : Nat) (n : CompiledNode) : List Diagnostic :=
  let unreachable := if n.hasFlowPins && !Digraph.marked reached i then [Diagnostic.unreachable n.spec.id] else []
  let unwired := ((List.range n.flowOutputs.length).zip n.flowOutputs).filterMap fun (o,pin) =>
    if (n.targetsOf o).isEmpty then some (Diagnostic.unwiredOutput n.spec.id pin) else none
  unreachable ++ unwired

def lint (g : CompiledGraph) : List Diagnostic :=
  let reached := g.flow.reachable g.entries
  let header := if g.entries.isEmpty then [Diagnostic.noEntry] else []
  header ++ ((List.range g.nodes.size).zip g.nodes.toList).flatMap fun (i,n) => nodeDiagnostics reached i n

end CompiledGraph

end Tickflow
