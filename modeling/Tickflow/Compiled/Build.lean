import Tickflow.Compiled.Basic
import Tickflow.Error
/-! # Compiling a graph

`CompiledGraph.compile` stops at the first violation: the nodes in order (new identifier,
registered type, at most `maxPins` pins, accepted configuration, an index below `nodeIndexEnd`),
then the connections in order, then a data cycle, then with `strictOutputs` an unwired output.
Flow wires that a depth-first search meets while their target is open are marked as back edges.
-/
namespace Tickflow

namespace CompiledGraph

/-- Checks one node definition and lays out its node, at index `seen.length`. -/
def compileNode (registry : Registry) (seen : List Uuid) (spec : NodeSpec) :
    Except DefinitionError CompiledNode := do
  if seen.contains spec.id then throw (.duplicateNode spec.id)
  let kind ← registry.resolve spec.nodeType
  if kind.pins.length > maxPins then throw (.tooManyPins spec.nodeType kind.pins.length maxPins)
  match kind.validate spec.config with
  | .error e => throw (.invalidConfig spec.id e)
  | .ok () => pure ()
  if nodeIndexEnd ≤ seen.length then throw .nodeIndexLimit
  let outs := kind.flowOutputs
  return ⟨spec,kind,outs,PinSet.empty,List.replicate outs.length [],[]⟩

def compileNodes (registry : Registry) : List Uuid → List NodeSpec → Except DefinitionError (List CompiledNode)
  | _,[] => .ok []
  | seen,spec :: rest => do
    let n ← compileNode registry seen spec
    let ns ← compileNodes registry (spec.id :: seen) rest
    return n :: ns

/-- The wiring gathered from the connections: flow wires as `(from, ordinal, to, pin)`, the
flow and data graphs' edges, and the nodes with their wired inputs recorded. -/
structure Wiring where
  nodes : Array CompiledNode
  flowWires : List (Nat × Nat × Nat × Nat) := []
  flowEdges : List (Nat × Nat) := []
  dataEdges : List (Nat × Nat) := []

def pinAt (nodes : Array CompiledNode) (i : Nat) (id : Uuid) (pin : Nat) : Except DefinitionError PinType :=
  match nodes[i]? with
  | some n =>
    match n.pins[pin]? with
    | some p => .ok p
    | none => .error (.pinOutOfRange id pin)
  | none => .error (.pinOutOfRange id pin)

def expectDirection (id : Uuid) (pin : Nat) (actual : PinType) (expected : PinDirection) :
    Except DefinitionError Unit :=
  if actual.direction = expected then .ok ()
  else .error (.pinMismatch id pin ⟨actual.kind,expected⟩ actual)

def wire (w : Wiring) (c : Connection) : Except DefinitionError Wiring := do
  let some src := w.nodes.findIdx? (·.spec.id == c.fromNode) | throw (.nodeNotFound c.fromNode)
  let some dst := w.nodes.findIdx? (·.spec.id == c.toNode) | throw (.nodeNotFound c.toNode)
  let fromPin ← pinAt w.nodes src c.fromNode c.fromPin
  let toPin ← pinAt w.nodes dst c.toNode c.toPin
  expectDirection c.fromNode c.fromPin fromPin .output
  expectDirection c.toNode c.toPin toPin .input
  if fromPin.kind ≠ toPin.kind then throw (.kindMismatch c.toNode fromPin.kind toPin.kind)
  match fromPin.kind with
  | .flow =>
    let ordinal := ((w.nodes[src]?.map (·.flowOutputs)).getD []).idxOf c.fromPin
    let nodes := w.nodes.modify dst fun n => { n with connectedInputs := n.connectedInputs.add c.toPin }
    return { w with
      nodes := nodes
      flowWires := w.flowWires ++ [(src,ordinal,dst,c.toPin)]
      flowEdges := w.flowEdges ++ [(src,dst)] }
  | .data =>
    let sources := (w.nodes[dst]?.map (·.dataSources)).getD []
    if (sources.find? (·.1 == c.toPin)).isSome then throw (.dataInputAlreadyWired c.toNode c.toPin)
    let link : DataLink := ⟨src,c.fromPin⟩
    let nodes := w.nodes.modify dst fun n =>
      { n with dataSources := (n.dataSources ++ [(c.toPin,link)]).mergeSort (fun a b => a.1 ≤ b.1) }
    return { w with nodes := nodes,dataEdges := w.dataEdges ++ [(src,dst)] }

/-- Places each flow wire among its source's targets, marking back edges. -/
def placeTargets (nodes : Array CompiledNode) (back : List (Nat × Nat)) :
    List (Nat × Nat × Nat × Nat) → Array CompiledNode
  | [] => nodes
  | (src,ordinal,dst,pin) :: rest =>
    let target : FlowTarget := ⟨dst,pin,back.contains (src,dst)⟩
    let nodes := nodes.modify src fun n =>
      { n with targets := n.targets.modify ordinal (· ++ [target]) }
    placeTargets nodes back rest

/-- The first node, in definition order, with an output ordinal that has no target, and that
ordinal's pin. -/
def firstUnwired? (nodes : List CompiledNode) : Option (Uuid × Nat) :=
  nodes.findSome? fun n =>
    match n.targets.findIdx? (·.isEmpty) with
    | some o => some (n.spec.id,n.flowOutputs.getD o 0)
    | none => none

/-- Checks a definition against a registry and lays out its wiring. -/
def compile (registry : Registry) (g : Graph) : Except DefinitionError CompiledGraph := do
  let nodes ← compileNodes registry [] g.nodes
  let w ← g.connections.foldlM wire { nodes := nodes.toArray }
  let size := nodes.length
  match (Digraph.mk size w.dataEdges).cycleWitness? with
  | some i => throw (.cyclicDataDependency ((w.nodes[i]?.map (·.spec.id)).getD Uuid.nil))
  | none => pure ()
  let entries := (List.range size).filter fun i =>
    (w.nodes[i]?.map (·.classification == .entry)).getD false
  let flow : Digraph := ⟨size,w.flowEdges⟩
  let back := flow.backEdges (entries ++ List.range size)
  let placed := placeTargets w.nodes back w.flowWires
  if g.settings.strictOutputs then
    match firstUnwired? placed.toList with
    | some (id,pin) => throw (.unwiredOutput id pin)
    | none => pure ()
  -- the node checks left every node an index below the end marker; the graph carries that
  if h : placed.size ≤ nodeIndexEnd then return ⟨g.id,g.name,g.settings,placed,flow,entries,h⟩
  else throw .nodeIndexLimit

end CompiledGraph

end Tickflow
