import Tickflow.Compiled.Basic
import Tickflow.Engine.Store
import Tickflow.Engine.Event
import Tickflow.Error
/-! # Running a graph

An instance runs one compiled graph tick by tick, as a pure state machine. Each tick delivers,
in sequence order, the tokens live when it began: the node is invoked, its state written back,
and its fired targets sent new tokens. A drained activation releases its slots, reporting the
waiting joins as stalled, and joins that waited past the limit are reported once.
-/
namespace Tickflow

/-- A running instance of a compiled graph. -/
structure Instance where
  graph : CompiledGraph
  hostVariables : List (String × Value) := []
  pending : List Token := []
  running : List Token := []
  store : ActivationStore := {}
  nextSeq : UInt64 := 0
  tick : UInt64 := 0
  status : InstanceStatus := .idle
  cancelled : Bool := false
  /-- The delivery trace, when recording. -/
  trace : Option (Array TraceEntry) := none
  stalled : Array StalledJoin := #[]
  /-- Every event published so far, in order. -/
  events : Array EngineEvent := #[]
  /-- Invocations so far of each node type, by type name. -/
  invocations : List (String × Nat) := []
  deriving Inhabited

namespace Instance

def create (graph : CompiledGraph) (recordTrace : Bool) (invocations : List (String × Nat) := []) :
    Instance :=
  { graph,trace := if recordTrace then some #[] else none,invocations }

def liveTokens (i : Instance) : Nat := i.pending.length + i.running.length

def tokens (i : Instance) : List Token := (i.running ++ i.pending).mergeSort (fun a b => a.seq ≤ b.seq)

def isFinished (i : Instance) : Bool := i.status == .finished

def setVariable (i : Instance) (name : String) (v : Value) : Instance :=
  { i with hostVariables := insertMember name v i.hostVariables }

def lookupVariable (i : Instance) (name : String) : Option Value := lookupMember name i.hostVariables

def traceEntries (i : Instance) : Array TraceEntry := i.trace.getD #[]

def emit (i : Instance) (e : EngineEvent) : Instance := { i with events := i.events.push e }

def waitingJoins (i : Instance) : List WaitingJoin :=
  i.store.waiting.map fun (act,idx,slot) =>
    let expected := ((i.graph.node? idx).map (·.connectedInputs)).getD PinSet.empty
    ⟨i.graph.nodeId idx,act,slot.state.arrivals,expected,i.tick - slot.waitingSince.getD i.tick⟩

/-- How the node at `idx` reads its data inputs: a wired input gives what its source node
offers on the source pin, an unwired one null. `fuel` bounds the chain of reads; the data
wiring is acyclic, so the node count suffices. -/
def dataAccess (g : CompiledGraph) (vars : List (String × Value)) : Nat → Nat → DataAccess
  | 0,_ => ⟨fun _ => .null,fun name => lookupMember name vars⟩
  | fuel + 1,idx =>
    ⟨fun pin =>
      match (g.node? idx).bind (·.dataSource? pin) with
      | some link =>
        match g.node? link.node with
        | some src => src.kind.getData src.spec (dataAccess g vars fuel link.node) link.pin
        | none => .null
      | none => .null,
     fun name => lookupMember name vars⟩

/-- The value a node reads on one of its data inputs. -/
def readDataPin (i : Instance) (idx pin : Nat) : Value :=
  (dataAccess i.graph i.hostVariables (i.graph.nodeCount + 1) idx).readPin pin

def enqueue (i : Instance) (node pin : Nat) (act : UInt64) : Instance :=
  { i with
    pending := i.pending ++ [⟨i.nextSeq,node,pin,act⟩]
    nextSeq := i.nextSeq + 1
    store := i.store.tokenCreated act }

def record (i : Instance) (t : Token) (node : Uuid) (outcome : TraceOutcome) (outputs arrivals : PinSet) :
    Instance :=
  { i with trace := i.trace.map (·.push ⟨i.tick,t.seq,node,t.pin,t.activation,outcome,outputs,arrivals⟩) }

/-- Releases a drained activation: its waiting slots become stalled joins, in node order. -/
def releaseActivation (i : Instance) (act : UInt64) : Instance :=
  let (slots,store) := i.store.release act
  slots.foldl (fun i (idx,slot) =>
    if slot.isWaiting then
      let expected := ((i.graph.node? idx).map (·.connectedInputs)).getD PinSet.empty
      let node := i.graph.nodeId idx
      let i := { i with stalled := i.stalled.push ⟨node,act,slot.state.arrivals,expected,i.tick⟩ }
      i.emit (.joinStalled node act slot.state.arrivals expected)
    else i) { i with store }

/-- Consumes a token of an activation, releasing the activation with its last token. -/
def consume (i : Instance) (act : UInt64) : Instance :=
  let (last,store) := i.store.tokenConsumed act
  let i := { i with store }
  if last then i.releaseActivation act else i

/-- Sends one token along a target: it keeps the activation `act`, or starts a fresh one when
the target is a back edge. -/
def send (i : Instance) (act : UInt64) (target : FlowTarget) : Instance :=
  if target.backEdge then
    let (fresh,store) := i.store.mint
    { i with store }.enqueue target.node target.pin fresh
  else i.enqueue target.node target.pin act

/-- The targets a node's fired ordinals send to, in ascending ordinal and then wiring order. -/
def firedTargets (n : CompiledNode) (outputs : PinSet) : List FlowTarget :=
  outputs.toList.flatMap n.targetsOf

/-- Sends a token along each target of each fired ordinal, in ascending ordinal and then
wiring order; a back edge starts a fresh activation. Returns how many were sent. -/
def spawn (i : Instance) (n : CompiledNode) (act : UInt64) (outputs : PinSet) : Nat × Instance :=
  let targets := firedTargets n outputs
  (targets.length,targets.foldl (fun i target => i.send act target) i)

def checkedOutputs (n : CompiledNode) (outputs : PinSet) : PinSet :=
  PinSet.ofList (outputs.toList.filter (· < n.flowOutputs.length))

def writeBack (store : ActivationStore) (t : Token) (state : ExecState) (after : ActivationState)
    (tick : UInt64) : ActivationStore :=
  match state with
  | .done => store.retire t.node t.activation
  | .latched => (store.restore t.node t.activation after).latch t.node t.activation
  | .waiting => (store.restore t.node t.activation after).markWaiting t.node t.activation tick
  | .executing => store.hold t.node t.activation t.seq after

/-- Runs the token's node on its activation's state: the token's own parked state when it
resumes, else the state taken out of the shared slot. Counts the invocation for the node's
type and publishes the node's events. -/
def invoke (i : Instance) (n : CompiledNode) (t : Token) (dt : Binary64) : Outcome × Instance :=
  let (parked,store) := i.store.resume t.seq
  let (state,store) := match parked with
    | some st => (st,store)
    | none => store.takeState t.node t.activation
  let count := (lookupMember n.kind.id i.invocations).getD 0 + 1
  let inv : Invocation := ⟨n.spec,t.pin,t.activation,n.connectedInputs,dt⟩
  let data := dataAccess i.graph i.hostVariables (i.graph.nodeCount + 1) t.node
  let out := n.kind.update inv data state count
  let i := { i with store,invocations := insertMember n.kind.id count i.invocations }
  (out,out.events.foldl (fun i e => i.emit (.nodeEvent n.spec.id e)) i)

/-- Applies an invocation's outcome: writes the state back, records the delivery and, when the
node is done or latched, publishes its completion and sends its tokens. Returns how many were
sent. -/
def complete (i : Instance) (n : CompiledNode) (t : Token) (out : Outcome) : Nat × Instance :=
  let fires := out.result.firesOutputs
  let outputs := if fires then checkedOutputs n out.result.outputs else PinSet.empty
  let i := { i with store := writeBack i.store t out.result.state out.state i.tick }
  let i := i.record t n.spec.id (.ran out.result.state) outputs out.state.arrivals
  if fires then
    let i := i.emit (.nodeCompleted n.spec.id n.spec.nodeType t.activation out.result.state outputs i.tick)
    i.spawn n t.activation outputs
  else (0,i)

/-- Keeps a token whose node is still executing for the next tick; any other token is
consumed. -/
def settle (i : Instance) (t : Token) (keep : Bool) : Instance :=
  if keep then { i with running := i.running ++ [t] } else i.consume t.activation

/-- Delivers one token up to settling it, granting `dt` of time; returns how many tokens it
sent and whether its node is still executing. A token that reaches a latched slot is
absorbed: recorded without running its node. -/
def process (i : Instance) (t : Token) (dt : Binary64) : Nat × Bool × Instance :=
  match i.graph.node? t.node with
  | none => (0,false,i)
  | some n =>
    if i.store.isLatched t.node t.activation then
      (0,false,i.record t n.spec.id .absorbed PinSet.empty PinSet.empty)
    else
      let (out,i) := i.invoke n t dt
      let (sent,i) := i.complete n t out
      (sent,decide (out.result.state = .executing),i)

/-- Delivers one token, granting `dt` of time; returns how many tokens it sent. The token
stays for the next tick while its node is executing and is consumed otherwise. -/
def deliver (i : Instance) (t : Token) (dt : Binary64) : Nat × Instance :=
  let (sent,keep,i) := i.process t dt
  (sent,i.settle t keep)

/-- Delivers a batch in order, each token granted `dt`; returns how many tokens the deliveries
sent. -/
def deliverAll (i : Instance) : List Token → Binary64 → Nat × Instance
  | [],_ => (0,i)
  | t :: rest,dt =>
    let (n,i) := i.deliver t dt
    let (m,i) := i.deliverAll rest dt
    (n + m,i)

/-- Marks joins that have waited longer than the graph's limit, once each, and reports them
in (activation, node) order. -/
def checkJoinTimeouts (i : Instance) : Instance :=
  match i.graph.settings.joinTimeoutTicks with
  | none => i
  | some limit =>
    let late := i.store.waiting.filterMap fun (act,idx,slot) =>
      let since := slot.waitingSince.getD i.tick
      if !slot.timedOut && (i.tick - since).toNat > limit then some (act,idx,i.tick - since) else none
    let store := late.foldl (fun s (act,idx,_) => s.modifySlot idx act fun sl => { sl with timedOut := true })
      i.store
    late.foldl (fun i (act,idx,waited) => i.emit (.joinTimedOut (i.graph.nodeId idx) act waited))
      { i with store }

/-- Stops the instance: every token is discarded and all activation state cleared. Stopping a
stopped instance does nothing. -/
def abort (i : Instance) : Instance :=
  if i.status = .aborted then i
  else
    let discarded := i.liveTokens
    let (_,store) := i.store.clear
    { i with pending := [],running := [],store,status := .aborted,cancelled := true }.emit
      (.instanceAborted discarded)

/-- Cancels the instance from outside: triggers fail from now on and the next tick stops it. -/
def cancel (i : Instance) : Instance := { i with cancelled := true }

/-- Starts a fresh activation at the node at `idx`, running the instance if it was not, and
queues the activation's first token on pin 0. -/
def activate (i : Instance) (idx : Nat) : UInt64 × Instance :=
  let i := if i.status = .running then i else { i with status := .running }.emit (.instanceStarted i.graph.id)
  let (act,store) := i.store.mint
  (act,{ i with store }.enqueue idx 0 act)

/-- Starts an activation at an entry node and queues its first token. -/
def trigger (i : Instance) (node : Uuid) : Except ScriptError (UInt64 × Instance) := do
  if i.status = .aborted ∨ i.cancelled then throw .instanceAborted
  let some idx := i.graph.indexOf? node | throw (.unknownNode node)
  if !i.graph.entries.contains idx then throw (.notAnEntry node)
  return i.activate idx

/-- Triggers the entry at `idx` unless an earlier one failed, collecting the activations
started and the first failure. -/
def startEntry : List UInt64 × Option ScriptError × Instance → Nat → List UInt64 × Option ScriptError × Instance
  | (acts,some e,i),_ => (acts,some e,i)
  | (acts,none,i),idx =>
    match i.trigger (i.graph.nodeId idx) with
    | .ok (act,i) => (acts ++ [act],none,i)
    | .error e => (acts,some e,i)

/-- Triggers every entry in definition order; the first failure ends it, the activations
already started standing. -/
def start (i : Instance) : List UInt64 × Option ScriptError × Instance :=
  i.graph.entries.foldl startEntry ([],none,i)

/-- A tick begins: its number moves on and the live tokens are taken out into its batch. -/
def tickStart (i : Instance) : Instance := { i with tick := i.tick + 1,running := [],pending := [] }

/-- A tick ends after `delivered` deliveries that sent `sent` tokens: late joins are reported,
and with no token left the instance finishes. -/
def tickEnd (i : Instance) (delivered sent : Nat) : TickSummary × Instance :=
  let i := i.checkJoinTimeouts
  let live := i.liveTokens
  if live = 0 then
    let i := { i with status := .finished }.emit (.instanceFinished i.tick)
    (⟨i.tick,delivered,sent,live,true⟩,i)
  else (⟨i.tick,delivered,sent,live,false⟩,i)

def step (i : Instance) (dt : Binary64) : TickSummary × Instance :=
  let i := if i.cancelled then i.abort else i
  if i.status ≠ .running then ({ tick := i.tick,finished := i.status = .finished },i)
  else
    let batch := i.tokens
    let (sent,j) := i.tickStart.deliverAll batch dt
    j.tickEnd batch.length sent

/-- Ticks while the instance runs, at most `maxTicks` times; returns the ticks run. -/
def runUntilIdle (i : Instance) (dt : Binary64) (maxTicks : Nat) : Nat × Instance :=
  go maxTicks 0 i
where
  go : Nat → Nat → Instance → Nat × Instance
    | 0,n,i => (n,i)
    | fuel + 1,n,i =>
      if i.status = .running then go fuel (n + 1) (i.step dt).2 else (n,i)

end Instance

end Tickflow
