import Tickflow.CommandLine.Host
import Tickflow.CommandLine.Report
import Tickflow.CommandLine.Example
import Tickflow.CommandLine.Arguments
import Tickflow.Engine
import Tickflow.Compiled.Lint
import Tickflow.Graph.Document
import Tickflow.Json.Reader
import Tickflow.Value.Document
/-! # The commands

`run` compiles a graph, starts every entry and ticks until the instance finishes or the budget
is spent, printing what it published, a summary, the waiting and stalled joins and on request
the trace; `validate` compiles and lints, `nodes` lists the standard types and `init` writes
the example graph. Published events pass through a buffer of `eventCapacity` slots.
-/
namespace Tickflow

/-- How a run of the program ended. -/
inductive Ending where
  | success
  /-- Reading the arguments stopped, with this exit code. -/
  | stopped (code : UInt32)
  | failed (f : Failure)
  deriving DecidableEq, Repr

def Ending.code : Ending → UInt32
  | .success => 0
  | .stopped code => code
  | .failed _ => 1

def eventCapacity : Nat := nextPowerOfTwo 1000

def activationText (act : UInt64) : String := "#" ++ toString act.toNat

def eventLine (instanceId : Uuid) : EngineEvent → String
  | .instanceStarted _ => "Instance " ++ instanceId.toText ++ " started"
  | .nodeCompleted node nodeType act _ outputs tick =>
    "  [t" ++ toString tick.toNat ++ "] " ++ nodeType ++ " (" ++ node.toText ++ ") activation " ++
      activationText act ++ " fired " ++ outputs.debugText
  | .joinStalled node act _ _ => "  Join " ++ node.toText ++ " stalled in activation " ++ activationText act
  | .joinTimedOut node _ waited => "  Join " ++ node.toText ++ " waiting for " ++ toString waited.toNat ++ " ticks"
  | .nodeEvent node (.info message) => "     [" ++ node.toText ++ "] " ++ message
  | .nodeEvent node (.warning message) => "     [" ++ node.toText ++ "] warning: " ++ message
  | .instanceFinished ticks => "Instance finished after " ++ toString ticks.toNat ++ " ticks"
  | .instanceAborted discarded => "Instance aborted, " ++ toString discarded ++ " tokens discarded"

def labelOf (g : Graph) (id : Uuid) : String := ((g.findNode? id).map (·.label)).getD ""

def eventLog (g : Graph) (instanceId : Uuid) (verbose : Bool) : EngineEvent → Option (LogLevel × String)
  | .instanceStarted graph =>
    some (.info,"Starting instance " ++ instanceId.toText ++ " of graph " ++ graph.toText)
  | .nodeCompleted node _ act _ outputs _ =>
    if verbose then
      some (.debug,"Node " ++ labelOf g node ++ " (" ++ node.toText ++ ") completed activation " ++
        activationText act ++ ", firing " ++ outputs.debugText)
    else none
  | .joinStalled node act arrived expected =>
    some (.warn,"Join " ++ labelOf g node ++ " (" ++ node.toText ++ ") stalled in activation " ++
      activationText act ++ ": arrived " ++ arrived.debugText ++ ", expected " ++ expected.debugText)
  | .joinTimedOut node act waited =>
    some (.warn,"Join " ++ labelOf g node ++ " (" ++ node.toText ++ ") has waited " ++
      toString waited.toNat ++ " ticks in activation " ++ activationText act)
  | .nodeEvent node (.info message) => some (.info,"[" ++ labelOf g node ++ "] " ++ message)
  | .nodeEvent _ (.warning _) => none
  | .instanceFinished ticks =>
    some (.info,"Instance " ++ instanceId.toText ++ " finished after " ++ toString ticks.toNat ++ " ticks")
  | .instanceAborted _ => none

/-- Reads a host variable written `name=json`: the text after the first `=` is read as JSON,
or taken as a string when it is no JSON. -/
def parseVariable (raw : String) : Option (String × Value) :=
  match raw.splitOn "=" with
  | name :: first :: rest =>
    let text := "=".intercalate (first :: rest)
    some (name,match Json.parse text with
      | .ok j => Value.ofJson j
      | .error _ => .string text)
  | _ => none

def traceLine (e : TraceEntry) : String :=
  "   t" ++ toString e.tick.toNat ++ " #" ++ toString e.seq.toNat ++ " " ++ e.node.toText ++ " pin " ++
    toString e.pin ++ " act " ++ activationText e.activation ++ " -> " ++ e.outcome.name ++ " out " ++
    e.outputs.debugText

section Commands

variable {m : Type → Type} [Monad m] [Host m]

def say (text : String) : m Unit := Host.emit (.line text)

def logRecord (level : LogLevel) (message : String) : m Unit := Host.emit (.log level message)

def fail (f : Failure) : m Ending := do
  for l in f.lines do Host.emit (.errorLine l)
  return .failed f

def loadGraph (path : String) : m (Except Failure Graph) := do
  match ← Host.readText path with
  | .error e => return .error ⟨.loading,"loading " ++ path,["IO error: " ++ e.message,e.message]⟩
  | .ok text =>
    match Graph.parse? text with
    | .error e => return .error ⟨.loading,"loading " ++ path,["Serialization error: " ++ e.message,e.message]⟩
    | .ok g => return .ok g

/-- What `run` tracks while ticking: the instance, how many of its events were printed or
skipped, and how many were logged. -/
structure Watch where
  inst : Instance
  printed : Nat
  logged : Nat

def logNew (g : Graph) (instanceId : Uuid) (verbose : Bool) (w : Watch) : m Watch := do
  for e in w.inst.events.extract w.logged w.inst.events.size do
    match eventLog g instanceId verbose e with
    | some (level,message) => logRecord level message
    | none => pure ()
  return { w with logged := w.inst.events.size }

/-- Prints the events not yet read; a reader too far behind skips to the oldest event the
buffer keeps and prints nothing this time. -/
def printNew (instanceId : Uuid) (w : Watch) : m Watch := do
  let sent := w.inst.events.size
  if sent - w.printed > eventCapacity then return { w with printed := sent - eventCapacity }
  for e in w.inst.events.extract w.printed sent do say (eventLine instanceId e)
  return { w with printed := sent }

/-- Ticks while the instance has not finished and the budget lasts, at most `fuel` times. -/
def tickLoop (g : Graph) (instanceId : Uuid) (dt : Binary64) (maxTicks : UInt64) (verbose : Bool) :
    Nat → Watch → m Watch
  | 0,w => pure w
  | fuel + 1,w => do
    if w.inst.isFinished || w.inst.tick ≥ maxTicks then return w
    let (summary,inst) := w.inst.step dt
    let w ← logNew g instanceId verbose { w with inst }
    if verbose then
      logRecord .debug ("tick " ++ toString summary.tick.toNat ++ ": delivered " ++ toString summary.delivered ++
        ", spawned " ++ toString summary.spawned ++ ", live " ++ toString summary.liveTokens)
    let w ← printNew instanceId w
    tickLoop g instanceId dt maxTicks verbose fuel w

def summarize (instanceId : Uuid) (inst : Instance) (trace : Bool) : m Unit := do
  say ""
  say "Summary:"
  say ("   Instance: " ++ instanceId.toText)
  say ("   Status: " ++ inst.status.name)
  say ("   Ticks: " ++ toString inst.tick.toNat)
  say ("   Live tokens: " ++ toString inst.liveTokens)
  for j in inst.waitingJoins do
    say ("   Waiting join " ++ j.node.toText ++ " activation " ++ activationText j.activation ++ ": " ++
      j.arrived.debugText ++ " of " ++ j.expected.debugText ++ " for " ++ toString j.waitingTicks.toNat ++ " ticks")
  for j in inst.stalled.toList do
    say ("   Stalled join " ++ j.node.toText ++ " activation " ++ activationText j.activation ++ ": " ++
      j.arrived.debugText ++ " of " ++ j.expected.debugText)
  if trace then
    say ""
    say "Trace:"
    for e in inst.traceEntries.toList do say (traceLine e)

/-- Sets the host variables in order; the first one not written `name=value` fails. -/
def setVariables (inst : Instance) : List String → Except Failure Instance
  | [] => .ok inst
  | raw :: rest =>
    match parseVariable raw with
    | some (name,v) => setVariables (inst.setVariable name v) rest
    | none => .error ⟨.variable,"variable '" ++ raw ++ "' must look like name=value",[]⟩

def loopEdgeCount (c : CompiledGraph) : Nat :=
  c.nodes.toList.foldl (fun n node => n + (node.targets.flatten.filter (·.backEdge)).length) 0

def runCommand (file : String) (ticks : UInt64) (dt : Binary64) (vars : List String) (trace verbose : Bool) :
    m Ending := do
  say ("Loading graph from: " ++ file)
  match ← loadGraph file with
  | .error f => fail f
  | .ok g =>
    say ("Graph: " ++ g.name)
    say ("   Nodes: " ++ toString g.nodes.length)
    say ("   Connections: " ++ toString g.connections.length)
    say ""
    for b in Builtin.all do logRecord .info ("Registering node type: " ++ b.id)
    let engine := Engine.create Registry.standard { recordTrace := trace }
    match engine.instantiateGraph g with
    | .error e => fail (Failure.ofScriptError e)
    | .ok inst =>
      if verbose then
        logRecord .debug ("Compiled graph " ++ g.id.toText ++ " (" ++ toString inst.graph.nodeCount ++
          " nodes, " ++ toString inst.graph.flowEdgeCount ++ " flow edges, " ++
          toString (loopEdgeCount inst.graph) ++ " loop edges)")
      let instanceId ← Host.freshUuid
      match setVariables inst vars with
      | .error f => fail f
      | .ok inst =>
        if inst.graph.entries.isEmpty then logRecord .warn ("Graph " ++ g.id.toText ++ " has no entry node")
        let (started,err,inst) := inst.start
        let w ← logNew g instanceId verbose ⟨inst,0,0⟩
        match err with
        | some e => fail (Failure.ofScriptError e)
        | none =>
          if started.isEmpty then fail ⟨.noEntry,"graph has no entry node",[]⟩
          else
            let w ← tickLoop g instanceId dt ticks verbose ticks.toNat w
            summarize instanceId w.inst trace
            return .success

def validateCommand (file : String) : m Ending := do
  say ("Validating graph: " ++ file)
  match ← loadGraph file with
  | .error f => fail f
  | .ok g =>
    match (Engine.create Registry.standard {}).compile g with
    | .error e => fail (Failure.ofScriptError e)
    | .ok c =>
      say "Graph is valid:"
      say ("   Name: " ++ c.name)
      say ("   Nodes: " ++ toString c.nodeCount)
      say ("   Entry nodes: " ++ toString c.entries.length)
      for d in c.lint do
        let level := match d.severity with
          | .warning => "warning"
          | .info => "info"
        say ("   " ++ level ++ ": " ++ d.message)
      return .success

def nodesCommand : m Ending := do
  say "Available Node Types:"
  say ""
  for (id,kind) in Registry.standard.types do
    say ("  • " ++ id ++ " (" ++ kind.metadata.category ++ ")")
    say ("    " ++ kind.metadata.description)
  return .success

def initCommand (output : String) : m Ending := do
  let graphId ← Host.freshUuid
  let mut nodeIds := #[]
  for _ in List.range 9 do
    nodeIds := nodeIds.push (← Host.freshUuid)
  let g := exampleGraph graphId nodeIds.toList
  match ← Host.writeText output g.render with
  | .error e => fail ⟨.file,e.message,[]⟩
  | .ok () =>
    say ("Created example graph: " ++ output)
    say ""
    say "Run it with:"
    say ("  script run --file " ++ output ++ " --trace")
    return .success

def execute : Command → m Ending
  | .run file ticks dt vars trace verbose => runCommand file ticks dt vars trace verbose
  | .validate file => validateCommand file
  | .nodes => nodesCommand
  | .init output => initCommand output

/-- The lines of a text that ends with a line break. -/
def textLines (text : String) : List String :=
  let lines := text.splitOn "\n"
  if text.endsWith "\n" then lines.dropLast else lines

/-- Runs the program on its arguments, the program's name left out. -/
def runProgram (args : List String) : m Ending := do
  match parseCommandLine args with
  | .error stop =>
    for l in textLines stop.text do
      Host.emit (if stop.toStdout then .line l else .errorLine l)
    return .stopped stop.code
  | .ok cmd => execute cmd

end Commands

end Tickflow
