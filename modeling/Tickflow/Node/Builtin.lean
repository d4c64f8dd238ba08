import Tickflow.Node.Basic
import Tickflow.Value.Display
import Tickflow.Error
/-! # The built-in node kinds

The eleven kinds that ship with the engine: six of flow, `time.wait`, `debug.log`, and three
that only answer data reads.
-/
namespace Tickflow

/-- A built-in node kind. -/
inductive Builtin where
  | start
  | branch
  | fork
  | mergeOne
  | mergeAll
  | stop
  | wait
  | log
  | literal
  | variableValue
  | not
  deriving DecidableEq, Repr, Inhabited

namespace Builtin

def all : List Builtin :=
  [.start,.branch,.fork,.mergeOne,.mergeAll,.stop,.wait,.log,.literal,.variableValue,.not]

def id : Builtin → String
  | .start => "flow.start"
  | .branch => "flow.branch"
  | .fork => "flow.fork"
  | .mergeOne => "flow.merge_one"
  | .mergeAll => "flow.merge_all"
  | .stop => "flow.stop"
  | .wait => "time.wait"
  | .log => "debug.log"
  | .literal => "data.literal"
  | .variableValue => "data.variable"
  | .not => "data.not"

/-- The kind with a type name, if it is one of the built-in names. -/
def ofId? (name : String) : Option Builtin := all.find? (·.id == name)

def pins : Builtin → List PinType
  | .start => [.flowOut]
  | .branch => [.flowIn,.dataIn,.flowOut,.flowOut]
  | .fork => [.flowIn,.flowOut,.flowOut,.flowOut]
  | .mergeOne => [.flowIn,.flowIn,.flowOut]
  | .mergeAll => [.flowIn,.flowIn,.flowIn,.flowOut]
  | .stop => [.flowIn]
  | .wait => [.flowIn,.flowOut]
  | .log => [.flowIn,.dataIn,.flowOut]
  | .literal => [.dataOut]
  | .variableValue => [.dataOut]
  | .not => [.dataIn,.dataOut]

def classification : Builtin → Classification
  | .start => .entry
  | .branch | .fork | .mergeOne | .mergeAll => .flowControl
  | .stop => .terminator
  | .wait | .log => .action
  | .literal | .variableValue | .not => .expression

def metadata : Builtin → Metadata
  | .start => ⟨"Start","Entry point, fires when the instance is triggered","flow"⟩
  | .branch => ⟨"Branch","Continues on the true or false output depending on the condition pin","flow"⟩
  | .fork => ⟨"Fork","Splits execution into three concurrent flows","flow"⟩
  | .mergeOne => ⟨"Merge One","Proceeds when the first flow arrives","flow"⟩
  | .mergeAll => ⟨"Merge All","Proceeds when all connected flows arrive","flow"⟩
  | .stop => ⟨"Stop","Ends the flow","flow"⟩
  | .wait => ⟨"Wait","Holds the flow for config.seconds of tick time","time"⟩
  | .log => ⟨"Log","Logs the value on its data input","debug"⟩
  | .literal => ⟨"Literal","Constant value from config.value","data"⟩
  | .variableValue => ⟨"Variable","Host property named by config.name","data"⟩
  | .not => ⟨"Not","Boolean negation of its input","data"⟩

/-- How long a wait holds a token: `config.seconds` as a number, one second by default. -/
def waitSeconds (node : NodeSpec) : Binary64 :=
  ((node.configValue? "seconds").bind Value.asDouble?).getD (Binary64.ofInt 1)

/-- A wait spends the tick's time until its duration is used up, then fires and reports
only the time it still needed. -/
def waitUpdate (inv : Invocation) (state : ActivationState) : Outcome :=
  let duration := waitSeconds inv.node
  let remaining := (duration.sub state.elapsed).maxNum Binary64.zero
  if remaining.le inv.time then
    ⟨{ NodeResult.fire (PinSet.single 0) with timeConsumed := remaining },
      { state with elapsed := duration },[]⟩
  else
    ⟨{ state := .executing,timeConsumed := inv.time },
      { state with elapsed := state.elapsed.add inv.time },[]⟩

/-- A full merge records the arrival; a repeated arrival waits, and the node fires once every
wired input has arrived. -/
def mergeAllUpdate (inv : Invocation) (state : ActivationState) : Outcome :=
  match state.arrivals.insert inv.pin with
  | (false,_) => ⟨NodeResult.waiting,state,[]⟩
  | (true,arrivals) =>
    let state := { state with arrivals }
    if inv.connected.subset arrivals then ⟨NodeResult.fire (PinSet.single 0),state,[]⟩
    else ⟨NodeResult.waiting,state,[]⟩

/-- The text a log node reports: the value on data pin 1, after `config.prefix` when that is
a string. -/
def logMessage (node : NodeSpec) (value : Value) : String :=
  match (node.configValue? "prefix").bind Value.asString? with
  | some lead => lead ++ value.display
  | none => value.display

def update (b : Builtin) (inv : Invocation) (data : DataAccess) (state : ActivationState) : Outcome :=
  match b with
  | .start => ⟨NodeResult.fire (PinSet.single 0),state,[]⟩
  | .branch =>
    let condition := (data.readPin 1).asBoolOr false
    ⟨NodeResult.fire (PinSet.single (if condition then 0 else 1)),state,[]⟩
  | .fork => ⟨NodeResult.fire (PinSet.ofList [0,1,2]),state,[]⟩
  | .mergeOne => ⟨{ state := .latched,outputs := PinSet.single 0 },state,[]⟩
  | .mergeAll => mergeAllUpdate inv state
  | .stop | .literal | .variableValue | .not => ⟨NodeResult.done,state,[]⟩
  | .wait => waitUpdate inv state
  | .log =>
    ⟨NodeResult.fire (PinSet.single 0),state,[.info (logMessage inv.node (data.readPin 1))]⟩

/-- The value on a data output: a literal's configured value, a variable's current value, the
negation of a truth value; null for the flow kinds. -/
def getData (b : Builtin) (node : NodeSpec) (data : DataAccess) : Value :=
  match b with
  | .literal => (node.configValue? "value").getD .null
  | .variableValue =>
    (((node.configValue? "name").bind Value.asString?).bind data.hostVariable).getD .null
  | .not => .bool (!(data.readPin 0).asBoolOr false)
  | _ => .null

/-- Checks a configuration: a wait's `seconds` is a finite number at least zero, a literal has
a `value`, and a variable's `name` is a string. -/
def validate (b : Builtin) (config : List (String × Value)) : Except ConfigError Unit :=
  match b with
  | .wait =>
    match lookupMember "seconds" config with
    | none => .ok ()
    | some v =>
      match v.asDouble? with
      | some x =>
        if x.isFinite ∧ Binary64.zero.le x then .ok ()
        else .error (.configuration ("seconds must be a non-negative number, got " ++ Value.doubleText x))
      | none => .error (.invalidConfigType "seconds" "number" v.typeName)
  | .literal =>
    match lookupMember "value" config with
    | some _ => .ok ()
    | none => .error (.missingConfig "value")
  | .variableValue =>
    match lookupMember "name" config with
    | some (.string _) => .ok ()
    | some other => .error (.invalidConfigType "name" "string" other.typeName)
    | none => .error (.missingConfig "name")
  | _ => .ok ()

end Builtin

end Tickflow
