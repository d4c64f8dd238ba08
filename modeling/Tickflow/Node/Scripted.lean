import Tickflow.Node.Basic
import Tickflow.Value.Display
import Tickflow.Error
/-! # Scripted node types

A scripted type answers from a fixed script, its `n`-th invocation playing the `n`-th step and
the last repeating, and reports what it saw as node events.
-/
namespace Tickflow

/-- Which count picks the script step. -/
inductive ScriptCounting where
  /-- Calls in the activation, from the activation's `calls` data. -/
  | activation
  /-- Invocations of every node of the type. -/
  | global
  deriving DecidableEq, Repr, Inhabited

/-- One answer of a script. -/
structure ScriptStep where
  state : ExecState
  outputs : PinSet := PinSet.empty
  time : Binary64 := Binary64.zero
  deriving Inhabited

/-- A node type whose behaviour is a script. -/
structure ScriptedType where
  id : String
  pins : List PinType
  classification : Classification := .action
  script : List ScriptStep := []
  counting : ScriptCounting := .activation
  recordArrival : Bool := false
  emit : Bool := true
  require : Option String := none
  reject : Option String := none
  warn : Bool := false
  readVariable : Option String := none
  readPins : List Nat := []
  deriving Inhabited

namespace ScriptedType

/-- Scripted types list themselves under their id in the `custom` category. -/
def metadata (t : ScriptedType) : Metadata := ⟨t.id,"scripted test node","custom"⟩

/-- The calls recorded in an activation's data: its `calls` integer, zero otherwise. -/
def recordedCalls (state : ActivationState) : Int64 :=
  match lookupMember "calls" state.data with
  | some (.int n) => n
  | _ => 0

/-- The members of a pin list joined by commas, in brackets. -/
def pinListText (pins : List Nat) : String := "[" ++ ",".intercalate (pins.map toString) ++ "]"

/-- The step for count `n` (counting from one): step `n - 1`, the last one past the end, and
the last one too when `n - 1` is negative. -/
def stepFor (script : List ScriptStep) (n : Int) : Option ScriptStep :=
  let index := n - 1
  if index < 0 then script.getLast? else (script[index.toNat]?).orElse fun _ => script.getLast?

def report (t : ScriptedType) (inv : Invocation) (data : DataAccess) (calls : Int64)
    (global : Nat) (arrivals : PinSet) : String :=
  let base := "pin=" ++ toString inv.pin ++ " act=" ++ toString inv.activation.toNat ++
    " calls=" ++ Value.intText calls ++ " global=" ++ toString global ++
    " arrivals=" ++ pinListText arrivals.toList ++ " connected=" ++ pinListText inv.connected.toList
  let withVariable := match t.readVariable with
    | some name =>
      base ++ " var=" ++ ((data.hostVariable name).map Value.display).getD "none"
    | none => base
  t.readPins.foldl (fun acc p => acc ++ " pin" ++ toString p ++ "=" ++ (data.readPin p).display)
    withVariable

/-- Runs a scripted type; `global` is the number of invocations of the type, this one
included. -/
def update (t : ScriptedType) (inv : Invocation) (data : DataAccess) (state : ActivationState)
    (global : Nat) : Outcome :=
  let arrivals := if t.recordArrival then state.arrivals.add inv.pin else state.arrivals
  let calls := recordedCalls state + 1
  let state := { state with arrivals,data := insertMember "calls" (.int calls) state.data }
  let events :=
    if t.emit then
      let text := t.report inv data calls global arrivals
      [if t.warn then NodeEvent.warning text else NodeEvent.info text]
    else []
  let count : Int := match t.counting with
    | .activation => calls.toInt
    | .global => global
  let result := match stepFor t.script count with
    | none => NodeResult.done
    | some step =>
      { state := step.state,outputs := step.outputs,
        timeConsumed := if step.state = .executing then step.time else Binary64.zero }
  ⟨result,state,events⟩

/-- The value on a data output: `config.value` when configured, else the pin index. -/
def getData (node : NodeSpec) (pin : Nat) : Value :=
  (node.configValue? "value").getD (.int (Int64.ofNat pin))

/-- Checks a configuration: the required key must be present, and a type set to reject
refuses every configuration. -/
def validate (t : ScriptedType) (config : List (String × Value)) : Except ConfigError Unit :=
  match t.require with
  | some key =>
    if (lookupMember key config).isSome then
      match t.reject with
      | some reason => .error (.configuration reason)
      | none => .ok ()
    else .error (.missingConfig key)
  | none =>
    match t.reject with
    | some reason => .error (.configuration reason)
    | none => .ok ()

end ScriptedType

end Tickflow
