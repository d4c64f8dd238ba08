import Tickflow.Graph.Basic
import Tickflow.Pin.Set
/-! # Node invocations

A node is invoked with the arrival pin, the activation, its wired flow inputs and the tick's
time, and works on the activation's state. It answers with an execution state, the ordinals it
fires, the time it used and its events: `done`, `latched`, `executing` or `waiting`.
-/
namespace Tickflow

/-- How an invocation ends. -/
inductive ExecState where
  | done
  | latched
  | executing
  | waiting
  deriving DecidableEq, Repr, Inhabited

namespace ExecState

def name : ExecState → String
  | .done => "Done"
  | .latched => "Latched"
  | .executing => "Executing"
  | .waiting => "Waiting"

def ofName? : String → Option ExecState
  | "Done" => some .done
  | "Latched" => some .latched
  | "Executing" => some .executing
  | "Waiting" => some .waiting
  | _ => none

end ExecState

/-- The role of a node type in a graph. -/
inductive Classification where
  | entry
  | action
  | flowControl
  | terminator
  | expression
  deriving DecidableEq, Repr, Inhabited

namespace Classification

def name : Classification → String
  | .entry => "Entry"
  | .action => "Action"
  | .flowControl => "FlowControl"
  | .terminator => "Terminator"
  | .expression => "Expression"

def ofName? : String → Option Classification
  | "Entry" => some .entry
  | "Action" => some .action
  | "FlowControl" => some .flowControl
  | "Terminator" => some .terminator
  | "Expression" => some .expression
  | _ => none

end Classification

/-- How a node type presents itself in listings. -/
structure Metadata where
  name : String := ""
  description : String := ""
  category : String := "general"
  deriving DecidableEq, Repr, Inhabited

/-- The state a node keeps for one activation: the inputs that have arrived, the time spent,
and free-form data in key order. -/
structure ActivationState where
  arrivals : PinSet := PinSet.empty
  elapsed : Binary64 := Binary64.zero
  data : List (String × Value) := []
  deriving Inhabited

def ActivationState.empty : ActivationState := {}

/-- What an invocation answers: its state, the time it used, and the output ordinals it
fires. -/
structure NodeResult where
  state : ExecState
  timeConsumed : Binary64 := Binary64.zero
  outputs : PinSet := PinSet.empty
  deriving Inhabited

namespace NodeResult

def fire (outputs : PinSet) : NodeResult := { state := .done,outputs }

def done : NodeResult := fire PinSet.empty

def waiting : NodeResult := { state := .waiting }

def firesOutputs (r : NodeResult) : Bool :=
  match r.state with
  | .done | .latched => true
  | _ => false

end NodeResult

/-- A message a node emits while it runs. -/
inductive NodeEvent where
  | info (message : String)
  | warning (message : String)
  deriving DecidableEq, Repr

/-- What a node is told when it is invoked. -/
structure Invocation where
  node : NodeSpec
  pin : Nat
  activation : UInt64
  connected : PinSet
  time : Binary64

/-- How a node reads the values on its own data inputs and the host's variables. -/
structure DataAccess where
  readPin : Nat → Value
  hostVariable : String → Option Value

/-- What one invocation leaves behind. -/
structure Outcome where
  result : NodeResult
  state : ActivationState
  events : List NodeEvent := []

end Tickflow
