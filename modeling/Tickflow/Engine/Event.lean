import Tickflow.Node.Basic
import Tickflow.Uuid
/-! # What an instance reports

An instance's tokens, its status, the events it publishes, the entries of its delivery
trace, and the joins it reports as stalled or still waiting.
-/
namespace Tickflow

/-- A flow token: sequence number, the node and input pin it is headed for, and its
activation. -/
structure Token where
  seq : UInt64
  node : Nat
  pin : Nat
  activation : UInt64
  deriving DecidableEq, Repr, Inhabited

/-- The life of an instance. -/
inductive InstanceStatus where
  | idle
  | running
  | finished
  | aborted
  deriving DecidableEq, Repr, Inhabited

def InstanceStatus.name : InstanceStatus → String
  | .idle => "Idle"
  | .running => "Running"
  | .finished => "Finished"
  | .aborted => "Aborted"

/-- An event an instance publishes. -/
inductive EngineEvent where
  | instanceStarted (graph : Uuid)
  | nodeCompleted (node : Uuid) (nodeType : String) (activation : UInt64) (state : ExecState)
      (outputs : PinSet) (tick : UInt64)
  | joinStalled (node : Uuid) (activation : UInt64) (arrived expected : PinSet)
  | joinTimedOut (node : Uuid) (activation : UInt64) (waitedTicks : UInt64)
  | instanceFinished (ticks : UInt64)
  | instanceAborted (discardedTokens : Nat)
  | nodeEvent (node : Uuid) (event : NodeEvent)

/-- How a delivery ended: the node ran to an execution state, or a latched slot absorbed the
token. -/
inductive TraceOutcome where
  | ran (state : ExecState)
  | absorbed
  deriving DecidableEq, Repr

def TraceOutcome.name : TraceOutcome → String
  | .ran s => s.name
  | .absorbed => "Absorbed"

/-- One delivery: the tick, the token, how it ended, the ordinals fired, and the node's
arrivals right after the call. -/
structure TraceEntry where
  tick : UInt64
  seq : UInt64
  node : Uuid
  pin : Nat
  activation : UInt64
  outcome : TraceOutcome
  outputs : PinSet
  arrivals : PinSet

/-- A join whose activation drained while it still waited. -/
structure StalledJoin where
  node : Uuid
  activation : UInt64
  arrived : PinSet
  expected : PinSet
  tick : UInt64

/-- A join that still waits, and for how many ticks. -/
structure WaitingJoin where
  node : Uuid
  activation : UInt64
  arrived : PinSet
  expected : PinSet
  waitingTicks : UInt64

/-- What one tick did. -/
structure TickSummary where
  tick : UInt64
  delivered : Nat := 0
  spawned : Nat := 0
  liveTokens : Nat := 0
  finished : Bool := false

end Tickflow
