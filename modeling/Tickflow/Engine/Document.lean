import Tickflow.Engine.Event
import Tickflow.Value.Document
/-! # Engine records as documents

The document forms of what the engine reports: pin sets as ascending index arrays,
activation states, events tagged by `type`, trace entries and joins. Activation numbers,
ticks and sequence numbers are plain integers and identifiers are in grouped form.
-/
namespace Tickflow

def PinSet.toJson (s : PinSet) : Json := .array (s.toList.map Json.nat)

def Json.word (n : UInt64) : Json := .nat n.toNat

def Uuid.toJson (u : Uuid) : Json := .string u.toText

/-- A pin set from an array of bytes; members past the limit and repeats are dropped. -/
def PinSet.ofJson? (j : Json) : Schema PinSet := PinSet.ofList <$> Json.readArray (Json.readUnsigned 8) j

namespace ActivationState

def toJson (s : ActivationState) : Json :=
  .object [("arrivals",s.arrivals.toJson),("elapsed",.float s.elapsed),
    ("data",.object (s.data.map fun (k,v) => (k,v.toTyped)))]

def ofJson? (j : Json) : Schema ActivationState := do
  match ← j.fields ["arrivals","elapsed","data"] with
  | [arrivals,elapsed,data] =>
    let arrivals ← Json.need "arrivals" arrivals PinSet.ofJson?
    let elapsed ← Json.need "elapsed" elapsed Value.readDouble
    let data ← Json.need "data" data fun d => do
      let ms ← d.expectObject "a map"
      orderMembers <$> ms.mapM fun (k,v) => (k,·) <$> Value.ofTyped? v
    return { arrivals,elapsed,data }
  | _ => .error (.invalidType "an activation state")

end ActivationState

def NodeEvent.toJson : NodeEvent → Json
  | .info m => .object [("event_type",.string "Info"),("message",.string m)]
  | .warning m => .object [("event_type",.string "Warning"),("message",.string m)]

def EngineEvent.toJson : EngineEvent → Json
  | .instanceStarted g => .object [("type",.string "InstanceStarted"),("graph_id",g.toJson)]
  | .nodeCompleted n t a s o tick =>
    .object [("type",.string "NodeCompleted"),("node_id",n.toJson),("node_type",.string t),
      ("activation",Json.word a),("state",.string s.name),("outputs",o.toJson),("tick",Json.word tick)]
  | .joinStalled n a arrived expected =>
    .object [("type",.string "JoinStalled"),("node_id",n.toJson),("activation",Json.word a),
      ("arrived",arrived.toJson),("expected",expected.toJson)]
  | .joinTimedOut n a w =>
    .object [("type",.string "JoinTimedOut"),("node_id",n.toJson),("activation",Json.word a),
      ("waited_ticks",Json.word w)]
  | .instanceFinished t => .object [("type",.string "InstanceFinished"),("ticks",Json.word t)]
  | .instanceAborted d => .object [("type",.string "InstanceAborted"),("discarded_tokens",.nat d)]
  | .nodeEvent n e => .object [("type",.string "NodeEvent"),("node_id",n.toJson),("event",e.toJson)]

def TraceEntry.toJson (e : TraceEntry) : Json :=
  .object [("tick",Json.word e.tick),("seq",Json.word e.seq),("node",e.node.toJson),("pin",.nat e.pin),
    ("activation",Json.word e.activation),("outcome",.string e.outcome.name),
    ("outputs",e.outputs.toJson),("arrivals",e.arrivals.toJson)]

def StalledJoin.toJson (s : StalledJoin) : Json :=
  .object [("node",s.node.toJson),("activation",Json.word s.activation),("arrived",s.arrived.toJson),
    ("expected",s.expected.toJson),("tick",Json.word s.tick)]

def WaitingJoin.toJson (w : WaitingJoin) : Json :=
  .object [("node",w.node.toJson),("activation",Json.word w.activation),("arrived",w.arrived.toJson),
    ("expected",w.expected.toJson),("waiting_ticks",Json.word w.waitingTicks)]

end Tickflow
