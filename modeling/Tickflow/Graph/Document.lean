import Tickflow.Graph.Basic
import Tickflow.Value.Document
import Tickflow.Json.Reader
import Tickflow.Json.Writer
/-! # Graph documents

A graph definition is a JSON document of nodes, connections and settings. Members with a
default may be left out, unknown members are skipped, and a record may also be an array of its
members in order.
-/
namespace Tickflow

/-- Why a text is not a graph document: it is no JSON, or the JSON has the wrong shape. -/
inductive GraphReadError where
  | malformed (e : ReadError)
  | schema (e : SchemaError)
  deriving DecidableEq, Repr

def GraphReadError.message : GraphReadError → String
  | .malformed e => e.message
  | .schema e => e.message

namespace Graph

def readUuid (j : Json) : Schema Uuid :=
  match j with
  | .string s =>
    match Uuid.parse? s with
    | some u => .ok u
    | none => .error (.invalidValue "an identifier")
  | _ => .error (.invalidType "an identifier")

/-- A coordinate, a single-precision number. An integer is rounded to it, a number written
as a decimal is rounded to it once from the decimal, and one the text gave only as a double
is rounded from that double. A decimal past the single range is refused. -/
def readCoordinate (j : Json) : Schema Binary32 :=
  match j with
  | .int n => .ok (Binary32.ofInt n)
  | .decimal d _ =>
    match Binary32.ofDecimal? d.negative d.digits d.exponent with
    | some x => .ok x
    | none => .error (.invalidValue "a number in the single-precision range")
  | .float x => .ok x.toBinary32
  | .single x => .ok x
  | _ => .error (.invalidType "a number")

def readPosition (j : Json) : Schema Position := do
  match ← j.fields ["x","y"] with
  | [x,y] => return ⟨← Json.need "x" x readCoordinate,← Json.need "y" y readCoordinate⟩
  | _ => .error (.invalidType "a position")

def readConfig (j : Json) : Schema (List (String × Value)) :=
  match j with
  | .object ms => orderMembers <$> ms.mapM fun (k,v) => (k,·) <$> Value.ofTyped? v
  | _ => .error (.invalidType "a map")

def readNode (j : Json) : Schema NodeSpec := do
  match ← j.fields ["id","node_type","name","config","position"] with
  | [id,nodeType,name,config,position] =>
    return {
      id := ← Json.need "id" id readUuid
      nodeType := ← Json.need "node_type" nodeType Json.readString
      name := ← Json.orNone name Json.readString
      config := ← Json.orDefault config [] readConfig
      position := ← Json.orNone position readPosition }
  | _ => .error (.invalidType "a node")

def readConnection (j : Json) : Schema Connection := do
  match ← j.fields ["from_node","from_pin","to_node","to_pin"] with
  | [fromNode,fromPin,toNode,toPin] =>
    return {
      fromNode := ← Json.need "from_node" fromNode readUuid
      fromPin := ← Json.need "from_pin" fromPin (Json.readUnsigned 8)
      toNode := ← Json.need "to_node" toNode readUuid
      toPin := ← Json.need "to_pin" toPin (Json.readUnsigned 8) }
  | _ => .error (.invalidType "a connection")

def readSettings (j : Json) : Schema GraphSettings := do
  match ← j.fields ["join_timeout_ticks","strict_outputs"] with
  | [timeout,strict] =>
    return {
      joinTimeoutTicks := ← Json.orNone timeout (Json.readUnsigned 64)
      strictOutputs := ← Json.orDefault strict false Json.readBool }
  | _ => .error (.invalidType "settings")

def ofJson? (j : Json) : Schema Graph := do
  match ← j.fields ["id","name","description","nodes","connections","settings"] with
  | [id,name,description,nodes,connections,settings] =>
    return {
      id := ← Json.need "id" id readUuid
      name := ← Json.need "name" name Json.readString
      description := ← Json.orNone description Json.readString
      nodes := ← Json.need "nodes" nodes (Json.readArray readNode)
      connections := ← Json.orDefault connections [] (Json.readArray readConnection)
      settings := ← Json.orDefault settings {} readSettings }
  | _ => .error (.invalidType "a graph")

/-- Reads a graph from the text of its document. Members the graph does not know are only
checked for their form, so a value there that no document could hold does no harm. -/
def parse? (text : String) : Except GraphReadError Graph :=
  match Json.parseLoose text with
  | .error e => .error (.malformed e)
  | .ok j =>
    match ofJson? j with
    | .error e => .error (.schema e)
    | .ok g => .ok g

/-- The document of a node; absent optional members are written `null`. -/
def nodeJson (n : NodeSpec) : Json :=
  .object [("id",.string n.id.toText),("node_type",.string n.nodeType),
    ("name",Json.opt (n.name.map .string)),
    ("config",.object (n.config.map fun (k,v) => (k,v.toTyped))),
    ("position",Json.opt (n.position.map fun p => .object [("x",.single p.x),("y",.single p.y)]))]

def connectionJson (c : Connection) : Json :=
  .object [("from_node",.string c.fromNode.toText),("from_pin",.nat c.fromPin),
    ("to_node",.string c.toNode.toText),("to_pin",.nat c.toPin)]

def settingsJson (s : GraphSettings) : Json :=
  .object [("join_timeout_ticks",Json.opt (s.joinTimeoutTicks.map .nat)),
    ("strict_outputs",.bool s.strictOutputs)]

def toJson (g : Graph) : Json :=
  .object [("id",.string g.id.toText),("name",.string g.name),
    ("description",Json.opt (g.description.map .string)),
    ("nodes",.array (g.nodes.map nodeJson)),
    ("connections",.array (g.connections.map connectionJson)),
    ("settings",settingsJson g.settings)]

def render (g : Graph) : String := g.toJson.render

end Graph

end Tickflow
