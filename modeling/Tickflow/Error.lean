import Tickflow.Uuid
import Tickflow.Pin.Basic
/-! # Errors

Three families. A `ConfigError` is a node's complaint about its configuration. A
`DefinitionError` is a graph that cannot be compiled. A `ScriptError` is anything the engine
reports to its host, a definition or configuration error included. Each has one `message`
function, the text a user reads.
-/
namespace Tickflow

/-- A node's complaint about its configuration. -/
inductive ConfigError where
  | missingConfig (key : String)
  | invalidConfigType (field expected actual : String)
  | configuration (reason : String)
  deriving DecidableEq, Repr

namespace ConfigError

def message : ConfigError → String
  | .missingConfig key => "Missing config: " ++ key
  | .invalidConfigType field expected actual =>
    "Invalid config type for '" ++ field ++ "': expected " ++ expected ++ ", got " ++ actual
  | .configuration reason => "Configuration error: " ++ reason

def variantName : ConfigError → String
  | .missingConfig _ => "MissingConfig"
  | .invalidConfigType .. => "InvalidConfigType"
  | .configuration _ => "Configuration"

end ConfigError

/-- Why a graph definition does not compile. -/
inductive DefinitionError where
  | duplicateNode (node : Uuid)
  | nodeNotFound (node : Uuid)
  | unknownNodeType (nodeType : String)
  | tooManyPins (nodeType : String) (count max : Nat)
  | pinOutOfRange (node : Uuid) (pin : Nat)
  | pinMismatch (node : Uuid) (pin : Nat) (expected actual : PinType)
  | kindMismatch (node : Uuid) (fromKind toKind : PinKind)
  | unwiredOutput (node : Uuid) (pin : Nat)
  | dataInputAlreadyWired (node : Uuid) (pin : Nat)
  | cyclicDataDependency (node : Uuid)
  | invalidConfig (node : Uuid) (source : ConfigError)
  /-- The definition has more nodes than 32-bit indices number. The program stops there with
  a panic, petgraph's `NodeIxLimit`, rather than an error of its own. -/
  | nodeIndexLimit
  deriving DecidableEq, Repr

namespace DefinitionError

def message : DefinitionError → String
  | .duplicateNode n => "Duplicate node id: " ++ n.toText
  | .nodeNotFound n => "Node not found: " ++ n.toText
  | .unknownNodeType t => "Unknown node type: " ++ t
  | .tooManyPins t count max =>
    "Node type '" ++ t ++ "' declares " ++ toString count ++ " pins, the limit is " ++ toString max
  | .pinOutOfRange n pin => "Node " ++ n.toText ++ " has no pin " ++ toString pin
  | .pinMismatch n pin expected actual =>
    "Pin " ++ toString pin ++ " on node " ++ n.toText ++ " is " ++ actual.kind.name ++ "/"
      ++ actual.direction.name ++ ", expected " ++ expected.kind.name ++ "/" ++ expected.direction.name
  | .kindMismatch n fromKind toKind =>
    "Connection kinds differ: " ++ fromKind.name ++ " output wired into " ++ toKind.name
      ++ " input on node " ++ n.toText
  | .unwiredOutput n pin => "Flow output " ++ toString pin ++ " on node " ++ n.toText ++ " is not wired"
  | .dataInputAlreadyWired n pin =>
    "Data input " ++ toString pin ++ " on node " ++ n.toText ++ " is wired more than once"
  | .cyclicDataDependency n => "Cyclic data dependency through node " ++ n.toText
  | .invalidConfig n source => "Invalid configuration on node " ++ n.toText ++ ": " ++ source.message
  | .nodeIndexLimit => "Node index limit reached"

/-- The name of the variant, as error kinds are reported; a configuration error adds its own. -/
def variantName : DefinitionError → String
  | .duplicateNode _ => "DuplicateNode"
  | .nodeNotFound _ => "NodeNotFound"
  | .unknownNodeType _ => "UnknownNodeType"
  | .tooManyPins .. => "TooManyPins"
  | .pinOutOfRange .. => "PinOutOfRange"
  | .pinMismatch .. => "PinMismatch"
  | .kindMismatch .. => "KindMismatch"
  | .unwiredOutput .. => "UnwiredOutput"
  | .dataInputAlreadyWired .. => "DataInputAlreadyWired"
  | .cyclicDataDependency _ => "CyclicDataDependency"
  | .invalidConfig _ source => "InvalidConfig." ++ source.variantName
  | .nodeIndexLimit => "NodeIndexLimit"

end DefinitionError

/-- An error the engine reports to its host. -/
inductive ScriptError where
  | definition (e : DefinitionError)
  | node (e : ConfigError)
  | graphNotFound (id : String)
  | unknownNode (node : Uuid)
  | notAnEntry (node : Uuid)
  | instanceAborted
  deriving DecidableEq, Repr

namespace ScriptError

def message : ScriptError → String
  | .definition e => "Definition error: " ++ e.message
  | .node e => "Node error: " ++ e.message
  | .graphNotFound id => "Graph not found: " ++ id
  | .unknownNode n => "Node " ++ n.toText ++ " is not part of this graph"
  | .notAnEntry n => "Node " ++ n.toText ++ " is not an entry node"
  | .instanceAborted => "Instance was aborted"

/-- The kind of an engine error, as reported: `Definition.<variant>`, `Node.<variant>`, or the
variant's own name. -/
def kind : ScriptError → String
  | .definition e => "Definition." ++ e.variantName
  | .node e => "Node." ++ e.variantName
  | .graphNotFound _ => "GraphNotFound"
  | .unknownNode _ => "UnknownNode"
  | .notAnEntry _ => "NotAnEntry"
  | .instanceAborted => "InstanceAborted"

end ScriptError

end Tickflow
