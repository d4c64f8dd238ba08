import Tickflow.Node.Builtin
import Tickflow.Node.Scripted
import Tickflow.Pin.Laws
/-! # Node types

A node type is one of the built-in kinds or a type the host registers. A host type is given by
its methods; one that declares only its name and pins is an action that answers null to data
reads, accepts any configuration and lists itself with an empty name. The engine asks one thing
of a host type: that running it only adds to the arrivals of the state it is handed.
-/
namespace Tickflow

/-- A node type the host registers, with the contract the engine relies on. -/
structure HostType where
  id : String
  pins : List PinType
  classification : Classification := .action
  metadata : Metadata := {}
  /-- Runs the node; `global` counts the invocations of the type, this one included. -/
  update : Invocation → DataAccess → ActivationState → Nat → Outcome
  getData : NodeSpec → DataAccess → Nat → Value := fun _ _ _ => .null
  validate : List (String × Value) → Except ConfigError Unit := fun _ => .ok ()
  update_arrivals : ∀ inv data state global p, state.arrivals.contains p = true →
    (update inv data state global).state.arrivals.contains p = true

/-- A host type that declares only its name and pins: every invocation is done and fires
nothing. -/
def HostType.plain (id : String) (pins : List PinType) : HostType where
  id := id
  pins := pins
  update _ _ state _ := ⟨NodeResult.done,state,[]⟩
  update_arrivals _ _ _ _ _ h := h

/-- A scripted type as a host type: it adds at most the arrival pin to the arrivals. -/
def ScriptedType.toHost (t : ScriptedType) : HostType where
  id := t.id
  pins := t.pins
  classification := t.classification
  metadata := t.metadata
  update := t.update
  getData node _ pin := ScriptedType.getData node pin
  validate := t.validate
  update_arrivals inv data state global p h := by
    unfold ScriptedType.update
    dsimp only
    split
    · rw [PinSet.contains_add,h,Bool.true_or]
    · exact h

/-- A node type a registry can hold. -/
inductive NodeKind where
  | builtin (b : Builtin)
  | host (t : HostType)
  deriving Inhabited

namespace NodeKind

def scripted (t : ScriptedType) : NodeKind := .host t.toHost

def plain (id : String) (pins : List PinType) : NodeKind := .host (HostType.plain id pins)

def id : NodeKind → String
  | .builtin b => b.id
  | .host t => t.id

def pins : NodeKind → List PinType
  | .builtin b => b.pins
  | .host t => t.pins

def classification : NodeKind → Classification
  | .builtin b => b.classification
  | .host t => t.classification

def metadata : NodeKind → Metadata
  | .builtin b => b.metadata
  | .host t => t.metadata

/-- Runs the node; `global` counts the invocations of the type, this one included. -/
def update (k : NodeKind) (inv : Invocation) (data : DataAccess) (state : ActivationState)
    (global : Nat) : Outcome :=
  match k with
  | .builtin b => b.update inv data state
  | .host t => t.update inv data state global

def getData (k : NodeKind) (node : NodeSpec) (data : DataAccess) (pin : Nat) : Value :=
  match k with
  | .builtin b => b.getData node data
  | .host t => t.getData node data pin

def validate (k : NodeKind) (config : List (String × Value)) : Except ConfigError Unit :=
  match k with
  | .builtin b => b.validate config
  | .host t => t.validate config

def flowOutputs (k : NodeKind) : List Nat := Tickflow.flowOutputs k.pins

end NodeKind

/-- The node types a graph may use, by name, in ascending name order. -/
structure Registry where
  types : List (String × NodeKind) := []
  deriving Inhabited

namespace Registry

def register (r : Registry) (k : NodeKind) : Registry := ⟨insertMember k.id k r.types⟩

def resolve (r : Registry) (name : String) : Except DefinitionError NodeKind :=
  match lookupMember name r.types with
  | some k => .ok k
  | none => .error (.unknownNodeType name)

def standard : Registry := Builtin.all.foldl (fun r b => r.register (.builtin b)) {}

def names (r : Registry) : List String := r.types.map (·.1)

def size (r : Registry) : Nat := r.types.length

end Registry

end Tickflow
