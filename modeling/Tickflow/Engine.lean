import Tickflow.Engine.Instance
import Tickflow.Compiled.Build
/-! # The engine

An engine holds a registry, the compiled graphs loaded into it and an event bus that keeps the
most recent events up to its capacity. Node types count their invocations across every
instance of the engine.
-/
namespace Tickflow

/-- An engine's settings. -/
structure EngineConfig where
  eventBufferSize : Nat := 1000
  recordTrace : Bool := false
  deriving DecidableEq, Repr, Inhabited

/-- The least power of two at or above `n`, and one for zero. -/
def nextPowerOfTwo (n : Nat) : Nat := go n 1
where
  go : Nat → Nat → Nat
    | 0,p => p
    | fuel + 1,p => if p ≥ n then p else go fuel (2 * p)

/-- The events one reader has not read yet, at most `capacity` of them. -/
structure EventBus where
  capacity : Nat
  unread : List EngineEvent := []

namespace EventBus

/-- A bus holding `size` events, rounded up to a power of two. -/
def create (size : Nat) : EventBus := ⟨nextPowerOfTwo (max size 1),[]⟩

/-- Publishes events; past the capacity the oldest unread ones are lost. -/
def publish (b : EventBus) (es : List EngineEvent) : EventBus :=
  let all := b.unread ++ es
  { b with unread := all.drop (all.length - b.capacity) }

def drain (b : EventBus) : List EngineEvent × EventBus := (b.unread,{ b with unread := [] })

end EventBus

/-- An engine. -/
structure Engine where
  registry : Registry
  config : EngineConfig
  graphs : List (Uuid × CompiledGraph) := []
  bus : EventBus
  invocations : List (String × Nat) := []

namespace Engine

def create (registry : Registry) (config : EngineConfig) : Engine :=
  { registry,config,bus := EventBus.create config.eventBufferSize }

def compile (r : Engine) (g : Graph) : Except ScriptError CompiledGraph :=
  (CompiledGraph.compile r.registry g).mapError .definition

/-- Compiles and loads a graph, replacing a loaded graph with its identifier. -/
def load (r : Engine) (g : Graph) : Except ScriptError (Uuid × Engine) := do
  let c ← r.compile g
  return (g.id,{ r with graphs := (r.graphs.filter (·.1 != g.id)) ++ [(g.id,c)] })

def graph? (r : Engine) (id : Uuid) : Option CompiledGraph := (r.graphs.find? (·.1 == id)).map (·.2)

def unload (r : Engine) (id : Uuid) : Option CompiledGraph × Engine :=
  (r.graph? id,{ r with graphs := r.graphs.filter (·.1 != id) })

def instantiate (r : Engine) (id : Uuid) : Except ScriptError Instance :=
  match r.graph? id with
  | some c => .ok (Instance.create c r.config.recordTrace r.invocations)
  | none => .error (.graphNotFound id.toText)

def instantiateGraph (r : Engine) (g : Graph) : Except ScriptError Instance := do
  let c ← r.compile g
  return Instance.create c r.config.recordTrace r.invocations

/-- Takes back what an instance did: the events it published since `seen` events, and its
node types' invocation counts. -/
def absorb (r : Engine) (i : Instance) (seen : Nat := 0) : Engine :=
  { r with bus := r.bus.publish (i.events.toList.drop seen),invocations := i.invocations }

end Engine

end Tickflow
