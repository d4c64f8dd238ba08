/-! # Pins

A node has at most `maxPins` pins, numbered from zero. Each pin carries either flow (the
token that says "run now") or data (a value pulled on demand), and is either an input or an
output. The flow outputs of a node, in pin order, are its *output ordinals*: a node fires
ordinal `o` to send tokens out of its `o`-th flow output.
-/
namespace Tickflow

def maxPins : Nat := 16

/-- What travels over a pin. -/
inductive PinKind where
  | flow
  | data
  deriving DecidableEq, Repr, Inhabited

/-- Which way a pin faces. -/
inductive PinDirection where
  | input
  | output
  deriving DecidableEq, Repr, Inhabited

/-- The type of one pin. -/
structure PinType where
  kind : PinKind
  direction : PinDirection
  deriving DecidableEq, Repr, Inhabited

namespace PinKind

def name : PinKind → String
  | .flow => "Flow"
  | .data => "Data"

end PinKind

namespace PinDirection

def name : PinDirection → String
  | .input => "Input"
  | .output => "Output"

end PinDirection

namespace PinType

def flowIn : PinType := ⟨.flow,.input⟩
def flowOut : PinType := ⟨.flow,.output⟩
def dataIn : PinType := ⟨.data,.input⟩
def dataOut : PinType := ⟨.data,.output⟩

def isFlowOutput (p : PinType) : Bool := p == flowOut

def isFlowInput (p : PinType) : Bool := p == flowIn

def name (p : PinType) : String :=
  match p.kind,p.direction with
  | .flow,.input => "FlowIn"
  | .flow,.output => "FlowOut"
  | .data,.input => "DataIn"
  | .data,.output => "DataOut"

def ofName? : String → Option PinType
  | "FlowIn" => some flowIn
  | "FlowOut" => some flowOut
  | "DataIn" => some dataIn
  | "DataOut" => some dataOut
  | _ => none

end PinType

/-- The indices of the flow output pins in pin order: output ordinal `o` is pin
`(flowOutputs pins)[o]`. A pin index is a byte, so past 255 the indices start again at 0. -/
def flowOutputs (pins : List PinType) : List Nat :=
  ((List.range pins.length).zip pins).filterMap fun (i,p) => if p.isFlowOutput then some (i % 256) else none

end Tickflow
