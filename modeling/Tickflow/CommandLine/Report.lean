import Tickflow.Error
/-! # Failure reports

A command that fails reports on standard error: `Error: ` and the failure's text, then, when
the failure has causes, a blank line, `Caused by:` and the causes indented by four spaces. Two
or more causes are numbered, `    0: `, `    1: `; the lines after the first line of a cause
are indented to match.
-/
namespace Tickflow

/-- Where a failure arose. -/
inductive FailureOrigin where
  /-- The graph file could not be read or is no graph. -/
  | loading
  /-- A file could not be written. -/
  | file
  /-- A host variable is not written `name=value`. -/
  | variable
  /-- The graph has no entry node. -/
  | noEntry
  /-- The engine refused. -/
  | engine
  deriving DecidableEq, Repr

/-- A failure: where it arose, its text and the texts of its causes, outermost first. -/
structure Failure where
  origin : FailureOrigin
  message : String
  causes : List String := []
  deriving DecidableEq, Repr

/-- The causes behind an engine error: a definition error, and the configuration error
behind it; or a node's configuration error. -/
def ScriptError.causes : ScriptError → List String
  | .definition e =>
    match e with
    | .invalidConfig _ inner => [e.message,inner.message]
    | _ => [e.message]
  | .node e => [e.message]
  | _ => []

def Failure.ofScriptError (e : ScriptError) : Failure := ⟨.engine,e.message,e.causes⟩

def rightAligned (n : Nat) : String :=
  let s := toString n
  String.ofList (List.replicate (5 - s.length) ' ') ++ s

/-- A cause's lines: the first after its lead, the rest after as many spaces. -/
def indentCause (lead : String) (text : String) : List String :=
  match text.splitOn "\n" with
  | [] => [lead]
  | first :: rest =>
    (lead ++ first) :: rest.map fun l => String.ofList (List.replicate lead.length ' ') ++ l

def Failure.lines (f : Failure) : List String :=
  let head := ("Error: " ++ f.message).splitOn "\n"
  match f.causes with
  | [] => head
  | [c] => head ++ ["","Caused by:"] ++ indentCause "    " c
  | cs => head ++ ["","Caused by:"] ++
      (cs.zipIdx.flatMap fun (c,i) => indentCause (rightAligned i ++ ": ") c)

end Tickflow
