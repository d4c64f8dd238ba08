import Tickflow.CommandLine.Host
/-! # A model machine

`World` is a tree of directories and text files, a working directory, a supply of fresh
identifiers and the output written so far. Paths resolve as the operating system resolves them.
-/
namespace Tickflow

/-- An entry of the file tree. -/
inductive Entry where
  | directory
  | file (text : String)
  deriving DecidableEq, Repr

/-- A model machine. Paths are lists of components from the root, which always exists. -/
structure World where
  cwd : List String
  entries : List (List String × Entry)
  fresh : List Uuid
  output : Array Output := #[]

namespace World

def entry? (w : World) (path : List String) : Option Entry :=
  if path.isEmpty then some .directory else w.entries.lookup path

/-- Resolves the components of a path from `cur`: the resolved components, and whether a
trailing slash asks for a directory. -/
def walk (w : World) (cur : List String) : List String → Except IoError (List String × Bool)
  | [] => .ok (cur,false)
  | p :: rest =>
    if p == "" || p == "." then
      if rest.isEmpty then .ok (cur,p == "") else walk w cur rest
    else if p == ".." then walk w cur.dropLast rest
    else
      let next := cur ++ [p]
      if rest.all (· == "") then .ok (next,!rest.isEmpty)
      else
        match w.entry? next with
        | some .directory => walk w next rest
        | some (.file _) => .error .notADirectory
        | none => .error .notFound

def resolve (w : World) (path : String) : Except IoError (List String × Bool) :=
  if path.isEmpty then .error .notFound
  else
    let parts := path.splitOn "/"
    if path.startsWith "/" then w.walk [] parts else w.walk w.cwd parts

def read (w : World) (path : String) : Except IoError String := do
  let (at_,slash) ← w.resolve path
  match w.entry? at_ with
  | some (.file text) => if slash then throw .notADirectory else return text
  | some .directory => throw .isADirectory
  | none => throw .notFound

def write (w : World) (path : String) (text : String) : Except IoError World := do
  let (at_,slash) ← w.resolve path
  match w.entry? at_ with
  | some .directory => throw .isADirectory
  | some (.file _) =>
    if slash then throw .notADirectory
    return { w with entries := w.entries.map fun (p,e) => if p == at_ then (p,.file text) else (p,e) }
  | none =>
    if slash then throw .isADirectory
    return { w with entries := w.entries ++ [(at_,.file text)] }

def components (path : String) : List String := (path.splitOn "/").filter (· != "")

/-- A machine whose working directory `dir` (an absolute path) holds the given files; `dir`
and the directories above it exist. -/
def create (dir : String) (files : List (String × String)) (fresh : List Uuid) : World :=
  let cwd := components dir
  let above := (List.range cwd.length).map fun k => (cwd.take (k + 1),Entry.directory)
  { cwd,entries := above ++ files.map (fun (name,text) => (cwd ++ components name,.file text)),fresh }

/-- The text of a file named from the root, if it is a file. -/
def fileText? (w : World) (path : String) : Option String :=
  match w.entry? (components path) with
  | some (.file text) => some text
  | _ => none

end World

instance : Host (StateM World) where
  readText path := return (← get).read path
  writeText path text := modifyGet fun w =>
    match w.write path text with
    | .ok w' => (.ok (),w')
    | .error e => (.error e,w)
  freshUuid := modifyGet fun w =>
    match w.fresh with
    | u :: rest => (u,{ w with fresh := rest })
    | [] => (Uuid.nil,w)
  emit o := modify fun w => { w with output := w.output.push o }

end Tickflow
