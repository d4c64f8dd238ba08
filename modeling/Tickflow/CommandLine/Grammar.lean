import Tickflow.CommandLine.Literal
/-! # The command-line grammar

Each command of the `script` program declares its options, switches and positionals, and from
these come the help pages and the usage lines that error messages quote.
-/
namespace Tickflow

/-- What an argument does when it appears. -/
inductive ArgAction where
  /-- Takes one value, and may appear once. -/
  | set
  /-- Takes one value each time it appears. -/
  | append
  /-- A switch that may appear once. -/
  | flag
  /-- Shows the command's help page. -/
  | help
  deriving DecidableEq, Repr, Inhabited

/-- How a value is checked. -/
inductive ValueKind where
  /-- A path: any text but the empty one. -/
  | path
  /-- An unsigned 64-bit count. -/
  | count
  /-- A double. -/
  | double
  /-- Any text. -/
  | text
  deriving DecidableEq, Repr, Inhabited

/-- One argument of a command. An argument with neither a long name nor a short letter is a
positional. -/
structure ArgSpec where
  id : String
  long : Option String := none
  short : Option Char := none
  valueName : Option String := none
  help : String
  action : ArgAction := .set
  kind : ValueKind := .text
  required : Bool := false
  defaultValue : Option String := none
  deriving Repr, Inhabited

namespace ArgSpec

/-- Whether the argument is given by place rather than by name. -/
def isPositional (a : ArgSpec) : Bool := a.long.isNone && a.short.isNone

def takesValue (a : ArgSpec) : Bool := a.action == .set || a.action == .append

/-- The value placeholder: `<NAME>`, or `[NAME]...` for an optional repeated positional. -/
def placeholder (a : ArgSpec) : String :=
  let name := a.valueName.getD a.id.toUpper
  if a.isPositional && !a.required then "[" ++ name ++ "]..." else "<" ++ name ++ ">"

/-- The argument as messages name it: `--file <FILE>`, `--trace` or `<FILE>`. -/
def display (a : ArgSpec) : String :=
  if a.isPositional then a.placeholder
  else
    let name := match a.long, a.short with
      | some l,_ => "--" ++ l
      | none,some s => "-" ++ s.toString
      | none,none => ""
    if a.takesValue then name ++ " " ++ a.placeholder else name

def helpText (a : ArgSpec) : String :=
  match a.defaultValue with
  | some d => a.help ++ " [default: " ++ d ++ "]"
  | none => a.help

end ArgSpec

/-- A command: its name as typed after the program's, what it does, its arguments, and the
subcommands it lists with their descriptions. -/
structure CommandSpec where
  path : String
  about : String
  args : List ArgSpec
  subcommands : List (String × String) := []
  deriving Repr, Inhabited

def helpSwitch : ArgSpec :=
  { id := "help",long := some "help",short := some 'h',help := "Print help",action := .help }

def runSpec : CommandSpec where
  path := "script run"
  about := "Run a graph file until it finishes or the tick budget is spent"
  args := [
    { id := "file",long := some "file",short := some 'f',valueName := some "FILE",
      help := "Path to graph JSON file",kind := .path,required := true },
    { id := "ticks",long := some "ticks",short := some 't',valueName := some "TICKS",
      help := "Maximum number of ticks",kind := .count,defaultValue := some "1000" },
    { id := "dt",long := some "dt",valueName := some "DT",help := "Seconds per tick",
      kind := .double,defaultValue := some "0.016666666666666666" },
    { id := "vars",long := some "var",valueName := some "NAME=JSON",
      help := "Host variable as name=json, may repeat",action := .append },
    { id := "trace",long := some "trace",help := "Print the delivery trace after the run",
      action := .flag },
    { id := "verbose",long := some "verbose",short := some 'v',help := "Show verbose output",
      action := .flag },
    helpSwitch]

def validateSpec : CommandSpec where
  path := "script validate"
  about := "Validate a graph file"
  args := [
    { id := "file",valueName := some "FILE",help := "Path to graph JSON file",kind := .path,
      required := true },
    helpSwitch]

def nodesSpec : CommandSpec where
  path := "script nodes"
  about := "List available node types"
  args := [helpSwitch]

def initSpec : CommandSpec where
  path := "script init"
  about := "Create an example graph"
  args := [
    { id := "output",long := some "output",short := some 'o',valueName := some "OUTPUT",
      help := "Output file path",kind := .path,defaultValue := some "graph.json" },
    helpSwitch]

def helpAbout : String := "Print this message or the help of the given subcommand(s)"

def helpSpec : CommandSpec where
  path := "script help"
  about := helpAbout
  args := [
    { id := "subcommand",valueName := some "COMMAND",help := "Print help for the subcommand(s)",
      action := .append }]

/-- The commands that do work, in the order they are listed. -/
def workCommands : List (String × CommandSpec) :=
  [("run",runSpec),("validate",validateSpec),("nodes",nodesSpec),("init",initSpec)]

def allSubcommands : List (String × CommandSpec) := workCommands ++ [("help",helpSpec)]

def programSpec : CommandSpec where
  path := "script"
  about := "Visual script engine CLI"
  args := [helpSwitch]
  subcommands := allSubcommands.map fun (name,spec) => (name,spec.about)

namespace CommandSpec

def arg? (c : CommandSpec) (id : String) : Option ArgSpec := c.args.find? (·.id == id)

def named (c : CommandSpec) : List ArgSpec := c.args.filter fun a => !a.isPositional

def positionals (c : CommandSpec) : List ArgSpec := c.args.filter (·.isPositional)

def hasHelpSwitch (c : CommandSpec) : Bool := c.args.any (·.action == .help)

def longNames (c : CommandSpec) : List String := c.named.filterMap (·.long)

/-- Whether the usage line shows `[OPTIONS]`: some named argument besides the help switch
is optional. -/
def hasOptionalOptions (c : CommandSpec) : Bool :=
  c.named.any fun a => a.action != .help && !a.required

def positionalUsage (c : CommandSpec) : List String := c.positionals.map (·.placeholder)

def commandUsage (c : CommandSpec) : List String := if c.subcommands.isEmpty then [] else ["<COMMAND>"]

def usage (c : CommandSpec) : String :=
  let parts := (if c.hasOptionalOptions then ["[OPTIONS]"] else []) ++
    ((c.named.filter (·.required)).map (·.display)) ++ c.positionalUsage ++ c.commandUsage
  " ".intercalate (c.path :: parts)

/-- The arguments that belong to the command's own set: all but the help switch. -/
def members (c : CommandSpec) : List ArgSpec := c.args.filter (·.action != .help)

/-- The command's argument set as a usage line shows it: its members between angle brackets,
split by bars, a positional by its bare value name. -/
def memberUsage (c : CommandSpec) : String :=
  "<" ++ "|".intercalate (c.members.map fun a =>
    if a.isPositional then a.valueName.getD a.id.toUpper else a.display) ++ ">"

/-- The usage line about the arguments `used`, given by identifier: the required options and
those arguments, each once, then the positionals. With `whole`, the command's argument set
stands in one piece after the options in place of its members. -/
def usageWith (c : CommandSpec) (used : List String) (whole : Bool) : String :=
  let grouped := whole && !c.members.isEmpty
  let inSet (a : ArgSpec) : Bool := grouped && a.action != .help
  let ids := (c.named.filter (·.required)).map (·.id) ++ used
  let shown := ids.foldl (fun acc id =>
    match c.arg? id with
    | some a => if a.isPositional || inSet a then acc else
        let d := a.display
        if acc.contains d then acc else acc ++ [d]
    | none => acc) []
  let setPart := if grouped then [c.memberUsage] else []
  let positionals := if grouped then [] else c.positionalUsage
  " ".intercalate (c.path :: (shown ++ setPart ++ positionals ++ c.commandUsage))

/-- A usage line as messages quote it: the help page's when no argument counts, else the one
about the arguments. -/
def usageFor (c : CommandSpec) (used : List String) : String :=
  if used.isEmpty then c.usage else c.usageWith used false

def spaces (n : Nat) : String := String.ofList (List.replicate n ' ')

/-- Lines of a two-column table: each label padded to the longest plus two. -/
def table (rows : List (String × String)) : List String :=
  let width := rows.foldl (fun w (l,_) => max w l.length) 2
  rows.map fun (l,r) => "  " ++ l ++ spaces (width + 2 - l.length) ++ r

/-- The lines of the options section: short letter or indent, then the long form. -/
def optionLines (args : List ArgSpec) : List String :=
  let width := args.foldl (fun w a => max w a.display.length) 2
  args.map fun a =>
    let lead := match a.short with
      | some s => "-" ++ s.toString ++ ", "
      | none => "    "
    "  " ++ lead ++ a.display ++ spaces (width + 2 - a.display.length) ++ a.helpText

def helpPage (c : CommandSpec) : String :=
  let sections :=
    (if c.subcommands.isEmpty then [] else ["Commands:\n" ++ "\n".intercalate (table c.subcommands)]) ++
    (if c.positionals.isEmpty then []
      else ["Arguments:\n" ++ "\n".intercalate (table (c.positionals.map fun a => (a.display,a.helpText)))]) ++
    (if c.named.isEmpty then [] else ["Options:\n" ++ "\n".intercalate (optionLines c.named)])
  c.about ++ "\n\nUsage: " ++ c.usage ++ "\n\n" ++ "\n\n".intercalate sections ++ "\n"

end CommandSpec

end Tickflow
