import Tickflow.CommandLine.Grammar
import Tickflow.CommandLine.Similarity
/-! # Reading the command line

Arguments are read left to right: the first word naming a subcommand hands it the rest, and
within a command long options, clusters of short letters and `--` are told from values and
positionals. Reading stops at the first problem, with a message for standard error and exit
code 2, or at a help switch, with the help page and exit code 0.
-/
namespace Tickflow

/-- A value as read. -/
inductive ArgValue where
  | text (s : String)
  | count (n : UInt64)
  | double (x : Binary64)
  | switch
  deriving Inhabited

/-- What a command line asks for. -/
inductive Command where
  /-- Run a graph file for at most `ticks` ticks of `dt` seconds, with host variables given
  as `name=json`. -/
  | run (file : String) (ticks : UInt64) (dt : Binary64) (vars : List String) (trace verbose : Bool)
  /-- Check a graph file. -/
  | validate (file : String)
  /-- List the node types. -/
  | nodes
  /-- Write the example graph. -/
  | init (output : String)
  deriving Inhabited

/-- Reading stopped: the text to show, whether it goes to standard output, and the exit
code. -/
structure Stop where
  text : String
  toStdout : Bool
  code : UInt32
  deriving Inhabited

def Stop.help (page : String) : Stop := ⟨page,true,0⟩

/-- A complaint: the problem, tips, and the usage line if one is quoted; `pointer` adds the
closing line that points at `--help`, which only a command with that switch has. -/
def Stop.complaintWith (pointer : Bool) (message : String) (tips : List String) (usage : Option String) :
    Stop :=
  let tipText := if tips.isEmpty then "" else "\n" ++ String.join (tips.map ("\n  tip: " ++ ·))
  let usageText := match usage with
    | some u => "\n\nUsage: " ++ u
    | none => ""
  let pointerText := if pointer then "\n\nFor more information, try '--help'.\n" else "\n"
  ⟨"error: " ++ message ++ tipText ++ usageText ++ pointerText,false,2⟩

def Stop.complaint (message : String) (tips : List String) (usage : Option String) : Stop :=
  Stop.complaintWith true message tips usage

def quoted (s : String) : String := "'" ++ s ++ "'"

def similarCommandsTip (names : List String) : String :=
  match names with
  | [n] => "a similar subcommand exists: " ++ quoted n
  | _ => "some similar subcommands exist: " ++ ", ".intercalate (names.map quoted)

def asValueTip (arg : String) : String :=
  "to pass " ++ quoted arg ++ " as a value, use " ++ quoted ("-- " ++ arg)

/-- Where reading a command has got to. -/
structure ArgState where
  /-- The arguments taken so far, in the order they first appeared, with their values. -/
  matched : List (String × List ArgValue) := []
  /-- An argument whose values are gathered but not yet checked. -/
  pending : Option (ArgSpec × List String) := none
  /-- An option still waiting for its value. -/
  expecting : Option ArgSpec := none
  /-- Whether any argument has been taken, even one dropped since. -/
  started : Bool := false
  /-- Whether `--` has been seen. -/
  trailing : Bool := false
  /-- The index of the next positional. -/
  position : Nat := 0
  deriving Inhabited

namespace ArgState

def has (st : ArgState) (id : String) : Bool := st.matched.any (·.1 == id)

def used (st : ArgState) : List String := st.matched.map (·.1)

/-- Notes an argument as taken, keeping its place if it was taken before. -/
def note (st : ArgState) (id : String) (vs : List ArgValue) : ArgState :=
  if st.has id then
    { st with matched := st.matched.map (fun (k,old) => if k == id then (k,old ++ vs) else (k,old)),
              started := true }
  else { st with matched := st.matched ++ [(id,vs)],started := true }

/-- The arguments as they stand when reading breaks off at an unknown argument. The pending
argument counts once it has a value, even one its check would refuse; without a value it
counts for nothing; and a second occurrence of an argument allowed once drops the first. -/
def abandon (st : ArgState) : ArgState :=
  match st.pending with
  | none => st
  | some (_,[]) => { st with pending := none }
  | some (a,_) =>
    if a.action == .set && st.has a.id then
      { st with pending := none,matched := st.matched.filter (·.1 != a.id) }
    else { st.note a.id [] with pending := none }

end ArgState

def readArgValue (a : ArgSpec) (raw : String) : Except Stop ArgValue :=
  let invalid (reason : String) : Stop :=
    Stop.complaint ("invalid value " ++ quoted raw ++ " for " ++ quoted a.display ++ ": " ++ reason) [] none
  match a.kind with
  | .path =>
    if raw.isEmpty then
      .error (Stop.complaint ("a value is required for " ++ quoted a.display ++ " but none was supplied") [] none)
    else .ok (.text raw)
  | .count =>
    match parseCount raw with
    | .ok n => .ok (.count n)
    | .error e => .error (invalid e.message)
  | .double =>
    match parseDouble raw with
    | .ok x => .ok (.double x)
    | .error e => .error (invalid e.message)
  | .text => .ok (.text raw)

/-- Takes an argument with its values, whose earlier pending values are settled. -/
def takeArg (c : CommandSpec) (st : ArgState) (a : ArgSpec) (values : List String) :
    Except Stop ArgState := do
  if a.takesValue && values.isEmpty then
    throw (Stop.complaint ("a value is required for " ++ quoted a.display ++ " but none was supplied") [] none)
  let duplicate := Stop.complaint ("the argument " ++ quoted a.display ++ " cannot be used multiple times")
    [] (some c.usage)
  match a.action with
  | .help => throw (Stop.help c.helpPage)
  | .flag => if st.has a.id then throw duplicate else return st.note a.id [.switch]
  | .set =>
    if st.has a.id then throw duplicate
    let vs ← values.mapM (readArgValue a)
    return st.note a.id vs
  | .append =>
    let vs ← values.mapM (readArgValue a)
    return st.note a.id vs

def settle (c : CommandSpec) (st : ArgState) : Except Stop ArgState :=
  match st.pending with
  | some (a,vs) => takeArg c { st with pending := none } a vs
  | none => .ok st

def react (c : CommandSpec) (st : ArgState) (a : ArgSpec) (values : List String) :
    Except Stop ArgState := do
  let st ← settle c st
  takeArg c st a values

/-- The complaint about an unknown `--name`: a similar long name of this command is
suggested; failing that, a program suggests a similar option of a subcommand named later on
the line, the nearest first. -/
def unknownLong (c : CommandSpec) (st : ArgState) (name : String) (later : List String) : Stop :=
  let own := bestSimilar? name c.longNames
  let inSub : Option (String × String) :=
    if own.isSome then none
    else
      let found := allSubcommands.filterMap fun (sub,spec) =>
        if c.subcommands.isEmpty then none
        else
          match bestSimilar? name spec.longNames, later.idxOf? sub with
          | some l,some place => some (place,sub,l)
          | _,_ => none
      (found.foldl (fun best x => match best with
        | some b => if x.1 < b.1 then some x else some b
        | none => some x) none).map fun (_,sub,l) => (sub,l)
  let used := st.abandon.used ++
    (match own with
     | some l => ((c.named.find? (·.long == some l)).map (·.id)).toList
     | none => [])
  let ownTip := own.map fun l => "a similar argument exists: " ++ quoted ("--" ++ l)
  let asValue := if own.isNone && inSub.isNone && !st.trailing && !c.positionals.isEmpty
    then [asValueTip ("--" ++ name)] else []
  let subTip := inSub.map fun (sub,l) => quoted (sub ++ " --" ++ l) ++ " exists"
  Stop.complaint ("unexpected argument " ++ quoted ("--" ++ name) ++ " found")
    (ownTip.toList ++ asValue ++ subTip.toList) (some (c.usageFor used))

/-- The complaint about a word that fits nowhere: a similar subcommand name is suggested; a
program with subcommands calls it an unknown subcommand. -/
def strayWord (c : CommandSpec) (word : String) : Stop :=
  let names := c.subcommands.map (·.1)
  match similarNames word names with
  | [] =>
    if names.isEmpty then
      Stop.complaint ("unexpected argument " ++ quoted word ++ " found") [] (some c.usage)
    else Stop.complaint ("unrecognized subcommand " ++ quoted word) [] (some c.usage)
  | similar => Stop.complaint ("unrecognized subcommand " ++ quoted word) [similarCommandsTip similar] (some c.usage)

/-- The arguments taken that are not required, in order: what a usage line adds to the
required ones when a switch is given a value. The pending argument does not count. -/
def optionalUsed (c : CommandSpec) (st : ArgState) : List String :=
  st.used.filter fun id => !((c.arg? id).map (·.required)).getD false

def splitAssignment (s : String) : String × Option String :=
  match s.splitOn "=" with
  | [name] => (name,none)
  | name :: rest => (name,some ("=".intercalate rest))
  | [] => ("",none)

/-- Reads a cluster of short letters. The letters are switches until one takes a value:
the rest of the cluster, less a leading `=`, is its value, or the next argument is. -/
def shortCluster (c : CommandSpec) : ArgState → List Char → Except Stop ArgState
  | st,[] => .ok st
  | st,ch :: rest =>
    match c.named.find? (·.short == some ch) with
    | none =>
      let tips := if !st.trailing && !c.positionals.isEmpty then [asValueTip ("-" ++ ch.toString)] else []
      .error (Stop.complaint ("unexpected argument " ++ quoted ("-" ++ ch.toString) ++ " found") tips
        (some c.usage))
    | some a =>
      if a.takesValue then
        match rest with
        | [] => do
          let st ← settle c st
          return { st with pending := some (a,[]),expecting := some a }
        | '=' :: value => react c st a [String.ofList value]
        | value => react c st a [String.ofList value]
      else do
        let st ← react c st a []
        shortCluster c st rest

/-- Takes a positional value, or complains about a word with no place. -/
def positionalWord (c : CommandSpec) (st : ArgState) (word : String) : Except Stop ArgState :=
  match c.positionals[st.position]? with
  | some a => do
    let st ← settle c st
    return { st with pending := some (a,[word]),position := st.position + 1 }
  | none => .error (strayWord c word)

def readArgs (c : CommandSpec) : ArgState → List String → Except Stop ArgState
  | st,[] => settle c st
  | st,arg :: rest =>
    if st.trailing then do
      let st ← positionalWord c st arg
      readArgs c st rest
    else if arg == "--" then readArgs c { st with trailing := true } rest
    else if arg.startsWith "--" then
      let (name,attached) := splitAssignment (arg.drop 2).toString
      match c.named.find? (·.long == some name) with
      | none => .error (unknownLong c st name rest)
      | some a =>
        if a.takesValue then
          match attached with
          | some v => do
            let st ← react c st a [v]
            readArgs c { st with expecting := none } rest
          | none => do
            let st ← settle c st
            readArgs c { st with pending := some (a,[]),expecting := some a } rest
        else
          match attached with
          | some v =>
            .error (Stop.complaint ("unexpected value " ++ quoted v ++ " for " ++ quoted a.display ++
              " found; no more were expected") []
              (some (c.usageWith (optionalUsed c st ++ [a.id]) st.started)))
          | none => do
            let st ← react c st a []
            readArgs c { st with expecting := none } rest
    else if arg.startsWith "-" && arg.length > 1 then do
      let st ← shortCluster c { st with expecting := none } (arg.drop 1).toString.toList
      readArgs c st rest
    else
      match st.expecting, st.pending with
      | some a,some (p,vs) =>
        if p.id == a.id then readArgs c { st with pending := some (p,vs ++ [arg]),expecting := none } rest
        else do
          let st ← positionalWord c st arg
          readArgs c st rest
      | _,_ => do
        let st ← positionalWord c st arg
        readArgs c st rest

/-- Fills in defaults and checks that the required arguments were given. -/
def finishArgs (c : CommandSpec) (st : ArgState) : Except Stop ArgState := do
  let missing := c.args.filter fun a => a.required && !st.has a.id
  if !missing.isEmpty then
    throw (Stop.complaint ("the following required arguments were not provided:" ++
      String.join (missing.map fun a => "\n  " ++ a.display)) []
      (some (c.usageWith (st.used ++ missing.map (·.id)) false)))
  c.args.foldlM (fun st a =>
    match a.defaultValue with
    | some d => if st.has a.id then pure st else do
        let v ← readArgValue a d
        pure (st.note a.id [v])
    | none => pure st) st

def textOf (st : ArgState) (id : String) : String :=
  match st.matched.find? (·.1 == id) with
  | some (_,.text s :: _) => s
  | _ => ""

def textsOf (st : ArgState) (id : String) : List String :=
  match st.matched.find? (·.1 == id) with
  | some (_,vs) => vs.filterMap fun | .text s => some s | _ => none
  | none => []

def countOf (st : ArgState) (id : String) : UInt64 :=
  match st.matched.find? (·.1 == id) with
  | some (_,.count n :: _) => n
  | _ => 0

def doubleOf (st : ArgState) (id : String) : Binary64 :=
  match st.matched.find? (·.1 == id) with
  | some (_,.double x :: _) => x
  | _ => Binary64.zero

def commandOf (name : String) (st : ArgState) : Command :=
  match name with
  | "run" => .run (textOf st "file") (countOf st "ticks") (doubleOf st "dt") (textsOf st "vars")
      (st.has "trace") (st.has "verbose")
  | "validate" => .validate (textOf st "file")
  | "init" => .init (textOf st "output")
  | _ => .nodes

/-- `help` followed by subcommand names shows the help page of the last one named. -/
def helpFor (spec : CommandSpec) : List String → Stop
  | [] => Stop.help spec.helpPage
  | name :: rest =>
    match (if spec.subcommands.isEmpty then none else allSubcommands.lookup name) with
    | some sub => helpFor sub rest
    | none => Stop.complaintWith spec.hasHelpSwitch ("unrecognized subcommand " ++ quoted name) []
        (some spec.usage)

def readProgram (trailing : Bool) : List String → Except Stop Command
  | [] => .error ⟨programSpec.helpPage,false,2⟩
  | arg :: rest =>
    if !trailing && arg == "help" then .error (helpFor programSpec rest)
    else if !trailing && (workCommands.lookup arg).isSome then
      match workCommands.lookup arg with
      | some spec => do
        let st ← readArgs spec {} rest
        let st ← finishArgs spec st
        return commandOf arg st
      | none => .error (strayWord programSpec arg)
    else if trailing then
      if (allSubcommands.lookup arg).isSome then
        .error (Stop.complaint ("unexpected argument " ++ quoted arg ++ " found")
          ["subcommand " ++ quoted arg ++ " exists; to use it, remove the " ++ quoted "--" ++ " before it"]
          (some programSpec.usage))
      else .error (strayWord programSpec arg)
    else if arg == "--" then readProgram true rest
    else if arg.startsWith "--" then
      let (name,attached) := splitAssignment (arg.drop 2).toString
      if name == "help" then
        match attached with
        | none => .error (Stop.help programSpec.helpPage)
        | some v => .error (Stop.complaint ("unexpected value " ++ quoted v ++ " for " ++
            quoted helpSwitch.display ++ " found; no more were expected") []
            (some (programSpec.usageWith ["help"] false)))
      else .error (unknownLong programSpec {} name rest)
    else if arg.startsWith "-" && arg.length > 1 then
      match (arg.drop 1).toString.toList with
      | 'h' :: _ => .error (Stop.help programSpec.helpPage)
      | ch :: _ => .error (Stop.complaint ("unexpected argument " ++ quoted ("-" ++ ch.toString) ++ " found") []
          (some programSpec.usage))
      | [] => .error (strayWord programSpec arg)
    else .error (strayWord programSpec arg)

def parseCommandLine (args : List String) : Except Stop Command := readProgram false args

end Tickflow
