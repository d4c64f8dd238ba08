import Tickflow.CommandLine.Commands
/-! # The `script` program

The command line on a real machine: files through the file system, fresh
identifiers from the random generator in the version-4 layout, lines to the standard streams,
and log records to standard output after their level.
-/
namespace Tickflow

/-- The system's code for a failed operation, when it reports one. -/
def systemCode? : IO.Error → Option UInt32
  | .alreadyExists _ c _ | .otherError c _ | .resourceBusy c _ | .resourceVanished c _
  | .unsupportedOperation c _ | .hardwareFault c _ | .unsatisfiedConstraints c _
  | .illegalOperation c _ | .protocolError c _ | .timeExpired c _ | .interrupted _ c _
  | .noFileOrDirectory _ c _ | .invalidArgument _ c _ | .permissionDenied _ c _
  | .resourceExhausted _ c _ | .inappropriateType _ c _ | .noSuchThing _ c _ => some c
  | _ => none

def classifyFailure (e : IO.Error) : IoError :=
  match systemCode? e with
  | some 2 => .notFound
  | some 20 => .notADirectory
  | some 21 => .isADirectory
  | some c => .other c.toNat (toString e)
  | none => .other 0 (toString e)

def randomUuid : IO Uuid := do
  let n ← IO.rand 0 (Nat.pow 2 128 - 1)
  let versioned := n - (n / Nat.pow 2 76 % 16) * Nat.pow 2 76 + 4 * Nat.pow 2 76
  return ⟨versioned - (versioned / Nat.pow 2 62 % 4) * Nat.pow 2 62 + 2 * Nat.pow 2 62⟩

instance : Host IO where
  readText path := do
    try return .ok (← IO.FS.readFile path)
    catch e => return .error (classifyFailure e)
  writeText path text := do
    try
      IO.FS.writeFile path text
      return .ok ()
    catch e => return .error (classifyFailure e)
  freshUuid := randomUuid
  emit
    | .line t => IO.println t
    | .log level m => IO.println (level.name ++ " " ++ m)
    | .errorLine t => IO.eprintln t

end Tickflow

def main (args : List String) : IO UInt32 := do
  IO.setRandSeed ((← IO.monoNanosNow) % Nat.pow 2 62)
  let ending ← Tickflow.runProgram args
  return ending.code
