import Tickflow.Uuid
/-! # What the program needs from its host

The commands read and write text files, draw fresh identifiers and write output: lines on
standard output, diagnostic log records (also on standard output) and lines on standard
error. They ask for these through `Host`, so that the same commands run against the real
machine and against a model of it. File operations fail as the operating system reports it.
-/
namespace Tickflow

/-- Why a file operation failed. -/
inductive IoError where
  /-- A component of the path does not exist. -/
  | notFound
  /-- A component before the last is a file. -/
  | notADirectory
  /-- The path names a directory where a file is needed. -/
  | isADirectory
  /-- Any other failure, with the system's code and text. -/
  | other (code : Nat) (text : String)
  deriving DecidableEq, Repr

def IoError.message : IoError → String
  | .notFound => "No such file or directory (os error 2)"
  | .notADirectory => "Not a directory (os error 20)"
  | .isADirectory => "Is a directory (os error 21)"
  | .other code text => text ++ " (os error " ++ toString code ++ ")"

/-- How much a log record matters. -/
inductive LogLevel where
  | debug
  | info
  | warn
  deriving DecidableEq, Repr

def LogLevel.name : LogLevel → String
  | .debug => "DEBUG"
  | .info => "INFO"
  | .warn => "WARN"

/-- One piece of output. -/
inductive Output where
  /-- A line on standard output. -/
  | line (text : String)
  /-- A diagnostic log record, written to standard output. -/
  | log (level : LogLevel) (message : String)
  /-- A line on standard error. -/
  | errorLine (text : String)
  deriving DecidableEq, Repr

/-- The services a command uses. -/
class Host (m : Type → Type) where
  /-- The text of a file. -/
  readText : String → m (Except IoError String)
  /-- Creates or replaces a file. -/
  writeText : String → String → m (Except IoError Unit)
  /-- An identifier not drawn before. -/
  freshUuid : m Uuid
  /-- Writes output. -/
  emit : Output → m Unit

end Tickflow
