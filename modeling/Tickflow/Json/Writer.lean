import Tickflow.Json.Basic
import Tickflow.Number.Decimal
/-! # Writing JSON text

Compact and pretty layouts of one document. Doubles are written with their shortest digits and
always with a `.` or an exponent, and a non-finite double as `null`.
-/
namespace Tickflow

namespace Json

/-- Layout of doubles in documents: shortest digits, `1.0` for integers, `1e21` and `1e-7`
past the positional range. -/
def doubleLayout : DecimalLayout := ⟨-5,16,true,false⟩

/-- Layout of single-precision numbers in documents: as for doubles, with the positional
range narrowed to thirteen digits and five zeros. -/
def singleLayout : DecimalLayout := ⟨-6,13,true,false⟩

def doubleText (x : Binary64) : String :=
  match x.shortest? .even with
  | some d => d.render doubleLayout
  | none => "null"

def singleText (x : Binary32) : String :=
  match x.shortest? .even with
  | some d => d.render singleLayout
  | none => "null"

def hexDigit (n : Nat) : Char :=
  if n < 10 then Char.ofNat ('0'.toNat + n) else Char.ofNat ('a'.toNat + n - 10)

def escapeChar (c : Char) : List Char :=
  if c == '"' then ['\\','"']
  else if c == '\\' then ['\\','\\']
  else if c == '\n' then ['\\','n']
  else if c == '\r' then ['\\','r']
  else if c == '\t' then ['\\','t']
  else if c == '\x08' then ['\\','b']
  else if c == '\x0c' then ['\\','f']
  else if c.toNat < 0x20 then ['\\','u','0','0',hexDigit (c.toNat / 16),hexDigit (c.toNat % 16)]
  else [c]

def quote (s : String) : String :=
  String.ofList ('"' :: (s.toList.flatMap escapeChar ++ ['"']))

def intText (n : Int) : String :=
  if n < 0 then "-" ++ toString n.natAbs else toString n.natAbs

mutual

def compact : Json → String
  | .null => "null"
  | .bool b => if b then "true" else "false"
  | .int n => intText n
  | .float x => doubleText x
  | .decimal _ x => doubleText x
  | .single x => singleText x
  | .string s => quote s
  | .array items => "[" ++ compactItems items ++ "]"
  | .object members => "\x7b" ++ compactMembers members ++ "\x7d"
  | .unreadable _ => "null"

def compactItems : List Json → String
  | [] => ""
  | [j] => compact j
  | j :: rest => compact j ++ "," ++ compactItems rest

def compactMembers : List (String × Json) → String
  | [] => ""
  | [(k,j)] => quote k ++ ":" ++ compact j
  | (k,j) :: rest => quote k ++ ":" ++ compact j ++ "," ++ compactMembers rest

end

mutual

/-- The pretty text of a document whose first line is already indented by `indent` levels. -/
def pretty (indent : Nat) : Json → String
  | .array [] => "[]"
  | .object [] => "\x7b\x7d"
  | .array items => "[\n" ++ prettyItems (indent + 1) items ++ "\n" ++ repeatChar ' ' (2 * indent) ++ "]"
  | .object members =>
    "\x7b\n" ++ prettyMembers (indent + 1) members ++ "\n" ++ repeatChar ' ' (2 * indent) ++ "\x7d"
  | j => compact j

def prettyItems (indent : Nat) : List Json → String
  | [] => ""
  | [j] => repeatChar ' ' (2 * indent) ++ pretty indent j
  | j :: rest => repeatChar ' ' (2 * indent) ++ pretty indent j ++ ",\n" ++ prettyItems indent rest

def prettyMembers (indent : Nat) : List (String × Json) → String
  | [] => ""
  | [(k,j)] => repeatChar ' ' (2 * indent) ++ quote k ++ ": " ++ pretty indent j
  | (k,j) :: rest =>
    repeatChar ' ' (2 * indent) ++ quote k ++ ": " ++ pretty indent j ++ ",\n" ++ prettyMembers indent rest

end

def render (j : Json) : String := pretty 0 j

end Json

end Tickflow
