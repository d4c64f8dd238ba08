import Tickflow.Number.Decimal
/-! # JSON documents

A document keeps what its text says about numbers: an integer literal in the 64-bit range stays
exact, and any other number keeps its decimal beside the nearest double. Objects keep their
members in text order, and `get?` reads the last of a name.
-/
namespace Tickflow

/-- Why a text is not a JSON document, or why a value written in it cannot be held. -/
inductive ReadError where
  | unexpectedEnd
  | unexpectedChar (c : Char)
  | badNumber
  | numberOutOfRange
  | badEscape
  | loneSurrogate
  | controlCharacter
  | trailingCharacters
  | tooDeep
  deriving DecidableEq, Repr, Inhabited

/-- What is wrong with a text that is no JSON document. -/
def ReadError.message : ReadError → String
  | .unexpectedEnd => "EOF while parsing a value"
  | .unexpectedChar _ => "expected value"
  | .badNumber => "invalid number"
  | .numberOutOfRange => "number out of range"
  | .badEscape => "invalid escape"
  | .loneSurrogate => "lone leading surrogate in hex escape"
  | .controlCharacter => "control character found while parsing a string"
  | .trailingCharacters => "trailing characters"
  | .tooDeep => "recursion limit exceeded"

/-- A JSON document. -/
inductive Json where
  | null
  | bool (b : Bool)
  | int (n : Int)
  | float (x : Binary64)
  /-- A number read from text with a fraction or an exponent, or an integer too long for 64
  bits: the decimal as written and the double nearest to it. A reader after a
  single-precision number rounds the decimal itself, once. -/
  | decimal (written : Decimal) (nearest : Binary64)
  /-- A single-precision number; written with its own shortest digits, never read. -/
  | single (x : Binary32)
  | string (s : String)
  | array (items : List Json)
  | object (members : List (String × Json))
  /-- A value the text writes correctly but whose content cannot be held: a string with an
  unpaired surrogate, a number beyond the double range, or nesting past the limit. Only a
  loose reading makes one; whoever reads it as a value refuses it, and a skipped member may
  be one. -/
  | unreadable (reason : ReadError)
  deriving Inhabited

namespace Json

/-- The value of the last member named `key`, if the document is an object that has one. -/
def get? (j : Json) (key : String) : Option Json :=
  match j with
  | .object members => (members.reverse.find? (·.1 == key)).map (·.2)
  | _ => none

def field? (j : Json) (key : String) : Option Json :=
  match j.get? key with
  | some .null => none
  | other => other

def members? : Json → Option (List (String × Json))
  | .object ms => some ms
  | _ => none

def items? : Json → Option (List Json)
  | .array xs => some xs
  | _ => none

def str? : Json → Option String
  | .string s => some s
  | _ => none

def bool? : Json → Option Bool
  | .bool b => some b
  | _ => none

def int? : Json → Option Int
  | .int n => some n
  | _ => none

def natBelow? (j : Json) (bound : Nat) : Option Nat :=
  match j with
  | .int n => if 0 ≤ n ∧ n.toNat < bound then some n.toNat else none
  | _ => none

/-- Any number as a double: integers are rounded to the nearest double. -/
def number? : Json → Option Binary64
  | .int n => some (Binary64.ofInt n)
  | .float x => some x
  | .decimal _ x => some x
  | _ => none

mutual

def readable : Json → Bool
  | .unreadable _ => false
  | .array items => readableItems items
  | .object members => readableMembers members
  | _ => true

def readableItems : List Json → Bool
  | [] => true
  | j :: rest => readable j && readableItems rest

def readableMembers : List (String × Json) → Bool
  | [] => true
  | (_,j) :: rest => readable j && readableMembers rest

end

def obj (members : List (String × Json)) : Json := .object members

def nat (n : Nat) : Json := .int n

def opt : Option Json → Json
  | some j => j
  | none => .null

end Json

end Tickflow
