import Tickflow.Number.Binary
/-! # Numbers on the command line

An unsigned count is an optional `+` and decimal digits, the first fault deciding the complaint.
A double is an optional sign and a decimal or one of `inf`, `infinity`, `nan` in any case,
rounded to nearest.
-/
namespace Tickflow

/-- Why a count could not be read. -/
inductive CountError where
  | empty
  | invalidDigit
  | overflow
  deriving DecidableEq, Repr

def CountError.message : CountError → String
  | .empty => "cannot parse integer from empty string"
  | .invalidDigit => "invalid digit found in string"
  | .overflow => "number too large to fit in target type"

/-- Why a double could not be read. -/
inductive DoubleError where
  | empty
  | invalid
  deriving DecidableEq, Repr

def DoubleError.message : DoubleError → String
  | .empty => "cannot parse float from empty string"
  | .invalid => "invalid float literal"

def digitValue? (c : Char) : Option Nat :=
  if c.isDigit then some (c.toNat - '0'.toNat) else none

def readCountDigits (acc : Nat) : List Char → Except CountError UInt64
  | [] => .ok acc.toUInt64
  | c :: rest =>
    match digitValue? c with
    | none => .error .invalidDigit
    | some d =>
      let next := 10 * acc + d
      if next < Nat.pow 2 64 then readCountDigits next rest else .error .overflow

def parseCount (text : String) : Except CountError UInt64 :=
  match text.toList with
  | [] => .error .empty
  | ['+'] | ['-'] => .error .invalidDigit
  | '+' :: rest => readCountDigits 0 rest
  | cs => readCountDigits 0 cs

def spanDigits : List Char → List Char × List Char
  | c :: rest =>
    if c.isDigit then
      let (ds,r) := spanDigits rest
      (c :: ds,r)
    else ([],c :: rest)
  | [] => ([],[])

def decimalValue (ds : List Char) : Nat :=
  ds.foldl (fun n c => 10 * n + (c.toNat - '0'.toNat)) 0

/-- The exponent part after `e`: an optional sign and at least one digit, nothing after. -/
def readExponent (cs : List Char) : Option Int :=
  let (negative,cs) := match cs with
    | '-' :: r => (true,r)
    | '+' :: r => (false,r)
    | r => (false,r)
  match spanDigits cs with
  | ([],_) => none
  | (ds,[]) => some (if negative then -(decimalValue ds : Int) else decimalValue ds)
  | _ => none

/-- A decimal without its sign, as digits and a power of ten. -/
def readDecimal (cs : List Char) : Option (Nat × Int) :=
  let (whole,rest) := spanDigits cs
  let (fraction,rest) := match rest with
    | '.' :: r => spanDigits r
    | r => ([],r)
  if whole.isEmpty ∧ fraction.isEmpty then none
  else
    let shift : Int := -(fraction.length : Int)
    let mantissa := decimalValue (whole ++ fraction)
    match rest with
    | [] => some (mantissa,shift)
    | 'e' :: r | 'E' :: r => (readExponent r).map fun e => (mantissa,shift + e)
    | _ => none

def namedDouble? (negative : Bool) (cs : List Char) : Option Binary64 :=
  let word := String.ofList (cs.map Char.toLower)
  if word = "inf" ∨ word = "infinity" then some (Binary64.infinity negative)
  else if word = "nan" then some (if negative then Binary64.nan.neg else Binary64.nan)
  else none

def parseDouble (text : String) : Except DoubleError Binary64 :=
  match text.toList with
  | [] => .error .empty
  | c :: rest =>
    let (negative,cs) :=
      if c = '-' then (true,rest) else if c = '+' then (false,rest) else (false,c :: rest)
    if cs.isEmpty then .error .invalid
    else
      match readDecimal cs with
      | some (mantissa,exponent) =>
        .ok ((Binary64.ofDecimal? negative mantissa exponent).getD (Binary64.infinity negative))
      | none =>
        match namedDouble? negative cs with
        | some x => .ok x
        | none => .error .invalid

end Tickflow
