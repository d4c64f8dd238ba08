import Tickflow.Number.Binary
/-! # Shortest decimal digits and their layouts

A finite binary number is written with the fewest significant decimal digits that read back to
it, found grid by grid in exact arithmetic on `Nat`. A `DecimalLayout` decides where positional
notation ends.
-/
namespace Tickflow

/-- A decimal number `±digits * 10^exponent`. -/
structure Decimal where
  negative : Bool
  digits : Nat
  exponent : Int
  deriving DecidableEq, Inhabited

def compareScaled (c : Nat) (k : Int) (x : Nat) (s : Int) : Ordering :=
  let lhs := c * Nat.pow 10 k.toNat * Nat.pow 2 (-s).toNat
  let rhs := x * Nat.pow 10 (-k).toNat * Nat.pow 2 s.toNat
  compare lhs rhs

/-- The floor of the decimal logarithm of `num / den`, both positive. -/
def floorLog10Ratio (num den : Nat) : Int :=
  let b : Int := ((Nat.toDigits 10 num).length : Int) - ((Nat.toDigits 10 den).length : Int)
  let (l,r) := if 0 ≤ b then (num,den * Nat.pow 10 b.toNat) else (num * Nat.pow 10 (-b).toNat,den)
  if r ≤ l then b else b - 1

def Decimal.normalize (d : Decimal) : Decimal :=
  go d.digits d.exponent (Nat.toDigits 10 d.digits).length
where
  go (digits : Nat) (exponent : Int) : Nat → Decimal
    | 0 => ⟨d.negative,digits,exponent⟩
    | fuel + 1 =>
      if digits ≠ 0 ∧ digits % 10 = 0 then go (digits / 10) (exponent + 1) fuel
      else ⟨d.negative,digits,exponent⟩

/-- Which of two shortest decimals, equally near the value, is written. -/
inductive Tie where
  /-- The one whose last digit is even. -/
  | even
  /-- The one farther from zero. -/
  | up
  deriving DecidableEq, Repr, Inhabited

/-- The shortest digits of the positive value `m * 2^q` in format `f`, as digits and the
exponent of their last place; `tie` settles between two equally near. -/
def shortestDigits (f : BinaryFormat) (tie : Tie) (m : Nat) (q : Int) : Nat × Int :=
  -- the rounding interval, in units of 2^(q-2)
  let lower := if m = Nat.pow 2 f.fractionBits ∧ q > f.minQuantum then 4 * m - 1 else 4 * m - 2
  let upper := 4 * m + 2
  let s := q - 2
  let inclusive := m % 2 = 0
  let inside (c : Nat) (k : Int) : Bool :=
    match compareScaled c k lower s, compareScaled c k upper s with
    | .lt,_ => false
    | _,.gt => false
    | .eq,_ => inclusive
    | _,.eq => inclusive
    | _,_ => true
  let (vn,vd) := scaleByTwo m q
  let e := floorLog10Ratio vn vd
  let rec search : Nat → Nat → Nat × Int
    | 0,_ => (m,q)
    | fuel + 1,n =>
      let k := e - (n : Int) + 1
      let low := vn * Nat.pow 10 (-k).toNat / (vd * Nat.pow 10 k.toNat)
      let high := low + 1
      match inside low k,inside high k with
      | true,true =>
        match compareScaled (2 * low + 1) k (2 * m) q with
        | .gt => (low,k)
        | .lt => (high,k)
        | .eq => if tie = .even ∧ low % 2 = 0 then (low,k) else (high,k)
      | true,false => (low,k)
      | false,true => (high,k)
      | false,false => search fuel (n + 1)
  search 17 1

/-- The shortest decimal that reads back to a finite binary value; `none` for an infinity or
NaN. -/
def BinaryValue.shortest? (f : BinaryFormat) (tie : Tie) : BinaryValue → Option Decimal
  | .finite negative 0 _ => some ⟨negative,0,0⟩
  | .finite negative m q =>
    let (d,k) := shortestDigits f tie m q
    some (Decimal.normalize ⟨negative,d,k⟩)
  | _ => none

/-- How a decimal is laid out as text. With the decimal point after `p` digits (`p` may be
zero or negative for leading zeros), positional notation is used when
`positionalFrom < p ≤ positionalTo`; otherwise scientific notation `d.ddde±x`. -/
structure DecimalLayout where
  positionalFrom : Int
  positionalTo : Int
  /-- Integers keep a `.0`. -/
  pointZero : Bool
  /-- Positive exponents carry a `+`. -/
  exponentPlus : Bool

def repeatChar (c : Char) (n : Nat) : String := String.ofList (List.replicate n c)

def Decimal.render (layout : DecimalLayout) (d : Decimal) : String :=
  let sign := if d.negative then "-" else ""
  let ds := if d.digits = 0 then "0" else String.ofList (Nat.toDigits 10 d.digits)
  let len := ds.length
  let point : Int := (len : Int) + d.exponent
  let body :=
    if d.digits = 0 then (if layout.pointZero then "0.0" else "0")
    else if layout.positionalFrom < point ∧ point ≤ layout.positionalTo then
      if 0 ≤ d.exponent then
        ds ++ repeatChar '0' d.exponent.toNat ++ (if layout.pointZero then ".0" else "")
      else if 0 < point then
        String.ofList (ds.toList.take point.toNat) ++ "." ++ String.ofList (ds.toList.drop point.toNat)
      else "0." ++ repeatChar '0' (-point).toNat ++ ds
    else
      let mantissa :=
        if len = 1 then ds
        else String.ofList (ds.toList.take 1) ++ "." ++ String.ofList (ds.toList.drop 1)
      let e := point - 1
      let expText :=
        if e < 0 then "-" ++ toString e.natAbs
        else (if layout.exponentPlus then "+" else "") ++ toString e.natAbs
      mantissa ++ "e" ++ expText
  sign ++ body

namespace Binary64

/-- The shortest decimal of a double, `none` for infinities and NaN. -/
def shortest? (x : Binary64) (tie : Tie) : Option Decimal := x.toValue.shortest? BinaryFormat.binary64 tie

end Binary64

namespace Binary32

/-- The shortest decimal of a single, `none` for infinities and NaN. -/
def shortest? (x : Binary32) (tie : Tie) : Option Decimal := x.toValue.shortest? BinaryFormat.binary32 tie

end Binary32

end Tickflow
