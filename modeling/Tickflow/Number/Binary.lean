/-! # Binary floating-point formats

An IEEE 754 binary interchange format is fixed by its precision and exponent width. A finite
value is a sign, an integer significand and the exponent of its last place. Rounding a
positive ratio of naturals to a format is exact arithmetic on `Nat`: pick the exponent of the
last place, divide, and round half to even; a carry into a new binade moves the exponent up.
-/
namespace Tickflow

/-- An IEEE 754 binary format: significand precision in bits (hidden bit included) and
exponent field width. -/
structure BinaryFormat where
  precision : Nat
  exponentBits : Nat

/-- A binary floating-point datum, decoded from its bit pattern. -/
inductive BinaryValue where
  /-- `(-1)^negative * significand * 2^exponent`. -/
  | finite (negative : Bool) (significand : Nat) (exponent : Int)
  | infinite (negative : Bool)
  | nan

namespace BinaryFormat

def binary64 : BinaryFormat := ⟨53,11⟩

def binary32 : BinaryFormat := ⟨24,8⟩

def fractionBits (f : BinaryFormat) : Nat := f.precision - 1

def bias (f : BinaryFormat) : Nat := Nat.pow 2 (f.exponentBits - 1) - 1

def minQuantum (f : BinaryFormat) : Int := 1 - (f.bias : Int) - (f.fractionBits : Int)

/-- The exponent of the last place of the largest finite numbers. -/
def maxQuantum (f : BinaryFormat) : Int := (f.bias : Int) - (f.fractionBits : Int)

/-- Reads a bit pattern, given as a natural number below `2^(1 + w + p - 1)`. -/
def decode (f : BinaryFormat) (bits : Nat) : BinaryValue :=
  let fraction := bits % Nat.pow 2 f.fractionBits
  let biased := bits / Nat.pow 2 f.fractionBits % Nat.pow 2 f.exponentBits
  let negative := bits / Nat.pow 2 (f.fractionBits + f.exponentBits) % 2 == 1
  if biased = Nat.pow 2 f.exponentBits - 1 then
    if fraction = 0 then .infinite negative else .nan
  else if biased = 0 then .finite negative fraction f.minQuantum
  else .finite negative (fraction + Nat.pow 2 f.fractionBits)
    ((biased : Int) - (f.bias : Int) - (f.fractionBits : Int))

/-- Writes a finite value whose significand is below `2^p` and which is normal unless its
exponent is `minQuantum`. -/
def encodeFinite (f : BinaryFormat) (negative : Bool) (significand : Nat) (exponent : Int) : Nat :=
  let sign := if negative then Nat.pow 2 (f.fractionBits + f.exponentBits) else 0
  if significand < Nat.pow 2 f.fractionBits then sign + significand
  else sign + (exponent - f.minQuantum + 1).toNat * Nat.pow 2 f.fractionBits
    + (significand - Nat.pow 2 f.fractionBits)

def encodeInfinite (f : BinaryFormat) (negative : Bool) : Nat :=
  (if negative then Nat.pow 2 (f.fractionBits + f.exponentBits) else 0)
    + (Nat.pow 2 f.exponentBits - 1) * Nat.pow 2 f.fractionBits

end BinaryFormat

/-- `num / den` rounded to the nearest natural number, a tie going to the even one. -/
def roundHalfEven (num den : Nat) : Nat :=
  let q := num / den
  let r := num % den
  if 2 * r > den ∨ (2 * r = den ∧ q % 2 = 1) then q + 1 else q

def scaleByTwo (x : Nat) (e : Int) : Nat × Nat :=
  if 0 ≤ e then (x * Nat.pow 2 e.toNat,1) else (x,Nat.pow 2 (-e).toNat)

/-- The floor of the binary logarithm of `num / den`, both positive. -/
def floorLog2Ratio (num den : Nat) : Int :=
  let b : Int := (num.log2 : Int) - (den.log2 : Int)
  let (l,r) := if 0 ≤ b then (num,den * Nat.pow 2 b.toNat) else (num * Nat.pow 2 (-b).toNat,den)
  if r ≤ l then b else b - 1

namespace BinaryFormat

/-- Rounds the positive ratio `num / den` to the nearest value of the format, ties to an even
significand. The result is a significand and last-place exponent, or `none` past the largest
finite value. Values below half the smallest subnormal give significand `0`. -/
def roundRatio (f : BinaryFormat) (num den : Nat) : Option (Nat × Int) :=
  let e2 := floorLog2Ratio num den
  let q := max (e2 - (f.fractionBits : Int)) f.minQuantum
  let (n,d) := if 0 ≤ q then (num,den * Nat.pow 2 q.toNat) else (num * Nat.pow 2 (-q).toNat,den)
  let s := roundHalfEven n d
  let (s,q) := if s = Nat.pow 2 f.precision then (Nat.pow 2 f.fractionBits,q + 1) else (s,q)
  if q > f.maxQuantum then none else some (s,q)

/-- The bit pattern nearest to `±num / den`, or `none` when it overflows. -/
def ofRatio? (f : BinaryFormat) (negative : Bool) (num den : Nat) : Option Nat :=
  if num = 0 then some (f.encodeFinite negative 0 0)
  else (f.roundRatio num den).map fun (s,q) => f.encodeFinite negative s q

/-- The bit pattern nearest to `±num / den`, saturating to an infinity on overflow. -/
def ofRatio (f : BinaryFormat) (negative : Bool) (num den : Nat) : Nat :=
  (f.ofRatio? negative num den).getD (f.encodeInfinite negative)

/-- The bit pattern nearest to `±digits * 10^exponent`, rounded once, or `none` when it
overflows. Exponents far outside every format's range are decided without computing the
power: past `10^400` is an overflow, below `10^-400` a zero. -/
def ofDecimal? (f : BinaryFormat) (negative : Bool) (digits : Nat) (exponent : Int) : Option Nat :=
  if digits = 0 then some (f.encodeFinite negative 0 0)
  else
    let magnitude : Int := exponent + ((Nat.toDigits 10 digits).length : Int)
    if magnitude > 400 then none
    else if magnitude < -400 then some (f.encodeFinite negative 0 0)
    else
      let (num,den) :=
        if 0 ≤ exponent then (digits * Nat.pow 10 exponent.toNat,1) else (digits,Nat.pow 10 (-exponent).toNat)
      f.ofRatio? negative num den

end BinaryFormat

/-- A double-precision number, kept as its bit pattern so that equality is exact. -/
structure Binary64 where
  bits : UInt64
  deriving DecidableEq, Inhabited

/-- A single-precision number, kept as its bit pattern. -/
structure Binary32 where
  bits : UInt32
  deriving DecidableEq, Inhabited

namespace Binary64

def zero : Binary64 := ⟨0⟩

def toValue (x : Binary64) : BinaryValue := BinaryFormat.binary64.decode x.bits.toNat

def ofRatio (negative : Bool) (num den : Nat) : Binary64 :=
  ⟨(BinaryFormat.binary64.ofRatio negative num den).toUInt64⟩

def ofInt (n : Int) : Binary64 := ofRatio (n < 0) n.natAbs 1

/-- The double nearest to `±digits * 10^exponent`, or `none` when it is out of range. -/
def ofDecimal? (negative : Bool) (digits : Nat) (exponent : Int) : Option Binary64 :=
  (BinaryFormat.binary64.ofDecimal? negative digits exponent).map fun b => ⟨b.toUInt64⟩

def isFinite (x : Binary64) : Bool :=
  match x.toValue with
  | .finite .. => true
  | _ => false

def signBit (x : Binary64) : Bool := x.bits >>> 63 == 1

def neg (x : Binary64) : Binary64 := ⟨x.bits ^^^ ((1 : UInt64) <<< 63)⟩

def toFloat (x : Binary64) : Float := Float.ofBits x.bits

def ofFloat (x : Float) : Binary64 := ⟨x.toBits⟩

def add (x y : Binary64) : Binary64 := ofFloat (x.toFloat + y.toFloat)

def sub (x y : Binary64) : Binary64 := ofFloat (x.toFloat - y.toFloat)

/-- The machine comparison `x ≤ y`; false when either is NaN. -/
def le (x y : Binary64) : Bool := x.toFloat ≤ y.toFloat

def div (x y : Binary64) : Binary64 := ofFloat (x.toFloat / y.toFloat)

/-- The machine comparison `x < y`; false when either is NaN. -/
def lt (x y : Binary64) : Bool := x.toFloat < y.toFloat

def isNaN (x : Binary64) : Bool := x.toFloat.isNaN

def infinity (negative : Bool) : Binary64 :=
  ⟨(BinaryFormat.binary64.encodeInfinite negative).toUInt64⟩

def nan : Binary64 := ⟨0x7ff8000000000000⟩

/-- The larger of two numbers, a NaN giving way to the other, and `+0` counting as larger
than `-0`. -/
def maxNum (x y : Binary64) : Binary64 :=
  if x.isNaN then y else if y.isNaN then x
  else if x.toFloat < y.toFloat then y
  else if y.toFloat < x.toFloat then x
  else if x.signBit then y else x

/-- The nearest single-precision number; past the largest finite one it is infinite. -/
def toBinary32 (x : Binary64) : Binary32 :=
  match x.toValue with
  | .finite negative s e =>
    let (num,den) := scaleByTwo s e
    ⟨(BinaryFormat.binary32.ofRatio negative num den).toUInt32⟩
  | .infinite negative => ⟨(BinaryFormat.binary32.encodeInfinite negative).toUInt32⟩
  | .nan => ⟨0x7fc00000⟩

end Binary64

namespace Binary32

/-- The single nearest to an integer, infinite past the largest finite one. -/
def ofInt (n : Int) : Binary32 := ⟨(BinaryFormat.binary32.ofRatio (n < 0) n.natAbs 1).toUInt32⟩

/-- The single nearest to `±digits * 10^exponent`, rounded once from the decimal (not by way
of a double), or `none` when it is out of range. -/
def ofDecimal? (negative : Bool) (digits : Nat) (exponent : Int) : Option Binary32 :=
  (BinaryFormat.binary32.ofDecimal? negative digits exponent).map fun b => ⟨b.toUInt32⟩

def toValue (x : Binary32) : BinaryValue := BinaryFormat.binary32.decode x.bits.toNat

def isFinite (x : Binary32) : Bool :=
  match x.toValue with
  | .finite .. => true
  | _ => false

/-- The double with the same value; every single-precision number is one. -/
def toBinary64 (x : Binary32) : Binary64 :=
  match x.toValue with
  | .finite negative s e =>
    let (num,den) := scaleByTwo s e
    Binary64.ofRatio negative num den
  | .infinite negative => ⟨(BinaryFormat.binary64.encodeInfinite negative).toUInt64⟩
  | .nan => ⟨0x7ff8000000000000⟩

end Binary32

end Tickflow
