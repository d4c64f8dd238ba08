import Tickflow.Value.Basic
import Tickflow.Number.Decimal
/-! # The text of a value

Values print as a reader would say them: `null`, `true`, an integer in decimal, a double
with its shortest digits (of two equally near, the one farther from zero) and never an
exponent (`1`, `-0`, `0.0000001`, `1000000000000000000000`), a string as its raw text, a
list as `[a, b]` and a map as `{k: v}` in key order.
-/
namespace Tickflow

def Value.doubleLayout : DecimalLayout := ⟨-100000,100000,false,false⟩

/-- The text of a double in value text; infinities and NaN as `inf`, `-inf`, `NaN`. -/
def Value.doubleText (x : Binary64) : String :=
  match x.shortest? .up with
  | some d => d.render Value.doubleLayout
  | none =>
    match x.toValue with
    | .infinite true => "-inf"
    | .infinite false => "inf"
    | _ => "NaN"

def Value.intText (n : Int64) : String :=
  if n.toInt < 0 then "-" ++ toString n.toInt.natAbs else toString n.toInt.natAbs

mutual

def Value.display : Value → String
  | .null => "null"
  | .bool b => if b then "true" else "false"
  | .int n => Value.intText n
  | .float x => Value.doubleText x
  | .string s => s
  | .list items => "[" ++ Value.displayItems items ++ "]"
  | .map members => "\x7b" ++ Value.displayMembers members ++ "\x7d"

def Value.displayItems : List Value → String
  | [] => ""
  | [v] => v.display
  | v :: rest => v.display ++ ", " ++ Value.displayItems rest

def Value.displayMembers : List (String × Value) → String
  | [] => ""
  | [(k,v)] => k ++ ": " ++ v.display
  | (k,v) :: rest => k ++ ": " ++ v.display ++ ", " ++ Value.displayMembers rest

end

end Tickflow
