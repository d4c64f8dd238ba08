import Tickflow.Number.Binary
import Tickflow.Member
/-! # Script values

The dynamic values that flow through data pins and node configuration: null, booleans,
64-bit integers, doubles, strings, lists and maps. A map keeps its keys in ascending order
and each key once; `Value.mapOf` builds one from members in any order, a later member
replacing an earlier one of the same key.
-/
namespace Tickflow

/-- A script value. -/
inductive Value where
  | null
  | bool (b : Bool)
  | int (n : Int64)
  | float (x : Binary64)
  | string (s : String)
  | list (items : List Value)
  /-- Members in ascending key order, each key once. -/
  | map (members : List (String × Value))
  deriving Inhabited

namespace Value

/-- A map from members in any order; of two members with one key the later wins. -/
def mapOf (members : List (String × Value)) : Value := .map (orderMembers members)

def asBool? : Value → Option Bool
  | .bool b => some b
  | _ => none

/-- The truth value of a boolean, or `default` for any other value. -/
def asBoolOr (v : Value) (default : Bool) : Bool := v.asBool?.getD default

def asInt? : Value → Option Int64
  | .int n => some n
  | _ => none

/-- A number as a double: a float as it is, an integer rounded to the nearest double. -/
def asDouble? : Value → Option Binary64
  | .float x => some x
  | .int n => some (Binary64.ofInt n.toInt)
  | _ => none

def asString? : Value → Option String
  | .string s => some s
  | _ => none

def isNull : Value → Bool
  | .null => true
  | _ => false

def typeName : Value → String
  | .null => "null"
  | .bool _ => "bool"
  | .int _ => "int"
  | .float _ => "float"
  | .string _ => "string"
  | .list _ => "list"
  | .map _ => "map"

end Value

end Tickflow
