import Tickflow.Json.Basic
import Tickflow.Member
/-! # Reading records out of documents

A record is read from an object member by member. A required member must be present; a
member with a default may be absent, and then takes its default, but a `null` in its place
is refused unless the member is optional; members the record does not know are skipped; a
member given twice is refused.
-/
namespace Tickflow

/-- Why a document does not have the shape a record needs. -/
inductive SchemaError where
  | missingField (name : String)
  | duplicateField (name : String)
  | invalidType (expected : String)
  | invalidValue (what : String)
  | unknownVariant (name : String)
  deriving DecidableEq, Repr

def SchemaError.message : SchemaError → String
  | .missingField name => "missing field " ++ name
  | .duplicateField name => "duplicate field " ++ name
  | .invalidType expected => "invalid type: expected " ++ expected
  | .invalidValue what => "invalid value: expected " ++ what
  | .unknownVariant name => "unknown variant " ++ name

abbrev Schema (α : Type) := Except SchemaError α

namespace Json

/-- The members of an object, or a type mismatch naming what was expected. -/
def expectObject (j : Json) (what : String) : Schema (List (String × Json)) :=
  match j with
  | .object ms => .ok ms
  | _ => .error (.invalidType what)

def member? (ms : List (String × Json)) (key : String) : Schema (Option Json) :=
  match ms.filter (·.1 == key) with
  | [] => .ok none
  | [(_,v)] => .ok (some v)
  | _ => .error (.duplicateField key)

def required {α : Type} (ms : List (String × Json)) (key : String) (read : Json → Schema α) :
    Schema α := do
  match ← member? ms key with
  | some v => read v
  | none => .error (.missingField key)

/-- A member with a default; `null` is read by `read` like any other value. -/
def withDefault {α : Type} (ms : List (String × Json)) (key : String) (default : α)
    (read : Json → Schema α) : Schema α := do
  match ← member? ms key with
  | some v => read v
  | none => .ok default

def optional {α : Type} (ms : List (String × Json)) (key : String) (read : Json → Schema α) :
    Schema (Option α) := do
  match ← member? ms key with
  | some .null => .ok none
  | some v => some <$> read v
  | none => .ok none

/-- The members a record reads, in the order of `names`: by name from an object (a repeated
member refused), or by position from an array no longer than the record. -/
def fields (j : Json) (names : List String) : Schema (List (Option Json)) :=
  match j with
  | .object ms => names.mapM (member? ms)
  | .array items =>
    if items.length ≤ names.length then .ok ((List.range names.length).map (items[·]?))
    else .error (.invalidValue "no more items than fields")
  | _ => .error (.invalidType "a record")

def need {α : Type} (name : String) (field : Option Json) (read : Json → Schema α) : Schema α :=
  match field with
  | some v => read v
  | none => .error (.missingField name)

/-- A field with a default; a `null` is read like any other value. -/
def orDefault {α : Type} (field : Option Json) (default : α) (read : Json → Schema α) : Schema α :=
  match field with
  | some v => read v
  | none => .ok default

def orNone {α : Type} (field : Option Json) (read : Json → Schema α) : Schema (Option α) :=
  match field with
  | some .null | none => .ok none
  | some v => some <$> read v

def readString (j : Json) : Schema String :=
  match j with
  | .string s => .ok s
  | _ => .error (.invalidType "a string")

def readBool (j : Json) : Schema Bool :=
  match j with
  | .bool b => .ok b
  | _ => .error (.invalidType "a boolean")

def readUnsigned (bits : Nat) (j : Json) : Schema Nat :=
  match j with
  | .int n => if 0 ≤ n ∧ n < (Nat.pow 2 bits : Nat) then .ok n.toNat else .error (.invalidValue "an integer in range")
  | _ => .error (.invalidType "an integer")

def readArray {α : Type} (read : Json → Schema α) (j : Json) : Schema (List α) :=
  match j with
  | .array items => items.mapM read
  | _ => .error (.invalidType "an array")

mutual

/-- Objects with members sorted by key, of repeated keys the last kept, as a map reads them;
arrays and scalars unchanged. -/
def normalize : Json → Json
  | .array items => .array (normalizeItems items)
  | .object members => .object ((normalizeMembers members).foldl (fun acc (k,v) => insertMember k v acc) [])
  | j => j

def normalizeItems : List Json → List Json
  | [] => []
  | j :: rest => normalize j :: normalizeItems rest

def normalizeMembers : List (String × Json) → List (String × Json)
  | [] => []
  | (k,j) :: rest => (k,normalize j) :: normalizeMembers rest

end

end Json

end Tickflow
