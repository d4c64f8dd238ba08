import Tickflow.Value.Basic
import Tickflow.Json.Schema
/-! # Values in documents

The *typed* form of a value names its variant and reads back as itself (`ofTyped?`); the
*plain* form reads any document as the value it looks like (`ofJson`).
-/
namespace Tickflow

namespace Value

def variantNames : List String := ["Null","Bool","Int","Float","String","List","Map"]

mutual

def toTyped : Value → Json
  | .null => .object [("type",.string "Null")]
  | .bool b => .object [("type",.string "Bool"),("value",.bool b)]
  | .int n => .object [("type",.string "Int"),("value",.int n.toInt)]
  | .float x => .object [("type",.string "Float"),("value",.float x)]
  | .string s => .object [("type",.string "String"),("value",.string s)]
  | .list items => .object [("type",.string "List"),("value",.array (toTypedItems items))]
  | .map members => .object [("type",.string "Map"),("value",.object (toTypedMembers members))]

def toTypedItems : List Value → List Json
  | [] => []
  | v :: rest => toTyped v :: toTypedItems rest

def toTypedMembers : List (String × Value) → List (String × Json)
  | [] => []
  | (k,v) :: rest => (k,toTyped v) :: toTypedMembers rest

end

/-- The variant a typed document names. Only a name counts: a number in the tag's place is
refused, not read as a position. -/
def variantOf (tag : Json) : Schema String :=
  match tag with
  | .string s => if variantNames.contains s then .ok s else .error (.unknownVariant s)
  | _ => .error (.invalidType "a variant identifier")

def readInt64 (j : Json) : Schema Int64 :=
  match j with
  | .int n =>
    if -((Nat.pow 2 63 : Nat) : Int) ≤ n ∧ n < ((Nat.pow 2 63 : Nat) : Int) then .ok (Int64.ofInt n)
    else .error (.invalidValue "an integer in the signed 64-bit range")
  | _ => .error (.invalidType "an integer")

def readDouble (j : Json) : Schema Binary64 :=
  match j.number? with
  | some x => .ok x
  | none => .error (.invalidType "a number")

def contentFirst (ms : List (String × Json)) : Bool :=
  match ms.findIdx? (·.1 == "value"),ms.findIdx? (·.1 == "type") with
  | some v,some t => v < t
  | _,_ => false

mutual

/-- Reads the typed form: an object with a `type` member and an optional `value` member
(others are skipped, a repeated one refused), or a two-item array of tag and content. Null
takes no content or a `null` one; every other variant needs its content. A `value` member
written before the `type` member is held as a whole before its variant is known, so none of
it, skipped parts included, may be unreadable. -/
def ofTyped? : Json → Schema Value
  | .object ms =>
    match Json.member? ms "type",Json.member? ms "value" with
    | .error e,_ => .error e
    | _,.error e => .error e
    | .ok none,_ => .error (.missingField "type")
    | .ok (some tag),.ok content =>
      if contentFirst ms && !(content.map Json.readable).getD true then
        .error (.invalidValue "a readable content")
      else
        match variantOf tag with
        | .error e => .error e
        | .ok name =>
          match ofContentMember name ms with
          | .error e => .error e
          | .ok (some v) => .ok v
          | .ok none => if name = "Null" then .ok .null else .error (.missingField "value")
  | .array [tag,c] =>
    match variantOf tag with
    | .error e => .error e
    | .ok name => ofContent name c
  | .array _ => .error (.invalidValue "a tag and a content")
  | _ => .error (.invalidType "a typed value")

/-- Reads the `value` member of a typed object as the content of variant `name`. -/
def ofContentMember (name : String) : List (String × Json) → Schema (Option Value)
  | [] => .ok none
  | (k,c) :: rest =>
    if k = "value" then some <$> ofContent name c else ofContentMember name rest

def ofContent (name : String) : Json → Schema Value
  | .null => if name = "Null" then .ok .null else .error (.invalidType name)
  | .array items =>
    if name = "List" then .list <$> ofTypedItems items else .error (.invalidType name)
  | .object members =>
    if name = "Map" then (fun ms => .map (orderMembers ms)) <$> ofTypedMembers members
    else .error (.invalidType name)
  | c =>
    if name = "Bool" then .bool <$> Json.readBool c
    else if name = "Int" then .int <$> readInt64 c
    else if name = "Float" then .float <$> readDouble c
    else if name = "String" then .string <$> Json.readString c
    else .error (.invalidType name)

def ofTypedItems : List Json → Schema (List Value)
  | [] => .ok []
  | j :: rest =>
    match ofTyped? j,ofTypedItems rest with
    | .ok v,.ok vs => .ok (v :: vs)
    | .error e,_ => .error e
    | _,.error e => .error e

def ofTypedMembers : List (String × Json) → Schema (List (String × Value))
  | [] => .ok []
  | (k,j) :: rest =>
    match ofTyped? j,ofTypedMembers rest with
    | .ok v,.ok vs => .ok ((k,v) :: vs)
    | .error e,_ => .error e
    | _,.error e => .error e

end

/-- The plain reading of a number: an integer in the signed 64-bit range stays an integer. -/
def ofNumber (j : Json) : Value :=
  match j with
  | .int n => if -((Nat.pow 2 63 : Nat) : Int) ≤ n ∧ n < ((Nat.pow 2 63 : Nat) : Int) then .int (Int64.ofInt n) else .float (Binary64.ofInt n)
  | .float x => .float x
  | .decimal _ x => .float x
  | .single x => .float x.toBinary64
  | _ => .null

mutual

def ofJson : Json → Value
  | .null => .null
  | .bool b => .bool b
  | .string s => .string s
  | .array items => .list (ofJsonItems items)
  | .object members => .map (orderMembers (ofJsonMembers members))
  | j => ofNumber j

def ofJsonItems : List Json → List Value
  | [] => []
  | j :: rest => ofJson j :: ofJsonItems rest

def ofJsonMembers : List (String × Json) → List (String × Value)
  | [] => []
  | (k,j) :: rest => (k,ofJson j) :: ofJsonMembers rest

end

end Value

end Tickflow
