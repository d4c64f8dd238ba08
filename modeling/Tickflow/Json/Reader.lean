import Tickflow.Json.Basic
/-! # Reading JSON text

A recursive-descent reader that decides numbers by their spelling and refuses nesting deeper
than `depthLimit`. `Json.parseLoose` serves record readers that skip unknown members: it keeps
values a document cannot hold as unreadable leaves.
-/
namespace Tickflow

namespace Json.Reader

def depthLimit : Nat := 128

/-- The result of reading a prefix: the value and the rest of the text. -/
abbrev Step (α : Type) := Except ReadError (α × List Char)

def isBlank (c : Char) : Bool := c == ' ' || c == '\n' || c == '\t' || c == '\r'

def skipBlanks : List Char → List Char
  | [] => []
  | c :: cs => if isBlank c then skipBlanks cs else c :: cs

def hexValue (c : Char) : Option Nat :=
  if '0' ≤ c ∧ c ≤ '9' then some (c.toNat - '0'.toNat)
  else if 'a' ≤ c ∧ c ≤ 'f' then some (c.toNat - 'a'.toNat + 10)
  else if 'A' ≤ c ∧ c ≤ 'F' then some (c.toNat - 'A'.toNat + 10)
  else none

def hex4 (a b c d : Char) : Option Nat :=
  match hexValue a,hexValue b,hexValue c,hexValue d with
  | some w,some x,some y,some z => some (((w * 16 + x) * 16 + y) * 16 + z)
  | _,_,_,_ => none

/-- Whether `c` after a backslash is one of the one-letter escapes. -/
def isSimpleEscape (c : Char) : Bool :=
  c == '"' || c == '\\' || c == '/' || c == 'b' || c == 'f' || c == 'n' || c == 'r' || c == 't'

/-- Passes over the rest of a string body up to and past its closing quote, checking only
its form: every escape is a one-letter one or `\u` with four hexadecimal digits of any value,
and no control character stands bare. -/
def skipStringBody : List Char → Except ReadError (List Char)
  | [] => .error .unexpectedEnd
  | '"' :: rest => .ok rest
  | '\\' :: 'u' :: a :: b :: c :: d :: rest =>
    if (hex4 a b c d).isSome then skipStringBody rest else .error .badEscape
  | '\\' :: 'u' :: _ => .error .unexpectedEnd
  | '\\' :: c :: rest => if isSimpleEscape c then skipStringBody rest else .error .badEscape
  | '\\' :: [] => .error .unexpectedEnd
  | c :: rest => if c.toNat < 0x20 then .error .controlCharacter else skipStringBody rest

/-- What follows an escape that makes no character, an unpaired surrogate: a strict reading
refuses the text; a loose one passes over the rest of the string and yields no text. -/
def afterUnpaired (loose : Bool) (rest : List Char) : Step (Option String) :=
  if loose then (skipStringBody rest).map fun r => (none,r) else .error .loneSurrogate

/-- The body of a string after its opening quote, up to and past the closing quote; `none`
for a string whose escapes leave a surrogate unpaired, which only a loose reading allows. -/
def readStringBody (loose : Bool) : List Char → List Char → Step (Option String)
  | [],_ => .error .unexpectedEnd
  | '"' :: rest,acc => .ok (some (String.ofList acc.reverse),rest)
  | '\\' :: rest,acc =>
    match rest with
    | '"' :: r => readStringBody loose r ('"' :: acc)
    | '\\' :: r => readStringBody loose r ('\\' :: acc)
    | '/' :: r => readStringBody loose r ('/' :: acc)
    | 'b' :: r => readStringBody loose r ('\x08' :: acc)
    | 'f' :: r => readStringBody loose r ('\x0c' :: acc)
    | 'n' :: r => readStringBody loose r ('\n' :: acc)
    | 'r' :: r => readStringBody loose r ('\r' :: acc)
    | 't' :: r => readStringBody loose r ('\t' :: acc)
    | 'u' :: a :: b :: c :: d :: r =>
      match hex4 a b c d with
      | none => .error .badEscape
      | some u =>
        if 0xDC00 ≤ u ∧ u < 0xE000 then afterUnpaired loose r
        else if 0xD800 ≤ u ∧ u < 0xDC00 then
          match r with
          | '\\' :: 'u' :: a :: b :: c :: d :: r' =>
            match hex4 a b c d with
            | none => .error .badEscape
            | some v =>
              if 0xDC00 ≤ v ∧ v < 0xE000 then
                readStringBody loose r' (Char.ofNat (0x10000 + (u - 0xD800) * 0x400 + (v - 0xDC00)) :: acc)
              else afterUnpaired loose r
          | _ => afterUnpaired loose r
        else readStringBody loose r (Char.ofNat u :: acc)
    | [] => .error .unexpectedEnd
    | _ :: _ => .error .badEscape
  | c :: rest,acc =>
    if c.toNat < 0x20 then .error .controlCharacter else readStringBody loose rest (c :: acc)
termination_by cs => cs.length

/-- A string value: its text, or an unreadable leaf for one with an unpaired surrogate. -/
def stringValue (s : Option String) : Json :=
  match s with
  | some s => .string s
  | none => .unreadable .loneSurrogate

def readDigits : List Char → List Char × List Char
  | [] => ([],[])
  | c :: cs =>
    if c.isDigit then let (ds,rest) := readDigits cs; (c :: ds,rest) else ([],c :: cs)

def digitsValue (ds : List Char) : Nat :=
  ds.foldl (fun n c => 10 * n + (c.toNat - '0'.toNat)) 0

def int64Bound : Nat := Nat.pow 2 63

/-- A number beyond the double range: refused by a strict reading, an unreadable leaf in a
loose one. -/
def outOfRange (loose : Bool) (rest : List Char) : Step Json :=
  if loose then .ok (.unreadable .numberOutOfRange,rest) else .error .numberOutOfRange

def readSign (cs : List Char) : Bool × List Char :=
  match cs with
  | '-' :: r => (true,r)
  | r => (false,r)

/-- An optional fraction: its digits after `.`, the rest, and whether the point was there. -/
def readFraction (cs : List Char) : List Char × List Char × Bool :=
  match cs with
  | '.' :: r => let (ds,r') := readDigits r; (ds,r',true)
  | r => ([],r,false)

/-- An optional sign in front of the digits of an exponent. -/
def readExponentSign (cs : List Char) : Bool × List Char :=
  match cs with
  | '-' :: r => (true,r)
  | '+' :: r => (false,r)
  | r => (false,r)

/-- An optional exponent after `e` or `E`: its sign, its digits, the rest, and whether the mark
was there. -/
def readExponentPart (cs : List Char) : Bool × List Char × List Char × Bool :=
  match cs with
  | 'e' :: r | 'E' :: r =>
    let (neg,r) := readExponentSign r
    let (ds,r') := readDigits r
    (neg,ds,r',true)
  | r => (false,[],r,false)

/-- A number, from its first character (a digit or a minus sign). -/
def readNumber (loose : Bool) (cs : List Char) : Step Json :=
  let (negative,cs) := readSign cs
  let (intDigits,rest) := readDigits cs
  if intDigits.isEmpty then .error .badNumber
  else if intDigits.length > 1 ∧ intDigits.head? = some '0' then .error .badNumber
  else
    let (fracDigits,rest,hasFrac) := readFraction rest
    if hasFrac ∧ fracDigits.isEmpty then .error .badNumber
    else
      let (expNeg,expDigits,rest,hasExp) := readExponentPart rest
      if hasExp ∧ expDigits.isEmpty then .error .badNumber
      else
        let mantissa := digitsValue (intDigits ++ fracDigits)
        if !hasFrac ∧ !hasExp then
          if !negative ∧ mantissa < Nat.pow 2 64 then .ok (.int mantissa,rest)
          else if negative ∧ mantissa ≠ 0 ∧ mantissa ≤ int64Bound then .ok (.int (-(mantissa : Int)),rest)
          else
            match Binary64.ofDecimal? negative mantissa 0 with
            | some x =>
              if mantissa < Nat.pow 2 64 then .ok (.float x,rest)
              else .ok (.decimal ⟨negative,mantissa,0⟩ x,rest)
            | none => outOfRange loose rest
        else
          let e : Int := (if expNeg then -(digitsValue expDigits : Int) else digitsValue expDigits)
            - (fracDigits.length : Int)
          match Binary64.ofDecimal? negative mantissa e with
          | some x => .ok (.decimal ⟨negative,mantissa,e⟩ x,rest)
          | none => outOfRange loose rest

def readWord (word : List Char) (value : Json) (cs : List Char) : Step Json :=
  if word.isPrefixOf cs then .ok (value,cs.drop word.length)
  else .error (if cs.length < word.length then .unexpectedEnd else .unexpectedChar (cs.headD ' '))

/-- A container read past the nesting limit: refused by a strict reading; a loose one still
reads it through and keeps an unreadable leaf in its place. -/
def nested (loose tooDeep : Bool) (inner : Step Json) : Step Json :=
  if !tooDeep then inner
  else if loose then inner.map fun (_,r) => (.unreadable .tooDeep,r)
  else .error .tooDeep

mutual

/-- A value after optional blanks. `fuel` bounds the steps; `depth` the nesting left. -/
def readValue (loose : Bool) : Nat → Nat → List Char → Step Json
  | 0,_,_ => .error .tooDeep
  | fuel + 1,depth,cs =>
    match skipBlanks cs with
    | [] => .error .unexpectedEnd
    | c :: rest =>
      if c == '"' then (readStringBody loose rest []).map fun (s,r) => (stringValue s,r)
      else if c == '[' then
        if depth ≤ 1 && !loose then .error .tooDeep
        else
          nested loose (depth ≤ 1) <|
            match skipBlanks rest with
            | ']' :: r => .ok (.array [],r)
            | _ => readItems loose fuel (depth - 1) [] rest
      else if c == '{' then
        if depth ≤ 1 && !loose then .error .tooDeep
        else
          nested loose (depth ≤ 1) <|
            match skipBlanks rest with
            | '}' :: r => .ok (.object [],r)
            | _ => readMembers loose fuel (depth - 1) [] rest
      else if c == 't' then readWord "true".toList (.bool true) (c :: rest)
      else if c == 'f' then readWord "false".toList (.bool false) (c :: rest)
      else if c == 'n' then readWord "null".toList .null (c :: rest)
      else if c == '-' ∨ c.isDigit then readNumber loose (c :: rest)
      else .error (.unexpectedChar c)

def readItems (loose : Bool) : Nat → Nat → List Json → List Char → Step Json
  | 0,_,_,_ => .error .tooDeep
  | fuel + 1,depth,acc,cs =>
    match readValue loose fuel depth cs with
    | .error e => .error e
    | .ok (v,rest) =>
      match skipBlanks rest with
      | ',' :: r => readItems loose fuel depth (v :: acc) r
      | ']' :: r => .ok (.array (v :: acc).reverse,r)
      | c :: _ => .error (.unexpectedChar c)
      | [] => .error .unexpectedEnd

/-- Object members after `{`, each `"key": value` followed by `,` or `}`. A key is always read
strictly. -/
def readMembers (loose : Bool) : Nat → Nat → List (String × Json) → List Char → Step Json
  | 0,_,_,_ => .error .tooDeep
  | fuel + 1,depth,acc,cs =>
    match skipBlanks cs with
    | '"' :: r =>
      match readStringBody false r [] with
      | .error e => .error e
      | .ok (none,_) => .error .loneSurrogate
      | .ok (some key,rest) =>
        match skipBlanks rest with
        | ':' :: r =>
          match readValue loose fuel depth r with
          | .error e => .error e
          | .ok (v,rest) =>
            match skipBlanks rest with
            | ',' :: r => readMembers loose fuel depth ((key,v) :: acc) r
            | '}' :: r => .ok (.object ((key,v) :: acc).reverse,r)
            | c :: _ => .error (.unexpectedChar c)
            | [] => .error .unexpectedEnd
        | c :: _ => .error (.unexpectedChar c)
        | [] => .error .unexpectedEnd
    | c :: _ => .error (.unexpectedChar c)
    | [] => .error .unexpectedEnd

end

/-- Reads a whole text as one JSON document, strictly or loosely. -/
def readDocument (loose : Bool) (text : String) : Except ReadError Json :=
  let cs := text.toList
  match readValue loose (3 * cs.length + 3) depthLimit cs with
  | .error e => .error e
  | .ok (v,rest) =>
    match skipBlanks rest with
    | [] => .ok v
    | _ => .error .trailingCharacters

end Json.Reader

/-- Reads a whole text as one JSON document; every value in it must be one a document can
hold. -/
def Json.parse (text : String) : Except ReadError Json := Json.Reader.readDocument false text

/-- Reads a whole text as one JSON document, checking the form of every value but keeping a
value whose content cannot be held as an unreadable leaf: a string with an unpaired
surrogate, a number beyond the double range, a container nested past the limit. A record
reader that skips such a member never sees the difference. -/
def Json.parseLoose (text : String) : Except ReadError Json := Json.Reader.readDocument true text

end Tickflow
