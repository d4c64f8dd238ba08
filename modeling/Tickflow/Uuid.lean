/-! # Identifiers

Graphs and nodes are named by 128-bit identifiers, written as 32 lowercase hexadecimal
digits in groups of 8-4-4-4-12. Reading also takes the 32 digits without hyphens, the
grouped form in braces, the grouped form after `urn:uuid:`, and uppercase digits.
-/
namespace Tickflow

/-- A 128-bit identifier. -/
structure Uuid where
  value : Nat
  deriving DecidableEq, Inhabited, Repr

namespace Uuid

def nil : Uuid := ⟨0⟩

def hexDigitValue (c : Char) : Option Nat :=
  if '0' ≤ c ∧ c ≤ '9' then some (c.toNat - '0'.toNat)
  else if 'a' ≤ c ∧ c ≤ 'f' then some (c.toNat - 'a'.toNat + 10)
  else if 'A' ≤ c ∧ c ≤ 'F' then some (c.toNat - 'A'.toNat + 10)
  else none

def ofHexDigits? (cs : List Char) : Option Nat :=
  cs.foldlM (fun n c => (hexDigitValue c).map (16 * n + ·)) 0

/-- The 32 digits of the grouped form, when the hyphens stand at 8, 13, 18 and 23. -/
def ungroup? (cs : List Char) : Option (List Char) :=
  if cs.length = 36 ∧ cs[8]? = some '-' ∧ cs[13]? = some '-' ∧ cs[18]? = some '-'
      ∧ cs[23]? = some '-' then
    some (cs.take 8 ++ (cs.drop 9).take 4 ++ (cs.drop 14).take 4 ++ (cs.drop 19).take 4 ++ cs.drop 24)
  else none

def parse? (s : String) : Option Uuid :=
  let cs := s.toList
  let digits : Option (List Char) :=
    if cs.length = 32 then some cs
    else if cs.length = 36 then ungroup? cs
    else if cs.length = 38 ∧ cs.head? = some '{' ∧ cs.getLast? = some '}' then
      ungroup? ((cs.drop 1).take 36)
    else if cs.length = 45 ∧ "urn:uuid:".toList.isPrefixOf cs then ungroup? (cs.drop 9)
    else none
  match digits with
  | some ds => if ds.length = 32 then (ofHexDigits? ds).map Uuid.mk else none
  | none => none

def hexChar (n : Nat) : Char :=
  if n < 10 then Char.ofNat ('0'.toNat + n) else Char.ofNat ('a'.toNat + n - 10)

def hexDigits (v : Nat) : Nat → List Char
  | 0 => []
  | n + 1 => hexDigits (v / 16) n ++ [hexChar (v % 16)]

def toText (u : Uuid) : String :=
  let ds := hexDigits u.value 32
  String.ofList (ds.take 8 ++ '-' :: (ds.drop 8).take 4 ++ '-' :: (ds.drop 12).take 4 ++ '-' ::
    (ds.drop 16).take 4 ++ '-' :: ds.drop 20)

end Uuid

end Tickflow
