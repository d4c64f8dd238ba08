import Tickflow.Pin.Basic
/-! # Pin sets

A set of pin indices below `maxPins`, held as a 16-bit mask: bit `i` is set when pin `i`
is in the set. Indices at or past the limit are never members: inserting one changes nothing
and reports `false`, and removing one is a no-op. Members are listed in ascending order.
-/
namespace Tickflow

/-- A set of pin indices below 16. -/
structure PinSet where
  mask : UInt16
  deriving DecidableEq, Inhabited

namespace PinSet

def empty : PinSet := ⟨0⟩

/-- The mask bit of index `i`: one shifted left by `i`. The index carries its bound, so no
shift by 16 or more can be taken; every operation checks the index before it shifts. -/
def bit (i : Fin maxPins) : UInt16 := (1 : UInt16) <<< i.val.toUInt16

def contains (s : PinSet) (i : Nat) : Bool :=
  if h : i < maxPins then s.mask &&& bit ⟨i,h⟩ != 0 else false

/-- Adds `i`; `false` when `i` is past the limit or already a member, and then nothing changes. -/
def insert (s : PinSet) (i : Nat) : Bool × PinSet :=
  if h : i < maxPins then
    if s.contains i then (false,s) else (true,⟨s.mask ||| bit ⟨i,h⟩⟩)
  else (false,s)

def add (s : PinSet) (i : Nat) : PinSet := (s.insert i).2

def remove (s : PinSet) (i : Nat) : PinSet :=
  if h : i < maxPins then ⟨s.mask &&& ~~~(bit ⟨i,h⟩)⟩ else s

/-- The set holding the indices of a list that are below the limit. -/
def ofList (is : List Nat) : PinSet := is.foldl add empty

/-- The set of one index, empty when it is past the limit. -/
def single (i : Nat) : PinSet := empty.add i

def toList (s : PinSet) : List Nat := (List.range maxPins).filter s.contains

def isEmpty (s : PinSet) : Bool := s.mask == 0

def size (s : PinSet) : Nat := s.toList.length

def subset (s t : PinSet) : Bool := s.mask &&& ~~~t.mask == 0

def union (s t : PinSet) : PinSet := ⟨s.mask ||| t.mask⟩

def debugText (s : PinSet) : String :=
  "\x7b" ++ ", ".intercalate (s.toList.map toString) ++ "\x7d"

end PinSet

end Tickflow
