import Tickflow.Number.Binary
/-! # Suggesting a near name

A mistyped name is compared with the accepted names by the Jaro similarity in double
precision, and names scoring above `0.7` are suggested, the best last.
-/
namespace Tickflow

/-- The first unmatched place in `[lo, hi)` of `b` holding `c`. -/
def firstFreeMatch (b : Array Char) (taken : Array Bool) (c : Char) (lo hi : Nat) : Option Nat :=
  (List.range' lo (hi - lo)).find? fun j => b[j]? == some c && !(taken[j]?.getD true)

def flaggedChars (cs : List Char) (flags : Array Bool) : List Char :=
  (cs.zipIdx.filter fun (_,i) => flags[i]?.getD false).map (·.1)

/-- The match flags of both names and the number of matches. -/
def jaroMatches (a b : List Char) : Array Bool × Array Bool × Nat :=
  let range := max a.length b.length / 2 - 1
  let bs := b.toArray
  a.zipIdx.foldl (fun (af,bf,m) (c,i) =>
    match firstFreeMatch bs bf c (i - range) (min b.length (i + range + 1)) with
    | some j => (af.set! i true,bf.set! j true,m + 1)
    | none => (af,bf,m))
    (Array.replicate a.length false,Array.replicate b.length false,0)

def jaro (a b : String) : Binary64 :=
  let a := a.toList
  let b := b.toList
  if a.isEmpty ∧ b.isEmpty then Binary64.ofInt 1
  else if a.isEmpty ∨ b.isEmpty then Binary64.zero
  else
    let (af,bf,m) := jaroMatches a b
    if m = 0 then Binary64.zero
    else
      let disagreements := ((flaggedChars a af).zip (flaggedChars b bf)).countP fun (x,y) => x ≠ y
      let t := disagreements / 2
      let sum := ((Binary64.ofRatio false m a.length).add (Binary64.ofRatio false m b.length)).add
        (Binary64.ofRatio false (m - t) m)
      sum.div (Binary64.ofInt 3)

def suggestionThreshold : Binary64 := Binary64.ofRatio false 7 10

/-- The candidates similar enough to `name`, least similar first; equally similar ones keep
their order. -/
def similarNames (name : String) (candidates : List String) : List String :=
  let scored := (candidates.map fun c => (jaro name c,c)).filter fun (s,_) => suggestionThreshold.lt s
  (scored.mergeSort fun x y => x.1.le y.1).map (·.2)

def bestSimilar? (name : String) (candidates : List String) : Option String :=
  (similarNames name candidates).getLast?

end Tickflow
