import Tickflow.Graph.Basic
import Tickflow.Node.Builtin
/-! # The example graph

`init` writes a small graph that shows forks and joins: a start node forks three flows; two
of them reach branches reading the literals `true` and `false`, whose outcomes meet at a join
that waits for both before the final stop; the third flow stops at once.
-/
namespace Tickflow

/-- A node of the example: identifier, built-in kind, name, configuration and position. -/
def exampleNode (id : Uuid) (kind : Builtin) (name : Option String) (config : List (String × Value))
    (x y : Int) : NodeSpec :=
  { id,nodeType := kind.id,name,config,position := some ⟨Binary32.ofInt x,Binary32.ofInt y⟩ }

/-- The output pin of a branch for a condition: the true output first. -/
def branchOutput (condition : Bool) : Nat := 2 + (if condition then 0 else 1)

/-- The example graph, with its own identifier and one for each of its nine nodes in order
(a missing one is nil). -/
def exampleGraph (graphId : Uuid) (nodeIds : List Uuid) : Graph :=
  let id (k : Nat) : Uuid := nodeIds.getD k Uuid.nil
  let wire (a : Nat) (pa : Nat) (b : Nat) (pb : Nat) : Connection := ⟨id a,pa,id b,pb⟩
  { id := graphId
    name := "Fork and join"
    description := some "Forks three flows, joins two branch outcomes and stops the third"
    nodes := [
      exampleNode (id 0) .start none [] 0 100,
      exampleNode (id 1) .fork none [] 150 100,
      exampleNode (id 2) .literal none [("value",.bool true)] 150 0,
      exampleNode (id 3) .literal none [("value",.bool false)] 150 250,
      exampleNode (id 4) .branch (some "A") [] 300 0,
      exampleNode (id 5) .branch (some "B") [] 300 100,
      exampleNode (id 6) .stop (some "C") [] 300 200,
      exampleNode (id 7) .mergeAll none [] 450 50,
      exampleNode (id 8) .stop none [] 600 50]
    connections := [
      wire 0 0 1 0,
      wire 1 1 4 0,
      wire 1 2 5 0,
      wire 1 3 6 0,
      wire 2 0 4 1,
      wire 3 0 5 1,
      wire 4 (branchOutput true) 7 0,
      wire 5 (branchOutput false) 7 1,
      wire 7 3 8 0] }

end Tickflow
