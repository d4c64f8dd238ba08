/-! # Directed graphs over node indices

A directed graph on the nodes `0 … size - 1`, its edges in insertion order and traversed most
recent first. `cycleWitness?` finds a node on a cycle, `backEdges` the edges a depth-first search
meets towards an open node, and `reachable` the nodes reached from the starts; each loop carries
fuel computed from the size of the graph.
-/
namespace Tickflow

/-- The end marker of node indices. Nodes are numbered with 32-bit indices, and the largest,
`u32::MAX`, is no node's index: it closes ranges of indices. -/
def nodeIndexEnd : Nat := 4294967295

/-- A directed graph on `size` nodes. -/
structure Digraph where
  size : Nat
  /-- Edges `(from, to)` in the order they were added. -/
  edges : List (Nat × Nat)
  deriving Inhabited

namespace Digraph

def successors (g : Digraph) (u : Nat) : List Nat :=
  (g.edges.filter (·.1 == u)).reverse.map (·.2)

def predecessors (g : Digraph) (u : Nat) : List Nat :=
  (g.edges.filter (·.2 == u)).reverse.map (·.1)

def marked (t : Array Bool) (u : Nat) : Bool := t.getD u false

/-- The first pass's state: discovered and finished marks, the explicit stack (top first)
and the finished nodes, last finished first. -/
structure FinishState where
  discovered : Array Bool
  finished : Array Bool
  stack : List Nat
  order : List Nat

/-- Pushes the undiscovered successors of `u` in neighbour order, so that the last one ends on
top; a successor equal to `u` is a cycle at `u`. -/
def pushSuccessors (discovered : Array Bool) (u : Nat) : List Nat → List Nat → Except Nat (List Nat)
  | [],stack => .ok stack
  | v :: vs,stack =>
    if v = u then .error u
    else pushSuccessors discovered u vs (if marked discovered v then stack else v :: stack)

/-- Runs the explicit stack until it is empty: a node seen for the first time stays on the
stack with its successors pushed above it; seen again, it is popped and finishes. -/
def drain (g : Digraph) : Nat → FinishState → Except Nat FinishState
  | 0,s => .ok s
  | fuel + 1,s =>
    match s.stack with
    | [] => .ok s
    | u :: rest =>
      if !marked s.discovered u then
        match pushSuccessors s.discovered u (g.successors u) s.stack with
        | .error c => .error c
        | .ok stack => drain g fuel { s with discovered := s.discovered.set! u true,stack }
      else if !marked s.finished u then
        drain g fuel { s with stack := rest,finished := s.finished.set! u true,order := u :: s.order }
      else drain g fuel { s with stack := rest }

/-- Enough steps for `drain` over the whole graph: each node is discovered once and each push
is popped once. -/
def drainFuel (g : Digraph) : Nat := 2 * g.size + g.edges.length + 1

/-- The first pass: searches from every undiscovered node in index order. The result lists
nodes last finished first, or names a node with a self-loop. -/
def finishOrder (g : Digraph) : Except Nat (List Nat) :=
  let init : FinishState :=
    ⟨Array.replicate g.size false,Array.replicate g.size false,[],[]⟩
  let step (acc : Except Nat FinishState) (root : Nat) : Except Nat FinishState :=
    match acc with
    | .error c => .error c
    | .ok s =>
      if marked s.discovered root then .ok s
      else drain g g.drainFuel { s with stack := [root] }
  ((List.range g.size).foldl step (.ok init)).map (·.order)

/-- The second pass: for each node in the given order that is not yet discovered, it is
discovered, and if it has an undiscovered predecessor the search would yield that one next,
which lies on a cycle; the predecessor yielded first is the one of the earliest added edge. -/
def reverseSearch (g : Digraph) : List Nat → Array Bool → Option Nat
  | [],_ => none
  | i :: rest,discovered =>
    if marked discovered i then reverseSearch g rest discovered
    else
      let discovered := discovered.set! i true
      match (g.predecessors i).filter (fun v => !marked discovered v) with
      | [] => reverseSearch g rest discovered
      | vs => vs.getLast?

/-- A node on a cycle, or `none` when the graph is acyclic. -/
def cycleWitness? (g : Digraph) : Option Nat :=
  match g.finishOrder with
  | .error c => some c
  | .ok order => g.reverseSearch order (Array.replicate g.size false)

/-- The recursive search's state: discovered and finished marks and the back edges found. -/
structure SearchState where
  discovered : Array Bool
  finished : Array Bool
  back : List (Nat × Nat)

/-- Visits `u` and, depth first, every undiscovered successor; an edge to a discovered node
that has not finished is a back edge. -/
def visit (g : Digraph) : Nat → Nat → SearchState → SearchState
  | 0,_,s => s
  | fuel + 1,u,s =>
    if marked s.discovered u then s
    else
      let s := { s with discovered := s.discovered.set! u true }
      let s := (g.successors u).foldl (fun s v =>
        if !marked s.discovered v then visit g fuel v s
        else if !marked s.finished v then { s with back := s.back ++ [(u,v)] }
        else s) s
      { s with finished := s.finished.set! u true }

/-- The back edges of a depth-first search started at each node of `starts` in turn,
skipping nodes already visited. -/
def backEdges (g : Digraph) (starts : List Nat) : List (Nat × Nat) :=
  let init : SearchState := ⟨Array.replicate g.size false,Array.replicate g.size false,[]⟩
  (starts.foldl (fun s u => g.visit (g.size + 1) u s) init).back

/-- Marks every node on a path from a node of `stack`, given the marks so far. -/
def reach (g : Digraph) : Nat → List Nat → Array Bool → Array Bool
  | 0,_,seen => seen
  | _ + 1,[],seen => seen
  | fuel + 1,u :: rest,seen =>
    if marked seen u then reach g fuel rest seen
    else reach g fuel (g.successors u ++ rest) (seen.set! u true)

/-- The nodes some path leads to from `starts`, the starts included. -/
def reachable (g : Digraph) (starts : List Nat) : Array Bool :=
  g.reach (g.size + g.edges.length + starts.length + 1) starts (Array.replicate g.size false)

end Digraph

end Tickflow
