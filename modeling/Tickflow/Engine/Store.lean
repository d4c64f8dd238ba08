import Tickflow.Node.Basic
import Tickflow.Member
import Tickflow.Digraph
/-! # Activation state

The store keeps a *slot* for each pair of activation and node, in key order: the node's shared
state, whether it latched, and since when it waits. It also parks the states of tokens that
keep executing and counts the live tokens of each activation.
-/
namespace Tickflow

/-- The key of a slot: activation first, then node index. -/
structure SlotKey where
  activation : UInt64
  node : Nat
  deriving DecidableEq, Repr, Inhabited

instance : Ord SlotKey := ⟨fun a b => (compare a.activation b.activation).then (compare a.node b.node)⟩

/-- Whether a key lies from `lo` to `hi`, both included, in key order. -/
def SlotKey.within (k lo hi : SlotKey) : Bool := compare lo k != .gt && compare k hi != .gt

/-- A node's shared state in one activation. -/
structure Slot where
  state : ActivationState := {}
  latched : Bool := false
  waitingSince : Option UInt64 := none
  timedOut : Bool := false
  deriving Inhabited

/-- A slot waits while it has a waiting tick and has not latched. -/
def Slot.isWaiting (s : Slot) : Bool := s.waitingSince.isSome && !s.latched

/-- Activation slots, parked states, live counts and the last activation number. -/
structure ActivationStore where
  slots : List (SlotKey × Slot) := []
  parked : List (UInt64 × ActivationState) := []
  live : List (UInt64 × Nat) := []
  lastId : UInt64 := 0
  deriving Inhabited

namespace ActivationStore

def mint (s : ActivationStore) : UInt64 × ActivationStore :=
  let id := s.lastId + 1
  (id,{ s with lastId := id })

def slot? (s : ActivationStore) (node : Nat) (act : UInt64) : Option Slot := lookupMember ⟨act,node⟩ s.slots

/-- The store with a slot changed by `f`, created empty first if needed. -/
def modifySlot (s : ActivationStore) (node : Nat) (act : UInt64) (f : Slot → Slot) : ActivationStore :=
  { s with slots := alterMember ⟨act,node⟩ {} f s.slots }

def slotMut (s : ActivationStore) (node : Nat) (act : UInt64) : Slot × ActivationStore :=
  let s := s.modifySlot node act id
  ((s.slot? node act).getD {},s)

/-- Moves the shared state out of a slot, leaving an empty state; without a slot, an empty
state and no slot created. -/
def takeState (s : ActivationStore) (node : Nat) (act : UInt64) : ActivationState × ActivationStore :=
  match s.slot? node act with
  | some slot => (slot.state,s.modifySlot node act fun sl => { sl with state := {} })
  | none => ({},s)

/-- Puts a state back into its slot, keeping the arrivals recorded there meanwhile. -/
def restore (s : ActivationStore) (node : Nat) (act : UInt64) (state : ActivationState) : ActivationStore :=
  s.modifySlot node act fun sl =>
    { sl with state := { state with arrivals := state.arrivals.union sl.state.arrivals } }

/-- Merges an executing token's arrivals into its slot (created if needed, only when there
are arrivals) and parks its state under its sequence number. -/
def hold (s : ActivationStore) (node : Nat) (act : UInt64) (seq : UInt64) (state : ActivationState) :
    ActivationStore :=
  let s := if state.arrivals.isEmpty then s else
    s.modifySlot node act fun sl =>
      { sl with state := { sl.state with arrivals := sl.state.arrivals.union state.arrivals } }
  { s with parked := insertMember seq state s.parked }

def resume (s : ActivationStore) (seq : UInt64) : Option ActivationState × ActivationStore :=
  match lookupMember seq s.parked with
  | some st => (some st,{ s with parked := eraseMember seq s.parked })
  | none => (none,s)

def isLatched (s : ActivationStore) (node : Nat) (act : UInt64) : Bool :=
  ((s.slot? node act).map (·.latched)).getD false

def retire (s : ActivationStore) (node : Nat) (act : UInt64) : ActivationStore :=
  { s with slots := eraseMember ⟨act,node⟩ s.slots }

def latch (s : ActivationStore) (node : Nat) (act : UInt64) : ActivationStore :=
  s.modifySlot node act fun sl => { sl with latched := true,waitingSince := none }

/-- Records the tick a slot started waiting, unless it already waits. -/
def markWaiting (s : ActivationStore) (node : Nat) (act : UInt64) (tick : UInt64) : ActivationStore :=
  s.modifySlot node act fun sl => { sl with waitingSince := sl.waitingSince.orElse fun _ => some tick }

def tokenCreated (s : ActivationStore) (act : UInt64) : ActivationStore :=
  { s with live := alterMember act 0 (· + 1) s.live }

/-- Counts a consumed token; true exactly when it was the activation's last one, and then the
count is dropped. An activation with no count stays without one. -/
def tokenConsumed (s : ActivationStore) (act : UInt64) : Bool × ActivationStore :=
  match lookupMember act s.live with
  | some n => if n > 1 then (false,{ s with live := insertMember act (n - 1) s.live })
    else (true,{ s with live := eraseMember act s.live })
  | none => (false,s)

def liveTokens (s : ActivationStore) (act : UInt64) : Nat := (lookupMember act s.live).getD 0

/-- Removes the slots whose keys lie from `(act, 0)` to `(act, nodeIndexEnd)`, the range of
the activation's keys, and returns them in key order. -/
def release (s : ActivationStore) (act : UInt64) : List (Nat × Slot) × ActivationStore :=
  let (mine,others) := s.slots.partition (·.1.within ⟨act,0⟩ ⟨act,nodeIndexEnd⟩)
  (mine.map fun (k,sl) => (k.node,sl),{ s with slots := others })

def waiting (s : ActivationStore) : List (UInt64 × Nat × Slot) :=
  (s.slots.filter (·.2.isWaiting)).map fun (k,sl) => (k.activation,k.node,sl)

/-- Empties slots, parked states and counts; returns how many slots and parked states there
were. The activation numbering goes on. -/
def clear (s : ActivationStore) : Nat × ActivationStore :=
  (s.slots.length + s.parked.length,{ s with slots := [],parked := [],live := [] })

def size (s : ActivationStore) : Nat := s.slots.length

end ActivationStore

end Tickflow
