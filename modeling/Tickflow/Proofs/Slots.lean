import Tickflow.Proofs.Latching
import Tickflow.Pin.Laws
/-! # One slot at a time

Seen from one slot, the joins need its arrivals, the tick it started waiting and whether it
latched. This module says what each store operation and each half of a delivery does to those
three for the slot it touches, and that every other slot stays as it was.
-/
namespace Tickflow

namespace ActivationStore

variable (s : ActivationStore)

def arrivalsAt (n : Nat) (a : UInt64) : PinSet := ((s.slot? n a).map (·.state.arrivals)).getD PinSet.empty

def sinceAt (n : Nat) (a : UInt64) : Option UInt64 := (s.slot? n a).bind (·.waitingSince)

/-- Whether a slot waits: it has a waiting tick and has not latched. -/
def waitingAt (n : Nat) (a : UInt64) : Bool := ((s.slot? n a).map (·.isWaiting)).getD false

theorem waitingAt_eq (n : Nat) (a : UInt64) : s.waitingAt n a = ((s.sinceAt n a).isSome && !s.isLatched n a) := by
  unfold waitingAt sinceAt isLatched Slot.isWaiting
  cases s.slot? n a <;> rfl

theorem slot?_modifySlot (node : Nat) (act : UInt64) (f : Slot → Slot) (n : Nat) (a : UInt64) :
    (s.modifySlot node act f).slot? n a =
      if node = n ∧ act = a then some (f ((s.slot? n a).getD {})) else s.slot? n a := by
  unfold slot? modifySlot
  rw [lookupMember_alterMember]
  by_cases h : node = n ∧ act = a
  · obtain ⟨rfl,rfl⟩ := h
    simp
  · have hk : (⟨act,node⟩ : SlotKey) ≠ ⟨a,n⟩ := fun e => h ⟨(SlotKey.mk.inj e).2,(SlotKey.mk.inj e).1⟩
    simp only [hk,h,if_false]

theorem slot?_retire (node : Nat) (act : UInt64) (n : Nat) (a : UInt64) :
    (s.retire node act).slot? n a = if node = n ∧ act = a then none else s.slot? n a := by
  unfold slot? retire
  rw [lookupMember_eraseMember]
  by_cases h : node = n ∧ act = a
  · obtain ⟨rfl,rfl⟩ := h
    simp
  · have hk : (⟨act,node⟩ : SlotKey) ≠ ⟨a,n⟩ := fun e => h ⟨(SlotKey.mk.inj e).2,(SlotKey.mk.inj e).1⟩
    simp only [hk,h,if_false]

theorem slot?_takeState (node : Nat) (act : UInt64) (n : Nat) (a : UInt64) :
    (s.takeState node act).2.slot? n a =
      if node = n ∧ act = a then (s.slot? n a).map (fun sl => { sl with state := {} }) else s.slot? n a := by
  unfold takeState
  split
  · rename_i sl hsl
    rw [slot?_modifySlot]
    by_cases h : node = n ∧ act = a
    · obtain ⟨rfl,rfl⟩ := h
      simp [hsl]
    · simp only [h,if_false]
  · rename_i hsl
    by_cases h : node = n ∧ act = a
    · obtain ⟨rfl,rfl⟩ := h
      simp [hsl]
    · simp only [h,if_false]

theorem takeState_fst (node : Nat) (act : UInt64) :
    (s.takeState node act).1 = ((s.slot? node act).map (·.state)).getD {} := by
  unfold takeState
  split <;> simp_all

@[simp] theorem resume_slots (seq : UInt64) : (s.resume seq).2.slots = s.slots := by
  unfold resume
  split <;> rfl

theorem resume_fst (seq : UInt64) : (s.resume seq).1 = lookupMember seq s.parked := by
  unfold resume
  split <;> simp_all

theorem lookup_resume (seq k : UInt64) :
    lookupMember k (s.resume seq).2.parked = if seq = k then none else lookupMember k s.parked := by
  unfold resume
  split
  · simp
  · rename_i hnone
    by_cases h : seq = k
    · subst h
      simp [hnone]
    · simp [h]

@[simp] theorem takeState_parked (node : Nat) (act : UInt64) : (s.takeState node act).2.parked = s.parked := by
  unfold takeState
  split <;> rfl

@[simp] theorem restore_parked (node : Nat) (act : UInt64) (st : ActivationState) :
    (s.restore node act st).parked = s.parked := rfl
@[simp] theorem latch_parked (node : Nat) (act : UInt64) : (s.latch node act).parked = s.parked := rfl
@[simp] theorem markWaiting_parked (node : Nat) (act : UInt64) (tick : UInt64) :
    (s.markWaiting node act tick).parked = s.parked := rfl
@[simp] theorem retire_parked (node : Nat) (act : UInt64) : (s.retire node act).parked = s.parked := rfl
@[simp] theorem release_parked (act : UInt64) : (s.release act).2.parked = s.parked := rfl

theorem lookup_hold (node : Nat) (act seq : UInt64) (st : ActivationState) (k : UInt64) :
    lookupMember k (s.hold node act seq st).parked = if seq = k then some st else lookupMember k s.parked := by
  unfold hold
  split <;> simp

theorem slot?_of_slots_eq {s s' : ActivationStore} (h : s'.slots = s.slots) (n : Nat) (a : UInt64) :
    s'.slot? n a = s.slot? n a := by
  unfold slot?
  rw [h]

theorem slot?_hold (node : Nat) (act seq : UInt64) (st : ActivationState) (n : Nat) (a : UInt64) :
    (s.hold node act seq st).slot? n a =
      if st.arrivals.isEmpty then s.slot? n a
      else (s.modifySlot node act fun sl =>
        { sl with state := { sl.state with arrivals := sl.state.arrivals.union st.arrivals } }).slot? n a := by
  unfold hold
  split <;> rfl

theorem arrivals_getD (o : Option Slot) :
    (o.getD {}).state.arrivals = (o.map (·.state.arrivals)).getD PinSet.empty := by
  cases o <;> rfl

section SameSlot

variable {s s' : ActivationStore} {n : Nat} {a : UInt64}

theorem arrivalsAt_of_slot?_eq (h : s'.slot? n a = s.slot? n a) : s'.arrivalsAt n a = s.arrivalsAt n a := by
  unfold arrivalsAt
  rw [h]

theorem sinceAt_of_slot?_eq (h : s'.slot? n a = s.slot? n a) : s'.sinceAt n a = s.sinceAt n a := by
  unfold sinceAt
  rw [h]

theorem isLatched_of_slot?_eq (h : s'.slot? n a = s.slot? n a) : s'.isLatched n a = s.isLatched n a := by
  unfold isLatched
  rw [h]

theorem waitingAt_of_slot?_eq (h : s'.slot? n a = s.slot? n a) : s'.waitingAt n a = s.waitingAt n a := by
  unfold waitingAt
  rw [h]

theorem views_of_slot?_none (h : s.slot? n a = none) :
    s.arrivalsAt n a = PinSet.empty ∧ s.sinceAt n a = none ∧ s.isLatched n a = false := by
  unfold arrivalsAt sinceAt isLatched
  rw [h]
  exact ⟨rfl,rfl,rfl⟩

end SameSlot

end ActivationStore

namespace Instance

open ActivationStore

theorem writeBack_slot?_of_ne (store : ActivationStore) (t : Token) (st : ExecState) (after : ActivationState)
    (tick : UInt64) {n : Nat} {a : UInt64} (h : ¬(t.node = n ∧ t.activation = a)) :
    (writeBack store t st after tick).slot? n a = store.slot? n a := by
  cases st with
  | done => simp [writeBack,slot?_retire,h]
  | latched => simp [writeBack,latch,restore,slot?_modifySlot,h]
  | waiting => simp [writeBack,markWaiting,restore,slot?_modifySlot,h]
  | executing =>
    simp only [writeBack,slot?_hold]
    split
    · rfl
    · simp [slot?_modifySlot,h]

theorem arrivalsAt_writeBack (store : ActivationStore) (t : Token) (st : ExecState) (after : ActivationState)
    (tick : UInt64) :
    (writeBack store t st after tick).arrivalsAt t.node t.activation =
      if st = .done then PinSet.empty else after.arrivals.union (store.arrivalsAt t.node t.activation) := by
  cases st with
  | done => simp [writeBack,arrivalsAt,slot?_retire]
  | latched => simp [writeBack,arrivalsAt,latch,restore,slot?_modifySlot,arrivals_getD]
  | waiting => simp [writeBack,arrivalsAt,markWaiting,restore,slot?_modifySlot,arrivals_getD]
  | executing =>
    simp only [writeBack,reduceCtorEq,if_false]
    apply PinSet.ext_contains
    intro p
    rw [PinSet.contains_union]
    unfold arrivalsAt
    rw [slot?_hold]
    split
    · rename_i he
      rw [(PinSet.isEmpty_iff _).mp he p,Bool.false_or]
    · simp only [slot?_modifySlot,and_self,if_true,Option.map_some,Option.getD_some,PinSet.contains_union,
        arrivals_getD]
      rw [Bool.or_comm]

theorem sinceAt_writeBack (store : ActivationStore) (t : Token) (st : ExecState) (after : ActivationState)
    (tick : UInt64) :
    (writeBack store t st after tick).sinceAt t.node t.activation =
      match st with
      | .done | .latched => none
      | .waiting => (store.sinceAt t.node t.activation).orElse fun _ => some tick
      | .executing => store.sinceAt t.node t.activation := by
  cases st with
  | done => simp [writeBack,sinceAt,slot?_retire]
  | latched => simp [writeBack,sinceAt,latch,restore,slot?_modifySlot]
  | waiting =>
    simp only [writeBack,sinceAt,markWaiting,restore,slot?_modifySlot,and_self,if_true,Option.bind_some]
    cases store.slot? t.node t.activation <;> rfl
  | executing =>
    simp only [writeBack,sinceAt,slot?_hold]
    split
    · rfl
    · simp only [slot?_modifySlot,and_self,if_true,Option.bind_some]
      cases store.slot? t.node t.activation <;> rfl

theorem isLatched_writeBack (store : ActivationStore) (t : Token) (st : ExecState) (after : ActivationState)
    (tick : UInt64) :
    (writeBack store t st after tick).isLatched t.node t.activation =
      match st with
      | .done => false
      | .latched => true
      | .waiting | .executing => store.isLatched t.node t.activation := by
  cases st with
  | done => simp [writeBack,isLatched_retire]
  | latched => simp [writeBack,isLatched_latch]
  | waiting => simp [writeBack,isLatched_markWaiting,isLatched_restore]
  | executing => simp [writeBack,isLatched_hold]

/-- The state a delivery hands its node: the token's own parked state when it resumes, else the
shared state of its slot, empty without a slot. -/
def handed (m : Instance) (t : Token) : ActivationState :=
  match lookupMember t.seq m.store.parked with
  | some st => st
  | none => ((m.store.slot? t.node t.activation).map (·.state)).getD {}

theorem invoke_eq (m : Instance) (node : CompiledNode) (t : Token) (dt : Binary64) :
    (m.invoke node t dt).1 = node.kind.update ⟨node.spec,t.pin,t.activation,node.connectedInputs,dt⟩
      (dataAccess m.graph m.hostVariables (m.graph.nodeCount + 1) t.node) (m.handed t)
      ((lookupMember node.kind.id m.invocations).getD 0 + 1) ∧
    (m.invoke node t dt).2.store =
      match lookupMember t.seq m.store.parked with
      | some _ => (m.store.resume t.seq).2
      | none => (m.store.takeState t.node t.activation).2 := by
  have hr := m.store.resume_fst t.seq
  unfold invoke handed
  rcases hres : m.store.resume t.seq with ⟨parked,store⟩
  rw [hres] at hr
  dsimp only at hr ⊢
  subst hr
  cases hp : lookupMember t.seq m.store.parked with
  | some st => exact ⟨rfl,by rw [foldl_emit]⟩
  | none =>
    have hs : store = m.store := by
      unfold resume at hres
      rw [hp] at hres
      exact (Prod.mk.inj hres).2.symm
    subst hs
    exact ⟨by rw [takeState_fst],by rw [foldl_emit]⟩

theorem arrivalsAt_invoke (m : Instance) (node : CompiledNode) (t : Token) (dt : Binary64) :
    (m.invoke node t dt).2.store.arrivalsAt t.node t.activation =
      if (lookupMember t.seq m.store.parked).isSome then m.store.arrivalsAt t.node t.activation
      else PinSet.empty := by
  rw [(invoke_eq m node t dt).2]
  cases hp : lookupMember t.seq m.store.parked with
  | some st => exact arrivalsAt_of_slot?_eq (slot?_of_slots_eq (resume_slots _ _) _ _)
  | none =>
    dsimp only
    unfold arrivalsAt
    rw [slot?_takeState,if_pos ⟨rfl,rfl⟩]
    cases m.store.slot? t.node t.activation <;> rfl

theorem sinceAt_invoke (m : Instance) (node : CompiledNode) (t : Token) (dt : Binary64) (n : Nat) (a : UInt64) :
    (m.invoke node t dt).2.store.sinceAt n a = m.store.sinceAt n a := by
  rw [(invoke_eq m node t dt).2]
  cases hp : lookupMember t.seq m.store.parked with
  | some st => exact sinceAt_of_slot?_eq (slot?_of_slots_eq (resume_slots _ _) _ _)
  | none =>
    dsimp only
    unfold sinceAt
    rw [slot?_takeState]
    split
    · cases m.store.slot? n a <;> rfl
    · rfl

theorem lookup_invoke_parked (m : Instance) (node : CompiledNode) (t : Token) (dt : Binary64) (k : UInt64) :
    lookupMember k (m.invoke node t dt).2.store.parked = if t.seq = k then none else lookupMember k m.store.parked := by
  rw [(invoke_eq m node t dt).2]
  cases hp : lookupMember t.seq m.store.parked with
  | some st => exact lookup_resume _ _ _
  | none =>
    dsimp only
    rw [takeState_parked]
    by_cases h : t.seq = k
    · subst h
      rw [hp,if_pos rfl]
    · rw [if_neg h]

theorem process_store {m : Instance} {t : Token} {dt : Binary64} {node : CompiledNode}
    (hn : m.graph.node? t.node = some node) (hl : m.store.isLatched t.node t.activation = false) :
    let out := (m.invoke node t dt).1
    let s := writeBack (m.invoke node t dt).2.store t out.result.state out.state m.tick
    (m.process t dt).2.2.store.slots = s.slots ∧ (m.process t dt).2.2.store.parked = s.parked := by
  obtain ⟨hf1,-,-,-,-,-⟩ := invoke_frame m node t dt
  rcases h1 : m.invoke node t dt with ⟨out,i1⟩
  rw [h1] at hf1
  obtain ⟨k,-,-,-,-,hk,hc⟩ := complete_eq i1 node t out
  obtain ⟨-,-,-,-,-,-,-,hslots,hparked⟩ := foldl_send k t.activation
    (if out.result.firesOutputs then firedTargets node (checkedOutputs node out.result.outputs) else [])
  dsimp only at hc hslots hparked ⊢
  simp only [process,hn,hl,Bool.false_eq_true,if_false,h1,hc]
  rw [hslots,hparked,hk,hf1.tick]
  exact ⟨rfl,rfl⟩

theorem process_store_of_absorbed {m : Instance} {t : Token} {dt : Binary64}
    (h : m.graph.node? t.node = none ∨ m.store.isLatched t.node t.activation = true) :
    (m.process t dt).2.2.store = m.store := by
  unfold process
  split
  · rfl
  · rename_i node hn
    rcases h with h | h
    · rw [hn] at h
      cases h
    · rw [if_pos h]
      rfl

theorem process_slot?_of_ne (m : Instance) (t : Token) (dt : Binary64) {n : Nat} {a : UInt64}
    (h : ¬(t.node = n ∧ t.activation = a)) : (m.process t dt).2.2.store.slot? n a = m.store.slot? n a := by
  cases hn : m.graph.node? t.node with
  | none => rw [process_store_of_absorbed (Or.inl hn)]
  | some node =>
    cases hl : m.store.isLatched t.node t.activation
    · rw [slot?_of_slots_eq (process_store hn hl).1,writeBack_slot?_of_ne _ _ _ _ _ h,(invoke_eq m node t dt).2]
      split
      · exact slot?_of_slots_eq (resume_slots _ _) n a
      · rw [slot?_takeState,if_neg h]
    · rw [process_store_of_absorbed (Or.inr hl)]

section Ran

variable {m : Instance} {t : Token} (dt : Binary64) {node : CompiledNode}
  (hn : m.graph.node? t.node = some node) (hl : m.store.isLatched t.node t.activation = false)
include hn hl

theorem process_arrivalsAt :
    (m.process t dt).2.2.store.arrivalsAt t.node t.activation =
      if (m.invoke node t dt).1.result.state = .done then PinSet.empty
      else (m.invoke node t dt).1.state.arrivals.union
        (if (lookupMember t.seq m.store.parked).isSome then m.store.arrivalsAt t.node t.activation
          else PinSet.empty) := by
  rw [arrivalsAt_of_slot?_eq (slot?_of_slots_eq (process_store hn hl).1 _ _),arrivalsAt_writeBack,
    arrivalsAt_invoke]

theorem process_sinceAt :
    (m.process t dt).2.2.store.sinceAt t.node t.activation =
      match (m.invoke node t dt).1.result.state with
      | .done | .latched => none
      | .waiting => (m.store.sinceAt t.node t.activation).orElse fun _ => some m.tick
      | .executing => m.store.sinceAt t.node t.activation := by
  rw [sinceAt_of_slot?_eq (slot?_of_slots_eq (process_store hn hl).1 _ _),sinceAt_writeBack,sinceAt_invoke]

theorem lookup_process_parked (k : UInt64) :
    lookupMember k (m.process t dt).2.2.store.parked =
      if t.seq = k then
        (if (m.invoke node t dt).1.result.state = .executing then some (m.invoke node t dt).1.state else none)
      else lookupMember k m.store.parked := by
  rw [(process_store hn hl).2]
  cases hs : (m.invoke node t dt).1.result.state with
  | executing =>
    simp only [writeBack,lookup_hold,lookup_invoke_parked,if_true]
    split <;> rfl
  | done => simp [writeBack,lookup_invoke_parked]
  | latched => simp [writeBack,latch,restore,lookup_invoke_parked]
  | waiting => simp [writeBack,markWaiting,restore,lookup_invoke_parked]

end Ran

/-- Settling consumes the last token of an activation only by releasing all its slots; it
leaves every other slot as it was. -/
theorem settle_slot? (k : Instance) (t : Token) (keep : Bool) (n : Nat) (a : UInt64) :
    (k.settle t keep).store.slot? n a =
      if !keep && (k.store.tokenConsumed t.activation).1 && a == t.activation && decide (n ≤ nodeIndexEnd) then none
      else k.store.slot? n a := by
  unfold settle
  cases keep
  · simp only [Bool.false_eq_true,if_false,consume]
    split
    · rename_i hlast
      rw [(releaseActivation_frame _ t.activation).2.2.2.2,slot?_release]
      by_cases ha : a = t.activation
      · subst ha
        simp [hlast,slot?_of_slots_eq (tokenConsumed_slots _ _)]
      · simp [hlast,ha,Ne.symm ha,slot?_of_slots_eq (tokenConsumed_slots _ _)]
    · rename_i hlast
      simp [hlast,slot?_of_slots_eq (tokenConsumed_slots _ _)]
  · simp

end Instance


end Tickflow
