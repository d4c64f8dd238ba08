import Tickflow.Proofs.Publishing
import Tickflow.Proofs.Slots
/-! # What one delivery does

`delivery_outcome_exact` says, for every instance and every delivery to a node whose slot has
not latched, which tokens it sends and with which numbers, what it publishes and records, how
it writes the node's state back, and whether its token stays running.
-/
namespace Tickflow

namespace Instance

theorem queued_eq_mapIdx (act seq last : UInt64) (targets : List FlowTarget) :
    queued act seq last targets = targets.mapIdx fun k c =>
      ⟨seq + k.toUInt64,c.node,c.pin,
        if c.backEdge then last + ((targets.take (k + 1)).countP (·.backEdge)).toUInt64 else act⟩ := by
  induction targets generalizing seq last with
  | nil => rfl
  | cons c rest ih =>
    rw [List.mapIdx_cons]
    have hrest : ∀ (last' : UInt64), last' = last + (if c.backEdge then 1 else 0) →
        queued act (seq + 1) last' rest = rest.mapIdx fun k c' =>
          ⟨seq + (k + 1).toUInt64,c'.node,c'.pin,
            if c'.backEdge then last + (((c :: rest).take (k + 1 + 1)).countP (·.backEdge)).toUInt64
            else act⟩ := by
      rintro last' rfl
      rw [ih]
      congr 1
      funext k c'
      have hs : seq + 1 + k.toUInt64 = seq + (k + 1).toUInt64 := by
        simp [UInt64.add_assoc,UInt64.add_comm]
      by_cases hb : c.backEdge <;> simp [hs,hb,List.take_succ_cons,UInt64.add_assoc,UInt64.add_comm]
    by_cases hb : c.backEdge
    · simp only [queued,hb,if_true]
      rw [hrest (last + 1) (by simp [hb])]
      simp [hb]
    · simp only [queued,hb,Bool.false_eq_true,if_false]
      rw [hrest last (by simp [hb])]
      simp [hb]

theorem toList_checkedOutputs (n : CompiledNode) (outputs : PinSet) :
    (checkedOutputs n outputs).toList = outputs.toList.filter (· < n.flowOutputs.length) := by
  unfold checkedOutputs PinSet.toList
  rw [List.filter_filter]
  refine List.filter_congr fun o ho => ?_
  have h16 : o < 16 := List.mem_range.mp ho
  simp [List.mem_filter,h16,maxPins,Bool.and_comm]

theorem slot?_writeBack (store : ActivationStore) (t : Token) (st : ExecState) (after : ActivationState)
    (tick : UInt64) :
    let sl := (store.slot? t.node t.activation).getD {}
    let restored : Slot := { sl with state := { after with arrivals := after.arrivals.union sl.state.arrivals } }
    (writeBack store t st after tick).slot? t.node t.activation =
      match st with
      | .done => none
      | .latched => some { restored with latched := true,waitingSince := none }
      | .waiting => some { restored with waitingSince := sl.waitingSince.orElse fun _ => some tick }
      | .executing =>
        if after.arrivals.isEmpty then store.slot? t.node t.activation
        else some { sl with state := { sl.state with arrivals := sl.state.arrivals.union after.arrivals } } := by
  cases st with
  | done => simp [writeBack,ActivationStore.slot?_retire]
  | latched =>
    simp [writeBack,ActivationStore.latch,ActivationStore.restore,ActivationStore.slot?_modifySlot]
  | waiting =>
    simp [writeBack,ActivationStore.markWaiting,ActivationStore.restore,ActivationStore.slot?_modifySlot]
  | executing =>
    simp only [writeBack,ActivationStore.slot?_hold]
    split
    · rfl
    · simp [ActivationStore.slot?_modifySlot]

theorem foldl_send_trace (i : Instance) (act : UInt64) (targets : List FlowTarget) :
    (targets.foldl (fun i target => i.send act target) i).trace = i.trace := by
  induction targets generalizing i with
  | nil => rfl
  | cons c rest ih => rw [List.foldl_cons,ih,send_eq]

theorem complete_trace (i : Instance) (n : CompiledNode) (t : Token) (out : Outcome) :
    (i.complete n t out).2.trace = i.trace.map (·.push ⟨i.tick,t.seq,n.spec.id,t.pin,t.activation,
      .ran out.result.state,
      if out.result.firesOutputs then checkedOutputs n out.result.outputs else PinSet.empty,out.state.arrivals⟩) := by
  by_cases hf : out.result.firesOutputs
  · simp only [complete,hf,if_true,spawn,foldl_send_trace]
    rfl
  · simp only [complete,hf,Bool.false_eq_true,if_false]
    rfl

theorem invoke_trace (i : Instance) (n : CompiledNode) (t : Token) (dt : Binary64) :
    (i.invoke n t dt).2.trace = i.trace := by
  dsimp only [invoke]
  rw [foldl_emit]

theorem settle_trace (i : Instance) (t : Token) (keep : Bool) : (i.settle t keep).trace = i.trace := by
  unfold settle consume
  split
  · rfl
  · dsimp only
    split
    · obtain ⟨st,ev,h⟩ := releaseActivation_eq { i with store := (i.store.tokenConsumed t.activation).2 } t.activation
      rw [h]
    · rfl

section Ran

variable {m : Instance} {t : Token} (dt : Binary64) {n : CompiledNode}
  (hn : m.graph.node? t.node = some n) (hl : m.store.isLatched t.node t.activation = false)
include hn hl

theorem sentTargets_of_ran : m.sentTargets t dt =
    if (m.invoke n t dt).1.result.firesOutputs then
      firedTargets n (checkedOutputs n (m.invoke n t dt).1.result.outputs)
    else [] := by
  simp [sentTargets,hn,hl]

theorem keeps_of_ran : m.keeps t dt = decide ((m.invoke n t dt).1.result.state = .executing) := by
  by_cases he : (m.invoke n t dt).1.result.state = .executing <;> simp [keeps,outcome,hn,hl,he]

theorem process_trace :
    (m.process t dt).2.2.trace = m.trace.map (·.push ⟨m.tick,t.seq,n.spec.id,t.pin,t.activation,
      .ran (m.invoke n t dt).1.result.state,
      if (m.invoke n t dt).1.result.firesOutputs then checkedOutputs n (m.invoke n t dt).1.result.outputs
      else PinSet.empty,(m.invoke n t dt).1.state.arrivals⟩) := by
  have ht := (invoke_frame m n t dt).1.tick
  have htr := invoke_trace m n t dt
  rcases h1 : m.invoke n t dt with ⟨out,i1⟩
  rw [h1] at ht htr
  simp only [process,hn,hl,Bool.false_eq_true,if_false,h1]
  rw [complete_trace,ht,htr]

end Ran

end Instance

/-- One delivery of a token that finds its slot not latched: the ordinals it fires, the tokens
it queues along their targets (minting across back edges), the completion and trace entry it
records, and what it does to the slot and the token, for each answer of the node. -/
theorem delivery_outcome_exact (m : Instance) (t : Token) (dt : Binary64) {n : CompiledNode}
    (hn : m.graph.node? t.node = some n) (hl : m.store.isLatched t.node t.activation = false) :
    let out := (m.invoke n t dt).1
    let r := out.result
    let D := Instance.checkedOutputs n r.outputs
    let targets := D.toList.flatMap n.targetsOf
    let j := (m.deliver t dt).2
    let s := (m.invoke n t dt).2.store
    let w := (m.process t dt).2.2
    let sl := (s.slot? t.node t.activation).getD {}
    let restored : Slot :=
      { sl with state := { out.state with arrivals := out.state.arrivals.union sl.state.arrivals } }
    let entry (o : PinSet) : TraceEntry :=
      ⟨m.tick,t.seq,n.spec.id,t.pin,t.activation,.ran r.state,o,out.state.arrivals⟩
    D.toList = r.outputs.toList.filter (· < n.flowOutputs.length) ∧
      ((r.state = .done ∨ r.state = .latched) →
        j.pending = m.pending ++ targets.mapIdx (fun k c => ⟨m.nextSeq + k.toUInt64,c.node,c.pin,
          if c.backEdge then m.store.lastId + ((targets.take (k + 1)).countP (·.backEdge)).toUInt64
          else t.activation⟩) ∧
        (m.nextSeq.toNat + targets.length < 2 ^ 64 →
          (j.pending.drop m.pending.length).map (·.seq.toNat) = List.range' m.nextSeq.toNat targets.length) ∧
        (m.deliver t dt).1 = (D.toList.map fun o => (n.targetsOf o).length).sum ∧
        (∃ new, j.events.toList = m.events.toList ++ new ∧
          new.filter EngineEvent.isCompletion = [.nodeCompleted n.spec.id n.spec.nodeType t.activation r.state D m.tick]) ∧
        j.trace = m.trace.map (·.push (entry D))) ∧
      ((r.state = .executing ∨ r.state = .waiting) →
        j.pending = m.pending ∧ (m.deliver t dt).1 = 0 ∧
        (∃ new, j.events.toList = m.events.toList ++ new ∧ new.filter EngineEvent.isCompletion = []) ∧
        j.trace = m.trace.map (·.push (entry PinSet.empty))) ∧
      w.store.slot? t.node t.activation =
        (match r.state with
          | .done => none
          | .latched => some { restored with latched := true,waitingSince := none }
          | .waiting => some { restored with waitingSince := sl.waitingSince.orElse fun _ => some m.tick }
          | .executing =>
            if out.state.arrivals.isEmpty then s.slot? t.node t.activation
            else some { sl with state := { sl.state with arrivals := sl.state.arrivals.union out.state.arrivals } }) ∧
      lookupMember t.seq w.store.parked = (if r.state = .executing then some out.state else none) ∧
      j = w.settle t (decide (r.state = .executing)) ∧
      j.running = m.running ++ (if r.state = .executing then [t] else []) ∧
      j.store.slot? t.node t.activation =
        if r.state ≠ .executing ∧ (w.store.tokenConsumed t.activation).1 = true then none
        else w.store.slot? t.node t.activation := by
  intro out r D targets j s w sl restored entry
  have hsent : m.sentTargets t dt = if r.firesOutputs then targets else [] := Instance.sentTargets_of_ran dt hn hl
  have hkeep : m.keeps t dt = decide (r.state = .executing) := Instance.keeps_of_ran dt hn hl
  obtain ⟨hlen,-,hrun,hpend,-,-,-,-⟩ := Instance.deliver_spec m t dt
  rw [hsent] at hlen hpend
  rw [hkeep] at hrun
  have hj : j = w.settle t (decide (r.state = .executing)) := by
    rw [← hkeep,← (Instance.process_spec m t dt).2.1]
    rfl
  have hev : Instance.Publishes EngineEvent.isCompletion m j
      (if r.firesOutputs then [.nodeCompleted n.spec.id n.spec.nodeType t.activation r.state D m.tick] else []) := by
    have h := (Instance.publishes_process (p := EngineEvent.isCompletion) (fun _ _ => rfl) m t dt).trans
      (Instance.publishes_settle (fun _ _ _ _ => rfl) w t (decide (r.state = .executing)))
    rw [← hj,List.append_nil] at h
    simp only [hn,hl,true_and] at h
    exact h
  have htrace : j.trace = m.trace.map (·.push (entry (if r.firesOutputs then D else PinSet.empty))) := by
    rw [hj,Instance.settle_trace]
    exact Instance.process_trace dt hn hl
  have hfires : r.firesOutputs = true ↔ (r.state = .done ∨ r.state = .latched) := by
    unfold NodeResult.firesOutputs
    cases r.state <;> simp
  refine ⟨Instance.toList_checkedOutputs n r.outputs,fun hd => ?_,fun he => ?_,?_,?_,hj,?_,?_⟩
  · have hf : r.firesOutputs = true := hfires.mpr hd
    rw [if_pos hf] at hlen hpend hev htrace
    refine ⟨?_,fun hb => ?_,?_,?_,htrace⟩
    · rw [hpend,Instance.queued_eq_mapIdx]
    · rw [hpend,List.drop_left]
      exact Instance.queued_seqs _ _ _ _ hb
    · rw [hlen]
      simp [targets,List.length_flatMap]
    · obtain ⟨new,he,hf'⟩ := hev
      exact ⟨new,he,hf'⟩
  · have hf : r.firesOutputs = false := by
      cases h : r.firesOutputs
      · rfl
      · rcases hfires.mp h with h' | h' <;> rcases he with h'' | h'' <;> simp_all
    rw [if_neg (by simp [hf])] at hlen hpend hev htrace
    exact ⟨by simpa [Instance.queued] using hpend,hlen,hev,htrace⟩
  · rw [ActivationStore.slot?_of_slots_eq (Instance.process_store hn hl).1,Instance.slot?_writeBack]
  · rw [Instance.lookup_process_parked dt hn hl,if_pos rfl]
  · rw [hrun]
    by_cases he : r.state = .executing <;> simp [he]
  · -- the token's node is the graph's, so its index lies in the range a release takes
    have hidx : t.node ≤ nodeIndexEnd := Nat.le_of_lt (CompiledGraph.lt_of_node? hn)
    rw [hj,Instance.settle_slot?]
    by_cases he : r.state = .executing <;> simp [he,hidx]


def relayStart : CompiledNode :=
  ⟨{ id := ⟨1⟩,nodeType := "flow.start" },.builtin .start,[0],PinSet.empty,[[⟨1,0,false⟩]],[]⟩

/-- The first delivery of the relay, recording its trace: at the first tick after a trigger, the
start node's token reaches it with its slot not latched. -/
theorem delivery_outcome_exact_relay :
    let m := ((Instance.create relayGraph true).perform (.trigger ⟨1⟩)).tickStart
    let t : Token := ⟨0,0,0,1⟩
    let dt := Binary64.zero
    let n := relayStart
    m.graph.node? t.node = some n ∧ m.store.isLatched t.node t.activation = false ∧
    let out := (m.invoke n t dt).1
    let r := out.result
    let D := Instance.checkedOutputs n r.outputs
    let targets := D.toList.flatMap n.targetsOf
    let j := (m.deliver t dt).2
    let s := (m.invoke n t dt).2.store
    let w := (m.process t dt).2.2
    let sl := (s.slot? t.node t.activation).getD {}
    let restored : Slot :=
      { sl with state := { out.state with arrivals := out.state.arrivals.union sl.state.arrivals } }
    let entry (o : PinSet) : TraceEntry :=
      ⟨m.tick,t.seq,n.spec.id,t.pin,t.activation,.ran r.state,o,out.state.arrivals⟩
    D.toList = r.outputs.toList.filter (· < n.flowOutputs.length) ∧
      ((r.state = .done ∨ r.state = .latched) →
        j.pending = m.pending ++ targets.mapIdx (fun k c => ⟨m.nextSeq + k.toUInt64,c.node,c.pin,
          if c.backEdge then m.store.lastId + ((targets.take (k + 1)).countP (·.backEdge)).toUInt64
          else t.activation⟩) ∧
        (m.nextSeq.toNat + targets.length < 2 ^ 64 →
          (j.pending.drop m.pending.length).map (·.seq.toNat) = List.range' m.nextSeq.toNat targets.length) ∧
        (m.deliver t dt).1 = (D.toList.map fun o => (n.targetsOf o).length).sum ∧
        (∃ new, j.events.toList = m.events.toList ++ new ∧
          new.filter EngineEvent.isCompletion = [.nodeCompleted n.spec.id n.spec.nodeType t.activation r.state D m.tick]) ∧
        j.trace = m.trace.map (·.push (entry D))) ∧
      ((r.state = .executing ∨ r.state = .waiting) →
        j.pending = m.pending ∧ (m.deliver t dt).1 = 0 ∧
        (∃ new, j.events.toList = m.events.toList ++ new ∧ new.filter EngineEvent.isCompletion = []) ∧
        j.trace = m.trace.map (·.push (entry PinSet.empty))) ∧
      w.store.slot? t.node t.activation =
        (match r.state with
          | .done => none
          | .latched => some { restored with latched := true,waitingSince := none }
          | .waiting => some { restored with waitingSince := sl.waitingSince.orElse fun _ => some m.tick }
          | .executing =>
            if out.state.arrivals.isEmpty then s.slot? t.node t.activation
            else some { sl with state := { sl.state with arrivals := sl.state.arrivals.union out.state.arrivals } }) ∧
      lookupMember t.seq w.store.parked = (if r.state = .executing then some out.state else none) ∧
      j = w.settle t (decide (r.state = .executing)) ∧
      j.running = m.running ++ (if r.state = .executing then [t] else []) ∧
      j.store.slot? t.node t.activation =
        if r.state ≠ .executing ∧ (w.store.tokenConsumed t.activation).1 = true then none
        else w.store.slot? t.node t.activation := by
  intro m t dt n
  have hn : m.graph.node? t.node = some n := by
    show ((Instance.create relayGraph true).perform (.trigger ⟨1⟩)).graph.node? 0 = some relayStart
    rw [Instance.perform_graph]
    rfl
  have hl : m.store.isLatched t.node t.activation = false := by decide +kernel
  exact ⟨hn,hl,delivery_outcome_exact m t dt hn hl⟩

end Tickflow
