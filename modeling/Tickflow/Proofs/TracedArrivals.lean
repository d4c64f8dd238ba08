import Tickflow.Proofs.Firing
import Tickflow.Proofs.Joins
/-! # Arrivals in the trace

A delivery whose node runs records the arrivals its state holds. A fresh token's entry shows
exactly what its slot ends with; a resuming token's may miss what other tokens merged meanwhile,
and a node that is done shows what it fired with.
-/
namespace Tickflow

namespace Delivery

/-- Whether the token resumes the state it parked at an earlier delivery. -/
def resumes (d : Delivery) : Bool := (lookupMember d.token.seq d.state.store.parked).isSome

def shared (d : Delivery) : PinSet := d.state.store.arrivalsAt d.token.node d.token.activation

/-- The shared arrivals of the delivery's slot right after write-back, before the token settles. -/
def written (d : Delivery) : PinSet :=
  (d.state.process d.token d.dt).2.2.store.arrivalsAt d.token.node d.token.activation

theorem ran_inv {d : Delivery} {s : ExecState} (h : d.outcome = some (.ran s)) :
    ∃ n, d.state.graph.node? d.token.node = some n ∧
      d.state.store.isLatched d.token.node d.token.activation = false ∧
      (d.state.invoke n d.token d.dt).1.result.state = s := by
  unfold outcome Instance.outcome at h
  cases hn : d.state.graph.node? d.token.node with
  | none => simp [hn] at h
  | some n =>
    cases hl : d.state.store.isLatched d.token.node d.token.activation with
    | true => simp [hn,hl] at h
    | false => exact ⟨n,rfl,rfl,by simpa [hn,hl] using h⟩

end Delivery

open Delivery in
/-- What the trace reports of a delivery whose node runs, from any instance. The delivery pushes
one entry, for its tick, token and outcome, showing the arrivals the node left in its state. Right
after write-back the slot of the node and activation is gone when the node is done; otherwise it
holds the entry's arrivals, and, when the token resumed its own parked state, also the arrivals
the slot held before the delivery, which other tokens merged in while it was parked. -/
theorem trace_records_left_arrivals (d : Delivery) {s : ExecState} (hs : d.outcome = some (.ran s)) :
    ∃ e : TraceEntry, (d.state.deliver d.token d.dt).2.trace = d.state.trace.map (·.push e) ∧
      e.tick = d.state.tick ∧ e.seq = d.token.seq ∧ e.pin = d.token.pin ∧ e.activation = d.token.activation ∧
      e.outcome = .ran s ∧ e.arrivals = d.left ∧
      (s = .done → d.written = PinSet.empty) ∧
      (s ≠ .done → d.written = if d.resumes then e.arrivals.union d.shared else e.arrivals) := by
  obtain ⟨n,hn,hl,hst⟩ := ran_inv hs
  obtain ⟨m,t,rest,dt⟩ := d
  dsimp only at hn hl hst ⊢
  let out := (m.invoke n t dt).1
  refine ⟨⟨m.tick,t.seq,n.spec.id,t.pin,t.activation,.ran s,
      if out.result.firesOutputs then Instance.checkedOutputs n out.result.outputs else PinSet.empty,
      out.state.arrivals⟩,?_,rfl,rfl,rfl,rfl,rfl,(Instance.left_of_ran dt hn hl rest).symm,
    fun hdone => ?_,fun hnd => ?_⟩
  · rw [Instance.deliver_eq,Instance.settle_trace,Instance.process_trace dt hn hl,hst]
  · rw [written,Instance.process_arrivalsAt dt hn hl,if_pos (hst.trans hdone)]
  · rw [written,Instance.process_arrivalsAt dt hn hl,if_neg (hst ▸ hnd),resumes,shared]
    cases (lookupMember t.seq m.store.parked).isSome
    · exact PinSet.union_empty _
    · rfl

/-- A host join that records each arrival, keeps executing at the first invocation of its type and
waits at every later one. -/
def holdThenWait : ScriptedType where
  id := "test.wait"
  pins := [PinType.flowIn,PinType.flowIn]
  script := [{ state := .executing },{ state := .waiting }]
  counting := .global
  recordArrival := true
  emit := false

/-- A start node wired twice into a node of `holdThenWait`: the first token keeps executing and
parks, the second merges its pin into the slot and waits, and the first resumes at the next tick. -/
def rejoinDoc : Graph where
  id := ⟨11⟩
  name := "rejoin"
  nodes := [{ id := ⟨1⟩,nodeType := "flow.start" },{ id := ⟨2⟩,nodeType := "test.wait" }]
  connections := [⟨⟨1⟩,0,⟨2⟩,0⟩,⟨⟨1⟩,0,⟨2⟩,1⟩]

def rejoinRegistry : Registry := Registry.standard.register (.scripted holdThenWait)

def rejoinGraph : CompiledGraph := (CompiledGraph.compile rejoinRegistry rejoinDoc).toOption.getD default

theorem compile_rejoinDoc : CompiledGraph.compile rejoinRegistry rejoinDoc = .ok rejoinGraph := by
  have h : (CompiledGraph.compile rejoinRegistry rejoinDoc).toBool = true := by decide +kernel
  unfold rejoinGraph
  revert h
  cases CompiledGraph.compile rejoinRegistry rejoinDoc with
  | error e => exact fun h => by cases h
  | ok g => exact fun _ => rfl

def rejoinOps : List HostOp := [HostOp.trigger ⟨1⟩,.tick Binary64.zero,.tick Binary64.zero,.tick Binary64.zero]

/-- The last delivery of that run, with the trace recorded: the first token, resuming at the
third tick. -/
def rejoinResume : Delivery :=
  ((Instance.create rejoinGraph true).runDeliveries rejoinOps).getLastD
    ⟨Instance.create rejoinGraph true,default,[],Binary64.zero⟩

theorem rejoinResume_outcome : rejoinResume.outcome = some (.ran .waiting) := by
  cbv

theorem rejoinResume_mem : rejoinResume ∈ (Instance.create rejoinGraph true).runDeliveries rejoinOps := by
  have hne : ((Instance.create rejoinGraph true).runDeliveries rejoinOps).isEmpty = false := by cbv
  unfold rejoinResume
  rw [List.getLastD_eq_getLast?]
  cases h : ((Instance.create rejoinGraph true).runDeliveries rejoinOps).getLast? with
  | none => rw [List.getLast?_eq_none_iff.mp h] at hne; cases hne
  | some d => exact List.mem_of_getLast? h

open Delivery in
/-- The law at the resuming delivery of the rejoin run. -/
theorem trace_records_left_arrivals_rejoin :
    rejoinResume.outcome = some (.ran .waiting) ∧
      ∃ e : TraceEntry, (rejoinResume.state.deliver rejoinResume.token rejoinResume.dt).2.trace =
          rejoinResume.state.trace.map (·.push e) ∧
        e.tick = rejoinResume.state.tick ∧ e.seq = rejoinResume.token.seq ∧ e.pin = rejoinResume.token.pin ∧
        e.activation = rejoinResume.token.activation ∧ e.outcome = .ran .waiting ∧ e.arrivals = rejoinResume.left ∧
        (ExecState.waiting = .done → rejoinResume.written = PinSet.empty) ∧
        (ExecState.waiting ≠ .done → rejoinResume.written =
          if rejoinResume.resumes then e.arrivals.union rejoinResume.shared else e.arrivals) :=
  ⟨rejoinResume_outcome,trace_records_left_arrivals rejoinResume rejoinResume_outcome⟩

/-- Resuming hides merged arrivals from the trace: in the rejoin run the first token resumes its
parked state at the third tick and waits. Its entry shows only its own pin 0, while write-back
leaves pins 0 and 1 in the slot, pin 1 merged in by the second token while the first was
parked. -/
theorem resumed_entry_omits_merged_arrival :
    CompiledGraph.compile rejoinRegistry rejoinDoc = .ok rejoinGraph ∧
      rejoinResume ∈ (Instance.create rejoinGraph true).runDeliveries rejoinOps ∧
      rejoinResume.outcome = some (.ran .waiting) ∧ rejoinResume.resumes = true ∧
      ((rejoinResume.state.deliver rejoinResume.token rejoinResume.dt).2.trace.bind (·.back?)).map (·.arrivals) =
        some (PinSet.ofList [0]) ∧
      rejoinResume.written = PinSet.ofList [0,1] := by
  refine ⟨compile_rejoinDoc,rejoinResume_mem,rejoinResume_outcome,?_,?_,?_⟩
  · cbv
  · cbv
  · cbv

end Tickflow
