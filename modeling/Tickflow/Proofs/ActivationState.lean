import Tickflow.Proofs.JoinRuns
/-! # What an instance holds of its activations

Slots go with the last live token of their activation, so a stopped instance holds none. A
token absorbed by a latched slot while executing strands its parked state until an abort; the
run theorem describes the parked states exactly, and the strand graph leaves one behind.
-/
namespace Tickflow

theorem Instance.Counted.live_eq_nil {i : Instance} (h : Instance.Counted i []) : i.store.live = [] := by
  cases hl : i.store.live with
  | nil => rfl
  | cons e rest =>
    obtain ⟨a,n⟩ := e
    have h0 := h.counts a
    have hpos := h.positive a
    simp only [ActivationStore.liveTokens,hl,lookupMember_cons,if_true,Option.getD_some,List.countP_nil] at h0 hpos
    exact absurd (by rw [h0]) hpos

theorem Joins.slots_eq_nil {g : CompiledGraph} {past : List Delivery} {m : Instance} (h : Joins g past m []) :
    m.store.slots = [] := by
  cases hs : m.store.slots with
  | nil => rfl
  | cons e rest =>
    obtain ⟨⟨a,n⟩,sl⟩ := e
    have hsl : m.store.slot? n a ≠ none := by
      unfold ActivationStore.slot?
      rw [hs]
      exact lookupMember_ne_none_of_mem List.mem_cons_self
    obtain ⟨u,hu,-⟩ := h.owned n a hsl
    exact absurd hu List.not_mem_nil

/-- What an instance holds of its activations, after any run of a compiled graph that creates
fewer than `2 ^ 64` tokens. Every slot belongs to an activation with a live token. Each running
token has its parked state and no queued token has one; any other parked state was stranded by
a latched slot absorbing its token, and stays parked until the instance aborts. Parked numbers
are below the next sequence number. An instance that is not running holds no slot and no live
count, and an aborted one no parked state either. -/
theorem activation_state_exact {reg : Registry} {doc : Graph} {g : CompiledGraph}
    (hc : CompiledGraph.compile reg doc = .ok g) (recordTrace : Bool) (invocations : List (String × Nat))
    (ops : List HostOp) (hb : ((Instance.create g recordTrace invocations).runBirths ops).length < 2 ^ 64) :
    let D := (Instance.create g recordTrace invocations).runDeliveries ops
    let j := (Instance.create g recordTrace invocations).run ops
    (∀ n a, j.store.slot? n a ≠ none → ∃ u ∈ j.running ++ j.pending, u.activation = a) ∧
    (∀ u ∈ j.running, lookupMember u.seq j.store.parked ≠ none) ∧
    (∀ u ∈ j.pending, lookupMember u.seq j.store.parked = none) ∧
    (∀ k, lookupMember k j.store.parked ≠ none ↔
      (∃ u ∈ j.running, u.seq = k) ∨ j.status ≠ .aborted ∧ ∃ d ∈ D, d.token.seq = k ∧ d.strands) ∧
    (∀ k, lookupMember k j.store.parked ≠ none → k.toNat < j.nextSeq.toNat) ∧
    (j.status ≠ .running → j.store.slots = [] ∧ j.store.live = []) ∧
    (j.status = .aborted → j.store.parked = []) := by
  intro D j
  obtain ⟨r,hr⟩ := CompiledGraph.compile_ranked hc
  have hend := ((Between.create g recordTrace invocations).run hr (CompiledGraph.wellWired_of_compile hc) ops
    (by rw [List.nil_append]; exact hb)).2
  rw [List.nil_append] at hend
  have hp := hend.parks
  refine ⟨hend.joins.owned,hp.running,hp.pending,fun k => ⟨fun hk => ?_,?_⟩,hend.joins.parkedBelow,?_,
    fun ha => (hp.cleared ha).1⟩
  · -- a parked state is a running token's, or one stranded before an abort, which clears it
    rcases hp.stranded k hk with ⟨u,hu,rfl⟩ | hs
    · rcases List.mem_append.mp hu with hu | hu
      · exact Or.inl ⟨u,hu,rfl⟩
      · exact absurd (hp.pending u hu) hk
    · refine Or.inr ⟨fun ha => ?_,hs⟩
      rw [(hp.cleared ha).1] at hk
      exact hk rfl
  · rintro (⟨u,hu,rfl⟩ | ⟨hst,d,hd,rfl,hds⟩)
    · exact hp.running u hu
    · exact hp.kept hst d hd hds
  · intro hs
    have hnil := hend.accounted.live_nil hs
    have hj := hend.joins
    have hl := hend.accounted.ledger.toCounted
    rw [hnil] at hj hl
    exact ⟨hj.slots_eq_nil,hl.live_eq_nil⟩

/-- A host type that keeps executing at its first invocation and latches at every later one. -/
def holdThenLatch : ScriptedType where
  id := "test.hold"
  pins := [PinType.flowIn,PinType.flowIn]
  script := [{ state := .executing },{ state := .latched }]
  counting := .global
  emit := false

/-- A start node wired twice into a node of `holdThenLatch`: the first token keeps executing,
the second latches the slot, and the first is absorbed there at its next delivery. -/
def strandDoc : Graph where
  id := ⟨9⟩
  name := "strand"
  nodes := [{ id := ⟨1⟩,nodeType := "flow.start" },{ id := ⟨2⟩,nodeType := "test.hold" }]
  connections := [⟨⟨1⟩,0,⟨2⟩,0⟩,⟨⟨1⟩,0,⟨2⟩,1⟩]

def strandRegistry : Registry := Registry.standard.register (.scripted holdThenLatch)

def strandGraph : CompiledGraph := (CompiledGraph.compile strandRegistry strandDoc).toOption.getD default

theorem compile_strandDoc : CompiledGraph.compile strandRegistry strandDoc = .ok strandGraph := by
  have h : (CompiledGraph.compile strandRegistry strandDoc).toBool = true := by decide +kernel
  unfold strandGraph
  revert h
  cases CompiledGraph.compile strandRegistry strandDoc with
  | error e => exact fun h => by cases h
  | ok g => exact fun _ => rfl

theorem strandGraph_births :
    ((Instance.create strandGraph false).runBirths
      [HostOp.trigger ⟨1⟩,.tick Binary64.zero,.tick Binary64.zero,.tick Binary64.zero]).length = 3 := by
  cbv

theorem activation_state_exact_strand :
    let ops := [HostOp.trigger ⟨1⟩,.tick Binary64.zero,.tick Binary64.zero,.tick Binary64.zero]
    let D := (Instance.create strandGraph false).runDeliveries ops
    let j := (Instance.create strandGraph false).run ops
    CompiledGraph.compile strandRegistry strandDoc = .ok strandGraph ∧
      ((Instance.create strandGraph false).runBirths ops).length < 2 ^ 64 ∧
      ((∀ n a, j.store.slot? n a ≠ none → ∃ u ∈ j.running ++ j.pending, u.activation = a) ∧
        (∀ u ∈ j.running, lookupMember u.seq j.store.parked ≠ none) ∧
        (∀ u ∈ j.pending, lookupMember u.seq j.store.parked = none) ∧
        (∀ k, lookupMember k j.store.parked ≠ none ↔
          (∃ u ∈ j.running, u.seq = k) ∨ j.status ≠ .aborted ∧ ∃ d ∈ D, d.token.seq = k ∧ d.strands) ∧
        (∀ k, lookupMember k j.store.parked ≠ none → k.toNat < j.nextSeq.toNat) ∧
        (j.status ≠ .running → j.store.slots = [] ∧ j.store.live = []) ∧
        (j.status = .aborted → j.store.parked = [])) := by
  have hb : ((Instance.create strandGraph false).runBirths
      [HostOp.trigger ⟨1⟩,.tick Binary64.zero,.tick Binary64.zero,.tick Binary64.zero]).length < 2 ^ 64 := by
    rw [strandGraph_births]
    decide
  exact ⟨compile_strandDoc,hb,activation_state_exact compile_strandDoc false [] _ hb⟩

/-- A finished instance can hold a parked state: on the strand graph, triggered and ticked three
times, the instance finishes with the first token's state still parked. -/
theorem finished_strand_holds_parked_state :
    let j := (Instance.create strandGraph false).run
      [HostOp.trigger ⟨1⟩,.tick Binary64.zero,.tick Binary64.zero,.tick Binary64.zero]
    j.status = .finished ∧ j.store.parked.length = 1 := by
  cbv

end Tickflow
