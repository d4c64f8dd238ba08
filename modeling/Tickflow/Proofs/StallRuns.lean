import Tickflow.Proofs.FullMerge
/-! # Stall diagnostics along a run

Over any run of a compiled graph the stalled joins, and the `JoinStalled` events, are exactly
`stallsFrom` of the deliveries, and each join is reported at most once. At a full merge a join
waits exactly while its window has an arrival, and what has arrived never covers its inputs.
-/
namespace Tickflow

section Reported

variable {g : CompiledGraph}

theorem activation_of_mem_stallsFrom {past D : List Delivery} {s : StalledJoin} (h : s ∈ stallsFrom g past D) :
    ∃ d ∈ D, d.drains = true ∧ s.activation = d.token.activation := by
  induction D generalizing past with
  | nil => cases h
  | cons d rest ih =>
    rw [stallsFrom] at h
    rcases List.mem_append.mp h with h | h
    · unfold Delivery.stalls at h
      split at h
      · rename_i hdr
        obtain ⟨n,-,rfl⟩ := List.mem_map.mp h
        exact ⟨d,List.mem_cons_self,hdr,rfl⟩
      · cases h
    · obtain ⟨e,he,hdr,ha⟩ := ih h
      exact ⟨e,List.mem_cons_of_mem _ he,hdr,ha⟩

variable (hinj : ∀ i j, i < g.nodeCount → j < g.nodeCount → g.nodeId i = g.nodeId j → i = j)
include hinj

theorem nodup_stalls (past : List Delivery) (d : Delivery) :
    ((d.stalls g past).map fun s => (s.node,s.activation)).Nodup := by
  unfold Delivery.stalls
  split
  · rw [List.map_map]
    refine List.Nodup.map_on (fun x hx y hy hxy => ?_) (List.nodup_range.filter _)
    have hx' := List.mem_range.mp (List.mem_filter.mp hx).1
    have hy' := List.mem_range.mp (List.mem_filter.mp hy).1
    exact hinj x y hx' hy' (Prod.mk.inj hxy).1
  · exact List.nodup_nil

theorem nodup_stallsFrom {past D : List Delivery}
    (hdis : ∀ (pre : List Delivery) (d : Delivery) (mid : List Delivery) (e : Delivery) (post : List Delivery),
      D = pre ++ d :: mid ++ e :: post → d.drains = true → e.drains = true → d.token.activation ≠ e.token.activation) :
    ((stallsFrom g past D).map fun s => (s.node,s.activation)).Nodup := by
  induction D using List.reverseRecOn with
  | nil => exact List.nodup_nil
  | append_singleton D e ih =>
    rw [stallsFrom_append,List.map_append,List.nodup_append]
    refine ⟨ih fun pre d mid e' post hD => hdis pre d mid e' (post ++ [e]) (by rw [hD]; simp),
      nodup_stalls hinj _ e,?_⟩
    -- an earlier stall names an earlier drain, which is of another activation
    intro x hx y hy hxy
    obtain ⟨s,hs,rfl⟩ := List.mem_map.mp hx
    obtain ⟨s',hs',rfl⟩ := List.mem_map.mp hy
    obtain ⟨d,hd,hdr,ha⟩ := activation_of_mem_stallsFrom hs
    unfold Delivery.stalls at hs'
    split at hs'
    · rename_i her
      obtain ⟨n,-,rfl⟩ := List.mem_map.mp hs'
      obtain ⟨pre,mid,rfl⟩ := List.append_of_mem hd
      exact hdis pre d mid e [] (by simp) hdr her (ha ▸ (Prod.mk.inj hxy).2)
    · cases hs'

end Reported

/-- A waiting join of node `n` in activation `a` after the deliveries `past`, read at `tick`: its
window's arrivals, its node's connected inputs, and the ticks since its window first waited. -/
def waitingJoinAt (g : CompiledGraph) (past : List Delivery) (tick a : UInt64) (n : Nat) : WaitingJoin :=
  ⟨g.nodeId n,a,arrivedIn (window n a past),((g.node? n).map (·.connectedInputs)).getD PinSet.empty,
    tick - (firstWait (window n a past)).getD tick⟩

theorem Joins.waitingJoins_eq {g : CompiledGraph} {past : List Delivery} {i : Instance} {live : List Token}
    (h : Joins g past i live) (hs : i.store.Sorted) (hg : i.graph = g) :
    ∃ K : List (UInt64 × Nat), K.Pairwise (fun x y => x.1 < y.1 ∨ x.1 = y.1 ∧ x.2 < y.2) ∧
      (∀ a n, (a,n) ∈ K ↔ (∃ u ∈ live, u.activation = a) ∧ Waits n a past = true) ∧
      i.waitingJoins = K.map fun k => waitingJoinAt g past i.tick k.1 k.2 := by
  have hslot : ∀ e ∈ i.store.slots, i.store.slot? e.1.node e.1.activation = some e.2 :=
    fun e he => Ascending.lookupMember_of_mem hs he
  refine ⟨(i.store.slots.filter (·.2.isWaiting)).map fun e => (e.1.activation,e.1.node),?_,?_,?_⟩
  · rw [List.pairwise_map]
    exact (Ascending.filter hs _).imp fun hxy => (SlotKey.compare_lt_iff _ _).mp hxy
  · intro a n
    constructor
    · intro hm
      obtain ⟨e,he,hae⟩ := List.mem_map.mp hm
      obtain ⟨he,hw⟩ := List.mem_filter.mp he
      obtain ⟨rfl,rfl⟩ := Prod.mk.inj hae
      have hsl := hslot e he
      have hlive := h.owned _ _ (by rw [hsl]; exact Option.some_ne_none _)
      refine ⟨hlive,?_⟩
      rw [← (h.slots _ _ hlive).waitingAt_eq_waits]
      unfold ActivationStore.waitingAt
      rw [hsl]
      exact hw
    · rintro ⟨hlive,hw⟩
      rw [← (h.slots n a hlive).waitingAt_eq_waits] at hw
      unfold ActivationStore.waitingAt at hw
      cases hsl : i.store.slot? n a with
      | none =>
        rw [hsl] at hw
        cases hw
      | some sl =>
        rw [hsl] at hw
        exact List.mem_map.mpr ⟨(⟨a,n⟩,sl),List.mem_filter.mpr ⟨mem_of_lookupMember hsl,hw⟩,rfl⟩
  · unfold Instance.waitingJoins ActivationStore.waiting
    rw [List.map_map,List.map_map]
    refine List.map_congr_left fun e he => ?_
    obtain ⟨he,hw⟩ := List.mem_filter.mp he
    have hsl := hslot e he
    have j := h.slots e.1.node e.1.activation (h.owned _ _ (by rw [hsl]; exact Option.some_ne_none _))
    have hlat : i.store.isLatched e.1.node e.1.activation = false := by
      unfold ActivationStore.isLatched
      rw [hsl]
      simp only [Slot.isWaiting,Bool.and_eq_true,Bool.not_eq_true'] at hw
      simp [hw.2]
    have harr : e.2.state.arrivals = arrivedIn (window e.1.node e.1.activation past) := by
      rw [← j.arrived]
      unfold ActivationStore.arrivalsAt
      rw [hsl]
      rfl
    have hsince : e.2.waitingSince = firstWait (window e.1.node e.1.activation past) := by
      rw [← j.since hlat]
      unfold ActivationStore.sinceAt
      rw [hsl]
      rfl
    simp only [Function.comp,waitingJoinAt,harr,hsince,hg]

theorem window_append_of_not_hits {n : Nat} {a : UInt64} (past : List Delivery) {more : List Delivery}
    (h : ∀ d ∈ more, d.hits n a = false) : window n a (past ++ more) = window n a past := by
  induction more using List.reverseRecOn with
  | nil => rw [List.append_nil]
  | append_singleton more d ih =>
    rw [← List.append_assoc,window_append,h d (List.mem_append_right _ (List.mem_singleton_self d)),
      ih fun e he => h e (List.mem_append_left _ he)]
    rfl

theorem fullMerge_waits {node : CompiledNode} {n : Nat} {a : UInt64} {D : List Delivery}
    (hlaw : ∀ (pre : List Delivery) (e : Delivery) (post : List Delivery), D = pre ++ e :: post →
      e.hits n a = true →
      if covers node (window n a pre ++ [e]) then e.outcome = some (.ran .done) else e.outcome = some (.ran .waiting)) :
    (Waits n a D = true ↔ window n a D ≠ []) ∧ (window n a D ≠ [] → covers node (window n a D) = false) := by
  have hout : ∀ d ∈ D, d.hits n a = true → d.outcome = some (.ran .done) ∨ d.outcome = some (.ran .waiting) := by
    intro d hd hh
    obtain ⟨pre,post,hD⟩ := List.append_of_mem hd
    have hl := hlaw pre d post hD hh
    split at hl
    · exact Or.inl hl
    · exact Or.inr hl
  have hwin : ∀ d ∈ window n a D, d.outcome = some (.ran .waiting) := by
    intro d hd
    obtain ⟨hp,hh,hdone⟩ := mem_window n a hd
    exact (hout d hp hh).resolve_left hdone
  refine ⟨?_,?_⟩
  · have hnone : (D.all fun d => !(d.hits n a && d.outcome == some (.ran .latched))) = true := by
      rw [List.all_eq_true]
      intro d hd
      cases hh : d.hits n a
      · rfl
      · rcases hout d hd hh with ho | ho <;> simp [ho]
    unfold Waits
    rw [hnone,Bool.and_true,List.any_eq_true]
    constructor
    · rintro ⟨d,hd,-⟩ hnil
      rw [hnil] at hd
      cases hd
    · intro hne
      obtain ⟨d,hd⟩ := List.exists_mem_of_ne_nil _ hne
      exact ⟨d,hd,by simp [hwin d hd]⟩
  · intro hne
    obtain ⟨d,hd⟩ := List.exists_mem_of_ne_nil _ hne
    obtain ⟨pre,e,post,hD,he,hpost⟩ :=
      split_last (p := fun x => x.hits n a = true) ⟨d,(mem_window n a hd).1,(mem_window n a hd).2.1⟩
    have hpost' : ∀ x ∈ post, x.hits n a = false := fun x hx => by simpa using hpost x hx
    have hW : window n a D = window n a (pre ++ [e]) := by
      rw [hD,← List.singleton_append,← List.append_assoc,window_append_of_not_hits _ hpost']
    rw [hW] at hne ⊢
    rw [window_append,if_pos he] at hne ⊢
    have hnd : e.outcome ≠ some (.ran .done) := fun ho => hne (by rw [if_pos ho])
    rw [if_neg hnd]
    have hl := hlaw pre e post hD he
    by_contra hc
    rw [Bool.not_eq_false] at hc
    rw [if_pos hc] at hl
    exact hnd hl

theorem CompiledGraph.eq_of_nodeId_eq {reg : Registry} {doc : Graph} {g : CompiledGraph}
    (hc : CompiledGraph.compile reg doc = .ok g) {i j : Nat} (hi : i < g.nodeCount) (hj : j < g.nodeCount)
    (h : g.nodeId i = g.nodeId j) : i = j := by
  have hni : g.node? i = some g.nodes[i] := Array.getElem?_eq_getElem hi
  have hnj : g.node? j = some g.nodes[j] := Array.getElem?_eq_getElem hj
  unfold CompiledGraph.nodeId at h
  rw [hni,hnj] at h
  exact CompiledGraph.nodeId_injective hc hni hnj (by simpa using h)

/-- Over any run of a compiled graph, the stalled joins and their `JoinStalled` events are
exactly `stallsFrom` of the deliveries, each join at most once; the waiting joins are those of
live activations, and a full merge waits exactly while its window has an uncovering arrival. -/
theorem stalled_joins_exact {reg : Registry} {doc : Graph} {g : CompiledGraph}
    (hc : CompiledGraph.compile reg doc = .ok g) (recordTrace : Bool) (invocations : List (String × Nat))
    (ops : List HostOp) (hb : ((Instance.create g recordTrace invocations).runBirths ops).length < 2 ^ 64) :
    let D := (Instance.create g recordTrace invocations).runDeliveries ops
    let j := (Instance.create g recordTrace invocations).run ops
    j.stalled.toList = stallsFrom g [] D ∧
      j.events.toList.filter EngineEvent.isJoinStalled = j.stalled.toList.map StalledJoin.event ∧
      (j.stalled.toList.map fun s => (s.node,s.activation)).Nodup ∧
      (∃ K : List (UInt64 × Nat), K.Pairwise (fun x y => x.1 < y.1 ∨ x.1 = y.1 ∧ x.2 < y.2) ∧
        (∀ a n, (a,n) ∈ K ↔ (∃ u ∈ j.running ++ j.pending, u.activation = a) ∧ Waits n a D = true) ∧
        j.waitingJoins = K.map fun k => waitingJoinAt g D j.tick k.1 k.2) ∧
      (∀ (pre post : List Delivery), D = pre ++ post → ∀ (n : Nat) (a : UInt64) (node : CompiledNode),
        g.node? n = some node → node.kind = .builtin .mergeAll →
        (Waits n a pre = true ↔ window n a pre ≠ []) ∧ (window n a pre ≠ [] → covers node (window n a pre) = false)) := by
  intro D j
  obtain ⟨r,hr⟩ := CompiledGraph.compile_ranked hc
  have hrun := (Between.create g recordTrace invocations).run hr (CompiledGraph.wellWired_of_compile hc) ops
    (by rw [List.nil_append]; exact hb)
  have hend := hrun.2
  simp only [List.nil_append] at hend
  refine ⟨hend.reports.logged,hend.reports.paired,?_,hend.joins.waitingJoins_eq hend.reports.sorted hend.graph,?_⟩
  · rw [hend.reports.logged]
    refine nodup_stallsFrom (fun x y hx hy hxy => CompiledGraph.eq_of_nodeId_eq hc hx hy hxy) ?_
    intro pre d mid e post hD hd _
    obtain ⟨hist',ha,-⟩ := hrun.1 (pre ++ d :: mid) e post hD
    rw [List.nil_append] at ha
    have hdr := ha.reports.drained d (by simp) hd
    exact fun heq => hdr.none_live e.token (List.mem_append_right _ List.mem_cons_self) heq.symm
  · intro pre post hD n a node hn hk
    refine fullMerge_waits fun pre' e post' he heh => ?_
    simp only [Delivery.hits,Bool.and_eq_true,beq_iff_eq] at heh
    obtain ⟨rfl,rfl⟩ := heh
    have hif := (fullMerge_law hc recordTrace invocations ops hb pre' e (post' ++ post)
      (hD.trans (by rw [he]; simp)) hn hk).2
    by_cases hcv : covers node (window e.token.node e.token.activation pre' ++ [e]) = true
    · rw [if_pos hcv] at hif ⊢
      exact hif.1
    · rw [if_neg hcv] at hif ⊢
      exact hif.1

/-- Two start nodes wired into the two first inputs of a `flow.merge_all` node. -/
def stallDoc : Graph where
  id := ⟨9⟩
  name := "stall"
  nodes := [{ id := ⟨1⟩,nodeType := "flow.start" },{ id := ⟨2⟩,nodeType := "flow.start" },
    { id := ⟨3⟩,nodeType := "flow.merge_all" }]
  connections := [⟨⟨1⟩,0,⟨3⟩,0⟩,⟨⟨2⟩,0,⟨3⟩,1⟩]

def stallGraph : CompiledGraph := (CompiledGraph.compile Registry.standard stallDoc).toOption.getD default

theorem compile_stallDoc : CompiledGraph.compile Registry.standard stallDoc = .ok stallGraph := by
  have h : (CompiledGraph.compile Registry.standard stallDoc).toBool = true := by decide +kernel
  unfold stallGraph
  revert h
  cases CompiledGraph.compile Registry.standard stallDoc with
  | error e => exact fun h => by cases h
  | ok g => exact fun _ => rfl

theorem stallGraph_births :
    ((Instance.create stallGraph false).runBirths [HostOp.trigger ⟨1⟩,.tick Binary64.zero,.tick Binary64.zero]).length = 2 := by
  cbv

theorem stallGraph_stalled :
    ((Instance.create stallGraph false).run [HostOp.trigger ⟨1⟩,.tick Binary64.zero,.tick Binary64.zero]).stalled.toList.map
        (fun s => (s.activation,s.arrived.toList,s.expected.toList,s.tick)) = [(1,[0],[0,1],2)] := by
  cbv

/-- Exact stall diagnostics on the stall graph, its first start node triggered and ticked twice:
the merge's join is reported once, with its event, and nothing waits afterwards. -/
theorem stalled_joins_exact_split :
    let ops := [HostOp.trigger ⟨1⟩,.tick Binary64.zero,.tick Binary64.zero]
    let D := (Instance.create stallGraph false).runDeliveries ops
    let j := (Instance.create stallGraph false).run ops
    CompiledGraph.compile Registry.standard stallDoc = .ok stallGraph ∧
      ((Instance.create stallGraph false).runBirths ops).length < 2 ^ 64 ∧
      j.stalled.toList.map (fun s => (s.activation,s.arrived.toList,s.expected.toList,s.tick)) = [(1,[0],[0,1],2)] ∧
      (j.stalled.toList = stallsFrom stallGraph [] D ∧
        j.events.toList.filter EngineEvent.isJoinStalled = j.stalled.toList.map StalledJoin.event ∧
        (j.stalled.toList.map fun s => (s.node,s.activation)).Nodup ∧
        (∃ K : List (UInt64 × Nat), K.Pairwise (fun x y => x.1 < y.1 ∨ x.1 = y.1 ∧ x.2 < y.2) ∧
          (∀ a n, (a,n) ∈ K ↔ (∃ u ∈ j.running ++ j.pending, u.activation = a) ∧ Waits n a D = true) ∧
          j.waitingJoins = K.map fun k => waitingJoinAt stallGraph D j.tick k.1 k.2) ∧
        (∀ (pre post : List Delivery), D = pre ++ post → ∀ (n : Nat) (a : UInt64) (node : CompiledNode),
          stallGraph.node? n = some node → node.kind = .builtin .mergeAll →
          (Waits n a pre = true ↔ window n a pre ≠ []) ∧
            (window n a pre ≠ [] → covers node (window n a pre) = false))) := by
  have hb : ((Instance.create stallGraph false).runBirths [HostOp.trigger ⟨1⟩,.tick Binary64.zero,.tick Binary64.zero]).length <
      2 ^ 64 := by
    rw [stallGraph_births]
    decide
  exact ⟨compile_stallDoc,hb,stallGraph_stalled,stalled_joins_exact compile_stallDoc false [] _ hb⟩

end Tickflow
