import Tickflow.Proofs.JoinRuns
/-! # Full merges

A `flow.merge_all` node fires exactly at the first delivery of its window at which the distinct
pins seen cover its connected inputs, and waits otherwise, whatever other activations do. With
one token per input it fires once, at the last (`fires_at_last_of_inputs_once`).
-/
namespace Tickflow

/-- Whether the distinct pins delivered in `w` cover the connected inputs of `node`. -/
def covers (node : CompiledNode) (w : List Delivery) : Bool :=
  node.connectedInputs.subset (PinSet.ofList (w.map (·.token.pin)))

theorem window_of_not_done {n : Nat} {a : UInt64} {past : List Delivery}
    (h : ∀ d ∈ past, d.hits n a = true → d.outcome ≠ some (.ran .done)) :
    window n a past = past.filter (·.hits n a) := by
  induction past using List.reverseRecOn with
  | nil => rfl
  | append_singleton past d ih =>
    rw [window_append,List.filter_append,ih fun e he => h e (List.mem_append_left _ he)]
    cases hd : d.hits n a
    · simp [hd]
    · simp [hd,h d (List.mem_append_right _ List.mem_cons_self) hd]

theorem split_last {α : Type} {p : α → Prop} {l : List α} (h : ∃ x ∈ l, p x) :
    ∃ pre x post, l = pre ++ x :: post ∧ p x ∧ ∀ y ∈ post, ¬p y := by
  obtain ⟨x,hx,hp⟩ := h
  obtain ⟨pre,y,post,hl,hy,hpre⟩ := split_first (show ∃ x ∈ l.reverse, p x from ⟨x,List.mem_reverse.mpr hx,hp⟩)
  refine ⟨post.reverse,y,pre.reverse,?_,hy,fun z hz => hpre z (List.mem_reverse.mp hz)⟩
  rw [← List.reverse_reverse l,hl]
  simp

namespace Instance

theorem fullMerge_delivery {m : Instance} {t : Token} (dt : Binary64) {node : CompiledNode}
    (hn : m.graph.node? t.node = some node) (hk : node.kind = .builtin .mergeAll)
    (hout : node.flowOutputs = node.kind.flowOutputs) (hl : m.store.isLatched t.node t.activation = false)
    (hp : lookupMember t.seq m.store.parked = none) (hpin : t.pin < 16) :
    if (m.store.arrivalsAt t.node t.activation).contains t.pin = false ∧
        node.connectedInputs.subset ((m.store.arrivalsAt t.node t.activation).add t.pin) = true
    then m.outcome t dt = some (.ran .done) ∧ m.sentTargets t dt = node.targetsOf 0
    else m.outcome t dt = some (.ran .waiting) ∧ m.sentTargets t dt = [] := by
  have hres : (m.invoke node t dt).1.result =
      if (m.store.arrivalsAt t.node t.activation).contains t.pin = false ∧
          node.connectedInputs.subset ((m.store.arrivalsAt t.node t.activation).add t.pin) = true
      then NodeResult.fire (PinSet.single 0) else NodeResult.waiting := by
    rw [(invoke_mergeAll_arrivals dt hk hp).2,Builtin.mergeAllUpdate_result,handed_arrivals hp]
    simp only [hpin,true_and]
  have hsent : m.sentTargets t dt = if (m.invoke node t dt).1.result.firesOutputs
      then firedTargets node (checkedOutputs node (m.invoke node t dt).1.result.outputs) else [] := by
    simp [sentTargets,hn,hl]
  have hone : (PinSet.ofList ((PinSet.single 0).toList.filter
      (· < (NodeKind.builtin Builtin.mergeAll).flowOutputs.length))).toList = [0] := by decide
  rw [outcome_of_ran dt hn hl,hsent,hres]
  split
  · refine ⟨rfl,?_⟩
    simp only [NodeResult.fire,NodeResult.firesOutputs,if_true,firedTargets,checkedOutputs,hout,hk,hone]
    simp
  · exact ⟨rfl,rfl⟩

end Instance

section Runs

variable {g : CompiledGraph} {hist : List Birth} {past : List Delivery} {m : Instance} {t : Token}
  {later : List Token}

theorem Amid.fullMerge (h : Amid g hist past m (m.running ++ m.pending ++ t :: later)) {node : CompiledNode}
    (hn : g.node? t.node = some node) (hk : node.kind = .builtin .mergeAll)
    (hout : node.flowOutputs = node.kind.flowOutputs) (rest : List Token) (dt : Binary64) :
    covers node (window t.node t.activation past) = false ∧
      if covers node (window t.node t.activation past ++ [⟨m,t,rest,dt⟩])
      then m.outcome t dt = some (.ran .done) ∧ m.sentTargets t dt = node.targetsOf 0
      else m.outcome t dt = some (.ran .waiting) ∧ m.sentTargets t dt = [] := by
  have htL : t ∈ m.running ++ m.pending ++ t :: later := List.mem_append_right _ List.mem_cons_self
  obtain ⟨hpark,hpin⟩ := h.joins.merge_ready htL hn hk
  have j := h.joins.slots t.node t.activation ⟨t,htL,rfl⟩
  obtain ⟨harr,hcov⟩ := j.merged node hn hk
  have hnot : covers node (window t.node t.activation past) = false := by
    unfold covers
    rw [← harr]
    by_cases hW : window t.node t.activation past = []
    · rw [harr,hW,List.map_nil]
      cases hs : node.connectedInputs.subset (PinSet.ofList [])
      · rfl
      · have hc := (PinSet.subset_iff _ _).mp hs t.pin hpin
        simp at hc
    · exact hcov hW
  have hlatch : m.store.isLatched t.node t.activation = false := by
    cases hL : m.store.isLatched t.node t.activation
    · rfl
    · -- a delivery that latched the slot ran the full merge, which never latches
      obtain ⟨d,hd,hdh,hdo⟩ := j.latched.mp hL
      simp only [Delivery.hits,Bool.and_eq_true,beq_iff_eq] at hdh
      have hdn : d.state.graph.node? d.token.node = some node := by rw [h.joins.graphs d hd,hdh.1]; exact hn
      exact absurd hdo (Delivery.outcome_of_mergeAll hdn hk).1
  have hmn : m.graph.node? t.node = some node := by rw [h.graph]; exact hn
  have hstep := Instance.fullMerge_delivery dt hmn hk hout hlatch hpark (PinSet.lt_of_contains hpin)
  have hcond : covers node (window t.node t.activation past ++ [⟨m,t,rest,dt⟩]) = true ↔
      ((m.store.arrivalsAt t.node t.activation).contains t.pin = false ∧
        node.connectedInputs.subset ((m.store.arrivalsAt t.node t.activation).add t.pin) = true) := by
    rw [covers,List.map_append,List.map_singleton,PinSet.ofList_append_singleton,← harr]
    refine ⟨fun hc => ⟨?_,hc⟩,fun hc => hc.2⟩
    cases hin : (m.store.arrivalsAt t.node t.activation).contains t.pin
    · rfl
    · have hsame := PinSet.add_eq_self hin
      unfold covers at hnot
      rw [← harr,← hsame,hc] at hnot
      cases hnot
  refine ⟨hnot,?_⟩
  by_cases hc : covers node (window t.node t.activation past ++ [⟨m,t,rest,dt⟩]) = true
  · rw [if_pos hc]
    rw [if_pos (hcond.mp hc)] at hstep
    exact hstep
  · rw [if_neg hc]
    rw [if_neg (fun h' => hc (hcond.mpr h'))] at hstep
    exact hstep

end Runs

theorem fires_at_last_of_inputs_once {node : CompiledNode} {n : Nat} {a : UInt64} {D : List Delivery}
    (hlaw : ∀ (pre : List Delivery) (e : Delivery) (post : List Delivery), D = pre ++ e :: post →
      e.hits n a = true →
      if covers node (window n a pre ++ [e]) then e.outcome = some (.ran .done) else e.outcome = some (.ran .waiting))
    (hperm : ((D.filter (·.hits n a)).map (·.token.pin)).Perm node.connectedInputs.toList)
    (hne : node.connectedInputs.toList ≠ []) :
    ∃ (pre : List Delivery) (e : Delivery) (post : List Delivery), D = pre ++ e :: post ∧ e.hits n a = true ∧ e.outcome = some (.ran .done) ∧
      (∀ d ∈ pre, d.hits n a = true → d.outcome = some (.ran .waiting)) ∧ ∀ d ∈ post, d.hits n a = false := by
  have hnd : ((D.filter (·.hits n a)).map (·.token.pin)).Nodup := hperm.nodup_iff.mpr (PinSet.nodup_toList _)
  have hmemc : ∀ d ∈ D, d.hits n a = true → node.connectedInputs.contains d.token.pin = true :=
    fun d hd hh => PinSet.mem_toList.mp (hperm.mem_iff.mp (List.mem_map_of_mem (List.mem_filter.mpr ⟨hd,hh⟩)))
  have hex : ∃ d ∈ D, d.hits n a = true := by
    obtain ⟨i,hi⟩ := List.exists_mem_of_ne_nil _ hne
    obtain ⟨d,hd,-⟩ := List.mem_map.mp (hperm.mem_iff.mpr hi)
    exact ⟨d,(List.mem_filter.mp hd).1,(List.mem_filter.mp hd).2⟩
  obtain ⟨pre,e,post,hD,he,hpost⟩ := split_last hex
  have hpost' : ∀ d ∈ post, d.hits n a = false := fun d hd => by simpa using hpost d hd
  have hfilter : D.filter (·.hits n a) = pre.filter (·.hits n a) ++ [e] := by
    have hnil : post.filter (·.hits n a) = [] := List.filter_eq_nil_iff.mpr fun d hd => by simp [hpost' d hd]
    rw [hD,List.filter_append,List.filter_cons,if_pos he,hnil]
  have hein : node.connectedInputs.contains e.token.pin = true := hmemc e (by rw [hD]; simp) he
  -- every earlier delivery of the slot waits: the first that did not would have covered the
  -- inputs before `e` arrived, but `e` brings the only token on its pin
  have hwait : ∀ d ∈ pre, d.hits n a = true → d.outcome = some (.ran .waiting) := by
    by_contra hno
    simp only [not_forall] at hno
    obtain ⟨d,hd,hdh,hdo⟩ := hno
    obtain ⟨pre0,d,mid,hpre,⟨hdh,hdo⟩,hpre0⟩ :=
      split_first (p := fun d => d.hits n a = true ∧ d.outcome ≠ some (.ran .waiting)) ⟨d,hd,hdh,hdo⟩
    have hwin0 : window n a pre0 = pre0.filter (·.hits n a) :=
      window_of_not_done fun y hy hyh => by
        have hyw : y.outcome = some (.ran .waiting) := by
          by_contra hne
          exact hpre0 y hy ⟨hyh,hne⟩
        rw [hyw]
        simp
    have hcov : covers node (window n a pre0 ++ [d]) = true := by
      have hd' := hlaw pre0 d (mid ++ e :: post) (by rw [hD,hpre]; simp) hdh
      by_contra hc
      rw [if_neg hc] at hd'
      exact hdo hd'
    rw [hwin0,covers,PinSet.subset_iff] at hcov
    have hin := hcov e.token.pin hein
    simp only [PinSet.contains_ofList,Bool.and_eq_true,decide_eq_true_eq] at hin
    have hsplit : (D.filter (·.hits n a)).map (·.token.pin) =
        ((pre0.filter (·.hits n a) ++ [d]).map (·.token.pin) ++ (mid.filter (·.hits n a)).map (·.token.pin)) ++
          [e.token.pin] := by
      rw [hfilter,hpre]
      simp [List.filter_append,hdh]
    rw [hsplit] at hnd
    exact (List.nodup_append.mp hnd).2.2 e.token.pin (List.mem_append_left _ hin.1) e.token.pin
      (List.mem_singleton_self _) rfl
  refine ⟨pre,e,post,hD,he,?_,hwait,hpost'⟩
  have hwin : window n a pre = pre.filter (·.hits n a) :=
    window_of_not_done fun d hd hh => by rw [hwait d hd hh]; simp
  have hcov : covers node (window n a pre ++ [e]) = true := by
    rw [hwin,covers,PinSet.subset_iff]
    intro i hi
    have hi' := hperm.mem_iff.mpr (PinSet.mem_toList.mpr hi)
    rw [hfilter] at hi'
    rw [PinSet.contains_ofList]
    simp only [hi',PinSet.lt_of_contains hi,decide_true,Bool.and_self]
  have he' := hlaw pre e post hD he
  rwa [if_pos hcov] at he'

/-- Along a run of a compiled graph that creates fewer than `2 ^ 64` tokens, every delivery to a
full merge obeys the law of one delivery (`Amid.fullMerge`). -/
theorem fullMerge_law {reg : Registry} {doc : Graph} {g : CompiledGraph}
    (hc : CompiledGraph.compile reg doc = .ok g) (recordTrace : Bool) (invocations : List (String × Nat))
    (ops : List HostOp) (hb : ((Instance.create g recordTrace invocations).runBirths ops).length < 2 ^ 64)
    (pre : List Delivery) (e : Delivery) (post : List Delivery)
    (he : (Instance.create g recordTrace invocations).runDeliveries ops = pre ++ e :: post)
    {node : CompiledNode} (hn : g.node? e.token.node = some node) (hk : node.kind = .builtin .mergeAll) :
    covers node (window e.token.node e.token.activation pre) = false ∧
      if covers node (window e.token.node e.token.activation pre ++ [e]) then
        e.outcome = some (.ran .done) ∧ e.state.sentTargets e.token e.dt = node.targetsOf 0
      else e.outcome = some (.ran .waiting) ∧ e.state.sentTargets e.token e.dt = [] := by
  obtain ⟨r,hr⟩ := CompiledGraph.compile_ranked hc
  obtain ⟨hist',ha,-⟩ := ((Between.create g recordTrace invocations).run hr (CompiledGraph.wellWired_of_compile hc) ops
    (by rw [List.nil_append]; exact hb)).1 pre e post he
  rw [List.nil_append] at ha
  exact ha.fullMerge hn hk (CompiledGraph.flowOutputs_of_compile hc hn) e.later e.dt

/-- The join law of a full merge, over any run of a compiled graph that creates fewer than
`2 ^ 64` tokens. At each delivery to a `flow.merge_all` node, the window of its node and
activation before it does not cover the node's connected inputs. If the window with the
delivery covers them, the node is done and sends along the targets of its one output, the
output at pin 3; otherwise it waits and sends nothing. So when each connected input receives
one token of an activation, the node fires once for it, at the last of them. -/
theorem full_merge_fires_when_inputs_covered {reg : Registry} {doc : Graph} {g : CompiledGraph}
    (hc : CompiledGraph.compile reg doc = .ok g) (recordTrace : Bool) (invocations : List (String × Nat))
    (ops : List HostOp) (hb : ((Instance.create g recordTrace invocations).runBirths ops).length < 2 ^ 64) :
    let D := (Instance.create g recordTrace invocations).runDeliveries ops
    (∀ (pre : List Delivery) (e : Delivery) (post : List Delivery), D = pre ++ e :: post →
      ∀ node, g.node? e.token.node = some node → node.kind = .builtin .mergeAll →
      covers node (window e.token.node e.token.activation pre) = false ∧
        if covers node (window e.token.node e.token.activation pre ++ [e]) then
          e.outcome = some (.ran .done) ∧ e.state.sentTargets e.token e.dt = node.targetsOf 0 ∧
            node.flowOutputs = [3]
        else e.outcome = some (.ran .waiting) ∧ e.state.sentTargets e.token e.dt = []) ∧
    (∀ (n : Nat) (a : UInt64) (node : CompiledNode), g.node? n = some node → node.kind = .builtin .mergeAll →
      node.connectedInputs.toList ≠ [] →
      ((D.filter (·.hits n a)).map (·.token.pin)).Perm node.connectedInputs.toList →
      ∃ pre e post, D = pre ++ e :: post ∧ e.hits n a = true ∧ e.outcome = some (.ran .done) ∧
        (∀ d ∈ pre, d.hits n a = true → d.outcome = some (.ran .waiting)) ∧ ∀ d ∈ post, d.hits n a = false) := by
  intro D
  refine ⟨?_,?_⟩
  · intro pre e post he node hn hk
    have hout : node.flowOutputs = [3] := by
      rw [CompiledGraph.flowOutputs_of_compile hc hn,hk]
      rfl
    obtain ⟨hnot,hif⟩ := fullMerge_law hc recordTrace invocations ops hb pre e post he hn hk
    refine ⟨hnot,?_⟩
    by_cases hcv : covers node (window e.token.node e.token.activation pre ++ [e]) = true
    · rw [if_pos hcv] at hif ⊢
      exact ⟨hif.1,hif.2,hout⟩
    · rw [if_neg hcv] at hif ⊢
      exact hif
  · intro n a node hn hk hne hperm
    refine fires_at_last_of_inputs_once (fun pre e post he heh => ?_) hperm hne
    simp only [Delivery.hits,Bool.and_eq_true,beq_iff_eq] at heh
    obtain ⟨rfl,rfl⟩ := heh
    have hif := (fullMerge_law hc recordTrace invocations ops hb pre e post he hn hk).2
    by_cases hcv : covers node (window e.token.node e.token.activation pre ++ [e]) = true
    · rw [if_pos hcv] at hif ⊢
      exact hif.1
    · rw [if_neg hcv] at hif ⊢
      exact hif.1

/-- A start node wired into both first inputs of a `flow.merge_all` node. -/
def joinDoc : Graph where
  id := ⟨8⟩
  name := "join"
  nodes := [{ id := ⟨1⟩,nodeType := "flow.start" },{ id := ⟨2⟩,nodeType := "flow.merge_all" }]
  connections := [⟨⟨1⟩,0,⟨2⟩,0⟩,⟨⟨1⟩,0,⟨2⟩,1⟩]

def joinGraph : CompiledGraph := (CompiledGraph.compile Registry.standard joinDoc).toOption.getD default

theorem compile_joinDoc : CompiledGraph.compile Registry.standard joinDoc = .ok joinGraph := by
  have h : (CompiledGraph.compile Registry.standard joinDoc).toBool = true := by decide +kernel
  unfold joinGraph
  revert h
  cases CompiledGraph.compile Registry.standard joinDoc with
  | error e => exact fun h => by cases h
  | ok g => exact fun _ => rfl

theorem joinGraph_births :
    ((Instance.create joinGraph false).runBirths [HostOp.start,.tick Binary64.zero,.tick Binary64.zero]).length = 3 := by
  cbv

theorem joinGraph_deliveries :
    ((Instance.create joinGraph false).runDeliveries [HostOp.start,.tick Binary64.zero,.tick Binary64.zero]).map
        (fun d => (d.token.node,d.token.pin,d.outcome)) =
      [(0,0,some (.ran .done)),(1,0,some (.ran .waiting)),(1,1,some (.ran .done))] := by
  cbv

/-- The join law on the join graph, started and ticked twice. -/
theorem full_merge_fires_when_inputs_covered_join :
    let ops := [HostOp.start,.tick Binary64.zero,.tick Binary64.zero]
    let D := (Instance.create joinGraph false).runDeliveries ops
    CompiledGraph.compile Registry.standard joinDoc = .ok joinGraph ∧
      ((Instance.create joinGraph false).runBirths ops).length < 2 ^ 64 ∧
      D.map (fun d => (d.token.node,d.token.pin,d.outcome)) =
        [(0,0,some (.ran .done)),(1,0,some (.ran .waiting)),(1,1,some (.ran .done))] ∧
      ((∀ (pre : List Delivery) (e : Delivery) (post : List Delivery), D = pre ++ e :: post →
        ∀ node, joinGraph.node? e.token.node = some node → node.kind = .builtin .mergeAll →
        covers node (window e.token.node e.token.activation pre) = false ∧
          if covers node (window e.token.node e.token.activation pre ++ [e]) then
            e.outcome = some (.ran .done) ∧ e.state.sentTargets e.token e.dt = node.targetsOf 0 ∧
              node.flowOutputs = [3]
          else e.outcome = some (.ran .waiting) ∧ e.state.sentTargets e.token e.dt = []) ∧
      (∀ (n : Nat) (a : UInt64) (node : CompiledNode), joinGraph.node? n = some node →
        node.kind = .builtin .mergeAll → node.connectedInputs.toList ≠ [] →
        ((D.filter (·.hits n a)).map (·.token.pin)).Perm node.connectedInputs.toList →
        ∃ pre e post, D = pre ++ e :: post ∧ e.hits n a = true ∧ e.outcome = some (.ran .done) ∧
          (∀ d ∈ pre, d.hits n a = true → d.outcome = some (.ran .waiting)) ∧ ∀ d ∈ post, d.hits n a = false)) := by
  have hb : ((Instance.create joinGraph false).runBirths [HostOp.start,.tick Binary64.zero,.tick Binary64.zero]).length <
      2 ^ 64 := by
    rw [joinGraph_births]
    decide
  exact ⟨compile_joinDoc,hb,joinGraph_deliveries,full_merge_fires_when_inputs_covered compile_joinDoc false [] _ hb⟩

end Tickflow
