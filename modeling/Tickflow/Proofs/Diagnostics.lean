import Tickflow.Compiled.Lint
import Tickflow.Proofs.Triggering
/-! # Authoring diagnostics

`Digraph.reachable` marks exactly the nodes a path from a start reaches (`Marking`). On a
compiled graph the flow edges are the flow connections, so lint reports exactly the missing
entry, the unreachable nodes with flow pins and the flow outputs no connection leaves.
-/
namespace Tickflow

namespace Digraph

/-- The marking search from `starts`, with `stack` still to visit and the marks `seen`. -/
structure Marking (g : Digraph) (starts stack : List Nat) (seen : Array Bool) : Prop where
  size : seen.size = g.size
  sound : ∀ v, marked seen v = true → ∃ s ∈ starts, Relation.ReflTransGen g.Adj s v
  queued : ∀ v ∈ stack, (∃ s ∈ starts, Relation.ReflTransGen g.Adj s v) ∧ v < g.size
  closed : ∀ u, marked seen u = true → ∀ v ∈ g.successors u, marked seen v = true ∨ v ∈ stack
  covers : ∀ s ∈ starts, marked seen s = true ∨ s ∈ stack

variable {g : Digraph} {starts : List Nat}

theorem Marking.init (hs : ∀ s ∈ starts, s < g.size) : Marking g starts starts (Array.replicate g.size false) where
  size := Array.size_replicate
  sound v hv := by rw [marked_replicate] at hv; cases hv
  queued v hv := ⟨⟨v,hv,.refl⟩,hs v hv⟩
  closed u hu := by rw [marked_replicate] at hu; cases hu
  covers s hs := .inr hs

theorem Marking.skip {u : Nat} {rest : List Nat} {seen : Array Bool} (h : Marking g starts (u :: rest) seen)
    (hm : marked seen u = true) : Marking g starts rest seen where
  size := h.size
  sound := h.sound
  queued v hv := h.queued v (List.mem_cons_of_mem u hv)
  closed w hw v hv := by
    rcases h.closed w hw v hv with hv' | hv'
    · exact .inl hv'
    · rcases List.mem_cons.mp hv' with rfl | hv'
      · exact .inl hm
      · exact .inr hv'
  covers s hs := by
    rcases h.covers s hs with hs' | hs'
    · exact .inl hs'
    · rcases List.mem_cons.mp hs' with rfl | hs'
      · exact .inl hm
      · exact .inr hs'

theorem Marking.visit (hg : ∀ e ∈ g.edges, e.1 < g.size ∧ e.2 < g.size) {u : Nat} {rest : List Nat}
    {seen : Array Bool} (h : Marking g starts (u :: rest) seen) :
    Marking g starts (g.successors u ++ rest) (seen.set! u true) := by
  obtain ⟨⟨s,hs,hsu⟩,hu⟩ := h.queued u List.mem_cons_self
  have hu' : u < seen.size := h.size ▸ hu
  have hself : marked (seen.set! u true) u = true := marked_set_self hu'
  have hkeep : ∀ v, marked seen v = true → marked (seen.set! u true) v = true :=
    fun v hv => marked_set.mpr (.inl hv)
  refine ⟨by simp [h.size],fun v hv => ?_,fun v hv => ?_,fun w hw v hv => ?_,
    fun t ht => ?_⟩
  · rcases marked_set.mp hv with hv | ⟨rfl,-⟩
    · exact h.sound v hv
    · exact ⟨s,hs,hsu⟩
  · rcases List.mem_append.mp hv with hv | hv
    · have he := mem_successors.mp hv
      exact ⟨⟨s,hs,hsu.tail he⟩,(hg _ he).2⟩
    · exact h.queued v (List.mem_cons_of_mem u hv)
  · rcases marked_set.mp hw with hw | ⟨rfl,-⟩
    · rcases h.closed w hw v hv with hv' | hv'
      · exact .inl (hkeep v hv')
      · rcases List.mem_cons.mp hv' with rfl | hv'
        · exact .inl hself
        · exact .inr (List.mem_append_right _ hv')
    · exact .inr (List.mem_append_left _ hv)
  · rcases h.covers t ht with ht' | ht'
    · exact .inl (hkeep t ht')
    · rcases List.mem_cons.mp ht' with rfl | ht'
      · exact .inl hself
      · exact .inr (List.mem_append_right _ ht')

/-- What is left of the marking search: the entries on the stack, and the edges out of nodes
not yet marked, which pay for the successors a node pushes when it is marked. -/
def reachWork (g : Digraph) (stack : List Nat) (seen : Array Bool) : Nat :=
  stack.length + (g.edges.filter fun e => !marked seen e.1).length

theorem reach_marking (hg : ∀ e ∈ g.edges, e.1 < g.size ∧ e.2 < g.size) :
    ∀ (fuel : Nat) (stack : List Nat) (seen : Array Bool), Marking g starts stack seen →
      reachWork g stack seen < fuel → Marking g starts [] (g.reach fuel stack seen)
  | 0,_,_,_,hw => absurd hw (Nat.not_lt_zero _)
  | _ + 1,[],seen,h,_ => h
  | fuel + 1,u :: rest,seen,h,hw => by
    unfold reach
    split
    · rename_i hm
      refine reach_marking hg fuel rest seen (h.skip hm) ?_
      simp only [reachWork,List.length_cons] at hw ⊢
      omega
    · rename_i hm
      refine reach_marking hg fuel _ _ (h.visit hg) ?_
      have hu : u < seen.size := h.size ▸ (h.queued u List.mem_cons_self).2
      have hedges := length_filter_unmarked (g := g) hu (by simpa using hm)
      have hsucc := length_successors g u
      simp only [reachWork,List.length_cons,List.length_append] at hw ⊢
      omega

theorem Marking.complete {seen : Array Bool} (h : Marking g starts [] seen) {s v : Nat} (hs : s ∈ starts)
    (hsv : Relation.ReflTransGen g.Adj s v) : marked seen v = true := by
  induction hsv with
  | refl => simpa using h.covers s hs
  | tail _ huv ih => simpa using h.closed _ ih _ (mem_successors.mpr huv)

theorem marked_reachable_iff (hg : ∀ e ∈ g.edges, e.1 < g.size ∧ e.2 < g.size) (hs : ∀ s ∈ starts, s < g.size)
    (v : Nat) : marked (g.reachable starts) v = true ↔ ∃ s ∈ starts, Relation.ReflTransGen g.Adj s v := by
  have hfilter := List.length_filter_le (fun e : Nat × Nat => !marked (Array.replicate g.size false) e.1) g.edges
  have h : Marking g starts [] (g.reachable starts) :=
    reach_marking hg (g.size + g.edges.length + starts.length + 1) starts _ (Marking.init hs)
      (by simp only [reachWork]; omega)
  exact ⟨h.sound v,fun ⟨s,hs,hsv⟩ => h.complete hs hsv⟩

end Digraph

namespace Graph

/-- A flow connection of `g` leads from the node at position `i` to the node at position `j`. -/
def FlowStep (reg : Registry) (g : Graph) (i j : Nat) : Prop :=
  ∃ c ∈ g.connections, g.carries reg c = some .flow ∧ g.position? c.fromNode = some i ∧ g.position? c.toNode = some j

theorem flowWire?_ends {reg : Registry} {g : Graph} {c : Connection} {i j : Nat} :
    (∃ fw, g.flowWire? reg c = some fw ∧ fw.1 = i ∧ fw.2.2.1 = j) ↔
      g.carries reg c = some .flow ∧ g.position? c.fromNode = some i ∧ g.position? c.toNode = some j := by
  unfold flowWire?
  constructor
  · rintro ⟨fw,hfw,rfl,rfl⟩
    split at hfw
    · rename_i hcarry
      split at hfw
      · rename_i i' kind j' hi hk hj
        cases hfw
        exact ⟨hcarry,hi,hj⟩
      · cases hfw
    · cases hfw
  · rintro ⟨hcarry,hi,hj⟩
    obtain ⟨kind,hk⟩ : ∃ kind, g.kindOf? reg c.fromNode = some kind := by
      unfold carries pinType? at hcarry
      cases hk : g.kindOf? reg c.fromNode with
      | none => simp [hk] at hcarry
      | some kind => exact ⟨kind,rfl⟩
    exact ⟨_,by rw [if_pos hcarry,hi,hk,hj],rfl,rfl⟩

end Graph

namespace CompiledGraph

variable {reg : Registry} {doc : Graph} {g : CompiledGraph}

theorem flow_adj_iff (hc : compile reg doc = .ok g) (i j : Nat) : g.flow.Adj i j ↔ doc.FlowStep reg i j := by
  obtain ⟨w,-,-,hx,-,-,-,hflow⟩ := compile_layout hc
  unfold Digraph.Adj Graph.FlowStep
  rw [hflow]
  change (i,j) ∈ w.flowEdges ↔ _
  rw [hx.flowEdges,hx.flowWires,List.mem_map]
  constructor
  · rintro ⟨fw,hfw,he⟩
    obtain ⟨c,hc',hfc⟩ := List.mem_filterMap.mp hfw
    obtain ⟨rfl,rfl⟩ := Prod.mk.inj he
    exact ⟨c,hc',Graph.flowWire?_ends.mp ⟨fw,hfc,rfl,rfl⟩⟩
  · rintro ⟨c,hc',hends⟩
    obtain ⟨fw,hfc,rfl,rfl⟩ := Graph.flowWire?_ends.mpr hends
    exact ⟨fw,List.mem_filterMap.mpr ⟨c,hc',hfc⟩,rfl⟩

theorem flow_size (hc : compile reg doc = .ok g) : g.flow.size = g.nodeCount := by
  obtain ⟨w,-,-,-,-,-,-,hflow⟩ := compile_layout hc
  rw [hflow,nodeCount_of_compile hc]

theorem flow_edges_lt (hc : compile reg doc = .ok g) : ∀ e ∈ g.flow.edges, e.1 < g.flow.size ∧ e.2 < g.flow.size := by
  rintro ⟨i,j⟩ he
  obtain ⟨c,-,-,hi,hj⟩ := (flow_adj_iff hc i j).mp he
  obtain ⟨w,-,-,-,-,-,-,hflow⟩ := compile_layout hc
  rw [hflow]
  exact ⟨Graph.position?_lt hi,Graph.position?_lt hj⟩

theorem marked_reached_iff (hc : compile reg doc = .ok g) (i : Nat) :
    Digraph.marked (g.flow.reachable g.entries) i = true ↔
      ∃ e m, g.node? e = some m ∧ m.classification = .entry ∧ Relation.ReflTransGen (doc.FlowStep reg) e i := by
  have hstarts : ∀ e ∈ g.entries, e < g.flow.size := by
    intro e he
    obtain ⟨m,hm,-⟩ := (mem_entries_iff hc e).mp he
    rw [flow_size hc]
    exact (Array.getElem?_eq_some_iff.mp hm).1
  have hrel : g.flow.Adj = doc.FlowStep reg := by
    funext i j
    exact propext (flow_adj_iff hc i j)
  rw [Digraph.marked_reachable_iff (flow_edges_lt hc) hstarts,← hrel]
  constructor
  · rintro ⟨e,he,hei⟩
    obtain ⟨m,hm,hcl⟩ := (mem_entries_iff hc e).mp he
    exact ⟨e,m,hm,hcl,hei⟩
  · rintro ⟨e,m,hm,hcl,hei⟩
    exact ⟨e,(mem_entries_iff hc e).mpr ⟨m,hm,hcl⟩,hei⟩

theorem filterMap_zip_range {α β : Type} (l : List α) (P : Nat → Bool) (Q : α → Bool) (f : α → β)
    (h : ∀ (o : Nat) (ho : o < l.length), P o = Q l[o]) :
    ((List.range l.length).zip l).filterMap (fun x => if P x.1 then some (f x.2) else none) = (l.filter Q).map f := by
  induction l generalizing P with
  | nil => rfl
  | cons a l ih =>
    have h0 : P 0 = Q a := h 0 (by simp)
    have ih' := ih (fun o => P (o + 1)) fun o ho => h (o + 1) (by simpa using ho)
    rw [List.length_cons,List.range_succ_eq_map,List.zip_cons_cons,List.zip_map_left,List.filterMap_cons,
      List.filterMap_map,List.filter_cons]
    dsimp only
    rw [h0]
    cases Q a
    · exact ih'
    · rw [if_pos rfl,if_pos rfl,List.map_cons,← ih']
      rfl

theorem unwired_eq (hc : compile reg doc = .ok g) {x : Nat} {n : CompiledNode} (hn : g.node? x = some n) :
    ((List.range n.flowOutputs.length).zip n.flowOutputs).filterMap (fun y =>
        if (n.targetsOf y.1).isEmpty then some (Diagnostic.unwiredOutput n.spec.id y.2) else none) =
      ((List.range n.pins.length).filter fun p => n.pins[p]? = some .flowOut ∧ doc.wiredFrom n.spec.id p = false).map
        (Diagnostic.unwiredOutput n.spec.id) := by
  have hf := nodeFaithful_of_compile hc hn
  have hempty : ∀ (o : Nat) (ho : o < n.flowOutputs.length),
      (n.targetsOf o).isEmpty = !doc.wiredFrom n.spec.id n.flowOutputs[o] := by
    intro o ho
    have hlen := (hf.targets o ho).length_eq
    cases hw : doc.wiredFrom n.spec.id n.flowOutputs[o]
    · have hnil : doc.connections.filter (fun c => c.fromNode = n.spec.id ∧ c.fromPin = n.flowOutputs[o]) = [] := by
        rw [List.filter_eq_nil_iff]
        intro c hc' hcw
        have := List.any_eq_false.mp hw c hc'
        simp_all
      rw [hnil,List.length_nil,← List.isEmpty_iff_length_eq_zero] at hlen
      exact hlen
    · obtain ⟨c,hc',hcw⟩ := List.any_eq_true.mp hw
      have hpos : 0 < (doc.connections.filter (fun c => c.fromNode = n.spec.id ∧ c.fromPin = n.flowOutputs[o])).length :=
        List.length_pos_of_mem (List.mem_filter.mpr ⟨hc',by simpa using hcw⟩)
      rw [← hlen] at hpos
      cases ht : n.targetsOf o with
      | nil => rw [ht] at hpos; cases hpos
      | cons τ rest => rfl
  rw [filterMap_zip_range n.flowOutputs _ (fun p => !doc.wiredFrom n.spec.id p) _ hempty,hf.flowOutputs,
    List.filter_filter]
  congr 2
  funext p
  simp [Bool.and_comm]

theorem getElem?_of_mem_zip_range {α : Type} {l : List α} {i : Nat} {a : α} (h : (i,a) ∈ (List.range l.length).zip l) :
    l[i]? = some a := by
  obtain ⟨k,hk⟩ := List.mem_iff_getElem?.mp h
  obtain ⟨hr,hl⟩ := List.getElem?_zip_eq_some.mp hk
  have hlt : k < l.length := (List.getElem?_eq_some_iff.mp hl).1
  rw [List.getElem?_range hlt] at hr
  obtain rfl : k = i := Option.some.inj hr
  exact hl

open Classical in
/-- The diagnostics of one node of a compiled definition: unreachable when it has flow pins and
no path of flow connections leads to it from an entry, then its unwired flow outputs. -/
theorem nodeDiagnostics_eq (hc : compile reg doc = .ok g) {x : Nat} {n : CompiledNode} (hn : g.node? x = some n) :
    nodeDiagnostics (g.flow.reachable g.entries) x n =
      (if n.hasFlowPins = true ∧ ¬∃ e m, g.node? e = some m ∧ m.classification = .entry ∧
          Relation.ReflTransGen (doc.FlowStep reg) e x then [Diagnostic.unreachable n.spec.id] else []) ++
        ((List.range n.pins.length).filter fun p => n.pins[p]? = some .flowOut ∧ doc.wiredFrom n.spec.id p = false).map
          (Diagnostic.unwiredOutput n.spec.id) := by
  unfold nodeDiagnostics
  dsimp only
  rw [← unwired_eq hc hn,← marked_reached_iff hc x]
  congr 1
  cases n.hasFlowPins <;> cases Digraph.marked (g.flow.reachable g.entries) x <;> simp

theorem entries_isEmpty_iff (hc : compile reg doc = .ok g) :
    g.entries.isEmpty = true ↔ ¬∃ n ∈ g.nodes.toList, n.classification = .entry := by
  rw [List.isEmpty_iff,List.eq_nil_iff_forall_not_mem]
  constructor
  · rintro hnone ⟨n,hn,hcl⟩
    obtain ⟨idx,hidx⟩ := List.mem_iff_getElem?.mp hn
    exact hnone idx ((mem_entries_iff hc idx).mpr ⟨n,by rwa [Array.getElem?_toList] at hidx,hcl⟩)
  · intro hnone idx he
    obtain ⟨n,hn,hcl⟩ := (mem_entries_iff hc idx).mp he
    exact hnone ⟨n,Array.mem_toList_iff.mpr (Array.mem_of_getElem? hn),hcl⟩

end CompiledGraph

open CompiledGraph Classical in
/-- Lint reports exactly the authoring gaps of a compiled definition: first a missing entry, when
no node is an entry; then node by node in definition order, the node when it has a flow pin and
no path of flow connections leads to it from an entry (an entry reaches itself), followed by
each flow output pin of the node that no connection leaves, in ascending pin order. -/
theorem lint_reports_authoring_gaps {reg : Registry} {doc : Graph} {g : CompiledGraph}
    (hc : compile reg doc = .ok g) :
    g.lint =
      (if ∃ n ∈ g.nodes.toList, n.classification = .entry then [] else [Diagnostic.noEntry]) ++
        ((List.range g.nodeCount).zip g.nodes.toList).flatMap fun x =>
          (if x.2.hasFlowPins = true ∧ ¬∃ e m, g.node? e = some m ∧ m.classification = .entry ∧
              Relation.ReflTransGen (doc.FlowStep reg) e x.1 then [Diagnostic.unreachable x.2.spec.id] else []) ++
            ((List.range x.2.pins.length).filter fun p =>
              x.2.pins[p]? = some .flowOut ∧ doc.wiredFrom x.2.spec.id p = false).map
              (Diagnostic.unwiredOutput x.2.spec.id) := by
  unfold lint
  dsimp only
  congr 1
  · by_cases h : ∃ n ∈ g.nodes.toList, n.classification = .entry
    · have hne : g.entries.isEmpty = false := by
        simpa using mt (entries_isEmpty_iff hc).mp (not_not.mpr h)
      rw [if_pos h,hne]
      rfl
    · rw [if_neg h,(entries_isEmpty_iff hc).mpr h]
      rfl
  · refine List.flatMap_congr fun x hx => ?_
    obtain ⟨i,n⟩ := x
    have hn : g.node? i = some n := by
      rw [node?,← Array.getElem?_toList]
      exact getElem?_of_mem_zip_range (by simpa [nodeCount] using hx)
    exact nodeDiagnostics_eq hc hn

open CompiledGraph Classical in
/-- The law at the branch definition, an entry into a branch whose outputs both lead to a log. -/
theorem lint_reports_authoring_gaps_branch :
    let g := branchGraph
    compile Registry.standard branchDoc = .ok g ∧
      g.lint =
        (if ∃ n ∈ g.nodes.toList, n.classification = .entry then [] else [Diagnostic.noEntry]) ++
          ((List.range g.nodeCount).zip g.nodes.toList).flatMap fun x =>
            (if x.2.hasFlowPins = true ∧ ¬∃ e m, g.node? e = some m ∧ m.classification = .entry ∧
                Relation.ReflTransGen (branchDoc.FlowStep Registry.standard) e x.1 then
              [Diagnostic.unreachable x.2.spec.id] else []) ++
              ((List.range x.2.pins.length).filter fun p =>
                x.2.pins[p]? = some .flowOut ∧ branchDoc.wiredFrom x.2.spec.id p = false).map
                (Diagnostic.unwiredOutput x.2.spec.id) :=
  ⟨compile_branchDoc,lint_reports_authoring_gaps compile_branchDoc⟩

end Tickflow
