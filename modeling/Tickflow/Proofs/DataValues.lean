import Tickflow.Proofs.Wiring
import Tickflow.Proofs.Slots
/-! # Data reads give the wiring's values

`dataValue` is the value a data input reads, by well-founded recursion along the acyclic data
wiring. The engine reads with fuel, one more than the graph has nodes, and a node has fewer
nodes feeding it than that (`dataDepth`), so every read is the recursion's value.
-/
namespace Tickflow

namespace CompiledGraph

def Feeds (g : CompiledGraph) (j i : Nat) : Prop :=
  ∃ pin link, (g.node? i).bind (·.dataSource? pin) = some link ∧ link.node = j

/-- What a source node offers on its data output `pin`, given the values on its own data
inputs: a literal its configured value, a variable the host variable its configuration names,
a negation the negated truth of its first input, the other built-in kinds nothing, and a host
type what its type gives. -/
def offers (src : CompiledNode) (vars : List (String × Value)) (input : Nat → Value) (pin : Nat) : Value :=
  match src.kind with
  | .builtin .literal => (src.spec.configValue? "value").getD .null
  | .builtin .variableValue =>
    (((src.spec.configValue? "name").bind Value.asString?).bind fun name => lookupMember name vars).getD .null
  | .builtin .not => .bool (!(input 0).asBoolOr false)
  | .builtin _ => .null
  | kind => kind.getData src.spec ⟨input,fun name => lookupMember name vars⟩ pin

/-- One step of the recursion: the value on data input `pin` of node `idx`, given the values of
the nodes feeding it. -/
def dataStep (g : CompiledGraph) (vars : List (String × Value)) (idx : Nat)
    (read : ∀ j, g.Feeds j idx → Nat → Value) (pin : Nat) : Value :=
  match h : (g.node? idx).bind (·.dataSource? pin) with
  | some link =>
    match g.node? link.node with
    | some src => offers src vars (read link.node ⟨pin,link,h,rfl⟩) link.pin
    | none => .null
  | none => .null

open Classical in
/-- The value on data input `pin` of node `idx`: null when there is no such node or the input
is unwired, else what its source offers on the source pin. Without a well-founded data wiring
there is no recursion to run, and every value is null. -/
noncomputable def dataValue (g : CompiledGraph) (vars : List (String × Value)) : Nat → Nat → Value :=
  if hwf : WellFounded g.Feeds then hwf.fix (g.dataStep vars) else fun _ _ => .null

open Classical in
/-- The number of nodes that feed node `i` data, directly or through others. -/
noncomputable def dataDepth (g : CompiledGraph) (i : Nat) : Nat :=
  ((Finset.range g.nodeCount).filter fun j => Relation.TransGen g.Feeds j i).card

variable {g : CompiledGraph}

theorem dataValue_eq (hwf : WellFounded g.Feeds) (vars : List (String × Value)) (idx pin : Nat) :
    g.dataValue vars idx pin =
      match (g.node? idx).bind (·.dataSource? pin) with
      | some link =>
        match g.node? link.node with
        | some src => offers src vars (g.dataValue vars link.node) link.pin
        | none => .null
      | none => .null := by
  have hfix : g.dataValue vars = hwf.fix (g.dataStep vars) := by
    unfold dataValue
    rw [dif_pos hwf]
  rw [hfix,WellFounded.fix_eq]
  unfold dataStep
  -- the step's match carries its equation; the recursion's value reads the same source
  split
  · rename_i link heq
    conv_rhs => rw [heq]
  · rename_i heq
    conv_rhs => rw [heq]

theorem getData_eq_offers (src : CompiledNode) (vars : List (String × Value)) (input : Nat → Value) (pin : Nat) :
    src.kind.getData src.spec ⟨input,fun name => lookupMember name vars⟩ pin = offers src vars input pin := by
  unfold offers
  cases src.kind with
  | builtin b => cases b <;> rfl
  | host t => rfl

theorem dataDepth_le (g : CompiledGraph) (i : Nat) : g.dataDepth i ≤ g.nodeCount := by
  classical
  unfold dataDepth
  calc _ ≤ (Finset.range g.nodeCount).card := Finset.card_filter_le _ _
    _ = g.nodeCount := Finset.card_range _

section Acyclic

/- A data wiring whose sources are nodes of the graph and that has no cycle. -/
variable (hlt : ∀ j i, g.Feeds j i → j < g.nodeCount) (hac : ∀ i, ¬ Relation.TransGen g.Feeds i i)
include hlt hac

theorem dataDepth_lt {j i : Nat} (hf : g.Feeds j i) : g.dataDepth j < g.dataDepth i := by
  classical
  unfold dataDepth
  refine Finset.card_lt_card ((Finset.ssubset_iff_of_subset ?_).mpr ⟨j,?_,?_⟩)
  · intro k hk
    simp only [Finset.mem_filter] at hk ⊢
    exact ⟨hk.1,hk.2.tail hf⟩
  · simp only [Finset.mem_filter,Finset.mem_range]
    exact ⟨hlt j i hf,Relation.TransGen.single hf⟩
  · simp only [Finset.mem_filter,not_and]
    exact fun _ => hac j

theorem wellFounded_feeds : WellFounded g.Feeds :=
  Subrelation.wf (fun hf => dataDepth_lt hlt hac hf) (InvImage.wf g.dataDepth Nat.lt_wfRel.wf)

theorem dataAccess_eq (vars : List (String × Value)) :
    ∀ (fuel idx : Nat), g.dataDepth idx < fuel →
      Instance.dataAccess g vars fuel idx = ⟨g.dataValue vars idx,fun name => lookupMember name vars⟩ := by
  intro fuel
  induction fuel with
  | zero => exact fun idx hd => absurd hd (Nat.not_lt_zero _)
  | succ fuel ih =>
    intro idx hd
    rw [Instance.dataAccess]
    congr 1
    funext pin
    rw [dataValue_eq (wellFounded_feeds hlt hac)]
    cases hlink : (g.node? idx).bind (·.dataSource? pin) with
    | none => rfl
    | some link =>
      dsimp only
      cases hsrc : g.node? link.node with
      | none => rfl
      | some src =>
        have hlt' : g.dataDepth link.node < fuel := by
          have := dataDepth_lt hlt hac ⟨pin,link,hlink,rfl⟩
          omega
        dsimp only
        rw [ih link.node hlt',getData_eq_offers]

end Acyclic

variable {reg : Registry} {doc : Graph} {cg : CompiledGraph}

theorem dataSource_of_compile (h : compile reg doc = .ok cg) {i pin : Nat} {link : DataLink}
    (hl : (cg.node? i).bind (·.dataSource? pin) = some link) :
    ∃ n, cg.node? i = some n ∧ ∃ c ∈ doc.connections, doc.carries reg c = some .data ∧ c.toNode = n.spec.id ∧
      c.toPin = pin ∧ doc.position? c.fromNode = some link.node ∧ c.fromPin = link.pin := by
  cases hn : cg.node? i with
  | none =>
    rw [hn] at hl
    cases hl
  | some n =>
    rw [hn,Option.bind_some] at hl
    have hfrom := nodeFrom_of_compile h hn
    exact ⟨n,rfl,(hfrom.sources pin link).mp ((dataSource?_eq_some_iff hfrom.keys).mp hl)⟩

theorem feeds_lt_of_compile (h : compile reg doc = .ok cg) {j i : Nat} (hf : cg.Feeds j i) : j < cg.nodeCount := by
  obtain ⟨pin,link,hl,rfl⟩ := hf
  obtain ⟨-,-,c,-,-,-,-,hfrom,-⟩ := dataSource_of_compile h hl
  rw [nodeCount_of_compile h]
  exact Graph.position?_lt hfrom

theorem dataFeeds_of_feeds (h : compile reg doc = .ok cg) {j i : Nat} (hf : cg.Feeds j i) :
    doc.DataFeeds reg (cg.nodeId j) (cg.nodeId i) := by
  obtain ⟨pin,link,hl,rfl⟩ := hf
  obtain ⟨n,hn,c,hc,hdata,hto,-,hfrom,-⟩ := dataSource_of_compile h hl
  obtain ⟨m,hm,hmfrom⟩ := node?_of_position? h hfrom
  refine ⟨c,hc,?_,?_,hdata⟩
  · rw [nodeId,hm,Option.map_some,Option.getD_some]
    exact (hmfrom.id_eq hfrom).symm
  · rw [nodeId,hn,Option.map_some,Option.getD_some,hto]

theorem feeds_acyclic_of_compile (h : compile reg doc = .ok cg) (i : Nat) : ¬ Relation.TransGen cg.Feeds i i := by
  have hac : doc.DataAcyclic reg := by
    by_contra hcyc
    obtain ⟨id,he⟩ := (compile_of_items_pass (itemFault?_eq_none_of_compile h)).1 hcyc
    rw [he] at h
    cases h
  intro hi
  exact hac _ (hi.lift cg.nodeId fun a b hab => dataFeeds_of_feeds h hab)

end CompiledGraph

theorem Value.asBoolOr_false_eq_true (v : Value) : v.asBoolOr false = true ↔ v = .bool true := by
  cases v with
  | bool b => cases b <;> simp [Value.asBoolOr,Value.asBool?]
  | _ => simp [Value.asBoolOr,Value.asBool?]

namespace Instance

/-- What reading data means in an instance: every read is the wiring's value, which is null
off the graph or on an unwired input and otherwise what the source offers; a branch node takes
its first output exactly when its condition reads true, and a log node reports what its data
input reads. -/
structure ReadsDataValues (m : Instance) : Prop where
  read : ∀ idx pin, m.readDataPin idx pin = m.graph.dataValue m.hostVariables idx pin
  absent : ∀ idx pin, m.graph.node? idx = none → m.graph.dataValue m.hostVariables idx pin = .null
  unwired : ∀ idx pin (n : CompiledNode), m.graph.node? idx = some n → n.dataSource? pin = none →
    m.graph.dataValue m.hostVariables idx pin = .null
  wired : ∀ idx pin (n : CompiledNode) (link : DataLink), m.graph.node? idx = some n → n.dataSource? pin = some link →
    ∃ src, m.graph.node? link.node = some src ∧ m.graph.dataValue m.hostVariables idx pin =
      CompiledGraph.offers src m.hostVariables (m.graph.dataValue m.hostVariables link.node) link.pin
  branch : ∀ (n : CompiledNode) (t : Token) (dt : Binary64), n.kind = .builtin .branch →
    (m.invoke n t dt).1.result = NodeResult.fire (PinSet.single 0) ∧
        m.graph.dataValue m.hostVariables t.node 1 = .bool true ∨
      (m.invoke n t dt).1.result = NodeResult.fire (PinSet.single 1) ∧
        m.graph.dataValue m.hostVariables t.node 1 ≠ .bool true
  log : ∀ (n : CompiledNode) (t : Token) (dt : Binary64), n.kind = .builtin .log →
    (m.invoke n t dt).1.events = [.info (Builtin.logMessage n.spec (m.graph.dataValue m.hostVariables t.node 1))]

variable {reg : Registry} {doc : Graph} {m : Instance}

theorem readDataPin_eq (h : CompiledGraph.compile reg doc = .ok m.graph) (idx pin : Nat) :
    m.readDataPin idx pin = m.graph.dataValue m.hostVariables idx pin := by
  unfold readDataPin
  rw [CompiledGraph.dataAccess_eq (fun _ _ hf => CompiledGraph.feeds_lt_of_compile h hf)
    (CompiledGraph.feeds_acyclic_of_compile h) _ _ _ (Nat.lt_succ_of_le (m.graph.dataDepth_le idx))]

theorem invoke_readPin (h : CompiledGraph.compile reg doc = .ok m.graph) (t : Token) (pin : Nat) :
    (dataAccess m.graph m.hostVariables (m.graph.nodeCount + 1) t.node).readPin pin =
      m.graph.dataValue m.hostVariables t.node pin :=
  readDataPin_eq h t.node pin

/-- Data reads in an instance of a compiled graph are the wiring's values. -/
theorem data_reads_exact (h : CompiledGraph.compile reg doc = .ok m.graph) : m.ReadsDataValues := by
  have hwf := CompiledGraph.wellFounded_feeds (fun _ _ hf => CompiledGraph.feeds_lt_of_compile h hf)
    (CompiledGraph.feeds_acyclic_of_compile h)
  refine ⟨readDataPin_eq h,fun idx pin hn => ?_,fun idx pin n hn hs => ?_,fun idx pin n link hn hs => ?_,
    fun n t dt hk => ?_,fun n t dt hk => ?_⟩
  · rw [CompiledGraph.dataValue_eq hwf,hn]
    rfl
  · rw [CompiledGraph.dataValue_eq hwf,hn,Option.bind_some,hs]
  · have hl : (m.graph.node? idx).bind (·.dataSource? pin) = some link := by
      rw [hn,Option.bind_some,hs]
    have hlt : link.node < m.graph.nodes.size := CompiledGraph.feeds_lt_of_compile h ⟨pin,link,hl,rfl⟩
    have hsrc : m.graph.node? link.node = some m.graph.nodes[link.node] := Array.getElem?_eq_getElem hlt
    refine ⟨_,hsrc,?_⟩
    rw [CompiledGraph.dataValue_eq hwf,hl]
    dsimp only
    rw [hsrc]
  · have hread := invoke_readPin h t 1
    rw [(invoke_eq m n t dt).1,hk]
    simp only [NodeKind.update,Builtin.update,hread]
    cases hc : (m.graph.dataValue m.hostVariables t.node 1).asBoolOr false
    · refine Or.inr ⟨rfl,fun heq => ?_⟩
      rw [(Value.asBoolOr_false_eq_true _).mpr heq] at hc
      cases hc
    · exact Or.inl ⟨rfl,(Value.asBoolOr_false_eq_true _).mp hc⟩
  · rw [(invoke_eq m n t dt).1,hk]
    simp only [NodeKind.update,Builtin.update,invoke_readPin h t 1]

theorem data_reads_exact_branch :
    CompiledGraph.compile Registry.standard CompiledGraph.branchDoc =
        .ok (Instance.create CompiledGraph.branchGraph false).graph ∧
      (Instance.create CompiledGraph.branchGraph false).ReadsDataValues :=
  ⟨CompiledGraph.compile_branchDoc,data_reads_exact CompiledGraph.compile_branchDoc⟩

end Instance

end Tickflow
