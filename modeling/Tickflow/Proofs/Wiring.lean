import Tickflow.Proofs.Checking
/-! # What compiling wires

The compiled nodes are the definition's nodes in order, their targets the connections leaving
each ordinal's pin in connection order, and their data inputs read from the one connection that
feeds them. `WiredBy` says what the connections wired so far leave.
-/
namespace Tickflow

namespace Graph

/-- The flow wire a connection makes: from its source's position and output ordinal to its
target's position and pin; none for a connection that carries no flow. -/
def flowWire? (reg : Registry) (g : Graph) (c : Connection) : Option (Nat × Nat × Nat × Nat) :=
  if g.carries reg c = some .flow then
    match g.position? c.fromNode,g.kindOf? reg c.fromNode,g.position? c.toNode with
    | some i,some kind,some j => some (i,kind.flowOutputs.idxOf c.fromPin,j,c.toPin)
    | _,_,_ => none
  else none

end Graph

namespace CompiledGraph

variable {reg : Registry} {g : Graph} {done : List Connection} {w : Wiring}

/-! ## One connection -/

theorem pinType?_of_match {id : Uuid} {pin : Nat} {p : PinType}
    (h : (match g.pinType? reg id pin with
      | some p => (.ok p : Except DefinitionError PinType)
      | none => .error (.pinOutOfRange id pin)) = .ok p) : g.pinType? reg id pin = some p := by
  split at h
  · rename_i q hq
    cases h
    exact hq
  · cases h

theorem direction_of_expectDirection {id : Uuid} {pin : Nat} {p : PinType} {d : PinDirection} {u : Unit}
    (h : expectDirection id pin p d = .ok u) : p.direction = d := by
  unfold expectDirection at h
  split at h
  · assumption
  · cases h

theorem wire_eq_ok (ht : Tracks reg g done w) {c : Connection} {w' : Wiring} (h : wire w c = .ok w') :
    ∃ i j src dst, g.position? c.fromNode = some i ∧ g.position? c.toNode = some j ∧
      g.pinType? reg c.fromNode c.fromPin = some src ∧ g.pinType? reg c.toNode c.toPin = some dst ∧
      src.direction = .output ∧ dst.direction = .input ∧ src.kind = dst.kind ∧
      ((src.kind = .flow ∧ w' = { w with
          nodes := w.nodes.modify j fun n => { n with connectedInputs := n.connectedInputs.add c.toPin }
          flowWires := w.flowWires ++ [(i,((w.nodes[i]?.map (·.flowOutputs)).getD []).idxOf c.fromPin,j,c.toPin)]
          flowEdges := w.flowEdges ++ [(i,j)] }) ∨
        (src.kind = .data ∧ (((w.nodes[j]?.map (·.dataSources)).getD []).find? (·.1 == c.toPin)).isSome = false ∧
          w' = { w with
            nodes := w.nodes.modify j fun n => { n with
              dataSources := (n.dataSources ++ [(c.toPin,(⟨i,c.fromPin⟩ : DataLink))]).mergeSort fun a b => a.1 ≤ b.1 }
            dataEdges := w.dataEdges ++ [(i,j)] })) := by
  unfold wire at h
  rw [ht.findIdx?_eq,ht.findIdx?_eq] at h
  cases hi : g.position? c.fromNode with
  | none =>
    simp only [hi] at h
    cases h
  | some i =>
    cases hj : g.position? c.toNode with
    | none =>
      simp only [hi,hj] at h
      cases h
    | some j =>
      simp only [hi,hj,ht.pinAt_eq hi,ht.pinAt_eq hj] at h
      obtain ⟨src,hs,h⟩ := except_bind_eq_ok h
      obtain ⟨dst,hd,h⟩ := except_bind_eq_ok h
      obtain ⟨u₁,h₁,h⟩ := except_bind_eq_ok h
      obtain ⟨u₂,h₂,h⟩ := except_bind_eq_ok h
      refine ⟨i,j,src,dst,rfl,rfl,pinType?_of_match hs,pinType?_of_match hd,direction_of_expectDirection h₁,
        direction_of_expectDirection h₂,?_⟩
      split at h
      · cases h
      · rename_i hk
        refine ⟨not_not.mp hk,?_⟩
        split at h
        · rename_i hflow
          cases h
          exact Or.inl ⟨hflow,rfl⟩
        · rename_i hdata
          split at h
          · cases h
          · rename_i hfree
            cases h
            exact Or.inr ⟨hdata,Bool.eq_false_iff.mpr hfree,rfl⟩

theorem Tracks.wire (ht : Tracks reg g done w) (hnd : (g.nodes.map (·.id)).Nodup) {c : Connection} {w' : Wiring}
    (h : CompiledGraph.wire w c = .ok w') : Tracks reg g (done ++ [c]) w' := by
  obtain ⟨i,j,src,dst,hi,hj,hs,hd,-,-,hk,hcase⟩ := wire_eq_ok ht h
  rcases hcase with ⟨hflow,rfl⟩ | ⟨hdata,-,rfl⟩
  · exact ht.flow hi hj hs hd hk hflow
  · exact ht.data hnd hi hj hs hd hk hdata

theorem exists_mem_concat_iff {done : List Connection} {c : Connection} {P : Connection → Prop} :
    (∃ b ∈ done ++ [c], P b) ↔ (∃ b ∈ done, P b) ∨ P c := by
  simp [or_and_right,exists_or]

theorem Tracks.toNode_iff (ht : Tracks reg g done w) (hnd : (g.nodes.map (·.id)).Nodup) {id : Uuid} {j k : Nat}
    (hj : g.position? id = some j) {n : CompiledNode} (hn : w.nodes[k]? = some n) : id = n.spec.id ↔ k = j := by
  obtain ⟨spec,hs,hf⟩ := ht.node k n hn
  rw [hf.spec_eq]
  constructor
  · rintro rfl
    rw [Graph.position?_of_getElem? hnd hs] at hj
    exact Option.some.inj hj
  · rintro rfl
    obtain ⟨spec',hs',hid⟩ := Graph.position?_spec hj
    rw [hs] at hs'
    rw [← Option.some.inj hs'] at hid
    exact hid.symm

theorem pin_lt_of_pinType? (hpins : ∀ spec ∈ g.nodes, ∀ kind, lookupMember spec.nodeType reg.types = some kind →
    kind.pins.length ≤ maxPins) {id : Uuid} {pin : Nat} {p : PinType} (h : g.pinType? reg id pin = some p) :
    pin < maxPins := by
  unfold Graph.pinType? Graph.kindOf? at h
  cases hf : g.findNode? id with
  | none => simp [hf] at h
  | some spec =>
    cases hk : lookupMember spec.nodeType reg.types with
    | none => simp [hf,hk] at h
    | some kind =>
      simp only [hf,hk,Option.bind_some] at h
      have hlt := (List.getElem?_eq_some_iff.mp h).1
      have hle := hpins spec (List.mem_of_find?_eq_some hf) kind hk
      omega

theorem dataSource?_eq_some_iff {n : CompiledNode} (hnd : (n.dataSources.map (·.1)).Nodup) {p : Nat} {l : DataLink} :
    n.dataSource? p = some l ↔ (p,l) ∈ n.dataSources := by
  unfold CompiledNode.dataSource?
  constructor
  · intro h
    obtain ⟨x,hx,rfl⟩ := Option.map_eq_some_iff.mp h
    have hmem := List.mem_of_find?_eq_some hx
    have hkey : x.1 = p := by simpa using List.find?_some hx
    rw [← hkey]
    exact hmem
  · intro h
    cases hf : n.dataSources.find? (·.1 == p) with
    | none =>
      have := List.find?_eq_none.mp hf (p,l) h
      simp at this
    | some x =>
      have hmem := List.mem_of_find?_eq_some hf
      have hkey : x.1 = p := by simpa using List.find?_some hf
      have hx : x = (p,l) := List.inj_on_of_nodup_map hnd hmem h hkey
      rw [hx]
      rfl

theorem Tracks.flowWire?_eq (ht : Tracks reg g done w) {c : Connection} {i j : Nat}
    (hi : g.position? c.fromNode = some i) (hj : g.position? c.toNode = some j) (hflow : g.carries reg c = some .flow) :
    g.flowWire? reg c = some (i,((w.nodes[i]?.map (·.flowOutputs)).getD []).idxOf c.fromPin,j,c.toPin) := by
  have hsize : i < w.nodes.size := by rw [ht.size_eq]; exact Graph.position?_lt hi
  obtain ⟨spec,-,hf⟩ := ht.node i w.nodes[i] (Array.getElem?_eq_getElem hsize)
  rw [Graph.flowWire?,if_pos hflow,hi,ht.kindOf? hi (Array.getElem?_eq_getElem hsize),hj,
    Array.getElem?_eq_getElem hsize,Option.map_some,Option.getD_some,hf.flowOutputs]

/-! ## Wiring every connection -/

/-- What the connections `done` of `g` leave in a wiring, exactly: the flow wires they make, in
order, and a flow edge for each; at each node, the flow inputs they reach and, keyed once each,
the data sources they give. -/
structure WiredBy (reg : Registry) (g : Graph) (done : List Connection) (w : Wiring) : Prop where
  flowWires : w.flowWires = done.filterMap (g.flowWire? reg)
  flowEdges : w.flowEdges = w.flowWires.map fun fw => (fw.1,fw.2.2.1)
  inputs : ∀ (k : Nat) (n : CompiledNode), w.nodes[k]? = some n → ∀ p,
    n.connectedInputs.contains p = true ↔ ∃ c ∈ done, g.carries reg c = some .flow ∧ c.toNode = n.spec.id ∧ c.toPin = p
  keys : ∀ (k : Nat) (n : CompiledNode), w.nodes[k]? = some n → (n.dataSources.map (·.1)).Nodup
  sources : ∀ (k : Nat) (n : CompiledNode), w.nodes[k]? = some n → ∀ p l,
    (p,l) ∈ n.dataSources ↔ ∃ c ∈ done, g.carries reg c = some .data ∧ c.toNode = n.spec.id ∧ c.toPin = p ∧
      g.position? c.fromNode = some l.node ∧ c.fromPin = l.pin

theorem WiredBy.wire (ht : Tracks reg g done w) (hnd : (g.nodes.map (·.id)).Nodup)
    (hpins : ∀ spec ∈ g.nodes, ∀ kind, lookupMember spec.nodeType reg.types = some kind → kind.pins.length ≤ maxPins)
    (hx : WiredBy reg g done w) {c : Connection} {w' : Wiring} (hwire : CompiledGraph.wire w c = .ok w') :
    WiredBy reg g (done ++ [c]) w' := by
  obtain ⟨i,j,src,dst,hi,hj,hs,hd,-,-,hk,hcase⟩ := wire_eq_ok ht hwire
  clear hwire
  have hcarries : g.carries reg c = some src.kind := by
    rw [Graph.carries,hs]
    rfl
  have hto := fun {k : Nat} {n : CompiledNode} (hn : w.nodes[k]? = some n) => ht.toNode_iff hnd hj hn
  rcases hcase with ⟨hflow,rfl⟩ | ⟨hdata,hfree,rfl⟩
  · rw [hflow] at hcarries
    refine ⟨?_,?_,?_,?_,?_⟩
    · show w.flowWires ++ _ = _
      rw [List.filterMap_append,hx.flowWires,List.filterMap_cons,ht.flowWire?_eq hi hj hcarries]
      rfl
    · show w.flowEdges ++ _ = (w.flowWires ++ _).map _
      rw [hx.flowEdges,List.map_append]
      rfl
    · intro k n' hk' p
      rw [exists_mem_concat_iff]
      obtain ⟨n,hn,⟨rfl,rfl⟩ | ⟨hkj,rfl⟩⟩ := exists_of_getElem?_modify hk'
      · have hlt : c.toPin < 16 := pin_lt_of_pinType? hpins hd
        rw [PinSet.contains_add,Bool.or_eq_true,hx.inputs k n hn p]
        simp only [Bool.and_eq_true,decide_eq_true_eq,hlt,and_true]
        exact or_congr_right ⟨fun h => ⟨hcarries,(hto hn).mpr rfl,h.symm⟩,fun h => h.2.2.symm⟩
      · rw [hx.inputs k n' hn p,or_iff_left fun h => hkj ((hto hn).mp h.2.1)]
    · intro k n' hk'
      obtain ⟨n,hn,⟨-,rfl⟩ | ⟨-,rfl⟩⟩ := exists_of_getElem?_modify hk'
      · exact hx.keys k n hn
      · exact hx.keys k n' hn
    · intro k n' hk' p l
      rw [exists_mem_concat_iff]
      have hsame : ∃ n, w.nodes[k]? = some n ∧ n'.dataSources = n.dataSources ∧ n'.spec = n.spec := by
        obtain ⟨n,hn,⟨-,rfl⟩ | ⟨-,rfl⟩⟩ := exists_of_getElem?_modify hk'
        · exact ⟨n,hn,rfl,rfl⟩
        · exact ⟨n',hn,rfl,rfl⟩
      obtain ⟨n,hn,hds,hsp⟩ := hsame
      rw [hds,hsp,hx.sources k n hn p l,or_iff_left fun h => by simp [hcarries] at h]
  · rw [hdata] at hcarries
    have hnone : g.flowWire? reg c = none := by
      rw [Graph.flowWire?,if_neg (by rw [hcarries]; decide)]
    refine ⟨?_,hx.flowEdges,?_,?_,?_⟩
    · show w.flowWires = _
      rw [List.filterMap_append,hx.flowWires,List.filterMap_cons,hnone,List.filterMap_nil,List.append_nil]
    · intro k n' hk' p
      rw [exists_mem_concat_iff]
      have hsame : ∃ n, w.nodes[k]? = some n ∧ n'.connectedInputs = n.connectedInputs ∧ n'.spec = n.spec := by
        obtain ⟨n,hn,⟨-,rfl⟩ | ⟨-,rfl⟩⟩ := exists_of_getElem?_modify hk'
        · exact ⟨n,hn,rfl,rfl⟩
        · exact ⟨n',hn,rfl,rfl⟩
      obtain ⟨n,hn,hci,hsp⟩ := hsame
      rw [hci,hsp,hx.inputs k n hn p,or_iff_left fun h => by simp [hcarries] at h]
    · intro k n' hk'
      obtain ⟨n,hn,⟨rfl,rfl⟩ | ⟨-,rfl⟩⟩ := exists_of_getElem?_modify hk'
      · rw [hn,Option.map_some,Option.getD_some,Bool.eq_false_iff,ne_eq,List.find?_isSome] at hfree
        have hq : c.toPin ∉ n.dataSources.map (·.1) := by
          intro hq
          obtain ⟨x,hx',hxk⟩ := List.mem_map.mp hq
          exact hfree ⟨x,hx',by simp [hxk]⟩
        refine ((List.mergeSort_perm _ _).map _).nodup_iff.mpr ?_
        rw [List.map_append,List.nodup_append]
        exact ⟨hx.keys k n hn,List.nodup_singleton _,fun a ha b hb => by
          rw [List.map_singleton,List.mem_singleton] at hb
          rintro rfl
          rw [hb] at ha
          exact hq ha⟩
      · exact hx.keys k n' hn
    · intro k n' hk' p l
      rw [exists_mem_concat_iff]
      obtain ⟨n,hn,⟨rfl,rfl⟩ | ⟨hkj,rfl⟩⟩ := exists_of_getElem?_modify hk'
      · simp only [(List.mergeSort_perm _ _).mem_iff,List.mem_append,List.mem_singleton,hx.sources k n hn p l]
        refine or_congr_right ⟨fun he => ?_,?_⟩
        · obtain ⟨rfl,rfl⟩ := Prod.mk.inj he
          exact ⟨hcarries,(hto hn).mpr rfl,rfl,hi,rfl⟩
        · rintro ⟨-,-,rfl,hl,hp⟩
          rw [hi] at hl
          cases l
          simp only [Option.some.injEq] at hl
          rw [hl,hp]
      · rw [hx.sources k n' hn p l,or_iff_left fun h => hkj ((hto hn).mp h.2.1)]

theorem WiredBy.init {ns : List CompiledNode} (hfresh : List.Forall₂ (Fresh reg) g.nodes ns)
    (hin : ∀ n ∈ ns, n.connectedInputs = PinSet.empty) : WiredBy reg g [] { nodes := ns.toArray } where
  flowWires := rfl
  flowEdges := rfl
  inputs k n hn p := by
    rw [List.getElem?_toArray] at hn
    rw [hin n (List.mem_of_getElem? hn)]
    simp
  keys k n hn := by
    rw [List.getElem?_toArray] at hn
    obtain ⟨hk,rfl⟩ := List.getElem?_eq_some_iff.mp hn
    have hk' : k < g.nodes.length := by rw [hfresh.length_eq]; exact hk
    have hf : Fresh reg g.nodes[k] ns[k] := hfresh.get hk' hk
    rw [hf.dataSources]
    exact List.nodup_nil
  sources k n hn p l := by
    rw [List.getElem?_toArray] at hn
    obtain ⟨hk,rfl⟩ := List.getElem?_eq_some_iff.mp hn
    have hk' : k < g.nodes.length := by rw [hfresh.length_eq]; exact hk
    have hf : Fresh reg g.nodes[k] ns[k] := hfresh.get hk' hk
    rw [hf.dataSources]
    simp

theorem WiredBy.foldlM (hnd : (g.nodes.map (·.id)).Nodup)
    (hpins : ∀ spec ∈ g.nodes, ∀ kind, lookupMember spec.nodeType reg.types = some kind → kind.pins.length ≤ maxPins) :
    ∀ {conns : List Connection} {done : List Connection} {w w' : Wiring}, Tracks reg g done w → WiredBy reg g done w →
      conns.foldlM CompiledGraph.wire w = .ok w' → Tracks reg g (done ++ conns) w' ∧ WiredBy reg g (done ++ conns) w'
  | [],done,w,w',ht,hx,h => by
    cases h
    rw [List.append_nil]
    exact ⟨ht,hx⟩
  | c :: rest,done,w,w',ht,hx,h => by
    rw [List.foldlM_cons] at h
    obtain ⟨w₁,h₁,h₂⟩ := except_bind_eq_ok h
    have hstep := WiredBy.foldlM hnd hpins (ht.wire hnd h₁) (hx.wire ht hnd hpins h₁) h₂
    rwa [List.append_assoc,List.singleton_append] at hstep

theorem compileNodes_forall (P : CompiledNode → Prop)
    (hP : ∀ seen spec n, compileNode reg seen spec = .ok n → P n) :
    ∀ {seen : List Uuid} {specs : List NodeSpec} {ns : List CompiledNode},
      compileNodes reg seen specs = .ok ns → ∀ n ∈ ns, P n
  | _,[],_,h => by
    cases h
    intro n hn
    exact absurd hn List.not_mem_nil
  | seen,spec :: rest,_,h => by
    simp only [compileNodes] at h
    obtain ⟨n,hn,h⟩ := except_bind_eq_ok h
    obtain ⟨ns,hns,h⟩ := except_bind_eq_ok h
    cases h
    intro m hm
    rcases List.mem_cons.mp hm with rfl | hm
    · exact hP seen spec m hn
    · exact compileNodes_forall P hP hns m hm

theorem compileNode_connectedInputs {seen : List Uuid} {spec : NodeSpec} {n : CompiledNode}
    (h : compileNode reg seen spec = .ok n) : n.connectedInputs = PinSet.empty := by
  obtain ⟨kind,-,-,-,-,rfl⟩ := compileNode_eq h
  rfl

/-! ## The compiled graph and its definition -/

variable {doc : Graph} {cg : CompiledGraph}

theorem itemFault?_eq_none_of_compile (h : compile reg doc = .ok cg) : doc.itemFault? reg = none := by
  cases hi : doc.itemFault? reg with
  | none => rfl
  | some e =>
    rw [compile_of_itemFault? hi] at h
    cases h

theorem connections_pass_of_compile (h : compile reg doc = .ok cg) :
    firstFault? (doc.connectionFault? reg) [] doc.connections = none := by
  have hi := itemFault?_eq_none_of_compile h
  rw [Graph.itemFault?] at hi
  cases hnf : firstFault? (Graph.nodeFault? reg) [] doc.nodes with
  | some e =>
    rw [hnf] at hi
    cases hi
  | none =>
    rw [hnf,Option.orElse_none] at hi
    exact hi

theorem checked_of_compile (h : compile reg doc = .ok cg) :
    (doc.nodes.map (·.id)).Nodup ∧
      (∀ spec ∈ doc.nodes, ∀ kind, lookupMember spec.nodeType reg.types = some kind → kind.pins.length ≤ maxPins) ∧
      ∀ c ∈ doc.connections, ∃ pre, doc.connectionFault? reg pre c = none := by
  obtain ⟨-,-,-,-,-,-,hnd,hpins⟩ := wired_of_itemFault?_eq_none (itemFault?_eq_none_of_compile h)
  exact ⟨hnd,hpins,forall_of_firstFault?_eq_none (connections_pass_of_compile h)⟩

/-- A compiled graph is laid out from a wiring of every connection that tracks the definition
and is exact, its targets placed with the back edges of a search from every node. -/
theorem compile_layout (h : compile reg doc = .ok cg) :
    ∃ w starts, Tracks reg doc doc.connections w ∧ WiredBy reg doc doc.connections w ∧
      (∀ u ∈ starts, u < doc.nodes.length) ∧ (∀ x < doc.nodes.length, x ∈ starts) ∧
      cg.nodes = placeTargets w.nodes (cg.flow.backEdges starts) w.flowWires ∧
      cg.flow = ⟨doc.nodes.length,w.flowEdges⟩ := by
  obtain ⟨hnd,hpins,-⟩ := checked_of_compile h
  have hi := itemFault?_eq_none_of_compile h
  obtain ⟨nodes,w,hn,hw,starts,hin,hall,hnodes,hflow,-⟩ := compile_eq h
  have hnf : firstFault? (Graph.nodeFault? reg) [] doc.nodes = none := by
    rw [Graph.itemFault?] at hi
    cases hf : firstFault? (Graph.nodeFault? reg) [] doc.nodes with
    | none => rfl
    | some e =>
      rw [hf] at hi
      cases hi
  obtain ⟨ns,hns,hfresh⟩ := (compileNodes_verdict reg doc.nodes [] [] (by simp) rfl).2 hnf
  rw [hns] at hn
  cases hn
  have hlen : nodes.length = doc.nodes.length := hfresh.length_eq.symm
  obtain ⟨ht,hx⟩ := WiredBy.foldlM hnd hpins (Tracks.init hfresh)
    (WiredBy.init hfresh (compileNodes_forall _ (fun _ _ _ => compileNode_connectedInputs) hns)) hw
  rw [List.nil_append] at ht hx
  rw [hlen] at hin hall
  exact ⟨w,starts,ht,hx,hin,hall,by rw [hnodes,hflow],by rw [hflow,hlen]⟩

/-! ## Placing the targets -/

theorem placeTargets_getD (back : List (Nat × Nat)) :
    ∀ (wires : List (Nat × Nat × Nat × Nat)) (nodes : Array CompiledNode) (x : Nat) (n : CompiledNode),
      nodes[x]? = some n → ∃ n', (placeTargets nodes back wires)[x]? = some n' ∧
        n'.targets.length = n.targets.length ∧ ∀ o < n.targets.length,
          n'.targets.getD o [] = n.targets.getD o [] ++ (wires.filter fun fw => fw.1 == x && fw.2.1 == o).map
            fun fw => (⟨fw.2.2.1,fw.2.2.2,back.contains (x,fw.2.2.1)⟩ : FlowTarget)
  | [],nodes,x,n,hn => ⟨n,hn,rfl,fun o _ => by simp⟩
  | (src,ord,dst,pin) :: rest,nodes,x,n,hn => by
    let f : CompiledNode → CompiledNode := fun m =>
      { m with targets := m.targets.modify ord (· ++ [⟨dst,pin,back.contains (src,dst)⟩]) }
    have hn₁ : (nodes.modify src f)[x]? = some (if src = x then f n else n) := by
      rw [Array.getElem?_modify,hn]
      split <;> rfl
    obtain ⟨n',hn',hlen,hget⟩ := placeTargets_getD back rest (nodes.modify src f) x _ hn₁
    have hlen₁ : (if src = x then f n else n).targets.length = n.targets.length := by
      split
      · exact List.length_modify _ _ _
      · rfl
    refine ⟨n',hn',hlen.trans hlen₁,fun o ho => ?_⟩
    rw [hget o (by rw [hlen₁]; exact ho)]
    have hhead : (if src = x then f n else n).targets.getD o [] =
        n.targets.getD o [] ++ if src = x ∧ ord = o then [⟨dst,pin,back.contains (x,dst)⟩] else [] := by
      by_cases hsx : src = x
      · subst hsx
        rw [if_pos rfl]
        simp only [f,List.getD_eq_getElem?_getD,List.getElem?_modify]
        by_cases hoo : ord = o
        · simp [hoo,List.getElem?_eq_getElem ho]
        · simp [hoo]
      · simp [hsx]
    rw [hhead,List.append_assoc,List.filter_cons]
    by_cases hw : src = x ∧ ord = o
    · obtain ⟨rfl,rfl⟩ := hw
      simp
    · have hw' : (src == x && ord == o) = false := by
        simpa using hw
      simp only [hw,if_false,hw',Bool.false_eq_true,List.nil_append]

variable (reg doc cg) in
/-- What a compiled node keeps of its definition and its wiring: the node of the definition at
its position and that node's registered type, the type's flow outputs, one list of targets for
each, the flow inputs that flow connections reach, and the one data source of each input that a
data connection feeds. -/
structure NodeFrom (x : Nat) (n : CompiledNode) : Prop where
  spec : doc.nodes[x]? = some n.spec
  kind : lookupMember n.spec.nodeType reg.types = some n.kind
  flowOutputs : n.flowOutputs = n.kind.flowOutputs
  targets_length : n.targets.length = n.flowOutputs.length
  inputs : ∀ p, n.connectedInputs.contains p = true ↔
    ∃ c ∈ doc.connections, doc.carries reg c = some .flow ∧ c.toNode = n.spec.id ∧ c.toPin = p
  keys : (n.dataSources.map (·.1)).Nodup
  sources : ∀ p l, (p,l) ∈ n.dataSources ↔ ∃ c ∈ doc.connections, doc.carries reg c = some .data ∧
    c.toNode = n.spec.id ∧ c.toPin = p ∧ doc.position? c.fromNode = some l.node ∧ c.fromPin = l.pin

theorem nodeFrom_of_compile (h : compile reg doc = .ok cg) {x : Nat} {n : CompiledNode} (hn : cg.node? x = some n) :
    NodeFrom reg doc x n := by
  obtain ⟨w,starts,ht,hx,-,-,hnodes,-⟩ := compile_layout h
  unfold node? at hn
  rw [hnodes] at hn
  have hview := placeTargets_getElem? (cg.flow.backEdges starts)
    (fun n => (n.spec,n.kind,n.flowOutputs,n.connectedInputs,n.dataSources)) (fun _ _ => rfl) w.nodes w.flowWires x
  rw [hn] at hview
  cases hm : w.nodes[x]? with
  | none =>
    rw [hm] at hview
    cases hview
  | some m =>
    rw [hm] at hview
    simp only [Option.map_some,Option.some.injEq,Prod.mk.injEq] at hview
    obtain ⟨hspec,hkind,hout,hin,hsrc⟩ := hview
    obtain ⟨spec,hs,hf⟩ := ht.node x m hm
    obtain ⟨n',hn',hlen,-⟩ := placeTargets_getD (cg.flow.backEdges starts) w.flowWires w.nodes x m hm
    rw [hn] at hn'
    cases hn'
    refine ⟨by rw [hspec,hf.spec_eq]; exact hs,by rw [hspec,hkind,hf.spec_eq]; exact hf.kind,
      by rw [hout,hkind]; exact hf.flowOutputs,by rw [hlen,hf.targets,List.length_replicate,hout],?_,?_,?_⟩
    · intro p
      rw [hin,hspec]
      exact hx.inputs x m hm p
    · rw [hsrc]
      exact hx.keys x m hm
    · intro p l
      rw [hsrc,hspec]
      exact hx.sources x m hm p l

theorem NodeFrom.id_eq {x : Nat} {n : CompiledNode} (hn : NodeFrom reg doc x n) {id : Uuid}
    (hid : doc.position? id = some x) : n.spec.id = id := by
  obtain ⟨spec,hspec,hsid⟩ := Graph.position?_spec hid
  rw [hn.spec] at hspec
  cases hspec
  exact hsid

theorem NodeFrom.kindOf? {x : Nat} {n : CompiledNode} (hn : NodeFrom reg doc x n) {id : Uuid}
    (hid : doc.position? id = some x) : doc.kindOf? reg id = some n.kind := by
  rw [Graph.kindOf?,Graph.findNode?_of_position? hid,hn.spec]
  exact hn.kind

theorem nodeCount_of_compile (h : compile reg doc = .ok cg) : cg.nodeCount = doc.nodes.length := by
  obtain ⟨w,starts,ht,-,-,-,hnodes,-⟩ := compile_layout h
  unfold nodeCount
  rw [hnodes,size_placeTargets,ht.size_eq]

theorem node?_of_position? (h : compile reg doc = .ok cg) {id : Uuid} {j : Nat} (hj : doc.position? id = some j) :
    ∃ m, cg.node? j = some m ∧ NodeFrom reg doc j m := by
  have hlt : j < cg.nodes.size := by
    rw [← nodeCount,nodeCount_of_compile h]
    exact Graph.position?_lt hj
  exact ⟨cg.nodes[j],Array.getElem?_eq_getElem hlt,nodeFrom_of_compile h (Array.getElem?_eq_getElem hlt)⟩

theorem specs_of_compile (h : compile reg doc = .ok cg) : cg.nodes.toList.map (·.spec) = doc.nodes := by
  refine List.ext_getElem? fun i => ?_
  rw [List.getElem?_map,Array.getElem?_toList]
  cases hn : cg.nodes[i]? with
  | none =>
    have hi : doc.nodes.length ≤ i := by
      rw [← nodeCount_of_compile h]
      exact Array.getElem?_eq_none_iff.mp hn
    rw [List.getElem?_eq_none hi]
    rfl
  | some n => exact ((nodeFrom_of_compile h hn).spec).symm

theorem indexOf?_of_compile (h : compile reg doc = .ok cg) (id : Uuid) : cg.indexOf? id = doc.position? id := by
  rw [Graph.position?,← specs_of_compile h,List.findIdx?_map,← List.findIdx?_toArray,Array.toArray_toList]
  rfl

theorem targetsOf_of_compile (h : compile reg doc = .ok cg) :
    ∃ starts, (∀ u ∈ starts, u < doc.nodes.length) ∧ (∀ x < doc.nodes.length, x ∈ starts) ∧
      ∀ (x : Nat) (n : CompiledNode), cg.node? x = some n → ∀ o, n.targetsOf o =
        if o < n.flowOutputs.length then
          ((doc.connections.filterMap (doc.flowWire? reg)).filter fun fw => fw.1 == x && fw.2.1 == o).map
            fun fw => (⟨fw.2.2.1,fw.2.2.2,(cg.flow.backEdges starts).contains (x,fw.2.2.1)⟩ : FlowTarget)
        else [] := by
  obtain ⟨w,starts,ht,hx,hin,hall,hnodes,-⟩ := compile_layout h
  refine ⟨starts,hin,hall,fun x n hn o => ?_⟩
  have hlen := (nodeFrom_of_compile h hn).targets_length
  unfold node? at hn
  rw [hnodes] at hn
  have hx' : x < w.nodes.size := by
    have hsize : (placeTargets w.nodes (cg.flow.backEdges starts) w.flowWires).size = w.nodes.size :=
      size_placeTargets w.nodes w.flowWires
    rw [← hsize]
    exact (Array.getElem?_eq_some_iff.mp hn).1
  obtain ⟨spec,-,hf⟩ := ht.node x w.nodes[x] (Array.getElem?_eq_getElem hx')
  obtain ⟨n',hn',hlen',hget⟩ := placeTargets_getD (cg.flow.backEdges starts) w.flowWires w.nodes x w.nodes[x]
    (Array.getElem?_eq_getElem hx')
  rw [hn] at hn'
  cases hn'
  unfold CompiledNode.targetsOf
  split
  · rename_i ho
    rw [hget o (by rw [← hlen']; omega),hf.targets,← hx.flowWires]
    simp [List.getD_eq_getElem?_getD]
  · rename_i ho
    rw [List.getD_eq_getElem?_getD,List.getElem?_eq_none (by omega)]
    rfl

theorem pins_of_connectionFault?_eq_none {pre : List Connection} {c : Connection}
    (h : doc.connectionFault? reg pre c = none) :
    ∃ src dst, doc.pinType? reg c.fromNode c.fromPin = some src ∧ doc.pinType? reg c.toNode c.toPin = some dst ∧
      src.direction = .output ∧ dst.direction = .input ∧ src.kind = dst.kind ∧
      ¬(src.kind = .data ∧ pre.any (fun b => b.toNode == c.toNode && b.toPin == c.toPin) = true) := by
  unfold Graph.connectionFault? at h
  split at h
  · cases h
  split at h
  · cases h
  split at h
  · cases h
  · cases h
  · rename_i src dst hsrc hdst
    refine ⟨src,dst,hsrc,hdst,?_⟩
    split at h
    · cases h
    split at h
    · cases h
    split at h
    · cases h
    split at h
    · cases h
    rename_i h₁ h₂ h₃ h₄
    exact ⟨not_not.mp h₁,not_not.mp h₂,not_not.mp h₃,h₄⟩

theorem flowWire?_filter (hnd : (doc.nodes.map (·.id)).Nodup) {x : Nat} {n : CompiledNode}
    (hn : NodeFrom reg doc x n) (hpins : n.kind.pins.length ≤ maxPins) {pre : List Connection}
    {c : Connection} (hc : doc.connectionFault? reg pre c = none) {o : Nat} (ho : o < n.flowOutputs.length) :
    (doc.flowWire? reg c).filter (fun fw => fw.1 == x && fw.2.1 == o) =
      if c.fromNode = n.spec.id ∧ c.fromPin = n.flowOutputs[o] then
        (doc.position? c.toNode).map fun j => (x,o,j,c.toPin)
      else none := by
  have hx : doc.position? n.spec.id = some x := Graph.position?_of_getElem? hnd hn.spec
  have hkindAt : ∀ {id}, doc.position? id = some x → doc.kindOf? reg id = some n.kind := by
    intro id hid
    rw [Graph.kindOf?,Graph.findNode?_of_position? hid,hn.spec]
    exact hn.kind
  have hnodup : n.flowOutputs.Nodup := by
    rw [hn.flowOutputs]
    exact flowOutputs_nodup hpins
  split
  · rename_i hfrom
    obtain ⟨hid,hpin⟩ := hfrom
    obtain ⟨-,dst,-,hdst,-⟩ := pins_of_connectionFault?_eq_none hc
    obtain ⟨j,hj⟩ := position?_of_pinType? hdst
    have hpos : doc.position? c.fromNode = some x := by rw [hid]; exact hx
    have hflowOut : n.kind.pins[c.fromPin]? = some PinType.flowOut := by
      rw [hpin]
      refine pin_of_mem_flowOutputs hpins ?_
      rw [← NodeKind.flowOutputs,← hn.flowOutputs]
      exact List.getElem_mem ho
    have hidx : n.kind.flowOutputs.idxOf c.fromPin = o := by
      rw [hpin,← hn.flowOutputs]
      exact hnodup.idxOf_getElem o ho
    have hcarries : doc.carries reg c = some .flow := by
      simp [Graph.carries,Graph.pinType?,hkindAt hpos,hflowOut,PinType.flowOut]
    simp [Graph.flowWire?,hcarries,hpos,hkindAt hpos,hj,hidx]
  · rename_i hfrom
    refine Option.filter_eq_none_iff.mpr ?_
    rintro fw hw hkeep
    simp only [Bool.and_eq_true,beq_iff_eq] at hkeep
    unfold Graph.flowWire? at hw
    split at hw
    · split at hw
      · rename_i i kind j hi hk _
        cases hw
        obtain ⟨rfl,hord⟩ := hkeep
        obtain ⟨spec,hspec,hsid⟩ := Graph.position?_spec hi
        rw [hn.spec] at hspec
        cases hspec
        have hkind : kind = n.kind := Option.some.inj ((hk.symm.trans (hkindAt hi)))
        subst hkind
        have hord' : n.flowOutputs.idxOf c.fromPin = o := by
          rw [hn.flowOutputs]
          exact hord
        refine hfrom ⟨hsid.symm,?_⟩
        subst hord'
        exact (List.getElem_idxOf ho).symm
      · cases hw
    · cases hw

theorem targetsOf_eq_of_compile (h : compile reg doc = .ok cg) :
    ∃ starts, (∀ u ∈ starts, u < doc.nodes.length) ∧ (∀ x < doc.nodes.length, x ∈ starts) ∧
      ∀ (x : Nat) (n : CompiledNode), cg.node? x = some n → ∀ (o : Nat) (ho : o < n.flowOutputs.length),
        n.targetsOf o = (doc.connections.filter fun c => c.fromNode = n.spec.id ∧ c.fromPin = n.flowOutputs[o]).filterMap
          fun c => (doc.position? c.toNode).map fun j => (⟨j,c.toPin,(cg.flow.backEdges starts).contains (x,j)⟩ : FlowTarget) := by
  obtain ⟨starts,hin,hall,htar⟩ := targetsOf_of_compile h
  obtain ⟨hnd,hpins,hchecked⟩ := checked_of_compile h
  refine ⟨starts,hin,hall,fun x n hn o ho => ?_⟩
  have hfrom := nodeFrom_of_compile h hn
  have hpin : n.kind.pins.length ≤ maxPins := hpins n.spec (List.mem_of_getElem? hfrom.spec) n.kind hfrom.kind
  rw [htar x n hn o,if_pos ho,List.filter_filterMap,List.map_filterMap,List.filterMap_filter]
  refine List.filterMap_congr fun c hc => ?_
  obtain ⟨pre,hpre⟩ := hchecked c hc
  rw [flowWire?_filter hnd hfrom hpin hpre ho]
  by_cases hcond : c.fromNode = n.spec.id ∧ c.fromPin = n.flowOutputs[o]
  · rw [if_pos hcond,if_pos (decide_eq_true hcond),Option.map_map]
    rfl
  · rw [if_neg hcond,if_neg (by simpa using hcond)]
    rfl

theorem forall₂_filterMap_targets {pos : Connection → Option Nat} {mark : Nat → Bool} :
    ∀ {l : List Connection}, (∀ c ∈ l, (pos c).isSome) →
      List.Forall₂ (fun τ c => pos c = some τ.node ∧ τ.pin = c.toPin)
        (l.filterMap fun c => (pos c).map fun j => (⟨j,c.toPin,mark j⟩ : FlowTarget)) l
  | [],_ => List.Forall₂.nil
  | c :: l,hpos => by
    obtain ⟨j,hj⟩ := Option.isSome_iff_exists.mp (hpos c List.mem_cons_self)
    rw [List.filterMap_cons,hj]
    exact List.Forall₂.cons ⟨hj,rfl⟩ (forall₂_filterMap_targets fun c' hc' => hpos c' (List.mem_cons_of_mem c hc'))

theorem toNode_position?_of_compile (h : compile reg doc = .ok cg) {c : Connection} (hc : c ∈ doc.connections) :
    (doc.position? c.toNode).isSome := by
  obtain ⟨-,-,hchecked⟩ := checked_of_compile h
  obtain ⟨pre,hpre⟩ := hchecked c hc
  obtain ⟨-,dst,-,hdst,-⟩ := pins_of_connectionFault?_eq_none hpre
  obtain ⟨j,hj⟩ := position?_of_pinType? hdst
  rw [hj]
  rfl

theorem dataInto_length_le (id : Uuid) (p : Nat) :
    ∀ {before l : List Connection},
      (before.filter fun b => doc.carries reg b = some .data ∧ b.toNode = id ∧ b.toPin = p).length ≤ 1 →
      firstFault? (doc.connectionFault? reg) before l = none →
      ((before ++ l).filter fun b => doc.carries reg b = some .data ∧ b.toNode = id ∧ b.toPin = p).length ≤ 1
  | before,[],hb,_ => by rwa [List.append_nil]
  | before,x :: rest,hb,h => by
    rw [firstFault?] at h
    cases hx : doc.connectionFault? reg before x with
    | some e =>
      rw [hx] at h
      cases h
    | none =>
      rw [hx,Option.orElse_none] at h
      have hstep : ((before ++ [x]).filter fun b => doc.carries reg b = some .data ∧ b.toNode = id ∧ b.toPin = p).length ≤ 1 := by
        rw [List.filter_append]
        by_cases hP : doc.carries reg x = some .data ∧ x.toNode = id ∧ x.toPin = p
        · obtain ⟨hdata,rfl,rfl⟩ := hP
          obtain ⟨src,-,hsrc,-,-,-,-,hnot⟩ := pins_of_connectionFault?_eq_none hx
          have hkind : src.kind = .data := by
            rw [Graph.carries,hsrc] at hdata
            exact Option.some.inj hdata
          have hnone : before.filter (fun b => doc.carries reg b = some .data ∧ b.toNode = x.toNode ∧ b.toPin = x.toPin) = [] := by
            refine List.filter_eq_nil_iff.mpr fun b hb hPb => hnot ⟨hkind,List.any_eq_true.mpr ⟨b,hb,?_⟩⟩
            simp only [decide_eq_true_eq] at hPb
            simp [hPb.2.1,hPb.2.2]
          rw [hnone,List.nil_append]
          exact List.length_filter_le _ _
        · simpa [hP] using hb
      have hrest := dataInto_length_le id p hstep h
      rwa [List.append_assoc,List.singleton_append] at hrest

theorem flowOutputs_eq_of_compile (h : compile reg doc = .ok cg) {x : Nat} {n : CompiledNode}
    (hn : cg.node? x = some n) :
    n.flowOutputs = (List.range n.pins.length).filter fun p => n.pins[p]? = some PinType.flowOut := by
  obtain ⟨-,hpins,-⟩ := checked_of_compile h
  have hfrom := nodeFrom_of_compile h hn
  have hpin : n.kind.pins.length ≤ maxPins := hpins n.spec (List.mem_of_getElem? hfrom.spec) n.kind hfrom.kind
  rw [hfrom.flowOutputs,NodeKind.flowOutputs,flowOutputs_eq_filter _ (by simp only [maxPins] at hpin; omega)]
  refine List.filter_congr fun p hp => ?_
  rw [CompiledNode.pins,List.getElem?_eq_getElem (List.mem_range.mp hp)]
  simp [PinType.isFlowOutput,beq_eq_decide]

theorem entries_of_compile (h : compile reg doc = .ok cg) :
    cg.entries = (List.range cg.nodeCount).filter fun i => ((cg.node? i).map (·.classification == .entry)).getD false := by
  obtain ⟨ns,w,-,hl,-,⟨back,hg⟩,he⟩ := compile_laid h
  have hsize : cg.nodeCount = ns.length := by
    rw [nodeCount,hg,size_placeTargets,hl.size_eq]
  rw [he,hsize]
  refine List.filter_congr fun i _ => ?_
  have hc := placeTargets_getElem? back (fun n => n.classification == .entry) (fun _ _ => rfl) w.nodes w.flowWires i
  rw [← hg] at hc
  rw [node?,hc]

theorem mem_targets_of_compile (h : compile reg doc = .ok cg) :
    ∃ starts : List Nat, ∀ (x : Nat) (n : CompiledNode), cg.node? x = some n → ∀ τ ∈ n.targets.flatten,
      ∃ (o : Nat) (ho : o < n.flowOutputs.length), ∃ c ∈ doc.connections,
        c.fromNode = n.spec.id ∧ c.fromPin = n.flowOutputs[o] ∧ doc.position? c.toNode = some τ.node ∧
          τ.pin = c.toPin ∧ τ.backEdge = (cg.flow.backEdges starts).contains (x,τ.node) := by
  obtain ⟨starts,-,-,htar⟩ := targetsOf_eq_of_compile h
  refine ⟨starts,fun x n hn τ hτ => ?_⟩
  have hfrom := nodeFrom_of_compile h hn
  obtain ⟨ts,hts,hτts⟩ := List.mem_flatten.mp hτ
  obtain ⟨o,ho,rfl⟩ := List.getElem_of_mem hts
  have ho' : o < n.flowOutputs.length := by
    rw [← hfrom.targets_length]
    exact ho
  have hτo : τ ∈ n.targetsOf o := by
    rw [CompiledNode.targetsOf,List.getD_eq_getElem?_getD,List.getElem?_eq_getElem ho]
    exact hτts
  rw [htar x n hn o ho'] at hτo
  obtain ⟨c,hc,hτc⟩ := List.mem_filterMap.mp hτo
  obtain ⟨hc,hcond⟩ := List.mem_filter.mp hc
  obtain ⟨hfromNode,hfromPin⟩ := of_decide_eq_true hcond
  obtain ⟨j,hj,rfl⟩ := Option.map_eq_some_iff.mp hτc
  exact ⟨o,ho',c,hc,hfromNode,hfromPin,hj,rfl,rfl⟩

theorem target_flowIn_of_compile (h : compile reg doc = .ok cg) {x : Nat} {n : CompiledNode}
    (hn : cg.node? x = some n) {τ : FlowTarget} (hτ : τ ∈ n.targets.flatten) :
    ∃ m, cg.node? τ.node = some m ∧ m.pins[τ.pin]? = some PinType.flowIn ∧ m.connectedInputs.contains τ.pin = true := by
  obtain ⟨starts,hmem⟩ := mem_targets_of_compile h
  obtain ⟨hnd,hpins,hchecked⟩ := checked_of_compile h
  have hfrom := nodeFrom_of_compile h hn
  obtain ⟨o,ho,c,hc,hfromNode,hfromPin,hj,hpin,-⟩ := hmem x n hn τ hτ
  obtain ⟨pre,hpre⟩ := hchecked c hc
  obtain ⟨src,dst,hsrc,hdst,-,hdir,hkind,-⟩ := pins_of_connectionFault?_eq_none hpre
  have hsrc' : src = PinType.flowOut := by
    have hpos : doc.position? c.fromNode = some x := by
      rw [hfromNode]
      exact Graph.position?_of_getElem? hnd hfrom.spec
    rw [Graph.pinType?,hfrom.kindOf? hpos,Option.bind_some,hfromPin] at hsrc
    have hflow : n.kind.pins[n.flowOutputs[o]]? = some PinType.flowOut := by
      refine pin_of_mem_flowOutputs ?_ ?_
      · exact hpins n.spec (List.mem_of_getElem? hfrom.spec) n.kind hfrom.kind
      · rw [← NodeKind.flowOutputs,← hfrom.flowOutputs]
        exact List.getElem_mem ho
    rw [hflow] at hsrc
    exact (Option.some.inj hsrc).symm
  obtain ⟨m,hm,hmfrom⟩ := node?_of_position? h hj
  refine ⟨m,hm,?_,?_⟩
  · rw [Graph.pinType?,hmfrom.kindOf? hj,Option.bind_some] at hdst
    rw [CompiledNode.pins,hpin,hdst]
    obtain ⟨k,d⟩ := dst
    simp only at hdir hkind
    rw [hdir,← hkind,hsrc']
    rfl
  · rw [hpin]
    refine (hmfrom.inputs c.toPin).mpr ⟨c,hc,?_,(hmfrom.id_eq hj).symm,rfl⟩
    rw [Graph.carries,hsrc,hsrc']
    rfl

theorem mem_flowOutputs_of_pin {pins : List PinType} (h : pins.length ≤ maxPins) {x : Nat}
    (hx : pins[x]? = some PinType.flowOut) : x ∈ flowOutputs pins := by
  rw [flowOutputs_eq_filter pins (by simp only [maxPins] at h; omega),List.mem_filter,List.mem_range]
  refine ⟨(List.getElem?_eq_some_iff.mp hx).1,?_⟩
  rw [hx]
  rfl

theorem target_of_flow_connection (h : compile reg doc = .ok cg) {c : Connection} (hc : c ∈ doc.connections)
    (hflow : doc.carries reg c = some .flow) {i j : Nat} (hi : doc.position? c.fromNode = some i)
    (hj : doc.position? c.toNode = some j) :
    ∃ n, cg.node? i = some n ∧ ∃ τ ∈ n.targets.flatten, τ.node = j ∧ τ.pin = c.toPin := by
  obtain ⟨starts,-,-,htar⟩ := targetsOf_eq_of_compile h
  obtain ⟨-,hpins,hchecked⟩ := checked_of_compile h
  obtain ⟨n,hn,hfrom⟩ := node?_of_position? h hi
  obtain ⟨pre,hpre⟩ := hchecked c hc
  obtain ⟨src,-,hsrc,-,hdir,-⟩ := pins_of_connectionFault?_eq_none hpre
  have hkind : src.kind = .flow := by
    rw [Graph.carries,hsrc] at hflow
    exact Option.some.inj hflow
  have hsrc' : n.kind.pins[c.fromPin]? = some PinType.flowOut := by
    rw [Graph.pinType?,hfrom.kindOf? hi,Option.bind_some] at hsrc
    rw [hsrc]
    obtain ⟨k,d⟩ := src
    simp only at hkind hdir
    rw [hkind,hdir]
    rfl
  have hpin : n.kind.pins.length ≤ maxPins := hpins n.spec (List.mem_of_getElem? hfrom.spec) n.kind hfrom.kind
  have hmem : c.fromPin ∈ n.flowOutputs := by
    rw [hfrom.flowOutputs]
    exact mem_flowOutputs_of_pin hpin hsrc'
  have ho := List.idxOf_lt_length_iff.mpr hmem
  have hτ : (⟨j,c.toPin,(cg.flow.backEdges starts).contains (i,j)⟩ : FlowTarget) ∈
      n.targetsOf (n.flowOutputs.idxOf c.fromPin) := by
    rw [htar i n hn _ ho]
    refine List.mem_filterMap.mpr ⟨c,List.mem_filter.mpr ⟨hc,decide_eq_true
      ⟨(hfrom.id_eq hi).symm,(List.getElem_idxOf ho).symm⟩⟩,?_⟩
    rw [hj]
    rfl
  rw [CompiledNode.targetsOf,List.getD_eq_getElem?_getD,
    List.getElem?_eq_getElem (by rw [hfrom.targets_length]; exact ho)] at hτ
  exact ⟨n,hn,_,List.mem_flatten.mpr ⟨_,List.getElem_mem _,hτ⟩,rfl,rfl⟩

/-- What a compiled node keeps of its definition: its output ordinals are its flow output pins in
ascending order; each ordinal's targets match, one to one and in order, the connections leaving
its pin, and ordinals past the last have none; every target is a wired flow input; its wired
flow inputs are the pins flow connections enter; and each data input reads from the one data
connection into it, if any. -/
structure NodeFaithful (reg : Registry) (doc : Graph) (cg : CompiledGraph) (n : CompiledNode) : Prop where
  flowOutputs : n.flowOutputs = (List.range n.pins.length).filter fun p => n.pins[p]? = some PinType.flowOut
  targets : ∀ (o : Nat) (ho : o < n.flowOutputs.length),
    List.Forall₂ (fun τ c => cg.indexOf? c.toNode = some τ.node ∧ τ.pin = c.toPin) (n.targetsOf o)
      (doc.connections.filter fun c => c.fromNode = n.spec.id ∧ c.fromPin = n.flowOutputs[o])
  targets_past : ∀ o, n.flowOutputs.length ≤ o → n.targetsOf o = []
  targets_flowIn : ∀ τ ∈ n.targets.flatten, ∃ m, cg.node? τ.node = some m ∧
    m.pins[τ.pin]? = some PinType.flowIn ∧ m.connectedInputs.contains τ.pin = true
  inputs : ∀ p, n.connectedInputs.contains p = true ↔
    ∃ c ∈ doc.connections, doc.carries reg c = some .flow ∧ c.toNode = n.spec.id ∧ c.toPin = p
  dataSource : ∀ p l, n.dataSource? p = some l ↔ ∃ c ∈ doc.connections, doc.carries reg c = some .data ∧
    c.toNode = n.spec.id ∧ c.toPin = p ∧ cg.indexOf? c.fromNode = some l.node ∧ c.fromPin = l.pin
  dataSource_unique : ∀ p,
    (doc.connections.filter fun c => doc.carries reg c = some .data ∧ c.toNode = n.spec.id ∧ c.toPin = p).length ≤ 1

/-- What a compiled graph keeps of its definition: the nodes in definition order, each found by
its identifier at its position, the entry nodes in that order, and each node's wiring. -/
structure Faithful (cg : CompiledGraph) (reg : Registry) (doc : Graph) : Prop where
  specs : cg.nodes.toList.map (·.spec) = doc.nodes
  indexOf : ∀ (i : Nat) (spec : NodeSpec), doc.nodes[i]? = some spec → cg.indexOf? spec.id = some i
  indexOf_none : ∀ id, (∀ spec ∈ doc.nodes, spec.id ≠ id) → cg.indexOf? id = none
  entries : cg.entries = (List.range cg.nodeCount).filter fun i => ((cg.node? i).map (·.classification == .entry)).getD false
  node : ∀ (x : Nat) (n : CompiledNode), cg.node? x = some n → NodeFaithful reg doc cg n

theorem nodeFaithful_of_compile (h : compile reg doc = .ok cg) {x : Nat} {n : CompiledNode}
    (hn : cg.node? x = some n) : NodeFaithful reg doc cg n := by
  have hfrom := nodeFrom_of_compile h hn
  refine ⟨flowOutputs_eq_of_compile h hn,fun o ho => ?_,fun o ho => ?_,fun τ hτ => target_flowIn_of_compile h hn hτ,
    hfrom.inputs,fun p l => ?_,fun p => ?_⟩
  · obtain ⟨starts,-,-,htar⟩ := targetsOf_eq_of_compile h
    rw [htar x n hn o ho]
    simp only [indexOf?_of_compile h]
    exact forall₂_filterMap_targets fun c hc => toNode_position?_of_compile h (List.mem_filter.mp hc).1
  · rw [CompiledNode.targetsOf,List.getD_eq_getElem?_getD,List.getElem?_eq_none (by rw [hfrom.targets_length]; exact ho)]
    rfl
  · rw [dataSource?_eq_some_iff hfrom.keys,hfrom.sources]
    simp only [indexOf?_of_compile h]
  · have hle := dataInto_length_le n.spec.id p (by simp) (connections_pass_of_compile h)
    rwa [List.nil_append] at hle

/-- Compiling keeps the definition: node order, positions, entries, and every node's output
ordinals, targets, wired flow inputs and data sources are those the definition's pins and
connections give. -/
theorem compile_faithful (h : compile reg doc = .ok cg) : cg.Faithful reg doc where
  specs := specs_of_compile h
  indexOf i spec hi := by
    rw [indexOf?_of_compile h]
    exact Graph.position?_of_getElem? (checked_of_compile h).1 hi
  indexOf_none id hid := by
    rw [indexOf?_of_compile h,Graph.position?,List.findIdx?_eq_none_iff]
    intro spec hs
    simpa using hid spec hs
  entries := entries_of_compile h
  node _ _ hn := nodeFaithful_of_compile h hn

/-- A start node into a branch whose condition a literal feeds, both branch outputs into a log
node that reads the same literal. -/
def branchDoc : Graph where
  id := ⟨5⟩
  name := "branch"
  nodes := [{ id := ⟨1⟩,nodeType := "flow.start" },{ id := ⟨2⟩,nodeType := "data.literal",config := [("value",.bool true)] },
    { id := ⟨3⟩,nodeType := "flow.branch" },{ id := ⟨4⟩,nodeType := "debug.log" }]
  connections := [⟨⟨1⟩,0,⟨3⟩,0⟩,⟨⟨2⟩,0,⟨3⟩,1⟩,⟨⟨3⟩,2,⟨4⟩,0⟩,⟨⟨3⟩,3,⟨4⟩,0⟩,⟨⟨2⟩,0,⟨4⟩,1⟩]

def branchGraph : CompiledGraph := (compile Registry.standard branchDoc).toOption.getD default

theorem compile_branchDoc : compile Registry.standard branchDoc = .ok branchGraph := by
  have h : (compile Registry.standard branchDoc).toBool = true := by decide +kernel
  unfold branchGraph
  revert h
  cases compile Registry.standard branchDoc with
  | error e => exact fun h => by cases h
  | ok g => exact fun _ => rfl

theorem compile_faithful_branch :
    compile Registry.standard branchDoc = .ok branchGraph ∧ branchGraph.Faithful Registry.standard branchDoc :=
  ⟨compile_branchDoc,compile_faithful compile_branchDoc⟩

end CompiledGraph

end Tickflow
