import Tickflow.Proofs.ForwardPaths
import Tickflow.Pin.Laws
/-! # What compiling lays out

Wiring and placing targets change only a node's wired inputs, data sources and targets. So in a
compiled graph identifiers are distinct, output ordinals are the type's flow outputs, the entries
are the entry nodes, and every target names a node and one of its wired flow inputs.
-/
namespace Tickflow

namespace CompiledGraph

theorem compileNode_spec {reg : Registry} {seen : List Uuid} {spec : NodeSpec} {n : CompiledNode}
    (h : compileNode reg seen spec = .ok n) :
    n.spec = spec ∧ n.flowOutputs = n.kind.flowOutputs ∧ n.kind.pins.length ≤ maxPins ∧ spec.id ∉ seen := by
  obtain ⟨kind,-,hnew,hpins,-,rfl⟩ := compileNode_eq h
  exact ⟨rfl,rfl,hpins,hnew⟩

theorem compileNodes_spec {reg : Registry} :
    ∀ {seen : List Uuid} {specs : List NodeSpec} {ns : List CompiledNode},
      compileNodes reg seen specs = .ok ns →
        (∀ n ∈ ns, n.flowOutputs = n.kind.flowOutputs ∧ n.kind.pins.length ≤ maxPins ∧ n.spec.id ∉ seen) ∧
          (ns.map (·.spec.id)).Nodup
  | _,[],_,h => by
    cases h
    exact ⟨fun n hn => absurd hn List.not_mem_nil,List.nodup_nil⟩
  | seen,spec :: rest,_,h => by
    simp only [compileNodes] at h
    obtain ⟨n,hn,h⟩ := except_bind_eq_ok h
    obtain ⟨ns,hns,h⟩ := except_bind_eq_ok h
    cases h
    obtain ⟨hspec,hout,hpins,hnew⟩ := compileNode_spec hn
    obtain ⟨hall,hnd⟩ := compileNodes_spec hns
    refine ⟨?_,?_⟩
    · intro m hm
      rcases List.mem_cons.mp hm with rfl | hm
      · exact ⟨hout,hpins,by rw [hspec]; exact hnew⟩
      · obtain ⟨h1,h2,h3⟩ := hall m hm
        exact ⟨h1,h2,fun h => h3 (List.mem_cons_of_mem _ h)⟩
    · rw [List.map_cons,List.nodup_cons]
      refine ⟨?_,hnd⟩
      intro hmem
      obtain ⟨m,hm,heq⟩ := List.mem_map.mp hmem
      exact (hall m hm).2.2 (by rw [heq,hspec]; exact List.mem_cons_self)

theorem pinAt_eq_ok {nodes : Array CompiledNode} {i : Nat} {id : Uuid} {pin : Nat} {p : PinType}
    (h : pinAt nodes i id pin = .ok p) : ∃ n, nodes[i]? = some n ∧ pin < n.kind.pins.length := by
  unfold pinAt at h
  split at h
  · rename_i n hn
    split at h
    · rename_i hp
      exact ⟨n,hn,(List.getElem?_eq_some_iff.mp hp).1⟩
    · cases h
  · cases h

theorem wire_spec {w w' : Wiring} {c : Connection} (h : wire w c = .ok w') :
    ∃ dst f, w'.nodes = w.nodes.modify dst f ∧
      (∀ n, (f n).spec = n.spec ∧ (f n).kind = n.kind ∧ (f n).flowOutputs = n.flowOutputs ∧
        ∀ p, n.connectedInputs.contains p = true → (f n).connectedInputs.contains p = true) ∧
      (w'.flowWires = w.flowWires ∨
        ∃ src o pin n, w'.flowWires = w.flowWires ++ [(src,o,dst,pin)] ∧ w.nodes[dst]? = some n ∧
          pin < n.kind.pins.length ∧ ∀ m, pin < maxPins → (f m).connectedInputs.contains pin = true) := by
  unfold wire at h
  cases hs : w.nodes.findIdx? (·.spec.id == c.fromNode) with
  | none =>
    simp only [hs] at h
    cases h
  | some src =>
    cases hd : w.nodes.findIdx? (·.spec.id == c.toNode) with
    | none =>
      simp only [hs,hd] at h
      cases h
    | some dst =>
      simp only [hs,hd] at h
      obtain ⟨fromPin,-,h⟩ := except_bind_eq_ok h
      obtain ⟨toPin,hto,h⟩ := except_bind_eq_ok h
      obtain ⟨n,hn,hpin⟩ := pinAt_eq_ok hto
      obtain ⟨-,-,h⟩ := except_bind_eq_ok h
      obtain ⟨-,-,h⟩ := except_bind_eq_ok h
      split at h
      · cases h
      · split at h
        · cases h
          refine ⟨dst,fun n => { n with connectedInputs := n.connectedInputs.add c.toPin },rfl,
            fun m => ⟨rfl,rfl,rfl,fun p hp => ?_⟩,Or.inr ⟨src,_,c.toPin,n,rfl,hn,hpin,?_⟩⟩
          · simp [hp]
          · intro m hlt
            simp only [maxPins] at hlt
            simp [hlt]
        · split at h
          · cases h
          · cases h
            exact ⟨dst,fun n => { n with
              dataSources := List.mergeSort (n.dataSources ++ [(c.toPin,⟨src,c.fromPin⟩)]) (fun a b => a.1 ≤ b.1) },
              rfl,fun m => ⟨rfl,rfl,rfl,fun p hp => hp⟩,Or.inl rfl⟩

/-- What wiring keeps of the checked nodes `ns`: their number, and at each index a node with
the checked node's specification, type and output ordinals; every flow wire ends at a wired
input of its target. -/
structure Laid (ns : List CompiledNode) (w : Wiring) : Prop where
  size_eq : w.nodes.size = ns.length
  same : ∀ (i : Nat) (n : CompiledNode), w.nodes[i]? = some n →
    ∃ n₀, ns[i]? = some n₀ ∧ n.spec = n₀.spec ∧ n.kind = n₀.kind ∧ n.flowOutputs = n₀.flowOutputs
  wires : ∀ fw ∈ w.flowWires, ∃ n, w.nodes[fw.2.2.1]? = some n ∧ n.connectedInputs.contains fw.2.2.2 = true

theorem Laid.init (ns : List CompiledNode) : Laid ns { nodes := ns.toArray } where
  size_eq := List.size_toArray
  same i n hn := by
    rw [List.getElem?_toArray] at hn
    exact ⟨n,hn,rfl,rfl,rfl⟩
  wires fw hfw := absurd hfw List.not_mem_nil

theorem exists_of_getElem?_modify {α : Type} {a : Array α} {j k : Nat} {f : α → α} {x : α}
    (h : (a.modify j f)[k]? = some x) : ∃ y, a[k]? = some y ∧ ((k = j ∧ x = f y) ∨ (k ≠ j ∧ x = y)) := by
  rw [Array.getElem?_modify] at h
  cases hy : a[k]? with
  | none =>
    rw [hy] at h
    split at h <;> cases h
  | some y =>
    rw [hy] at h
    refine ⟨y,rfl,?_⟩
    split at h
    · rename_i hjk
      exact Or.inl ⟨hjk.symm,(Option.some.inj h).symm⟩
    · rename_i hjk
      exact Or.inr ⟨Ne.symm hjk,(Option.some.inj h).symm⟩

theorem Laid.wire {ns : List CompiledNode} {w w' : Wiring} {c : Connection} (hl : Laid ns w)
    (hpins : ∀ n ∈ ns, n.kind.pins.length ≤ maxPins) (h : CompiledGraph.wire w c = .ok w') : Laid ns w' := by
  obtain ⟨dst,f,hnodes,hf,hwires⟩ := wire_spec h
  refine ⟨by rw [hnodes,Array.size_modify,hl.size_eq],?_,?_⟩
  · intro i n' hi
    rw [hnodes] at hi
    obtain ⟨n,hn,hcase⟩ := exists_of_getElem?_modify hi
    obtain ⟨n₀,h₀,hs,hk,ho⟩ := hl.same i n hn
    rcases hcase with ⟨-,rfl⟩ | ⟨-,rfl⟩
    · obtain ⟨hs',hk',ho',-⟩ := hf n
      exact ⟨n₀,h₀,hs'.trans hs,hk'.trans hk,ho'.trans ho⟩
    · exact ⟨n₀,h₀,hs,hk,ho⟩
  · have hgrow : ∀ (i : Nat) (n : CompiledNode) (p : Nat), w.nodes[i]? = some n → n.connectedInputs.contains p = true →
        ∃ n', w'.nodes[i]? = some n' ∧ n'.connectedInputs.contains p = true := by
      intro i n p hn hp
      rw [hnodes,Array.getElem?_modify,hn]
      split
      · exact ⟨f n,rfl,(hf n).2.2.2 p hp⟩
      · exact ⟨n,rfl,hp⟩
    rcases hwires with hsame | ⟨src,o,pin,n,hw,hn,hpin,hc⟩
    · rw [hsame]
      intro fw hfw
      obtain ⟨n,hn,hp⟩ := hl.wires fw hfw
      exact hgrow _ n _ hn hp
    · rw [hw]
      intro fw hfw
      rcases List.mem_append.mp hfw with hfw | hfw
      · obtain ⟨n,hn,hp⟩ := hl.wires fw hfw
        exact hgrow _ n _ hn hp
      · rw [List.mem_singleton.mp hfw]
        obtain ⟨n₀,h₀,-,hk,-⟩ := hl.same dst n hn
        have hlt : pin < maxPins := by
          have := hpins n₀ (List.mem_of_getElem? h₀)
          rw [← hk] at this
          omega
        refine ⟨f n,?_,hc n hlt⟩
        rw [hnodes,Array.getElem?_modify,hn]
        simp

theorem Laid.foldlM {ns : List CompiledNode} (hpins : ∀ n ∈ ns, n.kind.pins.length ≤ maxPins) :
    ∀ {conns : List Connection} {w w' : Wiring}, Laid ns w → conns.foldlM CompiledGraph.wire w = .ok w' →
      Laid ns w'
  | [],_,_,hl,h => by
    cases h
    exact hl
  | c :: rest,_,_,hl,h => by
    rw [List.foldlM_cons] at h
    obtain ⟨w₁,h₁,h₂⟩ := except_bind_eq_ok h
    exact Laid.foldlM hpins (hl.wire hpins h₁) h₂

theorem placeTargets_getElem? (back : List (Nat × Nat)) {β : Type} (view : CompiledNode → β)
    (hview : ∀ (n : CompiledNode) (ts : List (List FlowTarget)), view { n with targets := ts } = view n) :
    ∀ (nodes : Array CompiledNode) (wires : List (Nat × Nat × Nat × Nat)) (i : Nat),
      (placeTargets nodes back wires)[i]?.map view = nodes[i]?.map view
  | _,[],_ => rfl
  | nodes,(src,o,dst,pin) :: rest,i => by
    rw [placeTargets,placeTargets_getElem? back view hview _ rest i,Array.getElem?_modify]
    split
    · cases nodes[i]? with
      | none => rfl
      | some n => exact congrArg some (hview n _)
    · rfl

theorem compile_laid {reg : Registry} {doc : Graph} {g : CompiledGraph} (h : compile reg doc = .ok g) :
    ∃ ns w, compileNodes reg [] doc.nodes = .ok ns ∧ Laid ns w ∧ Wired ns.length w ∧
      (∃ back, g.nodes = placeTargets w.nodes back w.flowWires) ∧
      g.entries = (List.range ns.length).filter fun i => (w.nodes[i]?.map (·.classification == .entry)).getD false := by
  obtain ⟨ns,w,hn,hw,starts,-,-,hnodes,-,hentries⟩ := compile_eq h
  have hpins : ∀ n ∈ ns, n.kind.pins.length ≤ maxPins := fun n hm => ((compileNodes_spec hn).1 n hm).2.1
  exact ⟨ns,w,hn,(Laid.init ns).foldlM hpins hw,(Wired.init hn).foldlM hw,⟨_,hnodes⟩,hentries⟩

theorem flowOutputs_of_compile {reg : Registry} {doc : Graph} {g : CompiledGraph} (h : compile reg doc = .ok g)
    {i : Nat} {n : CompiledNode} (hn : g.node? i = some n) : n.flowOutputs = n.kind.flowOutputs := by
  obtain ⟨ns,w,hns,hl,-,⟨back,hg⟩,-⟩ := compile_laid h
  have hk := placeTargets_getElem? back (fun n => (n.kind,n.flowOutputs)) (fun _ _ => rfl) w.nodes w.flowWires i
  rw [← hg] at hk
  unfold node? at hn
  rw [hn] at hk
  cases hw : w.nodes[i]? with
  | none =>
    rw [hw] at hk
    cases hk
  | some m =>
    rw [hw] at hk
    obtain ⟨hk,ho⟩ := Prod.mk.inj (Option.some.inj hk)
    obtain ⟨n₀,h₀,-,hk₀,ho₀⟩ := hl.same i m hw
    rw [hk,ho,ho₀,hk₀]
    exact ((compileNodes_spec hns).1 n₀ (List.mem_of_getElem? h₀)).1

theorem target_connected {reg : Registry} {doc : Graph} {g : CompiledGraph} (h : compile reg doc = .ok g)
    {i : Nat} {n : CompiledNode} (hn : g.node? i = some n) {τ : FlowTarget} (hτ : τ ∈ n.targets.flatten) :
    ∃ m, g.node? τ.node = some m ∧ m.connectedInputs.contains τ.pin = true := by
  obtain ⟨ns,w,-,hl,hwired,⟨back,hg⟩,-⟩ := compile_laid h
  unfold node? at hn
  rw [hg] at hn
  obtain ⟨n₀,hn₀,hcase⟩ := mem_placeTargets hn τ hτ
  rcases hcase with hold | ⟨o,dst,pin,hwire,rfl⟩
  · rw [hwired.targets i n₀ hn₀] at hold
    exact absurd hold List.not_mem_nil
  · obtain ⟨m,hm,hp⟩ := hl.wires _ hwire
    have hc := placeTargets_getElem? back (fun n => n.connectedInputs) (fun _ _ => rfl) w.nodes w.flowWires dst
    rw [← hg,hm] at hc
    unfold node?
    cases hd : g.nodes[dst]? with
    | none =>
      rw [hd] at hc
      cases hc
    | some m' =>
      rw [hd] at hc
      refine ⟨m',rfl,?_⟩
      have hc' : m'.connectedInputs = m.connectedInputs := Option.some.inj hc
      rw [hc']
      exact hp

theorem entry_classified {reg : Registry} {doc : Graph} {g : CompiledGraph} (h : compile reg doc = .ok g)
    {i : Nat} (hi : i ∈ g.entries) : ∃ n, g.node? i = some n ∧ n.classification = .entry := by
  obtain ⟨ns,w,-,-,-,⟨back,hg⟩,he⟩ := compile_laid h
  rw [he,List.mem_filter] at hi
  have hc := placeTargets_getElem? back (fun n => n.classification) (fun _ _ => rfl) w.nodes w.flowWires i
  rw [← hg] at hc
  unfold node?
  cases hw : w.nodes[i]? with
  | none =>
    rw [hw] at hi
    cases hi.2
  | some m =>
    rw [hw] at hi hc
    cases hd : g.nodes[i]? with
    | none =>
      rw [hd] at hc
      cases hc
    | some m' =>
      rw [hd] at hc
      refine ⟨m',rfl,?_⟩
      have hm : m'.classification = m.classification := Option.some.inj hc
      rw [hm]
      simpa using hi.2

/-- What running relies on from compiling: every target lands on a wired flow input of a node of
the graph, and every entry is a node whose type is an entry. -/
structure WellWired (g : CompiledGraph) : Prop where
  targets : ∀ (i : Nat) (n : CompiledNode), g.node? i = some n → ∀ τ ∈ n.targets.flatten,
    ∃ m, g.node? τ.node = some m ∧ m.connectedInputs.contains τ.pin = true
  entries : ∀ i ∈ g.entries, ∃ n, g.node? i = some n ∧ n.classification = .entry

theorem wellWired_of_compile {reg : Registry} {doc : Graph} {g : CompiledGraph} (h : compile reg doc = .ok g) :
    g.WellWired :=
  ⟨fun _ _ hn _ hτ => target_connected h hn hτ,fun _ hi => entry_classified h hi⟩

theorem nodeId_injective {reg : Registry} {doc : Graph} {g : CompiledGraph} (h : compile reg doc = .ok g)
    {i j : Nat} {n m : CompiledNode} (hi : g.node? i = some n) (hj : g.node? j = some m)
    (he : n.spec.id = m.spec.id) : i = j := by
  obtain ⟨ns,w,hns,hl,-,⟨back,hg⟩,-⟩ := compile_laid h
  have hspec : ∀ (k : Nat) (x : CompiledNode), g.node? k = some x → ∃ x₀, ns[k]? = some x₀ ∧ x.spec = x₀.spec := by
    intro k x hx
    have hs := placeTargets_getElem? back (fun n => n.spec) (fun _ _ => rfl) w.nodes w.flowWires k
    unfold node? at hx
    rw [← hg,hx] at hs
    cases hw : w.nodes[k]? with
    | none =>
      rw [hw] at hs
      cases hs
    | some y =>
      rw [hw] at hs
      obtain ⟨x₀,h₀,hs₀,-,-⟩ := hl.same k y hw
      exact ⟨x₀,h₀,(Option.some.inj hs).trans hs₀⟩
  obtain ⟨n₀,hn₀,hsn⟩ := hspec i n hi
  obtain ⟨m₀,hm₀,hsm⟩ := hspec j m hj
  have hnd := (compileNodes_spec hns).2
  have hi' : (ns.map (·.spec.id))[i]? = some n.spec.id := by simp [hn₀,hsn]
  have hj' : (ns.map (·.spec.id))[j]? = some m.spec.id := by simp [hm₀,hsm]
  rw [he] at hi'
  obtain ⟨hi₁,hi₂⟩ := List.getElem?_eq_some_iff.mp hi'
  obtain ⟨hj₁,hj₂⟩ := List.getElem?_eq_some_iff.mp hj'
  exact hnd.getElem_inj_iff.mp (hi₂.trans hj₂.symm)

end CompiledGraph

end Tickflow
