import Tickflow.Proofs.BackEdges
import Tickflow.Compiled.Build
/-! # Forward paths of a compiled graph

A forward path follows targets that close no loop. The back edges the compiler marks leave a
ranking of every forward target below its source (`compile_ranked`), under which no forward
path visits a node twice and the search depth reaches every path.
-/
namespace Tickflow

namespace CompiledGraph

/-- The targets of node `i` that do not close a loop, over its outputs in order. -/
def forwardTargets (g : CompiledGraph) (i : Nat) : List FlowTarget :=
  match g.node? i with
  | some n => n.targets.flatten.filter (!·.backEdge)
  | none => []

/-- Whether `p` is a path from node `i` along forward targets. -/
def IsForwardPath (g : CompiledGraph) : Nat → List FlowTarget → Prop
  | _,[] => True
  | i,τ :: p => τ ∈ g.forwardTargets i ∧ g.IsForwardPath τ.node p

def pathNodes (i : Nat) (p : List FlowTarget) : List Nat := i :: p.map (·.node)

/-- The forward paths from node `i` of at most `depth` targets, one for each choice of wire. -/
def forwardPathsUpTo (g : CompiledGraph) : Nat → Nat → List (List FlowTarget)
  | 0,_ => [[]]
  | depth + 1,i => [] :: (g.forwardTargets i).flatMap fun τ => (g.forwardPathsUpTo depth τ.node).map (τ :: ·)

/-- The forward paths from node `i`, searched as deep as the graph has nodes. -/
def forwardPaths (g : CompiledGraph) (i : Nat) : List (List FlowTarget) := g.forwardPathsUpTo g.nodeCount i

/-- The number of forward paths from node `i`, the empty one included. -/
def pathCount (g : CompiledGraph) (i : Nat) : Nat := (g.forwardPaths i).length

def pathEnd : Nat → List FlowTarget → Nat
  | i,[] => i
  | _,τ :: p => pathEnd τ.node p

/-- A ranking of the nodes under which each forward target leads below its source, every node
ranked below the node count. -/
structure Ranked (g : CompiledGraph) (r : Nat → Nat) : Prop where
  lt_count : ∀ i n, g.node? i = some n → r i < g.nodeCount
  descends : ∀ i, ∀ τ ∈ g.forwardTargets i, r τ.node < r i

variable {g : CompiledGraph}

theorem forwardTargets_of_none {i : Nat} (h : g.node? i = none) : g.forwardTargets i = [] := by
  simp [forwardTargets,h]

theorem forwardPathsUpTo_of_none {i : Nat} (h : g.node? i = none) (depth : Nat) :
    g.forwardPathsUpTo depth i = [[]] := by
  cases depth with
  | zero => rfl
  | succ depth => simp [forwardPathsUpTo,forwardTargets_of_none h]

theorem mem_forwardPathsUpTo {depth i : Nat} {p : List FlowTarget} :
    p ∈ g.forwardPathsUpTo depth i ↔ g.IsForwardPath i p ∧ p.length ≤ depth := by
  induction depth generalizing i p with
  | zero =>
    cases p with
    | nil => simp [forwardPathsUpTo,IsForwardPath]
    | cons τ p => simp [forwardPathsUpTo]
  | succ depth ih =>
    cases p with
    | nil => simp [forwardPathsUpTo,IsForwardPath]
    | cons τ p =>
      simp only [forwardPathsUpTo,List.mem_cons,reduceCtorEq,false_or,List.mem_flatMap,List.mem_map,
        List.cons.injEq,IsForwardPath,List.length_cons,Nat.add_le_add_iff_right]
      constructor
      · rintro ⟨σ,hσ,q,hq,rfl,rfl⟩
        obtain ⟨hp,hl⟩ := ih.mp hq
        exact ⟨⟨hσ,hp⟩,hl⟩
      · rintro ⟨⟨hτ,hp⟩,hl⟩
        exact ⟨τ,hτ,p,ih.mpr ⟨hp,hl⟩,rfl,rfl⟩

theorem pathEnd_append_singleton (i : Nat) (p : List FlowTarget) (τ : FlowTarget) :
    pathEnd i (p ++ [τ]) = τ.node := by
  induction p generalizing i with
  | nil => rfl
  | cons σ p ih => exact ih σ.node

theorem isForwardPath_append_singleton {i : Nat} {p : List FlowTarget} {τ : FlowTarget} :
    g.IsForwardPath i (p ++ [τ]) ↔ g.IsForwardPath i p ∧ τ ∈ g.forwardTargets (pathEnd i p) := by
  induction p generalizing i with
  | nil => simp [IsForwardPath,pathEnd]
  | cons σ p ih => simp only [List.cons_append,IsForwardPath,pathEnd,ih,and_assoc]

theorem one_le_pathCount (i : Nat) : 1 ≤ g.pathCount i := by
  have h : [] ∈ g.forwardPaths i := mem_forwardPathsUpTo.mpr ⟨trivial,Nat.zero_le _⟩
  exact List.length_pos_of_mem h

section Ranked

variable {r : Nat → Nat} (hr : g.Ranked r)
include hr

theorem Ranked.rank_le_of_mem {i : Nat} {p : List FlowTarget} (hp : g.IsForwardPath i p) :
    ∀ x ∈ pathNodes i p, r x ≤ r i := by
  induction p generalizing i with
  | nil =>
    intro x hx
    rw [List.mem_singleton.mp hx]
  | cons τ p ih =>
    intro x hx
    have hτ := hr.descends i τ hp.1
    rcases List.mem_cons.mp hx with rfl | hx
    · exact Nat.le_refl _
    · have := ih hp.2 x hx
      omega

theorem Ranked.nodup_pathNodes {i : Nat} {p : List FlowTarget} (hp : g.IsForwardPath i p) :
    (pathNodes i p).Nodup := by
  induction p generalizing i with
  | nil => exact List.nodup_singleton i
  | cons τ p ih =>
    refine List.nodup_cons.mpr ⟨?_,ih hp.2⟩
    intro hi
    have h1 := hr.rank_le_of_mem hp.2 i hi
    have h2 := hr.descends i τ hp.1
    omega

theorem Ranked.length_le {i : Nat} {p : List FlowTarget} (hp : g.IsForwardPath i p) :
    p.length ≤ r i + 1 := by
  induction p generalizing i with
  | nil => exact Nat.zero_le _
  | cons τ p ih =>
    have h1 := ih hp.2
    have h2 := hr.descends i τ hp.1
    cases p with
    | nil => simp
    | cons σ q =>
      have h3 := hr.descends τ.node σ hp.2.1
      simp only [List.length_cons] at h1 ⊢
      omega

theorem Ranked.forwardPathsUpTo_eq {depth depth' i : Nat}
    (hd : ∀ n, g.node? i = some n → r i < depth ∧ r i < depth') :
    g.forwardPathsUpTo depth i = g.forwardPathsUpTo depth' i := by
  induction depth generalizing i depth' with
  | zero =>
    cases hn : g.node? i with
    | none => rw [forwardPathsUpTo_of_none hn,forwardPathsUpTo_of_none hn]
    | some n => exact absurd (hd n hn).1 (Nat.not_lt_zero _)
  | succ depth ih =>
    cases hn : g.node? i with
    | none => rw [forwardPathsUpTo_of_none hn,forwardPathsUpTo_of_none hn]
    | some n =>
      obtain ⟨h1,h2⟩ := hd n hn
      cases depth' with
      | zero => exact absurd h2 (Nat.not_lt_zero _)
      | succ depth' =>
        simp only [forwardPathsUpTo]
        congr 1
        apply List.flatMap_congr
        intro τ hτ
        have hτr := hr.descends i τ hτ
        have heq : g.forwardPathsUpTo depth τ.node = g.forwardPathsUpTo depth' τ.node :=
          ih (fun _ _ => ⟨by omega,by omega⟩)
        rw [heq]

theorem Ranked.length_forwardPaths (i : Nat) :
    (g.forwardPaths i).length = 1 + ((g.forwardTargets i).map fun τ => (g.forwardPaths τ.node).length).sum := by
  cases hn : g.node? i with
  | none => simp [forwardPaths,forwardPathsUpTo_of_none hn,forwardTargets_of_none hn]
  | some n =>
    have hc := hr.lt_count i n hn
    obtain ⟨k,hk⟩ : ∃ k, g.nodeCount = k + 1 := ⟨g.nodeCount - 1,by omega⟩
    unfold forwardPaths
    rw [hk,forwardPathsUpTo,List.length_cons,List.length_flatMap]
    have hτ : ∀ τ ∈ g.forwardTargets i,
        ((g.forwardPathsUpTo k τ.node).map (τ :: ·)).length = (g.forwardPathsUpTo (k + 1) τ.node).length := by
      intro τ hτ
      have hτr := hr.descends i τ hτ
      have heq : g.forwardPathsUpTo k τ.node = g.forwardPathsUpTo (k + 1) τ.node :=
        hr.forwardPathsUpTo_eq (fun _ _ => ⟨by omega,by omega⟩)
      rw [List.length_map,heq]
    rw [List.map_congr_left hτ]
    omega

theorem Ranked.mem_forwardPaths {i : Nat} {p : List FlowTarget} (hp : g.IsForwardPath i p) :
    p ∈ g.forwardPaths i := by
  refine mem_forwardPathsUpTo.mpr ⟨hp,?_⟩
  cases p with
  | nil => exact Nat.zero_le _
  | cons τ q =>
    have hn : ∃ n, g.node? i = some n := by
      cases hn : g.node? i with
      | none => rw [IsForwardPath,forwardTargets_of_none hn] at hp; exact absurd hp.1 List.not_mem_nil
      | some n => exact ⟨n,rfl⟩
    obtain ⟨n,hn⟩ := hn
    have h1 := hr.length_le hp
    have h2 := hr.lt_count i n hn
    omega

theorem Ranked.sum_pathCount_lt {i : Nat} {targets : List FlowTarget}
    (hs : targets.Sublist (g.forwardTargets i)) :
    (targets.map (g.pathCount ·.node)).sum + 1 ≤ g.pathCount i := by
  have hle : (targets.map (g.pathCount ·.node)).sum ≤ ((g.forwardTargets i).map (g.pathCount ·.node)).sum :=
    (hs.map _).sum_le_sum (fun _ _ => Nat.zero_le _)
  have heq := hr.length_forwardPaths i
  unfold pathCount at hle ⊢
  omega

end Ranked

/-! ## The compiler's ranking -/

theorem except_bind_eq_ok {ε α β : Type} {x : Except ε α} {f : α → Except ε β} {b : β}
    (h : (x >>= f) = .ok b) : ∃ a, x = .ok a ∧ f a = .ok b := by
  cases x with
  | error e => cases h
  | ok a => exact ⟨a,rfl,h⟩

theorem compileNode_eq {reg : Registry} {seen : List Uuid} {spec : NodeSpec} {n : CompiledNode}
    (h : compileNode reg seen spec = .ok n) :
    ∃ kind, reg.resolve spec.nodeType = .ok kind ∧ spec.id ∉ seen ∧ kind.pins.length ≤ maxPins ∧
      seen.length < nodeIndexEnd ∧
      n = ⟨spec,kind,kind.flowOutputs,PinSet.empty,List.replicate kind.flowOutputs.length [],[]⟩ := by
  unfold compileNode at h
  dsimp only at h
  split at h
  · cases h
  · rename_i hseen
    obtain ⟨kind,hk,h⟩ := except_bind_eq_ok h
    split at h
    · cases h
    · rename_i hpins
      split at h
      · cases h
      · split at h
        · cases h
        · rename_i hlim
          cases h
          exact ⟨kind,hk,by simpa using hseen,Nat.le_of_not_lt hpins,Nat.lt_of_not_le hlim,rfl⟩

theorem length_le_of_compileNodes {reg : Registry} :
    ∀ {seen : List Uuid} {specs : List NodeSpec} {ns : List CompiledNode},
      compileNodes reg seen specs = .ok ns → seen.length ≤ nodeIndexEnd → seen.length + ns.length ≤ nodeIndexEnd
  | _,[],_,h,hs => by
    cases h
    exact hs
  | seen,spec :: rest,_,h,_ => by
    simp only [compileNodes] at h
    obtain ⟨n,hn,h⟩ := except_bind_eq_ok h
    obtain ⟨ns,hns,h⟩ := except_bind_eq_ok h
    cases h
    obtain ⟨-,-,-,-,hlt,-⟩ := compileNode_eq hn
    have hrest := length_le_of_compileNodes hns (Nat.succ_le_of_lt hlt)
    simp only [List.length_cons] at hrest ⊢
    omega

theorem compileNode_targets {reg : Registry} {seen : List Uuid} {spec : NodeSpec} {n : CompiledNode}
    (h : compileNode reg seen spec = .ok n) : n.targets.flatten = [] := by
  obtain ⟨kind,-,-,-,-,rfl⟩ := compileNode_eq h
  simp

theorem compileNodes_targets {reg : Registry} :
    ∀ {seen : List Uuid} {specs : List NodeSpec} {ns : List CompiledNode},
      compileNodes reg seen specs = .ok ns → ∀ n ∈ ns, n.targets.flatten = []
  | _,[],_,h => by
    cases h
    intro n hn
    exact absurd hn List.not_mem_nil
  | _,spec :: rest,_,h => by
    simp only [compileNodes] at h
    obtain ⟨n,hn,h⟩ := except_bind_eq_ok h
    obtain ⟨ns,hns,h⟩ := except_bind_eq_ok h
    cases h
    intro m hm
    rcases List.mem_cons.mp hm with rfl | hm
    · exact compileNode_targets hn
    · exact compileNodes_targets hns m hm

theorem wire_eq {w w' : Wiring} {c : Connection} (h : wire w c = .ok w') :
    w'.nodes.size = w.nodes.size ∧
      (∀ i : Nat, w'.nodes[i]?.map CompiledNode.targets = w.nodes[i]?.map CompiledNode.targets) ∧
      ∃ src dst, src < w.nodes.size ∧ dst < w.nodes.size ∧
        ((∃ o pin, w'.flowWires = w.flowWires ++ [(src,o,dst,pin)] ∧ w'.flowEdges = w.flowEdges ++ [(src,dst)]) ∨
          (w'.flowWires = w.flowWires ∧ w'.flowEdges = w.flowEdges)) := by
  unfold wire at h
  cases hs : w.nodes.findIdx? (·.spec.id == c.fromNode) with
  | none =>
    simp only [hs] at h
    cases h
  | some src =>
    cases hd : w.nodes.findIdx? (·.spec.id == c.toNode) with
    | none =>
      simp only [hs,hd] at h
      cases h
    | some dst =>
      simp only [hs,hd] at h
      have hsrc := (Array.findIdx?_eq_some_iff_getElem.mp hs).1
      have hdst := (Array.findIdx?_eq_some_iff_getElem.mp hd).1
      obtain ⟨fromPin,-,h⟩ := except_bind_eq_ok h
      obtain ⟨toPin,-,h⟩ := except_bind_eq_ok h
      obtain ⟨-,-,h⟩ := except_bind_eq_ok h
      obtain ⟨-,-,h⟩ := except_bind_eq_ok h
      split at h
      · cases h
      · split at h
        · cases h
          refine ⟨Array.size_modify,?_,src,dst,hsrc,hdst,Or.inl ⟨_,_,rfl,rfl⟩⟩
          intro i
          simp only [Array.getElem?_modify]
          split
          · cases w.nodes[i]? <;> rfl
          · rfl
        · split at h
          · cases h
          · cases h
            refine ⟨Array.size_modify,?_,src,dst,hsrc,hdst,Or.inr ⟨rfl,rfl⟩⟩
            intro i
            simp only [Array.getElem?_modify]
            split
            · cases w.nodes[i]? <;> rfl
            · rfl

/-- What wiring the connections keeps: the node count, no target laid out yet, and each flow
wire recorded with its edge, between two nodes. -/
structure Wired (size : Nat) (w : Wiring) : Prop where
  size_eq : w.nodes.size = size
  targets : ∀ (i : Nat) (n : CompiledNode), w.nodes[i]? = some n → n.targets.flatten = []
  edges : ∀ e ∈ w.flowEdges, e.1 < size ∧ e.2 < size
  wires : ∀ fw ∈ w.flowWires, (fw.1,fw.2.2.1) ∈ w.flowEdges

theorem Wired.init {reg : Registry} {specs : List NodeSpec} {nodes : List CompiledNode}
    (h : compileNodes reg [] specs = .ok nodes) : Wired nodes.length { nodes := nodes.toArray } where
  size_eq := List.size_toArray
  targets i n hn := by
    rw [List.getElem?_toArray] at hn
    exact compileNodes_targets h n (List.mem_of_getElem? hn)
  edges e he := absurd he List.not_mem_nil
  wires fw hfw := absurd hfw List.not_mem_nil

theorem Wired.wire {size : Nat} {w w' : Wiring} {c : Connection} (hw : Wired size w)
    (h : CompiledGraph.wire w c = .ok w') : Wired size w' := by
  obtain ⟨hsz,htg,src,dst,hsrc,hdst,hfl⟩ := wire_eq h
  rw [hw.size_eq] at hsrc hdst
  refine ⟨by rw [hsz,hw.size_eq],?_,?_,?_⟩
  · intro i n hn
    have hi := htg i
    rw [hn] at hi
    cases hm : w.nodes[i]? with
    | none =>
      rw [hm] at hi
      cases hi
    | some m =>
      rw [hm] at hi
      rw [Option.some.inj hi]
      exact hw.targets i m hm
  · rcases hfl with ⟨o,pin,-,hedges⟩ | ⟨-,hedges⟩
    · rw [hedges]
      intro e he
      rcases List.mem_append.mp he with he | he
      · exact hw.edges e he
      · rw [List.mem_singleton.mp he]
        exact ⟨hsrc,hdst⟩
    · rw [hedges]
      exact hw.edges
  · rcases hfl with ⟨o,pin,hwires,hedges⟩ | ⟨hwires,hedges⟩
    · rw [hwires,hedges]
      intro fw hfw
      rcases List.mem_append.mp hfw with hfw | hfw
      · exact List.mem_append_left _ (hw.wires fw hfw)
      · rw [List.mem_singleton.mp hfw]
        exact List.mem_append_right _ List.mem_cons_self
    · rw [hwires,hedges]
      exact hw.wires

theorem Wired.foldlM {size : Nat} :
    ∀ {conns : List Connection} {w w' : Wiring}, Wired size w → conns.foldlM CompiledGraph.wire w = .ok w' →
      Wired size w'
  | [],_,_,hw,h => by
    cases h
    exact hw
  | c :: rest,_,_,hw,h => by
    rw [List.foldlM_cons] at h
    obtain ⟨w₁,h₁,h₂⟩ := except_bind_eq_ok h
    exact Wired.foldlM (hw.wire h₁) h₂

theorem mem_flatten_modify_append {l : List (List FlowTarget)} {o : Nat} {t τ : FlowTarget}
    (h : τ ∈ (l.modify o (· ++ [t])).flatten) : τ ∈ l.flatten ∨ τ = t := by
  induction l generalizing o with
  | nil =>
    rw [List.modify_nil] at h
    exact absurd h List.not_mem_nil
  | cons a l ih =>
    cases o with
    | zero =>
      rw [List.modify_zero_cons,List.flatten_cons,List.append_assoc] at h
      rw [List.flatten_cons]
      rcases List.mem_append.mp h with h | h
      · exact Or.inl (List.mem_append_left _ h)
      · rcases List.mem_cons.mp h with h | h
        · exact Or.inr h
        · exact Or.inl (List.mem_append_right _ h)
    | succ o =>
      rw [List.modify_succ_cons,List.flatten_cons] at h
      rw [List.flatten_cons]
      rcases List.mem_append.mp h with h | h
      · exact Or.inl (List.mem_append_left _ h)
      · rcases ih h with h | h
        · exact Or.inl (List.mem_append_right _ h)
        · exact Or.inr h

theorem size_placeTargets {back : List (Nat × Nat)} :
    ∀ (nodes : Array CompiledNode) (wires : List (Nat × Nat × Nat × Nat)),
      (placeTargets nodes back wires).size = nodes.size
  | _,[] => rfl
  | nodes,(src,o,dst,pin) :: rest => by
    rw [placeTargets,size_placeTargets _ rest,Array.size_modify]

theorem mem_placeTargets {back : List (Nat × Nat)} :
    ∀ {wires : List (Nat × Nat × Nat × Nat)} {nodes : Array CompiledNode} {x : Nat} {n' : CompiledNode},
      (placeTargets nodes back wires)[x]? = some n' → ∀ τ ∈ n'.targets.flatten,
        ∃ n, nodes[x]? = some n ∧
          (τ ∈ n.targets.flatten ∨ ∃ o dst pin, (x,o,dst,pin) ∈ wires ∧ τ = ⟨dst,pin,back.contains (x,dst)⟩)
  | [],_,_,n',h,τ,hτ => ⟨n',h,Or.inl hτ⟩
  | (src,o,dst,pin) :: rest,nodes,x,n',h,τ,hτ => by
    rw [placeTargets] at h
    obtain ⟨n₁,h₁,hτ₁⟩ := mem_placeTargets h τ hτ
    have hrest : ∀ o' dst' pin', (x,o',dst',pin') ∈ rest → (x,o',dst',pin') ∈ (src,o,dst,pin) :: rest :=
      fun _ _ _ h => List.mem_cons_of_mem _ h
    rw [Array.getElem?_modify] at h₁
    split at h₁
    · rename_i hsx
      subst hsx
      cases hn : nodes[src]? with
      | none =>
        rw [hn] at h₁
        cases h₁
      | some n =>
        rw [hn,Option.map_some,Option.some.injEq] at h₁
        subst h₁
        refine ⟨n,rfl,?_⟩
        rcases hτ₁ with hτ₁ | ⟨o',dst',pin',hw,heq⟩
        · rcases mem_flatten_modify_append hτ₁ with h | h
          · exact Or.inl h
          · exact Or.inr ⟨o,dst,pin,List.mem_cons_self,h⟩
        · exact Or.inr ⟨o',dst',pin',hrest o' dst' pin' hw,heq⟩
    · refine ⟨n₁,h₁,?_⟩
      rcases hτ₁ with hτ₁ | ⟨o',dst',pin',hw,heq⟩
      · exact Or.inl hτ₁
      · exact Or.inr ⟨o',dst',pin',hrest o' dst' pin' hw,heq⟩

/-- A compiled graph is laid out from the checked nodes and the wiring of the connections, its
targets placed with the back edges of a search started from every node, and its entries read
off the wired nodes. -/
theorem compile_eq {reg : Registry} {doc : Graph} {g : CompiledGraph} (h : compile reg doc = .ok g) :
    ∃ nodes w, compileNodes reg [] doc.nodes = .ok nodes ∧
      doc.connections.foldlM wire { nodes := nodes.toArray } = .ok w ∧
      ∃ starts, (∀ u ∈ starts, u < nodes.length) ∧ (∀ x < nodes.length, x ∈ starts) ∧
        g.nodes = placeTargets w.nodes ((⟨nodes.length,w.flowEdges⟩ : Digraph).backEdges starts) w.flowWires ∧
        g.flow = ⟨nodes.length,w.flowEdges⟩ ∧
        g.entries = (List.range nodes.length).filter fun i => (w.nodes[i]?.map (·.classification == .entry)).getD false := by
  unfold compile at h
  obtain ⟨nodes,hn,h⟩ := except_bind_eq_ok h
  obtain ⟨w,hw,h⟩ := except_bind_eq_ok h
  dsimp only at h
  have hg : g.nodes = placeTargets w.nodes ((⟨nodes.length,w.flowEdges⟩ : Digraph).backEdges
        (((List.range nodes.length).filter fun i => (w.nodes[i]?.map (·.classification == .entry)).getD false) ++
          List.range nodes.length)) w.flowWires ∧ g.flow = ⟨nodes.length,w.flowEdges⟩ ∧
      g.entries = (List.range nodes.length).filter fun i => (w.nodes[i]?.map (·.classification == .entry)).getD false := by
    split at h
    · cases h
    · split at h
      · split at h
        · cases h
        · split at h
          · cases h
            exact ⟨rfl,rfl,rfl⟩
          · cases h
      · split at h
        · cases h
          exact ⟨rfl,rfl,rfl⟩
        · cases h
  refine ⟨nodes,w,hn,hw,_,?_,?_,hg.1,hg.2⟩
  · intro u hu
    rcases List.mem_append.mp hu with hu | hu
    · exact List.mem_range.mp (List.mem_filter.mp hu).1
    · exact List.mem_range.mp hu
  · intro x hx
    exact List.mem_append_right _ (List.mem_range.mpr hx)

theorem compile_ranked {reg : Registry} {doc : Graph} {g : CompiledGraph} (h : compile reg doc = .ok g) :
    ∃ r, g.Ranked r := by
  obtain ⟨nodes,w,hn,hw,starts,hin,hall,hnodes,-,-⟩ := compile_eq h
  have hwired : Wired nodes.length w := (Wired.init hn).foldlM hw
  obtain ⟨order,hnd,hmem,hrank⟩ :=
    @Digraph.backEdges_ranked ⟨nodes.length,w.flowEdges⟩ hwired.edges starts hin hall
  have hsize : g.nodes.size = nodes.length := by
    rw [hnodes,size_placeTargets,hwired.size_eq]
  refine ⟨fun i => order.idxOf i,⟨?_,?_⟩⟩
  · intro i n hi
    have hi' : i < nodes.length := by
      rw [← hsize]
      exact (Array.getElem?_eq_some_iff.mp hi).1
    have hlen : order.length ≤ nodes.length := by
      have hsub := List.subperm_of_subset hnd (fun x hx => List.mem_range.mpr ((hmem x).mp hx))
      simpa using hsub.length_le
    have hlt := List.idxOf_lt_length_of_mem ((hmem i).mpr hi')
    show order.idxOf i < g.nodes.size
    omega
  · intro i τ hτ
    unfold forwardTargets at hτ
    cases hi : g.node? i with
    | none =>
      rw [hi] at hτ
      exact absurd hτ List.not_mem_nil
    | some n' =>
      rw [hi] at hτ
      obtain ⟨hτf,hback⟩ := List.mem_filter.mp hτ
      rw [CompiledGraph.node?,hnodes] at hi
      obtain ⟨n,hn₀,hcase⟩ := mem_placeTargets hi τ hτf
      rcases hcase with hold | ⟨o,dst,pin,hwire,rfl⟩
      · rw [hwired.targets i n hn₀] at hold
        exact absurd hold List.not_mem_nil
      · -- the wire's edge is no back edge, so the search finished its target first
        rcases hrank _ (hwired.wires _ hwire) with hb | hlt
        · simp only [Bool.not_eq_eq_eq_not,Bool.not_true] at hback
          rw [List.contains_iff_mem.mpr hb] at hback
          exact absurd hback (by decide)
        · exact hlt

end CompiledGraph

end Tickflow
