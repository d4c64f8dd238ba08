import Tickflow.Proofs.Wiring
import Tickflow.Proofs.ForwardPaths
/-! # Back edges break every loop, and only loops

The target of a back edge is open when the search meets it, so it reaches the edge's source
(`backEdges_reach`). With the ranking of `compile_ranked` this says that every loop of wires
crosses a back edge and that every back edge closes a loop.
-/
namespace Tickflow

namespace Digraph

def SearchState.Open (s : SearchState) (x : Nat) : Prop :=
  marked s.discovered x = true ∧ marked s.finished x = false

/-- What every state of the search keeps: both tables cover the graph, a finished node was
discovered, and the target of each back edge found reaches its source. -/
structure Tracked (g : Digraph) (s : SearchState) : Prop where
  discoveredSize : s.discovered.size = g.size
  finishedSize : s.finished.size = g.size
  discovered : ∀ x, marked s.finished x = true → marked s.discovered x = true
  back : ∀ e ∈ s.back, Relation.ReflTransGen g.Adj e.2 e.1

variable {g : Digraph}

theorem Tracked.init (g : Digraph) :
    Tracked g ⟨Array.replicate g.size false,Array.replicate g.size false,[]⟩ where
  discoveredSize := Array.size_replicate
  finishedSize := Array.size_replicate
  discovered x hx := by
    rw [marked_replicate] at hx
    cases hx
  back _ he := absurd he List.not_mem_nil

theorem SearchState.not_open_of_undiscovered {s : SearchState} {u : Nat}
    (hu : marked s.discovered u = false) : ¬ s.Open u := fun ho => by
  rw [ho.1] at hu
  cases hu

theorem Tracked.discover {s : SearchState} (hs : Tracked g s) {u : Nat} (hu : marked s.discovered u = false) :
    Tracked g { s with discovered := s.discovered.set! u true } ∧
      ∀ x, SearchState.Open { s with discovered := s.discovered.set! u true } x ↔ s.Open x ∨ (x = u ∧ u < g.size) := by
  have huf : marked s.finished u = false := by
    cases h : marked s.finished u
    · rfl
    · rw [hs.discovered u h] at hu
      cases hu
  refine ⟨⟨?_,hs.finishedSize,fun x hx => marked_set.mpr (Or.inl (hs.discovered x hx)),hs.back⟩,fun x => ?_⟩
  · show (s.discovered.setIfInBounds u true).size = g.size
    rw [Array.size_setIfInBounds,hs.discoveredSize]
  · simp only [SearchState.Open,marked_set,hs.discoveredSize]
    constructor
    · rintro ⟨hd | ⟨rfl,hx⟩,hf⟩
      · exact Or.inl ⟨hd,hf⟩
      · exact Or.inr ⟨rfl,hx⟩
    · rintro (⟨hd,hf⟩ | ⟨rfl,hx⟩)
      · exact ⟨Or.inl hd,hf⟩
      · exact ⟨Or.inr ⟨rfl,hx⟩,huf⟩

theorem Tracked.finish {s : SearchState} (hs : Tracked g s) {u : Nat} (hu : u < g.size → s.Open u) :
    Tracked g { s with finished := s.finished.set! u true } ∧
      ∀ x, SearchState.Open { s with finished := s.finished.set! u true } x ↔ s.Open x ∧ x ≠ u := by
  refine ⟨⟨hs.discoveredSize,?_,fun x hx => ?_,hs.back⟩,fun x => ?_⟩
  · show (s.finished.setIfInBounds u true).size = g.size
    rw [Array.size_setIfInBounds,hs.finishedSize]
  · rcases marked_set.mp hx with hx | ⟨rfl,hlt⟩
    · exact hs.discovered x hx
    · rw [hs.finishedSize] at hlt
      exact (hu hlt).1
  · simp only [SearchState.Open]
    constructor
    · rintro ⟨hd,hf⟩
      refine ⟨⟨hd,?_⟩,fun hxu => ?_⟩
      · cases h : marked s.finished x
        · rfl
        · rw [marked_set.mpr (Or.inl h)] at hf
          cases hf
      · subst hxu
        have hlt : x < s.finished.size := by
          rw [hs.finishedSize,← hs.discoveredSize]
          exact marked_size hd
        rw [marked_set.mpr (Or.inr ⟨rfl,hlt⟩)] at hf
        cases hf
    · rintro ⟨⟨hd,hf⟩,hxu⟩
      refine ⟨hd,?_⟩
      cases h : marked (s.finished.set! u true) x
      · rfl
      · rcases marked_set.mp h with h | ⟨h,-⟩
        · rw [hf] at h
          cases h
        · exact absurd h hxu

theorem visitStep_tracked {fuel u v : Nat} {s : SearchState}
    (hvisit : ∀ s, Tracked g s → (∀ x, s.Open x → Relation.ReflTransGen g.Adj x v) →
      Tracked g (g.visit fuel v s) ∧ ∀ x, (g.visit fuel v s).Open x ↔ s.Open x)
    (hadj : g.Adj u v) (hs : Tracked g s) (hreach : ∀ x, s.Open x → Relation.ReflTransGen g.Adj x u) :
    Tracked g (g.visitStep fuel u s v) ∧ ∀ x, (g.visitStep fuel u s v).Open x ↔ s.Open x := by
  unfold visitStep
  split
  · exact hvisit s hs fun x hx => (hreach x hx).tail hadj
  · split
    · rename_i hd hf
      have hv : s.Open v := ⟨by simpa using hd,by simpa using hf⟩
      refine ⟨⟨hs.discoveredSize,hs.finishedSize,hs.discovered,fun e he => ?_⟩,fun _ => Iff.rfl⟩
      rcases List.mem_append.mp he with he | he
      · exact hs.back e he
      · rw [List.mem_singleton.mp he]
        exact hreach v hv
    · exact ⟨hs,fun _ => Iff.rfl⟩

theorem foldl_visitStep_tracked {fuel u : Nat}
    (hvisit : ∀ v s, Tracked g s → (∀ x, s.Open x → Relation.ReflTransGen g.Adj x v) →
      Tracked g (g.visit fuel v s) ∧ ∀ x, (g.visit fuel v s).Open x ↔ s.Open x) :
    ∀ (vs : List Nat) (s : SearchState), (∀ v ∈ vs, g.Adj u v) → Tracked g s →
      (∀ x, s.Open x → Relation.ReflTransGen g.Adj x u) →
      Tracked g (vs.foldl (g.visitStep fuel u) s) ∧ ∀ x, (vs.foldl (g.visitStep fuel u) s).Open x ↔ s.Open x
  | [],_,_,hs,_ => ⟨hs,fun _ => Iff.rfl⟩
  | v :: rest,s,hadj,hs,hreach => by
    obtain ⟨hs₁,hopen₁⟩ := visitStep_tracked (hvisit v) (hadj v List.mem_cons_self) hs hreach
    obtain ⟨hs₂,hopen₂⟩ := foldl_visitStep_tracked hvisit rest _ (fun w hw => hadj w (List.mem_cons_of_mem v hw))
      hs₁ fun x hx => hreach x ((hopen₁ x).mp hx)
    rw [List.foldl_cons]
    exact ⟨hs₂,fun x => (hopen₂ x).trans (hopen₁ x)⟩

theorem visit_tracked (fuel : Nat) :
    ∀ (u : Nat) (s : SearchState), Tracked g s → (∀ x, s.Open x → Relation.ReflTransGen g.Adj x u) →
      Tracked g (g.visit fuel u s) ∧ ∀ x, (g.visit fuel u s).Open x ↔ s.Open x := by
  induction fuel with
  | zero => exact fun _ s hs _ => ⟨hs,fun _ => Iff.rfl⟩
  | succ fuel ih =>
    intro u s hs hreach
    rw [visit_succ]
    split
    · exact ⟨hs,fun _ => Iff.rfl⟩
    · rename_i hud
      have hud' : marked s.discovered u = false := by simpa using hud
      obtain ⟨hs₁,hopen₁⟩ := hs.discover hud'
      have hreach₁ : ∀ x, SearchState.Open { s with discovered := s.discovered.set! u true } x →
          Relation.ReflTransGen g.Adj x u := by
        intro x hx
        rcases (hopen₁ x).mp hx with hx | ⟨rfl,-⟩
        · exact hreach x hx
        · exact Relation.ReflTransGen.refl
      obtain ⟨hs₂,hopen₂⟩ := foldl_visitStep_tracked ih (g.successors u) _ (fun v hv => mem_successors.mp hv)
        hs₁ hreach₁
      obtain ⟨hs₃,hopen₃⟩ := hs₂.finish fun (hlt : u < g.size) => (hopen₂ u).mpr ((hopen₁ u).mpr (Or.inr ⟨rfl,hlt⟩))
      refine ⟨hs₃,fun x => ?_⟩
      rw [hopen₃ x,hopen₂ x,hopen₁ x]
      constructor
      · rintro ⟨hx | ⟨rfl,-⟩,hxu⟩
        · exact hx
        · exact absurd rfl hxu
      · intro hx
        refine ⟨Or.inl hx,?_⟩
        rintro rfl
        exact SearchState.not_open_of_undiscovered hud' hx

theorem backEdges_reach (starts : List Nat) : ∀ e ∈ g.backEdges starts, Relation.ReflTransGen g.Adj e.2 e.1 := by
  have hfold : ∀ (us : List Nat) (s : SearchState), Tracked g s → (∀ x, ¬ s.Open x) →
      Tracked g (us.foldl (fun s u => g.visit (g.size + 1) u s) s) := by
    intro us
    induction us with
    | nil => exact fun _ hs _ => hs
    | cons u rest ih =>
      intro s hs hclosed
      obtain ⟨hs',hopen⟩ := visit_tracked (g.size + 1) u s hs fun x hx => absurd hx (hclosed x)
      exact ih _ hs' fun x hx => hclosed x ((hopen x).mp hx)
  exact (hfold starts _ (Tracked.init g) fun x hx => by
    have h := hx.1
    rw [marked_replicate] at h
    cases h).back

end Digraph

namespace CompiledGraph

def targetsAt (g : CompiledGraph) (i : Nat) : List FlowTarget :=
  match g.node? i with
  | some n => n.targets.flatten
  | none => []

def Leads (g : CompiledGraph) (a b : Nat) : Prop := ∃ τ ∈ g.targetsAt a, τ.node = b

/-- A wire that closes no loop leads from node `a` to node `b`. -/
def LeadsForward (g : CompiledGraph) (a b : Nat) : Prop := ∃ τ ∈ g.forwardTargets a, τ.node = b

def IsPath (g : CompiledGraph) : Nat → List FlowTarget → Prop
  | _,[] => True
  | i,τ :: p => τ ∈ g.targetsAt i ∧ g.IsPath τ.node p

/-- What the back edges of a graph do: every loop of wires, a wire from a node to itself
included, crosses one, so the other wires form no loop; the target of each reaches its source,
so a graph whose wires form no loop has none; and wires joining the same two nodes are marked
alike. -/
structure MarksLoops (g : CompiledGraph) : Prop where
  loop_crosses_back : ∀ (i : Nat) (p : List FlowTarget), g.IsPath i p → p ≠ [] → pathEnd i p = i →
    ∃ τ ∈ p, τ.backEdge = true
  forward_acyclic : ∀ i, ¬ Relation.TransGen g.LeadsForward i i
  back_closes_loop : ∀ (i : Nat), ∀ τ ∈ g.targetsAt i, τ.backEdge = true → Relation.ReflTransGen g.Leads τ.node i
  no_back_of_acyclic : (∀ i, ¬ Relation.TransGen g.Leads i i) → ∀ (i : Nat), ∀ τ ∈ g.targetsAt i, τ.backEdge = false
  parallel : ∀ (i : Nat), ∀ τ₁ ∈ g.targetsAt i, ∀ τ₂ ∈ g.targetsAt i, τ₁.node = τ₂.node → τ₁.backEdge = τ₂.backEdge

section

variable {g : CompiledGraph}

theorem mem_forwardTargets {i : Nat} {τ : FlowTarget} :
    τ ∈ g.forwardTargets i ↔ τ ∈ g.targetsAt i ∧ τ.backEdge = false := by
  unfold forwardTargets targetsAt
  cases g.node? i with
  | none => simp
  | some n => simp only [List.mem_filter,Bool.not_eq_true']

theorem Ranked.lt_of_leadsForward {r : Nat → Nat} (hr : g.Ranked r) {a b : Nat}
    (h : Relation.TransGen g.LeadsForward a b) : r b < r a := by
  induction h with
  | single hab =>
    obtain ⟨τ,hτ,rfl⟩ := hab
    exact hr.descends _ τ hτ
  | tail _ hbc ih =>
    obtain ⟨τ,hτ,rfl⟩ := hbc
    have := hr.descends _ τ hτ
    omega

theorem transGen_of_forward_path : ∀ {i : Nat} {p : List FlowTarget}, g.IsPath i p →
    (∀ τ ∈ p, τ.backEdge = false) → p ≠ [] → Relation.TransGen g.LeadsForward i (pathEnd i p)
  | _,[],_,_,hne => absurd rfl hne
  | i,τ :: q,hp,hfw,_ => by
    have hstep : g.LeadsForward i τ.node := ⟨τ,mem_forwardTargets.mpr ⟨hp.1,hfw τ List.mem_cons_self⟩,rfl⟩
    cases q with
    | nil => exact Relation.TransGen.single hstep
    | cons τ' q =>
      exact Relation.TransGen.head hstep
        (transGen_of_forward_path hp.2 (fun σ hσ => hfw σ (List.mem_cons_of_mem τ hσ)) (List.cons_ne_nil _ _))

end

variable {reg : Registry} {doc : Graph} {cg : CompiledGraph}

theorem leads_of_flow_edge (h : compile reg doc = .ok cg) {a b : Nat} (hab : (a,b) ∈ cg.flow.edges) :
    cg.Leads a b := by
  obtain ⟨w,-,-,hx,-,-,-,hflow⟩ := compile_layout h
  rw [hflow] at hab
  change (a,b) ∈ w.flowEdges at hab
  rw [hx.flowEdges,hx.flowWires,List.mem_map] at hab
  obtain ⟨fw,hfw,hab⟩ := hab
  obtain ⟨c,hc,hfc⟩ := List.mem_filterMap.mp hfw
  unfold Graph.flowWire? at hfc
  split at hfc
  · rename_i hcarry
    split at hfc
    · rename_i i kind j hi hk hj
      cases hfc
      obtain ⟨rfl,rfl⟩ := Prod.mk.inj hab
      obtain ⟨n,hn,τ,hτ,hτn,-⟩ := target_of_flow_connection h hc hcarry hi hj
      exact ⟨τ,by rw [targetsAt,hn]; exact hτ,hτn⟩
    · cases hfc
  · cases hfc

theorem backEdge_of_compile (h : compile reg doc = .ok cg) :
    ∃ starts : List Nat, ∀ (i : Nat), ∀ τ ∈ cg.targetsAt i, τ.backEdge = (cg.flow.backEdges starts).contains (i,τ.node) := by
  obtain ⟨starts,hmem⟩ := mem_targets_of_compile h
  refine ⟨starts,fun i τ hτ => ?_⟩
  unfold targetsAt at hτ
  split at hτ
  · rename_i n hn
    obtain ⟨-,-,-,-,-,-,-,-,hflag⟩ := hmem i n hn τ hτ
    exact hflag
  · exact absurd hτ List.not_mem_nil

theorem reach_of_backEdge (h : compile reg doc = .ok cg) {i : Nat} {τ : FlowTarget} (hτ : τ ∈ cg.targetsAt i)
    (hb : τ.backEdge = true) : Relation.ReflTransGen cg.Leads τ.node i := by
  obtain ⟨starts,hflag⟩ := backEdge_of_compile h
  rw [hflag i τ hτ] at hb
  have he := Digraph.backEdges_reach starts _ (List.contains_iff_mem.mp hb)
  exact Relation.ReflTransGen.mono (fun a b hab => leads_of_flow_edge h hab) _ _ he

/-- A compiled graph's back edges break every loop of wires and close one each. -/
theorem compile_marks_loops (h : compile reg doc = .ok cg) : cg.MarksLoops := by
  obtain ⟨r,hr⟩ := compile_ranked h
  have hacyclic : ∀ i, ¬ Relation.TransGen cg.LeadsForward i i := fun i hi => Nat.lt_irrefl _ (hr.lt_of_leadsForward hi)
  refine ⟨fun i p hp hne hend => ?_,hacyclic,fun i τ hτ hb => reach_of_backEdge h hτ hb,fun hac i τ hτ => ?_,
    fun i τ₁ h₁ τ₂ h₂ heq => ?_⟩
  · by_contra hnone
    have hfw : ∀ τ ∈ p, τ.backEdge = false := fun τ hτ => by
      cases hb : τ.backEdge
      · rfl
      · exact absurd ⟨τ,hτ,hb⟩ hnone
    have hloop := transGen_of_forward_path hp hfw hne
    rw [hend] at hloop
    exact hacyclic i hloop
  · cases hb : τ.backEdge
    · rfl
    · exact absurd (Relation.TransGen.head' ⟨τ,hτ,rfl⟩ (reach_of_backEdge h hτ hb)) (hac i)
  · obtain ⟨starts,hflag⟩ := backEdge_of_compile h
    rw [hflag i τ₁ h₁,hflag i τ₂ h₂,heq]

/-- A start node into a fork whose first two outputs both enter a first-arrival merge, which
loops back into the fork; the fork's last output ends at a stop node. -/
def forkLoopDoc : Graph where
  id := ⟨6⟩
  name := "fork loop"
  nodes := [{ id := ⟨1⟩,nodeType := "flow.start" },{ id := ⟨2⟩,nodeType := "flow.fork" },
    { id := ⟨3⟩,nodeType := "flow.merge_one" },{ id := ⟨4⟩,nodeType := "flow.stop" }]
  connections := [⟨⟨1⟩,0,⟨2⟩,0⟩,⟨⟨2⟩,1,⟨3⟩,0⟩,⟨⟨2⟩,2,⟨3⟩,1⟩,⟨⟨3⟩,2,⟨2⟩,0⟩,⟨⟨2⟩,3,⟨4⟩,0⟩]

def forkLoopGraph : CompiledGraph := (compile Registry.standard forkLoopDoc).toOption.getD default

theorem compile_forkLoopDoc : compile Registry.standard forkLoopDoc = .ok forkLoopGraph := by
  have h : (compile Registry.standard forkLoopDoc).toBool = true := by decide +kernel
  unfold forkLoopGraph
  revert h
  cases compile Registry.standard forkLoopDoc with
  | error e => exact fun h => by cases h
  | ok g => exact fun _ => rfl

theorem compile_marks_loops_fork :
    compile Registry.standard forkLoopDoc = .ok forkLoopGraph ∧ forkLoopGraph.MarksLoops :=
  ⟨compile_forkLoopDoc,compile_marks_loops compile_forkLoopDoc⟩

end CompiledGraph

end Tickflow
