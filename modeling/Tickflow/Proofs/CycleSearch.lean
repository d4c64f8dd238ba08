import Tickflow.Proofs.BackEdges
/-! # Finding a cycle

The first pass of `Digraph.cycleWitness?` runs an explicit stack; three facts about the stack
carry it, and in an acyclic graph its finish order puts every edge's source before its target.
The second pass over the reversed edges then finds nothing, and conversely an order it accepts
ranks every edge upwards, which no cycle allows.
-/
namespace Tickflow

namespace Digraph

def Adj (g : Digraph) (u v : Nat) : Prop := (u,v) ∈ g.edges

def Acyclic (g : Digraph) : Prop := ∀ u, ¬ Relation.TransGen g.Adj u u

theorem mem_predecessors {g : Digraph} {u v : Nat} : v ∈ g.predecessors u ↔ (v,u) ∈ g.edges := by
  simp [predecessors]

theorem length_successors (g : Digraph) (u : Nat) :
    (g.successors u).length = (g.edges.filter (·.1 == u)).length := by
  simp [successors]

theorem marked_set_self {t : Array Bool} {u : Nat} (hu : u < t.size) : marked (t.set! u true) u = true :=
  marked_set.mpr (Or.inr ⟨rfl,hu⟩)

theorem marked_set_ne {t : Array Bool} {u v : Nat} (h : v ≠ u) : marked (t.set! u true) v = marked t v := by
  simp [marked,Array.getD_eq_getD_getElem?,Ne.symm h]

theorem marked_replicate (n x : Nat) : marked (Array.replicate n false) x = false := by
  simp only [marked,Array.getD_eq_getD_getElem?,Array.getElem?_replicate]
  split <;> rfl

/-! ## One turn of the first pass -/

theorem pushSuccessors_eq (discovered : Array Bool) (u : Nat) :
    ∀ (vs stack : List Nat), pushSuccessors discovered u vs stack =
      if u ∈ vs then .error u else .ok ((vs.filter fun v => !marked discovered v).reverse ++ stack)
  | [],stack => rfl
  | v :: vs,stack => by
    by_cases hv : v = u
    · subst hv
      simp [pushSuccessors]
    · rw [pushSuccessors,if_neg hv,pushSuccessors_eq discovered u vs]
      have hu : u ∈ v :: vs ↔ u ∈ vs := by simp [Ne.symm hv]
      by_cases hm : u ∈ vs
      · simp [hm]
      · cases hd : marked discovered v <;> simp [hm,hd,Ne.symm hv]

/-- One turn of the first pass with `u` on top of the stack and `rest` below it: discover `u`
and push its undiscovered successors, finish `u`, or drop an entry of a finished node. -/
def turn (g : Digraph) (s : FinishState) (u : Nat) (rest : List Nat) : Except Nat FinishState :=
  if !marked s.discovered u then
    (pushSuccessors s.discovered u (g.successors u) s.stack).map fun stack =>
      { s with discovered := s.discovered.set! u true,stack }
  else if !marked s.finished u then
    .ok { s with stack := rest,finished := s.finished.set! u true,order := u :: s.order }
  else .ok { s with stack := rest }

theorem drain_nil (g : Digraph) (fuel : Nat) {s : FinishState} (h : s.stack = []) : g.drain fuel s = .ok s := by
  cases fuel with
  | zero => rfl
  | succ fuel =>
    rw [drain]
    split
    · rfl
    · rename_i u rest h'
      rw [h] at h'
      cases h'

theorem drain_cons (g : Digraph) (fuel : Nat) {s : FinishState} {u : Nat} {rest : List Nat}
    (h : s.stack = u :: rest) : g.drain (fuel + 1) s = g.turn s u rest >>= g.drain fuel := by
  rw [drain]
  split
  · rename_i h'
    rw [h] at h'
    cases h'
  · rename_i u' rest' h'
    rw [h] at h'
    obtain ⟨rfl,rfl⟩ := List.cons.inj h'
    unfold turn
    split
    · cases pushSuccessors s.discovered u (g.successors u) s.stack <;> rfl
    · split <;> rfl

theorem drain_cons_ok {g : Digraph} {fuel : Nat} {s s' : FinishState} {u : Nat} {rest : List Nat}
    (hst : s.stack = u :: rest) (h : g.drain (fuel + 1) s = .ok s') :
    ∃ s₁, g.turn s u rest = .ok s₁ ∧ g.drain fuel s₁ = .ok s' := by
  rw [drain_cons g fuel hst] at h
  cases ht : g.turn s u rest with
  | error c =>
    rw [ht] at h
    cases h
  | ok s₁ =>
    rw [ht] at h
    exact ⟨s₁,rfl,h⟩

theorem turn_ok {g : Digraph} {s s' : FinishState} {u : Nat} {rest : List Nat} (h : g.turn s u rest = .ok s') :
    (marked s.discovered u = false ∧ u ∉ g.successors u ∧
      s' = { s with
        discovered := s.discovered.set! u true
        stack := ((g.successors u).filter fun v => !marked s.discovered v).reverse ++ s.stack }) ∨
    (marked s.discovered u = true ∧ marked s.finished u = false ∧
      s' = { s with stack := rest,finished := s.finished.set! u true,order := u :: s.order }) ∨
    (marked s.discovered u = true ∧ marked s.finished u = true ∧ s' = { s with stack := rest }) := by
  unfold turn at h
  cases hd : marked s.discovered u
  · rw [hd,pushSuccessors_eq] at h
    by_cases hu : u ∈ g.successors u
    · simp only [hu,if_true] at h
      cases h
    · simp only [hu,if_false,Bool.not_false,if_true] at h
      exact Or.inl ⟨rfl,hu,(Except.ok.inj h).symm⟩
  · cases hf : marked s.finished u
    · simp only [hd,hf,Bool.not_true,Bool.not_false,if_true] at h
      exact Or.inr (Or.inl ⟨rfl,rfl,(Except.ok.inj h).symm⟩)
    · simp only [hd,hf,Bool.not_true] at h
      exact Or.inr (Or.inr ⟨rfl,rfl,(Except.ok.inj h).symm⟩)

theorem turn_error {g : Digraph} {s : FinishState} {u c : Nat} {rest : List Nat}
    (h : g.turn s u rest = .error c) : c = u ∧ (u,u) ∈ g.edges := by
  unfold turn at h
  cases hd : marked s.discovered u
  · rw [hd,pushSuccessors_eq] at h
    by_cases hu : u ∈ g.successors u
    · simp only [hu,if_true,Bool.not_false] at h
      exact ⟨(Except.error.inj h).symm,mem_successors.mp hu⟩
    · simp only [hu,if_false] at h
      cases h
  · cases hf : marked s.finished u <;> simp [hd,hf] at h

theorem drain_error {g : Digraph} : ∀ {fuel : Nat} {s : FinishState} {c : Nat},
    g.drain fuel s = .error c → (c,c) ∈ g.edges
  | 0,_,_,h => by cases h
  | fuel + 1,s,c,h => by
    cases hst : s.stack with
    | nil =>
      rw [drain_nil g _ hst] at h
      cases h
    | cons u rest =>
      rw [drain_cons g fuel hst] at h
      cases ht : g.turn s u rest with
      | error c' =>
        rw [ht] at h
        obtain ⟨rfl,hu⟩ := turn_error ht
        cases h
        exact hu
      | ok s' =>
        rw [ht] at h
        exact drain_error h

/-! ## What every turn keeps -/

def FinishState.Open (s : FinishState) (x : Nat) : Prop :=
  marked s.discovered x = true ∧ marked s.finished x = false

/-- The first pass's state: tables of the graph's size, finished nodes discovered and listed
once in the order, the stack within the graph and holding every open node, and no discovered
node with a loop. -/
structure Draining (g : Digraph) (s : FinishState) : Prop where
  discoveredSize : s.discovered.size = g.size
  finishedSize : s.finished.size = g.size
  discovered : ∀ x, marked s.finished x = true → marked s.discovered x = true
  order_iff : ∀ x, x ∈ s.order ↔ marked s.finished x = true
  nodup : s.order.Nodup
  stack : ∀ x ∈ s.stack, x < g.size
  open_mem : ∀ x, s.Open x → x ∈ s.stack
  noLoop : ∀ x, marked s.discovered x = true → (x,x) ∉ g.edges

variable {g : Digraph}

theorem Draining.discover (hg : ∀ e ∈ g.edges, e.1 < g.size ∧ e.2 < g.size) {s : FinishState} {u : Nat}
    {rest : List Nat} (hs : Draining g s) (hst : s.stack = u :: rest) (hu : u ∉ g.successors u) :
    Draining g { s with
      discovered := s.discovered.set! u true
      stack := ((g.successors u).filter fun v => !marked s.discovered v).reverse ++ s.stack } where
  discoveredSize := by
    show (s.discovered.setIfInBounds u true).size = g.size
    rw [Array.size_setIfInBounds,hs.discoveredSize]
  finishedSize := hs.finishedSize
  discovered x hx := marked_set.mpr (Or.inl (hs.discovered x hx))
  order_iff := hs.order_iff
  nodup := hs.nodup
  stack x hx := by
    rcases List.mem_append.mp hx with hx | hx
    · have hv := (List.mem_filter.mp (List.mem_reverse.mp hx)).1
      exact (hg _ (mem_successors.mp hv)).2
    · exact hs.stack x hx
  open_mem x hx := by
    obtain ⟨hd,hf⟩ := hx
    refine List.mem_append_right _ ?_
    rcases marked_set.mp hd with hd | ⟨rfl,-⟩
    · exact hs.open_mem x ⟨hd,hf⟩
    · rw [hst]
      exact List.mem_cons_self
  noLoop x hx := by
    rcases marked_set.mp hx with hx | ⟨rfl,-⟩
    · exact hs.noLoop x hx
    · exact fun h => hu (mem_successors.mpr h)

theorem Draining.finish {s : FinishState} {u : Nat} {rest : List Nat} (hs : Draining g s)
    (hst : s.stack = u :: rest) (hd : marked s.discovered u = true) (hf : marked s.finished u = false) :
    Draining g { s with stack := rest,finished := s.finished.set! u true,order := u :: s.order } where
  discoveredSize := hs.discoveredSize
  finishedSize := by
    show (s.finished.setIfInBounds u true).size = g.size
    rw [Array.size_setIfInBounds,hs.finishedSize]
  discovered x hx := by
    rcases marked_set.mp hx with hx | ⟨rfl,-⟩
    · exact hs.discovered x hx
    · exact hd
  order_iff x := by
    have hu : u < s.finished.size := by
      rw [hs.finishedSize]
      exact hs.stack u (by rw [hst]; exact List.mem_cons_self)
    show x ∈ u :: s.order ↔ marked (s.finished.set! u true) x = true
    rw [List.mem_cons,marked_set,hs.order_iff]
    constructor
    · rintro (rfl | h)
      · exact Or.inr ⟨rfl,hu⟩
      · exact Or.inl h
    · rintro (h | ⟨rfl,-⟩)
      · exact Or.inr h
      · exact Or.inl rfl
  nodup := by
    refine List.nodup_cons.mpr ⟨fun h => ?_,hs.nodup⟩
    rw [(hs.order_iff u).mp h] at hf
    exact absurd hf (by decide)
  stack x hx := hs.stack x (by rw [hst]; exact List.mem_cons_of_mem u hx)
  open_mem x hx := by
    obtain ⟨hxd,hxf⟩ := hx
    have hxu : x ≠ u := by
      rintro rfl
      rw [marked_set.mpr (Or.inr ⟨rfl,by rw [hs.finishedSize]; exact hs.stack x (by rw [hst]; exact List.mem_cons_self)⟩)] at hxf
      exact absurd hxf (by decide)
    have hxf' : marked s.finished x = false := by
      cases h : marked s.finished x
      · rfl
      · rw [marked_set.mpr (Or.inl h)] at hxf
        exact hxf
    have hm := hs.open_mem x ⟨hxd,hxf'⟩
    rw [hst] at hm
    exact (List.mem_cons.mp hm).resolve_left hxu
  noLoop := hs.noLoop

theorem Draining.pop {s : FinishState} {u : Nat} {rest : List Nat} (hs : Draining g s)
    (hst : s.stack = u :: rest) (hf : marked s.finished u = true) : Draining g { s with stack := rest } where
  discoveredSize := hs.discoveredSize
  finishedSize := hs.finishedSize
  discovered := hs.discovered
  order_iff := hs.order_iff
  nodup := hs.nodup
  stack x hx := hs.stack x (by rw [hst]; exact List.mem_cons_of_mem u hx)
  open_mem x hx := by
    have hxu : x ≠ u := by
      rintro rfl
      rw [hx.2] at hf
      exact absurd hf (by decide)
    have hm := hs.open_mem x hx
    rw [hst] at hm
    exact (List.mem_cons.mp hm).resolve_left hxu
  noLoop := hs.noLoop

theorem Draining.turn (hg : ∀ e ∈ g.edges, e.1 < g.size ∧ e.2 < g.size) {s s' : FinishState} {u : Nat}
    {rest : List Nat} (hs : Draining g s) (hst : s.stack = u :: rest) (h : g.turn s u rest = .ok s') :
    Draining g s' := by
  rcases turn_ok h with ⟨-,hu,rfl⟩ | ⟨hd,hf,rfl⟩ | ⟨-,hf,rfl⟩
  · exact hs.discover hg hst hu
  · exact hs.finish hst hd hf
  · exact hs.pop hst hf

theorem Draining.drain (hg : ∀ e ∈ g.edges, e.1 < g.size ∧ e.2 < g.size) :
    ∀ {fuel : Nat} {s s' : FinishState}, Draining g s → g.drain fuel s = .ok s' → Draining g s'
  | 0,_,_,hs,h => by
    cases h
    exact hs
  | fuel + 1,s,s',hs,h => by
    cases hst : s.stack with
    | nil =>
      rw [drain_nil g _ hst] at h
      cases h
      exact hs
    | cons u rest =>
      obtain ⟨s₁,h₁,h₂⟩ := drain_cons_ok hst h
      exact Draining.drain hg (hs.turn hg hst h₁) h₂

theorem turn_discovered {s s' : FinishState} {u : Nat} {rest : List Nat} (h : g.turn s u rest = .ok s') {x : Nat}
    (hx : marked s.discovered x = true) : marked s'.discovered x = true := by
  rcases turn_ok h with ⟨-,-,rfl⟩ | ⟨-,-,rfl⟩ | ⟨-,-,rfl⟩
  · exact marked_set.mpr (Or.inl hx)
  · exact hx
  · exact hx

theorem drain_discovered : ∀ {fuel : Nat} {s s' : FinishState}, g.drain fuel s = .ok s' →
    ∀ x, marked s.discovered x = true → marked s'.discovered x = true
  | 0,_,_,h,_,hx => by
    cases h
    exact hx
  | fuel + 1,s,s',h,x,hx => by
    cases hst : s.stack with
    | nil =>
      rw [drain_nil g _ hst] at h
      cases h
      exact hx
    | cons u rest =>
      obtain ⟨s₁,h₁,h₂⟩ := drain_cons_ok hst h
      exact drain_discovered h₂ x (turn_discovered h₁ hx)

/-! ## The fuel suffices -/

/-- What is left of the first pass: the entries on the stack, and for each node not yet
discovered its discovery and the edges out of it. -/
def work (g : Digraph) (s : FinishState) : Nat :=
  s.stack.length + (g.unmarked s.discovered).card + (g.edges.filter fun e => !marked s.discovered e.1).length

theorem length_filter_unmarked {t : Array Bool} {u : Nat} (hu : u < t.size) (hm : marked t u = false) :
    (g.edges.filter fun e => !marked (t.set! u true) e.1).length + (g.edges.filter (·.1 == u)).length =
      (g.edges.filter fun e => !marked t e.1).length := by
  have h₁ : (g.edges.filter fun e => !marked (t.set! u true) e.1) =
      g.edges.filter fun e => (e.1 != u) && !marked t e.1 := by
    refine List.filter_congr fun e _ => ?_
    by_cases he : e.1 = u
    · rw [he,marked_set_self hu]
      simp
    · rw [marked_set_ne he]
      simp [he]
  have h₂ : (g.edges.filter (·.1 == u)) = g.edges.filter fun e => !(e.1 != u) && !marked t e.1 := by
    refine List.filter_congr fun e _ => ?_
    by_cases he : e.1 = u
    · simp [he,hm]
    · have hne : (e.1 == u) = false := by simpa using he
      rw [bne,hne]
      rfl
  rw [List.length_eq_length_filter_add (l := g.edges.filter fun e => !marked t e.1) (fun e => e.1 != u),
    List.filter_filter,List.filter_filter,h₁,h₂]

theorem work_turn {s s' : FinishState} {u : Nat} {rest : List Nat} (hs : Draining g s) (hst : s.stack = u :: rest)
    (h : g.turn s u rest = .ok s') : g.work s' < g.work s := by
  rcases turn_ok h with ⟨hd,-,rfl⟩ | ⟨-,-,rfl⟩ | ⟨-,-,rfl⟩
  · have hu : u < g.size := hs.stack u (by rw [hst]; exact List.mem_cons_self)
    have hcard := card_unmarked_set hu hs.discoveredSize hd
    have hedges := length_filter_unmarked (g := g) (by rw [hs.discoveredSize]; exact hu) hd
    have hpush : ((g.successors u).filter fun v => !marked s.discovered v).length ≤
        (g.edges.filter (·.1 == u)).length := by
      rw [← length_successors]
      exact List.length_filter_le _ _
    simp only [work,List.length_append,List.length_reverse]
    omega
  · simp only [work,hst,List.length_cons]
    omega
  · simp only [work,hst,List.length_cons]
    omega

theorem drain_stack_nil (hg : ∀ e ∈ g.edges, e.1 < g.size ∧ e.2 < g.size) :
    ∀ {fuel : Nat} {s s' : FinishState}, Draining g s → g.work s ≤ fuel → g.drain fuel s = .ok s' → s'.stack = []
  | 0,s,s',_,hw,h => by
    cases h
    have hlen : s.stack.length = 0 := by
      unfold work at hw
      omega
    exact List.eq_nil_of_length_eq_zero hlen
  | fuel + 1,s,s',hs,hw,h => by
    cases hst : s.stack with
    | nil =>
      rw [drain_nil g _ hst] at h
      cases h
      exact hst
    | cons u rest =>
      obtain ⟨s₁,h₁,h₂⟩ := drain_cons_ok hst h
      have hlt := work_turn hs hst h₁
      exact drain_stack_nil hg (hs.turn hg hst h₁) (by omega) h₂

/-! ## In an acyclic graph nodes finish after their successors -/

theorem split_of_not_mem {A B C D : List Nat} {y : Nat} (h : A ++ y :: B = C ++ D) (hy : y ∉ C) :
    ∃ A₀, A = C ++ A₀ ∧ D = A₀ ++ y :: B := by
  rcases List.append_eq_append_iff.mp h with ⟨a',hC,hB⟩ | ⟨c',hA,hD⟩
  · cases a' with
    | nil =>
      rw [List.nil_append] at hB
      exact ⟨[],by rw [hC,List.append_nil,List.append_nil],by rw [← hB,List.nil_append]⟩
    | cons x a'' =>
      obtain ⟨rfl,-⟩ := List.cons.inj hB
      exact absurd (by rw [hC]; simp) hy
  · exact ⟨c',hA,hD⟩

theorem exists_first {l : List Nat} {y : Nat} (h : y ∈ l) : ∃ A B, l = A ++ y :: B ∧ y ∉ A := by
  induction l with
  | nil => exact absurd h List.not_mem_nil
  | cons x rest ih =>
    by_cases hx : x = y
    · exact ⟨[],rest,by rw [hx]; rfl,List.not_mem_nil⟩
    · obtain ⟨A,B,rfl,hA⟩ := ih ((List.mem_cons.mp h).resolve_left (Ne.symm hx))
      exact ⟨x :: A,B,rfl,by simp [Ne.symm hx,hA]⟩

theorem prefix_eq_of_first {A A' B B' : List Nat} {y : Nat} (h : A ++ y :: B = A' ++ y :: B') (hA : y ∉ A)
    (hA' : y ∉ A') : A = A' := by
  obtain ⟨A₀,hA₀,hB⟩ := split_of_not_mem h hA'
  cases A₀ with
  | nil => simpa using hA₀
  | cons x A₁ =>
    obtain ⟨rfl,-⟩ := List.cons.inj hB
    exact absurd (by rw [hA₀]; simp) hA

/-- What the first pass keeps in an acyclic graph: finished nodes have finished successors, so
the order lists no node after one of its successors; everything above an open node's topmost
entry is reachable from it, and every successor of it is finished or above it. -/
structure Topo (g : Digraph) (s : FinishState) : Prop where
  closed : ∀ x, marked s.finished x = true → ∀ y ∈ g.successors x, marked s.finished y = true
  ordered : s.order.Pairwise fun a b => a ∉ g.successors b
  reach : ∀ A y B, s.stack = A ++ y :: B → y ∉ A → s.Open y → ∀ z ∈ A, Relation.TransGen g.Adj y z
  pending : ∀ A y B, s.stack = A ++ y :: B → y ∉ A → s.Open y →
    ∀ z ∈ g.successors y, marked s.finished z = true ∨ z ∈ A

theorem cut_below {P rest A B : List Nat} {u y : Nat} (h : P ++ u :: rest = A ++ y :: B) (hyP : y ∉ P)
    (hyu : y ≠ u) (hyA : y ∉ A) : ∃ A₀, A = P ++ u :: A₀ ∧ rest = A₀ ++ y :: B ∧ y ∉ u :: A₀ := by
  have h' : A ++ y :: B = (P ++ [u]) ++ rest := by rw [← h]; simp
  obtain ⟨A₀,hA,hrest⟩ := split_of_not_mem h' (by simp [hyP,hyu])
  refine ⟨A₀,by rw [hA]; simp,hrest,?_⟩
  rw [hA] at hyA
  simp only [List.mem_cons,not_or]
  exact ⟨hyu,fun h => hyA (by simp [h])⟩

theorem Topo.discover (hac : g.Acyclic) {s : FinishState} {u : Nat} {rest : List Nat} (hs : Draining g s)
    (ht : Topo g s) (hst : s.stack = u :: rest) (hu : u ∉ g.successors u) :
    Topo g { s with
      discovered := s.discovered.set! u true
      stack := ((g.successors u).filter fun v => !marked s.discovered v).reverse ++ s.stack } := by
  have hP : ∀ z ∈ ((g.successors u).filter fun v => !marked s.discovered v).reverse,
      z ∈ g.successors u ∧ marked s.discovered z = false := by
    intro z hz
    obtain ⟨hz,hm⟩ := List.mem_filter.mp (List.mem_reverse.mp hz)
    exact ⟨hz,by simpa using hm⟩
  have huP : u ∉ ((g.successors u).filter fun v => !marked s.discovered v).reverse := fun h => hu (hP u h).1
  have hopen : ∀ y, marked (s.discovered.set! u true) y = true → marked s.finished y = false → y ≠ u →
      s.Open y ∧ y ∉ ((g.successors u).filter fun v => !marked s.discovered v).reverse := by
    intro y hy hyf hyu
    have hyd : marked s.discovered y = true := by rwa [marked_set_ne hyu] at hy
    refine ⟨⟨hyd,hyf⟩,fun h => ?_⟩
    rw [(hP y h).2] at hyd
    exact absurd hyd (by decide)
  rw [hst]
  refine ⟨ht.closed,ht.ordered,?_,?_⟩
  · intro A y B heq hyA hy z hz
    by_cases hyu : y = u
    · rw [hyu] at heq hyA ⊢
      rw [prefix_eq_of_first heq.symm hyA huP] at hz
      exact Relation.TransGen.single (mem_successors.mp (hP z hz).1)
    · obtain ⟨hyo,hyP⟩ := hopen y hy.1 hy.2 hyu
      obtain ⟨A₀,hA,hrest,hyA₀⟩ := cut_below heq hyP hyu hyA
      have hreach := ht.reach (u :: A₀) y B (by rw [hst,hrest]; rfl) hyA₀ hyo
      rw [hA] at hz
      rcases List.mem_append.mp hz with hz | hz
      · exact (hreach u List.mem_cons_self).tail (mem_successors.mp (hP z hz).1)
      · exact hreach z hz
  · intro A y B heq hyA hy z hz
    by_cases hyu : y = u
    · rw [hyu] at heq hyA hz
      rw [prefix_eq_of_first heq.symm hyA huP]
      cases hzd : marked s.discovered z
      · exact Or.inr (List.mem_reverse.mpr (List.mem_filter.mpr ⟨hz,by simp [hzd]⟩))
      · cases hzf : marked s.finished z
        · -- an open successor reaches `u`, and the edge back to it would close a cycle
          exfalso
          obtain ⟨A₁,B₁,hcut,hzA₁⟩ := exists_first (hs.open_mem z ⟨hzd,hzf⟩)
          have hzu : z ≠ u := fun h => hu (h ▸ hz)
          have huA₁ : u ∈ A₁ := by
            rw [hst] at hcut
            cases A₁ with
            | nil => exact absurd (List.cons.inj hcut).1 (Ne.symm hzu)
            | cons a A₂ =>
              rw [(List.cons.inj hcut).1]
              exact List.mem_cons_self
          exact hac z ((ht.reach A₁ z B₁ hcut hzA₁ ⟨hzd,hzf⟩ u huA₁).tail (mem_successors.mp hz))
        · exact Or.inl rfl
    · obtain ⟨hyo,hyP⟩ := hopen y hy.1 hy.2 hyu
      obtain ⟨A₀,hA,hrest,hyA₀⟩ := cut_below heq hyP hyu hyA
      rcases ht.pending (u :: A₀) y B (by rw [hst,hrest]; rfl) hyA₀ hyo z hz with hf | hz'
      · exact Or.inl hf
      · exact Or.inr (by rw [hA]; exact List.mem_append_right _ hz')

theorem Topo.finish {s : FinishState} {u : Nat} {rest : List Nat} (hs : Draining g s) (ht : Topo g s)
    (hst : s.stack = u :: rest) (hd : marked s.discovered u = true) (hf : marked s.finished u = false) :
    Topo g { s with stack := rest,finished := s.finished.set! u true,order := u :: s.order } := by
  have hu : u < s.finished.size := by
    rw [hs.finishedSize]
    exact hs.stack u (by rw [hst]; exact List.mem_cons_self)
  have hsucc : ∀ y ∈ g.successors u, marked s.finished y = true := by
    intro y hy
    rcases ht.pending [] u rest hst List.not_mem_nil ⟨hd,hf⟩ y hy with h | h
    · exact h
    · exact absurd h List.not_mem_nil
  have hopen : ∀ y, marked s.discovered y = true → marked (s.finished.set! u true) y = false → y ≠ u ∧ s.Open y := by
    intro y hyd hyf
    have hyu : y ≠ u := by
      rintro rfl
      rw [marked_set_self hu] at hyf
      exact absurd hyf (by decide)
    exact ⟨hyu,hyd,by rwa [marked_set_ne hyu] at hyf⟩
  refine ⟨?_,?_,?_,?_⟩
  · intro x hx y hy
    rcases marked_set.mp hx with hx | ⟨rfl,-⟩
    · exact marked_set.mpr (Or.inl (ht.closed x hx y hy))
    · exact marked_set.mpr (Or.inl (hsucc y hy))
  · refine List.pairwise_cons.mpr ⟨fun b hb hub => ?_,ht.ordered⟩
    rw [ht.closed b ((hs.order_iff b).mp hb) u hub] at hf
    exact absurd hf (by decide)
  · intro A y B heq hyA hy z hz
    obtain ⟨hyu,hyo⟩ := hopen y hy.1 hy.2
    have hyA' : y ∉ u :: A := by simp [hyu,hyA]
    exact ht.reach (u :: A) y B (by rw [hst]; exact congrArg (List.cons u) heq) hyA' hyo z (List.mem_cons_of_mem u hz)
  · intro A y B heq hyA hy z hz
    obtain ⟨hyu,hyo⟩ := hopen y hy.1 hy.2
    have hyA' : y ∉ u :: A := by simp [hyu,hyA]
    rcases ht.pending (u :: A) y B (by rw [hst]; exact congrArg (List.cons u) heq) hyA' hyo z hz with h | h
    · exact Or.inl (marked_set.mpr (Or.inl h))
    · rcases List.mem_cons.mp h with rfl | h
      · exact Or.inl (marked_set_self hu)
      · exact Or.inr h

theorem Topo.pop {s : FinishState} {u : Nat} {rest : List Nat} (ht : Topo g s) (hst : s.stack = u :: rest)
    (hf : marked s.finished u = true) : Topo g { s with stack := rest } := by
  have hyu : ∀ y, s.Open y → y ≠ u := by
    rintro y ⟨-,hyf⟩ rfl
    rw [hf] at hyf
    exact absurd hyf (by decide)
  refine ⟨ht.closed,ht.ordered,?_,?_⟩
  · intro A y B heq hyA hy z hz
    have hyA' : y ∉ u :: A := by simp [hyu y hy,hyA]
    exact ht.reach (u :: A) y B (by rw [hst]; exact congrArg (List.cons u) heq) hyA' hy z (List.mem_cons_of_mem u hz)
  · intro A y B heq hyA hy z hz
    have hyA' : y ∉ u :: A := by simp [hyu y hy,hyA]
    rcases ht.pending (u :: A) y B (by rw [hst]; exact congrArg (List.cons u) heq) hyA' hy z hz with h | h
    · exact Or.inl h
    · rcases List.mem_cons.mp h with rfl | h
      · exact Or.inl hf
      · exact Or.inr h

theorem Topo.turn (hac : g.Acyclic) {s s' : FinishState} {u : Nat} {rest : List Nat} (hs : Draining g s)
    (ht : Topo g s) (hst : s.stack = u :: rest) (h : g.turn s u rest = .ok s') : Topo g s' := by
  rcases turn_ok h with ⟨-,hu,rfl⟩ | ⟨hd,hf,rfl⟩ | ⟨-,hf,rfl⟩
  · exact ht.discover hac hs hst hu
  · exact ht.finish hs hst hd hf
  · exact ht.pop hst hf

theorem Topo.drain (hg : ∀ e ∈ g.edges, e.1 < g.size ∧ e.2 < g.size) (hac : g.Acyclic) :
    ∀ {fuel : Nat} {s s' : FinishState}, Draining g s → Topo g s → g.drain fuel s = .ok s' → Topo g s'
  | 0,_,_,_,ht,h => by
    cases h
    exact ht
  | fuel + 1,s,s',hs,ht,h => by
    cases hst : s.stack with
    | nil =>
      rw [drain_nil g _ hst] at h
      cases h
      exact ht
    | cons u rest =>
      obtain ⟨s₁,h₁,h₂⟩ := drain_cons_ok hst h
      exact Topo.drain hg hac (hs.turn hg hst h₁) (ht.turn hac hs hst h₁) h₂

/-! ## The whole first pass -/

def FinishState.init (g : Digraph) : FinishState :=
  ⟨Array.replicate g.size false,Array.replicate g.size false,[],[]⟩

/-- One root of the first pass: a search from it, unless it is already discovered. -/
def searchFrom (g : Digraph) (acc : Except Nat FinishState) (root : Nat) : Except Nat FinishState :=
  match acc with
  | .error c => .error c
  | .ok s => if marked s.discovered root then .ok s else g.drain g.drainFuel { s with stack := [root] }

theorem searchFrom_ok_eq (g : Digraph) (s : FinishState) (r : Nat) :
    g.searchFrom (.ok s) r = if marked s.discovered r then .ok s else g.drain g.drainFuel { s with stack := [r] } :=
  rfl

theorem finishOrder_eq (g : Digraph) :
    g.finishOrder = ((List.range g.size).foldl g.searchFrom (.ok (FinishState.init g))).map (·.order) := rfl

theorem Draining.init (g : Digraph) : Draining g (FinishState.init g) where
  discoveredSize := Array.size_replicate
  finishedSize := Array.size_replicate
  discovered x h := by
    rw [FinishState.init,marked_replicate] at h
    cases h
  order_iff x := by
    show x ∈ [] ↔ marked (Array.replicate g.size false) x = true
    simp [marked_replicate]
  nodup := List.nodup_nil
  stack x hx := absurd hx List.not_mem_nil
  open_mem x hx := by
    have h := hx.1
    rw [FinishState.init,marked_replicate] at h
    cases h
  noLoop x hx := by
    rw [FinishState.init,marked_replicate] at hx
    cases hx

theorem Topo.init (g : Digraph) : Topo g (FinishState.init g) where
  closed x hx := by
    rw [FinishState.init,marked_replicate] at hx
    cases hx
  ordered := List.Pairwise.nil
  reach A y B h := absurd h (by simp [FinishState.init])
  pending A y B h := absurd h (by simp [FinishState.init])

theorem Draining.restart {s : FinishState} {r : Nat} (hs : Draining g s) (hnil : s.stack = []) (hr : r < g.size) :
    Draining g { s with stack := [r] } where
  discoveredSize := hs.discoveredSize
  finishedSize := hs.finishedSize
  discovered := hs.discovered
  order_iff := hs.order_iff
  nodup := hs.nodup
  stack x hx := by
    rw [List.mem_singleton.mp hx]
    exact hr
  open_mem x hx := by
    have h := hs.open_mem x hx
    rw [hnil] at h
    exact absurd h List.not_mem_nil
  noLoop := hs.noLoop

theorem Topo.restart {s : FinishState} {r : Nat} (hs : Draining g s) (hnil : s.stack = []) (ht : Topo g s) :
    Topo g { s with stack := [r] } := by
  have hno : ∀ y, ¬ s.Open y := by
    intro y hy
    have h := hs.open_mem y hy
    rw [hnil] at h
    exact List.not_mem_nil h
  exact ⟨ht.closed,ht.ordered,fun _ y _ _ _ hy => absurd hy (hno y),fun _ y _ _ _ hy => absurd hy (hno y)⟩

theorem work_restart (s : FinishState) (r : Nat) : g.work { s with stack := [r] } ≤ g.drainFuel := by
  have hcard := card_unmarked_le g s.discovered
  have hedges := List.length_filter_le (fun e : Nat × Nat => !marked s.discovered e.1) g.edges
  simp only [work,drainFuel,List.length_singleton]
  omega

theorem foldl_searchFrom_error (roots : List Nat) (c : Nat) : roots.foldl g.searchFrom (.error c) = .error c := by
  induction roots with
  | nil => rfl
  | cons r rest ih => exact ih

theorem searchFrom_ok (hg : ∀ e ∈ g.edges, e.1 < g.size ∧ e.2 < g.size) {s s' : FinishState} {r : Nat}
    (hs : Draining g s) (hnil : s.stack = []) (hr : r < g.size) (h : g.searchFrom (.ok s) r = .ok s') :
    Draining g s' ∧ s'.stack = [] ∧ marked s'.discovered r = true ∧
      (∀ x, marked s.discovered x = true → marked s'.discovered x = true) ∧ (g.Acyclic → Topo g s → Topo g s') := by
  rw [searchFrom_ok_eq] at h
  split at h
  · rename_i hrd
    cases h
    exact ⟨hs,hnil,hrd,fun _ hx => hx,fun _ ht => ht⟩
  · rename_i hrd
    have hs₀ := hs.restart hnil hr
    refine ⟨hs₀.drain hg h,drain_stack_nil hg hs₀ (work_restart s r) h,?_,
      fun x hx => drain_discovered h x hx,fun hac ht => Topo.drain hg hac hs₀ (ht.restart hs hnil) h⟩
    rw [drainFuel] at h
    obtain ⟨s₁,h₁,h₂⟩ := drain_cons_ok (rfl : ({ s with stack := [r] } : FinishState).stack = [r]) h
    refine drain_discovered h₂ r ?_
    rcases turn_ok h₁ with ⟨-,-,rfl⟩ | ⟨hd,-,-⟩ | ⟨hd,-,-⟩
    · exact marked_set_self (by rw [hs.discoveredSize]; exact hr)
    · exact absurd hd hrd
    · exact absurd hd hrd

theorem foldl_searchFrom (hg : ∀ e ∈ g.edges, e.1 < g.size ∧ e.2 < g.size) :
    ∀ (roots : List Nat) {s s' : FinishState}, (∀ r ∈ roots, r < g.size) → Draining g s → s.stack = [] →
      roots.foldl g.searchFrom (.ok s) = .ok s' →
      Draining g s' ∧ s'.stack = [] ∧ (∀ r ∈ roots, marked s'.discovered r = true) ∧
        (∀ x, marked s.discovered x = true → marked s'.discovered x = true) ∧ (g.Acyclic → Topo g s → Topo g s')
  | [],_,_,_,hs,hnil,h => by
    cases h
    exact ⟨hs,hnil,fun r hr => absurd hr List.not_mem_nil,fun _ hx => hx,fun _ ht => ht⟩
  | r :: rest,s,s',hroots,hs,hnil,h => by
    rw [List.foldl_cons] at h
    cases h₁ : g.searchFrom (.ok s) r with
    | error c =>
      rw [h₁,foldl_searchFrom_error] at h
      cases h
    | ok s₁ =>
      rw [h₁] at h
      obtain ⟨hs₁,hnil₁,hr₁,hmono₁,htopo₁⟩ := searchFrom_ok hg hs hnil (hroots r List.mem_cons_self) h₁
      obtain ⟨hs₂,hnil₂,hrest,hmono₂,htopo₂⟩ :=
        foldl_searchFrom hg rest (fun x hx => hroots x (List.mem_cons_of_mem r hx)) hs₁ hnil₁ h
      refine ⟨hs₂,hnil₂,?_,fun x hx => hmono₂ x (hmono₁ x hx),fun hac ht => htopo₂ hac (htopo₁ hac ht)⟩
      intro x hx
      rcases List.mem_cons.mp hx with rfl | hx
      · exact hmono₂ x hr₁
      · exact hrest x hx

theorem foldl_searchFrom_loop : ∀ (roots : List Nat) {s : FinishState} {c : Nat},
    roots.foldl g.searchFrom (.ok s) = .error c → (c,c) ∈ g.edges
  | [],_,_,h => by cases h
  | r :: rest,s,c,h => by
    rw [List.foldl_cons] at h
    cases h₁ : g.searchFrom (.ok s) r with
    | error c' =>
      rw [h₁,foldl_searchFrom_error] at h
      cases h
      rw [searchFrom_ok_eq] at h₁
      split at h₁
      · cases h₁
      · exact drain_error h₁
    | ok s₁ =>
      rw [h₁] at h
      exact foldl_searchFrom_loop rest h

theorem finishOrder_error {c : Nat} (h : g.finishOrder = .error c) : (c,c) ∈ g.edges := by
  rw [finishOrder_eq] at h
  cases hf : (List.range g.size).foldl g.searchFrom (.ok (FinishState.init g)) with
  | error c' =>
    rw [hf] at h
    cases h
    exact foldl_searchFrom_loop _ hf
  | ok s =>
    rw [hf] at h
    cases h

theorem finishOrder_ok (hg : ∀ e ∈ g.edges, e.1 < g.size ∧ e.2 < g.size) {order : List Nat}
    (h : g.finishOrder = .ok order) :
    order.Nodup ∧ (∀ x, x ∈ order ↔ x < g.size) ∧ (∀ x < g.size, (x,x) ∉ g.edges) ∧
      (g.Acyclic → order.Pairwise fun a b => a ∉ g.successors b) := by
  rw [finishOrder_eq] at h
  cases hf : (List.range g.size).foldl g.searchFrom (.ok (FinishState.init g)) with
  | error c =>
    rw [hf] at h
    cases h
  | ok s =>
    rw [hf] at h
    cases h
    obtain ⟨hs,hnil,hroots,-,htopo⟩ :=
      foldl_searchFrom hg _ (fun r hr => List.mem_range.mp hr) (Draining.init g) rfl hf
    have hfin : ∀ x < g.size, marked s.finished x = true := by
      intro x hx
      have hd := hroots x (List.mem_range.mpr hx)
      cases hxf : marked s.finished x
      · have hm := hs.open_mem x ⟨hd,hxf⟩
        rw [hnil] at hm
        exact absurd hm List.not_mem_nil
      · rfl
    refine ⟨hs.nodup,fun x => ?_,fun x hx => hs.noLoop x (hroots x (List.mem_range.mpr hx)),
      fun hac => (htopo hac (Topo.init g)).ordered⟩
    rw [hs.order_iff]
    refine ⟨fun hx => ?_,hfin x⟩
    have hlt := marked_size hx
    rwa [hs.finishedSize] at hlt

/-! ## The second pass -/

theorem reverseSearch_eq_none : ∀ {L : List Nat} {t : Array Bool}, (∀ i ∈ L, i < t.size) →
    L.Pairwise (fun a b => a ∉ g.successors b) → (∀ i ∈ L, ∀ v ∈ g.predecessors i, marked t v = true ∨ v ∈ L) →
    g.reverseSearch L t = none
  | [],_,_,_,_ => rfl
  | i :: rest,t,hL,hpair,hpred => by
    obtain ⟨hi,hrest⟩ := List.pairwise_cons.mp hpair
    -- a predecessor of `i` listed after it would have `i` as a successor
    have hmarked : ∀ v ∈ g.predecessors i, marked t v = true ∨ v = i := by
      intro v hv
      rcases hpred i List.mem_cons_self v hv with h | h
      · exact Or.inl h
      · rcases List.mem_cons.mp h with h | h
        · exact Or.inr h
        · exact absurd (mem_successors.mpr (mem_predecessors.mp hv)) (hi v h)
    have hL' : ∀ j ∈ rest, j < t.size := fun j hj => hL j (List.mem_cons_of_mem i hj)
    rw [reverseSearch]
    split
    · rename_i hti
      refine reverseSearch_eq_none hL' hrest fun j hj v hv => ?_
      rcases hpred j (List.mem_cons_of_mem i hj) v hv with h | h
      · exact Or.inl h
      · rcases List.mem_cons.mp h with rfl | h
        · exact Or.inl hti
        · exact Or.inr h
    · have hnil : ((g.predecessors i).filter fun v => !marked (t.set! i true) v) = [] := by
        refine List.filter_eq_nil_iff.mpr fun v hv => ?_
        have hm : marked (t.set! i true) v = true := by
          rcases hmarked v hv with h | rfl
          · exact marked_set.mpr (Or.inl h)
          · exact marked_set_self (hL v List.mem_cons_self)
        rw [hm]
        decide
      simp only [hnil]
      refine reverseSearch_eq_none (fun j hj => by
          show j < (t.setIfInBounds i true).size
          rw [Array.size_setIfInBounds]
          exact hL' j hj) hrest
        fun j hj v hv => ?_
      rcases hpred j (List.mem_cons_of_mem i hj) v hv with h | h
      · exact Or.inl (marked_set.mpr (Or.inl h))
      · rcases List.mem_cons.mp h with rfl | h
        · exact Or.inl (marked_set_self (hL v List.mem_cons_self))
        · exact Or.inr h

/-- When the second pass finds nothing, each node it meets unmarked comes after every
predecessor other than itself that it does not find marked. -/
theorem rank_of_reverseSearch : ∀ {L : List Nat} {t : Array Bool}, g.reverseSearch L t = none →
    ∀ i ∈ L, marked t i = false → ∀ v ∈ g.predecessors i, v ≠ i →
      marked t v = true ∨ (v ∈ L ∧ L.idxOf v < L.idxOf i)
  | [],_,_,_,hi,_,_,_,_ => absurd hi List.not_mem_nil
  | i₀ :: rest,t,h,i,hi,hti,v,hv,hvi => by
    rw [reverseSearch] at h
    split at h
    · rename_i hti₀
      have hii₀ : i ≠ i₀ := by
        rintro rfl
        rw [hti] at hti₀
        exact absurd hti₀ (by decide)
      have hir := (List.mem_cons.mp hi).resolve_left hii₀
      rcases rank_of_reverseSearch h i hir hti v hv hvi with hm | ⟨hvr,hlt⟩
      · exact Or.inl hm
      · refine Or.inr ⟨List.mem_cons_of_mem i₀ hvr,?_⟩
        rw [List.idxOf_cons_ne rest (Ne.symm hii₀)]
        by_cases hvi₀ : v = i₀
        · rw [hvi₀,List.idxOf_cons_self]
          omega
        · rw [List.idxOf_cons_ne rest (Ne.symm hvi₀)]
          omega
    · dsimp only at h
      split at h
      · rename_i hnil
        by_cases hii₀ : i = i₀
        · subst hii₀
          have hvm := List.filter_eq_nil_iff.mp hnil v hv
          simp only [Bool.not_eq_eq_eq_not,Bool.not_true] at hvm
          rw [marked_set_ne hvi] at hvm
          cases hvt : marked t v
          · rw [hvt] at hvm
            exact absurd hvm (by decide)
          · exact Or.inl rfl
        · have hir := (List.mem_cons.mp hi).resolve_left hii₀
          rcases rank_of_reverseSearch h i hir (by rw [marked_set_ne hii₀]; exact hti) v hv hvi with hm | ⟨hvr,hlt⟩
          · by_cases hvi₀ : v = i₀
            · refine Or.inr ⟨by rw [hvi₀]; exact List.mem_cons_self,?_⟩
              rw [hvi₀,List.idxOf_cons_self,List.idxOf_cons_ne rest (Ne.symm hii₀)]
              omega
            · rw [marked_set_ne hvi₀] at hm
              exact Or.inl hm
          · refine Or.inr ⟨List.mem_cons_of_mem i₀ hvr,?_⟩
            rw [List.idxOf_cons_ne rest (Ne.symm hii₀)]
            by_cases hvi₀ : v = i₀
            · rw [hvi₀,List.idxOf_cons_self]
              omega
            · rw [List.idxOf_cons_ne rest (Ne.symm hvi₀)]
              omega
      · rename_i hvs
        exact absurd (List.getLast?_eq_none_iff.mp h) hvs

/-! ## Deciding acyclicity -/

theorem cycleWitness?_eq_none_iff (hg : ∀ e ∈ g.edges, e.1 < g.size ∧ e.2 < g.size) :
    g.cycleWitness? = none ↔ g.Acyclic := by
  unfold cycleWitness?
  constructor
  · intro h u hu
    cases ho : g.finishOrder with
    | error c =>
      rw [ho] at h
      cases h
    | ok order =>
      rw [ho] at h
      obtain ⟨-,hmem,hloop,-⟩ := finishOrder_ok hg ho
      have hrank : ∀ a b, g.Adj a b → order.idxOf a < order.idxOf b := by
        intro a b hab
        have hab' : (a,b) ∈ g.edges := hab
        have hne : a ≠ b := by
          rintro rfl
          exact hloop a (hg _ hab').1 hab'
        rcases rank_of_reverseSearch h b ((hmem b).mpr (hg _ hab').2) (marked_replicate _ _) a
            (mem_predecessors.mpr hab') hne with hm | ⟨-,hlt⟩
        · rw [marked_replicate] at hm
          cases hm
        · exact hlt
      have hpath : ∀ x y, Relation.TransGen g.Adj x y → order.idxOf x < order.idxOf y := by
        intro x y hxy
        induction hxy with
        | single h => exact hrank _ _ h
        | tail _ h ih => exact ih.trans (hrank _ _ h)
      exact Nat.lt_irrefl _ (hpath u u hu)
  · intro hac
    cases ho : g.finishOrder with
    | error c => exact absurd (Relation.TransGen.single (finishOrder_error ho)) (hac c)
    | ok order =>
      obtain ⟨-,hmem,-,hpair⟩ := finishOrder_ok hg ho
      refine reverseSearch_eq_none (fun i hi => ?_) (hpair hac) fun i _ v hv =>
        Or.inr ((hmem v).mpr (hg _ (mem_predecessors.mp hv)).1)
      rw [Array.size_replicate]
      exact (hmem i).mp hi

end Digraph

end Tickflow
