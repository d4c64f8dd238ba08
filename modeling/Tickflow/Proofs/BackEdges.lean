import Mathlib
import Tickflow.Digraph
/-! # The back edges of a depth-first search

Every edge that is not a back edge leads to a node finished before its source, so the finish
order ranks the graph without its back edges: it is acyclic. The finish order is carried beside
the search state (`Searched`), and each call of `visit` extends the search (`Grows`).
-/
namespace Tickflow

namespace Digraph

theorem marked_set {t : Array Bool} {u v : Nat} :
    marked (t.set! u true) v = true ↔ marked t v = true ∨ (v = u ∧ u < t.size) := by
  by_cases h : u = v
  · subst h
    by_cases hu : u < t.size
    · simp [marked,Array.getD_eq_getD_getElem?,hu]
    · simp [marked,Array.getD_eq_getD_getElem?,hu]
  · simp [marked,Array.getD_eq_getD_getElem?,h,Ne.symm h]

theorem marked_size {t : Array Bool} {x : Nat} (h : marked t x = true) : x < t.size := by
  rcases Nat.lt_or_ge x t.size with hx | hx
  · exact hx
  · simp [marked,Array.getD_eq_getD_getElem?,hx] at h

theorem mem_successors {g : Digraph} {u v : Nat} : v ∈ g.successors u ↔ (u,v) ∈ g.edges := by
  simp [successors]

def unmarked (g : Digraph) (t : Array Bool) : Finset Nat :=
  (Finset.range g.size).filter (marked t · = false)

theorem card_unmarked_le (g : Digraph) (t : Array Bool) : (g.unmarked t).card ≤ g.size := by
  calc (g.unmarked t).card ≤ (Finset.range g.size).card := Finset.card_filter_le _ _
    _ = g.size := Finset.card_range g.size

theorem card_unmarked_mono {g : Digraph} {t t' : Array Bool}
    (h : ∀ x, marked t x = true → marked t' x = true) : (g.unmarked t').card ≤ (g.unmarked t).card := by
  apply Finset.card_le_card
  intro x hx
  simp only [unmarked,Finset.mem_filter] at hx ⊢
  refine ⟨hx.1,?_⟩
  cases hm : marked t x
  · rfl
  · rw [h x hm] at hx
    exact absurd hx.2 (by decide)

theorem card_unmarked_set {g : Digraph} {t : Array Bool} {u : Nat} (hu : u < g.size)
    (hsz : t.size = g.size) (hm : marked t u = false) :
    (g.unmarked (t.set! u true)).card + 1 = (g.unmarked t).card := by
  have he : g.unmarked (t.set! u true) = (g.unmarked t).erase u := by
    ext x
    simp only [unmarked,Finset.mem_filter,Finset.mem_erase,Finset.mem_range]
    have hx := @marked_set t u x
    rw [hsz] at hx
    constructor
    · rintro ⟨hlt,hx'⟩
      refine ⟨fun hxu => ?_,hlt,?_⟩
      · subst hxu
        rw [hx.mpr (Or.inr ⟨rfl,hu⟩)] at hx'
        exact absurd hx' (by decide)
      · cases hmx : marked t x
        · rfl
        · rw [hx.mpr (Or.inl hmx)] at hx'
          exact hx'
    · rintro ⟨hxu,hlt,hx'⟩
      refine ⟨hlt,?_⟩
      cases hmx : marked (t.set! u true) x
      · rfl
      · rcases hx.mp hmx with h | h
        · rw [hx'] at h
          exact absurd h (by decide)
        · exact absurd h.1 hxu
  have hmem : u ∈ g.unmarked t := by
    simp only [unmarked,Finset.mem_filter,Finset.mem_range]
    exact ⟨hu,hm⟩
  rw [he,Finset.card_erase_of_mem hmem]
  have hpos := Finset.card_pos.mpr ⟨u,hmem⟩
  omega

/-- One turn of `visit`'s loop over the successors of `u`, with `fuel` left for nested calls. -/
def visitStep (g : Digraph) (fuel u : Nat) (s : SearchState) (v : Nat) : SearchState :=
  if !marked s.discovered v then g.visit fuel v s
  else if !marked s.finished v then { s with back := s.back ++ [(u,v)] }
  else s

theorem visit_succ (g : Digraph) (fuel u : Nat) (s : SearchState) :
    g.visit (fuel + 1) u s =
      if marked s.discovered u then s
      else
        let s' := (g.successors u).foldl (g.visitStep fuel u) { s with discovered := s.discovered.set! u true }
        { s' with finished := s'.finished.set! u true } := rfl

/-- The search state with the nodes in the order they finished: the finished nodes are those
of `order`, each discovered, and every edge out of a finished node is a back edge or leads to a
node that finished before it. -/
structure Searched (g : Digraph) (s : SearchState) (order : List Nat) : Prop where
  discoveredSize : s.discovered.size = g.size
  finishedSize : s.finished.size = g.size
  finished_iff : ∀ x, marked s.finished x = true ↔ x ∈ order
  discovered : ∀ x, marked s.finished x = true → marked s.discovered x = true
  nodup : order.Nodup
  edges : ∀ x ∈ order, ∀ y ∈ g.successors x, (x,y) ∈ s.back ∨ ∃ pre post, order = pre ++ x :: post ∧ y ∈ pre

/-- How a search goes on from `s` to `s'`: nodes finish after those already finished, back
edges and discoveries are kept, a node discovered and not finished stays unfinished, and every
node discovered on the way has finished. -/
structure Grows (s s' : SearchState) (order order' : List Nat) : Prop where
  order : ∃ more, order' = order ++ more
  back : ∀ e ∈ s.back, e ∈ s'.back
  discovered : ∀ x, marked s.discovered x = true → marked s'.discovered x = true
  unfinished : ∀ x, marked s.discovered x = true → marked s.finished x = false → marked s'.finished x = false
  settled : ∀ x, marked s'.discovered x = true → marked s.discovered x = true ∨ marked s'.finished x = true

theorem Grows.refl (s : SearchState) (order : List Nat) : Grows s s order order :=
  ⟨⟨[],(List.append_nil order).symm⟩,fun _ h => h,fun _ h => h,fun _ _ h => h,fun _ h => Or.inl h⟩

variable {g : Digraph}

theorem Grows.finished {s s' : SearchState} {order order' : List Nat} (hs : Searched g s order)
    (hs' : Searched g s' order') (h : Grows s s' order order') {x : Nat} (hx : marked s.finished x = true) :
    marked s'.finished x = true := by
  obtain ⟨more,rfl⟩ := h.order
  exact (hs'.finished_iff x).mpr (List.mem_append_left more ((hs.finished_iff x).mp hx))

theorem Grows.trans {s₁ s₂ s₃ : SearchState} {o₁ o₂ o₃ : List Nat} (hs₂ : Searched g s₂ o₂)
    (hs₃ : Searched g s₃ o₃) (h₁ : Grows s₁ s₂ o₁ o₂) (h₂ : Grows s₂ s₃ o₂ o₃) : Grows s₁ s₃ o₁ o₃ where
  order := by
    obtain ⟨m₁,rfl⟩ := h₁.order
    obtain ⟨m₂,rfl⟩ := h₂.order
    exact ⟨m₁ ++ m₂,List.append_assoc _ _ _⟩
  back e he := h₂.back e (h₁.back e he)
  discovered x hx := h₂.discovered x (h₁.discovered x hx)
  unfinished x hd hf := h₂.unfinished x (h₁.discovered x hd) (h₁.unfinished x hd hf)
  settled x hx := by
    rcases h₂.settled x hx with hd | hf
    · rcases h₁.settled x hd with hd' | hf'
      · exact Or.inl hd'
      · exact Or.inr (h₂.finished hs₂ hs₃ hf')
    · exact Or.inr hf

theorem Grows.addBack (s : SearchState) (order : List Nat) (e : Nat × Nat) :
    Grows s { s with back := s.back ++ [e] } order order :=
  ⟨⟨[],(List.append_nil order).symm⟩,fun _ h => List.mem_append_left _ h,fun _ h => h,fun _ _ h => h,
    fun _ h => Or.inl h⟩

theorem Searched.init (g : Digraph) :
    Searched g ⟨Array.replicate g.size false,Array.replicate g.size false,[]⟩ [] where
  discoveredSize := Array.size_replicate
  finishedSize := Array.size_replicate
  finished_iff x := by
    simp only [marked,Array.getD_eq_getD_getElem?,Array.getElem?_replicate,List.not_mem_nil,iff_false]
    split <;> simp
  discovered x h := by
    simp only [marked,Array.getD_eq_getD_getElem?,Array.getElem?_replicate] at h
    split at h <;> simp at h
  nodup := List.nodup_nil
  edges x hx := absurd hx List.not_mem_nil

theorem Searched.addBack {s : SearchState} {order : List Nat} (hs : Searched g s order) (e : Nat × Nat) :
    Searched g { s with back := s.back ++ [e] } order where
  discoveredSize := hs.discoveredSize
  finishedSize := hs.finishedSize
  finished_iff := hs.finished_iff
  discovered := hs.discovered
  nodup := hs.nodup
  edges x hx y hy := by
    rcases hs.edges x hx y hy with hb | hpre
    · exact Or.inl (List.mem_append_left _ hb)
    · exact Or.inr hpre

theorem Searched.discover {s : SearchState} {order : List Nat} (hs : Searched g s order) (u : Nat) :
    Searched g { s with discovered := s.discovered.set! u true } order where
  discoveredSize := by
    show (s.discovered.setIfInBounds u true).size = g.size
    rw [Array.size_setIfInBounds,hs.discoveredSize]
  finishedSize := hs.finishedSize
  finished_iff := hs.finished_iff
  discovered x hx := marked_set.mpr (Or.inl (hs.discovered x hx))
  nodup := hs.nodup
  edges := hs.edges

theorem Searched.not_finished {s : SearchState} {order : List Nat} (hs : Searched g s order) {u : Nat}
    (hu : marked s.discovered u = false) : marked s.finished u = false := by
  cases h : marked s.finished u
  · rfl
  · rw [hs.discovered u h] at hu
    exact absurd hu (by decide)

/-- A call of `visit` with `fuel` on a node not yet discovered finishes the node and extends the
search. -/
def VisitSpec (g : Digraph) (fuel : Nat) : Prop :=
  ∀ u s order, Searched g s order → (g.unmarked s.discovered).card < fuel → u < g.size →
    marked s.discovered u = false →
    ∃ order', Searched g (g.visit fuel u s) order' ∧ Grows s (g.visit fuel u s) order order' ∧
      marked (g.visit fuel u s).finished u = true

theorem visitStep_spec (hg : ∀ e ∈ g.edges, e.2 < g.size) {fuel : Nat} (hv : g.VisitSpec fuel)
    {u v : Nat} (huv : (u,v) ∈ g.edges) {s : SearchState} {order : List Nat} (hs : Searched g s order)
    (hf : (g.unmarked s.discovered).card < fuel) :
    ∃ order', Searched g (g.visitStep fuel u s v) order' ∧ Grows s (g.visitStep fuel u s v) order order' ∧
      ((u,v) ∈ (g.visitStep fuel u s v).back ∨ marked (g.visitStep fuel u s v).finished v = true) := by
  unfold visitStep
  cases hd : marked s.discovered v
  · obtain ⟨order',hs',hgr,hfin⟩ := hv v s order hs hf (hg _ huv) hd
    exact ⟨order',hs',hgr,Or.inr hfin⟩
  · cases hfi : marked s.finished v
    · -- discovered and not finished: the edge closes a loop
      exact ⟨order,hs.addBack (u,v),Grows.addBack s order (u,v),
        Or.inl (List.mem_append_right _ List.mem_cons_self)⟩
    · exact ⟨order,hs,Grows.refl s order,Or.inr hfi⟩

theorem foldl_visitStep (hg : ∀ e ∈ g.edges, e.2 < g.size) {fuel : Nat} (hv : g.VisitSpec fuel)
    {u : Nat} (vs : List Nat) (hvs : ∀ v ∈ vs, (u,v) ∈ g.edges) {s : SearchState} {order : List Nat}
    (hs : Searched g s order) (hf : (g.unmarked s.discovered).card < fuel)
    (hud : marked s.discovered u = true) (huf : marked s.finished u = false) :
    ∃ order', Searched g (vs.foldl (g.visitStep fuel u) s) order' ∧
      Grows s (vs.foldl (g.visitStep fuel u) s) order order' ∧
      ∀ v ∈ vs, (u,v) ∈ (vs.foldl (g.visitStep fuel u) s).back ∨
        marked (vs.foldl (g.visitStep fuel u) s).finished v = true := by
  induction vs generalizing s order with
  | nil => exact ⟨order,hs,Grows.refl s order,fun v hv => absurd hv List.not_mem_nil⟩
  | cons v rest ih =>
    obtain ⟨o₁,hs₁,hg₁,hv₁⟩ := visitStep_spec hg hv (hvs v List.mem_cons_self) hs hf
    have hf₁ : (g.unmarked (g.visitStep fuel u s v).discovered).card < fuel :=
      Nat.lt_of_le_of_lt (card_unmarked_mono hg₁.discovered) hf
    obtain ⟨o₂,hs₂,hg₂,hv₂⟩ := ih (fun w hw => hvs w (List.mem_cons_of_mem v hw)) hs₁ hf₁
      (hg₁.discovered u hud) (hg₁.unfinished u hud huf)
    refine ⟨o₂,hs₂,hg₁.trans hs₁ hs₂ hg₂,?_⟩
    intro w hw
    rcases List.mem_cons.mp hw with rfl | hw
    · rcases hv₁ with hb | hfin
      · exact Or.inl (hg₂.back _ hb)
      · exact Or.inr (hg₂.finished hs₁ hs₂ hfin)
    · exact hv₂ w hw

theorem Searched.finish {s : SearchState} {order : List Nat} (hs : Searched g s order) {u : Nat}
    (hu : u < g.size) (hud : marked s.discovered u = true) (huf : marked s.finished u = false)
    (hsucc : ∀ v ∈ g.successors u, (u,v) ∈ s.back ∨ marked s.finished v = true) :
    Searched g { s with finished := s.finished.set! u true } (order ++ [u]) where
  discoveredSize := hs.discoveredSize
  finishedSize := by
    show (s.finished.setIfInBounds u true).size = g.size
    rw [Array.size_setIfInBounds,hs.finishedSize]
  finished_iff x := by
    show marked (s.finished.set! u true) x = true ↔ x ∈ order ++ [u]
    rw [marked_set,hs.finished_iff,hs.finishedSize,List.mem_append,List.mem_singleton]
    constructor
    · rintro (h | ⟨h,-⟩)
      · exact Or.inl h
      · exact Or.inr h
    · rintro (h | h)
      · exact Or.inl h
      · exact Or.inr ⟨h,hu⟩
  discovered x hx := by
    rcases marked_set.mp hx with h | ⟨rfl,-⟩
    · exact hs.discovered x h
    · exact hud
  nodup := by
    have hnot : u ∉ order := fun h => absurd ((hs.finished_iff u).mpr h) (by rw [huf]; decide)
    refine List.Nodup.append hs.nodup (List.nodup_singleton u) ?_
    intro a ha ha'
    rw [List.mem_singleton.mp ha'] at ha
    exact hnot ha
  edges x hx y hy := by
    rcases List.mem_append.mp hx with hx | hx
    · rcases hs.edges x hx y hy with hb | ⟨pre,post,heq,hpre⟩
      · exact Or.inl hb
      · exact Or.inr ⟨pre,post ++ [u],by rw [heq]; simp,hpre⟩
    · rw [List.mem_singleton.mp hx] at hy ⊢
      rcases hsucc y hy with hb | hfin
      · exact Or.inl hb
      · exact Or.inr ⟨order,[],rfl,(hs.finished_iff y).mp hfin⟩

theorem visitSpec (hg : ∀ e ∈ g.edges, e.2 < g.size) (fuel : Nat) : g.VisitSpec fuel := by
  induction fuel with
  | zero => exact fun _ _ _ _ hf => absurd hf (Nat.not_lt_zero _)
  | succ fuel ih =>
    intro u s order hs hf hu hud
    have hsz : u < s.discovered.size := by rw [hs.discoveredSize]; exact hu
    have hs₁ := hs.discover u
    have hf₁ : (g.unmarked (s.discovered.set! u true)).card < fuel := by
      have h := card_unmarked_set hu hs.discoveredSize hud
      omega
    have hud₁ : marked (s.discovered.set! u true) u = true := marked_set.mpr (Or.inr ⟨rfl,hsz⟩)
    obtain ⟨o₂,hs₂,hg₂,hsucc⟩ := foldl_visitStep hg ih (g.successors u) (fun v hv => mem_successors.mp hv)
      hs₁ hf₁ hud₁ (hs.not_finished hud)
    rw [visit_succ,if_neg (by rw [hud]; decide)]
    generalize (g.successors u).foldl (g.visitStep fuel u) { s with discovered := s.discovered.set! u true } = sf
      at hs₂ hg₂ hsucc
    have hsf : marked sf.finished u = false := hg₂.unfinished u hud₁ (hs.not_finished hud)
    have husf : u < sf.finished.size := by rw [hs₂.finishedSize]; exact hu
    refine ⟨o₂ ++ [u],hs₂.finish hu (hg₂.discovered u hud₁) hsf hsucc,?_,marked_set.mpr (Or.inr ⟨rfl,husf⟩)⟩
    refine ⟨?_,hg₂.back,fun x hx => hg₂.discovered x (marked_set.mpr (Or.inl hx)),?_,?_⟩
    · obtain ⟨more,hmore⟩ := hg₂.order
      exact ⟨more ++ [u],by rw [hmore,List.append_assoc]⟩
    · intro x hxd hxf
      have hxu : x ≠ u := by
        rintro rfl
        rw [hud] at hxd
        exact absurd hxd (by decide)
      have hx := hg₂.unfinished x (marked_set.mpr (Or.inl hxd)) hxf
      cases h : marked (sf.finished.set! u true) x
      · rfl
      · rcases marked_set.mp h with h | ⟨h,-⟩
        · rw [hx] at h
          exact absurd h (by decide)
        · exact absurd h hxu
    · intro x hx
      rcases hg₂.settled x hx with h | h
      · rcases marked_set.mp h with h | ⟨rfl,-⟩
        · exact Or.inl h
        · exact Or.inr (marked_set.mpr (Or.inr ⟨rfl,husf⟩))
      · exact Or.inr (marked_set.mpr (Or.inl h))

theorem foldl_visit (hg : ∀ e ∈ g.edges, e.2 < g.size) (starts : List Nat)
    (hin : ∀ u ∈ starts, u < g.size) {s : SearchState} {order : List Nat} (hs : Searched g s order)
    (hclosed : ∀ x, marked s.discovered x = true → marked s.finished x = true) :
    ∃ order', Searched g (starts.foldl (fun s u => g.visit (g.size + 1) u s) s) order' ∧
      (∀ x, marked s.finished x = true → marked (starts.foldl (fun s u => g.visit (g.size + 1) u s) s).finished x = true) ∧
      (∀ x, marked (starts.foldl (fun s u => g.visit (g.size + 1) u s) s).discovered x = true →
        marked (starts.foldl (fun s u => g.visit (g.size + 1) u s) s).finished x = true) ∧
      ∀ u ∈ starts, marked (starts.foldl (fun s u => g.visit (g.size + 1) u s) s).finished u = true := by
  induction starts generalizing s order with
  | nil => exact ⟨order,hs,fun _ h => h,hclosed,fun u hu => absurd hu List.not_mem_nil⟩
  | cons u rest ih =>
    have hstep : ∃ o₁, Searched g (g.visit (g.size + 1) u s) o₁ ∧
        (∀ x, marked s.finished x = true → marked (g.visit (g.size + 1) u s).finished x = true) ∧
        (∀ x, marked (g.visit (g.size + 1) u s).discovered x = true →
          marked (g.visit (g.size + 1) u s).finished x = true) ∧
        marked (g.visit (g.size + 1) u s).finished u = true := by
      cases hud : marked s.discovered u
      · have hf : (g.unmarked s.discovered).card < g.size + 1 :=
          Nat.lt_succ_of_le (card_unmarked_le g s.discovered)
        obtain ⟨o₁,hs₁,hg₁,hfin⟩ := visitSpec hg (g.size + 1) u s order hs hf (hin u List.mem_cons_self) hud
        refine ⟨o₁,hs₁,fun x hx => hg₁.finished hs hs₁ hx,?_,hfin⟩
        intro x hx
        rcases hg₁.settled x hx with h | h
        · exact hg₁.finished hs hs₁ (hclosed x h)
        · exact h
      · rw [visit_succ,if_pos hud]
        exact ⟨order,hs,fun _ h => h,hclosed,hclosed u hud⟩
    obtain ⟨o₁,hs₁,hmono₁,hclosed₁,hu₁⟩ := hstep
    obtain ⟨o₂,hs₂,hmono₂,hclosed₂,hrest⟩ := ih (fun v hv => hin v (List.mem_cons_of_mem u hv)) hs₁ hclosed₁
    refine ⟨o₂,hs₂,fun x hx => hmono₂ x (hmono₁ x hx),hclosed₂,?_⟩
    intro v hv
    rcases List.mem_cons.mp hv with rfl | hv
    · exact hmono₂ v hu₁
    · exact hrest v hv

theorem idxOf_lt_of_eq_append {order pre post : List Nat} {x y : Nat} (hn : order.Nodup)
    (h : order = pre ++ x :: post) (hy : y ∈ pre) : order.idxOf y < order.idxOf x := by
  subst h
  have hx : x ∉ pre := fun hx => (List.nodup_append.mp hn).2.2 x hx x List.mem_cons_self rfl
  rw [List.idxOf_append_of_mem hy,List.idxOf_append_of_notMem hx,List.idxOf_cons_self]
  have := List.idxOf_lt_length_of_mem hy
  omega

/-- A search started from every node ranks each edge that is not a back edge downwards: the
source of the edge finishes after its target. -/
theorem backEdges_ranked (hg : ∀ e ∈ g.edges, e.1 < g.size ∧ e.2 < g.size) {starts : List Nat}
    (hin : ∀ u ∈ starts, u < g.size) (hall : ∀ x < g.size, x ∈ starts) :
    ∃ order : List Nat, order.Nodup ∧ (∀ x, x ∈ order ↔ x < g.size) ∧
      ∀ e ∈ g.edges, e ∈ g.backEdges starts ∨ order.idxOf e.2 < order.idxOf e.1 := by
  have hinit := Searched.init g
  obtain ⟨order,hs,-,-,hfin⟩ := foldl_visit (fun e he => (hg e he).2) starts hin hinit (fun x hx => by
    simp only [marked,Array.getD_eq_getD_getElem?,Array.getElem?_replicate] at hx
    split at hx <;> simp at hx)
  have hmem : ∀ x, x ∈ order ↔ x < g.size := by
    intro x
    constructor
    · intro hx
      have h := marked_size ((hs.finished_iff x).mpr hx)
      rw [hs.finishedSize] at h
      exact h
    · intro hx
      exact (hs.finished_iff x).mp (hfin x (hall x hx))
  refine ⟨order,hs.nodup,hmem,?_⟩
  intro e he
  rcases hs.edges e.1 ((hmem e.1).mpr (hg e he).1) e.2 (mem_successors.mpr he) with hb | ⟨pre,post,heq,hpre⟩
  · exact Or.inl hb
  · exact Or.inr (idxOf_lt_of_eq_append hs.nodup heq hpre)

end Digraph

end Tickflow
