import Tickflow.Proofs.FullMerge
/-! # Arrivals are never lost

Every node kind only adds to the arrivals it is handed, so what an invocation leaves stays in
the shared arrivals of its slot until the node is done for the activation or the activation
drains, however fresh and resuming tokens interleave (`JoinAt.arrived`).
-/
namespace Tickflow

theorem contains_arrivedIn (w : List Delivery) (p : Nat) :
    (arrivedIn w).contains p = true ↔ ∃ d ∈ w, d.left.contains p = true := by
  induction w using List.reverseRecOn with
  | nil => simp
  | append_singleton w d ih =>
    rw [arrivedIn_append,PinSet.contains_union,Bool.or_eq_true,ih]
    simp [or_and_right,exists_or]

theorem mem_window_of_open {n : Nat} {a : UInt64} {pre mid : List Delivery} {d : Delivery}
    (hd : d.hits n a = true) (hdone : d.outcome ≠ some (.ran .done))
    (hmid : ∀ x ∈ mid, x.hits n a = true → x.outcome ≠ some (.ran .done)) :
    d ∈ window n a (pre ++ d :: mid) := by
  induction mid using List.reverseRecOn with
  | nil =>
    rw [window_append,if_pos hd,if_neg hdone]
    exact List.mem_append_right _ (List.mem_singleton_self d)
  | append_singleton mid x ih =>
    have h := ih fun y hy => hmid y (List.mem_append_left _ hy)
    have he : pre ++ d :: (mid ++ [x]) = (pre ++ d :: mid) ++ [x] := by simp
    rw [he,window_append]
    split
    · rename_i hx
      rw [if_neg (hmid x (List.mem_append_right _ (List.mem_singleton_self x)) hx)]
      exact List.mem_append_left _ h
    · exact h

theorem Joins.arrivals_kept {g : CompiledGraph} {past : List Delivery} {m : Instance} {live : List Token}
    (h : Joins g past m live) {pre mid : List Delivery} {d : Delivery} (hp : past = pre ++ d :: mid)
    (hdone : d.outcome ≠ some (.ran .done))
    (hmid : ∀ x ∈ mid, x.hits d.token.node d.token.activation = true → x.outcome ≠ some (.ran .done))
    {p : Nat} (hpin : d.left.contains p = true) :
    (m.store.arrivalsAt d.token.node d.token.activation).contains p = true ∨
      ∀ u ∈ live, u.activation ≠ d.token.activation := by
  by_cases hl : ∃ u ∈ live, u.activation = d.token.activation
  · left
    rw [(h.slots d.token.node d.token.activation hl).arrived,contains_arrivedIn]
    have hd : d.hits d.token.node d.token.activation = true := by simp [Delivery.hits]
    exact ⟨d,hp ▸ mem_window_of_open hd hdone hmid,hpin⟩
  · right
    exact fun u hu hua => hl ⟨u,hu,hua⟩

/-- Join arrivals are never lost, over any run of a compiled graph that creates fewer than
`2 ^ 64` tokens. Take a delivery whose node waited, latched or kept executing: every pin of the
arrivals it left is in the shared arrivals of its node and activation at every later delivery,
and after the run, until a later delivery of the node for the activation leaves it done, or
else the activation has drained. -/
theorem join_arrivals_kept {reg : Registry} {doc : Graph} {g : CompiledGraph}
    (hc : CompiledGraph.compile reg doc = .ok g) (recordTrace : Bool) (invocations : List (String × Nat))
    (ops : List HostOp) (hb : ((Instance.create g recordTrace invocations).runBirths ops).length < 2 ^ 64) :
    let i := Instance.create g recordTrace invocations
    let D := i.runDeliveries ops
    (∀ (pre : List Delivery) (d : Delivery) (mid : List Delivery) (e : Delivery) (post : List Delivery),
        D = pre ++ d :: mid ++ e :: post →
        d.outcome = some (.ran .waiting) ∨ d.outcome = some (.ran .latched) ∨ d.outcome = some (.ran .executing) →
        (∀ x ∈ mid, x.hits d.token.node d.token.activation = true → x.outcome ≠ some (.ran .done)) →
        ∀ p, d.left.contains p = true →
        (e.state.store.arrivalsAt d.token.node d.token.activation).contains p = true ∨
          ∀ u ∈ e.live, u.activation ≠ d.token.activation) ∧
    (∀ (pre : List Delivery) (d : Delivery) (mid : List Delivery), D = pre ++ d :: mid →
        d.outcome = some (.ran .waiting) ∨ d.outcome = some (.ran .latched) ∨ d.outcome = some (.ran .executing) →
        (∀ x ∈ mid, x.hits d.token.node d.token.activation = true → x.outcome ≠ some (.ran .done)) →
        ∀ p, d.left.contains p = true →
        ((i.run ops).store.arrivalsAt d.token.node d.token.activation).contains p = true ∨
          ∀ u ∈ (i.run ops).running ++ (i.run ops).pending, u.activation ≠ d.token.activation) := by
  intro i D
  obtain ⟨r,hr⟩ := CompiledGraph.compile_ranked hc
  have hrun := (Between.create g recordTrace invocations).run hr (CompiledGraph.wellWired_of_compile hc) ops
    (by rw [List.nil_append]; exact hb)
  have hopen : ∀ d : Delivery,
      d.outcome = some (.ran .waiting) ∨ d.outcome = some (.ran .latched) ∨ d.outcome = some (.ran .executing) →
      d.outcome ≠ some (.ran .done) := by
    rintro d (h | h | h) <;> rw [h] <;> simp
  refine ⟨?_,?_⟩
  · intro pre d mid e post he hout hmid p hp
    obtain ⟨hist',ha,-⟩ := hrun.1 (pre ++ d :: mid) e post he
    rw [List.nil_append] at ha
    exact ha.joins.arrivals_kept rfl (hopen d hout) hmid hp
  · intro pre d mid he hout hmid p hp
    have hj := hrun.2.joins
    rw [List.nil_append] at hj
    exact hj.arrivals_kept he (hopen d hout) hmid hp

/-- The law on the join graph, started and ticked twice: the merge's first input waits, and its
pin is in the slot when the second arrives. -/
theorem join_arrivals_kept_join :
    let i := Instance.create joinGraph false
    let ops := [HostOp.start,.tick Binary64.zero,.tick Binary64.zero]
    let D := i.runDeliveries ops
    CompiledGraph.compile Registry.standard joinDoc = .ok joinGraph ∧
      (i.runBirths ops).length < 2 ^ 64 ∧
      D.map (fun d => (d.token.node,d.token.pin,d.outcome)) =
        [(0,0,some (.ran .done)),(1,0,some (.ran .waiting)),(1,1,some (.ran .done))] ∧
      ((∀ (pre : List Delivery) (d : Delivery) (mid : List Delivery) (e : Delivery) (post : List Delivery),
          D = pre ++ d :: mid ++ e :: post →
          d.outcome = some (.ran .waiting) ∨ d.outcome = some (.ran .latched) ∨ d.outcome = some (.ran .executing) →
          (∀ x ∈ mid, x.hits d.token.node d.token.activation = true → x.outcome ≠ some (.ran .done)) →
          ∀ p, d.left.contains p = true →
          (e.state.store.arrivalsAt d.token.node d.token.activation).contains p = true ∨
            ∀ u ∈ e.live, u.activation ≠ d.token.activation) ∧
      (∀ (pre : List Delivery) (d : Delivery) (mid : List Delivery), D = pre ++ d :: mid →
          d.outcome = some (.ran .waiting) ∨ d.outcome = some (.ran .latched) ∨ d.outcome = some (.ran .executing) →
          (∀ x ∈ mid, x.hits d.token.node d.token.activation = true → x.outcome ≠ some (.ran .done)) →
          ∀ p, d.left.contains p = true →
          ((i.run ops).store.arrivalsAt d.token.node d.token.activation).contains p = true ∨
            ∀ u ∈ (i.run ops).running ++ (i.run ops).pending, u.activation ≠ d.token.activation)) := by
  have hb : ((Instance.create joinGraph false).runBirths [HostOp.start,.tick Binary64.zero,.tick Binary64.zero]).length <
      2 ^ 64 := by
    rw [joinGraph_births]
    decide
  exact ⟨compile_joinDoc,hb,joinGraph_deliveries,join_arrivals_kept compile_joinDoc false [] _ hb⟩

end Tickflow
