import Tickflow.Proofs.Descent
/-! # The lineage of activations

While fewer than `2 ^ 64` numbers are minted, numbers are minted once each and in order, every
other birth continues the activation of the token that sent it, and every birth lies on a
forward path from its activation's origin. A drained activation stays drained (`Drained`).
-/
namespace Tickflow

theorem map_mod_range'_of_le {M s n : Nat} (h : s + n ≤ M) :
    (List.range' s n).map (· % M) = List.range' s n := by
  conv_rhs => rw [← List.map_id (List.range' s n)]
  refine List.map_congr_left fun k hk => ?_
  rw [List.mem_range'_1] at hk
  exact Nat.mod_eq_of_lt (by omega)

theorem lt_of_minted {more : List Birth} {last : Nat}
    (hmint : (more.filter (·.mints)).map (·.token.activation.toNat) =
      (List.range' (last + 1) (more.countP (·.mints))).map (· % 2 ^ 64))
    (hK : last + more.countP (·.mints) < 2 ^ 64) {b : Birth} (hb : b ∈ more) (hm : b.mints = true) :
    last < b.token.activation.toNat := by
  have h1 : b.token.activation.toNat ∈ (more.filter (·.mints)).map (·.token.activation.toNat) :=
    List.mem_map.mpr ⟨b,List.mem_filter.mpr ⟨hb,hm⟩,rfl⟩
  rw [hmint,map_mod_range'_of_le (by omega),List.mem_range'_1] at h1
  omega

theorem sum_originPaths (P : Nat → Nat) (a : UInt64) (hist : List Birth) :
    (hist.map (originPaths P a)).sum =
      ((hist.filter fun b => b.mints && b.token.activation == a).map (P ·.token.node)).sum := by
  induction hist with
  | nil => rfl
  | cons b rest ih =>
    rw [List.map_cons,List.sum_cons,ih,List.filter_cons]
    by_cases hb : (b.mints && b.token.activation == a) = true
    · simp [originPaths,hb]
    · simp [originPaths,hb]

theorem countP_le_one_of_nodup {α β : Type} [BEq β] [LawfulBEq β] {f : α → β} {l : List α}
    (h : (l.map f).Nodup) (x : β) : l.countP (fun a => f a == x) ≤ 1 := by
  have hx := List.nodup_iff_count_le_one.mp h x
  rw [List.count,List.countP_map] at hx
  exact hx

namespace Traced

variable {g : CompiledGraph} {hist : List Birth} {last : UInt64} {live : List Token}

section Unwrapped

variable (h : Traced g hist last live) (hK : hist.countP (·.mints) < 2 ^ 64)
include h hK

theorem minted_eq :
    (hist.filter (·.mints)).map (·.token.activation.toNat) = List.range' 1 (hist.countP (·.mints)) := by
  rw [h.minted,map_mod_range'_of_le (by omega)]

theorem last_eq_count : last.toNat = hist.countP (·.mints) := by
  rw [h.last_eq,Nat.mod_eq_of_lt hK]

theorem handed {b : Birth} (hb : b ∈ hist) :
    1 ≤ b.token.activation.toNat ∧ b.token.activation.toNat ≤ last.toNat := by
  obtain ⟨o,_,ho,hl⟩ := h.descends b hb
  have h1 : o.token.activation.toNat ∈ (hist.filter (·.mints)).map (·.token.activation.toNat) :=
    List.mem_map.mpr ⟨o,List.mem_filter.mpr ⟨hl.origin_mem,ho⟩,rfl⟩
  rw [h.minted_eq hK,List.mem_range'_1] at h1
  rw [hl.activation,h.last_eq_count hK]
  omega

theorem countP_mints_eq_one {b : Birth} (hb : b ∈ hist) :
    hist.countP (fun o => o.mints && o.token.activation == b.token.activation) = 1 := by
  obtain ⟨o,_,ho,hl⟩ := h.descends b hb
  -- the numbers minted are distinct, so no second birth mints the activation of `o`
  have hnd : ((hist.filter (·.mints)).map (·.token.activation.toNat)).Nodup := by
    rw [h.minted_eq hK]
    exact List.nodup_range'
  have hle := countP_le_one_of_nodup hnd b.token.activation.toNat
  rw [List.countP_filter] at hle
  have heq : hist.countP (fun o => o.mints && o.token.activation == b.token.activation) =
      hist.countP (fun o => (o.token.activation.toNat == b.token.activation.toNat) && o.mints) := by
    refine List.countP_congr fun x _ => ?_
    simp only [Bool.and_eq_true,beq_iff_eq,UInt64.toNat_inj]
    exact and_comm
  have hpos : 0 < hist.countP (fun o => o.mints && o.token.activation == b.token.activation) :=
    List.countP_pos_iff.mpr ⟨o,hl.origin_mem,by simp [ho,hl.activation]⟩
  omega

theorem countP_le_pathCount {o : Birth} (ho : o ∈ hist) (hm : o.mints = true) :
    hist.countP (·.token.activation == o.token.activation) ≤ g.pathCount o.token.node := by
  have hb := h.budget o.token.activation
  have hlive := countP_le_pathsAhead g o.token.activation live
  have hf : hist.filter (fun b => b.mints && b.token.activation == o.token.activation) = [o] := by
    obtain ⟨x,hx⟩ := List.length_eq_one_iff.mp
      (by rw [← List.countP_eq_length_filter]; exact h.countP_mints_eq_one hK ho)
    have hmem : o ∈ hist.filter (fun b => b.mints && b.token.activation == o.token.activation) :=
      List.mem_filter.mpr ⟨ho,by simp [hm]⟩
    rw [hx,List.mem_singleton] at hmem
    rw [hx,hmem]
  have hsum : (hist.map (originPaths g.pathCount o.token.activation)).sum = g.pathCount o.token.node := by
    rw [sum_originPaths,hf,List.map_singleton,List.sum_singleton]
  omega

end Unwrapped

end Traced

/-- The activation `a` has drained at a point of a run with last activation number `last` and
live tokens `live`: its number has been handed out and no live token carries it. -/
structure Drained (a last : UInt64) (live : List Token) : Prop where
  handed : a.toNat ≤ last.toNat
  none_live : ∀ u ∈ live, u.activation ≠ a

namespace Drained

variable {a last : UInt64} {live : List Token}

theorem perm {live' : List Token} (h : Drained a last live) (hp : live.Perm live') : Drained a last live' :=
  ⟨h.handed,fun u hu => h.none_live u (hp.mem_iff.mpr hu)⟩

theorem grow {more : List Birth} {last' : UInt64} {rest old new : List Token}
    (h : Drained a last (rest ++ old))
    (hmint : (more.filter (·.mints)).map (·.token.activation.toNat) =
      (List.range' (last.toNat + 1) (more.countP (·.mints))).map (· % 2 ^ 64))
    (hlast : last'.toNat = (last.toNat + more.countP (·.mints)) % 2 ^ 64)
    (hK : last.toNat + more.countP (·.mints) < 2 ^ 64)
    (hnew : ∀ u ∈ new, u ∈ old ∨ u ∈ more.map (·.token))
    (hinherit : ∀ b ∈ more, b.mints = false → ∃ p ∈ rest ++ old, b.token.activation = p.activation) :
    (∀ b ∈ more, b.token.activation ≠ a) ∧ Drained a last' (rest ++ new) := by
  have hfresh : ∀ b ∈ more, b.token.activation ≠ a := by
    intro b hb
    cases hm : b.mints
    · obtain ⟨p,hp,hpa⟩ := hinherit b hb hm
      rw [hpa]
      exact h.none_live p hp
    · have hlt := lt_of_minted hmint hK hb hm
      intro heq
      rw [heq] at hlt
      exact absurd h.handed (by omega)
  refine ⟨hfresh,⟨?_,?_⟩⟩
  · rw [hlast,Nat.mod_eq_of_lt hK]
    exact Nat.le_add_right_of_le h.handed
  · intro u hu
    rcases List.mem_append.mp hu with hu | hu
    · exact h.none_live u (List.mem_append_left _ hu)
    · rcases hnew u hu with hu | hu
      · exact h.none_live u (List.mem_append_right _ hu)
      · obtain ⟨b,hb,rfl⟩ := List.mem_map.mp hu
        exact hfresh b hb

theorem deliver {m : Instance} {t : Token} {rest : List Token} (dt : Binary64)
    (h : Drained a m.store.lastId (m.running ++ m.pending ++ t :: rest))
    (hK : m.store.lastId.toNat +
      (Instance.sentBirths t m.nextSeq m.store.lastId (m.sentTargets t dt)).countP (·.mints) < 2 ^ 64) :
    (∀ b ∈ Instance.sentBirths t m.nextSeq m.store.lastId (m.sentTargets t dt), b.token.activation ≠ a) ∧
      Drained a (m.deliver t dt).2.store.lastId ((m.deliver t dt).2.running ++ (m.deliver t dt).2.pending ++ rest) := by
  obtain ⟨-,-,hlast,-⟩ := Instance.deliver_births m t dt
  have h0 : Drained a m.store.lastId ((m.running ++ m.pending ++ rest) ++ [t]) :=
    h.perm (List.perm_middle.trans (List.perm_append_singleton t _).symm)
  have h1 : (∀ b ∈ Instance.sentBirths t m.nextSeq m.store.lastId (m.sentTargets t dt), b.token.activation ≠ a) ∧
      Drained a (m.deliver t dt).2.store.lastId ((m.running ++ m.pending ++ rest) ++
        ((if m.keeps t dt then [t] else []) ++
          (Instance.sentBirths t m.nextSeq m.store.lastId (m.sentTargets t dt)).map (·.token))) := by
    refine h0.grow ?_ hlast hK (Instance.mem_delivered m t dt) ?_
    · rw [Instance.sentBirths_mints,Instance.countP_mints_sentBirths]
    · intro b hb hm
      obtain ⟨τ,-,-,-,hmb,ha⟩ := Instance.mem_sentBirths hb
      exact ⟨t,List.mem_append_right _ List.mem_cons_self,ha (by rw [← hmb,hm])⟩
  exact ⟨h1.1,h1.2.perm (Instance.deliver_live_perm m t dt rest).symm⟩

theorem deliverAll {m : Instance} {now later : List Token} (dt : Binary64)
    (h : Drained a m.store.lastId (m.running ++ m.pending ++ (now ++ later)))
    (hK : m.store.lastId.toNat + (m.deliveryBirths now dt).countP (·.mints) < 2 ^ 64) :
    (∀ b ∈ m.deliveryBirths now dt, b.token.activation ≠ a) ∧
      Drained a (m.deliverAll now dt).2.store.lastId
        ((m.deliverAll now dt).2.running ++ (m.deliverAll now dt).2.pending ++ later) ∧
      (m.deliverAll now dt).2.store.lastId.toNat = m.store.lastId.toNat + (m.deliveryBirths now dt).countP (·.mints) := by
  induction now generalizing m with
  | nil =>
    rw [List.nil_append] at h
    exact ⟨fun b hb => absurd hb List.not_mem_nil,h,rfl⟩
  | cons t rest ih =>
    rw [List.cons_append] at h
    rw [Instance.deliveryBirths,List.countP_append] at hK
    obtain ⟨-,-,hlast,-⟩ := Instance.deliver_births m t dt
    have hlast' : (m.deliver t dt).2.store.lastId.toNat = m.store.lastId.toNat +
        (Instance.sentBirths t m.nextSeq m.store.lastId (m.sentTargets t dt)).countP (·.mints) := by
      rw [hlast,Nat.mod_eq_of_lt (by omega)]
    obtain ⟨hS,h1⟩ := deliver dt h (by omega)
    obtain ⟨hrest,h2,hl2⟩ := ih h1 (by omega)
    rw [Instance.deliverAll_cons,Instance.deliveryBirths,List.countP_append]
    refine ⟨fun b hb => ?_,h2,by rw [hl2,hlast']; omega⟩
    rcases List.mem_append.mp hb with hb | hb
    · exact hS b hb
    · exact hrest b hb

theorem tickStart {i : Instance} (h : Drained a i.store.lastId (i.running ++ i.pending)) :
    Drained a i.tickStart.store.lastId (i.tickStart.running ++ i.tickStart.pending ++ i.tokens) := by
  show Drained a i.store.lastId ([] ++ [] ++ i.tokens)
  rw [List.nil_append,List.nil_append]
  exact h.perm (Instance.tokens_perm i).symm

theorem perform_of_ne_tick {i : Instance} (h : Drained a i.store.lastId (i.running ++ i.pending))
    {op : HostOp} (hop : ∀ dt, op ≠ .tick dt)
    (hK : i.store.lastId.toNat + (i.births op).countP (·.mints) < 2 ^ 64) :
    (∀ b ∈ i.births op, b.token.activation ≠ a) ∧
      Drained a (i.perform op).store.lastId ((i.perform op).running ++ (i.perform op).pending) := by
  obtain ⟨fresh,hb,hlive,hacts,hlast,-⟩ := Instance.perform_triggers i op hop
  rw [hb] at hK ⊢
  have h0 : Drained a i.store.lastId ((i.running ++ i.pending) ++ []) := by
    rw [List.append_nil]
    exact h
  have h1 : (∀ b ∈ fresh.map (⟨·,.trigger⟩ : Token → Birth), b.token.activation ≠ a) ∧
      Drained a (i.perform op).store.lastId ((i.running ++ i.pending) ++ fresh) := by
    refine h0.grow (triggers_mints hacts) (by rw [countP_mints_triggers]; exact hlast) hK ?_ ?_
    · intro u hu
      exact Or.inr (by simpa using hu)
    · intro b hb hm
      obtain ⟨u,-,rfl⟩ := List.mem_map.mp hb
      cases hm
  refine ⟨h1.1,?_⟩
  rcases hlive with hlive | ⟨hlive,-⟩
  · rw [hlive]
    exact h1.2
  · rw [hlive]
    exact ⟨h1.2.handed,fun u hu => absurd hu List.not_mem_nil⟩

theorem perform {i : Instance} (h : Drained a i.store.lastId (i.running ++ i.pending)) (op : HostOp)
    (hK : i.store.lastId.toNat + (i.births op).countP (·.mints) < 2 ^ 64) :
    (∀ b ∈ i.births op, b.token.activation ≠ a) ∧
      Drained a (i.perform op).store.lastId ((i.perform op).running ++ (i.perform op).pending) := by
  revert hK
  refine Instance.perform_cases i (fun op hop hK => h.perform_of_ne_tick hop hK) (fun dt hc hs hK => ?_)
    (fun dt hc hs _ => ?_) (fun dt hc hK => ?_) op
  · rw [Instance.births_tick_of_running i dt hc hs] at hK ⊢
    have h0 : Drained a i.tickStart.store.lastId
        (i.tickStart.running ++ i.tickStart.pending ++ (i.tokens ++ [])) := by
      rw [List.append_nil]
      exact h.tickStart
    obtain ⟨hS,h1,-⟩ := deliverAll dt h0 hK
    obtain ⟨hlive,hlast,-⟩ := Instance.step_births i dt hc hs
    rw [List.append_nil] at h1
    refine ⟨hS,?_⟩
    show Drained a (i.step dt).2.store.lastId ((i.step dt).2.running ++ (i.step dt).2.pending)
    rw [hlive,hlast]
    exact h1
  · rw [Instance.births_tick_of_stopped i dt hs,Instance.perform_tick_of_stopped i dt hc hs]
    exact ⟨fun b hb => absurd hb List.not_mem_nil,h⟩
  · rw [Instance.births_tick_of_cancelled i dt hc] at hK ⊢
    rw [Instance.perform_tick_of_cancelled i dt hc]
    exact h.perform_of_ne_tick (fun _ h => by cases h) hK

end Drained

/-- Along a run of a ranked graph that mints fewer than `2 ^ 64` numbers, no operation creates
a token of an activation that has drained. -/
theorem Lineage.drained {i : Instance} {hist : List Birth} (hl : Lineage i hist) {r : Nat → Nat}
    (hr : i.graph.Ranked r) {a : UInt64} (h : Drained a i.store.lastId (i.running ++ i.pending))
    (ops : List HostOp) (hK : (hist ++ i.runBirths ops).countP (·.mints) < 2 ^ 64) :
    ∀ b ∈ i.runBirths ops, b.token.activation ≠ a := by
  induction ops generalizing i hist with
  | nil => exact fun b hb => absurd hb List.not_mem_nil
  | cons op ops ih =>
    rw [Instance.runBirths,← List.append_assoc] at hK
    have hK' := hK
    simp only [List.countP_append] at hK'
    have hlast := (hl.traced hr).last_eq_count (by omega)
    obtain ⟨h1,h2⟩ := h.perform op (by rw [hlast]; omega)
    have hr' : (i.perform op).graph.Ranked r := by
      rw [Instance.perform_graph]
      exact hr
    have h3 := ih (hl.perform op) hr' h2 hK
    intro b hb
    rw [Instance.runBirths] at hb
    rcases List.mem_append.mp hb with hb | hb
    · exact h1 b hb
    · exact h3 b hb

theorem Lineage.drained_within {i : Instance} {hist : List Birth} (hl : Lineage i hist) {r : Nat → Nat}
    (hr : i.graph.Ranked r) {dt : Binary64} {pre later : List Token} (hc : i.cancelled = false)
    (hs : i.status = .running) (htok : i.tokens = pre ++ later) (ops : List HostOp)
    (hK : (hist ++ i.runBirths (.tick dt :: ops)).countP (·.mints) < 2 ^ 64) {a : Birth}
    (ha : a ∈ hist ++ i.tickStart.deliveryBirths pre dt)
    (hlive : ∀ u ∈ (i.tickStart.deliverAll pre dt).2.running ++ (i.tickStart.deliverAll pre dt).2.pending ++ later,
      u.activation ≠ a.token.activation) :
    ∀ b ∈ (i.tickStart.deliverAll pre dt).2.deliveryBirths later dt ++ (i.perform (.tick dt)).runBirths ops,
      b.token.activation ≠ a.token.activation := by
  have hb : i.births (.tick dt) =
      i.tickStart.deliveryBirths pre dt ++ (i.tickStart.deliverAll pre dt).2.deliveryBirths later dt := by
    simp only [Instance.births,hc,hs,and_self,if_true]
    rw [htok,Instance.deliveryBirths_append]
  rw [Instance.runBirths,hb] at hK
  have hK' := hK
  simp only [List.countP_append] at hK'
  have ht : Traced i.graph (hist ++ i.tickStart.deliveryBirths pre dt) (i.tickStart.deliverAll pre dt).2.store.lastId
      ((i.tickStart.deliverAll pre dt).2.running ++ (i.tickStart.deliverAll pre dt).2.pending ++ later) := by
    have h0 := (hl.traced hr).tickStart
    rw [htok] at h0
    have hg0 : i.tickStart.graph = i.graph := rfl
    exact Traced.deliverAll hr hg0 dt h0
  have hlast := ht.last_eq_count (by rw [List.countP_append]; omega)
  rw [List.countP_append] at hlast
  have h0 : Drained a.token.activation (i.tickStart.deliverAll pre dt).2.store.lastId
      ((i.tickStart.deliverAll pre dt).2.running ++ (i.tickStart.deliverAll pre dt).2.pending ++ (later ++ [])) := by
    rw [List.append_nil]
    exact ⟨(ht.handed (by rw [List.countP_append]; omega) ha).2,hlive⟩
  obtain ⟨hS,h1,-⟩ := h0.deliverAll dt (by rw [hlast]; omega)
  have hd : ((i.tickStart.deliverAll pre dt).2.deliverAll later dt).2 = (i.tickStart.deliverAll i.tokens dt).2 := by
    rw [htok,Instance.deliverAll_append]
  obtain ⟨hend,hlast',-⟩ := Instance.step_births i dt hc hs
  rw [hd,List.append_nil] at h1
  have h2 : Drained a.token.activation (i.perform (.tick dt)).store.lastId
      ((i.perform (.tick dt)).running ++ (i.perform (.tick dt)).pending) := by
    show Drained a.token.activation (i.step dt).2.store.lastId ((i.step dt).2.running ++ (i.step dt).2.pending)
    rw [hend,hlast']
    exact h1
  have hr' : (i.perform (.tick dt)).graph.Ranked r := by
    rw [Instance.perform_graph]
    exact hr
  have hl' := hl.perform (.tick dt)
  rw [hb,← List.append_assoc] at hl'
  have h3 := hl'.drained hr' h2 ops (by simpa only [List.append_assoc] using hK)
  intro b hb
  rcases List.mem_append.mp hb with hb | hb
  · exact hS b hb
  · exact h3 b hb

/-- Over any run of a compiled graph, minting births take the numbers `1, 2, …` in order, every
other birth continues an older token's activation along a forward target, every birth lies on
a forward path from its origin, and a drained activation has no later birth. -/
theorem Lineage.activations_follow_forward_paths {reg : Registry} {doc : Graph} {i : Instance}
    {hist : List Birth} (hl : Lineage i hist) (hc : CompiledGraph.compile reg doc = .ok i.graph)
    (hK : hist.countP (·.mints) < 2 ^ 64) :
    ((hist.filter (·.mints)).map (·.token.activation.toNat) = List.range' 1 (hist.countP (·.mints)) ∧
      i.store.lastId.toNat = hist.countP (·.mints) ∧
      ∀ b ∈ hist, hist.countP (fun o => o.mints && o.token.activation == b.token.activation) = 1) ∧
    (∀ (pre : List Birth) (b : Birth) (post : List Birth), hist = pre ++ b :: post → b.mints = false →
      ∃ p τ, b.cause = .sent p τ ∧ τ ∈ i.graph.forwardTargets p.node ∧ b.token.node = τ.node ∧
        b.token.activation = p.activation ∧ p ∈ pre.map (·.token)) ∧
    (∀ b ∈ hist, ∃ o path, o.mints = true ∧ Begets i.graph hist o b path ∧
      path ∈ i.graph.forwardPaths o.token.node ∧ (CompiledGraph.pathNodes o.token.node path).Nodup) ∧
    (∀ o ∈ hist, o.mints = true →
      hist.countP (·.token.activation == o.token.activation) ≤ i.graph.pathCount o.token.node) ∧
    (∀ ops : List HostOp, (hist ++ i.runBirths ops).countP (·.mints) < 2 ^ 64 →
      ∀ a ∈ hist, (∀ u ∈ i.running ++ i.pending, u.activation ≠ a.token.activation) →
        ∀ b ∈ i.runBirths ops, b.token.activation ≠ a.token.activation) ∧
    (∀ (dt : Binary64) (pre later : List Token) (ops : List HostOp), i.cancelled = false →
      i.status = .running → i.tokens = pre ++ later →
      (hist ++ i.runBirths (.tick dt :: ops)).countP (·.mints) < 2 ^ 64 →
      let m := (i.tickStart.deliverAll pre dt).2
      ∀ a ∈ hist ++ i.tickStart.deliveryBirths pre dt,
        (∀ u ∈ m.running ++ m.pending ++ later, u.activation ≠ a.token.activation) →
        ∀ b ∈ m.deliveryBirths later dt ++ (i.perform (.tick dt)).runBirths ops,
          b.token.activation ≠ a.token.activation) := by
  obtain ⟨r,hr⟩ := CompiledGraph.compile_ranked hc
  have h := hl.traced hr
  refine ⟨⟨h.minted_eq hK,h.last_eq_count hK,fun b hb => h.countP_mints_eq_one hK hb⟩,h.parent,?_,
    fun o ho hm => h.countP_le_pathCount hK ho hm,?_,?_⟩
  · intro b hb
    obtain ⟨o,path,ho,hbeg⟩ := h.descends b hb
    obtain ⟨hp,-⟩ := hbeg.forwardPath
    exact ⟨o,path,ho,hbeg,hr.mem_forwardPaths hp,hr.nodup_pathNodes hp⟩
  · intro ops hK' a ha hlive
    exact hl.drained hr ⟨(h.handed hK ha).2,hlive⟩ ops hK'
  · intro dt pre later ops hc hs htok hK' m a ha hlive
    exact hl.drained_within hr hc hs htok ops hK' ha hlive

/-- A start node wired into a `flow.merge_one` node whose output loops back into it: every pass
through the loop crosses a back edge. -/
def loopDoc : Graph where
  id := ⟨7⟩
  name := "loop"
  nodes := [{ id := ⟨1⟩,nodeType := "flow.start" },{ id := ⟨2⟩,nodeType := "flow.merge_one" }]
  connections := [⟨⟨1⟩,0,⟨2⟩,0⟩,⟨⟨2⟩,2,⟨2⟩,1⟩]

def loopGraph : CompiledGraph := (CompiledGraph.compile Registry.standard loopDoc).toOption.getD default

theorem compile_loopDoc : CompiledGraph.compile Registry.standard loopDoc = .ok loopGraph := by
  have h : (CompiledGraph.compile Registry.standard loopDoc).toBool = true := by decide +kernel
  unfold loopGraph
  revert h
  cases CompiledGraph.compile Registry.standard loopDoc with
  | error e => exact fun h => by cases h
  | ok g => exact fun _ => rfl

theorem run_graph (i : Instance) (ops : List HostOp) : (i.run ops).graph = i.graph := by
  induction ops generalizing i with
  | nil => rfl
  | cons op ops ih => rw [Instance.run,ih,Instance.perform_graph]

/-- Started and ticked three times, the loop has minted activation 1 by the trigger and 2 and 3
across its back edge. -/
theorem activations_follow_forward_paths_loop :
    let ops := [HostOp.start,.tick Binary64.zero,.tick Binary64.zero,.tick Binary64.zero]
    let i := (Instance.create loopGraph false).run ops
    let hist := [] ++ (Instance.create loopGraph false).runBirths ops
    Lineage i hist ∧ CompiledGraph.compile Registry.standard loopDoc = .ok i.graph ∧
      hist.countP (·.mints) < 2 ^ 64 ∧ (hist.map (·.token.activation.toNat) = [1,1,2,3] ∧
      (((hist.filter (·.mints)).map (·.token.activation.toNat) = List.range' 1 (hist.countP (·.mints)) ∧
        i.store.lastId.toNat = hist.countP (·.mints) ∧
        ∀ b ∈ hist, hist.countP (fun o => o.mints && o.token.activation == b.token.activation) = 1) ∧
      (∀ (pre : List Birth) (b : Birth) (post : List Birth), hist = pre ++ b :: post → b.mints = false →
        ∃ p τ, b.cause = .sent p τ ∧ τ ∈ i.graph.forwardTargets p.node ∧ b.token.node = τ.node ∧
          b.token.activation = p.activation ∧ p ∈ pre.map (·.token)) ∧
      (∀ b ∈ hist, ∃ o path, o.mints = true ∧ Begets i.graph hist o b path ∧
        path ∈ i.graph.forwardPaths o.token.node ∧ (CompiledGraph.pathNodes o.token.node path).Nodup) ∧
      (∀ o ∈ hist, o.mints = true →
        hist.countP (·.token.activation == o.token.activation) ≤ i.graph.pathCount o.token.node) ∧
      (∀ ops : List HostOp, (hist ++ i.runBirths ops).countP (·.mints) < 2 ^ 64 →
        ∀ a ∈ hist, (∀ u ∈ i.running ++ i.pending, u.activation ≠ a.token.activation) →
          ∀ b ∈ i.runBirths ops, b.token.activation ≠ a.token.activation) ∧
      (∀ (dt : Binary64) (pre later : List Token) (ops : List HostOp), i.cancelled = false →
        i.status = .running → i.tokens = pre ++ later →
        (hist ++ i.runBirths (.tick dt :: ops)).countP (·.mints) < 2 ^ 64 →
        let m := (i.tickStart.deliverAll pre dt).2
        ∀ a ∈ hist ++ i.tickStart.deliveryBirths pre dt,
          (∀ u ∈ m.running ++ m.pending ++ later, u.activation ≠ a.token.activation) →
          ∀ b ∈ m.deliveryBirths later dt ++ (i.perform (.tick dt)).runBirths ops,
            b.token.activation ≠ a.token.activation))) := by
  intro ops i hist
  have hl : Lineage i hist := (Lineage.create loopGraph false []).run ops
  have hc : CompiledGraph.compile Registry.standard loopDoc = .ok i.graph := by
    rw [run_graph]
    exact compile_loopDoc
  have hK : hist.countP (·.mints) < 2 ^ 64 := by decide +kernel
  have hacts : hist.map (·.token.activation.toNat) = [1,1,2,3] := by decide +kernel
  exact ⟨hl,hc,hK,hacts,hl.activations_follow_forward_paths hc hK⟩

end Tickflow
