import Tickflow.Proofs.Lineage
/-! # Descent of activations

Every token descends from its activation's origin along a forward path (`Begets`). `Traced`
holds at every point of a run; its budget, the paths still open to an activation's tokens,
bounds how many tokens the activation ever carries.
-/
namespace Tickflow

/-- `Begets g hist o b path`: among the births `hist`, `b` descends from `o` by a line of
births, each sent by the delivery of the one before along a forward target of its node and
carrying its activation on; `path` lists the targets taken. -/
inductive Begets (g : CompiledGraph) (hist : List Birth) : Birth → Birth → List FlowTarget → Prop
  | origin {o : Birth} : o ∈ hist → Begets g hist o o []
  | sent {o p b : Birth} {path : List FlowTarget} {τ : FlowTarget} :
      Begets g hist o p path → b ∈ hist → b.cause = .sent p.token τ → τ ∈ g.forwardTargets p.token.node →
      b.token.node = τ.node → b.token.activation = p.token.activation → Begets g hist o b (path ++ [τ])

namespace Begets

variable {g : CompiledGraph} {hist : List Birth} {o b : Birth} {path : List FlowTarget}

theorem mono {hist' : List Birth} (h : Begets g hist o b path) (hs : ∀ x ∈ hist, x ∈ hist') :
    Begets g hist' o b path := by
  induction h with
  | origin ho => exact .origin (hs _ ho)
  | sent _ hb hc hτ hn ha ih => exact .sent ih (hs _ hb) hc hτ hn ha

theorem origin_mem (h : Begets g hist o b path) : o ∈ hist := by
  induction h with
  | origin ho => exact ho
  | sent _ _ _ _ _ _ ih => exact ih

theorem activation (h : Begets g hist o b path) : b.token.activation = o.token.activation := by
  induction h with
  | origin _ => rfl
  | sent _ _ _ _ _ ha ih => exact ha.trans ih

theorem forwardPath (h : Begets g hist o b path) :
    g.IsForwardPath o.token.node path ∧ CompiledGraph.pathEnd o.token.node path = b.token.node := by
  induction h with
  | origin _ => exact ⟨trivial,rfl⟩
  | sent _ _ _ hτ hn _ ih =>
    obtain ⟨hp,he⟩ := ih
    refine ⟨CompiledGraph.isForwardPath_append_singleton.mpr ⟨hp,by rw [he]; exact hτ⟩,?_⟩
    rw [CompiledGraph.pathEnd_append_singleton,hn]

end Begets

theorem split_append {α : Type} {hist more pre post : List α} {b : α} (h : hist ++ more = pre ++ b :: post) :
    (∃ post', hist = pre ++ b :: post') ∨ (∃ pre', pre = hist ++ pre' ∧ more = pre' ++ b :: post) := by
  rcases List.append_eq_append_iff.mp h.symm with ⟨a',hhist,hb⟩ | ⟨c',hpre,hmore⟩
  · cases a' with
    | nil =>
      rw [List.append_nil] at hhist
      rw [List.nil_append] at hb
      exact Or.inr ⟨[],by rw [hhist,List.append_nil],by rw [← hb,List.nil_append]⟩
    | cons x a'' =>
      obtain ⟨rfl,rfl⟩ := List.cons.inj hb
      exact Or.inl ⟨a'',hhist⟩
  · exact Or.inr ⟨c',hpre,hmore⟩

/-- What holds at every point of a run over the graph `g`, with `hist` the births so far,
`last` the last activation number handed out and `live` the live tokens, the rest of a tick's
batch included. -/
structure Traced (g : CompiledGraph) (hist : List Birth) (last : UInt64) (live : List Token) : Prop where
  /-- The births that mint take the activation numbers from 1 on, in order. -/
  minted : (hist.filter (·.mints)).map (·.token.activation.toNat) =
    (List.range' 1 (hist.countP (·.mints))).map (· % 2 ^ 64)
  last_eq : last.toNat = hist.countP (·.mints) % 2 ^ 64
  born : ∀ u ∈ live, u ∈ hist.map (·.token)
  /-- A birth that mints nothing was sent by the delivery of an older token of its activation,
  along a forward target of that token's node. -/
  parent : ∀ (pre : List Birth) (b : Birth) (post : List Birth), hist = pre ++ b :: post → b.mints = false →
    ∃ p τ, b.cause = .sent p τ ∧ τ ∈ g.forwardTargets p.node ∧ b.token.node = τ.node ∧
      b.token.activation = p.activation ∧ p ∈ pre.map (·.token)
  descends : ∀ b ∈ hist, ∃ o path, o.mints = true ∧ Begets g hist o b path
  /-- The births of each activation and the paths open to its live tokens stay within the paths
  open to its origins and its live tokens. -/
  budget : ∀ a, hist.countP (·.token.activation == a) + (live.map (pathsAhead g.pathCount a)).sum ≤
    (hist.map (originPaths g.pathCount a)).sum + live.countP (·.activation == a)

namespace Traced

variable {g : CompiledGraph} {hist : List Birth} {last : UInt64} {live : List Token}

theorem init (g : CompiledGraph) : Traced g [] 0 [] where
  minted := rfl
  last_eq := rfl
  born _ h := absurd h List.not_mem_nil
  parent pre b post h := absurd h.symm (List.append_ne_nil_of_right_ne_nil pre (List.cons_ne_nil b post))
  descends _ h := absurd h List.not_mem_nil
  budget _ := Nat.le_refl _

theorem perm {live' : List Token} (h : Traced g hist last live) (hp : live.Perm live') :
    Traced g hist last live' where
  minted := h.minted
  last_eq := h.last_eq
  born u hu := h.born u (hp.mem_iff.mpr hu)
  parent := h.parent
  descends := h.descends
  budget a := by
    rw [← (hp.map (pathsAhead g.pathCount a)).sum_eq,← hp.countP_eq]
    exact h.budget a

theorem countP_le_pathsAhead (g : CompiledGraph) (a : UInt64) (live : List Token) :
    live.countP (·.activation == a) ≤ (live.map (pathsAhead g.pathCount a)).sum := by
  induction live with
  | nil => exact Nat.le_refl _
  | cons u rest ih =>
    have h1 := g.one_le_pathCount u.node
    have hu : pathsAhead g.pathCount a u = if (u.activation == a) = true then g.pathCount u.node else 0 := rfl
    rw [List.countP_cons,List.map_cons,List.sum_cons,hu]
    cases ha : (u.activation == a)
    · simp only [Bool.false_eq_true,if_false]
      omega
    · simp only [if_true]
      omega

theorem of_live_nil (h : Traced g hist last live) : Traced g hist last [] where
  minted := h.minted
  last_eq := h.last_eq
  born _ hu := absurd hu List.not_mem_nil
  parent := h.parent
  descends := h.descends
  budget a := by
    have h1 := h.budget a
    have h2 := countP_le_pathsAhead g a live
    simp only [List.map_nil,List.sum_nil,List.countP_nil,Nat.add_zero]
    omega

theorem minted_append (h : Traced g hist last live) {more : List Birth}
    (hmint : (more.filter (·.mints)).map (·.token.activation.toNat) =
      (List.range' (last.toNat + 1) (more.countP (·.mints))).map (· % 2 ^ 64)) :
    ((hist ++ more).filter (·.mints)).map (·.token.activation.toNat) =
      (List.range' 1 ((hist ++ more).countP (·.mints))).map (· % 2 ^ 64) := by
  rw [List.filter_append,List.map_append,h.minted,hmint,h.last_eq,
    Instance.map_mod_range' (Nat.mod_add_mod (hist.countP (·.mints)) (2 ^ 64) 1),List.countP_append,
    ← List.map_append,Nat.add_comm (hist.countP (·.mints)) 1,List.range'_append_1]

theorem grow {more : List Birth} {last' : UInt64} {rest old new : List Token}
    (h : Traced g hist last (rest ++ old))
    (hmint : (more.filter (·.mints)).map (·.token.activation.toNat) =
      (List.range' (last.toNat + 1) (more.countP (·.mints))).map (· % 2 ^ 64))
    (hlast : last'.toNat = (last.toNat + more.countP (·.mints)) % 2 ^ 64)
    (hnew : ∀ u ∈ new, u ∈ old ∨ u ∈ more.map (·.token))
    (hsent : ∀ b ∈ more, b.mints = false → ∃ p τ, b.cause = .sent p τ ∧ τ ∈ g.forwardTargets p.node ∧
      b.token.node = τ.node ∧ b.token.activation = p.activation ∧ p ∈ rest ++ old)
    (hbal : ∀ a, more.countP (·.token.activation == a) + (new.map (pathsAhead g.pathCount a)).sum +
      old.countP (·.activation == a) ≤
        (more.map (originPaths g.pathCount a)).sum + new.countP (·.activation == a) +
          (old.map (pathsAhead g.pathCount a)).sum) :
    Traced g (hist ++ more) last' (rest ++ new) where
  minted := h.minted_append hmint
  last_eq := by
    rw [hlast,h.last_eq,Nat.mod_add_mod,List.countP_append]
  born u hu := by
    have hold : ∀ u ∈ rest ++ old, u ∈ (hist ++ more).map (·.token) := fun u hu => by
      rw [List.map_append]
      exact List.mem_append_left _ (h.born u hu)
    rcases List.mem_append.mp hu with hu | hu
    · exact hold u (List.mem_append_left _ hu)
    · rcases hnew u hu with hu | hu
      · exact hold u (List.mem_append_right _ hu)
      · rw [List.map_append]
        exact List.mem_append_right _ hu
  parent pre b post hsplit hb := by
    rcases split_append hsplit with ⟨post',hold⟩ | ⟨pre',rfl,hmore⟩
    · exact h.parent pre b post' hold hb
    · -- a new birth's parent was live, so it was born before everything new
      obtain ⟨p,τ,hc,hτ,hn,ha,hp⟩ := hsent b (by rw [hmore]; exact List.mem_append_right _ List.mem_cons_self) hb
      refine ⟨p,τ,hc,hτ,hn,ha,?_⟩
      rw [List.map_append]
      exact List.mem_append_left _ (h.born p hp)
  descends b hb := by
    have hsub : ∀ x ∈ hist, x ∈ hist ++ more := fun x hx => List.mem_append_left _ hx
    rcases List.mem_append.mp hb with hb' | hmore
    · obtain ⟨o,path,ho,hl⟩ := h.descends b hb'
      exact ⟨o,path,ho,hl.mono hsub⟩
    · cases hm : b.mints
      · obtain ⟨p,τ,hc,hτ,hn,ha,hp⟩ := hsent b hmore hm
        obtain ⟨q,hq,rfl⟩ := List.mem_map.mp (h.born p hp)
        obtain ⟨o,path,ho,hl⟩ := h.descends q hq
        exact ⟨o,path ++ [τ],ho,.sent (hl.mono hsub) hb hc hτ hn ha⟩
      · exact ⟨b,[],hm,.origin hb⟩
  budget a := by
    have h1 := h.budget a
    have h2 := hbal a
    simp only [List.countP_append,List.map_append,List.sum_append] at h1 h2 ⊢
    omega

theorem triggers (h : Traced g hist last live) {fresh : List Token} {last' : UInt64}
    (hacts : fresh.map (·.activation.toNat) = (List.range' (last.toNat + 1) fresh.length).map (· % 2 ^ 64))
    (hlast : last'.toNat = (last.toNat + fresh.length) % 2 ^ 64) :
    Traced g (hist ++ fresh.map (⟨·,.trigger⟩)) last' (live ++ fresh) := by
  have h0 : Traced g hist last (live ++ []) := by
    rw [List.append_nil]
    exact h
  refine h0.grow (triggers_mints hacts) (by rw [countP_mints_triggers]; exact hlast) ?_ ?_ ?_
  · intro u hu
    exact Or.inr (by simpa using hu)
  · intro b hb hm
    obtain ⟨u,-,rfl⟩ := List.mem_map.mp hb
    cases hm
  · intro a
    have horig : (fresh.map (⟨·,.trigger⟩ : Token → Birth)).map (originPaths g.pathCount a) =
        fresh.map (pathsAhead g.pathCount a) := by
      simp [List.map_map,Function.comp_def,originPaths,pathsAhead]
    rw [horig,List.countP_map]
    simp only [List.countP_nil,List.map_nil,List.sum_nil,Nat.add_zero]
    exact Nat.le_of_eq (by simp [Function.comp_def]; omega)

theorem delivery_balance {r : Nat → Nat} (hr : g.Ranked r) {m : Instance} (hg : m.graph = g) (t : Token)
    (dt : Binary64) (a : UInt64) :
    let S := Instance.sentBirths t m.nextSeq m.store.lastId (m.sentTargets t dt)
    let new := (if m.keeps t dt then [t] else []) ++ S.map (·.token)
    S.countP (·.token.activation == a) + (new.map (pathsAhead g.pathCount a)).sum + [t].countP (·.activation == a) ≤
      (S.map (originPaths g.pathCount a)).sum + new.countP (·.activation == a) +
        ([t].map (pathsAhead g.pathCount a)).sum := by
  intro S new
  have ht : ([t].map (pathsAhead g.pathCount a)).sum = if (t.activation == a) = true then g.pathCount t.node else 0 := by
    simp [pathsAhead]
  cases hk : m.keeps t dt
  · have hpaths : (S.map fun b => pathsAhead g.pathCount a b.token).sum = (S.map (originPaths g.pathCount a)).sum +
        if (t.activation == a) = true then
          (((m.sentTargets t dt).filter (!·.backEdge)).map (g.pathCount ·.node)).sum
        else 0 :=
      Instance.sentBirths_paths g.pathCount a t m.nextSeq m.store.lastId (m.sentTargets t dt)
    have hsub := Instance.sentTargets_forward m t dt
    rw [hg] at hsub
    have hlt := hr.sum_pathCount_lt hsub
    have hnew : new = S.map (·.token) := by simp [new,hk]
    rw [hnew,List.countP_map,List.map_map,ht]
    simp only [Function.comp_def]
    rw [hpaths]
    cases ha : (t.activation == a)
    · simp only [ha,Bool.false_eq_true,↓reduceIte,List.countP_singleton]
      omega
    · simp only [ha,if_true,List.countP_singleton]
      omega
  · have hF : m.sentTargets t dt = [] := by
      rcases hF : m.sentTargets t dt with _ | ⟨τ,F⟩
      · rfl
      · have := @Instance.keeps_eq_false_of_sent m t dt (by rw [hF]; exact List.cons_ne_nil τ F)
        rw [hk] at this
        exact absurd this (by decide)
    have hS : S = [] := by
      show Instance.sentBirths t m.nextSeq m.store.lastId (m.sentTargets t dt) = []
      rw [hF]
      rfl
    have hnew : new = [t] := by simp [new,hk,hS]
    rw [hnew,hS]
    simp
    omega

theorem deliver {r : Nat → Nat} (hr : g.Ranked r) {m : Instance} (hg : m.graph = g) {t : Token}
    {rest : List Token} (dt : Binary64) (h : Traced g hist m.store.lastId (m.running ++ m.pending ++ t :: rest)) :
    Traced g (hist ++ Instance.sentBirths t m.nextSeq m.store.lastId (m.sentTargets t dt))
      (m.deliver t dt).2.store.lastId ((m.deliver t dt).2.running ++ (m.deliver t dt).2.pending ++ rest) := by
  obtain ⟨-,-,hlast,-⟩ := Instance.deliver_births m t dt
  have h0 : Traced g hist m.store.lastId ((m.running ++ m.pending ++ rest) ++ [t]) :=
    h.perm (List.perm_middle.trans (List.perm_append_singleton t _).symm)
  have h1 : Traced g (hist ++ Instance.sentBirths t m.nextSeq m.store.lastId (m.sentTargets t dt))
      (m.deliver t dt).2.store.lastId ((m.running ++ m.pending ++ rest) ++
        ((if m.keeps t dt then [t] else []) ++
          (Instance.sentBirths t m.nextSeq m.store.lastId (m.sentTargets t dt)).map (·.token))) := by
    refine h0.grow ?_ hlast (Instance.mem_delivered m t dt) ?_ (delivery_balance hr hg t dt)
    · rw [Instance.sentBirths_mints,Instance.countP_mints_sentBirths]
    · intro b hb hm
      obtain ⟨τ,hτ,hc,hn,hmb,ha⟩ := Instance.mem_sentBirths hb
      have hback : τ.backEdge = false := by rw [← hmb,hm]
      have hfwd : τ ∈ g.forwardTargets t.node := by
        have hsub := Instance.sentTargets_forward m t dt
        rw [hg] at hsub
        exact hsub.subset (List.mem_filter.mpr ⟨hτ,by rw [hback]; rfl⟩)
      exact ⟨t,τ,hc,hfwd,hn,ha hback,List.mem_append_right _ List.mem_cons_self⟩
  exact h1.perm (Instance.deliver_live_perm m t dt rest).symm

theorem deliverAll {r : Nat → Nat} (hr : g.Ranked r) {m : Instance} (hg : m.graph = g) {now later : List Token}
    (dt : Binary64) (h : Traced g hist m.store.lastId (m.running ++ m.pending ++ (now ++ later))) :
    Traced g (hist ++ m.deliveryBirths now dt) (m.deliverAll now dt).2.store.lastId
      ((m.deliverAll now dt).2.running ++ (m.deliverAll now dt).2.pending ++ later) := by
  induction now generalizing hist m with
  | nil =>
    rw [Instance.deliverAll_nil,Instance.deliveryBirths,List.append_nil]
    rw [List.nil_append] at h
    exact h
  | cons t rest ih =>
    rw [List.cons_append] at h
    have h1 := deliver hr hg dt h
    have hg1 : (m.deliver t dt).2.graph = g := (Instance.deliver_births m t dt).2.2.2.trans hg
    rw [Instance.deliverAll_cons,Instance.deliveryBirths,← List.append_assoc]
    exact ih hg1 h1

theorem tickStart {i : Instance} (h : Traced i.graph hist i.store.lastId (i.running ++ i.pending)) :
    Traced i.graph hist i.tickStart.store.lastId (i.tickStart.running ++ i.tickStart.pending ++ i.tokens) := by
  show Traced i.graph hist i.store.lastId ([] ++ [] ++ i.tokens)
  rw [List.nil_append,List.nil_append]
  exact h.perm (Instance.tokens_perm i).symm

theorem perform_of_ne_tick {i : Instance} (h : Traced i.graph hist i.store.lastId (i.running ++ i.pending))
    {op : HostOp} (hop : ∀ dt, op ≠ .tick dt) :
    Traced i.graph (hist ++ i.births op) (i.perform op).store.lastId
      ((i.perform op).running ++ (i.perform op).pending) := by
  obtain ⟨fresh,hb,hlive,hacts,hlast,-⟩ := Instance.perform_triggers i op hop
  rw [hb]
  rcases hlive with hlive | ⟨hlive,rfl⟩
  · rw [hlive]
    exact h.triggers hacts hlast
  · have h1 := h.of_live_nil.triggers hacts hlast
    rw [hlive]
    rw [List.append_nil] at h1
    exact h1

theorem perform {r : Nat → Nat} {i : Instance} (hr : i.graph.Ranked r)
    (h : Traced i.graph hist i.store.lastId (i.running ++ i.pending)) (op : HostOp) :
    Traced i.graph (hist ++ i.births op) (i.perform op).store.lastId
      ((i.perform op).running ++ (i.perform op).pending) := by
  refine Instance.perform_cases i (fun op hop => h.perform_of_ne_tick hop) (fun dt hc hs => ?_)
    (fun dt hc hs => ?_) (fun dt hc => ?_) op
  · have h0 : Traced i.graph hist i.tickStart.store.lastId
        (i.tickStart.running ++ i.tickStart.pending ++ (i.tokens ++ [])) := by
      rw [List.append_nil]
      exact h.tickStart
    have hg0 : i.tickStart.graph = i.graph := rfl
    have h1 := deliverAll hr hg0 dt h0
    obtain ⟨hlive,hlast,-⟩ := Instance.step_births i dt hc hs
    rw [List.append_nil] at h1
    rw [Instance.births_tick_of_running i dt hc hs]
    show Traced i.graph _ (i.step dt).2.store.lastId ((i.step dt).2.running ++ (i.step dt).2.pending)
    rw [hlive,hlast]
    exact h1
  · rw [Instance.births_tick_of_stopped i dt hs,List.append_nil,Instance.perform_tick_of_stopped i dt hc hs]
    exact h
  · rw [Instance.births_tick_of_cancelled i dt hc,Instance.perform_tick_of_cancelled i dt hc]
    exact h.perform_of_ne_tick (fun _ h => by cases h)

end Traced

theorem Lineage.traced {i : Instance} {hist : List Birth} (hl : Lineage i hist) {r : Nat → Nat}
    (hr : i.graph.Ranked r) : Traced i.graph hist i.store.lastId (i.running ++ i.pending) := by
  induction hl with
  | create g recordTrace invocations => exact Traced.init g
  | perform op _ ih =>
    rw [Instance.perform_graph] at hr ⊢
    exact (ih hr).perform hr op

end Tickflow
