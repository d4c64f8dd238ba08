import Tickflow.Proofs.Slots
import Tickflow.Proofs.Layout
/-! # Join slots along a run

A slot's state is fixed by its *window*, the deliveries of its activation to its node since
the last one that left the node done (`JoinAt`). A delivery elsewhere leaves the slot alone,
and one to the slot moves it on with its window.
-/
namespace Tickflow

namespace Delivery

/-- Whether the delivery brings a token of activation `a` to node `n`. -/
def hits (d : Delivery) (n : Nat) (a : UInt64) : Bool := d.token.node == n && d.token.activation == a

/-- The arrivals the invocation left in its state, as the trace records them: none when the
token is absorbed or its node is missing. -/
def left (d : Delivery) : PinSet :=
  match d.state.graph.node? d.token.node with
  | none => PinSet.empty
  | some node =>
    if d.state.store.isLatched d.token.node d.token.activation then PinSet.empty
    else (d.state.invoke node d.token d.dt).1.state.arrivals

end Delivery

/-- The deliveries of activation `a` to node `n` since the last one whose node was done. -/
def window (n : Nat) (a : UInt64) (past : List Delivery) : List Delivery :=
  past.foldl (fun w d => if d.hits n a then (if d.outcome = some (.ran .done) then [] else w ++ [d]) else w) []

def arrivedIn (w : List Delivery) : PinSet := w.foldl (fun s d => s.union d.left) PinSet.empty

/-- The tick of the first delivery of `w` whose node answered that it waits. -/
def firstWait (w : List Delivery) : Option UInt64 :=
  (w.find? (·.outcome == some (.ran .waiting))).map (·.state.tick)

/-- Whether the join of node `n` in activation `a` waits after the deliveries `past`: a delivery
of its window waited, and none of its deliveries ever latched. -/
def Waits (n : Nat) (a : UInt64) (past : List Delivery) : Bool :=
  (window n a past).any (·.outcome == some (.ran .waiting)) &&
    past.all fun d => !(d.hits n a && d.outcome == some (.ran .latched))

section Windows

variable (n : Nat) (a : UInt64)

@[simp] theorem window_nil : window n a [] = [] := rfl

theorem window_append (past : List Delivery) (d : Delivery) :
    window n a (past ++ [d]) =
      if d.hits n a then (if d.outcome = some (.ran .done) then [] else window n a past ++ [d])
      else window n a past := by
  simp only [window,List.foldl_append,List.foldl_cons,List.foldl_nil]

theorem mem_window {past : List Delivery} {d : Delivery} (h : d ∈ window n a past) :
    d ∈ past ∧ d.hits n a = true ∧ d.outcome ≠ some (.ran .done) := by
  induction past using List.reverseRecOn with
  | nil => exact absurd h List.not_mem_nil
  | append_singleton past e ih =>
    rw [window_append] at h
    split at h
    · rename_i he
      split at h
      · exact absurd h List.not_mem_nil
      · rename_i hdone
        rcases List.mem_append.mp h with h | h
        · obtain ⟨hp,hh,ho⟩ := ih h
          exact ⟨List.mem_append_left _ hp,hh,ho⟩
        · rw [List.mem_singleton.mp h]
          exact ⟨List.mem_append_right _ List.mem_cons_self,he,hdone⟩
    · obtain ⟨hp,hh,ho⟩ := ih h
      exact ⟨List.mem_append_left _ hp,hh,ho⟩

theorem window_eq_nil {past : List Delivery} (h : ∀ d ∈ past, d.hits n a = false) : window n a past = [] := by
  cases hw : window n a past with
  | nil => rfl
  | cons d rest =>
    have hd := (mem_window n a (hw ▸ List.mem_cons_self : d ∈ window n a past))
    rw [h d hd.1] at hd
    cases hd.2.1

end Windows

theorem arrivedIn_append (w : List Delivery) (d : Delivery) : arrivedIn (w ++ [d]) = (arrivedIn w).union d.left := by
  simp [arrivedIn,List.foldl_append]

@[simp] theorem arrivedIn_nil : arrivedIn [] = PinSet.empty := rfl

theorem firstWait_append (w : List Delivery) (d : Delivery) :
    firstWait (w ++ [d]) =
      (firstWait w).orElse fun _ => if d.outcome = some (.ran .waiting) then some d.state.tick else none := by
  unfold firstWait
  rw [List.find?_append]
  cases w.find? (·.outcome == some (.ran .waiting)) with
  | some e => rfl
  | none => by_cases hd : d.outcome = some (.ran .waiting) <;> simp [hd]

@[simp] theorem firstWait_nil : firstWait [] = none := rfl

theorem Builtin.mergeAllUpdate_arrivals (inv : Invocation) (state : ActivationState) :
    (Builtin.mergeAllUpdate inv state).state.arrivals = state.arrivals.add inv.pin := by
  unfold Builtin.mergeAllUpdate
  rw [PinSet.insert_eq_add]
  cases hb : (decide (inv.pin < 16) && !state.arrivals.contains inv.pin)
  · apply PinSet.ext_contains
    intro i
    simp only [Bool.and_eq_false_iff,decide_eq_false_iff_not,Bool.not_eq_false'] at hb
    rw [PinSet.contains_add]
    by_cases hi : i = inv.pin
    · subst hi
      rcases hb with hb | hb <;> simp [hb]
    · simp [hi]
  · simp only
    split <;> rfl

theorem Builtin.mergeAllUpdate_result (inv : Invocation) (state : ActivationState) :
    (Builtin.mergeAllUpdate inv state).result =
      if inv.pin < 16 ∧ state.arrivals.contains inv.pin = false ∧
          inv.connected.subset (state.arrivals.add inv.pin) = true
      then NodeResult.fire (PinSet.single 0) else NodeResult.waiting := by
  unfold Builtin.mergeAllUpdate
  rw [PinSet.insert_eq_add]
  by_cases h1 : inv.pin < 16
  · by_cases h2 : state.arrivals.contains inv.pin = true
    · simp [h1,h2]
    · simp only [h1,h2,decide_true,Bool.not_false,Bool.and_self,true_and]
      split <;> rfl
  · simp [h1]

theorem NodeKind.update_arrivals (k : NodeKind) (inv : Invocation) (data : DataAccess)
    (state : ActivationState) (global : Nat) (p : Nat) (hp : state.arrivals.contains p = true) :
    (k.update inv data state global).state.arrivals.contains p = true := by
  cases k with
  | builtin b =>
    cases b with
    | mergeAll =>
      show (Builtin.mergeAllUpdate inv state).state.arrivals.contains p = true
      rw [Builtin.mergeAllUpdate_arrivals,PinSet.contains_add,hp,Bool.true_or]
    | wait =>
      show (Builtin.waitUpdate inv state).state.arrivals.contains p = true
      unfold Builtin.waitUpdate
      dsimp only
      split <;> exact hp
    | _ => exact hp
  | host t => exact t.update_arrivals inv data state global p hp

theorem Builtin.mergeAllUpdate_state (inv : Invocation) (state : ActivationState) :
    (Builtin.mergeAllUpdate inv state).result.state = .done ∨ (Builtin.mergeAllUpdate inv state).result.state = .waiting := by
  rw [Builtin.mergeAllUpdate_result]
  split
  · exact Or.inl rfl
  · exact Or.inr rfl

namespace Instance

open ActivationStore

theorem handed_arrivals {m : Instance} {t : Token} (hp : lookupMember t.seq m.store.parked = none) :
    (m.handed t).arrivals = m.store.arrivalsAt t.node t.activation := by
  unfold handed arrivalsAt
  rw [hp]
  cases m.store.slot? t.node t.activation <;> rfl

section Ran

variable {m : Instance} {t : Token} (dt : Binary64) {node : CompiledNode}
  (hn : m.graph.node? t.node = some node) (hl : m.store.isLatched t.node t.activation = false)
include hn hl

theorem outcome_of_ran : m.outcome t dt = some (.ran (m.invoke node t dt).1.result.state) := by
  simp [outcome,hn,hl]

theorem left_of_ran (rest : List Token) :
    (⟨m,t,rest,dt⟩ : Delivery).left = (m.invoke node t dt).1.state.arrivals := by
  simp [Delivery.left,hn,hl]

theorem process_arrivalsAt_union (hs : (m.invoke node t dt).1.result.state ≠ .done) :
    (m.process t dt).2.2.store.arrivalsAt t.node t.activation =
      (m.invoke node t dt).1.state.arrivals.union (m.store.arrivalsAt t.node t.activation) := by
  rw [process_arrivalsAt dt hn hl,if_neg hs]
  cases hp : lookupMember t.seq m.store.parked with
  | some st => rfl
  | none =>
    apply PinSet.ext_contains
    intro p
    simp only [Option.isSome_none,Bool.false_eq_true,if_false,PinSet.contains_union,PinSet.contains_empty,
      Bool.or_false]
    cases hc : (m.store.arrivalsAt t.node t.activation).contains p
    · rw [Bool.or_false]
    · have hh : (m.handed t).arrivals.contains p = true := by
        rw [handed_arrivals hp]
        exact hc
      rw [(invoke_eq m node t dt).1,NodeKind.update_arrivals _ _ _ _ _ p hh,Bool.true_or]

end Ran

theorem invoke_mergeAll_arrivals {m : Instance} {t : Token} (dt : Binary64) {node : CompiledNode}
    (hk : node.kind = .builtin .mergeAll) (hp : lookupMember t.seq m.store.parked = none) :
    (m.invoke node t dt).1.state.arrivals = (m.store.arrivalsAt t.node t.activation).add t.pin ∧
      (m.invoke node t dt).1.result =
        (Builtin.mergeAllUpdate ⟨node.spec,t.pin,t.activation,node.connectedInputs,dt⟩ (m.handed t)).result := by
  have hu := (invoke_eq m node t dt).1
  rw [hk] at hu
  refine ⟨?_,by rw [hu]; rfl⟩
  rw [hu,← handed_arrivals hp]
  exact Builtin.mergeAllUpdate_arrivals _ _

end Instance

theorem Delivery.outcome_of_mergeAll {d : Delivery} {node : CompiledNode}
    (hn : d.state.graph.node? d.token.node = some node) (hk : node.kind = .builtin .mergeAll) :
    d.outcome ≠ some (.ran .latched) ∧ d.outcome ≠ some (.ran .executing) := by
  unfold Delivery.outcome Instance.outcome
  rw [hn]
  dsimp only
  split
  · exact ⟨by simp,by simp⟩
  · have hu := (Instance.invoke_eq d.state node d.token d.dt).1
    rw [hk] at hu
    rw [hu]
    rcases Builtin.mergeAllUpdate_state ⟨node.spec,d.token.pin,d.token.activation,node.connectedInputs,d.dt⟩
      (d.state.handed d.token) with h | h
    · exact ⟨by simp [NodeKind.update,Builtin.update,h],by simp [NodeKind.update,Builtin.update,h]⟩
    · exact ⟨by simp [NodeKind.update,Builtin.update,h],by simp [NodeKind.update,Builtin.update,h]⟩

/-- The slot of node `n` in activation `a` as the deliveries `past` over the graph `g` shaped
it: it holds the arrivals its window left, it has waited since the first of its window's
deliveries that waited unless it latched, and it latched exactly when one of its deliveries
latched it. At a full merge it holds the distinct pins of its window, and a nonempty window
does not cover the connected inputs. -/
structure JoinAt (g : CompiledGraph) (past : List Delivery) (s : ActivationStore) (n : Nat) (a : UInt64) : Prop where
  arrived : s.arrivalsAt n a = arrivedIn (window n a past)
  since : s.isLatched n a = false → s.sinceAt n a = firstWait (window n a past)
  latched : s.isLatched n a = true ↔ ∃ d ∈ past, d.hits n a = true ∧ d.outcome = some (.ran .latched)
  merged : ∀ node, g.node? n = some node → node.kind = .builtin .mergeAll →
    s.arrivalsAt n a = PinSet.ofList ((window n a past).map (·.token.pin)) ∧
      (window n a past ≠ [] → node.connectedInputs.subset (s.arrivalsAt n a) = false)

namespace JoinAt

variable {g : CompiledGraph} {past : List Delivery} {s s' : ActivationStore} {n : Nat} {a : UInt64}

theorem of_slot?_eq (j : JoinAt g past s n a) (h : s'.slot? n a = s.slot? n a) : JoinAt g past s' n a where
  arrived := by rw [ActivationStore.arrivalsAt_of_slot?_eq h,j.arrived]
  since hl := by
    rw [ActivationStore.isLatched_of_slot?_eq h] at hl
    rw [ActivationStore.sinceAt_of_slot?_eq h,j.since hl]
  latched := by rw [ActivationStore.isLatched_of_slot?_eq h,j.latched]
  merged node hn hk := by
    rw [ActivationStore.arrivalsAt_of_slot?_eq h]
    exact j.merged node hn hk

theorem of_none (hs : s.slot? n a = none) (hp : ∀ d ∈ past, d.hits n a = false) : JoinAt g past s n a := by
  obtain ⟨ha,hsi,hl⟩ := ActivationStore.views_of_slot?_none hs
  have hw := window_eq_nil n a hp
  refine ⟨by rw [ha,hw]; rfl,fun _ => by rw [hsi,hw]; rfl,?_,?_⟩
  · rw [hl]
    constructor
    · intro h
      cases h
    · rintro ⟨d,hd,hh,-⟩
      rw [hp d hd] at hh
      cases hh
  · intro node _ _
    rw [ha,hw]
    exact ⟨rfl,fun h => absurd rfl h⟩

theorem skip {d : Delivery} (hd : d.hits n a = false) (j : JoinAt g past s n a) : JoinAt g (past ++ [d]) s n a := by
  have hw : window n a (past ++ [d]) = window n a past := by
    rw [window_append,hd]
    rfl
  refine ⟨by rw [hw]; exact j.arrived,fun hl => by rw [hw]; exact j.since hl,?_,fun node hn hk => by
    rw [hw]; exact j.merged node hn hk⟩
  rw [j.latched]
  constructor
  · rintro ⟨e,he,hh,ho⟩
    exact ⟨e,List.mem_append_left _ he,hh,ho⟩
  · rintro ⟨e,he,hh,ho⟩
    rcases List.mem_append.mp he with he | he
    · exact ⟨e,he,hh,ho⟩
    · rw [List.mem_singleton.mp he,hd] at hh
      cases hh

section Own

variable {g : CompiledGraph} {past : List Delivery} {m : Instance} {t : Token} {rest : List Token} {dt : Binary64}

theorem latched_append (rest : List Token) {s : ActivationStore} (j : JoinAt g past m.store t.node t.activation)
    (hs : s.isLatched t.node t.activation =
      (m.store.isLatched t.node t.activation || (⟨m,t,rest,dt⟩ : Delivery).outcome == some (.ran .latched))) :
    (s.isLatched t.node t.activation = true ↔
      ∃ d ∈ past ++ [(⟨m,t,rest,dt⟩ : Delivery)], d.hits t.node t.activation = true ∧
        d.outcome = some (.ran .latched)) := by
  rw [hs,Bool.or_eq_true,j.latched,beq_iff_eq]
  constructor
  · rintro (⟨e,he,hh,ho⟩ | ho)
    · exact ⟨e,List.mem_append_left _ he,hh,ho⟩
    · exact ⟨_,List.mem_append_right _ List.mem_cons_self,by simp [Delivery.hits],ho⟩
  · rintro ⟨e,he,hh,ho⟩
    rcases List.mem_append.mp he with he | he
    · exact Or.inl ⟨e,he,hh,ho⟩
    · rw [List.mem_singleton.mp he] at ho
      exact Or.inr ho

theorem quiet (hq : m.graph.node? t.node = none ∨ m.store.isLatched t.node t.activation = true)
    (hg : m.graph = g) (hgraphs : ∀ d ∈ past, d.state.graph = g) (j : JoinAt g past m.store t.node t.activation) :
    JoinAt g (past ++ [⟨m,t,rest,dt⟩]) (m.process t dt).2.2.store t.node t.activation := by
  have hleft : (⟨m,t,rest,dt⟩ : Delivery).left = PinSet.empty := by
    unfold Delivery.left
    dsimp only
    rcases hq with h | h
    · rw [h]
    · split
      · rfl
      · rw [if_pos h]
  have hout : (⟨m,t,rest,dt⟩ : Delivery).outcome = none ∨ (⟨m,t,rest,dt⟩ : Delivery).outcome = some .absorbed := by
    unfold Delivery.outcome Instance.outcome
    dsimp only
    rcases hq with h | h
    · rw [h]
      exact Or.inl rfl
    · split
      · exact Or.inl rfl
      · rw [if_pos h]
        exact Or.inr rfl
  have hnd : (⟨m,t,rest,dt⟩ : Delivery).outcome ≠ some (.ran .done) := by
    rcases hout with h | h <;> rw [h] <;> simp
  have hnw : (⟨m,t,rest,dt⟩ : Delivery).outcome ≠ some (.ran .waiting) := by
    rcases hout with h | h <;> rw [h] <;> simp
  have hw : window t.node t.activation (past ++ [⟨m,t,rest,dt⟩]) = window t.node t.activation past ++ [⟨m,t,rest,dt⟩] := by
    rw [window_append,if_pos (by simp [Delivery.hits]),if_neg hnd]
  rw [Instance.process_store_of_absorbed hq]
  refine ⟨?_,?_,?_,?_⟩
  · rw [hw,arrivedIn_append,hleft,PinSet.union_empty,j.arrived]
  · intro hl
    rw [hw,firstWait_append,j.since hl,if_neg hnw]
    cases firstWait (window t.node t.activation past) <;> rfl
  · refine j.latched_append rest ?_
    have hnl : (⟨m,t,rest,dt⟩ : Delivery).outcome ≠ some (.ran .latched) := by
      rcases hout with h | h <;> rw [h] <;> simp
    simp [hnl]
  · intro node hn hk
    rcases hq with h | h
    · rw [← hg,h] at hn
      cases hn
    · obtain ⟨e,he,hh,ho⟩ := j.latched.mp h
      have hen : e.state.graph.node? e.token.node = some node := by
        simp only [Delivery.hits,Bool.and_eq_true,beq_iff_eq] at hh
        rw [hgraphs e he,hh.1]
        exact hn
      exact absurd ho (Delivery.outcome_of_mergeAll hen hk).1

theorem ran {node : CompiledNode} (hn : m.graph.node? t.node = some node)
    (hl : m.store.isLatched t.node t.activation = false) (hg : m.graph = g)
    (hmerge : node.kind = .builtin .mergeAll →
      lookupMember t.seq m.store.parked = none ∧ node.connectedInputs.contains t.pin = true)
    (j : JoinAt g past m.store t.node t.activation) :
    JoinAt g (past ++ [⟨m,t,rest,dt⟩]) (m.process t dt).2.2.store t.node t.activation := by
  have hout : (⟨m,t,rest,dt⟩ : Delivery).outcome = some (.ran (m.invoke node t dt).1.result.state) :=
    Instance.outcome_of_ran dt hn hl
  have hleft := Instance.left_of_ran dt hn hl rest
  have hlat := Instance.process_isLatched m t dt t.node t.activation
  simp only [beq_self_eq_true,Bool.true_and] at hlat
  have hL := j.latched_append rest hlat
  have hw : window t.node t.activation (past ++ [⟨m,t,rest,dt⟩]) =
      if (m.invoke node t dt).1.result.state = .done then [] else window t.node t.activation past ++ [⟨m,t,rest,dt⟩] := by
    rw [window_append,if_pos (by simp [Delivery.hits]),hout]
    simp
  have hsince := Instance.process_sinceAt dt hn hl
  refine ⟨?_,?_,hL,?_⟩
  · by_cases hs : (m.invoke node t dt).1.result.state = .done
    · rw [hw,if_pos hs,Instance.process_arrivalsAt dt hn hl,if_pos hs]
      rfl
    · rw [hw,if_neg hs,Instance.process_arrivalsAt_union dt hn hl hs,arrivedIn_append,hleft,← j.arrived,
        PinSet.union_comm]
  · intro hl'
    have hj := j.since hl
    rw [hw,hsince]
    cases hs : (m.invoke node t dt).1.result.state with
    | done => rfl
    | latched =>
      rw [hlat,hl,Instance.outcome_of_ran dt hn hl,hs] at hl'
      cases hl'
    | waiting =>
      simp only [reduceCtorEq,if_false,firstWait_append,hj,hout,hs,if_true]
    | executing =>
      simp only [reduceCtorEq,if_false,firstWait_append,hj,hout,hs]
      cases firstWait (window t.node t.activation past) <;> rfl
  · intro node' hn' hk
    rw [hg.symm,hn] at hn'
    cases hn'
    obtain ⟨hp,hpin⟩ := hmerge hk
    obtain ⟨harr,hres⟩ := Instance.invoke_mergeAll_arrivals dt hk hp
    obtain ⟨hm1,hm2⟩ := j.merged node (hg ▸ hn) hk
    have hpin16 : t.pin < 16 := PinSet.lt_of_contains hpin
    rcases Builtin.mergeAllUpdate_state ⟨node.spec,t.pin,t.activation,node.connectedInputs,dt⟩ (m.handed t) with hs | hs
    · have hs' : (m.invoke node t dt).1.result.state = .done := by rw [hres,hs]
      rw [hw,if_pos hs',Instance.process_arrivalsAt dt hn hl,if_pos hs']
      exact ⟨rfl,fun h => absurd rfl h⟩
    · have hs' : (m.invoke node t dt).1.result.state = .waiting := by rw [hres,hs]
      have hne : (m.invoke node t dt).1.result.state ≠ .done := by rw [hs']; decide
      have hnow : (m.process t dt).2.2.store.arrivalsAt t.node t.activation =
          (PinSet.ofList ((window t.node t.activation past).map (·.token.pin))).add t.pin := by
        rw [Instance.process_arrivalsAt_union dt hn hl hne,harr,hm1]
        apply PinSet.ext_contains
        intro i
        simp only [PinSet.contains_union,PinSet.contains_add]
        cases (PinSet.ofList ((window t.node t.activation past).map (·.token.pin))).contains i <;> simp
      rw [hw,if_neg hne,hnow,List.map_append,List.map_singleton,PinSet.ofList_append_singleton]
      refine ⟨rfl,fun _ => ?_⟩
      have hwait := hres
      rw [Builtin.mergeAllUpdate_result] at hwait
      have harr0 : (m.handed t).arrivals = m.store.arrivalsAt t.node t.activation := by
        unfold Instance.handed ActivationStore.arrivalsAt
        rw [hp]
        cases m.store.slot? t.node t.activation <;> rfl
      split at hwait
      · rw [hwait] at hs'
        cases hs'
      · rename_i hcov
        rw [harr0,hm1] at hcov
        by_cases hseen : (PinSet.ofList ((window t.node t.activation past).map (·.token.pin))).contains t.pin = true
        · have hsame := PinSet.add_eq_self hseen
          have hne' : window t.node t.activation past ≠ [] := by
            intro hnil
            rw [hnil] at hseen
            simp at hseen
          rw [hsame,← hm1]
          exact hm2 hne'
        · simp only [hpin16,true_and] at hcov
          simp only [Bool.not_eq_true] at hseen
          simpa [hseen] using hcov

end Own

end JoinAt

namespace Instance

theorem mem_queued {act seq last : UInt64} {targets : List FlowTarget} {u : Token}
    (h : u ∈ queued act seq last targets) : ∃ τ ∈ targets, u.node = τ.node ∧ u.pin = τ.pin := by
  induction targets generalizing seq last with
  | nil => exact absurd h List.not_mem_nil
  | cons τ rest ih =>
    unfold queued at h
    split at h
    all_goals
      rcases List.mem_cons.mp h with rfl | h
      · exact ⟨τ,List.mem_cons_self,rfl,rfl⟩
      · obtain ⟨σ,hσ,hn,hp⟩ := ih h
        exact ⟨σ,List.mem_cons_of_mem τ hσ,hn,hp⟩

theorem mem_sentTargets {m : Instance} {t : Token} {dt : Binary64} {τ : FlowTarget} (h : τ ∈ m.sentTargets t dt) :
    ∃ n, m.graph.node? t.node = some n ∧ τ ∈ n.targets.flatten := by
  unfold sentTargets at h
  cases hn : m.graph.node? t.node with
  | none =>
    rw [hn] at h
    exact absurd h List.not_mem_nil
  | some n =>
    rw [hn] at h
    refine ⟨n,rfl,?_⟩
    dsimp only at h
    split at h
    · exact absurd h List.not_mem_nil
    · split at h
      · exact (firedTargets_sublist n _).subset h
      · exact absurd h List.not_mem_nil

theorem mem_process_live {m : Instance} {t : Token} {later : List Token} {dt : Binary64} {u : Token}
    (h : u ∈ (m.process t dt).2.2.running ++ (m.process t dt).2.2.pending ++ t :: later) :
    u ∈ m.running ++ m.pending ++ t :: later ∨ u ∈ queued t.activation m.nextSeq m.store.lastId (m.sentTargets t dt) := by
  obtain ⟨-,-,-,hr,hp,-⟩ := process_spec m t dt
  rw [hr,hp] at h
  simp only [List.mem_append,List.mem_cons] at h ⊢
  tauto

theorem mem_process_live_of_mem {m : Instance} {t : Token} {later : List Token} {dt : Binary64} {u : Token}
    (h : u ∈ m.running ++ m.pending ++ t :: later) :
    u ∈ (m.process t dt).2.2.running ++ (m.process t dt).2.2.pending ++ t :: later := by
  obtain ⟨-,-,-,hr,hp,-⟩ := process_spec m t dt
  rw [hr,hp]
  simp only [List.mem_append,List.mem_cons] at h ⊢
  tauto

theorem settle_parked (k : Instance) (t : Token) (keep : Bool) : (k.settle t keep).store.parked = k.store.parked := by
  unfold settle
  cases keep
  · simp only [Bool.false_eq_true,if_false,consume]
    split
    · rw [(releaseActivation_frame _ t.activation).2.2.2.2,ActivationStore.release_parked,
        ActivationStore.tokenConsumed_parked]
    · exact ActivationStore.tokenConsumed_parked _ _
  · rfl

theorem process_parked_of_ne (m : Instance) (t : Token) (dt : Binary64) {k : UInt64} (hk : t.seq ≠ k) :
    lookupMember k (m.process t dt).2.2.store.parked = lookupMember k m.store.parked := by
  cases hn : m.graph.node? t.node with
  | none => rw [process_store_of_absorbed (Or.inl hn)]
  | some node =>
    cases hl : m.store.isLatched t.node t.activation
    · rw [lookup_process_parked dt hn hl,if_neg hk]
    · rw [process_store_of_absorbed (Or.inr hl)]

theorem process_parked_self (m : Instance) (t : Token) (dt : Binary64) :
    lookupMember t.seq (m.process t dt).2.2.store.parked ≠ none ↔
      m.keeps t dt = true ∨ (∀ s, m.outcome t dt ≠ some (.ran s)) ∧ lookupMember t.seq m.store.parked ≠ none := by
  cases hn : m.graph.node? t.node with
  | none =>
    have ho : m.outcome t dt = none := by simp [outcome,hn]
    rw [process_store_of_absorbed (Or.inl hn)]
    simp [keeps,ho]
  | some node =>
    cases hl : m.store.isLatched t.node t.activation
    · rw [lookup_process_parked dt hn hl,if_pos rfl]
      by_cases hs : (m.invoke node t dt).1.result.state = .executing <;> simp [keeps,outcome_of_ran dt hn hl,hs]
    · have ho : m.outcome t dt = some .absorbed := by simp [outcome,hn,hl]
      rw [process_store_of_absorbed (Or.inr hl)]
      simp [keeps,ho]

theorem settle_live {k : Instance} {t : Token} {later : List Token} (keep : Bool)
    (hc : Counted k (k.running ++ k.pending ++ t :: later)) (a : UInt64) :
    (∃ u ∈ (k.settle t keep).running ++ (k.settle t keep).pending ++ later, u.activation = a) ↔
      (∃ u ∈ k.running ++ k.pending ++ t :: later, u.activation = a) ∧
        ¬(keep = false ∧ (k.store.tokenConsumed t.activation).1 = true ∧ a = t.activation) := by
  obtain ⟨-,hr,hp,-⟩ := settle_frame k t keep
  rw [hr,hp]
  have hlast := (hc.tokenConsumed (List.mem_append_right _ List.mem_cons_self)).2
  have hcount : ∀ l : List Token, (∃ u ∈ l, u.activation = a) ↔ 0 < l.countP (·.activation == a) := by
    intro l
    rw [List.countP_pos_iff]
    simp
  rw [hcount,hcount]
  generalize hr' : (k.running ++ k.pending ++ later).countP (·.activation == a) = r
  have hk : (k.running ++ (if keep then [t] else []) ++ k.pending ++ later).countP (·.activation == a) =
      r + if keep && t.activation == a then 1 else 0 := by
    rw [← hr']
    cases keep
    · simp only [Bool.false_eq_true,if_false,List.append_nil,Bool.false_and,Nat.add_zero]
    · simp only [if_true,Bool.true_and,List.countP_append,List.countP_cons,List.countP_nil]
      omega
  have hL : (k.running ++ k.pending ++ t :: later).countP (·.activation == a) =
      r + if t.activation == a then 1 else 0 := by
    rw [← hr']
    simp only [List.countP_append,List.countP_cons]
    omega
  rw [hk,hL]
  by_cases ha : t.activation = a
  · subst ha
    rw [hL] at hlast
    cases keep
    · simp [hlast]
      omega
    · simp
  · have ha' : a ≠ t.activation := Ne.symm ha
    simp [ha,ha']

end Instance

/-- The join slots at a point of a run over the graph `g`, with `past` the deliveries so far
and `live` the live tokens. Every slot of an activation with a live token is as its deliveries
shaped it (`JoinAt`). What keeps this true from one delivery to the next: a slot exists only
while its activation has a live token; a live token has a parked state only if its node
answered that it is still executing; parked states belong to sequence numbers already handed
out; and every token waits at an entry or on a wired input of its node. -/
structure Joins (g : CompiledGraph) (past : List Delivery) (m : Instance) (live : List Token) : Prop where
  graphs : ∀ d ∈ past, d.state.graph = g
  pins : ∀ u ∈ live, ∃ node, g.node? u.node = some node ∧
    (node.classification = .entry ∨ node.connectedInputs.contains u.pin = true)
  owned : ∀ n a, m.store.slot? n a ≠ none → ∃ u ∈ live, u.activation = a
  indexed : ∀ n a, m.store.slot? n a ≠ none → n < nodeIndexEnd
  resumes : ∀ u ∈ live, lookupMember u.seq m.store.parked ≠ none →
    ∃ d ∈ past, d.token = u ∧ d.outcome = some (.ran .executing)
  parkedBelow : ∀ k, lookupMember k m.store.parked ≠ none → k.toNat < m.nextSeq.toNat
  slots : ∀ n a, (∃ u ∈ live, u.activation = a) → JoinAt g past m.store n a

namespace Joins

variable {g : CompiledGraph} {past : List Delivery} {m : Instance} {live : List Token}

theorem perm {live' : List Token} (h : Joins g past m live) (hp : live.Perm live') : Joins g past m live' where
  graphs := h.graphs
  pins u hu := h.pins u (hp.mem_iff.mpr hu)
  owned n a hs := by
    obtain ⟨u,hu,ha⟩ := h.owned n a hs
    exact ⟨u,hp.mem_iff.mp hu,ha⟩
  indexed := h.indexed
  resumes u hu := h.resumes u (hp.mem_iff.mpr hu)
  parkedBelow := h.parkedBelow
  slots n a := fun ⟨u,hu,ha⟩ => h.slots n a ⟨u,hp.mem_iff.mpr hu,ha⟩

theorem merge_ready (h : Joins g past m live) {t : Token} (ht : t ∈ live) {node : CompiledNode}
    (hn : g.node? t.node = some node) (hk : node.kind = .builtin .mergeAll) :
    lookupMember t.seq m.store.parked = none ∧ node.connectedInputs.contains t.pin = true := by
  constructor
  · -- a parked state comes from a delivery of the token that kept executing, which a merge never does
    cases hp : lookupMember t.seq m.store.parked with
    | none => rfl
    | some st =>
      obtain ⟨d,hd,hdt,ho⟩ := h.resumes t ht (by rw [hp]; exact Option.some_ne_none st)
      have hdn : d.state.graph.node? d.token.node = some node := by rw [h.graphs d hd,hdt]; exact hn
      exact absurd ho (Delivery.outcome_of_mergeAll hdn hk).2
  · obtain ⟨node',hn',hc⟩ := h.pins t ht
    rw [hn] at hn'
    cases hn'
    rcases hc with hc | hc
    · simp [CompiledNode.classification,hk,NodeKind.classification,Builtin.classification] at hc
    · exact hc

/-- Up to settling its token, a delivery keeps the join slots. It moves its own slot on with the
slot's window and leaves every other slot as it was; an activation that gains a live token has
none of either. Every token it sends arrives on a wired input, with a sequence number that no
parked state has. -/
theorem process (hw : g.WellWired) {t : Token} {later : List Token} (rest : List Token) (dt : Binary64)
    (hg : m.graph = g) (h : Joins g past m (m.running ++ m.pending ++ t :: later))
    (hled : Instance.Ledger m (m.running ++ m.pending ++ t :: later))
    (hlat : Latches past m.store (m.running ++ m.pending ++ t :: later))
    (hK : m.store.lastId.toNat +
      (Instance.sentBirths t m.nextSeq m.store.lastId (m.sentTargets t dt)).countP (·.mints) < 2 ^ 64)
    (hN : m.nextSeq.toNat + (m.sentTargets t dt).length < 2 ^ 64) :
    Joins g (past ++ [⟨m,t,rest,dt⟩]) (m.process t dt).2.2
      ((m.process t dt).2.2.running ++ (m.process t dt).2.2.pending ++ t :: later) := by
  have htL : t ∈ m.running ++ m.pending ++ t :: later := List.mem_append_right _ List.mem_cons_self
  obtain ⟨-,-,-,-,-,hnext,-⟩ := Instance.process_spec m t dt
  have hN' : (m.process t dt).2.2.nextSeq.toNat = m.nextSeq.toNat + (m.sentTargets t dt).length := by
    rw [hnext,Nat.mod_eq_of_lt hN]
  have hsent : ∀ u ∈ Instance.queued t.activation m.nextSeq m.store.lastId (m.sentTargets t dt),
      m.nextSeq.toNat ≤ u.seq.toNat := fun u hu => (Instance.seq_of_mem_queued hN hu).1
  have hpark : ∀ k, lookupMember k (m.process t dt).2.2.store.parked ≠ none →
      lookupMember k m.store.parked ≠ none ∨
        (t.seq = k ∧ (⟨m,t,rest,dt⟩ : Delivery).outcome = some (.ran .executing)) := by
    intro k hk
    by_cases hts : t.seq = k
    · subst hts
      rcases (Instance.process_parked_self m t dt).mp hk with hkeep | ⟨-,hpk⟩
      · exact Or.inr ⟨rfl,show m.outcome t dt = some (.ran .executing) by simpa [Instance.keeps] using hkeep⟩
      · exact Or.inl hpk
    · rw [Instance.process_parked_of_ne m t dt hts] at hk
      exact Or.inl hk
  -- an activation that gains a live token is fresh: no delivery so far carried it
  have hnew : ∀ a, (∃ u ∈ (m.process t dt).2.2.running ++ (m.process t dt).2.2.pending ++ t :: later,
      u.activation = a) → ¬(∃ u ∈ m.running ++ m.pending ++ t :: later, u.activation = a) →
      ∀ d ∈ past, d.token.activation ≠ a := by
    rintro a ⟨u,hu,hua⟩ hno d hd hda
    have hdr : Drained a m.store.lastId (m.running ++ m.pending ++ t :: later) :=
      ⟨hda ▸ hlat.handed d hd,fun v hv hva => hno ⟨v,hv,hva⟩⟩
    obtain ⟨hS,-⟩ := Drained.deliver dt hdr hK
    rcases Instance.mem_process_live hu with hu | hu
    · exact hno ⟨u,hu,hua⟩
    · rw [← Instance.map_sentBirths] at hu
      obtain ⟨b,hb,rfl⟩ := List.mem_map.mp hu
      exact hS b hb hua
  refine ⟨?_,?_,?_,?_,?_,?_,?_⟩
  · intro d hd
    rcases List.mem_append.mp hd with hd | hd
    · exact h.graphs d hd
    · rw [List.mem_singleton.mp hd]
      exact hg
  · intro u hu
    rcases Instance.mem_process_live hu with hu | hu
    · exact h.pins u hu
    · obtain ⟨τ,hτ,hun,hup⟩ := Instance.mem_queued hu
      obtain ⟨node,hnode,hτ'⟩ := Instance.mem_sentTargets hτ
      obtain ⟨m',hm',hc⟩ := hw.targets t.node node (hg ▸ hnode) τ hτ'
      exact ⟨m',hun ▸ hm',Or.inr (hup ▸ hc)⟩
  · intro n a hs
    by_cases hown : t.node = n ∧ t.activation = a
    · exact ⟨t,Instance.mem_process_live_of_mem htL,hown.2⟩
    · rw [Instance.process_slot?_of_ne m t dt hown] at hs
      obtain ⟨u,hu,ha⟩ := h.owned n a hs
      exact ⟨u,Instance.mem_process_live_of_mem hu,ha⟩
  · -- a slot the delivery makes is at its token's node, which the graph holds
    intro n a hs
    by_cases hown : t.node = n ∧ t.activation = a
    · obtain ⟨rfl,rfl⟩ := hown
      cases hn : m.graph.node? t.node with
      | none => exact h.indexed _ _ (by rwa [Instance.process_store_of_absorbed (Or.inl hn)] at hs)
      | some node => exact CompiledGraph.lt_of_node? hn
    · rw [Instance.process_slot?_of_ne m t dt hown] at hs
      exact h.indexed n a hs
  · intro u hu hpk
    rcases hpark u.seq hpk with hold | ⟨hts,hout⟩
    · rcases Instance.mem_process_live hu with hu | hu
      · obtain ⟨d,hd,hdu,ho⟩ := h.resumes u hu hold
        exact ⟨d,List.mem_append_left _ hd,hdu,ho⟩
      · have := h.parkedBelow u.seq hold
        have := hsent u hu
        omega
    · rcases Instance.mem_process_live hu with hu | hu
      · have hut : t = u := List.inj_on_of_nodup_map hled.distinct htL hu hts
        exact ⟨⟨m,t,rest,dt⟩,List.mem_append_right _ List.mem_cons_self,hut,hout⟩
      · have := hled.fresh t htL
        have := hsent u hu
        rw [hts] at *
        omega
  · intro k hk
    rw [hN']
    rcases hpark k hk with hold | ⟨hts,-⟩
    · have := h.parkedBelow k hold
      omega
    · have := hled.fresh t htL
      rw [← hts]
      omega
  · intro n a ha
    by_cases hold : ∃ u ∈ m.running ++ m.pending ++ t :: later, u.activation = a
    · have j := h.slots n a hold
      by_cases hown : t.node = n ∧ t.activation = a
      · obtain ⟨rfl,rfl⟩ := hown
        cases hn : m.graph.node? t.node with
        | none => exact j.quiet (Or.inl hn) hg h.graphs
        | some node =>
          cases hl : m.store.isLatched t.node t.activation
          · exact j.ran hn hl hg (fun hk => h.merge_ready htL (hg ▸ hn) hk)
          · exact j.quiet (Or.inr hl) hg h.graphs
      · have hd : (⟨m,t,rest,dt⟩ : Delivery).hits n a = false := by simpa [Delivery.hits] using hown
        exact (j.skip hd).of_slot?_eq (Instance.process_slot?_of_ne m t dt hown)
    · have hp := hnew a ha hold
      have hta : t.activation ≠ a := fun e => hold ⟨t,htL,e⟩
      have hs0 : m.store.slot? n a = none := by
        cases hs : m.store.slot? n a with
        | none => rfl
        | some sl => exact absurd (h.owned n a (by rw [hs]; exact Option.some_ne_none sl)) hold
      refine JoinAt.of_none ?_ ?_
      · rw [Instance.process_slot?_of_ne m t dt (fun e => hta e.2)]
        exact hs0
      · intro d hd
        rcases List.mem_append.mp hd with hd | hd
        · simp [Delivery.hits,hp d hd]
        · rw [List.mem_singleton.mp hd]
          simp [Delivery.hits,hta]

/-- Settling keeps the join slots: the slots it releases belong to an activation left without
a live token, and every other slot stays as it was. -/
theorem settle {k : Instance} {t : Token} {later : List Token} (keep : Bool)
    (h : Joins g past k (k.running ++ k.pending ++ t :: later))
    (hc : Instance.Counted k (k.running ++ k.pending ++ t :: later)) :
    Joins g past (k.settle t keep) ((k.settle t keep).running ++ (k.settle t keep).pending ++ later) := by
  obtain ⟨-,hr,hp,hn,-⟩ := Instance.settle_frame k t keep
  have hsub : ∀ u ∈ (k.settle t keep).running ++ (k.settle t keep).pending ++ later,
      u ∈ k.running ++ k.pending ++ t :: later := by
    intro u hu
    rw [hr,hp] at hu
    cases keep <;> simp only [if_true,Bool.false_eq_true,if_false,List.mem_append,List.mem_cons,
      List.not_mem_nil,or_false] at hu ⊢ <;> tauto
  -- what settling releases is the slots of an activation left without a live token
  have hrel : ∀ a, (∃ u ∈ (k.settle t keep).running ++ (k.settle t keep).pending ++ later, u.activation = a) →
      ¬(!keep && (k.store.tokenConsumed t.activation).1 && a == t.activation) = true := by
    intro a ha hc'
    apply ((Instance.settle_live keep hc a).mp ha).2
    simp only [Bool.and_eq_true,Bool.not_eq_true',beq_iff_eq] at hc'
    exact ⟨hc'.1.1,hc'.1.2,hc'.2⟩
  refine ⟨h.graphs,fun u hu => h.pins u (hsub u hu),?_,?_,?_,?_,?_⟩
  · intro n a hs
    rw [Instance.settle_slot?] at hs
    split at hs
    · exact absurd rfl hs
    · rename_i hno
      have hidx := h.indexed n a hs
      refine (Instance.settle_live keep hc a).mpr ⟨h.owned n a hs,?_⟩
      rintro ⟨hk,hl,ha⟩
      apply hno
      simp [hk,hl,ha,Nat.le_of_lt hidx]
  · intro n a hs
    rw [Instance.settle_slot?] at hs
    split at hs
    · exact absurd rfl hs
    · exact h.indexed n a hs
  · intro u hu hpk
    rw [Instance.settle_parked] at hpk
    exact h.resumes u (hsub u hu) hpk
  · intro k' hk'
    rw [Instance.settle_parked] at hk'
    rw [hn]
    exact h.parkedBelow k' hk'
  · intro n a ha
    refine (h.slots n a ((Instance.settle_live keep hc a).mp ha).1).of_slot?_eq ?_
    rw [Instance.settle_slot?,if_neg fun hr => hrel a ha (Bool.and_eq_true_iff.mp hr).1]

end Joins

end Tickflow
