import Tickflow.Proofs.Store
import Tickflow.Engine.Instance
/-! # What one delivery does to the tokens

A delivery keeps the graph, tick, status, flag and variables. Its token goes back among the
running ones while its node executes and is consumed otherwise; a node that fires sends one
token per target, numbered on and minting across back edges, and the counts follow.
-/
namespace Tickflow

theorem CompiledGraph.lt_of_node? {g : CompiledGraph} {i : Nat} {n : CompiledNode} (h : g.node? i = some n) :
    i < nodeIndexEnd := by
  obtain ⟨hi,-⟩ := Array.getElem?_eq_some_iff.mp h
  exact Nat.lt_of_lt_of_le hi g.size_le

namespace Instance

/-- What no delivery changes: the graph, the tick number, the status, the cancellation flag
and the host's variables. -/
structure DeliveryFrame (i j : Instance) : Prop where
  graph : j.graph = i.graph
  tick : j.tick = i.tick
  status : j.status = i.status
  cancelled : j.cancelled = i.cancelled
  hostVariables : j.hostVariables = i.hostVariables

theorem DeliveryFrame.refl (i : Instance) : DeliveryFrame i i := ⟨rfl,rfl,rfl,rfl,rfl⟩

theorem DeliveryFrame.trans {i j k : Instance} (h₁ : DeliveryFrame i j) (h₂ : DeliveryFrame j k) :
    DeliveryFrame i k :=
  ⟨h₂.graph.trans h₁.graph,h₂.tick.trans h₁.tick,h₂.status.trans h₁.status,
    h₂.cancelled.trans h₁.cancelled,h₂.hostVariables.trans h₁.hostVariables⟩

theorem foldl_emit {α : Type} (i : Instance) (l : List α) (f : α → EngineEvent) :
    l.foldl (fun i e => i.emit (f e)) i = { i with events := i.events ++ (l.map f).toArray } := by
  induction l generalizing i with
  | nil => simp
  | cons e rest ih =>
    rw [List.foldl_cons,ih]
    simp [emit]

theorem foldl_only_reports {α : Type} (F : Instance → α → Instance)
    (hF : ∀ k a, F k a = { k with stalled := (F k a).stalled,events := (F k a).events })
    (l : List α) (k : Instance) :
    l.foldl F k = { k with stalled := (l.foldl F k).stalled,events := (l.foldl F k).events } := by
  induction l generalizing k with
  | nil => rfl
  | cons a rest ih =>
    rw [List.foldl_cons,ih (F k a),hF k a]

theorem releaseActivation_eq (i : Instance) (act : UInt64) :
    ∃ stalled events,
      i.releaseActivation act = { i with store := (i.store.release act).2,stalled,events } := by
  unfold releaseActivation
  rcases h : i.store.release act with ⟨slots,store⟩
  refine ⟨_,_,foldl_only_reports _ ?_ slots { i with store }⟩
  intro k e
  obtain ⟨idx,slot⟩ := e
  by_cases hw : slot.isWaiting <;> simp [hw,emit]

theorem releaseActivation_frame (i : Instance) (act : UInt64) :
    DeliveryFrame i (i.releaseActivation act) ∧ (i.releaseActivation act).running = i.running ∧
      (i.releaseActivation act).pending = i.pending ∧ (i.releaseActivation act).nextSeq = i.nextSeq ∧
      (i.releaseActivation act).store = (i.store.release act).2 := by
  obtain ⟨st,ev,h⟩ := releaseActivation_eq i act
  rw [h]
  exact ⟨⟨rfl,rfl,rfl,rfl,rfl⟩,rfl,rfl,rfl,rfl⟩

theorem consume_frame (i : Instance) (act : UInt64) :
    DeliveryFrame i (i.consume act) ∧ (i.consume act).running = i.running ∧
      (i.consume act).pending = i.pending ∧ (i.consume act).nextSeq = i.nextSeq ∧
      (i.consume act).store.live = (i.store.tokenConsumed act).2.live ∧
      (i.consume act).store.lastId = i.store.lastId := by
  unfold consume
  split
  · rename_i last store hc
    have hs : store = (i.store.tokenConsumed act).2 := by rw [hc]
    subst hs
    dsimp only
    split
    · obtain ⟨hf,hr,hp,hn,hst⟩ := releaseActivation_frame { i with store := (i.store.tokenConsumed act).2 } act
      exact ⟨⟨hf.graph,hf.tick,hf.status,hf.cancelled,hf.hostVariables⟩,hr,hp,hn,by rw [hst]; rfl,
        by rw [hst]; simp⟩
    · exact ⟨⟨rfl,rfl,rfl,rfl,rfl⟩,rfl,rfl,rfl,rfl,by simp⟩

/-- The tokens that sending along `targets` queues, when the next sequence number is `seq` and
the last activation number is `last`: one per target in order, with consecutive sequence
numbers, a back edge's token starting the next activation. -/
def queued (act : UInt64) : UInt64 → UInt64 → List FlowTarget → List Token
  | _,_,[] => []
  | seq,last,target :: rest =>
    if target.backEdge then ⟨seq,target.node,target.pin,last + 1⟩ :: queued act (seq + 1) (last + 1) rest
    else ⟨seq,target.node,target.pin,act⟩ :: queued act (seq + 1) last rest

theorem send_eq (i : Instance) (act : UInt64) (target : FlowTarget) :
    i.send act target =
      { i with
        pending := i.pending ++ [⟨i.nextSeq,target.node,target.pin,
          if target.backEdge then i.store.lastId + 1 else act⟩]
        nextSeq := i.nextSeq + 1
        store := { i.store with lastId := if target.backEdge then i.store.lastId + 1 else i.store.lastId
          }.tokenCreated (if target.backEdge then i.store.lastId + 1 else act) } := by
  unfold send enqueue
  by_cases h : target.backEdge <;> simp [h,ActivationStore.mint]

theorem foldl_send (i : Instance) (act : UInt64) (targets : List FlowTarget) :
    let j := targets.foldl (fun i target => i.send act target) i
    DeliveryFrame i j ∧ j.running = i.running ∧
      j.pending = i.pending ++ queued act i.nextSeq i.store.lastId targets ∧
      j.nextSeq.toNat = (i.nextSeq.toNat + targets.length) % 2 ^ 64 ∧
      j.store.lastId.toNat = (i.store.lastId.toNat + targets.countP (·.backEdge)) % 2 ^ 64 ∧
      (∀ b, j.store.liveTokens b =
        i.store.liveTokens b + (queued act i.nextSeq i.store.lastId targets).countP (·.activation == b)) ∧
      (i.store.CountsPositive → j.store.CountsPositive) ∧
      j.store.slots = i.store.slots ∧ j.store.parked = i.store.parked := by
  induction targets generalizing i with
  | nil => simp [queued,DeliveryFrame.refl]
  | cons target rest ih =>
    obtain ⟨hf,hr,hp,hn,hl,hc,hpos,hs,hk⟩ := ih (i.send act target)
    simp only [List.foldl_cons]
    rw [send_eq] at hf hr hp hn hl hc hpos hs hk ⊢
    refine ⟨⟨hf.graph,hf.tick,hf.status,hf.cancelled,hf.hostVariables⟩,hr,?_,?_,?_,?_,?_,hs,hk⟩
    · rw [hp]
      by_cases hb : target.backEdge <;> simp [queued,hb]
    · rw [hn]
      simp only [UInt64.toNat_add,UInt64.reduceToNat,List.length_cons]
      omega
    · rw [hl]
      by_cases hb : target.backEdge
      · simp only [hb,if_true,UInt64.toNat_add,UInt64.reduceToNat,List.countP_cons,
          ActivationStore.tokenCreated_lastId]
        simp
        omega
      · simp [hb]
    · intro b
      rw [hc b,ActivationStore.liveTokens_tokenCreated]
      by_cases hb : target.backEdge <;> by_cases e : i.store.lastId + 1 = b <;> by_cases e' : act = b <;>
        simp [queued,hb,e,e',ActivationStore.liveTokens] <;> omega
    · intro h
      exact hpos (ActivationStore.CountsPositive.tokenCreated h _)

@[simp] theorem writeBack_live (store : ActivationStore) (t : Token) (state : ExecState)
    (after : ActivationState) (tick : UInt64) : (writeBack store t state after tick).live = store.live := by
  cases state <;> simp [writeBack]

@[simp] theorem writeBack_lastId (store : ActivationStore) (t : Token) (state : ExecState)
    (after : ActivationState) (tick : UInt64) :
    (writeBack store t state after tick).lastId = store.lastId := by
  cases state <;> simp [writeBack]

theorem invoke_frame (i : Instance) (n : CompiledNode) (t : Token) (dt : Binary64) :
    let j := (i.invoke n t dt).2
    DeliveryFrame i j ∧ j.running = i.running ∧ j.pending = i.pending ∧ j.nextSeq = i.nextSeq ∧
      j.store.live = i.store.live ∧ j.store.lastId = i.store.lastId := by
  dsimp only [invoke]
  rw [foldl_emit]
  refine ⟨⟨rfl,rfl,rfl,rfl,rfl⟩,rfl,rfl,rfl,?_,?_⟩ <;> split <;> simp

theorem complete_eq (i : Instance) (n : CompiledNode) (t : Token) (out : Outcome) :
    let targets :=
      if out.result.firesOutputs then firedTargets n (checkedOutputs n out.result.outputs) else []
    ∃ k : Instance, DeliveryFrame i k ∧ k.running = i.running ∧ k.pending = i.pending ∧
      k.nextSeq = i.nextSeq ∧ k.store = writeBack i.store t out.result.state out.state i.tick ∧
      i.complete n t out = (targets.length,targets.foldl (fun i target => i.send t.activation target) k) := by
  unfold complete
  by_cases hf : out.result.firesOutputs
  · simp only [hf,if_true]
    refine ⟨_,?_,?_,?_,?_,?_,rfl⟩
    · exact ⟨rfl,rfl,rfl,rfl,rfl⟩
    all_goals rfl
  · simp only [hf,Bool.false_eq_true,if_false]
    refine ⟨_,?_,?_,?_,?_,?_,rfl⟩
    · exact ⟨rfl,rfl,rfl,rfl,rfl⟩
    all_goals rfl

/-- How delivering `t` ends: absorbed by a latched slot, or in the state its node's update
answers; `none` when the graph has no node at the token's index. -/
def outcome (i : Instance) (t : Token) (dt : Binary64) : Option TraceOutcome :=
  match i.graph.node? t.node with
  | none => none
  | some n =>
    if i.store.isLatched t.node t.activation then some .absorbed
    else some (.ran (i.invoke n t dt).1.result.state)

/-- Whether delivering `t` keeps it for the next tick: its node answers that it is still
executing. -/
def keeps (i : Instance) (t : Token) (dt : Binary64) : Bool := i.outcome t dt == some (.ran .executing)

/-- The targets a delivery sends along: those of the fired ordinals its node declares, when the
node is done or latched; none when the token is absorbed or its node is missing. -/
def sentTargets (i : Instance) (t : Token) (dt : Binary64) : List FlowTarget :=
  match i.graph.node? t.node with
  | none => []
  | some n =>
    if i.store.isLatched t.node t.activation then []
    else
      let r := (i.invoke n t dt).1.result
      if r.firesOutputs then firedTargets n (checkedOutputs n r.outputs) else []

theorem deliver_eq (i : Instance) (t : Token) (dt : Binary64) :
    i.deliver t dt = ((i.process t dt).1,(i.process t dt).2.2.settle t (i.process t dt).2.1) := rfl

theorem process_quiet (i j : Instance) (t : Token) (hf : DeliveryFrame i j) (hr : j.running = i.running)
    (hp : j.pending = i.pending) (hn : j.nextSeq = i.nextSeq) (hs : j.store = i.store) :
    DeliveryFrame i j ∧ j.running = i.running ∧ j.pending = i.pending ++ queued t.activation i.nextSeq i.store.lastId [] ∧
      j.nextSeq.toNat = (i.nextSeq.toNat + ([] : List FlowTarget).length) % 2 ^ 64 ∧
      j.store.lastId.toNat = (i.store.lastId.toNat + ([] : List FlowTarget).countP (·.backEdge)) % 2 ^ 64 ∧
      (∀ b, j.store.liveTokens b = i.store.liveTokens b +
        (queued t.activation i.nextSeq i.store.lastId []).countP (·.activation == b)) ∧
      (i.store.CountsPositive → j.store.CountsPositive) := by
  refine ⟨hf,hr,by simp [hp,queued],by simp [hn],by simp [hs],?_,?_⟩
  · intro b
    simp [hs,queued]
  · intro hpos
    rw [hs]
    exact hpos

/-- Up to settling its token, a delivery sends the `queued` tokens along its sent targets,
counts them, and moves the numbering on by one per token and one per back edge; it says
whether its token keeps running. -/
theorem process_spec (i : Instance) (t : Token) (dt : Binary64) :
    let p := i.process t dt
    let sent := i.sentTargets t dt
    let fresh := queued t.activation i.nextSeq i.store.lastId sent
    p.1 = sent.length ∧ p.2.1 = i.keeps t dt ∧ DeliveryFrame i p.2.2 ∧ p.2.2.running = i.running ∧
      p.2.2.pending = i.pending ++ fresh ∧
      p.2.2.nextSeq.toNat = (i.nextSeq.toNat + sent.length) % 2 ^ 64 ∧
      p.2.2.store.lastId.toNat = (i.store.lastId.toNat + sent.countP (·.backEdge)) % 2 ^ 64 ∧
      (∀ b, p.2.2.store.liveTokens b = i.store.liveTokens b + fresh.countP (·.activation == b)) ∧
      (i.store.CountsPositive → p.2.2.store.CountsPositive) := by
  unfold process
  split
  · rename_i hn
    have hs : i.sentTargets t dt = [] := by simp [sentTargets,hn]
    have hk : i.keeps t dt = false := by simp [keeps,outcome,hn]
    rw [hs,hk]
    exact ⟨rfl,rfl,process_quiet i i t (DeliveryFrame.refl i) rfl rfl rfl rfl⟩
  · rename_i n hn
    split
    · rename_i hlat
      have hs : i.sentTargets t dt = [] := by simp [sentTargets,hn,hlat]
      have hk : i.keeps t dt = false := by simp [keeps,outcome,hn,hlat]
      rw [hs,hk]
      exact ⟨rfl,rfl,process_quiet i _ t ⟨rfl,rfl,rfl,rfl,rfl⟩ rfl rfl rfl rfl⟩
    · rename_i hlat
      rcases h1 : i.invoke n t dt with ⟨out,i1⟩
      have hs : i.sentTargets t dt =
          if out.result.firesOutputs then firedTargets n (checkedOutputs n out.result.outputs) else [] := by
        simp [sentTargets,hn,hlat,h1]
      have hk : i.keeps t dt = decide (out.result.state = .executing) := by
        by_cases he : out.result.state = .executing <;> simp [keeps,outcome,hn,hlat,h1,he]
      obtain ⟨hf1,hr1,hp1,hn1,hl1,hid1⟩ := invoke_frame i n t dt
      rw [h1] at hf1 hr1 hp1 hn1 hl1 hid1
      obtain ⟨k,hfk,hrk,hpk,hnk,hsk,hc⟩ := complete_eq i1 n t out
      dsimp only at hc ⊢
      rw [hc,hs,hk]
      generalize (if out.result.firesOutputs then firedTargets n (checkedOutputs n out.result.outputs)
        else []) = targets
      have hkn : k.nextSeq = i.nextSeq := hnk.trans hn1
      have hkl : k.store.lastId = i.store.lastId := by rw [hsk,writeBack_lastId,hid1]
      have hkv : k.store.live = i.store.live := by rw [hsk,writeBack_live,hl1]
      obtain ⟨hf2,hr2,hp2,hn2,hl2,hc2,hpos2,-,-⟩ := foldl_send k t.activation targets
      rw [hkn,hkl] at hp2 hc2
      rw [hkn] at hn2
      rw [hkl] at hl2
      refine ⟨rfl,rfl,(hf1.trans hfk).trans hf2,by rw [hr2,hrk,hr1],by rw [hp2,hpk,hp1],hn2,hl2,?_,?_⟩
      · intro b
        rw [hc2,ActivationStore.liveTokens_of_live_eq hkv b]
      · intro hpos
        exact hpos2 (hpos.of_live_eq hkv)

theorem settle_frame (i : Instance) (t : Token) (keep : Bool) :
    let j := i.settle t keep
    DeliveryFrame i j ∧ j.running = i.running ++ (if keep then [t] else []) ∧ j.pending = i.pending ∧
      j.nextSeq = i.nextSeq ∧ j.store.lastId = i.store.lastId ∧
      (∀ b, j.store.liveTokens b = i.store.liveTokens b - if !keep && t.activation == b then 1 else 0) ∧
      (i.store.CountsPositive → j.store.CountsPositive) := by
  unfold settle
  cases keep
  · rw [if_neg Bool.false_ne_true]
    obtain ⟨hf,hr,hp,hn,hl,hid⟩ := consume_frame i t.activation
    refine ⟨hf,by simp [hr],hp,hn,hid,?_,?_⟩
    · intro b
      rw [ActivationStore.liveTokens_of_live_eq hl,ActivationStore.liveTokens_tokenConsumed]
      simp [Bool.beq_eq_decide_eq]
    · intro hpos
      exact (hpos.tokenConsumed t.activation).of_live_eq hl
  · rw [if_pos rfl]
    refine ⟨⟨rfl,rfl,rfl,rfl,rfl⟩,rfl,rfl,rfl,rfl,?_,id⟩
    intro b
    simp

/-- Everything a delivery does to the tokens: it sends the `queued` tokens along its sent
targets, keeps its own token among the running ones exactly when its node keeps executing and
consumes it otherwise, and moves the counts and the numbering to match. -/
theorem deliver_spec (i : Instance) (t : Token) (dt : Binary64) :
    let j := (i.deliver t dt).2
    let sent := i.sentTargets t dt
    let fresh := queued t.activation i.nextSeq i.store.lastId sent
    (i.deliver t dt).1 = sent.length ∧ DeliveryFrame i j ∧
      j.running = i.running ++ (if i.keeps t dt then [t] else []) ∧
      j.pending = i.pending ++ fresh ∧
      j.nextSeq.toNat = (i.nextSeq.toNat + sent.length) % 2 ^ 64 ∧
      j.store.lastId.toNat = (i.store.lastId.toNat + sent.countP (·.backEdge)) % 2 ^ 64 ∧
      (∀ b, j.store.liveTokens b = i.store.liveTokens b + fresh.countP (·.activation == b) -
        if !i.keeps t dt && t.activation == b then 1 else 0) ∧
      (i.store.CountsPositive → j.store.CountsPositive) := by
  obtain ⟨hsent,hkeep,hf,hr,hp,hn,hl,hc,hpos⟩ := process_spec i t dt
  obtain ⟨hf2,hr2,hp2,hn2,hl2,hc2,hpos2⟩ := settle_frame (i.process t dt).2.2 t (i.process t dt).2.1
  rw [deliver_eq]
  refine ⟨hsent,hf.trans hf2,by rw [hr2,hr,hkeep],by rw [hp2,hp],by rw [hn2,hn],by rw [hl2,hl],?_,?_⟩
  · intro b
    rw [hc2,hc,hkeep]
  · intro h
    exact hpos2 (hpos h)

end Instance

end Tickflow
