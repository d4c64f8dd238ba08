import Tickflow.Proofs.Run
import Tickflow.Proofs.ForwardPaths
/-! # Where tokens come from

A trigger creates the first token of a fresh activation, and a delivery one token per target it
fires, inheriting the activation or minting one across a back edge. `births` records what each
host operation creates and `Lineage` carries that record along a run.
-/
namespace Tickflow

/-- Why a token was created. -/
inductive Cause where
  /-- A trigger started its activation. -/
  | trigger
  /-- The delivery of `parent` sent it along `target`. -/
  | sent (parent : Token) (target : FlowTarget)
  deriving DecidableEq

/-- A token with the cause of its creation. -/
structure Birth where
  token : Token
  cause : Cause
  deriving DecidableEq

/-- Whether a birth minted its token's activation: a trigger does, and so does a send across a
back edge. -/
def Birth.mints : Birth → Bool
  | ⟨_,.trigger⟩ => true
  | ⟨_,.sent _ target⟩ => target.backEdge

@[simp] theorem Birth.mints_trigger (u : Token) : (⟨u,.trigger⟩ : Birth).mints = true := rfl

@[simp] theorem Birth.mints_sent (u parent : Token) (target : FlowTarget) :
    (⟨u,.sent parent target⟩ : Birth).mints = target.backEdge := rfl

namespace Instance

/-- The births of the tokens sent along `targets` by the delivery of `parent`, when the next
sequence number is `seq` and the last activation number is `last`. -/
def sentBirths (parent : Token) : UInt64 → UInt64 → List FlowTarget → List Birth
  | _,_,[] => []
  | seq,last,target :: rest =>
    if target.backEdge then
      ⟨⟨seq,target.node,target.pin,last + 1⟩,.sent parent target⟩ :: sentBirths parent (seq + 1) (last + 1) rest
    else ⟨⟨seq,target.node,target.pin,parent.activation⟩,.sent parent target⟩ :: sentBirths parent (seq + 1) last rest

def keptOf (m : Instance) : List Token → Binary64 → List Token
  | [],_ => []
  | t :: rest,dt => (if m.keeps t dt then [t] else []) ++ (m.deliver t dt).2.keptOf rest dt

def deliveryBirths (m : Instance) : List Token → Binary64 → List Birth
  | [],_ => []
  | t :: rest,dt => sentBirths t m.nextSeq m.store.lastId (m.sentTargets t dt) ++ (m.deliver t dt).2.deliveryBirths rest dt

/-- What a host operation creates, in order, each token with its cause: a tick of a running
instance that was not cancelled creates what its deliveries send, and every other operation
the tokens it queues, each the first of an activation it triggered. -/
def births (i : Instance) : HostOp → List Birth
  | .tick dt => if i.cancelled = false ∧ i.status = .running then i.tickStart.deliveryBirths i.tokens dt else []
  | op => ((i.perform op).pending.drop i.pending.length).map (⟨·,.trigger⟩)

end Instance

/-- The instances a host reaches from a fresh one, with every token created on the way and its
cause, in creation order. -/
inductive Lineage : Instance → List Birth → Prop
  | create (g : CompiledGraph) (recordTrace : Bool) (invocations : List (String × Nat)) :
      Lineage (Instance.create g recordTrace invocations) []
  | perform {i : Instance} {hist : List Birth} (op : HostOp) :
      Lineage i hist → Lineage (i.perform op) (hist ++ i.births op)

namespace Instance

theorem map_sentBirths (parent : Token) (seq last : UInt64) (targets : List FlowTarget) :
    (sentBirths parent seq last targets).map (·.token) = queued parent.activation seq last targets := by
  induction targets generalizing seq last with
  | nil => rfl
  | cons target rest ih =>
    by_cases hb : target.backEdge
    · simp [sentBirths,queued,hb,ih]
    · simp [sentBirths,queued,hb,ih]

theorem length_sentBirths (parent : Token) (seq last : UInt64) (targets : List FlowTarget) :
    (sentBirths parent seq last targets).length = targets.length := by
  have h := congrArg List.length (map_sentBirths parent seq last targets)
  rw [List.length_map,length_queued] at h
  exact h

theorem deliverAll_live (m : Instance) (batch : List Token) (dt : Binary64) :
    let j := (m.deliverAll batch dt).2
    j.running = m.running ++ m.keptOf batch dt ∧
      j.pending = m.pending ++ (m.deliveryBirths batch dt).map (·.token) ∧
      (m.deliverAll batch dt).1 = (m.deliveryBirths batch dt).length := by
  induction batch generalizing m with
  | nil => simp [deliverAll_nil,keptOf,deliveryBirths]
  | cons t rest ih =>
    obtain ⟨hn,-,hr,hp,-⟩ := deliver_spec m t dt
    obtain ⟨hr2,hp2,hn2⟩ := ih (m.deliver t dt).2
    rw [deliverAll_cons]
    refine ⟨?_,?_,?_⟩
    · rw [hr2,hr,keptOf,List.append_assoc]
    · rw [hp2,hp,deliveryBirths,List.map_append,map_sentBirths,List.append_assoc]
    · rw [hn2,hn,deliveryBirths,List.length_append,length_sentBirths]

theorem mem_sentBirths {parent : Token} {seq last : UInt64} {targets : List FlowTarget} {b : Birth}
    (h : b ∈ sentBirths parent seq last targets) :
    ∃ τ ∈ targets, b.cause = .sent parent τ ∧ b.token.node = τ.node ∧ b.mints = τ.backEdge ∧
      (τ.backEdge = false → b.token.activation = parent.activation) := by
  induction targets generalizing seq last with
  | nil => exact absurd h List.not_mem_nil
  | cons τ rest ih =>
    unfold sentBirths at h
    by_cases hb : τ.backEdge
    · rw [if_pos hb] at h
      rcases List.mem_cons.mp h with rfl | h
      · exact ⟨τ,List.mem_cons_self,rfl,rfl,rfl,fun hf => absurd hb (by rw [hf]; decide)⟩
      · obtain ⟨σ,hσ,hrest⟩ := ih h
        exact ⟨σ,List.mem_cons_of_mem τ hσ,hrest⟩
    · rw [if_neg hb] at h
      rcases List.mem_cons.mp h with rfl | h
      · exact ⟨τ,List.mem_cons_self,rfl,rfl,rfl,fun _ => rfl⟩
      · obtain ⟨σ,hσ,hrest⟩ := ih h
        exact ⟨σ,List.mem_cons_of_mem τ hσ,hrest⟩

theorem countP_mints_sentBirths (parent : Token) (seq last : UInt64) (targets : List FlowTarget) :
    (sentBirths parent seq last targets).countP (·.mints) = targets.countP (·.backEdge) := by
  induction targets generalizing seq last with
  | nil => rfl
  | cons τ rest ih =>
    by_cases hb : τ.backEdge
    · simp [sentBirths,hb,ih]
    · simp [sentBirths,hb,ih]

theorem map_mod_range' {M s s' : Nat} (h : s % M = s' % M) (n : Nat) :
    (List.range' s n).map (· % M) = (List.range' s' n).map (· % M) := by
  induction n generalizing s s' with
  | zero => rfl
  | succ n ih =>
    simp only [List.range'_succ,List.map_cons,h,List.cons.injEq,true_and]
    exact ih (by rw [Nat.add_mod,h,← Nat.add_mod])

theorem sentBirths_mints (parent : Token) (seq last : UInt64) (targets : List FlowTarget) :
    ((sentBirths parent seq last targets).filter (·.mints)).map (·.token.activation.toNat) =
      (List.range' (last.toNat + 1) (targets.countP (·.backEdge))).map (· % 2 ^ 64) := by
  induction targets generalizing seq last with
  | nil => rfl
  | cons τ rest ih =>
    by_cases hb : τ.backEdge
    · have hlast : (last + 1).toNat = (last.toNat + 1) % 2 ^ 64 := by simp [UInt64.toNat_add]
      have hshift := map_mod_range' (Nat.mod_add_mod (last.toNat + 1) (2 ^ 64) 1) (rest.countP (·.backEdge))
      simp only [sentBirths,hb,if_true,List.filter_cons,Birth.mints_sent,List.map_cons,ih,hlast,
        List.countP_cons,List.range'_succ]
      rw [hshift]
    · simp [sentBirths,hb,ih]

end Instance

@[simp] theorem countP_mints_triggers (fresh : List Token) :
    (fresh.map (⟨·,.trigger⟩ : Token → Birth)).countP (·.mints) = fresh.length := by
  simp

theorem triggers_mints {fresh : List Token} {last : Nat}
    (hacts : fresh.map (·.activation.toNat) = (List.range' (last + 1) fresh.length).map (· % 2 ^ 64)) :
    ((fresh.map (⟨·,.trigger⟩ : Token → Birth)).filter (·.mints)).map (·.token.activation.toNat) =
      (List.range' (last + 1) ((fresh.map (⟨·,.trigger⟩ : Token → Birth)).countP (·.mints))).map (· % 2 ^ 64) := by
  rw [countP_mints_triggers,List.filter_eq_self.mpr (fun b hb => by obtain ⟨u,-,rfl⟩ := List.mem_map.mp hb; rfl),
    List.map_map]
  exact hacts

/-- The paths a token may still take: those from its node, when it carries activation `a`. -/
def pathsAhead (P : Nat → Nat) (a : UInt64) (u : Token) : Nat := if u.activation == a then P u.node else 0

/-- The paths open to an activation's origin: those from its node, for a birth that minted `a`. -/
def originPaths (P : Nat → Nat) (a : UInt64) (b : Birth) : Nat :=
  if b.mints && b.token.activation == a then P b.token.node else 0

namespace Instance

theorem sentBirths_paths (P : Nat → Nat) (a : UInt64) (parent : Token) (seq last : UInt64)
    (targets : List FlowTarget) :
    ((sentBirths parent seq last targets).map (pathsAhead P a ·.token)).sum =
      ((sentBirths parent seq last targets).map (originPaths P a)).sum +
        if parent.activation == a then ((targets.filter (!·.backEdge)).map (P ·.node)).sum else 0 := by
  induction targets generalizing seq last with
  | nil => simp [sentBirths]
  | cons τ rest ih =>
    by_cases hb : τ.backEdge
    · -- a loop closes: the child starts its own activation and is its origin
      have horig : originPaths P a ⟨⟨seq,τ.node,τ.pin,last + 1⟩,.sent parent τ⟩ =
          pathsAhead P a ⟨seq,τ.node,τ.pin,last + 1⟩ := by
        simp [originPaths,pathsAhead,hb]
      rw [sentBirths,if_pos hb]
      simp only [List.map_cons,List.sum_cons,List.filter_cons,hb,Bool.not_true,Bool.false_eq_true,if_false]
      rw [ih,horig]
      omega
    · -- a forward child carries the parent's activation and is no origin
      have hb' : τ.backEdge = false := by simpa using hb
      have horig : originPaths P a ⟨⟨seq,τ.node,τ.pin,parent.activation⟩,.sent parent τ⟩ = 0 := by
        simp [originPaths,hb']
      rw [sentBirths,if_neg hb]
      simp only [List.map_cons,List.sum_cons,List.filter_cons,hb',Bool.not_false,if_true]
      rw [ih,horig]
      simp only [pathsAhead]
      split <;> omega

theorem flatMap_getD_cons {α : Type} (x : List α) (l : List (List α)) :
    ∀ os : List Nat, (∀ o ∈ os, 0 < o) →
      os.flatMap (fun o => (x :: l).getD o []) = (os.map (· - 1)).flatMap (fun o => l.getD o [])
  | [],_ => rfl
  | o :: os,h => by
    obtain ⟨k,rfl⟩ : ∃ k, o = k + 1 := ⟨o - 1,by have := h o List.mem_cons_self; omega⟩
    rw [List.flatMap_cons,List.map_cons,List.flatMap_cons,
      flatMap_getD_cons x l os (fun o' ho' => h o' (List.mem_cons_of_mem _ ho'))]
    simp

theorem pairwise_pred {os : List Nat} (h : os.Pairwise (· < ·)) (hpos : ∀ o ∈ os, 0 < o) :
    (os.map (· - 1)).Pairwise (· < ·) := by
  refine List.pairwise_map.mpr (h.imp_of_mem ?_)
  intro a b ha _ hab
  have := hpos a ha
  omega

theorem flatMap_getD_sublist {α : Type} :
    ∀ (l : List (List α)) {os : List Nat}, os.Pairwise (· < ·) → (os.flatMap (fun o => l.getD o [])).Sublist l.flatten
  | [],os,_ => by simp
  | _ :: _,[],_ => List.nil_sublist _
  | x :: l,0 :: os,h => by
    have hpos : ∀ o ∈ os, 0 < o := fun o ho => List.rel_of_pairwise_cons h ho
    rw [List.flatMap_cons,List.flatten_cons,flatMap_getD_cons x l os hpos]
    exact (flatMap_getD_sublist l (pairwise_pred (List.Pairwise.of_cons h) hpos)).append_left x
  | x :: l,(o + 1) :: os,h => by
    have hpos : ∀ o' ∈ (o + 1) :: os, 0 < o' := by
      intro o' ho'
      rcases List.mem_cons.mp ho' with rfl | ho'
      · exact Nat.succ_pos o
      · have := List.rel_of_pairwise_cons h ho'
        omega
    rw [flatMap_getD_cons x l _ hpos,List.flatten_cons]
    exact (flatMap_getD_sublist l (pairwise_pred h hpos)).trans (List.sublist_append_right x _)

theorem firedTargets_sublist (n : CompiledNode) (outs : PinSet) : (firedTargets n outs).Sublist n.targets.flatten :=
  flatMap_getD_sublist n.targets (List.pairwise_lt_range.filter _)

theorem sentTargets_forward (m : Instance) (t : Token) (dt : Binary64) :
    ((m.sentTargets t dt).filter (!·.backEdge)).Sublist (m.graph.forwardTargets t.node) := by
  unfold sentTargets CompiledGraph.forwardTargets
  cases m.graph.node? t.node with
  | none => exact List.nil_sublist _
  | some n =>
    dsimp only
    split
    · exact List.nil_sublist _
    · split
      · exact (firedTargets_sublist n _).filter _
      · exact List.nil_sublist _

theorem keeps_eq_false_of_sent {m : Instance} {t : Token} {dt : Binary64} (h : m.sentTargets t dt ≠ []) :
    m.keeps t dt = false := by
  unfold sentTargets at h
  unfold keeps outcome
  cases hn : m.graph.node? t.node with
  | none =>
    rw [hn] at h
    exact absurd rfl h
  | some n =>
    rw [hn] at h
    dsimp only at h ⊢
    by_cases hl : m.store.isLatched t.node t.activation
    · rw [if_pos hl] at h
      exact absurd rfl h
    · rw [if_neg hl] at h ⊢
      cases hs : (m.invoke n t dt).1.result.state <;> simp_all [NodeResult.firesOutputs]

/-- A delivery keeps its token running or consumes it, queues the tokens of its births and moves
the last activation number on by the births that mint. -/
theorem deliver_births (m : Instance) (t : Token) (dt : Binary64) :
    let j := (m.deliver t dt).2
    let S := sentBirths t m.nextSeq m.store.lastId (m.sentTargets t dt)
    j.running = m.running ++ (if m.keeps t dt then [t] else []) ∧ j.pending = m.pending ++ S.map (·.token) ∧
      j.store.lastId.toNat = (m.store.lastId.toNat + S.countP (·.mints)) % 2 ^ 64 ∧ j.graph = m.graph := by
  obtain ⟨-,hf,hr,hp,-,hl,-⟩ := deliver_spec m t dt
  exact ⟨hr,by rw [hp,map_sentBirths],by rw [hl,countP_mints_sentBirths],hf.graph⟩

theorem deliver_live_perm (m : Instance) (t : Token) (dt : Binary64) (rest : List Token) :
    ((m.deliver t dt).2.running ++ (m.deliver t dt).2.pending ++ rest).Perm
      ((m.running ++ m.pending ++ rest) ++ ((if m.keeps t dt then [t] else []) ++
        (sentBirths t m.nextSeq m.store.lastId (m.sentTargets t dt)).map (·.token))) := by
  obtain ⟨hrun,hpend,-,-⟩ := deliver_births m t dt
  rw [hrun,hpend]
  exact List.perm_iff_count.mpr fun x => by simp only [List.count_append]; omega

theorem mem_delivered (m : Instance) (t : Token) (dt : Binary64) :
    ∀ u ∈ (if m.keeps t dt then [t] else []) ++ (sentBirths t m.nextSeq m.store.lastId (m.sentTargets t dt)).map (·.token),
      u ∈ [t] ∨ u ∈ (sentBirths t m.nextSeq m.store.lastId (m.sentTargets t dt)).map (·.token) := by
  intro u hu
  rcases List.mem_append.mp hu with hu | hu
  · left
    split at hu
    · exact hu
    · exact absurd hu List.not_mem_nil
  · exact Or.inr hu

theorem activate_births (i : Instance) (idx : Nat) :
    let j := (i.activate idx).2
    j.running = i.running ∧ j.pending = i.pending ++ [⟨i.nextSeq,idx,0,i.store.lastId + 1⟩] ∧
      j.store.lastId = i.store.lastId + 1 ∧ j.graph = i.graph := by
  obtain ⟨k,hr,hp,hn,-,hl,-,-,-,hg,-,he⟩ := activate_eq i idx
  rw [he]
  exact ⟨hr,by simp [enqueue,hp,hn],by simp [enqueue,hl],hg⟩

theorem foldl_startEntry_births (entries : List Nat) (acts : List UInt64) (k : Instance) :
    let r := (entries.foldl startEntry (acts,none,k)).2.2
    ∃ fresh : List Token, r.running = k.running ∧ r.pending = k.pending ++ fresh ∧
      fresh.map (·.activation.toNat) = (List.range' (k.store.lastId.toNat + 1) fresh.length).map (· % 2 ^ 64) ∧
      r.store.lastId.toNat = (k.store.lastId.toNat + fresh.length) % 2 ^ 64 ∧ r.graph = k.graph := by
  induction entries generalizing acts k with
  | nil =>
    refine ⟨[],rfl,by simp,rfl,?_,rfl⟩
    show k.store.lastId.toNat = (k.store.lastId.toNat + 0) % 2 ^ 64
    rw [Nat.add_zero,Nat.mod_eq_of_lt k.store.lastId.toNat_lt]
  | cons idx rest ih =>
    dsimp only
    rw [List.foldl_cons]
    simp only [startEntry]
    split
    · rename_i act j ht
      obtain ⟨idx',-,-,-,-,ha⟩ := trigger_eq_ok ht
      obtain ⟨hr,hp,hl,hg⟩ := activate_births k idx'
      rw [ha] at hr hp hl hg
      obtain ⟨fresh,hr',hp',hacts,hl',hg'⟩ := ih (acts ++ [act]) j
      have hnext : j.store.lastId.toNat = (k.store.lastId.toNat + 1) % 2 ^ 64 := by
        rw [hl,UInt64.toNat_add]
        rfl
      refine ⟨⟨k.nextSeq,idx',0,k.store.lastId + 1⟩ :: fresh,?_,?_,?_,?_,?_⟩
      · rw [hr',hr]
      · rw [hp',hp,List.append_assoc]
        rfl
      · have hhead : (k.store.lastId + 1).toNat = (k.store.lastId.toNat + 1) % 2 ^ 64 := by
          rw [UInt64.toNat_add]
          rfl
        rw [List.map_cons,hacts,hnext,map_mod_range' (Nat.mod_add_mod (k.store.lastId.toNat + 1) (2 ^ 64) 1),
          List.length_cons,List.range'_succ,List.map_cons,hhead]
      · rw [hl',hnext,Nat.mod_add_mod,List.length_cons]
        congr 1
        omega
      · rw [hg',hg]
    · rw [foldl_startEntry_error]
      refine ⟨[],rfl,by simp,rfl,?_,rfl⟩
      show k.store.lastId.toNat = (k.store.lastId.toNat + 0) % 2 ^ 64
      rw [Nat.add_zero,Nat.mod_eq_of_lt k.store.lastId.toNat_lt]

theorem births_of_pending {i : Instance} {op : HostOp} (hop : ∀ dt, op ≠ .tick dt) {fresh : List Token}
    (hp : (i.perform op).pending = i.pending ++ fresh) : i.births op = fresh.map (⟨·,.trigger⟩) := by
  cases op with
  | tick dt => exact absurd rfl (hop dt)
  | _ =>
    show ((i.perform _).pending.drop i.pending.length).map _ = _
    rw [hp,List.drop_left]

theorem perform_triggers (i : Instance) (op : HostOp) (hop : ∀ dt, op ≠ .tick dt) :
    ∃ fresh : List Token, i.births op = fresh.map (⟨·,.trigger⟩) ∧
      ((i.perform op).running ++ (i.perform op).pending = i.running ++ i.pending ++ fresh ∨
        ((i.perform op).running ++ (i.perform op).pending = [] ∧ fresh = [])) ∧
      fresh.map (·.activation.toNat) = (List.range' (i.store.lastId.toNat + 1) fresh.length).map (· % 2 ^ 64) ∧
      (i.perform op).store.lastId.toNat = (i.store.lastId.toNat + fresh.length) % 2 ^ 64 ∧
      (i.perform op).graph = i.graph := by
  have hlt : i.store.lastId.toNat % 2 ^ 64 = i.store.lastId.toNat := Nat.mod_eq_of_lt i.store.lastId.toNat_lt
  have hsame : i.perform op = i ∨ (i.perform op).running = i.running ∧ (i.perform op).pending = i.pending ∧
      (i.perform op).store.lastId = i.store.lastId ∧ (i.perform op).graph = i.graph →
      ∃ fresh : List Token, i.births op = fresh.map (⟨·,.trigger⟩) ∧
        ((i.perform op).running ++ (i.perform op).pending = i.running ++ i.pending ++ fresh ∨
          ((i.perform op).running ++ (i.perform op).pending = [] ∧ fresh = [])) ∧
        fresh.map (·.activation.toNat) = (List.range' (i.store.lastId.toNat + 1) fresh.length).map (· % 2 ^ 64) ∧
        (i.perform op).store.lastId.toNat = (i.store.lastId.toNat + fresh.length) % 2 ^ 64 ∧
        (i.perform op).graph = i.graph := by
    intro h
    have h' : (i.perform op).running = i.running ∧ (i.perform op).pending = i.pending ∧
        (i.perform op).store.lastId = i.store.lastId ∧ (i.perform op).graph = i.graph := by
      rcases h with h | h
      · rw [h]
        exact ⟨rfl,rfl,rfl,rfl⟩
      · exact h
    obtain ⟨hr,hp,hl,hg⟩ := h'
    refine ⟨[],births_of_pending hop (by rw [hp,List.append_nil]),Or.inl (by rw [hr,hp,List.append_nil]),rfl,?_,hg⟩
    rw [hl,List.length_nil,Nat.add_zero,hlt]
  cases op with
  | trigger node =>
    cases ht : i.trigger node with
    | error e =>
      apply hsame
      left
      simp only [Instance.perform,ht]
    | ok r =>
      obtain ⟨act,j⟩ := r
      obtain ⟨idx,-,-,-,-,ha⟩ := trigger_eq_ok ht
      obtain ⟨hr,hp,hl,hg⟩ := activate_births i idx
      rw [ha] at hr hp hl hg
      have hj : i.perform (.trigger node) = j := by simp only [Instance.perform,ht]
      rw [hj]
      refine ⟨[⟨i.nextSeq,idx,0,i.store.lastId + 1⟩],births_of_pending hop (by rw [hj]; exact hp),
        Or.inl (by rw [hr,hp,List.append_assoc]),?_,?_,hg⟩
      · simp [UInt64.toNat_add]
      · rw [hl,UInt64.toNat_add]
        rfl
  | start =>
    obtain ⟨fresh,hr,hp,hacts,hl,hg⟩ := foldl_startEntry_births i.graph.entries [] i
    refine ⟨fresh,births_of_pending hop hp,Or.inl ?_,hacts,hl,hg⟩
    show i.start.2.2.running ++ i.start.2.2.pending = _
    rw [Instance.start,hr,hp,List.append_assoc]
  | tick dt => exact absurd rfl (hop dt)
  | abort =>
    show ∃ fresh : List Token, i.births .abort = _ ∧ (i.abort.running ++ i.abort.pending = _ ∨ _) ∧ _ ∧
      i.abort.store.lastId.toNat = _ ∧ i.abort.graph = _
    by_cases hs : i.status = .aborted
    · apply hsame
      left
      show i.abort = i
      simp [Instance.abort,hs]
    · have hab : i.abort.running = [] ∧ i.abort.pending = [] ∧ i.abort.store.lastId = i.store.lastId ∧
          i.abort.graph = i.graph := by
        simp [Instance.abort,hs,emit,ActivationStore.clear]
      refine ⟨[],?_,Or.inr ⟨?_,rfl⟩,rfl,?_,hab.2.2.2⟩
      · show (i.abort.pending.drop i.pending.length).map _ = _
        rw [hab.2.1,List.drop_nil]
      · show i.abort.running ++ i.abort.pending = []
        rw [hab.1,hab.2.1,List.append_nil]
      · rw [hab.2.2.1,List.length_nil,Nat.add_zero,hlt]
  | cancel => exact hsame (Or.inr ⟨rfl,rfl,rfl,rfl⟩)
  | setVariable name v => exact hsame (Or.inr ⟨rfl,rfl,rfl,rfl⟩)

theorem step_births (i : Instance) (dt : Binary64) (hc : i.cancelled = false) (hs : i.status = .running) :
    let d := (i.tickStart.deliverAll i.tokens dt).2
    (i.step dt).2.running ++ (i.step dt).2.pending = d.running ++ d.pending ∧
      (i.step dt).2.store.lastId = d.store.lastId ∧ (i.step dt).2.graph = i.graph := by
  obtain ⟨-,-,-,hr,hp,-,-,hg,-⟩ := step_of_running i dt hc hs
  refine ⟨by rw [hr,hp],?_,hg⟩
  simp only [step,hc,hs,Bool.false_eq_true,if_false,ne_eq,not_true_eq_false]
  obtain ⟨-,-,-,-,-,hl⟩ := checkJoinTimeouts_frame (i.tickStart.deliverAll i.tokens dt).2
  simp only [tickEnd]
  split
  · exact hl
  · exact hl

theorem births_abort (i : Instance) : i.births .abort = [] := by
  show (i.abort.pending.drop i.pending.length).map _ = []
  unfold Instance.abort
  split
  · rw [List.drop_length,List.map_nil]
  · simp [emit]

theorem births_tick_of_running (i : Instance) (dt : Binary64) (hc : i.cancelled = false)
    (hs : i.status = .running) : i.births (.tick dt) = i.tickStart.deliveryBirths i.tokens dt := by
  simp [births,hc,hs]

theorem births_tick_of_stopped (i : Instance) (dt : Binary64) (hs : i.status ≠ .running) :
    i.births (.tick dt) = [] := by
  simp [births,hs]

theorem births_tick_of_cancelled (i : Instance) (dt : Binary64) (hc : i.cancelled = true) :
    i.births (.tick dt) = i.births .abort := by
  rw [births_abort]
  simp [births,hc]

theorem perform_graph (i : Instance) (op : HostOp) : (i.perform op).graph = i.graph := by
  have key : ∀ op, (∀ dt, op ≠ .tick dt) → (i.perform op).graph = i.graph := by
    intro op hop
    obtain ⟨-,-,-,-,-,hg⟩ := perform_triggers i op hop
    exact hg
  refine perform_cases i key (fun dt hc hs => (step_births i dt hc hs).2.2) (fun dt hc hs => ?_) (fun dt hc => ?_) op
  · rw [perform_tick_of_stopped i dt hc hs]
  · rw [perform_tick_of_cancelled i dt hc]
    exact key .abort (fun _ h => by cases h)

theorem deliveryBirths_append (m : Instance) (now later : List Token) (dt : Binary64) :
    m.deliveryBirths (now ++ later) dt = m.deliveryBirths now dt ++ (m.deliverAll now dt).2.deliveryBirths later dt := by
  induction now generalizing m with
  | nil => rfl
  | cons t rest ih =>
    rw [List.cons_append,deliveryBirths,deliveryBirths,ih,deliverAll_cons,List.append_assoc]

def run (i : Instance) : List HostOp → Instance
  | [] => i
  | op :: ops => (i.perform op).run ops

def runBirths (i : Instance) : List HostOp → List Birth
  | [] => []
  | op :: ops => i.births op ++ (i.perform op).runBirths ops

end Instance

theorem Lineage.run {i : Instance} {hist : List Birth} (hl : Lineage i hist) (ops : List HostOp) :
    Lineage (i.run ops) (hist ++ i.runBirths ops) := by
  induction ops generalizing i hist with
  | nil =>
    rw [Instance.runBirths,List.append_nil]
    exact hl
  | cons op ops ih =>
    rw [Instance.runBirths,← List.append_assoc]
    exact ih (hl.perform op)

end Tickflow
