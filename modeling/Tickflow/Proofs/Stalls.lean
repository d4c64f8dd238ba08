import Tickflow.Proofs.Joins
import Tickflow.Proofs.SlotOrder
/-! # Stalled joins

When an activation drains, each of its released slots that waits is reported as a stalled join
with a `JoinStalled` event. Where the join slots hold, these reports are a function of the
deliveries alone (`stallsFrom`); `Reports` carries this along a run.
-/
namespace Tickflow

def EngineEvent.isJoinStalled : EngineEvent → Bool
  | .joinStalled .. => true
  | _ => false

@[simp] theorem EngineEvent.isJoinStalled_joinStalled (node : Uuid) (act : UInt64) (arrived expected : PinSet) :
    (EngineEvent.joinStalled node act arrived expected).isJoinStalled = true := rfl

def StalledJoin.event (s : StalledJoin) : EngineEvent := .joinStalled s.node s.activation s.arrived s.expected

namespace Delivery

def after (d : Delivery) : Instance := (d.state.deliver d.token d.dt).2

/-- Whether the delivery drains its token's activation: no token of it is live afterwards, the
rest of the tick's batch included. -/
def drains (d : Delivery) : Bool :=
  (d.after.running ++ d.after.pending ++ d.later).all (·.activation != d.token.activation)

end Delivery

/-- The stalled join of node `n` in activation `a`, reported at `tick` after the deliveries
`past`. -/
def stallAt (g : CompiledGraph) (past : List Delivery) (a tick : UInt64) (n : Nat) : StalledJoin :=
  ⟨g.nodeId n,a,arrivedIn (window n a past),((g.node? n).map (·.connectedInputs)).getD PinSet.empty,tick⟩

/-- The joins a delivery after the deliveries `past` reports as stalled: when it drains its
activation, those of the activation that wait, in ascending node order. -/
def Delivery.stalls (g : CompiledGraph) (past : List Delivery) (d : Delivery) : List StalledJoin :=
  if d.drains then
    ((List.range g.nodeCount).filter (Waits · d.token.activation (past ++ [d]))).map
      (stallAt g (past ++ [d]) d.token.activation d.state.tick)
  else []

def stallsFrom (g : CompiledGraph) (past : List Delivery) : List Delivery → List StalledJoin
  | [] => []
  | d :: rest => d.stalls g past ++ stallsFrom g (past ++ [d]) rest

theorem stallsFrom_append (g : CompiledGraph) (past D : List Delivery) (d : Delivery) :
    stallsFrom g past (D ++ [d]) = stallsFrom g past D ++ d.stalls g (past ++ D) := by
  induction D generalizing past with
  | nil => simp [stallsFrom]
  | cons e rest ih =>
    rw [List.cons_append,stallsFrom,stallsFrom,ih,List.append_assoc]
    simp

section Waiting

variable {g : CompiledGraph} {past : List Delivery} {n : Nat} {a : UInt64}

theorem isSome_firstWait (w : List Delivery) : (firstWait w).isSome = w.any (·.outcome == some (.ran .waiting)) := by
  unfold firstWait
  rw [Option.isSome_map,Bool.eq_iff_iff,List.find?_isSome,List.any_eq_true]

theorem JoinAt.waitingAt_eq_waits {s : ActivationStore} (j : JoinAt g past s n a) :
    s.waitingAt n a = Waits n a past := by
  unfold Waits
  rw [ActivationStore.waitingAt_eq]
  cases hl : s.isLatched n a
  · have hno : (past.all fun d => !(d.hits n a && d.outcome == some (.ran .latched))) = true := by
      rw [List.all_eq_true]
      intro d hd
      by_cases hh : d.hits n a = true
      · have ho : d.outcome ≠ some (.ran .latched) := fun ho => by
          have hl' := j.latched.mpr ⟨d,hd,hh,ho⟩
          rw [hl] at hl'
          cases hl'
        simp [hh,ho]
      · simp [hh]
    rw [j.since hl,hno,isSome_firstWait]
    simp
  · obtain ⟨d,hd,hh,ho⟩ := j.latched.mp hl
    have hyes : (past.all fun d => !(d.hits n a && d.outcome == some (.ran .latched))) = false := by
      rw [List.all_eq_false]
      exact ⟨d,hd,by simp [hh,ho]⟩
    rw [hyes]
    simp

theorem Waits.lt_nodeCount (hg : ∀ d ∈ past, d.state.graph = g) (h : Waits n a past = true) :
    n < g.nodeCount := by
  unfold Waits at h
  rw [Bool.and_eq_true,List.any_eq_true] at h
  obtain ⟨⟨d,hd,hw⟩,-⟩ := h
  obtain ⟨hp,hh,-⟩ := mem_window n a hd
  have hn : d.token.node = n := by
    simp only [Delivery.hits,Bool.and_eq_true,beq_iff_eq] at hh
    exact hh.1
  cases hnode : g.node? n with
  | none =>
    have hout : d.outcome = none := by
      unfold Delivery.outcome Instance.outcome
      rw [hg d hp,hn,hnode]
    rw [hout] at hw
    cases hw
  | some node =>
    obtain ⟨hlt,-⟩ := Array.getElem?_eq_some_iff.mp hnode
    exact hlt

end Waiting

/-- The stalled join a released slot `e` of activation `act` reports at `tick`. -/
def stallOf (g : CompiledGraph) (act tick : UInt64) (e : Nat × Slot) : StalledJoin :=
  ⟨g.nodeId e.1,act,e.2.state.arrivals,((g.node? e.1).map (·.connectedInputs)).getD PinSet.empty,tick⟩

theorem ActivationStore.Sorted.stalls_release {s : ActivationStore} (hs : s.Sorted)
    (hidx : ∀ e ∈ s.slots, e.1.node ≤ nodeIndexEnd) {g : CompiledGraph}
    {past : List Delivery} {a : UInt64} (hj : ∀ n, JoinAt g past s n a) (hg : ∀ d ∈ past, d.state.graph = g)
    (tick : UInt64) :
    ((s.release a).1.filter (·.2.isWaiting)).map (stallOf g a tick) =
      ((List.range g.nodeCount).filter (Waits · a past)).map (stallAt g past a tick) := by
  rw [ActivationStore.release_eq_of_le hidx]
  dsimp only
  generalize hW : ((s.slots.filter (·.1.activation == a)).map fun e => (e.1.node,e.2)).filter (·.2.isWaiting) = W
  have hmem : ∀ e ∈ W, s.slot? e.1 a = some e.2 ∧ e.2.isWaiting = true := by
    intro e he
    rw [← hW] at he
    obtain ⟨he,hw⟩ := List.mem_filter.mp he
    obtain ⟨x,hx,rfl⟩ := List.mem_map.mp he
    obtain ⟨hx,ha⟩ := List.mem_filter.mp hx
    have hk : x.1 = ⟨a,x.1.node⟩ := by
      simp only [beq_iff_eq] at ha
      rw [← ha]
    refine ⟨?_,hw⟩
    unfold ActivationStore.slot?
    rw [← hk]
    exact Ascending.lookupMember_of_mem hs hx
  have hasc : (W.map Prod.fst).Pairwise (· < ·) := by
    rw [← hW,List.pairwise_map]
    refine List.Pairwise.filter _ ?_
    rw [List.pairwise_map]
    exact hs.nodes_ascending a fun e h => by simpa using h
  have hnodes : W.map Prod.fst = (List.range g.nodeCount).filter (Waits · a past) := by
    refine List.Pairwise.eq_of_mem_iff hasc (List.pairwise_lt_range.filter _) fun n => ?_
    constructor
    · intro hn
      obtain ⟨e,he,rfl⟩ := List.mem_map.mp hn
      obtain ⟨hsl,hw⟩ := hmem e he
      have hwt : s.waitingAt e.1 a = true := by
        unfold ActivationStore.waitingAt
        rw [hsl]
        exact hw
      rw [(hj e.1).waitingAt_eq_waits] at hwt
      exact List.mem_filter.mpr ⟨List.mem_range.mpr (Waits.lt_nodeCount hg hwt),hwt⟩
    · intro hn
      have hwt := (List.mem_filter.mp hn).2
      rw [← (hj n).waitingAt_eq_waits] at hwt
      unfold ActivationStore.waitingAt at hwt
      cases hsl : s.slot? n a with
      | none =>
        rw [hsl] at hwt
        cases hwt
      | some sl =>
        rw [hsl] at hwt
        have hx : (⟨a,n⟩,sl) ∈ s.slots := mem_of_lookupMember hsl
        rw [← hW]
        refine List.mem_map.mpr ⟨(n,sl),List.mem_filter.mpr ⟨List.mem_map.mpr ⟨(⟨a,n⟩,sl),?_,rfl⟩,hwt⟩,rfl⟩
        exact List.mem_filter.mpr ⟨hx,by simp⟩
  rw [← hnodes,List.map_map]
  refine List.map_congr_left fun e he => ?_
  obtain ⟨hsl,-⟩ := hmem e he
  have harr : e.2.state.arrivals = arrivedIn (window e.1 a past) := by
    rw [← (hj e.1).arrived]
    unfold ActivationStore.arrivalsAt
    rw [hsl]
    rfl
  simp only [stallOf,stallAt,Function.comp,harr]

namespace Instance

/-- Between `i` and `j` no join was reported stalled: the stalled joins, and the events that
report them, are as they were. -/
structure Unreported (i j : Instance) : Prop where
  stalled : j.stalled = i.stalled
  events : j.events.toList.filter EngineEvent.isJoinStalled = i.events.toList.filter EngineEvent.isJoinStalled

namespace Unreported

theorem refl (i : Instance) : Unreported i i := ⟨rfl,rfl⟩

theorem trans {i j k : Instance} (h₁ : Unreported i j) (h₂ : Unreported j k) : Unreported i k :=
  ⟨h₂.stalled.trans h₁.stalled,h₂.events.trans h₁.events⟩

theorem of_eq {i j : Instance} (hs : j.stalled = i.stalled) (he : j.events = i.events) : Unreported i j :=
  ⟨hs,by rw [he]⟩

theorem of_push {i j : Instance} {e : EngineEvent} (hs : j.stalled = i.stalled) (he : j.events = i.events.push e)
    (h : e.isJoinStalled = false) : Unreported i j :=
  ⟨hs,by simp [he,h]⟩

theorem foldl {α : Type} (F : Instance → α → Instance) (hF : ∀ k x, Unreported k (F k x)) (l : List α)
    (k : Instance) : Unreported k (l.foldl F k) := by
  induction l generalizing k with
  | nil => exact refl k
  | cons x rest ih => exact (hF k x).trans (ih (F k x))

end Unreported

theorem unreported_invoke (i : Instance) (n : CompiledNode) (t : Token) (dt : Binary64) :
    Unreported i (i.invoke n t dt).2 := by
  dsimp only [invoke]
  rw [foldl_emit]
  refine ⟨rfl,?_⟩
  simp [EngineEvent.isJoinStalled]

theorem unreported_complete (i : Instance) (n : CompiledNode) (t : Token) (out : Outcome) :
    Unreported i (i.complete n t out).2 := by
  unfold complete
  dsimp only
  split
  · dsimp only [spawn]
    refine Unreported.trans ?_ (Unreported.foldl _ (fun k target => ?_) _ _)
    · exact Unreported.of_push rfl rfl (by rfl)
    · unfold send enqueue
      split <;> exact Unreported.of_eq rfl rfl
  · exact Unreported.of_eq rfl rfl

theorem unreported_process (m : Instance) (t : Token) (dt : Binary64) : Unreported m (m.process t dt).2.2 := by
  unfold process
  split
  · exact Unreported.refl _
  · split
    · exact Unreported.of_eq rfl rfl
    · exact (unreported_invoke _ _ _ _).trans (unreported_complete _ _ _ _)

theorem unreported_tickEnd (i : Instance) (delivered sent : Nat) : Unreported i (i.tickEnd delivered sent).2 := by
  have hc : Unreported i i.checkJoinTimeouts := by
    unfold checkJoinTimeouts
    split
    · exact Unreported.refl _
    · dsimp only
      refine Unreported.trans ?_ (Unreported.foldl _ (fun k e => ?_) _ _)
      · exact Unreported.of_eq rfl rfl
      · obtain ⟨_,_,_⟩ := e
        exact Unreported.of_push rfl rfl (by rfl)
  unfold tickEnd
  dsimp only
  split
  · exact hc.trans (Unreported.of_push rfl rfl (by rfl))
  · exact hc

theorem unreported_activate (i : Instance) (idx : Nat) : Unreported i (i.activate idx).2 := by
  unfold activate
  split
  · exact Unreported.of_eq rfl rfl
  · exact Unreported.of_push rfl rfl (by rfl)

theorem unreported_foldl_startEntry (entries : List Nat) (s : List UInt64 × Option ScriptError × Instance) :
    Unreported s.2.2 (entries.foldl startEntry s).2.2 := by
  induction entries generalizing s with
  | nil => exact Unreported.refl _
  | cons idx rest ih =>
    refine Unreported.trans ?_ (ih (startEntry s idx))
    obtain ⟨acts,err,k⟩ := s
    cases err with
    | some e => exact Unreported.refl _
    | none =>
      simp only [startEntry]
      split
      · rename_i act j ht
        obtain ⟨idx',-,-,-,-,ha⟩ := trigger_eq_ok ht
        rw [← (Prod.mk.inj ha).2]
        exact unreported_activate k idx'
      · exact Unreported.refl _

theorem unreported_perform_of_ne_tick (i : Instance) {op : HostOp} (hop : ∀ dt, op ≠ .tick dt) :
    Unreported i (i.perform op) := by
  cases op with
  | trigger node =>
    simp only [perform]
    split
    · rename_i act j ht
      obtain ⟨idx,-,-,-,-,ha⟩ := trigger_eq_ok ht
      rw [← (Prod.mk.inj ha).2]
      exact unreported_activate i idx
    · exact Unreported.refl i
  | start => exact unreported_foldl_startEntry i.graph.entries ([],none,i)
  | tick dt => exact absurd rfl (hop dt)
  | abort =>
    show Unreported i i.abort
    unfold abort
    split
    · exact Unreported.refl i
    · exact Unreported.of_push rfl rfl (by rfl)
  | cancel => exact Unreported.of_eq rfl rfl
  | setVariable name v => exact Unreported.of_eq rfl rfl

/-- One step of releasing an activation: a released slot that waits is reported. -/
def reportStall (act : UInt64) (i : Instance) (e : Nat × Slot) : Instance :=
  if e.2.isWaiting then
    let expected := ((i.graph.node? e.1).map (·.connectedInputs)).getD PinSet.empty
    let node := i.graph.nodeId e.1
    let i := { i with stalled := i.stalled.push ⟨node,act,e.2.state.arrivals,expected,i.tick⟩ }
    i.emit (.joinStalled node act e.2.state.arrivals expected)
  else i

theorem releaseActivation_eq_foldl (i : Instance) (act : UInt64) :
    i.releaseActivation act =
      (i.store.release act).1.foldl (reportStall act) { i with store := (i.store.release act).2 } :=
  rfl

theorem foldl_reportStall (act : UInt64) (L : List (Nat × Slot)) (k : Instance) :
    (L.foldl (reportStall act) k).stalled.toList =
        k.stalled.toList ++ (L.filter (·.2.isWaiting)).map (stallOf k.graph act k.tick) ∧
      (L.foldl (reportStall act) k).events.toList.filter EngineEvent.isJoinStalled =
        k.events.toList.filter EngineEvent.isJoinStalled ++
          ((L.filter (·.2.isWaiting)).map (stallOf k.graph act k.tick)).map StalledJoin.event := by
  induction L generalizing k with
  | nil => simp
  | cons e rest ih =>
    obtain ⟨h1,h2⟩ := ih (reportStall act k e)
    have hg : (reportStall act k e).graph = k.graph := by
      unfold reportStall
      split <;> rfl
    have ht : (reportStall act k e).tick = k.tick := by
      unfold reportStall
      split <;> rfl
    rw [List.foldl_cons,h1,h2,hg,ht]
    unfold reportStall
    by_cases hw : e.2.isWaiting <;> simp [hw,stallOf,emit,StalledJoin.event,List.filter_cons]

/-- From `i` to `j` exactly the stalled joins `S` were reported, in order, each published by its
event. -/
structure Reported (i j : Instance) (S : List StalledJoin) : Prop where
  stalled : j.stalled.toList = i.stalled.toList ++ S
  events : j.events.toList.filter EngineEvent.isJoinStalled =
    i.events.toList.filter EngineEvent.isJoinStalled ++ S.map StalledJoin.event

theorem Unreported.reported {i j k : Instance} {S : List StalledJoin} (h₁ : Unreported i j) (h₂ : Reported j k S) :
    Reported i k S :=
  ⟨by rw [h₂.stalled,h₁.stalled],by rw [h₂.events,h₁.events]⟩

theorem consume_eq (i : Instance) (act : UInt64) :
    i.consume act = if (i.store.tokenConsumed act).1 then
      { i with store := (i.store.tokenConsumed act).2 }.releaseActivation act
    else { i with store := (i.store.tokenConsumed act).2 } := rfl

section Sorted

variable {i : Instance}

theorem sorted_invoke (h : i.store.Sorted) (n : CompiledNode) (t : Token) (dt : Binary64) :
    (i.invoke n t dt).2.store.Sorted := by
  dsimp only [invoke]
  rw [foldl_emit]
  dsimp only
  split
  · exact h.resume _
  · exact (h.resume _).takeState _ _

theorem sorted_writeBack {s : ActivationStore} (h : s.Sorted) (t : Token) (state : ExecState)
    (after : ActivationState) (tick : UInt64) : (writeBack s t state after tick).Sorted := by
  cases state with
  | done => exact h.retire _ _
  | latched => exact (h.restore _ _ _).latch _ _
  | executing => exact h.hold _ _ _ _
  | waiting => exact (h.restore _ _ _).markWaiting _ _ _

theorem sorted_complete (h : i.store.Sorted) (n : CompiledNode) (t : Token) (out : Outcome) :
    (i.complete n t out).2.store.Sorted := by
  obtain ⟨k,-,-,-,-,hk,he⟩ := complete_eq i n t out
  rw [he]
  obtain ⟨-,-,-,-,-,-,-,hs,-⟩ := foldl_send k t.activation
    (if out.result.firesOutputs then firedTargets n (checkedOutputs n out.result.outputs) else [])
  refine ActivationStore.Sorted.of_slots_eq ?_ hs
  rw [hk]
  exact sorted_writeBack h _ _ _ _

theorem sorted_process (h : i.store.Sorted) (t : Token) (dt : Binary64) : (i.process t dt).2.2.store.Sorted := by
  unfold process
  split
  · exact h
  · split
    · exact h
    · exact sorted_complete (sorted_invoke h _ _ _) _ _ _

theorem sorted_settle (h : i.store.Sorted) (t : Token) (keep : Bool) : (i.settle t keep).store.Sorted := by
  unfold settle
  cases keep
  · rw [if_neg Bool.false_ne_true,consume_eq]
    have hc : (i.store.tokenConsumed t.activation).2.Sorted := h.of_slots_eq (ActivationStore.tokenConsumed_slots _ _)
    split
    · rw [(releaseActivation_frame _ t.activation).2.2.2.2]
      exact hc.release _
    · exact hc
  · exact h

theorem sorted_deliver (h : i.store.Sorted) (t : Token) (dt : Binary64) : (i.deliver t dt).2.store.Sorted :=
  sorted_settle (sorted_process h t dt) t _

theorem step_store (i : Instance) (dt : Binary64) (hc : i.cancelled = false) (hs : i.status = .running) :
    (i.step dt).2.store = (i.tickStart.deliverAll i.tokens dt).2.checkJoinTimeouts.store := by
  simp only [step,hc,hs,Bool.false_eq_true,if_false,ne_eq,not_true_eq_false]
  simp only [tickEnd]
  split <;> rfl

theorem sorted_checkJoinTimeouts (h : i.store.Sorted) : i.checkJoinTimeouts.store.Sorted := by
  unfold checkJoinTimeouts
  split
  · exact h
  · dsimp only
    rw [foldl_only_reports _ (fun k e => by obtain ⟨_,_,_⟩ := e; rfl)]
    dsimp only
    generalize i.store.waiting.filterMap _ = late
    generalize i.store = s at h ⊢
    induction late generalizing s with
    | nil => exact h
    | cons e rest ih => exact ih _ (h.modifySlot _ _ _)

end Sorted

/-- Settling a delivered token reports, when it consumes the last live token of its activation,
the activation's waiting joins in ascending node order, and nothing otherwise. -/
theorem settle_reports {g : CompiledGraph} {past : List Delivery} {k : Instance} {t : Token} {later : List Token}
    (keep : Bool) (hs : k.store.Sorted) (hg : k.graph = g) (hj : Joins g past k (k.running ++ k.pending ++ t :: later))
    (hc : Counted k (k.running ++ k.pending ++ t :: later)) :
    Reported k (k.settle t keep)
      (if ((k.settle t keep).running ++ (k.settle t keep).pending ++ later).all (·.activation != t.activation) then
        ((List.range g.nodeCount).filter (Waits · t.activation past)).map (stallAt g past t.activation k.tick)
      else []) := by
  subst hg
  have ht : t ∈ k.running ++ k.pending ++ t :: later := List.mem_append_right _ List.mem_cons_self
  have hdr : ((k.settle t keep).running ++ (k.settle t keep).pending ++ later).all (·.activation != t.activation) =
      (!keep && (k.store.tokenConsumed t.activation).1) := by
    have hl := settle_live keep hc t.activation
    rw [Bool.eq_iff_iff,List.all_eq_true,Bool.and_eq_true,Bool.not_eq_true']
    constructor
    · intro hall
      by_contra hn
      obtain ⟨u,hu,hua⟩ := hl.mpr ⟨⟨t,ht,rfl⟩,fun ⟨h1,h2,_⟩ => hn ⟨h1,h2⟩⟩
      simpa [hua] using hall u hu
    · rintro ⟨h1,h2⟩ u hu
      have hne : u.activation ≠ t.activation := fun hua => (hl.mp ⟨u,hu,hua⟩).2 ⟨h1,h2,rfl⟩
      simpa using hne
  rw [hdr]
  unfold settle
  cases keep
  · rw [if_neg Bool.false_ne_true,consume_eq]
    cases hlast : (k.store.tokenConsumed t.activation).1
    · exact ⟨by simp,by simp⟩
    · rw [if_pos rfl,releaseActivation_eq_foldl]
      have hs' : (k.store.tokenConsumed t.activation).2.Sorted := hs.of_slots_eq (ActivationStore.tokenConsumed_slots _ _)
      have hj' : ∀ n, JoinAt k.graph past (k.store.tokenConsumed t.activation).2 n t.activation := fun n =>
        (hj.slots n t.activation ⟨t,ht,rfl⟩).of_slot?_eq
          (ActivationStore.slot?_of_slots_eq (ActivationStore.tokenConsumed_slots _ _) n t.activation)
      have hidx := hs'.node_le fun n a hsl => hj.indexed n a
        (by rwa [← ActivationStore.slot?_of_slots_eq (ActivationStore.tokenConsumed_slots _ _) n a])
      have hrel := hs'.stalls_release hidx hj' hj.graphs k.tick
      refine ⟨?_,?_⟩
      · rw [(foldl_reportStall _ _ _).1]
        exact congrArg (k.stalled.toList ++ ·) hrel
      · rw [(foldl_reportStall _ _ _).2]
        exact congrArg (fun S => k.events.toList.filter EngineEvent.isJoinStalled ++ S.map StalledJoin.event) hrel
  · exact ⟨by simp,by simp⟩

end Instance

/-- The stall reports at a point of a run over `g`, with `past` the deliveries so far and
`live` the live tokens: the store keeps its slots in key order, the stalled joins are the ones
the deliveries reported, each published by its event, and an activation that drained stays
drained. -/
structure Reports (g : CompiledGraph) (past : List Delivery) (m : Instance) (live : List Token) : Prop where
  sorted : m.store.Sorted
  logged : m.stalled.toList = stallsFrom g [] past
  paired : m.events.toList.filter EngineEvent.isJoinStalled = m.stalled.toList.map StalledJoin.event
  drained : ∀ d ∈ past, d.drains = true → Drained d.token.activation m.store.lastId live

namespace Reports

variable {g : CompiledGraph} {past : List Delivery}

theorem create (g : CompiledGraph) (recordTrace : Bool) (invocations : List (String × Nat)) :
    Reports g [] (Instance.create g recordTrace invocations) [] where
  sorted := List.Pairwise.nil
  logged := rfl
  paired := rfl
  drained _ h := absurd h List.not_mem_nil

theorem of_unreported {m m' : Instance} {live live' : List Token} (h : Reports g past m live)
    (hu : Instance.Unreported m m') (hs : m'.store.Sorted)
    (hd : ∀ a, Drained a m.store.lastId live → Drained a m'.store.lastId live') : Reports g past m' live' :=
  ⟨hs,by rw [hu.stalled]; exact h.logged,by rw [hu.events,hu.stalled]; exact h.paired,
    fun d hd' hdr => hd _ (h.drained d hd' hdr)⟩

theorem deliver {m : Instance} {t : Token} {rest : List Token} {dt : Binary64}
    (h : Reports g past m (m.running ++ m.pending ++ t :: rest)) (hg : m.graph = g)
    (hj : Joins g (past ++ [⟨m,t,rest,dt⟩]) (m.process t dt).2.2
      ((m.process t dt).2.2.running ++ (m.process t dt).2.2.pending ++ t :: rest))
    (hc : Instance.Counted m (m.running ++ m.pending ++ t :: rest))
    (hK : m.store.lastId.toNat +
      (Instance.sentBirths t m.nextSeq m.store.lastId (m.sentTargets t dt)).countP (·.mints) < 2 ^ 64)
    (hhanded : t.activation.toNat ≤ (m.deliver t dt).2.store.lastId.toNat) :
    Reports g (past ++ [⟨m,t,rest,dt⟩]) (m.deliver t dt).2
      ((m.deliver t dt).2.running ++ (m.deliver t dt).2.pending ++ rest) := by
  obtain ⟨-,-,hf,-⟩ := Instance.process_spec m t dt
  have hr : Instance.Reported m (m.deliver t dt).2 (Delivery.stalls g past ⟨m,t,rest,dt⟩) := by
    have hs := Instance.settle_reports (m.process t dt).2.1 (Instance.sorted_process h.sorted t dt)
      (hf.graph.trans hg) hj (Instance.Counted.process dt hc)
    rw [hf.tick] at hs
    exact (Instance.unreported_process m t dt).reported hs
  refine ⟨Instance.sorted_deliver h.sorted t dt,?_,?_,?_⟩
  · rw [hr.stalled,h.logged,stallsFrom_append,List.nil_append]
  · rw [hr.events,hr.stalled,h.paired,List.map_append]
  · intro d hd hdr
    rcases List.mem_append.mp hd with hd | hd
    · exact ((h.drained d hd hdr).deliver dt hK).2
    · rw [List.mem_singleton.mp hd] at hdr ⊢
      refine ⟨hhanded,fun u hu hua => ?_⟩
      have hu' := List.all_eq_true.mp hdr u hu
      simp [hua] at hu'

theorem tickStart {i : Instance} (h : Reports g past i (i.running ++ i.pending)) :
    Reports g past i.tickStart (i.tickStart.running ++ i.tickStart.pending ++ i.tokens) :=
  ⟨h.sorted,h.logged,h.paired,fun d hd hdr => (h.drained d hd hdr).tickStart⟩

theorem step {i : Instance} {dt : Binary64} (hc : i.cancelled = false) (hs : i.status = .running)
    (h : Reports g past (i.tickStart.deliverAll i.tokens dt).2
      ((i.tickStart.deliverAll i.tokens dt).2.running ++ (i.tickStart.deliverAll i.tokens dt).2.pending)) :
    Reports g past (i.step dt).2 ((i.step dt).2.running ++ (i.step dt).2.pending) := by
  obtain ⟨hlive,hlast,-⟩ := Instance.step_births i dt hc hs
  refine h.of_unreported ?_ ?_ fun a ha => by rw [hlive,hlast]; exact ha
  · simp only [Instance.step,hc,hs,Bool.false_eq_true,if_false,ne_eq,not_true_eq_false]
    exact Instance.unreported_tickEnd _ _ _
  · rw [Instance.step_store i dt hc hs]
    exact Instance.sorted_checkJoinTimeouts h.sorted

end Reports

end Tickflow
