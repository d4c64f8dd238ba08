import Tickflow.Proofs.JoinTimeouts
import Tickflow.Proofs.Activations
/-! # Join timeouts over runs

The clock moves on by one at each tick of a running instance, so every reachable state has its
slots timed. An operation reports a timeout for exactly the waiting joins whose first wait lies
the limit and one tick before the new clock, and a join times out again only after its node is done.
-/
namespace Tickflow

namespace Instance

def published (i : Instance) (op : HostOp) : List EngineEvent := (i.perform op).events.toList.drop i.events.size

theorem filter_published {p : EngineEvent → Bool} {i : Instance} {op : HostOp} {L : List EngineEvent}
    (h : Publishes p i (i.perform op) L) : (i.published op).filter p = L := by
  obtain ⟨new,he,hf⟩ := h
  rw [published,he,← Array.length_toList,List.drop_left]
  exact hf

theorem tick_perform_toNat (i : Instance) (op : HostOp) (hw : i.tick.toNat + 1 < 2 ^ 64) :
    (i.perform op).tick.toNat = if i.ticks op then i.tick.toNat + 1 else i.tick.toNat := by
  rw [tick_perform]
  split
  · rw [UInt64.toNat_add,UInt64.toNat_one]
    exact Nat.mod_eq_of_lt hw
  · rfl

theorem tick_run_bounds (i : Instance) (ops : List HostOp) (hw : i.tick.toNat + ops.length < 2 ^ 64) :
    i.tick.toNat ≤ (i.run ops).tick.toNat ∧ (i.run ops).tick.toNat ≤ i.tick.toNat + ops.length := by
  induction ops generalizing i with
  | nil => exact ⟨le_refl _,Nat.le_add_right _ _⟩
  | cons op ops ih =>
    rw [List.length_cons] at hw
    have ht := tick_perform_toNat i op (by omega)
    have hstep : i.tick.toNat ≤ (i.perform op).tick.toNat ∧ (i.perform op).tick.toNat ≤ i.tick.toNat + 1 := by
      split at ht <;> omega
    obtain ⟨h1,h2⟩ := ih (i.perform op) (by omega)
    rw [run,List.length_cons]
    omega

theorem runDeliveries_append (i : Instance) (ops more : List HostOp) :
    i.runDeliveries (ops ++ more) = i.runDeliveries ops ++ (i.run ops).runDeliveries more := by
  induction ops generalizing i with
  | nil => rfl
  | cons op ops ih => rw [List.cons_append,runDeliveries,runDeliveries,ih,run,List.append_assoc]

theorem run_append (i : Instance) (ops more : List HostOp) : i.run (ops ++ more) = (i.run ops).run more := by
  induction ops generalizing i with
  | nil => rfl
  | cons op ops ih => rw [List.cons_append,run,run,ih]

theorem runBirths_append (i : Instance) (ops more : List HostOp) :
    i.runBirths (ops ++ more) = i.runBirths ops ++ (i.run ops).runBirths more := by
  induction ops generalizing i with
  | nil => rfl
  | cons op ops ih => rw [List.cons_append,runBirths,runBirths,ih,run,List.append_assoc]

theorem timed_run {i : Instance} (h : i.store.Timed i.graph.settings.joinTimeoutTicks i.tick.toNat 0)
    (hso : i.store.Sorted) (ops : List HostOp) (hw : i.tick.toNat + ops.length < 2 ^ 64) :
    (i.run ops).store.Timed i.graph.settings.joinTimeoutTicks (i.run ops).tick.toNat 0 ∧ (i.run ops).store.Sorted := by
  induction ops generalizing i with
  | nil => exact ⟨h,hso⟩
  | cons op ops ih =>
    rw [List.length_cons] at hw
    obtain ⟨hj,hsj⟩ := timed_perform h hso (by omega) op
    have ht := tick_perform_toNat i op (by omega)
    have hle : (i.perform op).tick.toNat + ops.length < 2 ^ 64 := by split at ht <;> omega
    rw [run,← perform_graph i op]
    exact ih hj hsj hle

end Instance

theorem JoinAt.firstWait_le {g : CompiledGraph} {past : List Delivery} {s : ActivationStore} {n : Nat} {a : UInt64}
    (j : JoinAt g past s n a) {T : Option Nat} {tick slack : Nat} (ht : s.Timed T tick slack)
    (hw : Waits n a past = true) : ∃ w, firstWait (window n a past) = some w ∧ w.toNat ≤ tick := by
  have hwa := j.waitingAt_eq_waits
  rw [hw,ActivationStore.waitingAt_eq,Bool.and_eq_true,Bool.not_eq_true'] at hwa
  obtain ⟨hsome,hl⟩ := hwa
  rw [← j.since hl]
  unfold ActivationStore.sinceAt at hsome ⊢
  cases hsl : s.slot? n a with
  | none =>
    rw [hsl] at hsome
    cases hsome
  | some sl =>
    rw [hsl] at hsome
    cases hws : sl.waitingSince with
    | none => simp [hws] at hsome
    | some w => exact ⟨w,by simp [hws],(ht n a sl hsl).1 w hws⟩

theorem waitingTicks_toNat {g : CompiledGraph} {D : List Delivery} {t a w : UInt64} {n : Nat}
    (hf : firstWait (window n a D) = some w) (hle : w.toNat ≤ t.toNat) :
    (waitingJoinAt g D t a n).waitingTicks.toNat = t.toNat - w.toNat := by
  simp only [waitingJoinAt,hf,Option.getD_some]
  exact UInt64.toNat_sub_of_le _ _ (UInt64.le_iff_toNat_le.mpr hle)

theorem window_append_of_not_done {n : Nat} {a : UInt64} (past : List Delivery) {more : List Delivery}
    (h : ∀ d ∈ more, d.hits n a = true → d.outcome ≠ some (.ran .done)) :
    window n a (past ++ more) = window n a past ++ more.filter (·.hits n a) := by
  induction more using List.reverseRecOn with
  | nil => simp
  | append_singleton more d ih =>
    have ih' := ih fun e he => h e (List.mem_append_left _ he)
    rw [← List.append_assoc,window_append,ih',List.filter_append]
    cases hd : d.hits n a with
    | false => simp [hd]
    | true =>
      rw [if_pos rfl,if_neg (h d (List.mem_append_right _ (List.mem_singleton_self d)) hd)]
      simp [hd]

theorem firstWait_append_of_eq {w v : List Delivery} {t : UInt64} (h : firstWait w = some t) :
    firstWait (w ++ v) = some t := by
  unfold firstWait at h ⊢
  rw [List.find?_append]
  cases hw : w.find? (·.outcome == some (.ran .waiting)) with
  | none => rw [hw] at h; cases h
  | some e => rw [hw] at h; exact h

section Runs

variable {reg : Registry} {doc : Graph} {g : CompiledGraph} (recordTrace : Bool) (invocations : List (String × Nat))

theorem timed_reached (ops : List HostOp) (hn : ops.length < 2 ^ 64) :
    let m := (Instance.create g recordTrace invocations).run ops
    m.store.Timed g.settings.joinTimeoutTicks m.tick.toNat 0 ∧ m.store.Sorted ∧ m.tick.toNat ≤ ops.length := by
  intro m
  have h0 : (Instance.create g recordTrace invocations).store.Timed g.settings.joinTimeoutTicks 0 0 :=
    fun _ _ _ h => by cases h
  have hso : (Instance.create g recordTrace invocations).store.Sorted := List.Pairwise.nil
  have ht0 : (Instance.create g recordTrace invocations).tick.toNat = 0 := rfl
  have hw : (Instance.create g recordTrace invocations).tick.toNat + ops.length < 2 ^ 64 := by
    rw [ht0,Nat.zero_add]
    exact hn
  have hup := (Instance.tick_run_bounds _ ops hw).2
  rw [ht0,Nat.zero_add] at hup
  exact ⟨(Instance.timed_run h0 hso ops hw).1,(Instance.timed_run h0 hso ops hw).2,hup⟩

/-- What holds between operations holds at the end of every run of a compiled graph that
creates fewer than `2 ^ 64` tokens. -/
theorem between_run (hc : CompiledGraph.compile reg doc = .ok g) (ops : List HostOp)
    (hb : ((Instance.create g recordTrace invocations).runBirths ops).length < 2 ^ 64) :
    Between g ((Instance.create g recordTrace invocations).runBirths ops)
      ((Instance.create g recordTrace invocations).runDeliveries ops) ((Instance.create g recordTrace invocations).run ops) := by
  obtain ⟨r,hr⟩ := CompiledGraph.compile_ranked hc
  have h := ((Between.create g recordTrace invocations).run hr (CompiledGraph.wellWired_of_compile hc) ops
    (by rw [List.nil_append]; exact hb)).2
  simpa only [List.nil_append] using h

theorem published_timeouts_none (ops : List HostOp) (op : HostOp) (hn : ops.length + 1 < 2 ^ 64)
    (hT : g.settings.joinTimeoutTicks = none) :
    (((Instance.create g recordTrace invocations).run ops).published op).filter EngineEvent.isJoinTimedOut = [] := by
  obtain ⟨hm,hso,hle⟩ := timed_reached (g := g) recordTrace invocations ops (by omega)
  have hgm : ((Instance.create g recordTrace invocations).run ops).graph = g := run_graph _ _
  have hpub := Instance.publishes_perform_timeouts (by rw [hgm]; exact hm) hso (by omega) op
  rw [hgm,hT,Option.map_none,Option.getD_none,ite_self] at hpub
  exact Instance.filter_published hpub

theorem published_timeouts_some (hc : CompiledGraph.compile reg doc = .ok g) (ops : List HostOp) (op : HostOp)
    (hb : ((Instance.create g recordTrace invocations).runBirths (ops ++ [op])).length < 2 ^ 64)
    (hn : ops.length + 1 < 2 ^ 64) {lim : Nat} (hT : g.settings.joinTimeoutTicks = some lim) :
    let m := (Instance.create g recordTrace invocations).run ops
    let D := (Instance.create g recordTrace invocations).runDeliveries (ops ++ [op])
    ∃ K : List (UInt64 × Nat), K.Pairwise (fun x y => x.1 < y.1 ∨ x.1 = y.1 ∧ x.2 < y.2) ∧
      (∀ a n, (a,n) ∈ K ↔ m.ticks op = true ∧
        (∃ u ∈ (m.perform op).running ++ (m.perform op).pending, u.activation = a) ∧ Waits n a D = true ∧
        (firstWait (window n a D)).map (fun w => w.toNat + lim + 1) = some (m.perform op).tick.toNat) ∧
      (m.published op).filter EngineEvent.isJoinTimedOut =
        K.map fun k => .joinTimedOut (g.nodeId k.2) k.1 (UInt64.ofNat (lim + 1)) := by
  intro m D
  obtain ⟨hm,hso,hle⟩ := timed_reached (g := g) recordTrace invocations ops (by omega)
  have hgm : m.graph = g := run_graph _ _
  have hpub := Instance.publishes_perform_timeouts (by rw [hgm]; exact hm) hso (by omega) op
  have hm' := (Instance.timed_perform (by rw [hgm]; exact hm) hso (by omega) op).1
  rw [hgm,hT] at hpub
  rw [Instance.perform_graph,hgm,hT] at hm'
  have hB := between_run recordTrace invocations hc (ops ++ [op]) hb
  rw [Instance.run_concat] at hB
  obtain ⟨K0,hK0,hmem,hwj⟩ := hB.joins.waitingJoins_eq hB.reports.sorted hB.graph
  let t := (m.perform op).tick
  have hfw : ∀ k ∈ K0, ∃ w, firstWait (window k.2 k.1 D) = some w ∧ w.toNat ≤ t.toNat := by
    intro k hk
    have hk' := (hmem k.1 k.2).mp hk
    exact (hB.joins.slots k.2 k.1 hk'.1).firstWait_le hm' hk'.2
  let due : UInt64 × Nat → Bool := fun k => decide ((waitingJoinAt g D t k.1 k.2).waitingTicks.toNat = lim + 1)
  -- a waiting join is due exactly when its first wait lies the limit and one tick back
  have hdue : ∀ a n, (a,n) ∈ K0 →
      (due (a,n) = true ↔ (firstWait (window n a D)).map (fun w => w.toNat + lim + 1) = some t.toNat) := by
    intro a n hk
    obtain ⟨w,hf,hwle⟩ := hfw (a,n) hk
    simp only [due,decide_eq_true_eq,waitingTicks_toNat hf hwle,hf,Option.map_some,Option.some.injEq]
    omega
  refine ⟨if m.ticks op then K0.filter due else [],?_,fun a n => ?_,?_⟩
  · split
    · exact hK0.filter due
    · exact List.Pairwise.nil
  · cases hto : m.ticks op with
    | false => simp
    | true =>
      rw [if_pos rfl,List.mem_filter]
      constructor
      · rintro ⟨hk,hd⟩
        obtain ⟨hlive,hwaits⟩ := (hmem a n).mp hk
        exact ⟨rfl,hlive,hwaits,(hdue a n hk).mp hd⟩
      · rintro ⟨-,hlive,hwaits,hf⟩
        have hk := (hmem a n).mpr ⟨hlive,hwaits⟩
        exact ⟨hk,(hdue a n hk).mpr hf⟩
  · rw [Instance.filter_published hpub]
    split
    · rw [hwj,Option.map_some,Option.getD_some,List.filter_map,List.map_map]
      refine List.map_congr_left fun k hk => ?_
      have hd : (waitingJoinAt g D t k.1 k.2).waitingTicks.toNat = lim + 1 :=
        of_decide_eq_true (List.mem_filter.mp hk).2
      rw [Function.comp_apply,WaitingJoin.timedOut,← hd,UInt64.ofNat_toNat]
      rfl
    · rfl

theorem due_of_published (hc : CompiledGraph.compile reg doc = .ok g) (ops : List HostOp) (op : HostOp)
    (hb : ((Instance.create g recordTrace invocations).runBirths (ops ++ [op])).length < 2 ^ 64)
    (hn : ops.length + 1 < 2 ^ 64) {x : Uuid} {a w : UInt64}
    (h : EngineEvent.joinTimedOut x a w ∈ ((Instance.create g recordTrace invocations).run ops).published op) :
    let m := (Instance.create g recordTrace invocations).run ops
    let D := (Instance.create g recordTrace invocations).runDeliveries (ops ++ [op])
    ∃ lim n, g.settings.joinTimeoutTicks = some lim ∧ n < g.nodeCount ∧ g.nodeId n = x ∧ m.ticks op = true ∧
      Waits n a D = true ∧ (firstWait (window n a D)).map (fun w => w.toNat + lim + 1) = some (m.perform op).tick.toNat := by
  intro m D
  have hev := (List.mem_filter (p := EngineEvent.isJoinTimedOut)).mpr ⟨h,rfl⟩
  cases hT : g.settings.joinTimeoutTicks with
  | none =>
    rw [published_timeouts_none recordTrace invocations ops op hn hT] at hev
    cases hev
  | some lim =>
    obtain ⟨K,-,hmem,hK⟩ := published_timeouts_some recordTrace invocations hc ops op hb hn hT
    rw [hK] at hev
    obtain ⟨⟨a',n⟩,hk,he⟩ := List.mem_map.mp hev
    simp only [EngineEvent.joinTimedOut.injEq] at he
    obtain ⟨hx,ha,-⟩ := he
    rw [ha] at hk
    obtain ⟨hto,-,hw,hf⟩ := (hmem a n).mp hk
    have hB := between_run recordTrace invocations hc (ops ++ [op]) hb
    exact ⟨lim,n,rfl,Waits.lt_nodeCount hB.joins.graphs hw,hx,hto,hw,hf⟩

theorem timeout_renewed_by_done (hc : CompiledGraph.compile reg doc = .ok g) (ops : List HostOp) (op : HostOp)
    (hb : ((Instance.create g recordTrace invocations).runBirths (ops ++ [op])).length < 2 ^ 64)
    (hn : ops.length + 1 < 2 ^ 64) {pre mid : List HostOp} {op0 : HostOp} (hops : ops = pre ++ op0 :: mid)
    {x : Uuid} {a w0 w : UInt64}
    (h0 : EngineEvent.joinTimedOut x a w0 ∈ ((Instance.create g recordTrace invocations).run pre).published op0)
    (h1 : EngineEvent.joinTimedOut x a w ∈ ((Instance.create g recordTrace invocations).run ops).published op) :
    ∃ d ∈ ((Instance.create g recordTrace invocations).run (pre ++ [op0])).runDeliveries (mid ++ [op]),
      d.token.activation = a ∧ g.nodeId d.token.node = x ∧ d.outcome = some (.ran .done) := by
  have hsplit : ops ++ [op] = (pre ++ [op0]) ++ (mid ++ [op]) := by simp [hops]
  have hlen : ops.length = pre.length + 1 + mid.length := by simp [hops]; omega
  have hb0 : ((Instance.create g recordTrace invocations).runBirths (pre ++ [op0])).length < 2 ^ 64 := by
    rw [hsplit,Instance.runBirths_append,List.length_append] at hb
    omega
  obtain ⟨lim,n,hT,hlt,hx,hto,-,hf1⟩ := due_of_published recordTrace invocations hc ops op hb hn h1
  obtain ⟨lim0,n0,hT0,hlt0,hx0,-,-,hf0⟩ := due_of_published recordTrace invocations hc pre op0 hb0 (by omega) h0
  obtain rfl : lim0 = lim := Option.some.inj (hT0.symm.trans hT)
  obtain rfl : n0 = n := CompiledGraph.eq_of_nodeId_eq hc hlt0 hlt (hx0.trans hx.symm)
  by_contra hno
  -- otherwise the deliveries since the first timeout only extend the join's window
  have hnd : ∀ d ∈ ((Instance.create g recordTrace invocations).run (pre ++ [op0])).runDeliveries (mid ++ [op]),
      d.hits n0 a = true → d.outcome ≠ some (.ran .done) := by
    intro d hd hh ho
    simp only [Delivery.hits,Bool.and_eq_true,beq_iff_eq] at hh
    exact hno ⟨d,hd,hh.2,by rw [hh.1]; exact hx,ho⟩
  rw [hsplit,Instance.runDeliveries_append,window_append_of_not_done _ hnd] at hf1
  obtain ⟨w',hw',ht0⟩ := Option.map_eq_some_iff.mp hf0
  rw [firstWait_append_of_eq hw',Option.map_some,Option.some.injEq] at hf1
  -- so both timeouts read one clock, though the second comes a tick later
  obtain ⟨-,-,hle0⟩ := timed_reached (g := g) recordTrace invocations (pre ++ [op0]) (by simp; omega)
  obtain ⟨-,-,hle1⟩ := timed_reached (g := g) recordTrace invocations ops (by omega)
  have hmid := (Instance.tick_run_bounds ((Instance.create g recordTrace invocations).run (pre ++ [op0])) mid
    (by simp at hle0; omega)).1
  rw [← Instance.run_append,List.append_assoc,List.singleton_append,← hops] at hmid
  rw [← Instance.run_concat] at ht0
  rw [Instance.tick_perform_toNat _ op (by omega),if_pos hto] at hf1
  omega

/-- Along any run of a compiled graph every state has its slots timed; the last operation reports
a timeout for exactly the waiting joins whose first wait plus the limit and one is its clock,
none without a limit, and a join times out again only after a delivery left its node done. -/
theorem join_timeouts_fire_once (hc : CompiledGraph.compile reg doc = .ok g) (ops : List HostOp) (op : HostOp)
    (hb : ((Instance.create g recordTrace invocations).runBirths (ops ++ [op])).length < 2 ^ 64)
    (hn : ops.length + 1 < 2 ^ 64) :
    let i := Instance.create g recordTrace invocations
    let m := i.run ops
    let D := i.runDeliveries (ops ++ [op])
    m.store.Timed g.settings.joinTimeoutTicks m.tick.toNat 0 ∧
      (g.settings.joinTimeoutTicks = none → (m.published op).filter EngineEvent.isJoinTimedOut = []) ∧
      (∀ lim, g.settings.joinTimeoutTicks = some lim →
        ∃ K : List (UInt64 × Nat), K.Pairwise (fun x y => x.1 < y.1 ∨ x.1 = y.1 ∧ x.2 < y.2) ∧
          (∀ a n, (a,n) ∈ K ↔ m.ticks op = true ∧
            (∃ u ∈ (m.perform op).running ++ (m.perform op).pending, u.activation = a) ∧ Waits n a D = true ∧
            (firstWait (window n a D)).map (fun w => w.toNat + lim + 1) = some (m.perform op).tick.toNat) ∧
          (m.published op).filter EngineEvent.isJoinTimedOut =
            K.map fun k => .joinTimedOut (g.nodeId k.2) k.1 (UInt64.ofNat (lim + 1))) ∧
      (∀ (pre mid : List HostOp) (op0 : HostOp) (x : Uuid) (a w0 w : UInt64), ops = pre ++ op0 :: mid →
        EngineEvent.joinTimedOut x a w0 ∈ (i.run pre).published op0 →
        EngineEvent.joinTimedOut x a w ∈ m.published op →
        ∃ d ∈ (i.run (pre ++ [op0])).runDeliveries (mid ++ [op]),
          d.token.activation = a ∧ g.nodeId d.token.node = x ∧ d.outcome = some (.ran .done)) := by
  intro i m D
  refine ⟨(timed_reached recordTrace invocations ops (by omega)).1,published_timeouts_none recordTrace invocations ops op hn,
    fun lim hT => published_timeouts_some recordTrace invocations hc ops op hb hn hT,?_⟩
  intro pre mid op0 x a w0 w hops h0 h1
  exact timeout_renewed_by_done recordTrace invocations hc ops op hb hn hops h0 h1

end Runs

def waitAlways : ScriptedType where
  id := "test.join"
  pins := [PinType.flowIn,PinType.flowIn]
  script := [{ state := .waiting }]
  emit := false

def keepBusy : ScriptedType where
  id := "test.busy"
  pins := [PinType.flowIn]
  script := [{ state := .executing }]
  emit := false

/-- A start node wired into a join of `waitAlways` and into a node of `keepBusy`, which keeps
the activation live while the join waits, under a limit of one tick. -/
def timeoutDoc : Graph where
  id := ⟨12⟩
  name := "timeout"
  nodes := [{ id := ⟨1⟩,nodeType := "flow.start" },{ id := ⟨2⟩,nodeType := "test.join" },
    { id := ⟨3⟩,nodeType := "test.busy" }]
  connections := [⟨⟨1⟩,0,⟨2⟩,0⟩,⟨⟨1⟩,0,⟨3⟩,0⟩]
  settings := { joinTimeoutTicks := some 1 }

def timeoutRegistry : Registry := (Registry.standard.register (.scripted waitAlways)).register (.scripted keepBusy)

def timeoutGraph : CompiledGraph := (CompiledGraph.compile timeoutRegistry timeoutDoc).toOption.getD default

theorem compile_timeoutDoc : CompiledGraph.compile timeoutRegistry timeoutDoc = .ok timeoutGraph := by
  have h : (CompiledGraph.compile timeoutRegistry timeoutDoc).toBool = true := by decide +kernel
  unfold timeoutGraph
  revert h
  cases CompiledGraph.compile timeoutRegistry timeoutDoc with
  | error e => exact fun h => by cases h
  | ok g => exact fun _ => rfl

def timeoutOps : List HostOp := [HostOp.trigger ⟨1⟩,.tick Binary64.zero,.tick Binary64.zero,.tick Binary64.zero]

theorem timeoutGraph_births :
    ((Instance.create timeoutGraph false).runBirths (timeoutOps ++ [.tick Binary64.zero])).length = 3 := by
  cbv

theorem timeoutGraph_timedOut :
    (((Instance.create timeoutGraph false).run timeoutOps).published (.tick Binary64.zero)).filter
      EngineEvent.isJoinTimedOut = [.joinTimedOut ⟨2⟩ 1 2] := by
  cbv

/-- Join timeouts on the timeout graph at its fourth tick, which reports the join's timeout: it
first waited at the second tick, and has now waited two ticks, one past the limit. -/
theorem join_timeouts_fire_once_busy :
    let i := Instance.create timeoutGraph false
    let m := i.run timeoutOps
    let op := HostOp.tick Binary64.zero
    let D := i.runDeliveries (timeoutOps ++ [op])
    CompiledGraph.compile timeoutRegistry timeoutDoc = .ok timeoutGraph ∧
      (i.runBirths (timeoutOps ++ [op])).length < 2 ^ 64 ∧ timeoutOps.length + 1 < 2 ^ 64 ∧
      (m.published op).filter EngineEvent.isJoinTimedOut = [.joinTimedOut ⟨2⟩ 1 2] ∧
      (m.store.Timed timeoutGraph.settings.joinTimeoutTicks m.tick.toNat 0 ∧
        (timeoutGraph.settings.joinTimeoutTicks = none → (m.published op).filter EngineEvent.isJoinTimedOut = []) ∧
        (∀ lim, timeoutGraph.settings.joinTimeoutTicks = some lim →
          ∃ K : List (UInt64 × Nat), K.Pairwise (fun x y => x.1 < y.1 ∨ x.1 = y.1 ∧ x.2 < y.2) ∧
            (∀ a n, (a,n) ∈ K ↔ m.ticks op = true ∧
              (∃ u ∈ (m.perform op).running ++ (m.perform op).pending, u.activation = a) ∧ Waits n a D = true ∧
              (firstWait (window n a D)).map (fun w => w.toNat + lim + 1) = some (m.perform op).tick.toNat) ∧
            (m.published op).filter EngineEvent.isJoinTimedOut =
              K.map fun k => .joinTimedOut (timeoutGraph.nodeId k.2) k.1 (UInt64.ofNat (lim + 1))) ∧
        (∀ (pre mid : List HostOp) (op0 : HostOp) (x : Uuid) (a w0 w : UInt64), timeoutOps = pre ++ op0 :: mid →
          EngineEvent.joinTimedOut x a w0 ∈ (i.run pre).published op0 →
          EngineEvent.joinTimedOut x a w ∈ m.published op →
          ∃ d ∈ (i.run (pre ++ [op0])).runDeliveries (mid ++ [op]),
            d.token.activation = a ∧ timeoutGraph.nodeId d.token.node = x ∧ d.outcome = some (.ran .done))) := by
  intro i m op D
  have hb : (i.runBirths (timeoutOps ++ [op])).length < 2 ^ 64 := by
    rw [timeoutGraph_births]
    decide
  have hn : timeoutOps.length + 1 < 2 ^ 64 := by
    rw [show timeoutOps.length = 4 from rfl]
    decide
  exact ⟨compile_timeoutDoc,hb,hn,timeoutGraph_timedOut,
    join_timeouts_fire_once false [] compile_timeoutDoc timeoutOps op hb hn⟩

end Tickflow
