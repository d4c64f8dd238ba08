import Tickflow.Proofs.Publishing
import Tickflow.Proofs.Lineage
/-! # The life of an instance

An instance is idle until a trigger, runs while it has live tokens, finishes at the tick that
consumes its last one, and stops for good at an abort. Each change of status publishes its own
event; `lifecycle_state_machine` gathers this for every point of every run.
-/
namespace Tickflow

def EngineEvent.isAbort : EngineEvent → Bool
  | .instanceAborted _ => true
  | _ => false

namespace Instance

/-- Whether a host operation starts an activation: a trigger that succeeds, or a start that
triggers at least one entry. -/
def activates (i : Instance) : HostOp → Bool
  | .trigger node =>
    match i.trigger node with
    | .ok _ => true
    | .error _ => false
  | .start => !i.start.1.isEmpty
  | _ => false

/-- Whether a host operation stops the instance: an abort, or a tick after a cancellation. -/
def stops (i : Instance) : HostOp → Bool
  | .abort => true
  | .tick _ => i.cancelled
  | _ => false

/-- Whether a host operation runs a tick: a tick that finds the instance running and not
cancelled. -/
def ticks (i : Instance) : HostOp → Bool
  | .tick _ => !i.cancelled && i.status == .running
  | _ => false

/-- Whether a host operation runs a tick after which no token is live. -/
def drains (i : Instance) : HostOp → Bool
  | .tick dt => i.ticks (.tick dt) && (i.step dt).2.liveTokens == 0
  | _ => false

/-- The lifecycle events that a change of status from `i` to `j` publishes: a start when an idle
or finished instance comes to run, a finish carrying the tick count when a running one
finishes, and an abort carrying the discarded tokens when one that was not aborted stops. -/
def lifecycleNotices (i j : Instance) : List EngineEvent :=
  match i.status,j.status with
  | .idle,.running | .finished,.running => [.instanceStarted i.graph.id]
  | .running,.finished => [.instanceFinished j.tick]
  | .aborted,_ => []
  | _,.aborted => [.instanceAborted i.liveTokens]
  | _,_ => []

theorem lifecycleNotices_of_status_eq {i j : Instance} (h : j.status = i.status) :
    lifecycleNotices i j = [] := by
  unfold lifecycleNotices
  rw [h]
  cases i.status <;> rfl

theorem lifecycleNotices_of_running (i j : Instance) (h : j.status = .running) :
    lifecycleNotices i j =
      if i.status = .idle ∨ i.status = .finished then [.instanceStarted i.graph.id] else [] := by
  unfold lifecycleNotices
  rw [h]
  cases i.status <;> rfl

theorem lifecycleNotices_of_aborted {i j : Instance} (hi : i.status ≠ .aborted) (hj : j.status = .aborted) :
    lifecycleNotices i j = [.instanceAborted i.liveTokens] := by
  unfold lifecycleNotices
  rw [hj]
  cases h : i.status <;> simp_all

/-- `j` is `i` after it started one or more activations: `i` could be triggered, and `j` runs
with a live token and has published a start if `i` was idle or finished. -/
structure Activated (i j : Instance) : Prop where
  live : i.status ≠ .aborted ∧ i.cancelled = false
  status : j.status = .running
  queued : j.running ++ j.pending ≠ []
  tick : j.tick = i.tick
  cancelled : j.cancelled = i.cancelled
  graph : j.graph = i.graph
  publishes : Publishes EngineEvent.isLifecycle i j (lifecycleNotices i j)

theorem Activated.trans {i j k : Instance} (h₁ : Activated i j) (h₂ : Activated j k) : Activated i k where
  live := h₁.live
  status := h₂.status
  queued := h₂.queued
  tick := h₂.tick.trans h₁.tick
  cancelled := h₂.cancelled.trans h₁.cancelled
  graph := h₂.graph.trans h₁.graph
  publishes := by
    have h := h₁.publishes.trans h₂.publishes
    rwa [lifecycleNotices_of_running j k h₂.status,h₁.status,if_neg (by simp),List.append_nil,
      lifecycleNotices_of_running i j h₁.status,← lifecycleNotices_of_running i k h₂.status] at h

theorem Activated.of_trigger {i j : Instance} {node : Uuid} {act : UInt64} (h : i.trigger node = .ok (act,j)) :
    Activated i j := by
  obtain ⟨idx,hs,hc,-,-,ha⟩ := trigger_eq_ok h
  rw [← (Prod.mk.inj ha).2]
  by_cases hr : i.status = .running
  · simp only [hr,if_true]
    refine ⟨⟨hs,hc⟩,rfl,by simp [enqueue],rfl,rfl,rfl,?_⟩
    rw [lifecycleNotices_of_running _ _ rfl,if_neg (by simp [hr])]
    exact Publishes.of_eq rfl
  · have hw : i.status = .idle ∨ i.status = .finished := by
      cases h : i.status <;> simp_all
    simp only [hr,if_false]
    refine ⟨⟨hs,hc⟩,rfl,by simp [enqueue],rfl,rfl,rfl,?_⟩
    rw [lifecycleNotices_of_running _ _ rfl,if_pos hw]
    exact Publishes.of_push_true rfl rfl

theorem foldl_startEntry_activated (entries : List Nat) (acts : List UInt64) (k : Instance) :
    let r := entries.foldl startEntry (acts,none,k)
    (r.1 = acts ∧ r.2.2 = k) ∨ (r.1 ≠ acts ∧ Activated k r.2.2) := by
  induction entries generalizing acts k with
  | nil => exact Or.inl ⟨rfl,rfl⟩
  | cons idx rest ih =>
    dsimp only
    rw [List.foldl_cons]
    simp only [startEntry]
    split
    · rename_i act j ht
      have hj := Activated.of_trigger ht
      obtain ⟨more,hm⟩ := foldl_startEntry_acts rest (acts ++ [act],none,j)
      refine Or.inr ⟨by rw [hm]; simp,?_⟩
      rcases ih (acts ++ [act]) j with ⟨-,h2⟩ | ⟨-,h2⟩
      · rw [h2]
        exact hj
      · exact hj.trans h2
    · rw [foldl_startEntry_error]
      exact Or.inl ⟨rfl,rfl⟩

theorem perform_of_activating (i : Instance) (op : HostOp) (hop : op = .start ∨ ∃ node, op = .trigger node) :
    (i.activates op = false ∧ i.perform op = i) ∨ (i.activates op = true ∧ Activated i (i.perform op)) := by
  rcases hop with rfl | ⟨node,rfl⟩
  · rcases foldl_startEntry_activated i.graph.entries [] i with ⟨h1,h2⟩ | ⟨h1,h2⟩
    · exact Or.inl ⟨by simp [activates,start,h1],h2⟩
    · exact Or.inr ⟨by simpa [activates,start] using h1,h2⟩
  · cases ht : i.trigger node with
    | error e => exact Or.inl ⟨by simp [activates,ht],by simp [perform,ht]⟩
    | ok r =>
      obtain ⟨act,j⟩ := r
      refine Or.inr ⟨by simp [activates,ht],?_⟩
      simp only [perform,ht]
      exact Activated.of_trigger ht

theorem activates_eq_false (i : Instance) (h : i.status = .aborted ∨ i.cancelled = true) (op : HostOp) :
    i.activates op = false := by
  cases op with
  | trigger node => rcases perform_of_activating i (.trigger node) (Or.inr ⟨node,rfl⟩) with h' | h'
                    · exact h'.1
                    · exact absurd h (by have := h'.2.live; simp_all)
  | start => rcases perform_of_activating i (.start) (Or.inl rfl) with h' | h'
             · exact h'.1
             · exact absurd h (by have := h'.2.live; simp_all)
  | _ => rfl

theorem tickStart_events (i : Instance) : i.tickStart.events = i.events := rfl

theorem step_lifecycle (i : Instance) (dt : Binary64) (hc : i.cancelled = false) (hs : i.status = .running) :
    let j := (i.step dt).2
    j.status = (if j.liveTokens = 0 then .finished else .running) ∧ j.tick = i.tick + 1 ∧
      j.cancelled = false ∧ Publishes EngineEvent.isLifecycle i j (lifecycleNotices i j) := by
  have hd := deliverAll_frame i.tickStart i.tokens dt
  have hp := (Publishes.of_eq (p := EngineEvent.isLifecycle) (tickStart_events i)).trans
    (publishes_deliverAll_lifecycle i.tickStart i.tokens dt)
  simp only [step,hc,hs,Bool.false_eq_true,if_false,ne_eq,not_true_eq_false]
  rcases hdel : i.tickStart.deliverAll i.tokens dt with ⟨sent,m⟩
  rw [hdel] at hd hp
  obtain ⟨hf,-,-,-,-,-⟩ := checkJoinTimeouts_frame m
  have hq := hp.trans (publishes_checkJoinTimeouts_lifecycle m)
  have hs' : m.checkJoinTimeouts.status = .running := hf.status.trans (hd.status.trans hs)
  have ht' : m.checkJoinTimeouts.tick = i.tick + 1 := hf.tick.trans hd.tick
  have hc' : m.checkJoinTimeouts.cancelled = false := hf.cancelled.trans (hd.cancelled.trans hc)
  simp only [List.append_nil] at hq
  simp only [tickEnd]
  split
  · rename_i h0
    have hl : (({ m.checkJoinTimeouts with status := .finished } : Instance).emit
        (.instanceFinished m.checkJoinTimeouts.tick)).liveTokens = 0 := h0
    refine ⟨by rw [if_pos hl]; rfl,ht',hc',?_⟩
    rw [show lifecycleNotices i (({ m.checkJoinTimeouts with status := .finished } : Instance).emit
        (.instanceFinished m.checkJoinTimeouts.tick)) = [.instanceFinished m.checkJoinTimeouts.tick] by
      simp [lifecycleNotices,hs,emit]]
    exact hq.trans (Publishes.of_push_true rfl rfl)
  · rename_i h0
    refine ⟨by simp [hs'],ht',hc',?_⟩
    rw [lifecycleNotices_of_status_eq (hs'.trans hs.symm)]
    exact hq

theorem abort_lifecycle (i : Instance) :
    i.abort.status = .aborted ∧ i.abort.tick = i.tick ∧ (i.cancelled = true → i.abort.cancelled = true) ∧
      Publishes EngineEvent.isLifecycle i i.abort (lifecycleNotices i i.abort) ∧
      (i.status = .aborted → i.abort = i) ∧ (i.status ≠ .aborted → i.abort.running ++ i.abort.pending = []) := by
  unfold abort
  split
  · rename_i h
    refine ⟨h,rfl,id,?_,fun _ => rfl,fun h' => absurd h h'⟩
    rw [lifecycleNotices_of_status_eq rfl]
    exact Publishes.refl i
  · rename_i h
    refine ⟨rfl,rfl,fun _ => rfl,?_,fun h' => absurd h' h,fun _ => rfl⟩
    rw [lifecycleNotices_of_aborted h rfl]
    exact Publishes.of_push_true rfl rfl

theorem status_perform (i : Instance) (op : HostOp) :
    (i.perform op).status =
      if i.stops op then .aborted else if i.activates op then .running
      else if i.drains op then .finished else i.status := by
  cases op with
  | trigger node =>
    rcases perform_of_activating i (.trigger node) (Or.inr ⟨node,rfl⟩) with ⟨h1,h2⟩ | ⟨h1,h2⟩
    · simp [h1,h2,stops,drains]
    · simp [h1,h2.status,stops]
  | start =>
    rcases perform_of_activating i (.start) (Or.inl rfl) with ⟨h1,h2⟩ | ⟨h1,h2⟩
    · simp [h1,h2,stops,drains]
    · simp [h1,h2.status,stops]
  | tick dt =>
    cases hc : i.cancelled
    · by_cases hs : i.status = .running
      · obtain ⟨h1,-,-,-⟩ := step_lifecycle i dt hc hs
        simp only [perform,stops,activates,drains,ticks,hc,hs]
        by_cases h0 : (i.step dt).2.liveTokens = 0 <;> simp [h1,h0]
      · rw [perform_tick_of_stopped i dt hc hs]
        simp [stops,activates,drains,ticks,hc,hs]
    · rw [perform_tick_of_cancelled i dt hc]
      simp [perform,stops,hc,abort_status]
  | abort => simp [perform,stops,abort_status]
  | cancel => simp [perform,stops,activates,drains,cancel]
  | setVariable name v => simp [perform,stops,activates,drains,setVariable]

theorem tick_perform (i : Instance) (op : HostOp) :
    (i.perform op).tick = if i.ticks op then i.tick + 1 else i.tick := by
  cases op with
  | trigger node =>
    rcases perform_of_activating i (.trigger node) (Or.inr ⟨node,rfl⟩) with ⟨-,h2⟩ | ⟨-,h2⟩
    · simp [h2,ticks]
    · simp [h2.tick,ticks]
  | start =>
    rcases perform_of_activating i (.start) (Or.inl rfl) with ⟨-,h2⟩ | ⟨-,h2⟩
    · simp [h2,ticks]
    · simp [h2.tick,ticks]
  | tick dt =>
    cases hc : i.cancelled
    · by_cases hs : i.status = .running
      · simp [perform,ticks,hc,hs,(step_lifecycle i dt hc hs).2.1]
      · rw [perform_tick_of_stopped i dt hc hs]
        simp [ticks,hc,hs]
    · rw [perform_tick_of_cancelled i dt hc]
      simp [perform,ticks,hc,(abort_lifecycle i).2.1]
  | abort => simp [perform,ticks,(abort_lifecycle i).2.1]
  | cancel => simp [perform,ticks,cancel]
  | setVariable name v => simp [perform,ticks,setVariable]

theorem cancelled_perform (i : Instance) (op : HostOp) (h : i.cancelled = true ∨ op = .cancel) :
    (i.perform op).cancelled = true := by
  rcases h with h | rfl
  · cases op with
    | trigger node =>
      rcases perform_of_activating i (.trigger node) (Or.inr ⟨node,rfl⟩) with ⟨-,h2⟩ | ⟨-,h2⟩
      · rw [h2,h]
      · rw [h2.cancelled,h]
    | start =>
      rcases perform_of_activating i (.start) (Or.inl rfl) with ⟨-,h2⟩ | ⟨-,h2⟩
      · rw [h2,h]
      · rw [h2.cancelled,h]
    | tick dt =>
      rw [perform_tick_of_cancelled i dt h]
      exact (abort_lifecycle i).2.2.1 h
    | abort => exact (abort_lifecycle i).2.2.1 h
    | cancel => rfl
    | setVariable name v => exact h
  · rfl

theorem publishes_perform (i : Instance) (op : HostOp) :
    Publishes EngineEvent.isLifecycle i (i.perform op) (lifecycleNotices i (i.perform op)) := by
  cases op with
  | trigger node =>
    rcases perform_of_activating i (.trigger node) (Or.inr ⟨node,rfl⟩) with ⟨-,h2⟩ | ⟨-,h2⟩
    · rw [h2,lifecycleNotices_of_status_eq rfl]
      exact Publishes.refl i
    · exact h2.publishes
  | start =>
    rcases perform_of_activating i (.start) (Or.inl rfl) with ⟨-,h2⟩ | ⟨-,h2⟩
    · rw [h2,lifecycleNotices_of_status_eq rfl]
      exact Publishes.refl i
    · exact h2.publishes
  | tick dt =>
    cases hc : i.cancelled
    · by_cases hs : i.status = .running
      · exact (step_lifecycle i dt hc hs).2.2.2
      · rw [perform_tick_of_stopped i dt hc hs,lifecycleNotices_of_status_eq rfl]
        exact Publishes.refl i
    · rw [perform_tick_of_cancelled i dt hc]
      exact (abort_lifecycle i).2.2.2.1
  | abort => exact (abort_lifecycle i).2.2.2.1
  | cancel =>
    rw [lifecycleNotices_of_status_eq (i := i) (j := i.perform .cancel) rfl]
    exact Publishes.of_eq rfl
  | setVariable name v =>
    rw [lifecycleNotices_of_status_eq (i := i) (j := i.perform (.setVariable name v)) rfl]
    exact Publishes.of_eq rfl

def Lively (i : Instance) : Prop := i.status = .running ↔ i.running ++ i.pending ≠ []

theorem Lively.create (g : CompiledGraph) (recordTrace : Bool) (invocations : List (String × Nat)) :
    Lively (Instance.create g recordTrace invocations) := by
  simp [Lively,Instance.create]

theorem Lively.perform {i : Instance} (h : Lively i) (op : HostOp) : Lively (i.perform op) := by
  have habort : Lively i.abort := by
    by_cases ha : i.status = .aborted
    · rw [(abort_lifecycle i).2.2.2.2.1 ha]
      exact h
    · simp [Lively,(abort_lifecycle i).1,(abort_lifecycle i).2.2.2.2.2 ha]
  cases op with
  | trigger node =>
    rcases perform_of_activating i (.trigger node) (Or.inr ⟨node,rfl⟩) with ⟨-,h2⟩ | ⟨-,h2⟩
    · rwa [h2]
    · exact iff_of_true h2.status h2.queued
  | start =>
    rcases perform_of_activating i (.start) (Or.inl rfl) with ⟨-,h2⟩ | ⟨-,h2⟩
    · rwa [h2]
    · exact iff_of_true h2.status h2.queued
  | tick dt =>
    cases hc : i.cancelled
    · by_cases hs : i.status = .running
      · have h1 := (step_lifecycle i dt hc hs).1
        simp only [Lively,Instance.perform,h1]
        by_cases h0 : (i.step dt).2.liveTokens = 0
        · have h0' := h0
          simp only [liveTokens,Nat.add_eq_zero_iff,List.length_eq_zero_iff] at h0'
          simp [h0,h0']
        · simp only [liveTokens] at h0
          simp only [liveTokens,h0,if_false,ne_eq,List.append_eq_nil_iff,true_iff]
          rintro ⟨h3,h4⟩
          simp [h3,h4] at h0
      · rwa [perform_tick_of_stopped i dt hc hs]
    · rw [perform_tick_of_cancelled i dt hc]
      exact habort
  | abort => exact habort
  | cancel => exact h
  | setVariable name v => exact h

/-- Running exactly while tokens are live is running exactly while a token is live and the
instance is not aborted. -/
theorem Lively.running_iff {i : Instance} (h : Lively i) :
    i.status = .running ↔ 0 < i.liveTokens ∧ i.status ≠ .aborted := by
  have hl : i.status = .running ↔ i.running ++ i.pending ≠ [] := h
  have hp : 0 < i.liveTokens ↔ i.running ++ i.pending ≠ [] := by
    rw [liveTokens,Nat.add_comm,← List.length_append,List.length_pos_iff]
  constructor
  · intro hr
    exact ⟨hp.mpr (hl.mp hr),by simp [hr]⟩
  · rintro ⟨h0,-⟩
    exact hl.mpr (hp.mp h0)

theorem run_concat (i : Instance) (ops : List HostOp) (op : HostOp) :
    i.run (ops ++ [op]) = (i.run ops).perform op := by
  induction ops generalizing i with
  | nil => rfl
  | cons o rest ih => exact ih (i.perform o)

theorem Lively.run {i : Instance} (h : Lively i) (ops : List HostOp) : Lively (i.run ops) := by
  induction ops generalizing i with
  | nil => exact h
  | cons op rest ih => exact ih (h.perform op)

theorem aborted_perform {i : Instance} (h : i.status = .aborted) (op : HostOp) : (i.perform op).status = .aborted := by
  rw [status_perform,activates_eq_false i (Or.inl h)]
  have hd : i.drains op = false := by
    cases op <;> simp [drains,ticks,h]
  simp [hd,h]

theorem drains_eq_true {i : Instance} {op : HostOp} (h : i.drains op = true) :
    ∃ dt, op = .tick dt ∧ i.cancelled = false ∧ i.status = .running := by
  cases op with
  | tick dt =>
    simp only [drains,ticks,Bool.and_eq_true,Bool.not_eq_eq_eq_not,Bool.not_true,beq_iff_eq] at h
    exact ⟨dt,rfl,h.1.1,h.1.2⟩
  | _ => simp [drains] at h

theorem idle_perform (i : Instance) (op : HostOp) :
    (i.perform op).status = .idle ↔ i.status = .idle ∧ i.activates op = false ∧ i.stops op = false := by
  rw [status_perform]
  cases hd : i.drains op
  · cases hs : i.stops op <;> cases ha : i.activates op <;> simp
  · obtain ⟨dt,rfl,hc,hr⟩ := drains_eq_true hd
    simp [stops,activates,hc,hr]

theorem finished_perform (i : Instance) (op : HostOp) :
    (i.perform op).status = .finished ↔
      i.drains op = true ∨ (i.status = .finished ∧ i.activates op = false ∧ i.stops op = false) := by
  rw [status_perform]
  cases hd : i.drains op
  · cases hs : i.stops op <;> cases ha : i.activates op <;> simp
  · obtain ⟨dt,rfl,hc,-⟩ := drains_eq_true hd
    simp [stops,activates,hc]

theorem idle_run (i : Instance) (hi : i.status = .idle) (pre : List HostOp) :
    (i.run pre).status = .idle ↔ (i.run pre).status ≠ .aborted ∧
      ∀ (pre' : List HostOp) (op' : HostOp), pre' ++ [op'] <+: pre → (i.run pre').activates op' = false := by
  induction pre using List.reverseRecOn with
  | nil =>
    refine iff_of_true hi ⟨by simp [run,hi],fun pre' op' hp => ?_⟩
    simpa using hp.length_le
  | append_singleton pre op ih =>
    rw [run_concat,idle_perform]
    have hpre : ∀ (pre' : List HostOp) (op' : HostOp), pre' ++ [op'] <+: pre ++ [op] ↔
        pre' ++ [op'] = pre ++ [op] ∨ pre' ++ [op'] <+: pre := fun pre' op' => List.prefix_concat_iff
    constructor
    · rintro ⟨h1,h2,h3⟩
      obtain ⟨-,h4⟩ := ih.mp h1
      refine ⟨by rw [(idle_perform _ op).mpr ⟨h1,h2,h3⟩]; decide,fun pre' op' hp => ?_⟩
      rcases (hpre pre' op').mp hp with he | hp'
      · obtain ⟨rfl,hop⟩ := List.append_inj' he rfl
        rw [(List.cons.inj hop).1]
        exact h2
      · exact h4 pre' op' hp'
    · rintro ⟨h1,h2⟩
      have h3 : (i.run pre).stops op = false := by
        rw [status_perform] at h1
        cases hs : (i.run pre).stops op
        · rfl
        · simp [hs] at h1
      have h4 : (i.run pre).status ≠ .aborted := fun ha => h1 (aborted_perform ha op)
      have h5 : (i.run pre).activates op = false := h2 pre op (List.prefix_refl _)
      exact ⟨ih.mpr ⟨h4,fun pre' op' hp => h2 pre' op' (hp.trans (List.prefix_append _ _))⟩,h5,h3⟩

theorem countP_isAbort_perform (i : Instance) (op : HostOp)
    (h : i.events.toList.countP EngineEvent.isAbort = if i.status = .aborted then 1 else 0) :
    (i.perform op).events.toList.countP EngineEvent.isAbort = if (i.perform op).status = .aborted then 1 else 0 := by
  obtain ⟨new,he,hf⟩ := (publishes_perform i op).filter EngineEvent.isAbort (fun e he => by
    cases e <;> simp_all [EngineEvent.isAbort,EngineEvent.isLifecycle])
  rw [he,List.countP_append,h,List.countP_eq_length_filter (l := new),hf]
  by_cases ha : i.status = .aborted
  · rw [aborted_perform ha op,if_pos ha,if_pos rfl]
    simp [lifecycleNotices,ha]
  · rw [if_neg ha]
    unfold lifecycleNotices
    cases hi : i.status <;> cases hj : (i.perform op).status <;> simp_all [EngineEvent.isAbort,List.filter_cons]

theorem countP_isAbort_run {i : Instance}
    (h : i.events.toList.countP EngineEvent.isAbort = if i.status = .aborted then 1 else 0) (ops : List HostOp) :
    (i.run ops).events.toList.countP EngineEvent.isAbort = if (i.run ops).status = .aborted then 1 else 0 := by
  induction ops generalizing i with
  | nil => exact h
  | cons op rest ih => exact ih (countP_isAbort_perform i op h)

theorem step_of_aborted {i : Instance} (h : i.status = .aborted) (dt : Binary64) :
    i.step dt = ({ tick := i.tick,finished := false },i) := by
  cases hc : i.cancelled
  · rw [step_of_stopped i dt hc (by simp [h])]
    simp [h]
  · rw [step_of_cancelled i dt hc,(abort_lifecycle i).2.2.2.2.1 h]

theorem trigger_of_stopped {i : Instance} (h : i.status = .aborted ∨ i.cancelled = true) (node : Uuid) :
    i.trigger node = .error .instanceAborted := by
  simp [trigger,h,throw,throwThe,MonadExceptOf.throw,bind,Except.bind]

end Instance

/-- The lifecycle of an instance at every point of every run: when it runs, is idle, finishes
and stays aborted or cancelled, how the tick counter moves, and which status events each
operation publishes (`lifecycleNotices`). -/
theorem lifecycle_state_machine (g : CompiledGraph) (recordTrace : Bool) (invocations : List (String × Nat))
    (pre : List HostOp) (op : HostOp) :
    let i₀ := Instance.create g recordTrace invocations
    let i := i₀.run pre
    let j := i.perform op
    (i.status = .running ↔ 0 < i.liveTokens ∧ i.status ≠ .aborted) ∧
      (i.status = .idle ↔ i.status ≠ .aborted ∧
        ∀ (pre' : List HostOp) (op' : HostOp), pre' ++ [op'] <+: pre → (i₀.run pre').activates op' = false) ∧
      (j.status = .finished ↔
        i.drains op = true ∨ (i.status = .finished ∧ i.activates op = false ∧ i.stops op = false)) ∧
      (i.status = .aborted → j.status = .aborted ∧ (∀ node, i.trigger node = .error .instanceAborted) ∧
        (∀ dt, (i.step dt).1.delivered = 0 ∧ (i.step dt).2.tick = i.tick) ∧ i.abort = i) ∧
      ((i.cancelled = true ∨ op = .cancel) → j.cancelled = true) ∧
      (i.cancelled = true →
        (∀ node, i.trigger node = .error .instanceAborted) ∧ ∀ dt, (i.step dt).2.status = .aborted) ∧
      j.tick = (if i.ticks op then i.tick + 1 else i.tick) ∧
      (∃ new, j.events.toList = i.events.toList ++ new ∧
        new.filter EngineEvent.isLifecycle = Instance.lifecycleNotices i j) ∧
      i.events.toList.countP EngineEvent.isAbort = if i.status = .aborted then 1 else 0 := by
  intro i₀ i j
  have hidle : i₀.status = .idle := rfl
  have hlive : Instance.Lively i := (Instance.Lively.create g recordTrace invocations).run pre
  refine ⟨hlive.running_iff,Instance.idle_run i₀ hidle pre,Instance.finished_perform i op,?_,Instance.cancelled_perform i op,?_,
    Instance.tick_perform i op,Instance.publishes_perform i op,
    Instance.countP_isAbort_run (i := i₀) (by simp [i₀,Instance.create]) pre⟩
  · intro ha
    refine ⟨Instance.aborted_perform ha op,Instance.trigger_of_stopped (Or.inl ha),fun dt => ?_,
      (Instance.abort_lifecycle i).2.2.2.2.1 ha⟩
    rw [Instance.step_of_aborted ha dt]
    exact ⟨rfl,rfl⟩
  · intro hc
    refine ⟨Instance.trigger_of_stopped (Or.inr hc),fun dt => ?_⟩
    rw [Instance.step_of_cancelled i dt hc]
    exact Instance.abort_status i

end Tickflow
