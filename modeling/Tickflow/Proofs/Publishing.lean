import Tickflow.Proofs.Run
/-! # What an instance publishes

The event log only grows, and `Publishes` composes along a run. Each part of a delivery publishes
events of its own kind only, so a delivery publishes one completion when its node is done or
latched and none otherwise, and no change of status but the finish.
-/
namespace Tickflow

def EngineEvent.isLifecycle : EngineEvent → Bool
  | .instanceStarted _ | .instanceFinished _ | .instanceAborted _ => true
  | _ => false

def EngineEvent.isCompletion : EngineEvent → Bool
  | .nodeCompleted .. => true
  | _ => false

namespace Instance

/-- From `i` to `j` the event log only grew, and of the events it gained, `p` selects `L`. -/
def Publishes (p : EngineEvent → Bool) (i j : Instance) (L : List EngineEvent) : Prop :=
  ∃ new, j.events.toList = i.events.toList ++ new ∧ new.filter p = L

namespace Publishes

variable {p : EngineEvent → Bool}

theorem refl (i : Instance) : Publishes p i i [] := ⟨[],by simp,rfl⟩

theorem trans {i j k : Instance} {L₁ L₂ : List EngineEvent} (h₁ : Publishes p i j L₁)
    (h₂ : Publishes p j k L₂) : Publishes p i k (L₁ ++ L₂) := by
  obtain ⟨n₁,e₁,f₁⟩ := h₁
  obtain ⟨n₂,e₂,f₂⟩ := h₂
  exact ⟨n₁ ++ n₂,by rw [e₂,e₁,List.append_assoc],by rw [List.filter_append,f₁,f₂]⟩

theorem of_eq {i j : Instance} (h : j.events = i.events) : Publishes p i j [] :=
  ⟨[],by rw [h,List.append_nil],rfl⟩

theorem of_append {i j : Instance} {l : List EngineEvent} (h : j.events = i.events ++ l.toArray) :
    Publishes p i j (l.filter p) :=
  ⟨l,by simp [h],rfl⟩

theorem of_push {i j : Instance} {e : EngineEvent} (h : j.events = i.events.push e) :
    Publishes p i j ([e].filter p) :=
  ⟨[e],by simp [h],rfl⟩

theorem of_push_true {i j : Instance} {e : EngineEvent} (h : j.events = i.events.push e) (he : p e = true) :
    Publishes p i j [e] :=
  ⟨[e],by simp [h],by simp [he]⟩

theorem of_push_false {i j : Instance} {e : EngineEvent} (h : j.events = i.events.push e) (he : p e = false) :
    Publishes p i j [] :=
  ⟨[e],by simp [h],by simp [he]⟩

theorem foldl {α : Type} (F : Instance → α → Instance) (hF : ∀ k x, Publishes p k (F k x) [])
    (l : List α) (k : Instance) : Publishes p k (l.foldl F k) [] := by
  induction l generalizing k with
  | nil => exact refl k
  | cons x rest ih => simpa using (hF k x).trans (ih (F k x))

theorem filter {i j : Instance} {L : List EngineEvent} (h : Publishes p i j L) (q : EngineEvent → Bool)
    (hq : ∀ e, q e = true → p e = true) : Publishes q i j (L.filter q) := by
  obtain ⟨new,he,hf⟩ := h
  refine ⟨new,he,?_⟩
  rw [← hf,List.filter_filter]
  exact List.filter_congr fun e _ => by
    cases hqe : q e
    · rfl
    · simp [hq e hqe]

end Publishes

section Delivery

variable {p : EngineEvent → Bool}

theorem invoke_events (i : Instance) (n : CompiledNode) (t : Token) (dt : Binary64) :
    (i.invoke n t dt).2.events = i.events ++ ((i.invoke n t dt).1.events.map (.nodeEvent n.spec.id)).toArray := by
  dsimp only [invoke]
  rw [foldl_emit]

theorem publishes_invoke (hp : ∀ node e, p (.nodeEvent node e) = false) (i : Instance) (n : CompiledNode)
    (t : Token) (dt : Binary64) : Publishes p i (i.invoke n t dt).2 [] := by
  have h := Publishes.of_append (p := p) (invoke_events i n t dt)
  rwa [List.filter_eq_nil_iff.mpr fun e he => by
    obtain ⟨m,-,rfl⟩ := List.mem_map.mp he
    simp [hp]] at h

theorem publishes_send (i : Instance) (act : UInt64) (target : FlowTarget) :
    Publishes p i (i.send act target) [] :=
  Publishes.of_eq (by rw [send_eq])

theorem publishes_complete (i : Instance) (n : CompiledNode) (t : Token) (out : Outcome) :
    Publishes p i (i.complete n t out).2
      (if out.result.firesOutputs then
        [EngineEvent.nodeCompleted n.spec.id n.spec.nodeType t.activation out.result.state
          (checkedOutputs n out.result.outputs) i.tick].filter p
      else []) := by
  unfold complete
  dsimp only
  split
  · rename_i hf
    dsimp only [spawn]
    rw [← List.append_nil (List.filter p _)]
    refine (Publishes.of_push ?_).trans (Publishes.foldl _ (fun k target => publishes_send k t.activation target) _ _)
    rfl
  · exact Publishes.of_eq rfl

theorem publishes_process (hp : ∀ node e, p (.nodeEvent node e) = false) (i : Instance) (t : Token)
    (dt : Binary64) :
    Publishes p i (i.process t dt).2.2
      (match i.graph.node? t.node with
        | some n =>
          if i.store.isLatched t.node t.activation = false ∧ (i.invoke n t dt).1.result.firesOutputs then
            [EngineEvent.nodeCompleted n.spec.id n.spec.nodeType t.activation (i.invoke n t dt).1.result.state
              (checkedOutputs n (i.invoke n t dt).1.result.outputs) i.tick].filter p
          else []
        | none => []) := by
  cases hn : i.graph.node? t.node with
  | none =>
    simp only [process,hn]
    exact Publishes.refl i
  | some n =>
    cases hl : i.store.isLatched t.node t.activation
    · have hc := publishes_complete (p := p) (i.invoke n t dt).2 n t (i.invoke n t dt).1
      rw [(invoke_frame i n t dt).1.tick] at hc
      have h := (publishes_invoke hp i n t dt).trans hc
      rw [List.nil_append] at h
      simpa [process,hn,hl] using h
    · simp only [process,hn,hl,if_true]
      exact Publishes.of_eq rfl

theorem publishes_releaseActivation (hp : ∀ node a arr exp, p (.joinStalled node a arr exp) = false)
    (i : Instance) (act : UInt64) : Publishes p i (i.releaseActivation act) [] := by
  unfold releaseActivation
  refine (Publishes.of_eq (j := { i with store := (i.store.release act).2 }) rfl).trans
    (Publishes.foldl _ (fun k e => ?_) _ _)
  obtain ⟨idx,slot⟩ := e
  dsimp only
  split
  · exact Publishes.of_push_false rfl (hp _ _ _ _)
  · exact Publishes.refl k

theorem publishes_settle (hp : ∀ node a arr exp, p (.joinStalled node a arr exp) = false) (i : Instance)
    (t : Token) (keep : Bool) : Publishes p i (i.settle t keep) [] := by
  unfold settle consume
  split
  · exact Publishes.of_eq rfl
  · dsimp only
    split
    · exact (Publishes.of_eq (j := { i with store := _ }) rfl).trans
        (publishes_releaseActivation hp _ t.activation)
    · exact Publishes.of_eq rfl

end Delivery

theorem publishes_deliver_lifecycle (i : Instance) (t : Token) (dt : Binary64) :
    Publishes EngineEvent.isLifecycle i (i.deliver t dt).2 [] := by
  have h := (publishes_process (p := EngineEvent.isLifecycle) (fun _ _ => rfl) i t dt).trans
    (publishes_settle (fun _ _ _ _ => rfl) _ t (i.process t dt).2.1)
  rw [deliver_eq]
  split at h <;> [split at h; skip] <;> simpa [EngineEvent.isLifecycle] using h

theorem publishes_deliverAll_lifecycle (i : Instance) (batch : List Token) (dt : Binary64) :
    Publishes EngineEvent.isLifecycle i (i.deliverAll batch dt).2 [] := by
  induction batch generalizing i with
  | nil => exact Publishes.refl i
  | cons t rest ih =>
    rw [deliverAll_cons]
    simpa using (publishes_deliver_lifecycle i t dt).trans (ih _)

theorem publishes_checkJoinTimeouts_lifecycle (i : Instance) :
    Publishes EngineEvent.isLifecycle i i.checkJoinTimeouts [] := by
  unfold checkJoinTimeouts
  split
  · exact Publishes.refl i
  · dsimp only
    refine (Publishes.of_eq (j := { i with store := _ }) rfl).trans
      (Publishes.foldl _ (fun k e => ?_) _ _)
    obtain ⟨_,_,_⟩ := e
    dsimp only
    exact Publishes.of_push_false rfl rfl

end Instance

end Tickflow
