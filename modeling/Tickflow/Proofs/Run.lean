import Tickflow.Proofs.Tick
/-! # Runs of an instance

A host drives an instance by triggering, starting, ticking, aborting, cancelling and setting
variables. Every reachable instance keeps its token ledger, has handed out as many sequence
numbers as tokens were created while fewer than `2 ^ 64` were, and has live tokens only while
it runs.
-/
namespace Tickflow

/-- What a host does to an instance. -/
inductive HostOp where
  | trigger (node : Uuid)
  | start
  | tick (dt : Binary64)
  | abort
  | cancel
  | setVariable (name : String) (v : Value)

namespace Instance

/-- The instance after a host operation; a failed trigger leaves it as it was. -/
def perform (i : Instance) : HostOp → Instance
  | .trigger node =>
    match i.trigger node with
    | .ok (_,j) => j
    | .error _ => i
  | .start => i.start.2.2
  | .tick dt => (i.step dt).2
  | .abort => i.abort
  | .cancel => i.cancel
  | .setVariable name v => i.setVariable name v

/-- How many tokens a host operation creates: one for each activation it starts, and at a tick
those the deliveries send. -/
def created (i : Instance) : HostOp → Nat
  | .trigger node =>
    match i.trigger node with
    | .ok _ => 1
    | .error _ => 0
  | .start => i.start.1.length
  | .tick dt => (i.step dt).1.spawned
  | _ => 0

/-- Whether a live token outlives a host operation. A tick of a running instance that was not
cancelled keeps the tokens whose own delivery, made after those of the batch tokens before
them, keeps executing; aborting, by hand or at a tick after a cancellation, keeps none; every
other operation keeps them all. -/
def survives (i : Instance) : HostOp → Token → Bool
  | .tick dt,t =>
    if i.cancelled then false
    else if i.status = .running then
      (i.tickStart.deliverAll (i.tokens.filter (·.seq < t.seq)) dt).2.keeps t dt
    else true
  | .abort,_ => false
  | _,_ => true

end Instance

/-- Two nodes in a row: a start node wired to a stop node. -/
def relayGraph : CompiledGraph where
  id := Uuid.nil
  name := "relay"
  settings := {}
  nodes := #[⟨{ id := ⟨1⟩,nodeType := "flow.start" },.builtin .start,[0],PinSet.empty,[[⟨1,0,false⟩]],[]⟩,
    ⟨{ id := ⟨2⟩,nodeType := "flow.stop" },.builtin .stop,[],PinSet.single 0,[],[]⟩]
  flow := ⟨2,[(0,1)]⟩
  entries := [0]

/-- The instances a host reaches from a fresh one, with the number of tokens created on the
way. -/
inductive Reachable : Instance → Nat → Prop
  | create (g : CompiledGraph) (recordTrace : Bool) (invocations : List (String × Nat)) :
      Reachable (Instance.create g recordTrace invocations) 0
  | perform {i : Instance} {c : Nat} (op : HostOp) :
      Reachable i c → Reachable (i.perform op) (c + i.created op)

theorem reachable_relay_started : Reachable ((Instance.create relayGraph false).perform .start) 1 := by
  have h := Reachable.perform .start (Reachable.create relayGraph false [])
  have hc : 0 + (Instance.create relayGraph false).created .start = 1 := by decide +kernel
  rwa [hc] at h

namespace Instance

theorem Counted.of_live_eq {i j : Instance} {live : List Token} (h : Counted i live)
    (hs : j.store.live = i.store.live) : Counted j live :=
  ⟨fun a => (ActivationStore.liveTokens_of_live_eq hs a).trans (h.counts a),h.positive.of_live_eq hs⟩

theorem Ledger.of_eq {i j : Instance} {live : List Token} (h : Ledger i live)
    (hs : j.store.live = i.store.live) (hn : j.nextSeq = i.nextSeq) : Ledger j live :=
  ⟨h.toCounted.of_live_eq hs,fun t ht => hn ▸ h.fresh t ht,h.distinct⟩

theorem Ledger.of_live_nil {i : Instance} (hs : i.store.live = []) : Ledger i [] := by
  refine ⟨⟨?_,?_⟩,fun t ht => absurd ht List.not_mem_nil,List.nodup_nil⟩
  · intro a
    simp [ActivationStore.liveTokens,hs]
  · intro a
    simp [hs]

theorem Counted.enqueue {i : Instance} {live : List Token} (h : Counted i live) (node pin : Nat)
    (act : UInt64) : Counted (i.enqueue node pin act) (live ++ [⟨i.nextSeq,node,pin,act⟩]) := by
  refine ⟨?_,h.positive.tokenCreated act⟩
  intro a
  have hc := ActivationStore.liveTokens_tokenCreated i.store act a
  have hs : (i.enqueue node pin act).store = i.store.tokenCreated act := rfl
  rw [hs,hc,h.counts a,List.countP_append]
  by_cases ha : act = a
  · simp [ha]
  · simp [ha]

theorem Ledger.enqueue {i : Instance} {live : List Token} (h : Ledger i live) (node pin : Nat)
    (act : UInt64) (hb : i.nextSeq.toNat + 1 < 2 ^ 64) :
    Ledger (i.enqueue node pin act) (live ++ [⟨i.nextSeq,node,pin,act⟩]) ∧
      (i.enqueue node pin act).nextSeq.toNat = i.nextSeq.toNat + 1 := by
  have hn : (i.enqueue node pin act).nextSeq.toNat = i.nextSeq.toNat + 1 := by
    show (i.nextSeq + 1).toNat = _
    rw [UInt64.toNat_add]
    simp only [UInt64.toNat_one]
    omega
  refine ⟨⟨h.toCounted.enqueue node pin act,?_,?_⟩,hn⟩
  · intro t ht
    rw [hn]
    rcases List.mem_append.mp ht with ht | ht
    · have := h.fresh t ht
      omega
    · rw [List.mem_singleton.mp ht]
      show i.nextSeq.toNat < i.nextSeq.toNat + 1
      omega
  · rw [List.map_append,List.nodup_append]
    refine ⟨h.distinct,by simp,?_⟩
    intro a ha b hb hab
    obtain ⟨t,ht,rfl⟩ := List.mem_map.mp ha
    rw [List.map_singleton,List.mem_singleton] at hb
    subst hb
    have := h.fresh t ht
    rw [hab] at this
    exact Nat.lt_irrefl _ this

theorem activate_eq (i : Instance) (idx : Nat) :
    ∃ k : Instance, k.running = i.running ∧ k.pending = i.pending ∧ k.nextSeq = i.nextSeq ∧
      k.store.live = i.store.live ∧ k.store.lastId = i.store.lastId + 1 ∧
      k.store.slots = i.store.slots ∧ k.store.parked = i.store.parked ∧ k.status = .running ∧
      k.graph = i.graph ∧ k.cancelled = i.cancelled ∧
      i.activate idx = (i.store.lastId + 1,k.enqueue idx 0 (i.store.lastId + 1)) := by
  unfold activate
  split
  · rename_i hs
    exact ⟨{ i with store := i.store.mint.2 },rfl,rfl,rfl,rfl,rfl,rfl,rfl,hs,rfl,rfl,rfl⟩
  · exact ⟨{ ({ i with status := .running }.emit (.instanceStarted i.graph.id)) with store := i.store.mint.2 },
      rfl,rfl,rfl,rfl,rfl,rfl,rfl,rfl,rfl,rfl,rfl⟩

theorem trigger_eq_ok {i j : Instance} {node : Uuid} {act : UInt64}
    (h : i.trigger node = .ok (act,j)) :
    ∃ idx, i.status ≠ .aborted ∧ i.cancelled = false ∧ i.graph.indexOf? node = some idx ∧
      idx ∈ i.graph.entries ∧ i.activate idx = (act,j) := by
  unfold trigger at h
  by_cases hs : i.status = .aborted ∨ i.cancelled = true
  · simp [hs,throw,throwThe,MonadExceptOf.throw,bind,Except.bind] at h
  · simp only [not_or,Bool.not_eq_true] at hs
    cases hidx : i.graph.indexOf? node with
    | none => simp [hs,hidx,throw,throwThe,MonadExceptOf.throw] at h
    | some idx =>
      by_cases he : idx ∈ i.graph.entries
      · simp [hs,hidx,he,pure,Except.pure] at h
        exact ⟨idx,hs.1,hs.2,rfl,he,h⟩
      · simp [hs,hidx,he,throw,throwThe,MonadExceptOf.throw,bind,Except.bind] at h

theorem foldl_startEntry_error (acts : List UInt64) (e : ScriptError) (k : Instance) (entries : List Nat) :
    entries.foldl startEntry (acts,some e,k) = (acts,some e,k) := by
  induction entries with
  | nil => rfl
  | cons idx rest ih => exact ih

theorem foldl_startEntry_acts (entries : List Nat) (s : List UInt64 × Option ScriptError × Instance) :
    ∃ more, (entries.foldl startEntry s).1 = s.1 ++ more := by
  induction entries generalizing s with
  | nil => exact ⟨[],by simp⟩
  | cons idx rest ih =>
    obtain ⟨acts,err,k⟩ := s
    obtain ⟨more,hm⟩ := ih (startEntry (acts,err,k) idx)
    rw [List.foldl_cons,hm]
    cases err with
    | some e => exact ⟨more,rfl⟩
    | none =>
      simp only [startEntry]
      split
      · rename_i act _ _
        exact ⟨act :: more,by simp⟩
      · exact ⟨more,rfl⟩

theorem abort_status (i : Instance) : i.abort.status = .aborted := by
  unfold abort
  split
  · assumption
  · rfl

theorem step_of_cancelled (i : Instance) (dt : Binary64) (hc : i.cancelled = true) :
    i.step dt = ({ tick := i.abort.tick,finished := false },i.abort) := by
  simp [step,hc,abort_status]

theorem step_of_stopped (i : Instance) (dt : Binary64) (hc : i.cancelled = false)
    (hs : i.status ≠ .running) : i.step dt = ({ tick := i.tick,finished := i.status = .finished },i) := by
  simp [step,hc,hs]

@[elab_as_elim]
theorem perform_cases {motive : HostOp → Prop} (i : Instance)
    (other : ∀ op, (∀ dt, op ≠ .tick dt) → motive op)
    (running : ∀ dt, i.cancelled = false → i.status = .running → motive (.tick dt))
    (stopped : ∀ dt, i.cancelled = false → i.status ≠ .running → motive (.tick dt))
    (cancelled : ∀ dt, i.cancelled = true → motive (.tick dt)) (op : HostOp) : motive op := by
  cases op with
  | tick dt =>
    cases hc : i.cancelled
    · by_cases hs : i.status = .running
      · exact running dt hc hs
      · exact stopped dt hc hs
    · exact cancelled dt hc
  | trigger node => exact other _ (fun _ h => by cases h)
  | start => exact other _ (fun _ h => by cases h)
  | abort => exact other _ (fun _ h => by cases h)
  | cancel => exact other _ (fun _ h => by cases h)
  | setVariable name v => exact other _ (fun _ h => by cases h)

theorem perform_tick_of_cancelled (i : Instance) (dt : Binary64) (hc : i.cancelled = true) :
    i.perform (.tick dt) = i.perform .abort := by
  show (i.step dt).2 = i.abort
  rw [step_of_cancelled i dt hc]

theorem perform_tick_of_stopped (i : Instance) (dt : Binary64) (hc : i.cancelled = false)
    (hs : i.status ≠ .running) : i.perform (.tick dt) = i := by
  show (i.step dt).2 = i
  rw [step_of_stopped i dt hc hs]

/-- What holds at every reachable instance while fewer than `2 ^ 64` tokens were created: the
ledger over its running and pending tokens, one sequence number handed out for each token
created, and live tokens only while it runs. -/
structure Accounted (i : Instance) (c : Nat) : Prop where
  ledger : Ledger i (i.running ++ i.pending)
  created : i.nextSeq.toNat = c
  running : i.running ++ i.pending ≠ [] → i.status = .running

theorem Accounted.create (g : CompiledGraph) (recordTrace : Bool) (invocations : List (String × Nat)) :
    Accounted (Instance.create g recordTrace invocations) 0 :=
  ⟨Ledger.of_live_nil rfl,rfl,fun h => absurd rfl h⟩

theorem Accounted.live_nil {i : Instance} {c : Nat} (h : Accounted i c) (hs : i.status ≠ .running) :
    i.running ++ i.pending = [] := by
  rcases hl : i.running ++ i.pending with _ | ⟨t,rest⟩
  · rfl
  · exact absurd (h.running (by rw [hl]; exact List.cons_ne_nil t rest)) hs

theorem Accounted.activate {i : Instance} {c : Nat} (h : Accounted i c) (idx : Nat) (hb : c + 1 < 2 ^ 64) :
    Accounted (i.activate idx).2 (c + 1) ∧
      (i.activate idx).2.running ++ (i.activate idx).2.pending =
        i.running ++ i.pending ++ [⟨i.nextSeq,idx,0,(i.activate idx).1⟩] := by
  obtain ⟨k,hr,hp,hn,hl,-,-,-,hs,-,-,he⟩ := activate_eq i idx
  rw [he]
  have hk : Ledger k (k.running ++ k.pending) := by
    rw [hr,hp]
    exact h.ledger.of_eq hl hn
  obtain ⟨hl',hn'⟩ := hk.enqueue idx 0 (i.store.lastId + 1) (by rw [hn,h.created]; exact hb)
  have hlive : (k.enqueue idx 0 (i.store.lastId + 1)).running ++ (k.enqueue idx 0 (i.store.lastId + 1)).pending =
      i.running ++ i.pending ++ [⟨i.nextSeq,idx,0,i.store.lastId + 1⟩] := by
    simp [enqueue,hr,hp,hn]
  refine ⟨⟨?_,by rw [hn',hn,h.created],fun _ => hs⟩,hlive⟩
  rw [hlive]
  rw [hr,hp,hn] at hl'
  exact hl'

theorem Accounted.foldl_startEntry (entries : List Nat) {k : Instance} {c : Nat} (acts : List UInt64)
    (h : Accounted k c)
    (hb : c + ((entries.foldl startEntry (acts,none,k)).1.length - acts.length) < 2 ^ 64) :
    let r := entries.foldl startEntry (acts,none,k)
    ∃ fresh, Accounted r.2.2 (c + fresh.length) ∧ r.1.length = acts.length + fresh.length ∧
      r.2.2.running ++ r.2.2.pending = k.running ++ k.pending ++ fresh ∧
      fresh.map (·.seq.toNat) = List.range' c fresh.length := by
  induction entries generalizing acts k c with
  | nil => exact ⟨[],h,rfl,by simp,rfl⟩
  | cons idx rest ih =>
    dsimp only
    rw [List.foldl_cons] at hb ⊢
    simp only [startEntry] at hb ⊢
    split
    · rename_i act j ht
      obtain ⟨idx',-,-,-,-,ha⟩ := trigger_eq_ok ht
      obtain ⟨more,hm⟩ := foldl_startEntry_acts rest (acts ++ [act],none,j)
      rw [ht] at hb
      dsimp only at hb
      rw [hm,List.length_append,List.length_append,List.length_singleton] at hb
      obtain ⟨hj,hlive⟩ := h.activate idx' (by omega)
      rw [ha] at hj hlive
      obtain ⟨fresh,hr,hlen,hlive',hseq⟩ := ih (acts ++ [act]) hj (by rw [hm]; simp; omega)
      refine ⟨⟨k.nextSeq,idx',0,act⟩ :: fresh,?_,?_,?_,?_⟩
      · simpa [Nat.add_assoc,Nat.add_comm 1] using hr
      · rw [hlen]
        simp [Nat.add_assoc,Nat.add_comm 1]
      · rw [hlive',hlive]
        simp
      · simp only [List.map_cons,hseq,List.length_cons,List.range'_succ]
        rw [h.created]
    · exact ⟨[],by rw [foldl_startEntry_error]; simpa using h,by rw [foldl_startEntry_error]; simp,
        by rw [foldl_startEntry_error]; simp,rfl⟩

theorem Accounted.abort {i : Instance} {c : Nat} (h : Accounted i c) :
    Accounted i.abort c ∧ i.abort.running ++ i.abort.pending = [] := by
  unfold Instance.abort
  split
  · rename_i hs
    exact ⟨h,h.live_nil (by rw [hs]; decide)⟩
  · refine ⟨⟨Ledger.of_live_nil rfl,h.created,fun hne => absurd rfl hne⟩,rfl⟩

theorem Accounted.tick {i : Instance} {c : Nat} (h : Accounted i c) (dt : Binary64)
    (hc : i.cancelled = false) (hs : i.status = .running) (hb : c + (i.step dt).1.spawned < 2 ^ 64) :
    Accounted (i.step dt).2 (c + (i.step dt).1.spawned) ∧
      ∃ fresh, (i.step dt).2.running ++ (i.step dt).2.pending = i.tokens.filter (i.survives (.tick dt)) ++ fresh ∧
        fresh.map (·.seq.toNat) = List.range' c (i.step dt).1.spawned := by
  obtain ⟨-,hsp,-,hr,hp,hn,hl,-,-,hrun⟩ := step_of_running i dt hc hs
  rw [hsp] at hb ⊢
  have hm : Ledger i.tickStart (i.tickStart.running ++ i.tickStart.pending ++ (i.tokens ++ [])) := by
    have hperm : (i.running ++ i.pending).Perm (i.tickStart.running ++ i.tickStart.pending ++ (i.tokens ++ [])) := by
      simpa [tickStart] using (tokens_perm i).symm
    exact (h.ledger.perm hperm).of_eq rfl rfl
  have hmN : i.tickStart.nextSeq.toNat = c := h.created
  obtain ⟨hl',hn'⟩ := Ledger.deliverAll dt hm (by rw [hmN]; exact hb)
  obtain ⟨-,hrun',⟨fresh,hpend,hseq⟩,-⟩ :=
    deliverAll_tokens i.tickStart i.tokens dt (tokens_ascending i h.ledger.distinct) (by rw [hmN]; exact hb)
  refine ⟨⟨?_,?_,hrun⟩,fresh,?_,by rw [← hmN]; exact hseq⟩
  · rw [hr,hp]
    rw [List.append_nil] at hl'
    exact hl'.of_eq hl hn
  · rw [hn,hn',hmN]
  · have hkeep : i.tokens.filter (fun t => (i.tickStart.deliverAll (i.tokens.filter (·.seq < t.seq)) dt).2.keeps t dt) =
        i.tokens.filter (i.survives (.tick dt)) :=
      List.filter_congr fun t _ => by simp [survives,hc,hs]
    rw [hr,hp,hrun',hpend,hkeep]
    rfl

theorem Accounted.perform {i : Instance} {c : Nat} (h : Accounted i c) (op : HostOp)
    (hb : c + i.created op < 2 ^ 64) :
    Accounted (i.perform op) (c + i.created op) ∧
      ∃ fresh, ((i.perform op).running ++ (i.perform op).pending).Perm (i.tokens.filter (i.survives op) ++ fresh) ∧
        fresh.map (·.seq.toNat) = List.range' c (i.created op) := by
  have hall : ∀ op, (∀ t, i.survives op t = true) → i.tokens.filter (i.survives op) = i.tokens :=
    fun op h => List.filter_eq_self.mpr fun t _ => h t
  have hkeep : ∀ op, (∀ t, i.survives op t = true) → ∀ j : Instance, Accounted j c →
      j.running ++ j.pending = i.running ++ i.pending →
      Accounted j (c + 0) ∧ ∃ fresh, (j.running ++ j.pending).Perm (i.tokens.filter (i.survives op) ++ fresh) ∧
        fresh.map (·.seq.toNat) = List.range' c 0 := by
    intro op hop j hj hlive
    refine ⟨hj,[],?_,rfl⟩
    rw [hlive,hall op hop,List.append_nil]
    exact (tokens_perm i).symm
  cases op with
  | trigger node =>
    simp only [Instance.perform,Instance.created] at hb ⊢
    cases ht : i.trigger node with
    | error e => exact hkeep _ (fun _ => rfl) i h rfl
    | ok r =>
      obtain ⟨act,j⟩ := r
      obtain ⟨idx,-,-,-,-,ha⟩ := trigger_eq_ok ht
      obtain ⟨hj,hlive⟩ := h.activate idx (by simpa [ht] using hb)
      rw [ha] at hj hlive
      refine ⟨hj,[⟨i.nextSeq,idx,0,act⟩],?_,by simp [h.created]⟩
      rw [hlive,hall _ fun _ => rfl]
      exact (tokens_perm i).symm.append_right _
  | start =>
    simp only [Instance.perform,Instance.created] at hb ⊢
    obtain ⟨fresh,hr,hlen,hlive,hseq⟩ := h.foldl_startEntry i.graph.entries [] (by simpa [Instance.start] using hb)
    simp only [List.length_nil,Nat.zero_add] at hlen
    rw [Instance.start,hlen]
    refine ⟨hr,fresh,?_,hseq⟩
    rw [hlive,hall _ fun _ => rfl]
    exact (tokens_perm i).symm.append_right _
  | tick dt =>
    simp only [Instance.perform,Instance.created] at hb ⊢
    cases hc : i.cancelled
    · by_cases hs : i.status = .running
      · obtain ⟨hj,fresh,hlive,hseq⟩ := h.tick dt hc hs hb
        exact ⟨hj,fresh,hlive ▸ List.Perm.refl _,hseq⟩
      · rw [step_of_stopped i dt hc hs]
        exact hkeep _ (fun t => by simp [Instance.survives,hc,hs]) i h rfl
    · rw [step_of_cancelled i dt hc]
      obtain ⟨ha,hlive⟩ := h.abort
      refine ⟨ha,[],?_,rfl⟩
      have hnone : i.tokens.filter (i.survives (.tick dt)) = [] :=
        List.filter_eq_nil_iff.mpr fun t _ => by simp [Instance.survives,hc]
      rw [hlive,hnone]
      exact List.Perm.refl []
  | abort =>
    obtain ⟨ha,hlive⟩ := h.abort
    refine ⟨ha,[],?_,rfl⟩
    have hnone : i.tokens.filter (i.survives .abort) = [] :=
      List.filter_eq_nil_iff.mpr fun t _ => by simp [Instance.survives]
    simp only [Instance.perform]
    rw [hlive,hnone]
    exact List.Perm.refl []
  | cancel =>
    exact hkeep _ (fun _ => rfl) _ ⟨h.ledger.of_eq rfl rfl,h.created,h.running⟩ rfl
  | setVariable name v =>
    exact hkeep _ (fun _ => rfl) _ ⟨h.ledger.of_eq rfl rfl,h.created,h.running⟩ rfl

end Instance

theorem Reachable.accounted {i : Instance} {c : Nat} (hr : Reachable i c) (hb : c < 2 ^ 64) :
    Instance.Accounted i c := by
  induction hr with
  | create g recordTrace invocations => exact Instance.Accounted.create g recordTrace invocations
  | perform op _ ih => exact ((ih (by omega)).perform op hb).1

end Tickflow
