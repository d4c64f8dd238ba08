import Tickflow.Proofs.JoinRuns
/-! # Executing tokens resume their own state

`Resumes` says that every live token's parked state is what the last delivery of its number
parked, and every step of a run keeps it. So a token delivered again after executing is handed
what its previous invocation left, and a fresh token is never handed a parked state.
-/
namespace Tickflow

namespace Delivery

def leaves (d : Delivery) : Option ActivationState :=
  match d.state.graph.node? d.token.node with
  | none => none
  | some node =>
    if d.state.store.isLatched d.token.node d.token.activation then none
    else some (d.state.invoke node d.token d.dt).1.state

/-- The state the delivery handed to its node's update, when the node ran. -/
def received (d : Delivery) : Option ActivationState :=
  match d.state.graph.node? d.token.node with
  | none => none
  | some _ =>
    if d.state.store.isLatched d.token.node d.token.activation then none
    else some (d.state.handed d.token)

/-- The state the delivery parks under its token: what its invocation left, when the node is
still executing. -/
def parks (d : Delivery) : Option ActivationState :=
  if d.state.keeps d.token d.dt then d.leaves else none

theorem received_of_ran {d : Delivery} (hn : d.state.graph.node? d.token.node ≠ none)
    (ha : d.outcome ≠ some .absorbed) : d.received = some (d.state.handed d.token) := by
  obtain ⟨node,hnode⟩ := Option.ne_none_iff_exists'.mp hn
  have hl : d.state.store.isLatched d.token.node d.token.activation = false := by
    by_contra hl
    apply ha
    simp [outcome,Instance.outcome,hnode,hl]
  simp [received,hnode,hl]

theorem parks_of_executing {d : Delivery} (h : d.outcome = some (.ran .executing)) :
    ∃ st, d.leaves = some st ∧ d.parks = some st := by
  have hk : d.state.keeps d.token d.dt = true := by
    show (d.outcome == some (.ran .executing)) = true
    simp [h]
  unfold outcome Instance.outcome at h
  cases hn : d.state.graph.node? d.token.node with
  | none => simp [hn] at h
  | some node =>
    cases hl : d.state.store.isLatched d.token.node d.token.activation with
    | true => simp [hn,hl] at h
    | false =>
      refine ⟨(d.state.invoke node d.token d.dt).1.state,?_,?_⟩
      · simp [leaves,hn,hl]
      · simp [parks,hk,leaves,hn,hl]

end Delivery

namespace Instance

theorem deliver_parked_of_keeps (m : Instance) (t : Token) (dt : Binary64) (rest : List Token)
    (hk : m.keeps t dt = true) :
    lookupMember t.seq (m.deliver t dt).2.store.parked = (⟨m,t,rest,dt⟩ : Delivery).parks := by
  have hout : m.outcome t dt = some (.ran .executing) := by
    simpa [keeps] using hk
  cases hn : m.graph.node? t.node with
  | none => simp [outcome,hn] at hout
  | some node =>
    cases hl : m.store.isLatched t.node t.activation with
    | true => simp [outcome,hn,hl] at hout
    | false =>
      have hs : (m.invoke node t dt).1.result.state = .executing := by
        simpa [outcome,hn,hl] using hout
      rw [deliver_eq,settle_parked,lookup_process_parked dt hn hl,if_pos rfl,if_pos hs]
      simp [Delivery.parks,Delivery.leaves,hk,hn,hl]

end Instance

/-- The state the deliveries `past` left parked under number `k`: what the last delivery of
`k` parked. -/
def parkedBy (past : List Delivery) (k : UInt64) : Option ActivationState :=
  ((past.filter (·.token.seq == k)).getLast?).bind (·.parks)

theorem parkedBy_append_of_ne {past : List Delivery} {d : Delivery} {k : UInt64} (h : d.token.seq ≠ k) :
    parkedBy (past ++ [d]) k = parkedBy past k := by
  simp [parkedBy,List.filter_append,h]

theorem parkedBy_append_self (past : List Delivery) (d : Delivery) :
    parkedBy (past ++ [d]) d.token.seq = d.parks := by
  simp [parkedBy,List.filter_append]

theorem parkedBy_of_last {pre mid : List Delivery} {d : Delivery}
    (h : ∀ e ∈ mid, e.token.seq ≠ d.token.seq) : parkedBy (pre ++ d :: mid) d.token.seq = d.parks := by
  have hmid : mid.filter (·.token.seq == d.token.seq) = [] :=
    List.filter_eq_nil_iff.mpr fun e he => by simpa using h e he
  simp [parkedBy,List.filter_append,hmid]

theorem parkedBy_eq_none {past : List Delivery} {k : UInt64} (h : ∀ d ∈ past, d.token.seq ≠ k) :
    parkedBy past k = none := by
  have hnil : past.filter (·.token.seq == k) = [] :=
    List.filter_eq_nil_iff.mpr fun d hd => by simpa using h d hd
  simp [parkedBy,hnil]

theorem parked_eq_parkedBy_of_fresh {parked : List (UInt64 × ActivationState)} {past : List Delivery} {n : Nat}
    (hbelow : ∀ k, lookupMember k parked ≠ none → k.toNat < n) (hpast : ∀ d ∈ past, d.token.seq.toNat < n)
    {k : UInt64} (hk : n ≤ k.toNat) : lookupMember k parked = parkedBy past k := by
  rw [lookupMember_eq_none_of_bound hbelow hk]
  refine (parkedBy_eq_none fun d hd he => ?_).symm
  have := hpast d hd
  rw [he] at this
  omega

/-- Every live token's parked state is what the last delivery of its number parked. -/
def Resumes (past : List Delivery) (m : Instance) (live : List Token) : Prop :=
  ∀ u ∈ live, lookupMember u.seq m.store.parked = parkedBy past u.seq

namespace Resumes

variable {past : List Delivery}

theorem create (g : CompiledGraph) (recordTrace : Bool) (invocations : List (String × Nat)) :
    Resumes [] (Instance.create g recordTrace invocations) [] :=
  fun _ h => absurd h List.not_mem_nil

theorem deliver {m : Instance} {t : Token} {rest : List Token} {dt : Binary64}
    (h : Resumes past m (m.running ++ m.pending ++ t :: rest))
    (hpk : Parks past m (m.running ++ m.pending ++ t :: rest))
    (hled : Instance.Ledger m (m.running ++ m.pending ++ t :: rest))
    (hbelow : ∀ k, lookupMember k m.store.parked ≠ none → k.toNat < m.nextSeq.toNat)
    (hN : m.nextSeq.toNat + (m.sentTargets t dt).length < 2 ^ 64) :
    Resumes (past ++ [⟨m,t,rest,dt⟩]) (m.deliver t dt).2
      ((m.deliver t dt).2.running ++ (m.deliver t dt).2.pending ++ rest) := by
  intro u hu
  rcases Instance.mem_deliver_live.mp hu with hu | ⟨rfl,hk⟩ | hu
  · have hne : t.seq ≠ u.seq := hled.seq_ne_of_split hu
    rw [Instance.deliver_parked_of_ne m t dt hne,parkedBy_append_of_ne hne]
    exact h u (by simp only [List.mem_append,List.mem_cons] at hu ⊢; tauto)
  · rw [Instance.deliver_parked_of_keeps m u dt rest hk,parkedBy_append_self]
  · -- a token just sent is numbered past everything parked and every delivery
    have hfresh := (Instance.seq_of_mem_queued hN hu).1
    have hne : t.seq ≠ u.seq := by
      have := hled.fresh t (by simp)
      intro he
      rw [he] at this
      omega
    rw [Instance.deliver_parked_of_ne m t dt hne,parkedBy_append_of_ne hne]
    exact parked_eq_parkedBy_of_fresh hbelow hpk.numbered hfresh

theorem tickStart {i : Instance} (h : Resumes past i (i.running ++ i.pending)) :
    Resumes past i.tickStart (i.tickStart.running ++ i.tickStart.pending ++ i.tokens) := by
  intro u hu
  have hu' : u ∈ i.running ++ i.pending := by
    simpa [Instance.tickStart,Instance.mem_tokens] using hu
  exact h u hu'

theorem deliverAll {g : CompiledGraph} {dt : Binary64} {now : List Token} {m : Instance}
    (hA : ∀ (pre : List Delivery) (e : Delivery) (post : List Delivery), m.deliveryLog now dt = pre ++ e :: post →
      ∃ hist, Amid g hist (past ++ pre) e.state e.live ∧
        hist.length + (e.state.sentTargets e.token e.dt).length < 2 ^ 64)
    (h : Resumes past m (m.running ++ m.pending ++ now)) :
    (∀ (pre : List Delivery) (e : Delivery) (post : List Delivery), m.deliveryLog now dt = pre ++ e :: post →
      Resumes (past ++ pre) e.state e.live) ∧
    Resumes (past ++ m.deliveryLog now dt) (m.deliverAll now dt).2
      ((m.deliverAll now dt).2.running ++ (m.deliverAll now dt).2.pending) := by
  induction now generalizing past m with
  | nil =>
    refine ⟨fun pre e post he => by simp [Instance.deliveryLog] at he,?_⟩
    rw [Instance.deliverAll_nil,Instance.deliveryLog,List.append_nil]
    rw [List.append_nil] at h
    exact h
  | cons t rest ih =>
    obtain ⟨hist,hat,hb⟩ := hA [] ⟨m,t,rest,dt⟩ _ rfl
    rw [List.append_nil] at hat
    have h1 := h.deliver hat.parks hat.ledger hat.joins.parkedBelow (by rw [hat.numbered]; exact hb)
    have hA' : ∀ (pre : List Delivery) (e : Delivery) (post : List Delivery),
        (m.deliver t dt).2.deliveryLog rest dt = pre ++ e :: post →
        ∃ hist, Amid g hist (past ++ [⟨m,t,rest,dt⟩] ++ pre) e.state e.live ∧
          hist.length + (e.state.sentTargets e.token e.dt).length < 2 ^ 64 := by
      intro pre e post he
      rw [List.append_assoc,List.singleton_append]
      exact hA (⟨m,t,rest,dt⟩ :: pre) e post (by rw [Instance.deliveryLog,he,List.cons_append])
    obtain ⟨hmid,hend⟩ := ih hA' h1
    refine ⟨?_,?_⟩
    · intro pre e post he
      rw [Instance.deliveryLog,List.cons_eq_append_iff] at he
      rcases he with ⟨rfl,he⟩ | ⟨pre',rfl,he⟩
      · obtain ⟨rfl,-⟩ := List.cons.inj he
        rw [List.append_nil]
        exact h
      · rw [← List.singleton_append,← List.append_assoc]
        exact hmid pre' e post he
    · rw [Instance.deliverAll_cons,Instance.deliveryLog,← List.singleton_append,← List.append_assoc]
      exact hend

section Runs

variable {g : CompiledGraph} {r : Nat → Nat} (hr : g.Ranked r) (hw : g.WellWired)
include hr hw

theorem perform {hist : List Birth} {i : Instance} (h : Between g hist past i)
    (hres : Resumes past i (i.running ++ i.pending)) (op : HostOp) (hb : (hist ++ i.births op).length < 2 ^ 64) :
    (∀ (pre : List Delivery) (e : Delivery) (post : List Delivery), i.deliveries op = pre ++ e :: post →
      Resumes (past ++ pre) e.state e.live) ∧
    Resumes (past ++ i.deliveries op) (i.perform op) ((i.perform op).running ++ (i.perform op).pending) := by
  have hat := (h.perform hr hw op hb).1
  have hlen : hist.length + i.created op < 2 ^ 64 := by
    rw [← Instance.length_births,← List.length_append]
    exact hb
  have quiet : ∀ op, (∀ dt, op ≠ .tick dt) → hist.length + i.created op < 2 ^ 64 →
      Resumes past (i.perform op) ((i.perform op).running ++ (i.perform op).pending) := by
    intro op hop hlen u hu
    rcases Instance.perform_parks_of_ne_tick i hop with ⟨-,-,hpk,-,-⟩ | ⟨-,-,hnil⟩
    · rw [hpk]
      rcases h.accounted.mem_perform op hlen hu with hu | hu
      · exact hres u hu
      · have hc := h.accounted.created
        exact parked_eq_parkedBy_of_fresh h.joins.parkedBelow h.parks.numbered (hc ▸ hu)
    · rw [hnil] at hu
      exact absurd hu List.not_mem_nil
  have nothing : ∀ (pre : List Delivery) (e : Delivery) (post : List Delivery), ([] : List Delivery) = pre ++ e :: post →
      Resumes (past ++ pre) e.state e.live := fun pre e post he => by simp at he
  revert hb hat hlen
  refine Instance.perform_cases i (fun op hop _ _ hlen => ?_) (fun dt hc hs _ hat _ => ?_)
    (fun dt hc hs _ _ _ => ?_) (fun dt hc _ _ hlen => ?_) op
  · rw [Instance.deliveries_of_ne_tick i hop,List.append_nil]
    exact ⟨nothing,quiet op hop hlen⟩
  · have hd : i.deliveries (.tick dt) = i.tickStart.deliveryLog i.tokens dt := by
      simp [Instance.deliveries,hc,hs]
    rw [hd] at hat ⊢
    obtain ⟨hmid,hend⟩ := deliverAll hat hres.tickStart
    refine ⟨hmid,?_⟩
    obtain ⟨-,-,-,hr',hp',-⟩ := Instance.step_of_running i dt hc hs
    have hpk := (Instance.checkJoinTimeouts_unmark (i.tickStart.deliverAll i.tokens dt).2).2
    have hst := Instance.step_store i dt hc hs
    show Resumes _ (i.step dt).2 ((i.step dt).2.running ++ (i.step dt).2.pending)
    rw [hr',hp']
    intro u hu
    rw [hst,hpk]
    exact hend u hu
  · have hd : i.deliveries (.tick dt) = [] := by
      simp [Instance.deliveries,hs]
    rw [hd,Instance.perform_tick_of_stopped i dt hc hs,List.append_nil]
    exact ⟨nothing,hres⟩
  · have hc0 : i.created (.tick dt) = i.created .abort := by
      rw [← Instance.length_births,← Instance.length_births,Instance.births_tick_of_cancelled i dt hc]
    have hd : i.deliveries (.tick dt) = [] := by
      simp [Instance.deliveries,hc]
    rw [hd,Instance.perform_tick_of_cancelled i dt hc,List.append_nil]
    exact ⟨nothing,quiet .abort (fun _ h => by cases h) (hc0 ▸ hlen)⟩

/-- Along a run, at each delivery every live token's parked state is what the last delivery
of its number parked. -/
theorem run {hist : List Birth} {i : Instance} (h : Between g hist past i)
    (hres : Resumes past i (i.running ++ i.pending)) (ops : List HostOp)
    (hb : (hist ++ i.runBirths ops).length < 2 ^ 64) :
    ∀ (pre : List Delivery) (e : Delivery) (post : List Delivery), i.runDeliveries ops = pre ++ e :: post →
      Resumes (past ++ pre) e.state e.live := by
  induction ops generalizing hist past i with
  | nil => exact fun pre e post he => by simp [Instance.runDeliveries] at he
  | cons op ops ih =>
    rw [Instance.runBirths,← List.append_assoc] at hb
    have hb1 : (hist ++ i.births op).length < 2 ^ 64 := by
      rw [List.length_append] at hb
      omega
    obtain ⟨hat,hres1⟩ := hres.perform hr hw h op hb1
    intro pre e post he
    rw [Instance.runDeliveries] at he
    rcases split_append he with ⟨post',hpre⟩ | ⟨pre',rfl,hmore⟩
    · exact hat pre e post' hpre
    · rw [← List.append_assoc]
      exact ih (h.perform hr hw op hb1).2 hres1 hb pre' e post hmore

end Runs

end Resumes

/-- Along a run of a compiled graph that creates fewer than `2 ^ 64` tokens, every token has
its own state while it executes. A token delivered again after its last delivery answered
that it is still executing, and not absorbed, is handed exactly the state its previous
invocation left, whatever was delivered in between. A token delivered for the first time is
handed the shared state of its node's slot, or the empty state when there is no slot, and no
parked state. -/
theorem executing_tokens_resume {reg : Registry} {doc : Graph} {g : CompiledGraph}
    (hc : CompiledGraph.compile reg doc = .ok g) (recordTrace : Bool) (invocations : List (String × Nat))
    (ops : List HostOp) (hb : ((Instance.create g recordTrace invocations).runBirths ops).length < 2 ^ 64) :
    let D := (Instance.create g recordTrace invocations).runDeliveries ops
    (∀ (pre : List Delivery) (d₁ : Delivery) (mid : List Delivery) (d₂ : Delivery) (post : List Delivery),
      D = pre ++ d₁ :: mid ++ d₂ :: post → d₂.token.seq = d₁.token.seq →
      (∀ e ∈ mid, e.token.seq ≠ d₁.token.seq) → d₁.outcome = some (.ran .executing) →
      d₂.outcome ≠ some .absorbed → ∃ st, d₁.leaves = some st ∧ d₂.received = some st) ∧
    (∀ (pre : List Delivery) (d : Delivery) (post : List Delivery), D = pre ++ d :: post →
      (∀ e ∈ pre, e.token.seq ≠ d.token.seq) → d.outcome ≠ some .absorbed →
      d.received = some (((d.state.store.slot? d.token.node d.token.activation).map (·.state)).getD {})) := by
  intro D
  obtain ⟨r,hr⟩ := CompiledGraph.compile_ranked hc
  have hw := CompiledGraph.wellWired_of_compile hc
  have hb' : ([] ++ (Instance.create g recordTrace invocations).runBirths ops).length < 2 ^ 64 := by
    rw [List.nil_append]
    exact hb
  have hamid := ((Between.create g recordTrace invocations).run hr hw ops hb').1
  have hres := Resumes.run hr hw (Between.create g recordTrace invocations)
    (Resumes.create g recordTrace invocations) ops hb'
  -- a delivery that is not absorbed hands its node the state the last delivery of its number parked
  have key : ∀ pre d post, D = pre ++ d :: post → d.outcome ≠ some .absorbed →
      d.received = some (d.state.handed d.token) ∧
        lookupMember d.token.seq d.state.store.parked = parkedBy pre d.token.seq := by
    intro pre d post hD ha
    obtain ⟨hist,hat,-⟩ := hamid pre d post hD
    have hmem : d.token ∈ d.live := by
      simp [Delivery.live]
    obtain ⟨node,hnode,-⟩ := hat.joins.pins d.token hmem
    have hn : d.state.graph.node? d.token.node ≠ none := by
      rw [hat.graph,hnode]
      exact Option.some_ne_none node
    refine ⟨Delivery.received_of_ran hn ha,?_⟩
    simpa using hres pre d post hD d.token hmem
  refine ⟨?_,?_⟩
  · intro pre d₁ mid d₂ post hD hseq hmid hexec ha
    obtain ⟨st,hleaves,hparks⟩ := Delivery.parks_of_executing hexec
    obtain ⟨hrec,hpk⟩ := key (pre ++ d₁ :: mid) d₂ post hD ha
    have hlast : parkedBy (pre ++ d₁ :: mid) d₂.token.seq = some st := by
      rw [hseq,parkedBy_of_last hmid,hparks]
    refine ⟨st,hleaves,?_⟩
    rw [hrec]
    simp [Instance.handed,hpk,hlast]
  · intro pre d post hD hfirst ha
    obtain ⟨hrec,hpk⟩ := key pre d post hD ha
    rw [parkedBy_eq_none hfirst] at hpk
    rw [hrec]
    simp [Instance.handed,hpk]

/-- A host type that counts its calls in its activation's state: it keeps executing at its
first two calls and fires its output at the third. -/
def spinThrice : ScriptedType where
  id := "test.spin"
  pins := [PinType.flowIn,PinType.flowOut]
  script := [{ state := .executing },{ state := .executing },{ state := .done,outputs := PinSet.ofList [1] }]
  emit := false

/-- A start node forked twice onto one node of `spinThrice`: both tokens of the activation reach
it in one tick, and each counts its own calls. -/
def sharedSpinDoc : Graph where
  id := ⟨10⟩
  name := "shared spin"
  nodes := [{ id := ⟨1⟩,nodeType := "flow.start" },{ id := ⟨2⟩,nodeType := "flow.fork" },
    { id := ⟨3⟩,nodeType := "test.spin" },{ id := ⟨4⟩,nodeType := "flow.stop" }]
  connections := [⟨⟨1⟩,0,⟨2⟩,0⟩,⟨⟨2⟩,1,⟨3⟩,0⟩,⟨⟨2⟩,2,⟨3⟩,0⟩,⟨⟨3⟩,1,⟨4⟩,0⟩]

def spinRegistry : Registry := Registry.standard.register (.scripted spinThrice)

def sharedSpinGraph : CompiledGraph := (CompiledGraph.compile spinRegistry sharedSpinDoc).toOption.getD default

theorem compile_sharedSpinDoc : CompiledGraph.compile spinRegistry sharedSpinDoc = .ok sharedSpinGraph := by
  have h : (CompiledGraph.compile spinRegistry sharedSpinDoc).toBool = true := by decide +kernel
  unfold sharedSpinGraph
  revert h
  cases CompiledGraph.compile spinRegistry sharedSpinDoc with
  | error e => exact fun h => by cases h
  | ok g => exact fun _ => rfl

theorem sharedSpinGraph_births :
    ((Instance.create sharedSpinGraph false).runBirths
      [HostOp.start,.tick Binary64.zero,.tick Binary64.zero,.tick Binary64.zero,.tick Binary64.zero]).length = 4 := by
  cbv

/-- Each token on the spin node counts its own calls: both are handed no call at their first
delivery and one call, their own, at their second. -/
example :
    ((Instance.create sharedSpinGraph false).runDeliveries
      [HostOp.start,.tick Binary64.zero,.tick Binary64.zero,.tick Binary64.zero,.tick Binary64.zero]).map
        (fun d => (d.token.seq,d.received.map ScriptedType.recordedCalls)) =
      [(0,some 0),(1,some 0),(2,some 0),(3,some 0),(2,some 1),(3,some 1)] := by
  cbv

theorem executing_tokens_resume_shared_spin :
    let ops := [HostOp.start,.tick Binary64.zero,.tick Binary64.zero,.tick Binary64.zero,.tick Binary64.zero]
    let D := (Instance.create sharedSpinGraph false).runDeliveries ops
    CompiledGraph.compile spinRegistry sharedSpinDoc = .ok sharedSpinGraph ∧
      ((Instance.create sharedSpinGraph false).runBirths ops).length < 2 ^ 64 ∧
      ((∀ (pre : List Delivery) (d₁ : Delivery) (mid : List Delivery) (d₂ : Delivery) (post : List Delivery),
        D = pre ++ d₁ :: mid ++ d₂ :: post → d₂.token.seq = d₁.token.seq →
        (∀ e ∈ mid, e.token.seq ≠ d₁.token.seq) → d₁.outcome = some (.ran .executing) →
        d₂.outcome ≠ some .absorbed → ∃ st, d₁.leaves = some st ∧ d₂.received = some st) ∧
      (∀ (pre : List Delivery) (d : Delivery) (post : List Delivery), D = pre ++ d :: post →
        (∀ e ∈ pre, e.token.seq ≠ d.token.seq) → d.outcome ≠ some .absorbed →
        d.received = some (((d.state.store.slot? d.token.node d.token.activation).map (·.state)).getD {}))) := by
  intro ops D
  have hb : ((Instance.create sharedSpinGraph false).runBirths ops).length < 2 ^ 64 := by
    rw [sharedSpinGraph_births]
    decide
  exact ⟨compile_sharedSpinDoc,hb,executing_tokens_resume compile_sharedSpinDoc false [] ops hb⟩

end Tickflow
