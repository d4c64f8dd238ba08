import Tickflow.Proofs.Activations
import Tickflow.Proofs.Counting
/-! # Latched slots

A latched slot absorbs every token of its activation delivered to its node. Only the latch sets
the flag, and only retiring, releasing and clearing drop it; a latched slot never runs, so the
flag stays while its activation has a live token, and a drained activation never comes back.
-/
namespace Tickflow

namespace ActivationStore

variable (s : ActivationStore)

theorem isLatched_of_slots_eq {s s' : ActivationStore} (h : s'.slots = s.slots) (n : Nat) (a : UInt64) :
    s'.isLatched n a = s.isLatched n a := by
  unfold isLatched slot?
  rw [h]

theorem isLatched_modifySlot (node : Nat) (act : UInt64) {f : Slot → Slot}
    (hf : ∀ sl, (f sl).latched = sl.latched) (n : Nat) (a : UInt64) :
    (s.modifySlot node act f).isLatched n a = s.isLatched n a := by
  unfold isLatched slot? modifySlot
  rw [lookupMember_alterMember]
  split
  · rename_i hk
    rw [← hk]
    cases hl : lookupMember (⟨act,node⟩ : SlotKey) s.slots with
    | none => simp [hf]
    | some sl => simp [hf]
  · rfl

theorem isLatched_latch (node : Nat) (act : UInt64) (n : Nat) (a : UInt64) :
    (s.latch node act).isLatched n a = (s.isLatched n a || (n == node && a == act)) := by
  unfold isLatched slot? latch modifySlot
  rw [lookupMember_alterMember]
  by_cases hk : (⟨act,node⟩ : SlotKey) = ⟨a,n⟩
  · obtain ⟨rfl,rfl⟩ := SlotKey.mk.inj hk
    simp
  · have hb : (n == node && a == act) = false := by
      cases h1 : (n == node) <;> cases h2 : (a == act) <;> simp_all
    simp only [hk,if_false,hb,Bool.or_false]

theorem isLatched_retire (node : Nat) (act : UInt64) (n : Nat) (a : UInt64) :
    (s.retire node act).isLatched n a = (s.isLatched n a && !(n == node && a == act)) := by
  unfold isLatched slot? retire
  rw [lookupMember_eraseMember]
  by_cases hk : (⟨act,node⟩ : SlotKey) = ⟨a,n⟩
  · obtain ⟨rfl,rfl⟩ := SlotKey.mk.inj hk
    simp
  · have hb : (n == node && a == act) = false := by
      cases h1 : (n == node) <;> cases h2 : (a == act) <;> simp_all
    simp only [hk,if_false,hb,Bool.not_false,Bool.and_true]

theorem isLatched_release (act : UInt64) (n : Nat) (a : UInt64) :
    (s.release act).2.isLatched n a = (s.isLatched n a && !(a == act && decide (n ≤ nodeIndexEnd))) := by
  unfold isLatched
  rw [slot?_release]
  by_cases ha : a = act
  · subst ha
    by_cases hn : n ≤ nodeIndexEnd <;> simp [hn]
  · simp [ha,Ne.symm ha]

@[simp] theorem isLatched_clear (n : Nat) (a : UInt64) : s.clear.2.isLatched n a = false := rfl

@[simp] theorem isLatched_tokenCreated (act : UInt64) (n : Nat) (a : UInt64) :
    (s.tokenCreated act).isLatched n a = s.isLatched n a := rfl

@[simp] theorem isLatched_tokenConsumed (act : UInt64) (n : Nat) (a : UInt64) :
    (s.tokenConsumed act).2.isLatched n a = s.isLatched n a :=
  isLatched_of_slots_eq (tokenConsumed_slots s act) n a

@[simp] theorem isLatched_mint (n : Nat) (a : UInt64) : s.mint.2.isLatched n a = s.isLatched n a := rfl

theorem isLatched_resume (seq : UInt64) (n : Nat) (a : UInt64) :
    (s.resume seq).2.isLatched n a = s.isLatched n a := by
  unfold resume
  split <;> rfl

theorem isLatched_takeState (node : Nat) (act : UInt64) (n : Nat) (a : UInt64) :
    (s.takeState node act).2.isLatched n a = s.isLatched n a := by
  unfold takeState
  split
  · apply isLatched_modifySlot
    intro sl
    rfl
  · rfl

theorem isLatched_restore (node : Nat) (act : UInt64) (st : ActivationState) (n : Nat) (a : UInt64) :
    (s.restore node act st).isLatched n a = s.isLatched n a := by
  apply isLatched_modifySlot
  intro sl
  rfl

theorem isLatched_markWaiting (node : Nat) (act : UInt64) (tick : UInt64) (n : Nat) (a : UInt64) :
    (s.markWaiting node act tick).isLatched n a = s.isLatched n a := by
  apply isLatched_modifySlot
  intro sl
  rfl

theorem isLatched_hold (node : Nat) (act seq : UInt64) (st : ActivationState) (n : Nat) (a : UInt64) :
    (s.hold node act seq st).isLatched n a = s.isLatched n a := by
  unfold hold
  split
  · exact isLatched_of_slots_eq rfl n a
  · have h1 : (s.modifySlot node act fun sl =>
        { sl with state := { sl.state with arrivals := sl.state.arrivals.union st.arrivals } }).isLatched n a =
        s.isLatched n a := by
      apply isLatched_modifySlot
      intro sl
      rfl
    exact (isLatched_of_slots_eq rfl n a).trans h1

end ActivationStore

namespace Instance

open ActivationStore

theorem invoke_isLatched (i : Instance) (node : CompiledNode) (t : Token) (dt : Binary64) (n : Nat) (a : UInt64) :
    (i.invoke node t dt).2.store.isLatched n a = i.store.isLatched n a := by
  dsimp only [invoke]
  rw [foldl_emit]
  split
  · simp [isLatched_resume]
  · simp [isLatched_takeState,isLatched_resume]

theorem process_isLatched (m : Instance) (t : Token) (dt : Binary64) (n : Nat) (a : UInt64) :
    (m.process t dt).2.2.store.isLatched n a =
      (m.store.isLatched n a || (n == t.node && a == t.activation && m.outcome t dt == some (.ran .latched))) := by
  unfold process
  split
  · rename_i hn
    simp [outcome,hn]
  · rename_i node hn
    split
    · rename_i hlat
      simp [outcome,hn,hlat,record]
    · rename_i hlat
      rcases h1 : m.invoke node t dt with ⟨out,i1⟩
      have hout : m.outcome t dt = some (.ran out.result.state) := by simp [outcome,hn,hlat,h1]
      have hi1 : ∀ n a, i1.store.isLatched n a = m.store.isLatched n a := by
        intro n a
        have h := invoke_isLatched m node t dt n a
        rw [h1] at h
        exact h
      obtain ⟨k,-,-,-,-,hk,hc⟩ := complete_eq i1 node t out
      obtain ⟨-,-,-,-,-,-,-,hslots,-⟩ := foldl_send k t.activation
        (if out.result.firesOutputs then firedTargets node (checkedOutputs node out.result.outputs) else [])
      dsimp only at hc hslots ⊢
      rw [hc,isLatched_of_slots_eq hslots,hk,hout]
      cases hs : out.result.state with
      | done =>
        simp only [writeBack,isLatched_retire,hi1]
        by_cases hkey : (n == t.node && a == t.activation) = true
        · simp only [Bool.and_eq_true,beq_iff_eq] at hkey
          obtain ⟨rfl,rfl⟩ := hkey
          simp [hlat]
        · simp [hkey]
      | latched => simp [writeBack,isLatched_latch,isLatched_restore,hi1]
      | executing => simp [writeBack,isLatched_hold,hi1]
      | waiting => simp [writeBack,isLatched_markWaiting,isLatched_restore,hi1]

theorem settle_isLatched (k : Instance) (t : Token) (keep : Bool) (n : Nat) (a : UInt64) :
    (k.settle t keep).store.isLatched n a =
      (k.store.isLatched n a &&
        !(!keep && (k.store.tokenConsumed t.activation).1 && a == t.activation && decide (n ≤ nodeIndexEnd))) := by
  unfold settle
  cases keep
  · simp only [Bool.false_eq_true,if_false,consume]
    split
    · rename_i hlast
      rw [(releaseActivation_frame _ t.activation).2.2.2.2]
      simp [isLatched_release,hlast]
    · rename_i hlast
      simp [hlast]
  · simp

theorem sentTargets_of_isLatched {m : Instance} {t : Token} (hl : m.store.isLatched t.node t.activation = true)
    (dt : Binary64) : m.sentTargets t dt = [] := by
  unfold sentTargets
  split
  · rfl
  · rw [if_pos hl]

theorem mergeOne_fires {m : Instance} {t : Token} {node : CompiledNode} (hn : m.graph.node? t.node = some node)
    (hk : node.kind = .builtin .mergeOne) (hl : m.store.isLatched t.node t.activation = false) (dt : Binary64) :
    m.outcome t dt = some (.ran .latched) ∧
      m.sentTargets t dt = firedTargets node (checkedOutputs node (PinSet.single 0)) := by
  have hout : (m.invoke node t dt).1.result = { state := .latched,outputs := PinSet.single 0 } := by
    simp [invoke,hk,NodeKind.update,Builtin.update]
  constructor
  · simp [outcome,hn,hl,hout]
  · simp [sentTargets,hn,hl,hout,NodeResult.firesOutputs]

theorem deliver_of_isLatched {m : Instance} {t : Token} {node : CompiledNode} (hn : m.graph.node? t.node = some node)
    (hl : m.store.isLatched t.node t.activation = true) (dt : Binary64) :
    m.outcome t dt = some .absorbed ∧
      m.deliver t dt = (0,(m.record t node.spec.id .absorbed PinSet.empty PinSet.empty).consume t.activation) := by
  refine ⟨by simp [outcome,hn,hl],?_⟩
  simp [deliver,process,hn,hl,settle]

theorem foldl_startEntry_slots (entries : List Nat) (s : List UInt64 × Option ScriptError × Instance) :
    (entries.foldl startEntry s).2.2.store.slots = s.2.2.store.slots := by
  induction entries generalizing s with
  | nil => rfl
  | cons idx rest ih =>
    rw [List.foldl_cons,ih]
    obtain ⟨acts,err,k⟩ := s
    cases err with
    | some e => rfl
    | none =>
      simp only [startEntry]
      split
      · rename_i act j ht
        obtain ⟨idx',-,-,-,-,ha⟩ := trigger_eq_ok ht
        obtain ⟨k',-,-,-,-,-,hs,-,-,-,-,he⟩ := activate_eq k idx'
        rw [he] at ha
        rw [← (Prod.mk.inj ha).2]
        exact hs
      · rfl

theorem perform_isLatched (i : Instance) {op : HostOp} (hop : ∀ dt, op ≠ .tick dt) :
    (∀ n a, (i.perform op).store.isLatched n a = i.store.isLatched n a) ∨
      ((∀ n a, (i.perform op).store.isLatched n a = false) ∧
        (i.perform op).running ++ (i.perform op).pending = []) := by
  cases op with
  | trigger node =>
    left
    intro n a
    simp only [perform]
    split
    · rename_i act j ht
      obtain ⟨idx,-,-,-,-,ha⟩ := trigger_eq_ok ht
      obtain ⟨k,-,-,-,-,-,hs,-,-,-,-,he⟩ := activate_eq i idx
      rw [he] at ha
      rw [← (Prod.mk.inj ha).2]
      exact isLatched_of_slots_eq hs n a
    · rfl
  | start =>
    left
    intro n a
    exact isLatched_of_slots_eq (foldl_startEntry_slots i.graph.entries ([],none,i)) n a
  | tick dt => exact absurd rfl (hop dt)
  | abort =>
    show (∀ n a, i.abort.store.isLatched n a = _) ∨
      ((∀ n a, i.abort.store.isLatched n a = false) ∧ i.abort.running ++ i.abort.pending = [])
    unfold abort
    split
    · left
      intro n a
      rfl
    · right
      exact ⟨fun n a => rfl,by simp [emit]⟩
  | cancel =>
    left
    intro n a
    rfl
  | setVariable name v =>
    left
    intro n a
    rfl

theorem foldl_timedOut_isLatched (late : List (UInt64 × Nat × UInt64)) (s : ActivationStore) (n : Nat) (a : UInt64) :
    (late.foldl (fun s (act,idx,_) => s.modifySlot idx act fun sl => { sl with timedOut := true }) s).isLatched n a =
      s.isLatched n a := by
  induction late generalizing s with
  | nil => rfl
  | cons e rest ih =>
    obtain ⟨act,idx,w⟩ := e
    rw [List.foldl_cons]
    refine (ih _).trans ?_
    apply isLatched_modifySlot
    intro sl
    rfl

theorem checkJoinTimeouts_isLatched (i : Instance) (n : Nat) (a : UInt64) :
    i.checkJoinTimeouts.store.isLatched n a = i.store.isLatched n a := by
  unfold checkJoinTimeouts
  split
  · rfl
  · dsimp only
    rw [foldl_only_reports _ (fun k e => by obtain ⟨_,_,_⟩ := e; rfl)]
    exact foldl_timedOut_isLatched _ _ n a

theorem step_isLatched (i : Instance) (dt : Binary64) (hc : i.cancelled = false) (hs : i.status = .running)
    (n : Nat) (a : UInt64) :
    (i.step dt).2.store.isLatched n a = (i.tickStart.deliverAll i.tokens dt).2.store.isLatched n a := by
  simp only [step,hc,hs,Bool.false_eq_true,if_false,ne_eq,not_true_eq_false]
  simp only [tickEnd]
  split
  · exact checkJoinTimeouts_isLatched _ n a
  · exact checkJoinTimeouts_isLatched _ n a

end Instance

/-- One delivery of a run: the instance it starts from, its token, the rest of the tick's batch
and the time it grants. -/
structure Delivery where
  state : Instance
  token : Token
  later : List Token
  dt : Binary64

namespace Delivery

def outcome (d : Delivery) : Option TraceOutcome := d.state.outcome d.token d.dt

/-- The tokens live while it happens: the instance's, its own and the rest of the batch. -/
def live (d : Delivery) : List Token := d.state.running ++ d.state.pending ++ d.token :: d.later

end Delivery

namespace Instance

def deliveryLog (m : Instance) : List Token → Binary64 → List Delivery
  | [],_ => []
  | t :: rest,dt => ⟨m,t,rest,dt⟩ :: (m.deliver t dt).2.deliveryLog rest dt

/-- The deliveries a host operation makes: those of a tick of a running instance that was not
cancelled. -/
def deliveries (i : Instance) : HostOp → List Delivery
  | .tick dt => if i.cancelled = false ∧ i.status = .running then i.tickStart.deliveryLog i.tokens dt else []
  | _ => []

theorem deliveries_of_ne_tick (i : Instance) {op : HostOp} (hop : ∀ dt, op ≠ .tick dt) :
    i.deliveries op = [] := by
  cases op with
  | tick dt => exact absurd rfl (hop dt)
  | _ => rfl

def runDeliveries (i : Instance) : List HostOp → List Delivery
  | [] => []
  | op :: ops => i.deliveries op ++ (i.perform op).runDeliveries ops

end Instance

/-- The latches at a point of a run, with `past` the deliveries so far, `s` the store and `live`
the live tokens: every latched slot was latched by a delivery of its node and activation, the
activation of every delivery has been handed out, and a slot that a delivery latched stays
latched while its activation has a live token. -/
structure Latches (past : List Delivery) (s : ActivationStore) (live : List Token) : Prop where
  recorded : ∀ n a, s.isLatched n a = true →
    ∃ d ∈ past, d.token.node = n ∧ d.token.activation = a ∧ d.outcome = some (.ran .latched)
  handed : ∀ d ∈ past, d.token.activation.toNat ≤ s.lastId.toNat
  held : ∀ d ∈ past, d.outcome = some (.ran .latched) →
    s.isLatched d.token.node d.token.activation = true ∨ ∀ u ∈ live, u.activation ≠ d.token.activation

namespace Latches

variable {past : List Delivery} {s : ActivationStore} {live : List Token}

theorem perm {live' : List Token} (h : Latches past s live) (hp : live.Perm live') : Latches past s live' where
  recorded := h.recorded
  handed := h.handed
  held d hd hout := by
    rcases h.held d hd hout with hl | hn
    · exact Or.inl hl
    · exact Or.inr fun u hu => hn u (hp.mem_iff.mpr hu)

theorem deliver {m : Instance} {t : Token} {later : List Token} (dt : Binary64) (rest : List Token)
    (h : Latches past m.store (m.running ++ m.pending ++ t :: later))
    (hc : Instance.Counted m (m.running ++ m.pending ++ t :: later))
    (ht : t.activation.toNat ≤ m.store.lastId.toNat)
    (hK : m.store.lastId.toNat +
      (Instance.sentBirths t m.nextSeq m.store.lastId (m.sentTargets t dt)).countP (·.mints) < 2 ^ 64) :
    Latches (past ++ [⟨m,t,rest,dt⟩]) (m.deliver t dt).2.store
      ((m.deliver t dt).2.running ++ (m.deliver t dt).2.pending ++ later) := by
  obtain ⟨-,hkeep,-,-,-,-,-,-,-⟩ := Instance.process_spec m t dt
  obtain ⟨-,-,hlast,-⟩ := Instance.deliver_births m t dt
  have hj : (m.deliver t dt).2 = (m.process t dt).2.2.settle t (m.keeps t dt) := by
    rw [Instance.deliver_eq,hkeep]
  generalize hrel : (!m.keeps t dt && ((m.process t dt).2.2.store.tokenConsumed t.activation).1) = rel
  have hlat : ∀ n a, (m.deliver t dt).2.store.isLatched n a =
      ((m.store.isLatched n a || (n == t.node && a == t.activation && m.outcome t dt == some (.ran .latched))) &&
        !(rel && a == t.activation && decide (n ≤ nodeIndexEnd))) := by
    intro n a
    rw [hj,Instance.settle_isLatched,Instance.process_isLatched,← hrel,Bool.and_assoc]
  have hgone : rel = true →
      ∀ u ∈ (m.deliver t dt).2.running ++ (m.deliver t dt).2.pending ++ later, u.activation ≠ t.activation := by
    intro hr
    rw [← hrel,Bool.and_eq_true,Bool.not_eq_true'] at hr
    obtain ⟨hkf,hl⟩ := hr
    have hck := Instance.Counted.process dt hc
    have hone := ((hck.tokenConsumed (List.mem_append_right _ List.mem_cons_self)).2).mp hl
    have hzero : ((m.process t dt).2.2.running ++ (m.process t dt).2.2.pending ++ later).countP
        (·.activation == t.activation) = 0 := by
      simp only [List.countP_append,List.countP_cons,beq_self_eq_true,if_true] at hone ⊢
      omega
    obtain ⟨-,hr',hp',-,-,-⟩ := Instance.consume_frame (m.process t dt).2.2 t.activation
    have hs : (m.deliver t dt).2 = (m.process t dt).2.2.consume t.activation := by
      rw [hj,hkf]
      rfl
    intro u hu
    rw [hs,hr',hp'] at hu
    have := List.countP_eq_zero.mp hzero u hu
    simpa using this
  have hgrow : m.store.lastId.toNat ≤ (m.deliver t dt).2.store.lastId.toNat := by
    rw [hlast,Nat.mod_eq_of_lt hK]
    exact Nat.le_add_right _ _
  refine ⟨?_,?_,?_⟩
  · intro n a hl
    rw [hlat,Bool.and_eq_true,Bool.or_eq_true] at hl
    rcases hl.1 with hold | hnew
    · obtain ⟨d,hd,hdn,hda,hdo⟩ := h.recorded n a hold
      exact ⟨d,List.mem_append_left _ hd,hdn,hda,hdo⟩
    · simp only [Bool.and_eq_true,beq_iff_eq] at hnew
      obtain ⟨⟨rfl,rfl⟩,hout⟩ := hnew
      exact ⟨⟨m,t,rest,dt⟩,List.mem_append_right _ List.mem_cons_self,rfl,rfl,hout⟩
  · intro d hd
    rcases List.mem_append.mp hd with hd | hd
    · exact (h.handed d hd).trans hgrow
    · rw [List.mem_singleton] at hd
      subst hd
      exact ht.trans hgrow
  · intro d hd hout
    have hkept : ∀ a, a = t.activation → (rel && a == t.activation) = true →
        ∀ u ∈ (m.deliver t dt).2.running ++ (m.deliver t dt).2.pending ++ later, u.activation ≠ a := by
      intro a ha hr
      rw [ha]
      exact hgone (by simpa [ha] using hr)
    rcases List.mem_append.mp hd with hd | hd
    · rcases h.held d hd hout with hl | hn
      · cases hc' : (rel && d.token.activation == t.activation)
        · left
          rw [hlat,hl,hc']
          rfl
        · right
          have ha : d.token.activation = t.activation := by
            simp only [Bool.and_eq_true,beq_iff_eq] at hc'
            exact hc'.2
          exact hkept _ ha hc'
      · right
        exact (Drained.deliver dt ⟨h.handed d hd,hn⟩ hK).2.none_live
    · rw [List.mem_singleton] at hd
      subst hd
      cases hc' : (rel && t.activation == t.activation)
      · left
        rw [hlat,hc']
        simp only [beq_self_eq_true,Bool.true_and]
        simp [Delivery.outcome] at hout
        simp [hout]
      · right
        exact hkept _ rfl hc'

theorem of_isLatched_eq {s' : ActivationStore} (h : Latches past s live)
    (hl : ∀ n a, s'.isLatched n a = s.isLatched n a) (hlast : s'.lastId = s.lastId) : Latches past s' live where
  recorded n a h' := h.recorded n a (by rw [← hl]; exact h')
  handed d hd := by
    rw [hlast]
    exact h.handed d hd
  held d hd hout := by
    rw [hl]
    exact h.held d hd hout

end Latches

/-- What holds at every point of a run over the graph `g`, with `hist` the births and `past` the
deliveries so far: the trace of the births, exact live counts and the latches. -/
structure Steady (g : CompiledGraph) (hist : List Birth) (past : List Delivery) (m : Instance)
    (live : List Token) : Prop where
  traced : Traced g hist m.store.lastId live
  counted : Instance.Counted m live
  latches : Latches past m.store live

namespace Steady

variable {g : CompiledGraph} {hist : List Birth} {past : List Delivery}

theorem create (g : CompiledGraph) (recordTrace : Bool) (invocations : List (String × Nat)) :
    Steady g [] [] (Instance.create g recordTrace invocations) [] where
  traced := Traced.init g
  counted := (Instance.Ledger.of_live_nil rfl).toCounted
  latches := ⟨fun _ _ h => (by cases h),fun _ h => absurd h List.not_mem_nil,fun _ h => absurd h List.not_mem_nil⟩

theorem tickStart {i : Instance} (h : Steady g hist past i (i.running ++ i.pending)) :
    Steady g hist past i.tickStart (i.tickStart.running ++ i.tickStart.pending ++ i.tokens) := by
  have hp : (i.running ++ i.pending).Perm (i.tickStart.running ++ i.tickStart.pending ++ i.tokens) := by
    show (i.running ++ i.pending).Perm ([] ++ [] ++ i.tokens)
    simpa using (Instance.tokens_perm i).symm
  exact ⟨h.traced.perm hp,(h.counted.perm hp).of_live_eq rfl,h.latches.perm hp⟩

theorem deliver {r : Nat → Nat} (hr : g.Ranked r) {m : Instance} (hg : m.graph = g) {t : Token}
    {later : List Token} (dt : Binary64) (rest : List Token)
    (h : Steady g hist past m (m.running ++ m.pending ++ t :: later))
    (hK : (hist ++ Instance.sentBirths t m.nextSeq m.store.lastId (m.sentTargets t dt)).countP (·.mints) < 2 ^ 64) :
    Steady g (hist ++ Instance.sentBirths t m.nextSeq m.store.lastId (m.sentTargets t dt)) (past ++ [⟨m,t,rest,dt⟩])
      (m.deliver t dt).2 ((m.deliver t dt).2.running ++ (m.deliver t dt).2.pending ++ later) := by
  rw [List.countP_append] at hK
  have hlast := h.traced.last_eq_count (by omega)
  obtain ⟨b,hb,hbt⟩ := List.mem_map.mp (h.traced.born t (List.mem_append_right _ List.mem_cons_self))
  have ht : t.activation.toNat ≤ m.store.lastId.toNat := by
    rw [← hbt]
    exact (h.traced.handed (by omega) hb).2
  exact ⟨Traced.deliver hr hg dt h.traced,Instance.Counted.deliver dt h.counted,
    h.latches.deliver dt rest h.counted ht (by rw [hlast]; omega)⟩

theorem deliverAll {r : Nat → Nat} (hr : g.Ranked r) {m : Instance} (hg : m.graph = g) {now later : List Token}
    (dt : Binary64) (h : Steady g hist past m (m.running ++ m.pending ++ (now ++ later)))
    (hK : (hist ++ m.deliveryBirths now dt).countP (·.mints) < 2 ^ 64) :
    (∀ (pre : List Delivery) (e : Delivery) (post : List Delivery), m.deliveryLog now dt = pre ++ e :: post →
      Latches (past ++ pre) e.state.store (e.live ++ later) ∧ e.state.graph = g) ∧
    Steady g (hist ++ m.deliveryBirths now dt) (past ++ m.deliveryLog now dt) (m.deliverAll now dt).2
      ((m.deliverAll now dt).2.running ++ (m.deliverAll now dt).2.pending ++ later) := by
  induction now generalizing hist past m with
  | nil =>
    refine ⟨fun pre e post he => absurd he.symm (List.append_ne_nil_of_right_ne_nil pre (List.cons_ne_nil e post)),?_⟩
    rw [Instance.deliverAll_nil,Instance.deliveryBirths,Instance.deliveryLog,List.append_nil,List.append_nil]
    rw [List.nil_append] at h
    exact h
  | cons t rest ih =>
    rw [Instance.deliveryBirths,← List.append_assoc] at hK
    rw [List.cons_append] at h
    have h1 := deliver hr hg dt rest h (by rw [List.countP_append] at hK; omega)
    have hg1 : (m.deliver t dt).2.graph = g := (Instance.deliver_births m t dt).2.2.2.trans hg
    obtain ⟨hat,hend⟩ := ih hg1 h1 hK
    refine ⟨?_,?_⟩
    · intro pre e post he
      rw [Instance.deliveryLog,List.cons_eq_append_iff] at he
      rcases he with ⟨rfl,he⟩ | ⟨pre',rfl,he⟩
      · obtain ⟨rfl,-⟩ := List.cons.inj he
        refine ⟨?_,hg⟩
        show Latches (past ++ []) m.store ((m.running ++ m.pending ++ t :: rest) ++ later)
        rw [List.append_nil,List.append_assoc,List.cons_append]
        exact h.latches
      · obtain ⟨hl,hge⟩ := hat pre' e post he
        refine ⟨?_,hge⟩
        rw [← List.singleton_append,← List.append_assoc]
        exact hl
    · rw [Instance.deliverAll_cons,Instance.deliveryBirths,Instance.deliveryLog,← List.append_assoc,
        ← List.singleton_append,← List.append_assoc]
      exact hend

theorem perform_of_ne_tick {r : Nat → Nat} {i : Instance} (hr : i.graph.Ranked r)
    (h : Steady i.graph hist past i (i.running ++ i.pending)) {op : HostOp} (hop : ∀ dt, op ≠ .tick dt)
    (hK : (hist ++ i.births op).countP (·.mints) < 2 ^ 64) :
    Steady i.graph (hist ++ i.births op) past (i.perform op) ((i.perform op).running ++ (i.perform op).pending) := by
  have ht := Traced.perform hr h.traced op
  have hl1 := ht.last_eq_count hK
  rw [List.countP_append] at hK hl1
  have hl0 := h.traced.last_eq_count (by omega)
  have hgrow : i.store.lastId.toNat ≤ (i.perform op).store.lastId.toNat := by
    rw [hl0,hl1]
    exact Nat.le_add_right _ _
  refine ⟨ht,Instance.Counted.perform h.counted op,?_⟩
  rcases Instance.perform_isLatched i hop with hsame | ⟨hnone,hlive⟩
  · refine ⟨fun n a hl => h.latches.recorded n a (by rw [← hsame]; exact hl),
      fun d hd => (h.latches.handed d hd).trans hgrow,?_⟩
    intro d hd hout
    rcases h.latches.held d hd hout with hL | hN
    · left
      rw [hsame]
      exact hL
    · right
      exact (Drained.perform_of_ne_tick ⟨h.latches.handed d hd,hN⟩ hop (by rw [hl0]; omega)).2.none_live
  · refine ⟨fun n a hl => (by rw [hnone] at hl; cases hl),fun d hd => (h.latches.handed d hd).trans hgrow,?_⟩
    intro d _ _
    right
    rw [hlive]
    exact fun u hu => absurd hu List.not_mem_nil

theorem perform {r : Nat → Nat} {i : Instance} (hr : i.graph.Ranked r)
    (h : Steady i.graph hist past i (i.running ++ i.pending)) (op : HostOp)
    (hK : (hist ++ i.births op).countP (·.mints) < 2 ^ 64) :
    (∀ (pre : List Delivery) (e : Delivery) (post : List Delivery),
        i.deliveries op = pre ++ e :: post → Latches (past ++ pre) e.state.store e.live ∧ e.state.graph = i.graph) ∧
    Steady i.graph (hist ++ i.births op) (past ++ i.deliveries op) (i.perform op)
      ((i.perform op).running ++ (i.perform op).pending) := by
  have quiet : ∀ op, i.deliveries op = [] → Steady i.graph (hist ++ i.births op) past (i.perform op)
        ((i.perform op).running ++ (i.perform op).pending) →
      (∀ (pre : List Delivery) (e : Delivery) (post : List Delivery),
          i.deliveries op = pre ++ e :: post → Latches (past ++ pre) e.state.store e.live ∧ e.state.graph = i.graph) ∧
      Steady i.graph (hist ++ i.births op) (past ++ i.deliveries op) (i.perform op)
        ((i.perform op).running ++ (i.perform op).pending) := by
    intro op hd h1
    rw [hd,List.append_nil]
    exact ⟨fun pre e post he => absurd he.symm (List.append_ne_nil_of_right_ne_nil pre (List.cons_ne_nil e post)),h1⟩
  revert hK
  refine Instance.perform_cases i
    (fun op hop hK => quiet op (Instance.deliveries_of_ne_tick i hop) (h.perform_of_ne_tick hr hop hK))
    (fun dt hc hs hK => ?_) (fun dt hc hs _ => ?_) (fun dt hc hK => ?_) op
  · have hd : i.deliveries (.tick dt) = i.tickStart.deliveryLog i.tokens dt := by
      simp [Instance.deliveries,hc,hs]
    rw [Instance.births_tick_of_running i dt hc hs] at hK ⊢
    rw [hd]
    have h0 : Steady i.graph hist past i.tickStart
        (i.tickStart.running ++ i.tickStart.pending ++ (i.tokens ++ [])) := by
      rw [List.append_nil]
      exact h.tickStart
    have hg0 : i.tickStart.graph = i.graph := rfl
    obtain ⟨hat,hend⟩ := deliverAll hr hg0 dt h0 hK
    refine ⟨fun pre e post he => by simpa using hat pre e post he,?_⟩
    obtain ⟨hlive,hlast,-⟩ := Instance.step_births i dt hc hs
    rw [List.append_nil] at hend
    have hsl := Instance.step_isLatched i dt hc hs
    refine ⟨?_,Instance.Counted.perform h.counted (.tick dt),?_⟩
    · show Traced i.graph _ (i.step dt).2.store.lastId ((i.step dt).2.running ++ (i.step dt).2.pending)
      rw [hlive,hlast]
      exact hend.traced
    · show Latches _ (i.step dt).2.store ((i.step dt).2.running ++ (i.step dt).2.pending)
      rw [hlive]
      exact hend.latches.of_isLatched_eq hsl hlast
  · refine quiet _ (by simp [Instance.deliveries,hs]) ?_
    rw [Instance.births_tick_of_stopped i dt hs,List.append_nil,Instance.perform_tick_of_stopped i dt hc hs]
    exact h
  · refine quiet _ (by simp [Instance.deliveries,hc]) ?_
    rw [Instance.births_tick_of_cancelled i dt hc] at hK ⊢
    rw [Instance.perform_tick_of_cancelled i dt hc]
    exact h.perform_of_ne_tick hr (fun _ h => by cases h) hK

/-- Along a run of a ranked graph that mints fewer than `2 ^ 64` numbers, the latches hold at
every delivery. -/
theorem run {r : Nat → Nat} {i : Instance} (hr : i.graph.Ranked r)
    (h : Steady i.graph hist past i (i.running ++ i.pending)) (ops : List HostOp)
    (hK : (hist ++ i.runBirths ops).countP (·.mints) < 2 ^ 64) :
    ∀ (pre : List Delivery) (e : Delivery) (post : List Delivery), i.runDeliveries ops = pre ++ e :: post →
      Latches (past ++ pre) e.state.store e.live ∧ e.state.graph = i.graph := by
  induction ops generalizing hist past i with
  | nil =>
    intro pre e post he
    exact absurd he.symm (List.append_ne_nil_of_right_ne_nil pre (List.cons_ne_nil e post))
  | cons op ops ih =>
    rw [Instance.runBirths,← List.append_assoc] at hK
    have hK1 : (hist ++ i.births op).countP (·.mints) < 2 ^ 64 := by
      rw [List.countP_append] at hK
      omega
    obtain ⟨hat,h1⟩ := h.perform hr op hK1
    have hg1 := Instance.perform_graph i op
    have hr1 : (i.perform op).graph.Ranked r := by
      rw [hg1]
      exact hr
    have h1' : Steady (i.perform op).graph (hist ++ i.births op) (past ++ i.deliveries op) (i.perform op)
        ((i.perform op).running ++ (i.perform op).pending) := by
      rw [hg1]
      exact h1
    intro pre e post he
    rw [Instance.runDeliveries] at he
    rcases split_append he with ⟨post',hpre⟩ | ⟨pre',rfl,hmore⟩
    · exact hat pre e post' hpre
    · obtain ⟨hl,hge⟩ := ih hr1 h1' hK pre' e post hmore
      rw [← List.append_assoc]
      exact ⟨hl,hge.trans hg1⟩

end Steady

theorem split_first {α : Type} {p : α → Prop} {l : List α} (h : ∃ x ∈ l, p x) :
    ∃ pre x post, l = pre ++ x :: post ∧ p x ∧ ∀ y ∈ pre, ¬p y := by
  induction l with
  | nil =>
    obtain ⟨x,hx,-⟩ := h
    exact absurd hx List.not_mem_nil
  | cons y rest ih =>
    by_cases hy : p y
    · exact ⟨[],y,rest,rfl,hy,fun _ h => absurd h List.not_mem_nil⟩
    · obtain ⟨x,hx,hpx⟩ := h
      rcases List.mem_cons.mp hx with rfl | hx
      · exact absurd hpx hy
      · obtain ⟨pre,z,post,rfl,hz,hpre⟩ := ih ⟨x,hx,hpx⟩
        refine ⟨y :: pre,z,post,rfl,hz,fun w hw => ?_⟩
        rcases List.mem_cons.mp hw with rfl | hw
        · exact hy
        · exact hpre w hw

/-- Over any run of a compiled graph, a latched slot stays latched while its activation lives and
absorbs every later token of the activation at its node; a `flow.merge_one` node fires once per
activation and absorbs the rest. -/
theorem latched_nodes_fire_once {reg : Registry} {doc : Graph} {g : CompiledGraph}
    (hc : CompiledGraph.compile reg doc = .ok g) (recordTrace : Bool) (invocations : List (String × Nat))
    (ops : List HostOp)
    (hK : ((Instance.create g recordTrace invocations).runBirths ops).countP (·.mints) < 2 ^ 64) :
    let D := (Instance.create g recordTrace invocations).runDeliveries ops
    (∀ (pre : List Delivery) (d : Delivery) (mid : List Delivery) (e : Delivery) (post : List Delivery),
        D = pre ++ d :: mid ++ e :: post → d.outcome = some (.ran .latched) →
      e.state.store.isLatched d.token.node d.token.activation = true ∨
        ∀ u ∈ e.live, u.activation ≠ d.token.activation) ∧
    (∀ (pre : List Delivery) (d : Delivery) (mid : List Delivery) (e : Delivery) (post : List Delivery),
        D = pre ++ d :: mid ++ e :: post → d.outcome = some (.ran .latched) →
      e.token.node = d.token.node → e.token.activation = d.token.activation →
      ∀ node, g.node? e.token.node = some node →
        e.outcome = some .absorbed ∧
          e.state.deliver e.token e.dt =
            (0,(e.state.record e.token node.spec.id .absorbed PinSet.empty PinSet.empty).consume e.token.activation)) ∧
    (∀ (pre : List Delivery) (d : Delivery) (post : List Delivery),
        D = pre ++ d :: post → ∀ node, g.node? d.token.node = some node →
      node.kind = .builtin .mergeOne →
      ((∀ e ∈ pre, ¬(e.token.node = d.token.node ∧ e.token.activation = d.token.activation)) →
        d.outcome = some (.ran .latched) ∧
          d.state.sentTargets d.token d.dt = Instance.firedTargets node (Instance.checkedOutputs node (PinSet.single 0))) ∧
      ((∃ e ∈ pre, e.token.node = d.token.node ∧ e.token.activation = d.token.activation) →
        d.outcome = some .absorbed ∧ d.state.sentTargets d.token d.dt = [])) := by
  intro D
  obtain ⟨r,hr⟩ := CompiledGraph.compile_ranked hc
  have hat : ∀ (pre : List Delivery) (e : Delivery) (post : List Delivery),
      D = pre ++ e :: post → Latches pre e.state.store e.live ∧ e.state.graph = g := by
    intro pre e post he
    have h := (Steady.create g recordTrace invocations).run hr ops (by rw [List.nil_append]; exact hK) pre e post he
    rw [List.nil_append] at h
    exact h
  have hheld : ∀ (pre : List Delivery) (d : Delivery) (mid : List Delivery) (e : Delivery) (post : List Delivery),
      D = pre ++ d :: mid ++ e :: post → d.outcome = some (.ran .latched) →
      e.state.store.isLatched d.token.node d.token.activation = true ∨
        ∀ u ∈ e.live, u.activation ≠ d.token.activation := by
    intro pre d mid e post he hout
    exact (hat (pre ++ d :: mid) e post he).1.held d (List.mem_append_right _ List.mem_cons_self) hout
  -- a token of a latched activation is live when delivered, so its slot is still latched
  have hlatched : ∀ (pre : List Delivery) (d : Delivery) (mid : List Delivery) (e : Delivery) (post : List Delivery),
      D = pre ++ d :: mid ++ e :: post → d.outcome = some (.ran .latched) →
      e.token.node = d.token.node → e.token.activation = d.token.activation →
      e.state.store.isLatched e.token.node e.token.activation = true := by
    intro pre d mid e post he hout hn ha
    rcases hheld pre d mid e post he hout with hL | hN
    · rw [hn,ha]
      exact hL
    · exact absurd ha (hN e.token (List.mem_append_right _ List.mem_cons_self))
  have hfirst : ∀ (pre : List Delivery) (d : Delivery) (post : List Delivery),
      D = pre ++ d :: post → ∀ node, g.node? d.token.node = some node →
      node.kind = .builtin .mergeOne →
      (∀ e ∈ pre, ¬(e.token.node = d.token.node ∧ e.token.activation = d.token.activation)) →
      d.outcome = some (.ran .latched) ∧
        d.state.sentTargets d.token d.dt = Instance.firedTargets node (Instance.checkedOutputs node (PinSet.single 0)) := by
    intro pre d post he node hn hk hpre
    obtain ⟨hl,hg⟩ := hat pre d post he
    have hnot : d.state.store.isLatched d.token.node d.token.activation = false := by
      cases hL : d.state.store.isLatched d.token.node d.token.activation
      · rfl
      · obtain ⟨e,he',hen,hea,-⟩ := hl.recorded _ _ hL
        exact absurd ⟨hen,hea⟩ (hpre e he')
    exact Instance.mergeOne_fires (by rw [hg]; exact hn) hk hnot d.dt
  refine ⟨hheld,?_,?_⟩
  · intro pre d mid e post he hout hn ha node hnode
    have hg := (hat (pre ++ d :: mid) e post he).2
    exact Instance.deliver_of_isLatched (by rw [hg]; exact hnode) (hlatched pre d mid e post he hout hn ha) e.dt
  · intro pre d post he node hn hk
    refine ⟨hfirst pre d post he node hn hk,?_⟩
    intro hex
    -- the first earlier token of the activation at the node fired and latched the slot
    obtain ⟨pre₀,e₀,mid,rfl,⟨hn₀,ha₀⟩,hpre₀⟩ := split_first hex
    have he₀ : D = pre₀ ++ e₀ :: (mid ++ d :: post) := by
      rw [he,List.append_assoc,List.cons_append]
    have hfire := (hfirst pre₀ e₀ (mid ++ d :: post) he₀ node (by rw [hn₀]; exact hn) hk
      (fun y hy hkey => hpre₀ y hy (by rw [← hn₀,← ha₀]; exact hkey))).1
    have hL := hlatched pre₀ e₀ mid d post he hfire hn₀.symm ha₀.symm
    have hg := (hat (pre₀ ++ e₀ :: mid) d post he).2
    exact ⟨(Instance.deliver_of_isLatched (by rw [hg]; exact hn) hL d.dt).1,Instance.sentTargets_of_isLatched hL d.dt⟩

/-- Started and ticked three times, the loop delivers to its start node, then to its merge node
the first tokens of activations 1 and 2, each of which fires and latches. -/
theorem latched_nodes_fire_once_loop :
    let ops := [HostOp.start,.tick Binary64.zero,.tick Binary64.zero,.tick Binary64.zero]
    let D := (Instance.create loopGraph false).runDeliveries ops
    CompiledGraph.compile Registry.standard loopDoc = .ok loopGraph ∧
      ((Instance.create loopGraph false).runBirths ops).countP (·.mints) < 2 ^ 64 ∧
      D.map (fun d => (d.token.node,d.token.activation.toNat,d.outcome)) =
        [(0,1,some (.ran .done)),(1,1,some (.ran .latched)),(1,2,some (.ran .latched))] ∧
      ((∀ (pre : List Delivery) (d : Delivery) (mid : List Delivery) (e : Delivery) (post : List Delivery),
          D = pre ++ d :: mid ++ e :: post → d.outcome = some (.ran .latched) →
        e.state.store.isLatched d.token.node d.token.activation = true ∨
          ∀ u ∈ e.live, u.activation ≠ d.token.activation) ∧
      (∀ (pre : List Delivery) (d : Delivery) (mid : List Delivery) (e : Delivery) (post : List Delivery),
          D = pre ++ d :: mid ++ e :: post → d.outcome = some (.ran .latched) →
        e.token.node = d.token.node → e.token.activation = d.token.activation →
        ∀ node, loopGraph.node? e.token.node = some node →
          e.outcome = some .absorbed ∧
            e.state.deliver e.token e.dt =
              (0,(e.state.record e.token node.spec.id .absorbed PinSet.empty PinSet.empty).consume e.token.activation)) ∧
      (∀ (pre : List Delivery) (d : Delivery) (post : List Delivery),
          D = pre ++ d :: post → ∀ node, loopGraph.node? d.token.node = some node →
        node.kind = .builtin .mergeOne →
        ((∀ e ∈ pre, ¬(e.token.node = d.token.node ∧ e.token.activation = d.token.activation)) →
          d.outcome = some (.ran .latched) ∧
            d.state.sentTargets d.token d.dt = Instance.firedTargets node (Instance.checkedOutputs node (PinSet.single 0))) ∧
        ((∃ e ∈ pre, e.token.node = d.token.node ∧ e.token.activation = d.token.activation) →
          d.outcome = some .absorbed ∧ d.state.sentTargets d.token d.dt = []))) := by
  intro ops D
  have hK : ((Instance.create loopGraph false).runBirths ops).countP (·.mints) < 2 ^ 64 := by decide +kernel
  have hD : D.map (fun d => (d.token.node,d.token.activation.toNat,d.outcome)) =
      [(0,1,some (.ran .done)),(1,1,some (.ran .latched)),(1,2,some (.ran .latched))] := by decide +kernel
  exact ⟨compile_loopDoc,hK,hD,latched_nodes_fire_once compile_loopDoc false [] ops hK⟩

end Tickflow
