import Tickflow.Proofs.Stalls
import Tickflow.Proofs.Parking
/-! # The join slots along a run

`Joins` holds between host operations and at every delivery of a run that creates fewer than
`2 ^ 64` tokens. `Amid` is what holds at a delivery, `Between` what holds between operations,
and `Between.run` carries them along a run.
-/
namespace Tickflow

/-- A slot without its timeout mark: the part of a slot the joins read. -/
def Slot.unmark (sl : Slot) : Slot := { sl with timedOut := false }

namespace ActivationStore

variable {s s' : ActivationStore} {n : Nat} {a : UInt64}

theorem views_of_unmark (h : (s'.slot? n a).map Slot.unmark = (s.slot? n a).map Slot.unmark) :
    s'.arrivalsAt n a = s.arrivalsAt n a ∧ s'.sinceAt n a = s.sinceAt n a ∧ s'.isLatched n a = s.isLatched n a ∧
      (s'.slot? n a = none ↔ s.slot? n a = none) := by
  unfold arrivalsAt sinceAt isLatched
  cases h1 : s'.slot? n a with
  | none =>
    cases h2 : s.slot? n a with
    | none => exact ⟨rfl,rfl,rfl,Iff.rfl⟩
    | some sl =>
      rw [h1,h2] at h
      cases h
  | some sl' =>
    cases h2 : s.slot? n a with
    | none =>
      rw [h1,h2] at h
      cases h
    | some sl =>
      rw [h1,h2] at h
      have he := Option.some.inj h
      simp only [Slot.unmark,Slot.mk.injEq] at he
      simp [he.1,he.2.1,he.2.2.1]

theorem slot?_of_mem_waiting {act : UInt64} {idx : Nat} {sl : Slot} (h : (act,idx,sl) ∈ s.waiting) :
    s.slot? idx act ≠ none := by
  unfold waiting at h
  obtain ⟨⟨k,sl'⟩,hk,he⟩ := List.mem_map.mp h
  simp only [Prod.mk.injEq] at he
  obtain ⟨rfl,rfl,-⟩ := he
  exact lookupMember_ne_none_of_mem (List.mem_filter.mp hk).1

theorem foldl_timedOut_unmark (late : List (UInt64 × Nat × UInt64)) (s : ActivationStore)
    (hex : ∀ e ∈ late, s.slot? e.2.1 e.1 ≠ none) :
    let s' := late.foldl (fun s (act,idx,_) => s.modifySlot idx act fun sl => { sl with timedOut := true }) s
    (∀ n a, (s'.slot? n a).map Slot.unmark = (s.slot? n a).map Slot.unmark) ∧ s'.parked = s.parked := by
  induction late generalizing s with
  | nil => exact ⟨fun _ _ => rfl,rfl⟩
  | cons e rest ih =>
    obtain ⟨act,idx,w⟩ := e
    have hstep : ∀ n a, ((s.modifySlot idx act fun sl => { sl with timedOut := true }).slot? n a).map Slot.unmark =
        (s.slot? n a).map Slot.unmark := by
      intro n a
      rw [slot?_modifySlot]
      split
      · rename_i hk
        obtain ⟨rfl,rfl⟩ := hk
        cases hs : s.slot? idx act with
        | none => exact absurd hs (hex _ List.mem_cons_self)
        | some sl => rfl
      · rfl
    have hex' : ∀ e ∈ rest, (s.modifySlot idx act fun sl => { sl with timedOut := true }).slot? e.2.1 e.1 ≠ none := by
      intro e he hnone
      have h' := hstep e.2.1 e.1
      rw [hnone,Option.map_none] at h'
      exact hex e (List.mem_cons_of_mem _ he) (Option.map_eq_none_iff.mp h'.symm)
    obtain ⟨h1,h2⟩ := ih _ hex'
    exact ⟨fun n a => (h1 n a).trans (hstep n a),h2⟩

end ActivationStore

theorem Instance.checkJoinTimeouts_unmark (i : Instance) :
    (∀ n a, (i.checkJoinTimeouts.store.slot? n a).map Slot.unmark = (i.store.slot? n a).map Slot.unmark) ∧
      i.checkJoinTimeouts.store.parked = i.store.parked := by
  unfold checkJoinTimeouts
  split
  · exact ⟨fun _ _ => rfl,rfl⟩
  · dsimp only
    rw [foldl_only_reports _ (fun k e => by obtain ⟨_,_,_⟩ := e; rfl)]
    refine ActivationStore.foldl_timedOut_unmark _ _ ?_
    intro e he
    obtain ⟨⟨act,idx,sl⟩,hx,hf⟩ := List.mem_filterMap.mp he
    dsimp only at hf
    split at hf
    · cases hf
      exact ActivationStore.slot?_of_mem_waiting hx
    · cases hf

namespace JoinAt

variable {g : CompiledGraph} {past : List Delivery} {s s' : ActivationStore} {n : Nat} {a : UInt64}

theorem of_unmark (j : JoinAt g past s n a)
    (h : (s'.slot? n a).map Slot.unmark = (s.slot? n a).map Slot.unmark) : JoinAt g past s' n a := by
  obtain ⟨ha,hs,hl,-⟩ := ActivationStore.views_of_unmark h
  refine ⟨by rw [ha]; exact j.arrived,fun h' => by rw [hs]; exact j.since (hl ▸ h'),by rw [hl]; exact j.latched,?_⟩
  intro node hn hk
  rw [ha]
  exact j.merged node hn hk

end JoinAt

namespace Instance

theorem activate_frame (i : Instance) (idx : Nat) :
    (i.activate idx).2.store.slots = i.store.slots ∧ (i.activate idx).2.store.parked = i.store.parked ∧
      (i.activate idx).2.graph = i.graph ∧
      (i.activate idx).2.running ++ (i.activate idx).2.pending =
        i.running ++ i.pending ++ [⟨i.nextSeq,idx,0,i.store.lastId + 1⟩] := by
  obtain ⟨k,hr,hp,hn,-,-,hs,hpk,-,hg,-,he⟩ := activate_eq i idx
  rw [he]
  exact ⟨hs,hpk,hg,by simp [enqueue,hr,hp,hn]⟩

theorem foldl_startEntry_frame (entries : List Nat) (s : List UInt64 × Option ScriptError × Instance) :
    let r := (entries.foldl startEntry s).2.2
    r.store.slots = s.2.2.store.slots ∧ r.store.parked = s.2.2.store.parked ∧ r.graph = s.2.2.graph ∧
      (∀ u ∈ s.2.2.running ++ s.2.2.pending, u ∈ r.running ++ r.pending) ∧
      ∀ u ∈ r.running ++ r.pending, u ∈ s.2.2.running ++ s.2.2.pending ∨ u.node ∈ s.2.2.graph.entries := by
  induction entries generalizing s with
  | nil => exact ⟨rfl,rfl,rfl,fun _ hu => hu,fun _ hu => Or.inl hu⟩
  | cons idx rest ih =>
    obtain ⟨acts,err,k⟩ := s
    obtain ⟨h1,h2,h3,h4,h5⟩ := ih (startEntry (acts,err,k) idx)
    rw [List.foldl_cons]
    have hone : (startEntry (acts,err,k) idx).2.2.store.slots = k.store.slots ∧
        (startEntry (acts,err,k) idx).2.2.store.parked = k.store.parked ∧
        (startEntry (acts,err,k) idx).2.2.graph = k.graph ∧
        (∀ u ∈ k.running ++ k.pending, u ∈ (startEntry (acts,err,k) idx).2.2.running ++
          (startEntry (acts,err,k) idx).2.2.pending) ∧
        ∀ u ∈ (startEntry (acts,err,k) idx).2.2.running ++ (startEntry (acts,err,k) idx).2.2.pending,
          u ∈ k.running ++ k.pending ∨ u.node ∈ k.graph.entries := by
      cases err with
      | some e => exact ⟨rfl,rfl,rfl,fun _ hu => hu,fun _ hu => Or.inl hu⟩
      | none =>
        simp only [startEntry]
        split
        · rename_i act j ht
          obtain ⟨idx',-,-,-,hidx,ha⟩ := trigger_eq_ok ht
          obtain ⟨hs,hpk,hg,hlive⟩ := activate_frame k idx'
          rw [ha] at hs hpk hg hlive
          refine ⟨hs,hpk,hg,fun u hu => by rw [hlive]; exact List.mem_append_left _ hu,?_⟩
          intro u hu
          rw [hlive] at hu
          rcases List.mem_append.mp hu with hu | hu
          · exact Or.inl hu
          · rw [List.mem_singleton.mp hu]
            exact Or.inr hidx
        · exact ⟨rfl,rfl,rfl,fun _ hu => hu,fun _ hu => Or.inl hu⟩
    obtain ⟨g1,g2,g3,g4,g5⟩ := hone
    refine ⟨h1.trans g1,h2.trans g2,h3.trans g3,fun u hu => h4 u (g4 u hu),?_⟩
    intro u hu
    rcases h5 u hu with hu | hu
    · exact g5 u hu
    · rw [g3] at hu
      exact Or.inr hu

theorem perform_slots_of_ne_tick (i : Instance) {op : HostOp} (hop : ∀ dt, op ≠ .tick dt) :
    ((i.perform op).store.slots = i.store.slots ∧ (i.perform op).store.parked = i.store.parked ∧
      (∀ u ∈ i.running ++ i.pending, u ∈ (i.perform op).running ++ (i.perform op).pending) ∧
      ∀ u ∈ (i.perform op).running ++ (i.perform op).pending, u ∈ i.running ++ i.pending ∨ u.node ∈ i.graph.entries) ∨
    ((i.perform op).store.slots = [] ∧ (i.perform op).store.parked = [] ∧
      (i.perform op).running ++ (i.perform op).pending = []) := by
  have hsame : ∀ j : Instance, j.store.slots = i.store.slots → j.store.parked = i.store.parked →
      j.running ++ j.pending = i.running ++ i.pending →
      (j.store.slots = i.store.slots ∧ j.store.parked = i.store.parked ∧
        (∀ u ∈ i.running ++ i.pending, u ∈ j.running ++ j.pending) ∧
        ∀ u ∈ j.running ++ j.pending, u ∈ i.running ++ i.pending ∨ u.node ∈ i.graph.entries) := by
    intro j hs hp hl
    exact ⟨hs,hp,fun u hu => hl ▸ hu,fun u hu => Or.inl (hl ▸ hu)⟩
  cases op with
  | trigger node =>
    left
    simp only [perform]
    split
    · rename_i act j ht
      obtain ⟨idx,-,-,-,hidx,ha⟩ := trigger_eq_ok ht
      obtain ⟨hs,hpk,-,hlive⟩ := activate_frame i idx
      rw [ha] at hs hpk hlive
      refine ⟨hs,hpk,fun u hu => by rw [hlive]; exact List.mem_append_left _ hu,?_⟩
      intro u hu
      rw [hlive] at hu
      rcases List.mem_append.mp hu with hu | hu
      · exact Or.inl hu
      · rw [List.mem_singleton.mp hu]
        exact Or.inr hidx
    · exact hsame i rfl rfl rfl
  | start =>
    left
    obtain ⟨h1,h2,-,h4,h5⟩ := foldl_startEntry_frame i.graph.entries ([],none,i)
    exact ⟨h1,h2,h4,h5⟩
  | tick dt => exact absurd rfl (hop dt)
  | abort =>
    have hp : i.perform .abort = i.abort := rfl
    rw [hp]
    unfold abort
    split
    · exact Or.inl (hsame i rfl rfl rfl)
    · right
      simp [emit,ActivationStore.clear]
  | cancel => exact Or.inl (hsame _ rfl rfl rfl)
  | setVariable name v => exact Or.inl (hsame _ rfl rfl rfl)

theorem foldl_startEntry_count (entries : List Nat) (s : List UInt64 × Option ScriptError × Instance) :
    (entries.foldl startEntry s).1.length + s.2.2.pending.length =
      s.1.length + (entries.foldl startEntry s).2.2.pending.length := by
  induction entries generalizing s with
  | nil => rfl
  | cons idx rest ih =>
    obtain ⟨acts,err,k⟩ := s
    rw [List.foldl_cons]
    have h1 := ih (startEntry (acts,err,k) idx)
    have hone : (startEntry (acts,err,k) idx).1.length + k.pending.length =
        acts.length + (startEntry (acts,err,k) idx).2.2.pending.length := by
      cases err with
      | some e => rfl
      | none =>
        simp only [startEntry]
        split
        · rename_i act j ht
          obtain ⟨idx',-,-,-,-,ha⟩ := trigger_eq_ok ht
          obtain ⟨-,hp,-,-⟩ := activate_births k idx'
          rw [ha] at hp
          dsimp only at hp
          simp only [hp,List.length_append,List.length_singleton]
          omega
        · rfl
    dsimp only at h1 hone ⊢
    omega

theorem length_births (i : Instance) (op : HostOp) : (i.births op).length = i.created op := by
  cases op with
  | trigger node =>
    simp only [births,created,perform]
    cases ht : i.trigger node with
    | error e => simp
    | ok r =>
      obtain ⟨act,j⟩ := r
      obtain ⟨idx,-,-,-,-,ha⟩ := trigger_eq_ok ht
      obtain ⟨-,hp,-,-⟩ := activate_births i idx
      rw [ha] at hp
      dsimp only at hp
      simp [hp]
  | start =>
    have h := foldl_startEntry_count i.graph.entries ([],none,i)
    simp only [births,created,perform,start] at h ⊢
    simp only [List.length_nil,Nat.zero_add] at h
    rw [List.length_map,List.length_drop]
    omega
  | tick dt =>
    cases hc : i.cancelled
    · by_cases hs : i.status = .running
      · obtain ⟨-,hsp,-⟩ := step_of_running i dt hc hs
        rw [births_tick_of_running i dt hc hs]
        simp only [created,hsp]
        exact ((deliverAll_live i.tickStart i.tokens dt).2.2).symm
      · rw [births_tick_of_stopped i dt hs]
        simp [created,step_of_stopped i dt hc hs]
    · rw [births_tick_of_cancelled i dt hc,births_abort]
      simp [created,step_of_cancelled i dt hc]
  | abort => simp [births_abort,created]
  | cancel => simp [births,created,perform,cancel]
  | setVariable name v => simp [births,created,perform,setVariable]

end Instance

namespace Joins

variable {g : CompiledGraph} {past : List Delivery}

theorem of_unmark {m m' : Instance} {live : List Token} (h : Joins g past m live)
    (hs : ∀ n a, (m'.store.slot? n a).map Slot.unmark = (m.store.slot? n a).map Slot.unmark)
    (hp : m'.store.parked = m.store.parked) (hn : m'.nextSeq = m.nextSeq) : Joins g past m' live where
  graphs := h.graphs
  pins := h.pins
  owned n a hsl := h.owned n a fun hnone => hsl ((ActivationStore.views_of_unmark (hs n a)).2.2.2.mpr hnone)
  indexed n a hsl := h.indexed n a fun hnone => hsl ((ActivationStore.views_of_unmark (hs n a)).2.2.2.mpr hnone)
  resumes u hu hpu := h.resumes u hu (hp ▸ hpu)
  parkedBelow k hk := by
    rw [hn]
    exact h.parkedBelow k (hp ▸ hk)
  slots n a ha := (h.slots n a ha).of_unmark (hs n a)

theorem perform_of_ne_tick (hw : g.WellWired) {i : Instance} {c : Nat} (hg : i.graph = g)
    (h : Joins g past i (i.running ++ i.pending)) (hacc : Instance.Accounted i c)
    (hlat : Latches past i.store (i.running ++ i.pending)) {op : HostOp} (hop : ∀ dt, op ≠ .tick dt)
    (hK : i.store.lastId.toNat + (i.births op).countP (·.mints) < 2 ^ 64) (hb : c + i.created op < 2 ^ 64) :
    Joins g past (i.perform op) ((i.perform op).running ++ (i.perform op).pending) := by
  have hacc' := (hacc.perform op hb).1
  have hnew : ∀ a, (∃ u ∈ (i.perform op).running ++ (i.perform op).pending, u.activation = a) →
      ¬(∃ u ∈ i.running ++ i.pending, u.activation = a) → ∀ d ∈ past, d.token.activation ≠ a := by
    rintro a ⟨u,hu,hua⟩ hno d hd hda
    have hdr : Drained a i.store.lastId (i.running ++ i.pending) :=
      ⟨hda ▸ hlat.handed d hd,fun v hv hva => hno ⟨v,hv,hva⟩⟩
    exact (hdr.perform_of_ne_tick hop hK).2.none_live u hu hua
  rcases Instance.perform_slots_of_ne_tick i hop with ⟨hs,hpk,hold,hentry⟩ | ⟨hs,hpk,hlive⟩
  · refine ⟨h.graphs,?_,?_,?_,?_,?_,?_⟩
    · intro u hu
      rcases hentry u hu with hu | hu
      · exact h.pins u hu
      · obtain ⟨node,hn,hcl⟩ := hw.entries u.node (hg ▸ hu)
        exact ⟨node,hn,Or.inl hcl⟩
    · intro n a hsl
      rw [ActivationStore.slot?_of_slots_eq hs] at hsl
      obtain ⟨u,hu,ha⟩ := h.owned n a hsl
      exact ⟨u,hold u hu,ha⟩
    · intro n a hsl
      rw [ActivationStore.slot?_of_slots_eq hs] at hsl
      exact h.indexed n a hsl
    · intro u hu hpu
      rw [hpk] at hpu
      rcases hacc.mem_perform op hb hu with hu | hu
      · exact h.resumes u hu hpu
      · have hlt := h.parkedBelow u.seq hpu
        rw [hacc.created] at hlt
        omega
    · intro k hk
      rw [hpk] at hk
      have hlt := h.parkedBelow k hk
      rw [hacc'.created]
      rw [hacc.created] at hlt
      omega
    · intro n a ha
      by_cases hl : ∃ u ∈ i.running ++ i.pending, u.activation = a
      · exact (h.slots n a hl).of_slot?_eq (ActivationStore.slot?_of_slots_eq hs n a)
      · have hp := hnew a ha hl
        refine JoinAt.of_none ?_ ?_
        · rw [ActivationStore.slot?_of_slots_eq hs]
          cases hsl : i.store.slot? n a with
          | none => rfl
          | some sl => exact absurd (h.owned n a (by rw [hsl]; exact Option.some_ne_none sl)) hl
        · intro d hd
          simp [Delivery.hits,hp d hd]
  · rw [hlive]
    refine ⟨h.graphs,fun u hu => absurd hu List.not_mem_nil,?_,?_,fun u hu => absurd hu List.not_mem_nil,?_,?_⟩
    · intro n a hsl
      exact absurd (by unfold ActivationStore.slot?; rw [hs]; rfl) hsl
    · intro n a hsl
      exact absurd (by unfold ActivationStore.slot?; rw [hs]; rfl) hsl
    · intro k hk
      exact absurd (by rw [hpk]; rfl) hk
    · rintro n a ⟨u,hu,-⟩
      exact absurd hu List.not_mem_nil

end Joins

theorem Reports.perform_of_ne_tick {g : CompiledGraph} {past : List Delivery} {i : Instance}
    (h : Reports g past i (i.running ++ i.pending)) {op : HostOp} (hop : ∀ dt, op ≠ .tick dt)
    (hK : i.store.lastId.toNat + (i.births op).countP (·.mints) < 2 ^ 64) :
    Reports g past (i.perform op) ((i.perform op).running ++ (i.perform op).pending) := by
  refine h.of_unreported (Instance.unreported_perform_of_ne_tick i hop) ?_
    fun a ha => (ha.perform_of_ne_tick hop hK).2
  rcases Instance.perform_slots_of_ne_tick i hop with ⟨hs,-⟩ | ⟨hs,-⟩
  · exact h.sorted.of_slots_eq hs
  · unfold ActivationStore.Sorted
    rw [hs]
    exact List.Pairwise.nil

theorem Parks.step {past : List Delivery} {i : Instance} {dt : Binary64} (hc : i.cancelled = false)
    (hs : i.status = .running)
    (h : Parks past (i.tickStart.deliverAll i.tokens dt).2
      ((i.tickStart.deliverAll i.tokens dt).2.running ++ (i.tickStart.deliverAll i.tokens dt).2.pending)) :
    Parks past (i.step dt).2 ((i.step dt).2.running ++ (i.step dt).2.pending) := by
  obtain ⟨-,-,-,hr,hp,hn,-⟩ := Instance.step_of_running i dt hc hs
  have hpk : (i.step dt).2.store.parked = (i.tickStart.deliverAll i.tokens dt).2.store.parked := by
    rw [Instance.step_store i dt hc hs]
    exact (Instance.checkJoinTimeouts_unmark _).2
  have hrun : (i.tickStart.deliverAll i.tokens dt).2.status ≠ .aborted := by
    rw [(Instance.deliverAll_frame _ _ _).status]
    simp [Instance.tickStart,hs]
  have hlive : (i.step dt).2.running ++ (i.step dt).2.pending =
      (i.tickStart.deliverAll i.tokens dt).2.running ++ (i.tickStart.deliverAll i.tokens dt).2.pending := by
    rw [hr,hp]
  refine ⟨fun d hd => hn ▸ h.numbered d hd,fun d hd hout u hu => h.consumed d hd hout u (hlive ▸ hu),
    fun u hu => hpk ▸ h.running u (hr ▸ hu),fun u hu => hpk ▸ h.pending u (hp ▸ hu),fun k hk => ?_,
    fun _ d hd hds => hpk ▸ h.kept hrun d hd hds,fun ha => absurd ha (Instance.step_not_aborted i dt hc hs)⟩
  rw [hlive]
  exact h.stranded k (hpk ▸ hk)

/-- What holds at a delivery of a run over `g`, with `hist` the births and `past` the deliveries
so far and `live` the live tokens, the rest of the tick's batch included. -/
structure Amid (g : CompiledGraph) (hist : List Birth) (past : List Delivery) (m : Instance)
    (live : List Token) : Prop where
  steady : Steady g hist past m live
  ledger : Instance.Ledger m live
  numbered : m.nextSeq.toNat = hist.length
  joins : Joins g past m live
  graph : m.graph = g
  reports : Reports g past m live
  parks : Parks past m live

/-- What holds between the host operations of a run over `g`. -/
structure Between (g : CompiledGraph) (hist : List Birth) (past : List Delivery) (i : Instance) : Prop where
  steady : Steady g hist past i (i.running ++ i.pending)
  accounted : Instance.Accounted i hist.length
  joins : Joins g past i (i.running ++ i.pending)
  graph : i.graph = g
  reports : Reports g past i (i.running ++ i.pending)
  parks : Parks past i (i.running ++ i.pending)

theorem Between.create (g : CompiledGraph) (recordTrace : Bool) (invocations : List (String × Nat)) :
    Between g [] [] (Instance.create g recordTrace invocations) where
  steady := Steady.create g recordTrace invocations
  accounted := Instance.Accounted.create g recordTrace invocations
  joins :=
    { graphs := fun _ h => absurd h List.not_mem_nil
      pins := fun _ h => absurd h List.not_mem_nil
      owned := fun _ _ h => absurd rfl h
      indexed := fun _ _ h => absurd rfl h
      resumes := fun _ h => absurd h List.not_mem_nil
      parkedBelow := fun _ h => absurd rfl h
      slots := fun _ _ ⟨_,h,_⟩ => absurd h List.not_mem_nil }
  graph := rfl
  reports := Reports.create g recordTrace invocations
  parks := Parks.create g recordTrace invocations

section Runs

variable {g : CompiledGraph} {r : Nat → Nat} (hr : g.Ranked r) (hw : g.WellWired)
include hr hw

theorem Amid.deliver {hist : List Birth} {past : List Delivery} {m : Instance} {t : Token} {rest : List Token}
    (dt : Binary64) (h : Amid g hist past m (m.running ++ m.pending ++ t :: rest))
    (hb : hist.length + (m.sentTargets t dt).length < 2 ^ 64) :
    Amid g (hist ++ Instance.sentBirths t m.nextSeq m.store.lastId (m.sentTargets t dt)) (past ++ [⟨m,t,rest,dt⟩])
      (m.deliver t dt).2 ((m.deliver t dt).2.running ++ (m.deliver t dt).2.pending ++ rest) := by
  have hS := Instance.length_sentBirths t m.nextSeq m.store.lastId (m.sentTargets t dt)
  have hc1 : hist.countP (·.mints) ≤ hist.length := List.countP_le_length
  have hc2 : (Instance.sentBirths t m.nextSeq m.store.lastId (m.sentTargets t dt)).countP (·.mints) ≤
      (m.sentTargets t dt).length := hS ▸ List.countP_le_length
  have hlast := h.steady.traced.last_eq_count (by omega)
  obtain ⟨hled,hnext⟩ := Instance.Ledger.deliver dt h.ledger
    (by rw [(Instance.deliver_spec m t dt).1,h.numbered]; exact hb)
  have hK : m.store.lastId.toNat +
      (Instance.sentBirths t m.nextSeq m.store.lastId (m.sentTargets t dt)).countP (·.mints) < 2 ^ 64 := by
    rw [hlast]
    omega
  have hsteady := h.steady.deliver hr h.graph dt rest (by rw [List.countP_append]; omega)
  have hproc := h.joins.process hw rest dt h.graph h.ledger h.steady.latches hK (by rw [h.numbered]; exact hb)
  refine ⟨hsteady,hled,?_,?_,(Instance.deliver_births m t dt).2.2.2.trans h.graph,?_,?_⟩
  · rw [hnext,h.numbered,(Instance.deliver_spec m t dt).1,List.length_append,hS]
  · rw [Instance.deliver_eq]
    exact hproc.settle _ (Instance.Counted.process dt h.ledger.toCounted)
  · exact h.reports.deliver h.graph hproc h.ledger.toCounted hK
      (hsteady.latches.handed _ (List.mem_append_right _ (List.mem_singleton_self _)))
  · obtain ⟨node,hn,-⟩ := h.joins.pins t (List.mem_append_right _ List.mem_cons_self)
    exact h.parks.deliver dt h.ledger (by rw [h.graph,hn]; exact Option.some_ne_none node) h.joins.parkedBelow
      (by rw [h.numbered]; exact hb)

theorem Amid.deliverAll {hist : List Birth} {past : List Delivery} {m : Instance} {now : List Token}
    (dt : Binary64) (h : Amid g hist past m (m.running ++ m.pending ++ now))
    (hb : (hist ++ m.deliveryBirths now dt).length < 2 ^ 64) :
    (∀ (pre : List Delivery) (e : Delivery) (post : List Delivery), m.deliveryLog now dt = pre ++ e :: post →
      ∃ hist', Amid g hist' (past ++ pre) e.state e.live ∧
        hist'.length + (e.state.sentTargets e.token e.dt).length < 2 ^ 64) ∧
    Amid g (hist ++ m.deliveryBirths now dt) (past ++ m.deliveryLog now dt) (m.deliverAll now dt).2
      ((m.deliverAll now dt).2.running ++ (m.deliverAll now dt).2.pending) := by
  induction now generalizing hist past m with
  | nil =>
    refine ⟨fun pre e post he => absurd he.symm (List.append_ne_nil_of_right_ne_nil pre (List.cons_ne_nil e post)),?_⟩
    rw [Instance.deliverAll_nil,Instance.deliveryBirths,Instance.deliveryLog,List.append_nil,List.append_nil]
    rw [List.append_nil] at h
    exact h
  | cons t rest ih =>
    rw [Instance.deliveryBirths,← List.append_assoc] at hb
    have hb1 : hist.length + (m.sentTargets t dt).length < 2 ^ 64 := by
      rw [List.length_append,List.length_append,Instance.length_sentBirths] at hb
      omega
    obtain ⟨hat,hend⟩ := ih (h.deliver hr hw dt hb1) hb
    refine ⟨?_,?_⟩
    · intro pre e post he
      rw [Instance.deliveryLog,List.cons_eq_append_iff] at he
      rcases he with ⟨rfl,he⟩ | ⟨pre',rfl,he⟩
      · obtain ⟨rfl,-⟩ := List.cons.inj he
        refine ⟨hist,?_,hb1⟩
        rw [List.append_nil]
        exact h
      · obtain ⟨hist',ha,hb'⟩ := hat pre' e post he
        refine ⟨hist',?_,hb'⟩
        rw [← List.singleton_append,← List.append_assoc]
        exact ha
    · rw [Instance.deliverAll_cons,Instance.deliveryBirths,Instance.deliveryLog,← List.append_assoc,
        ← List.singleton_append,← List.append_assoc]
      exact hend

theorem Between.perform {hist : List Birth} {past : List Delivery} {i : Instance}
    (h : Between g hist past i) (op : HostOp) (hb : (hist ++ i.births op).length < 2 ^ 64) :
    (∀ (pre : List Delivery) (e : Delivery) (post : List Delivery), i.deliveries op = pre ++ e :: post →
      ∃ hist', Amid g hist' (past ++ pre) e.state e.live ∧
        hist'.length + (e.state.sentTargets e.token e.dt).length < 2 ^ 64) ∧
    Between g (hist ++ i.births op) (past ++ i.deliveries op) (i.perform op) := by
  have hg := h.graph
  subst hg
  have hK : (hist ++ i.births op).countP (·.mints) < 2 ^ 64 := lt_of_le_of_lt List.countP_le_length hb
  have hlen : hist.length + i.created op < 2 ^ 64 := by
    rw [← Instance.length_births,← List.length_append]
    exact hb
  have hsteady := (h.steady.perform hr op hK).2
  have hacc : Instance.Accounted (i.perform op) (hist ++ i.births op).length := by
    rw [List.length_append,Instance.length_births]
    exact (h.accounted.perform op hlen).1
  suffices key : (∀ (pre : List Delivery) (e : Delivery) (post : List Delivery), i.deliveries op = pre ++ e :: post →
        ∃ hist', Amid i.graph hist' (past ++ pre) e.state e.live ∧
          hist'.length + (e.state.sentTargets e.token e.dt).length < 2 ^ 64) ∧
      Joins i.graph (past ++ i.deliveries op) (i.perform op) ((i.perform op).running ++ (i.perform op).pending) ∧
      Reports i.graph (past ++ i.deliveries op) (i.perform op) ((i.perform op).running ++ (i.perform op).pending) ∧
      Parks (past ++ i.deliveries op) (i.perform op) ((i.perform op).running ++ (i.perform op).pending) from
    ⟨key.1,hsteady,hacc,key.2.1,Instance.perform_graph i op,key.2.2.1,key.2.2.2⟩
  have hlast := h.steady.traced.last_eq_count (lt_of_le_of_lt (List.countP_le_length) (by
    rw [List.length_append] at hb
    omega))
  rw [List.countP_append] at hK
  have quiet : ∀ op, i.deliveries op = [] →
      Joins i.graph past (i.perform op) ((i.perform op).running ++ (i.perform op).pending) →
      Reports i.graph past (i.perform op) ((i.perform op).running ++ (i.perform op).pending) →
      Parks past (i.perform op) ((i.perform op).running ++ (i.perform op).pending) →
      (∀ (pre : List Delivery) (e : Delivery) (post : List Delivery), i.deliveries op = pre ++ e :: post →
        ∃ hist', Amid i.graph hist' (past ++ pre) e.state e.live ∧
          hist'.length + (e.state.sentTargets e.token e.dt).length < 2 ^ 64) ∧
      Joins i.graph (past ++ i.deliveries op) (i.perform op) ((i.perform op).running ++ (i.perform op).pending) ∧
      Reports i.graph (past ++ i.deliveries op) (i.perform op) ((i.perform op).running ++ (i.perform op).pending) ∧
      Parks (past ++ i.deliveries op) (i.perform op) ((i.perform op).running ++ (i.perform op).pending) := by
    intro op hd hj hrep hpk
    rw [hd,List.append_nil]
    exact ⟨fun pre e post he => absurd he.symm (List.append_ne_nil_of_right_ne_nil pre (List.cons_ne_nil e post)),
      hj,hrep,hpk⟩
  revert hK hlen hb
  refine Instance.perform_cases i (fun op hop _ hK hlen => ?_) (fun dt hc hs hb _ _ => ?_)
    (fun dt hc hs _ _ _ => ?_) (fun dt hc _ hK hlen => ?_) op
  · have hK' : i.store.lastId.toNat + (i.births op).countP (·.mints) < 2 ^ 64 := by
      rw [hlast]
      omega
    exact quiet op (Instance.deliveries_of_ne_tick i hop)
      (h.joins.perform_of_ne_tick hw rfl h.accounted h.steady.latches hop hK' hlen)
      (h.reports.perform_of_ne_tick hop hK') (h.parks.perform_of_ne_tick h.accounted h.joins.parkedBelow hop hlen)
  · have hd : i.deliveries (.tick dt) = i.tickStart.deliveryLog i.tokens dt := by
      simp [Instance.deliveries,hc,hs]
    rw [Instance.births_tick_of_running i dt hc hs] at hb
    rw [hd]
    have h0 : Amid i.graph hist past i.tickStart (i.tickStart.running ++ i.tickStart.pending ++ i.tokens) := by
      have hp : (i.running ++ i.pending).Perm (i.tickStart.running ++ i.tickStart.pending ++ i.tokens) := by
        show (i.running ++ i.pending).Perm ([] ++ [] ++ i.tokens)
        simpa using (Instance.tokens_perm i).symm
      exact ⟨h.steady.tickStart,(h.accounted.ledger.perm hp).of_eq rfl rfl,h.accounted.created,
        (h.joins.perm hp).of_unmark (fun _ _ => rfl) rfl rfl,rfl,h.reports.tickStart,h.parks.tickStart⟩
    obtain ⟨hat,hend⟩ := Amid.deliverAll hr hw dt h0 hb
    refine ⟨hat,?_,hend.reports.step hc hs,hend.parks.step hc hs⟩
    obtain ⟨-,-,-,hr',hp',hn',-⟩ := Instance.step_of_running i dt hc hs
    obtain ⟨hun,hpk⟩ := Instance.checkJoinTimeouts_unmark (i.tickStart.deliverAll i.tokens dt).2
    have hst := Instance.step_store i dt hc hs
    show Joins i.graph _ (i.step dt).2 ((i.step dt).2.running ++ (i.step dt).2.pending)
    rw [hr',hp']
    exact hend.joins.of_unmark (fun n a => by rw [hst]; exact hun n a) (by rw [hst]; exact hpk) hn'
  · have hq := quiet (.tick dt) (by simp [Instance.deliveries,hs])
    rw [Instance.perform_tick_of_stopped i dt hc hs] at hq ⊢
    exact hq h.joins h.reports h.parks
  · rw [Instance.births_tick_of_cancelled i dt hc] at hK
    have hc0 : i.created (.tick dt) = i.created .abort := by
      rw [← Instance.length_births,← Instance.length_births,Instance.births_tick_of_cancelled i dt hc]
    rw [hc0] at hlen
    have hK' : i.store.lastId.toNat + (i.births .abort).countP (·.mints) < 2 ^ 64 := by
      rw [hlast]
      omega
    have hq := quiet (.tick dt) (by simp [Instance.deliveries,hc])
    rw [Instance.perform_tick_of_cancelled i dt hc] at hq ⊢
    exact hq (h.joins.perform_of_ne_tick hw rfl h.accounted h.steady.latches (fun _ h => by cases h) hK' hlen)
      (h.reports.perform_of_ne_tick (fun _ h => by cases h) hK')
      (h.parks.perform_of_ne_tick h.accounted h.joins.parkedBelow (fun _ h => by cases h) hlen)

/-- Along a run of a ranked, well-wired graph that creates fewer than `2 ^ 64` tokens, what
holds at deliveries holds at each of them, and what holds between operations at its end. -/
theorem Between.run {hist : List Birth} {past : List Delivery} {i : Instance}
    (h : Between g hist past i) (ops : List HostOp) (hb : (hist ++ i.runBirths ops).length < 2 ^ 64) :
    (∀ (pre : List Delivery) (e : Delivery) (post : List Delivery), i.runDeliveries ops = pre ++ e :: post →
      ∃ hist', Amid g hist' (past ++ pre) e.state e.live ∧
        hist'.length + (e.state.sentTargets e.token e.dt).length < 2 ^ 64) ∧
    Between g (hist ++ i.runBirths ops) (past ++ i.runDeliveries ops) (i.run ops) := by
  induction ops generalizing hist past i with
  | nil =>
    refine ⟨fun pre e post he => absurd he.symm (List.append_ne_nil_of_right_ne_nil pre (List.cons_ne_nil e post)),?_⟩
    simpa [Instance.runBirths,Instance.runDeliveries,Instance.run] using h
  | cons op ops ih =>
    rw [Instance.runBirths,← List.append_assoc] at hb
    have hb1 : (hist ++ i.births op).length < 2 ^ 64 := by
      rw [List.length_append] at hb
      omega
    obtain ⟨hat,h1⟩ := h.perform hr hw op hb1
    obtain ⟨hat',hend⟩ := ih h1 hb
    refine ⟨?_,?_⟩
    · intro pre e post he
      rw [Instance.runDeliveries] at he
      rcases split_append he with ⟨post',hpre⟩ | ⟨pre',rfl,hmore⟩
      · exact hat pre e post' hpre
      · rw [← List.append_assoc]
        exact hat' pre' e post hmore
    · rw [Instance.runBirths,Instance.runDeliveries,Instance.run,← List.append_assoc,← List.append_assoc]
      exact hend

end Runs

end Tickflow
