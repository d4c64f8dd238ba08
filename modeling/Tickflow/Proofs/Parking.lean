import Tickflow.Proofs.Joins
/-! # Parked states along a run

A token that keeps executing parks its state under its sequence number. A token absorbed by a
latched slot while its state is parked *strands* it until the instance aborts. `Parks` says
where the parked states stand at every point of a run.
-/
namespace Tickflow

/-- A delivery strands its token's parked state: a latched slot absorbs the token while a state
is parked under its number. -/
def Delivery.strands (d : Delivery) : Prop :=
  d.outcome = some .absorbed ∧ lookupMember d.token.seq d.state.store.parked ≠ none

namespace Instance

theorem outcome_cases {m : Instance} {t : Token} (dt : Binary64) (hn : m.graph.node? t.node ≠ none) :
    m.outcome t dt = some .absorbed ∨ ∃ s, m.outcome t dt = some (.ran s) := by
  cases hnode : m.graph.node? t.node with
  | none => exact absurd hnode hn
  | some node =>
    cases hl : m.store.isLatched t.node t.activation
    · exact Or.inr ⟨_,outcome_of_ran dt hnode hl⟩
    · left
      simp [outcome,hnode,hl]

theorem deliver_parked_of_ne (m : Instance) (t : Token) (dt : Binary64) {k : UInt64} (hk : t.seq ≠ k) :
    lookupMember k (m.deliver t dt).2.store.parked = lookupMember k m.store.parked := by
  rw [deliver_eq,settle_parked]
  exact process_parked_of_ne m t dt hk

theorem deliver_parked_self (m : Instance) (t : Token) (dt : Binary64) :
    lookupMember t.seq (m.deliver t dt).2.store.parked ≠ none ↔
      m.keeps t dt = true ∨ (∀ s, m.outcome t dt ≠ some (.ran s)) ∧ lookupMember t.seq m.store.parked ≠ none := by
  rw [deliver_eq,settle_parked]
  exact process_parked_self m t dt

theorem mem_deliver_live {m : Instance} {t : Token} {rest : List Token} {dt : Binary64} {u : Token} :
    u ∈ (m.deliver t dt).2.running ++ (m.deliver t dt).2.pending ++ rest ↔
      u ∈ m.running ++ m.pending ++ rest ∨ (u = t ∧ m.keeps t dt = true) ∨
        u ∈ queued t.activation m.nextSeq m.store.lastId (m.sentTargets t dt) := by
  obtain ⟨-,-,hr,hp,-⟩ := deliver_spec m t dt
  rw [hr,hp]
  cases m.keeps t dt <;> simp <;> tauto

theorem activate_parks (i : Instance) (idx : Nat) :
    let j := (i.activate idx).2
    j.running = i.running ∧ (∀ u ∈ i.pending, u ∈ j.pending) ∧ j.store.parked = i.store.parked ∧
      j.status = .running := by
  obtain ⟨k,hr,hp,-,-,-,-,hpk,hs,-,-,he⟩ := activate_eq i idx
  rw [he]
  exact ⟨hr,fun u hu => by simp [enqueue,hp,hu],hpk,hs⟩

theorem foldl_startEntry_parks (entries : List Nat) (s : List UInt64 × Option ScriptError × Instance) :
    let r := (entries.foldl startEntry s).2.2
    r.running = s.2.2.running ∧ (∀ u ∈ s.2.2.pending, u ∈ r.pending) ∧ r.store.parked = s.2.2.store.parked ∧
      (r.status = .aborted ↔ s.2.2.status = .aborted) ∧ (s.2.2.status = .aborted → r.pending = s.2.2.pending) := by
  induction entries generalizing s with
  | nil => exact ⟨rfl,fun _ hu => hu,rfl,Iff.rfl,fun _ => rfl⟩
  | cons idx rest ih =>
    obtain ⟨acts,err,k⟩ := s
    obtain ⟨h1,h2,h3,h4,h5⟩ := ih (startEntry (acts,err,k) idx)
    rw [List.foldl_cons]
    have hone : (startEntry (acts,err,k) idx).2.2.running = k.running ∧
        (∀ u ∈ k.pending, u ∈ (startEntry (acts,err,k) idx).2.2.pending) ∧
        (startEntry (acts,err,k) idx).2.2.store.parked = k.store.parked ∧
        ((startEntry (acts,err,k) idx).2.2.status = .aborted ↔ k.status = .aborted) ∧
        (k.status = .aborted → (startEntry (acts,err,k) idx).2.2.pending = k.pending) := by
      cases err with
      | some e => exact ⟨rfl,fun _ hu => hu,rfl,Iff.rfl,fun _ => rfl⟩
      | none =>
        simp only [startEntry]
        split
        · rename_i act j ht
          obtain ⟨idx',hk,-,-,-,ha⟩ := trigger_eq_ok ht
          obtain ⟨hr,hp,hpk,hs⟩ := activate_parks k idx'
          rw [ha] at hr hp hpk hs
          refine ⟨hr,hp,hpk,?_,fun h => absurd h hk⟩
          rw [hs]
          exact ⟨fun h => (by cases h),fun h => absurd h hk⟩
        · exact ⟨rfl,fun _ hu => hu,rfl,Iff.rfl,fun _ => rfl⟩
    obtain ⟨g1,g2,g3,g4,g5⟩ := hone
    refine ⟨h1.trans g1,fun u hu => h2 u (g2 u hu),h3.trans g3,h4.trans g4,fun hk => ?_⟩
    rw [h5 (g4.mpr hk),g5 hk]

theorem perform_parks_of_ne_tick (i : Instance) {op : HostOp} (hop : ∀ dt, op ≠ .tick dt) :
    ((i.perform op).running = i.running ∧ (∀ u ∈ i.pending, u ∈ (i.perform op).pending) ∧
      (i.perform op).store.parked = i.store.parked ∧ ((i.perform op).status = .aborted ↔ i.status = .aborted) ∧
      (i.status = .aborted → (i.perform op).pending = i.pending)) ∨
    ((i.perform op).status = .aborted ∧ (i.perform op).store.parked = [] ∧
      (i.perform op).running ++ (i.perform op).pending = []) := by
  have hsame : ∀ j : Instance, j.running = i.running → j.pending = i.pending → j.store.parked = i.store.parked →
      j.status = i.status →
      j.running = i.running ∧ (∀ u ∈ i.pending, u ∈ j.pending) ∧ j.store.parked = i.store.parked ∧
        (j.status = .aborted ↔ i.status = .aborted) ∧ (i.status = .aborted → j.pending = i.pending) := by
    intro j hr hp hpk hs
    exact ⟨hr,fun u hu => hp ▸ hu,hpk,by rw [hs],fun _ => hp⟩
  cases op with
  | trigger node =>
    left
    simp only [perform]
    split
    · rename_i act j ht
      obtain ⟨idx,hk,-,-,-,ha⟩ := trigger_eq_ok ht
      obtain ⟨hr,hp,hpk,hs⟩ := activate_parks i idx
      rw [ha] at hr hp hpk hs
      refine ⟨hr,hp,hpk,?_,fun h => absurd h hk⟩
      rw [hs]
      exact ⟨fun h => (by cases h),fun h => absurd h hk⟩
    · exact hsame i rfl rfl rfl rfl
  | start => exact Or.inl (foldl_startEntry_parks i.graph.entries ([],none,i))
  | tick dt => exact absurd rfl (hop dt)
  | abort =>
    have hp : i.perform .abort = i.abort := rfl
    rw [hp]
    unfold abort
    split
    · exact Or.inl (hsame i rfl rfl rfl rfl)
    · right
      simp [emit,ActivationStore.clear]
  | cancel => exact Or.inl (hsame _ rfl rfl rfl rfl)
  | setVariable name v => exact Or.inl (hsame _ rfl rfl rfl rfl)

theorem step_not_aborted (i : Instance) (dt : Binary64) (hc : i.cancelled = false) (hs : i.status = .running) :
    (i.step dt).2.status ≠ .aborted := by
  have hd := deliverAll_frame i.tickStart i.tokens dt
  simp only [step,hc,hs,Bool.false_eq_true,if_false,ne_eq,not_true_eq_false]
  rcases hdel : i.tickStart.deliverAll i.tokens dt with ⟨sent,j⟩
  rw [hdel] at hd
  obtain ⟨hf,-⟩ := checkJoinTimeouts_frame j
  simp only [tickEnd]
  split
  · simp [emit]
  · rw [hf.status,hd.status]
    simp [tickStart,hs]

end Instance

theorem Instance.Accounted.mem_perform {i : Instance} {c : Nat} (h : Instance.Accounted i c) (op : HostOp)
    (hb : c + i.created op < 2 ^ 64) {u : Token} (hu : u ∈ (i.perform op).running ++ (i.perform op).pending) :
    u ∈ i.running ++ i.pending ∨ c ≤ u.seq.toNat := by
  obtain ⟨-,fresh,hperm,hseq⟩ := h.perform op hb
  rcases List.mem_append.mp (hperm.mem_iff.mp hu) with hu | hu
  · exact Or.inl (Instance.mem_tokens.mp (List.mem_filter.mp hu).1)
  · right
    have hm : u.seq.toNat ∈ List.range' c (i.created op) := by
      rw [← hseq]
      exact List.mem_map_of_mem hu
    exact (List.mem_range'_1.mp hm).1

theorem Instance.Ledger.seq_ne_of_split {i : Instance} {pre rest : List Token} {t : Token}
    (h : Instance.Ledger i (pre ++ t :: rest)) {u : Token} (hu : u ∈ pre ++ rest) : t.seq ≠ u.seq := by
  have hp : (pre ++ t :: rest).Perm (t :: (pre ++ rest)) := List.perm_middle
  have hd := (hp.map fun x : Token => x.seq).nodup_iff.mp h.distinct
  intro he
  exact (List.nodup_cons.mp hd).1 (List.mem_map.mpr ⟨u,hu,he.symm⟩)

theorem lookupMember_eq_none_of_bound {l : List (UInt64 × ActivationState)} {n : Nat}
    (hbelow : ∀ k, lookupMember k l ≠ none → k.toNat < n) {k : UInt64} (hk : n ≤ k.toNat) :
    lookupMember k l = none := by
  by_contra h
  have := hbelow k h
  omega

/-- Where the parked states stand at a point of a run, with `past` the deliveries so far and
`live` the live tokens: every running token has its parked state and no queued token has one;
every other parked state was stranded, and a stranded state stays parked until the instance
aborts, which clears them all. A token a delivery consumed is never live again. -/
structure Parks (past : List Delivery) (m : Instance) (live : List Token) : Prop where
  numbered : ∀ d ∈ past, d.token.seq.toNat < m.nextSeq.toNat
  consumed : ∀ d ∈ past, d.outcome ≠ some (.ran .executing) → ∀ u ∈ live, u.seq ≠ d.token.seq
  running : ∀ u ∈ m.running, lookupMember u.seq m.store.parked ≠ none
  pending : ∀ u ∈ m.pending, lookupMember u.seq m.store.parked = none
  stranded : ∀ k, lookupMember k m.store.parked ≠ none →
    (∃ u ∈ live, u.seq = k) ∨ ∃ d ∈ past, d.token.seq = k ∧ d.strands
  kept : m.status ≠ .aborted → ∀ d ∈ past, d.strands → lookupMember d.token.seq m.store.parked ≠ none
  cleared : m.status = .aborted → m.store.parked = [] ∧ live = []

namespace Parks

variable {past : List Delivery}

theorem create (g : CompiledGraph) (recordTrace : Bool) (invocations : List (String × Nat)) :
    Parks [] (Instance.create g recordTrace invocations) [] where
  numbered _ h := absurd h List.not_mem_nil
  consumed _ h := absurd h List.not_mem_nil
  running _ h := absurd h List.not_mem_nil
  pending _ h := absurd h List.not_mem_nil
  stranded _ h := absurd rfl h
  kept _ _ h := absurd h List.not_mem_nil
  cleared _ := ⟨rfl,rfl⟩

theorem tickStart {i : Instance} (h : Parks past i (i.running ++ i.pending)) :
    Parks past i.tickStart (i.tickStart.running ++ i.tickStart.pending ++ i.tokens) := by
  have hmem : ∀ u, u ∈ i.tickStart.running ++ i.tickStart.pending ++ i.tokens ↔ u ∈ i.running ++ i.pending := by
    intro u
    simp [Instance.tickStart,Instance.mem_tokens]
  refine ⟨h.numbered,fun d hd hout u hu => h.consumed d hd hout u ((hmem u).mp hu),
    fun u hu => absurd hu List.not_mem_nil,fun u hu => absurd hu List.not_mem_nil,?_,h.kept,?_⟩
  · intro k hk
    rcases h.stranded k hk with ⟨u,hu,huk⟩ | hs
    · exact Or.inl ⟨u,(hmem u).mpr hu,huk⟩
    · exact Or.inr hs
  · intro hst
    obtain ⟨hp,hl⟩ := h.cleared hst
    refine ⟨hp,List.eq_nil_iff_forall_not_mem.mpr fun u hu => ?_⟩
    have hu' := (hmem u).mp hu
    rw [hl] at hu'
    exact absurd hu' List.not_mem_nil

theorem deliver {m : Instance} {t : Token} {rest : List Token} (dt : Binary64)
    (h : Parks past m (m.running ++ m.pending ++ t :: rest))
    (hled : Instance.Ledger m (m.running ++ m.pending ++ t :: rest)) (hn : m.graph.node? t.node ≠ none)
    (hbelow : ∀ k, lookupMember k m.store.parked ≠ none → k.toNat < m.nextSeq.toNat)
    (hN : m.nextSeq.toNat + (m.sentTargets t dt).length < 2 ^ 64) :
    Parks (past ++ [⟨m,t,rest,dt⟩]) (m.deliver t dt).2
      ((m.deliver t dt).2.running ++ (m.deliver t dt).2.pending ++ rest) := by
  obtain ⟨-,hf,hr,hp,hnext,-⟩ := Instance.deliver_spec m t dt
  have htL : t ∈ m.running ++ m.pending ++ t :: rest := List.mem_append_right _ List.mem_cons_self
  have ht := hled.fresh t htL
  have hN' : (m.deliver t dt).2.nextSeq.toNat = m.nextSeq.toNat + (m.sentTargets t dt).length := by
    rw [hnext,Nat.mod_eq_of_lt hN]
  have hold : ∀ u ∈ m.running ++ m.pending ++ rest, u ∈ m.running ++ m.pending ++ t :: rest := by
    intro u hu
    simp only [List.mem_append,List.mem_cons] at hu ⊢
    tauto
  have hother : ∀ u ∈ m.running ++ m.pending ++ rest, t.seq ≠ u.seq := fun _ hu => hled.seq_ne_of_split hu
  have hsent : ∀ u ∈ Instance.queued t.activation m.nextSeq m.store.lastId (m.sentTargets t dt),
      m.nextSeq.toNat ≤ u.seq.toNat := fun u hu => (Instance.seq_of_mem_queued hN hu).1
  have hpast : ∀ d ∈ past ++ [⟨m,t,rest,dt⟩], d.token.seq.toNat < m.nextSeq.toNat := by
    intro d hd
    rcases List.mem_append.mp hd with hd | hd
    · exact h.numbered d hd
    · rw [List.mem_singleton.mp hd]
      exact ht
  refine ⟨?_,?_,?_,?_,?_,?_,?_⟩
  · intro d hd
    have := hpast d hd
    omega
  · intro d hd hout u hu
    rcases Instance.mem_deliver_live.mp hu with hu | ⟨rfl,hk⟩ | hu
    · rcases List.mem_append.mp hd with hd | hd
      · exact h.consumed d hd hout u (hold u hu)
      · rw [List.mem_singleton.mp hd]
        exact (hother u hu).symm
    · rcases List.mem_append.mp hd with hd | hd
      · exact h.consumed d hd hout _ htL
      · rw [List.mem_singleton.mp hd] at hout
        exact absurd (show m.outcome u dt = some (.ran .executing) by simpa [Instance.keeps] using hk) hout
    · have h1 := hsent u hu
      have h2 := hpast d hd
      intro he
      rw [he] at h1
      omega
  · intro u hu
    rw [hr] at hu
    rcases List.mem_append.mp hu with hu | hu
    · rw [Instance.deliver_parked_of_ne m t dt (hother u (by simp [hu]))]
      exact h.running u hu
    · split at hu
      · rw [List.mem_singleton.mp hu]
        exact (Instance.deliver_parked_self m t dt).mpr (Or.inl ‹_›)
      · exact absurd hu List.not_mem_nil
  · intro u hu
    rw [hp] at hu
    rcases List.mem_append.mp hu with hu | hu
    · rw [Instance.deliver_parked_of_ne m t dt (hother u (by simp [hu]))]
      exact h.pending u hu
    · have h1 := hsent u hu
      rw [Instance.deliver_parked_of_ne m t dt (fun he => by rw [← he] at h1; omega)]
      exact lookupMember_eq_none_of_bound hbelow h1
  · intro k hk
    by_cases hkt : t.seq = k
    · subst hkt
      rcases (Instance.deliver_parked_self m t dt).mp hk with hkeep | ⟨hnr,hpk⟩
      · exact Or.inl ⟨t,Instance.mem_deliver_live.mpr (Or.inr (Or.inl ⟨rfl,hkeep⟩)),rfl⟩
      · right
        refine ⟨⟨m,t,rest,dt⟩,List.mem_append_right _ (List.mem_singleton_self _),rfl,?_,hpk⟩
        rcases Instance.outcome_cases dt hn with ho | ⟨s,hs⟩
        · exact ho
        · exact absurd hs (hnr s)
    · rw [Instance.deliver_parked_of_ne m t dt hkt] at hk
      rcases h.stranded k hk with ⟨u,hu,rfl⟩ | ⟨d,hd,hdk,hds⟩
      · have hu' : u ∈ m.running ++ m.pending ++ rest := by
          simp only [List.mem_append,List.mem_cons] at hu ⊢
          rcases hu with hu | hu | hu
          · exact Or.inl hu
          · exact absurd (congrArg Token.seq hu).symm hkt
          · exact Or.inr hu
        exact Or.inl ⟨u,Instance.mem_deliver_live.mpr (Or.inl hu'),rfl⟩
      · exact Or.inr ⟨d,List.mem_append_left _ hd,hdk,hds⟩
  · intro hst d hd hds
    rw [hf.status] at hst
    rcases List.mem_append.mp hd with hd | hd
    · have hkt : t.seq ≠ d.token.seq := h.consumed d hd (by rw [hds.1]; simp) t htL
      rw [Instance.deliver_parked_of_ne m t dt hkt]
      exact h.kept hst d hd hds
    · rw [List.mem_singleton.mp hd] at hds ⊢
      obtain ⟨ho,hpk⟩ := hds
      refine (Instance.deliver_parked_self m t dt).mpr (Or.inr ⟨fun s hs => ?_,hpk⟩)
      rw [show m.outcome t dt = some .absorbed from ho] at hs
      cases hs
  · intro hst
    rw [hf.status] at hst
    exact absurd (h.cleared hst).2 (List.ne_nil_of_mem htL)

theorem perform_of_ne_tick {i : Instance} {c : Nat} (h : Parks past i (i.running ++ i.pending))
    (hacc : Instance.Accounted i c) (hbelow : ∀ k, lookupMember k i.store.parked ≠ none → k.toNat < i.nextSeq.toNat)
    {op : HostOp} (hop : ∀ dt, op ≠ .tick dt) (hb : c + i.created op < 2 ^ 64) :
    Parks past (i.perform op) ((i.perform op).running ++ (i.perform op).pending) := by
  have hacc' := (hacc.perform op hb).1
  have hc := hacc.created
  have hN : c ≤ (i.perform op).nextSeq.toNat := by
    rw [hacc'.created]
    omega
  rcases Instance.perform_parks_of_ne_tick i hop with ⟨hr,hp,hpk,hst,hq⟩ | ⟨hst,hpk,hnil⟩
  · refine ⟨?_,?_,?_,?_,?_,?_,?_⟩
    · intro d hd
      have := h.numbered d hd
      omega
    · intro d hd hout u hu
      rcases hacc.mem_perform op hb hu with hu | hu
      · exact h.consumed d hd hout u hu
      · have := h.numbered d hd
        intro he
        rw [he] at hu
        omega
    · intro u hu
      rw [hpk]
      exact h.running u (hr ▸ hu)
    · intro u hu
      rw [hpk]
      rcases hacc.mem_perform op hb (List.mem_append_right _ hu) with hu' | hu'
      · rcases List.mem_append.mp hu' with hu' | hu'
        · have hd := hacc'.ledger.distinct
          rw [List.map_append,List.nodup_append] at hd
          exact absurd rfl (hd.2.2 _ (List.mem_map_of_mem (hr ▸ hu')) _ (List.mem_map_of_mem hu))
        · exact h.pending u hu'
      · exact lookupMember_eq_none_of_bound hbelow (hc ▸ hu')
    · intro k hk
      rw [hpk] at hk
      rcases h.stranded k hk with ⟨u,hu,huk⟩ | hs
      · refine Or.inl ⟨u,?_,huk⟩
        rcases List.mem_append.mp hu with hu | hu
        · exact List.mem_append_left _ (hr ▸ hu)
        · exact List.mem_append_right _ (hp u hu)
      · exact Or.inr hs
    · intro hs d hd hds
      rw [hpk]
      exact h.kept (fun ha => hs (hst.mpr ha)) d hd hds
    · intro hs
      have ha := hst.mp hs
      obtain ⟨hpk0,hl⟩ := h.cleared ha
      rw [hpk,hr,hq ha]
      exact ⟨hpk0,hl⟩
  · have hnil' : ∀ u, u ∉ (i.perform op).running ++ (i.perform op).pending := by
      rw [hnil]
      exact fun u => List.not_mem_nil
    refine ⟨?_,fun d _ _ u hu => absurd hu (hnil' u),fun u hu => absurd (List.mem_append_left _ hu) (hnil' u),
      fun u hu => absurd (List.mem_append_right _ hu) (hnil' u),?_,fun hs => absurd hst hs,fun _ => ⟨hpk,hnil⟩⟩
    · intro d hd
      have := h.numbered d hd
      omega
    · intro k hk
      rw [hpk] at hk
      exact absurd rfl hk

end Parks

end Tickflow
