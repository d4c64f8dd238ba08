import Tickflow.Proofs.Run
/-! # Exact live counts

At every reachable instance, and inside a tick, the live count of an activation is the number of
live tokens carrying it, and no count is zero. A consumed token's activation is always found,
and it is released exactly when no other live token carries it.
-/
namespace Tickflow

namespace Instance

theorem Counted.tokenConsumed {k : Instance} {live : List Token} (h : Counted k live) {t : Token}
    (ht : t ∈ live) :
    lookupMember t.activation k.store.live ≠ none ∧
      ((k.store.tokenConsumed t.activation).1 = true ↔ live.countP (·.activation == t.activation) = 1) := by
  have hpos : 0 < live.countP (·.activation == t.activation) := List.countP_pos_iff.mpr ⟨t,ht,by simp⟩
  refine ⟨?_,?_⟩
  · intro hnone
    have h0 := h.counts t.activation
    simp only [ActivationStore.liveTokens,hnone,Option.getD_none] at h0
    omega
  · rw [ActivationStore.tokenConsumed_fst_iff h.positive,h.counts]

theorem Counted.process {m : Instance} {t : Token} {later : List Token} (dt : Binary64)
    (h : Counted m (m.running ++ m.pending ++ t :: later)) :
    let k := (m.process t dt).2.2
    Counted k (k.running ++ k.pending ++ t :: later) := by
  obtain ⟨-,-,-,hr,hp,-,-,hc,hpos⟩ := process_spec m t dt
  refine ⟨?_,hpos h.positive⟩
  intro a
  rw [hc a,h.counts a,hr,hp]
  simp only [List.countP_append]
  omega

theorem Counted.tickStart {i : Instance} (h : Counted i (i.running ++ i.pending)) :
    Counted i.tickStart (i.tickStart.running ++ i.tickStart.pending ++ i.tokens) := by
  have hperm : (i.running ++ i.pending).Perm (i.tickStart.running ++ i.tickStart.pending ++ i.tokens) := by
    show (i.running ++ i.pending).Perm ([] ++ [] ++ i.tokens)
    simpa using (tokens_perm i).symm
  exact (h.perm hperm).of_live_eq rfl

theorem Counted.activate {i : Instance} (h : Counted i (i.running ++ i.pending)) (idx : Nat) :
    let j := (i.activate idx).2
    Counted j (j.running ++ j.pending) := by
  obtain ⟨k,hr,hp,-,hl,-,-,-,-,-,-,he⟩ := activate_eq i idx
  rw [he]
  have hk : Counted k (k.running ++ k.pending) := by
    rw [hr,hp]
    exact h.of_live_eq hl
  have hq := hk.enqueue idx 0 (i.store.lastId + 1)
  rw [List.append_assoc] at hq
  exact hq

theorem Counted.foldl_startEntry (entries : List Nat) (s : List UInt64 × Option ScriptError × Instance)
    (h : Counted s.2.2 (s.2.2.running ++ s.2.2.pending)) :
    let r := (entries.foldl startEntry s).2.2
    Counted r (r.running ++ r.pending) := by
  induction entries generalizing s with
  | nil => exact h
  | cons idx rest ih =>
    apply ih
    obtain ⟨acts,err,k⟩ := s
    cases err with
    | some e => exact h
    | none =>
      simp only [startEntry]
      split
      · rename_i act j ht
        obtain ⟨idx',-,-,-,-,ha⟩ := trigger_eq_ok ht
        have hj := Counted.activate h idx'
        rw [ha] at hj
        exact hj
      · exact h

theorem Counted.abort {i : Instance} (h : Counted i (i.running ++ i.pending)) :
    Counted i.abort (i.abort.running ++ i.abort.pending) := by
  unfold Instance.abort
  split
  · exact h
  · exact (Ledger.of_live_nil rfl).toCounted

theorem Counted.step {i : Instance} (h : Counted i (i.running ++ i.pending)) (dt : Binary64) :
    let j := (i.step dt).2
    Counted j (j.running ++ j.pending) := by
  cases hc : i.cancelled
  · by_cases hs : i.status = .running
    · obtain ⟨-,-,-,hr,hp,-,hl,-⟩ := step_of_running i dt hc hs
      have h0 : Counted i.tickStart (i.tickStart.running ++ i.tickStart.pending ++ (i.tokens ++ [])) := by
        rw [List.append_nil]
        exact h.tickStart
      have hd := @Counted.deliverAll i.tickStart i.tokens [] dt h0
      dsimp only at hd ⊢
      rw [List.append_nil] at hd
      rw [hr,hp]
      exact hd.of_live_eq hl
    · rw [step_of_stopped i dt hc hs]
      exact h
  · rw [step_of_cancelled i dt hc]
    exact h.abort

theorem Counted.perform {i : Instance} (h : Counted i (i.running ++ i.pending)) (op : HostOp) :
    let j := i.perform op
    Counted j (j.running ++ j.pending) := by
  cases op with
  | trigger node =>
    simp only [Instance.perform]
    split
    · rename_i act j ht
      obtain ⟨idx,-,-,-,-,ha⟩ := trigger_eq_ok ht
      have hj := Counted.activate h idx
      rw [ha] at hj
      exact hj
    · exact h
  | start => exact Counted.foldl_startEntry i.graph.entries ([],none,i) h
  | tick dt => exact h.step dt
  | abort => exact h.abort
  | cancel => exact h.of_live_eq rfl
  | setVariable name v => exact h.of_live_eq rfl

end Instance

theorem Reachable.counted {i : Instance} {c : Nat} (hr : Reachable i c) :
    Instance.Counted i (i.running ++ i.pending) := by
  induction hr with
  | create g recordTrace invocations => exact (Instance.Ledger.of_live_nil rfl).toCounted
  | perform op _ ih => exact ih.perform op

/-- The live counts are exact at every reachable instance, and inside a tick before each
delivery, where the rest of the batch is live too. When a delivery settles its token, the
tokens it sent are queued and counted; when it consumes the token, the token's activation is
found, and it is released exactly when no other live token carries it. -/
theorem Reachable.live_counts_exact {i : Instance} {c : Nat} (hr : Reachable i c) :
    Instance.Counted i (i.running ++ i.pending) ∧
      ∀ dt now later, i.tokens = now ++ later →
        let m := (i.tickStart.deliverAll now dt).2
        Instance.Counted m (m.running ++ m.pending ++ later) ∧
        ∀ t rest, later = t :: rest →
          let k := (m.process t dt).2.2
          (∃ sent, k.running ++ k.pending = m.running ++ m.pending ++ sent ∧ sent.length = (m.process t dt).1) ∧
          Instance.Counted k (k.running ++ k.pending ++ t :: rest) ∧
          ((m.process t dt).2.1 = false →
            lookupMember t.activation k.store.live ≠ none ∧
            ((k.store.tokenConsumed t.activation).1 = true ↔
              (k.running ++ k.pending ++ rest).countP (·.activation == t.activation) = 0)) := by
  have h := hr.counted
  refine ⟨h,?_⟩
  intro dt now later hsplit
  have hm0 : Instance.Counted i.tickStart (i.tickStart.running ++ i.tickStart.pending ++ (now ++ later)) := by
    rw [← hsplit]
    exact h.tickStart
  have hm := Instance.Counted.deliverAll dt hm0
  refine ⟨hm,?_⟩
  intro t rest hl
  subst hl
  generalize (i.tickStart.deliverAll now dt).2 = m at hm ⊢
  have hk := Instance.Counted.process dt hm
  obtain ⟨hsent,-,-,hr',hp',-⟩ := Instance.process_spec m t dt
  refine ⟨⟨_,by rw [hr',hp',List.append_assoc],by rw [hsent,Instance.length_queued]⟩,hk,?_⟩
  intro _
  obtain ⟨hnone,hiff⟩ := hk.tokenConsumed (List.mem_append_right _ List.mem_cons_self)
  refine ⟨hnone,hiff.trans ?_⟩
  have hself : ((m.process t dt).2.2.running ++ (m.process t dt).2.2.pending ++ t :: rest).countP
      (·.activation == t.activation) =
      ((m.process t dt).2.2.running ++ (m.process t dt).2.2.pending ++ rest).countP (·.activation == t.activation) + 1 := by
    simp only [List.countP_append,List.countP_cons,beq_self_eq_true,if_true]
    omega
  rw [hself]
  omega

/-- In the relay just started, the counts are exact before and inside the next tick. -/
theorem live_counts_exact_relay :
    let i := (Instance.create relayGraph false).perform .start
    Reachable i 1 ∧
      (Instance.Counted i (i.running ++ i.pending) ∧
        ∀ dt now later, i.tokens = now ++ later →
          let m := (i.tickStart.deliverAll now dt).2
          Instance.Counted m (m.running ++ m.pending ++ later) ∧
          ∀ t rest, later = t :: rest →
            let k := (m.process t dt).2.2
            (∃ sent, k.running ++ k.pending = m.running ++ m.pending ++ sent ∧ sent.length = (m.process t dt).1) ∧
            Instance.Counted k (k.running ++ k.pending ++ t :: rest) ∧
            ((m.process t dt).2.1 = false →
              lookupMember t.activation k.store.live ≠ none ∧
              ((k.store.tokenConsumed t.activation).1 = true ↔
                (k.running ++ k.pending ++ rest).countP (·.activation == t.activation) = 0))) := by
  exact ⟨reachable_relay_started,Reachable.live_counts_exact reachable_relay_started⟩

end Tickflow
