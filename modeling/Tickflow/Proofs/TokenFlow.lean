import Tickflow.Proofs.Run
/-! # How tokens flow

Tokens are never lost, duplicated or delivered early. A host operation turns the reported tokens
into those it keeps, in order, followed by those it creates; a tick delivers the tokens reported
just before it, and a dropped token is never reported again.
-/
namespace Tickflow

namespace Instance

theorem eq_of_perm_of_ascending {l l' : List Token} (hp : l.Perm l')
    (h : l.Pairwise (fun a b => a.seq < b.seq)) (h' : l'.Pairwise (fun a b => a.seq < b.seq)) : l = l' := by
  refine hp.eq_of_pairwise ?_ h h'
  intro a b _ _ hab hba
  rw [UInt64.lt_iff_toNat_lt] at hab hba
  omega

theorem ascending_of_seqs {fresh : List Token} {c n : Nat} (h : fresh.map (·.seq.toNat) = List.range' c n) :
    fresh.Pairwise (fun a b => a.seq < b.seq) ∧ ∀ t ∈ fresh, c ≤ t.seq.toNat := by
  have hr : (List.range' c n).Pairwise (· < ·) := @List.pairwise_lt_range' c n 1 Nat.one_pos
  rw [← h] at hr
  refine ⟨(List.pairwise_map.mp hr).imp fun hab => UInt64.lt_iff_toNat_lt.mpr hab,?_⟩
  intro t ht
  have hm : t.seq.toNat ∈ fresh.map (·.seq.toNat) := List.mem_map_of_mem ht
  rw [h] at hm
  obtain ⟨k,-,hk⟩ := List.mem_range'.mp hm
  omega

theorem tokens_eq_nil {i : Instance} (h : i.running ++ i.pending = []) : i.tokens = [] := by
  have hp := tokens_perm i
  rw [h] at hp
  exact hp.eq_nil

theorem Accounted.step_summary {i : Instance} {c : Nat} (h : Accounted i c) (dt : Binary64) :
    (i.step dt).1.delivered = (if i.cancelled then 0 else i.tokens.length) ∧
      (i.step dt).1.liveTokens = (i.step dt).2.tokens.length := by
  cases hc : i.cancelled
  · by_cases hs : i.status = .running
    · obtain ⟨hd,-,hl,-⟩ := step_of_running i dt hc hs
      exact ⟨hd,by rw [hl,length_tokens]⟩
    · rw [step_of_stopped i dt hc hs]
      have hnil : i.tokens = [] := tokens_eq_nil (h.live_nil hs)
      simp [hnil]
  · rw [step_of_cancelled i dt hc]
    have hnil : i.abort.tokens = [] := tokens_eq_nil h.abort.2
    simp [hnil]

end Instance

/-- The token law of a host operation at any reachable instance, while fewer than `2 ^ 64`
tokens were created. The reported tokens are in strictly ascending sequence order and all
older than the count; after the operation they are the ones that survive it, in the same
order, followed by the tokens it creates, numbered on from the count. A tick delivers every
reported token unless a cancellation aborts it first, and its summary counts the tokens it
leaves. -/
theorem Reachable.tokens_flow {i : Instance} {c : Nat} (hr : Reachable i c) (op : HostOp)
    (hb : c + i.created op < 2 ^ 64) :
    (∀ t ∈ i.tokens, t.seq.toNat < c) ∧ i.tokens.Pairwise (fun a b => a.seq < b.seq) ∧
      (∃ fresh, (i.perform op).tokens = i.tokens.filter (i.survives op) ++ fresh ∧
        fresh.map (·.seq.toNat) = List.range' c (i.created op)) ∧
      ∀ dt, op = .tick dt → (i.step dt).1.delivered = (if i.cancelled then 0 else i.tokens.length) ∧
        (i.step dt).1.liveTokens = (i.perform op).tokens.length := by
  have h := hr.accounted (by omega)
  obtain ⟨hj,fresh,hperm,hseq⟩ := h.perform op hb
  have hold : ∀ t ∈ i.tokens, t.seq.toNat < c := by
    intro t ht
    rw [← h.created]
    exact h.ledger.fresh t (Instance.mem_tokens.mp ht)
  have hasc := Instance.tokens_ascending i h.ledger.distinct
  obtain ⟨hfasc,hfge⟩ := Instance.ascending_of_seqs hseq
  refine ⟨hold,hasc,⟨fresh,?_,hseq⟩,?_⟩
  · refine Instance.eq_of_perm_of_ascending ((Instance.tokens_perm _).trans hperm)
      (Instance.tokens_ascending _ hj.ledger.distinct) ?_
    rw [List.pairwise_append]
    refine ⟨hasc.filter _,hfasc,?_⟩
    intro a ha b hb'
    have h1 := hold a (List.mem_filter.mp ha).1
    have h2 := hfge b hb'
    rw [UInt64.lt_iff_toNat_lt]
    omega
  · intro dt hop
    subst hop
    exact h.step_summary dt

/-- Triggering the relay's entry again while the first token waits keeps that token and queues
a second one behind it. -/
theorem tokens_flow_relay :
    let i := (Instance.create relayGraph false).perform .start
    let op := HostOp.trigger ⟨1⟩
    Reachable i 1 ∧ 1 + i.created op < 2 ^ 64 ∧
      ((∀ t ∈ i.tokens, t.seq.toNat < 1) ∧ i.tokens.Pairwise (fun a b => a.seq < b.seq) ∧
        (∃ fresh, (i.perform op).tokens = i.tokens.filter (i.survives op) ++ fresh ∧
          fresh.map (·.seq.toNat) = List.range' 1 (i.created op)) ∧
        ∀ dt, op = .tick dt → (i.step dt).1.delivered = (if i.cancelled then 0 else i.tokens.length) ∧
          (i.step dt).1.liveTokens = (i.perform op).tokens.length) := by
  have hb : 1 + ((Instance.create relayGraph false).perform .start).created (.trigger ⟨1⟩) < 2 ^ 64 := by
    decide +kernel
  exact ⟨reachable_relay_started,hb,Reachable.tokens_flow reachable_relay_started (.trigger ⟨1⟩) hb⟩

end Tickflow
