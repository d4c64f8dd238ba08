import Tickflow.Proofs.Delivery
/-! # The bookkeeping of a tick

The `Ledger` over the live tokens says their sequence numbers are distinct and below the next
one and the store counts each activation's tokens exactly. One delivery keeps it while numbers
do not wrap around, and so does a whole batch.
-/
namespace Tickflow

namespace Instance

theorem tokens_perm (i : Instance) : i.tokens.Perm (i.running ++ i.pending) := List.mergeSort_perm _ _

theorem mem_tokens {i : Instance} {t : Token} : t ∈ i.tokens ↔ t ∈ i.running ++ i.pending :=
  (tokens_perm i).mem_iff

theorem length_tokens (i : Instance) : i.tokens.length = i.liveTokens := by
  rw [(tokens_perm i).length_eq,List.length_append,liveTokens,Nat.add_comm]

theorem tokens_ascending (i : Instance) (h : ((i.running ++ i.pending).map (·.seq)).Nodup) :
    i.tokens.Pairwise (fun a b => a.seq < b.seq) := by
  have hle := @List.pairwise_mergeSort Token (fun a b => decide (a.seq ≤ b.seq))
    (fun a b c hab hbc => by simp only [decide_eq_true_eq] at *; exact UInt64.le_trans hab hbc)
    (fun a b => by simpa using UInt64.le_total a.seq b.seq) (i.running ++ i.pending)
  have hnd : (i.tokens.map (·.seq)).Nodup := ((tokens_perm i).map Token.seq).symm.nodup h
  have hne : i.tokens.Pairwise (fun a b => a.seq ≠ b.seq) := List.pairwise_map.mp hnd
  refine (hle.and hne).imp ?_
  rintro a b ⟨hab,hne⟩
  simp only [decide_eq_true_eq,UInt64.le_iff_toNat_le] at hab
  rw [UInt64.lt_iff_toNat_lt]
  have : a.seq.toNat ≠ b.seq.toNat := fun e => hne (UInt64.toNat_inj.mp e)
  omega

/-- The store counts exactly the tokens of `live` of each activation, recording no zero
count. -/
structure Counted (i : Instance) (live : List Token) : Prop where
  counts : ∀ a, i.store.liveTokens a = live.countP (·.activation == a)
  positive : i.store.CountsPositive

/-- The token bookkeeping over `live`, the tokens not yet consumed: besides the counts, their
sequence numbers are distinct and below the next one. -/
structure Ledger (i : Instance) (live : List Token) : Prop extends Counted i live where
  fresh : ∀ t ∈ live, t.seq.toNat < i.nextSeq.toNat
  distinct : (live.map (·.seq)).Nodup

theorem Counted.perm {i : Instance} {l l' : List Token} (h : Counted i l) (hp : l.Perm l') : Counted i l' :=
  ⟨fun a => (h.counts a).trans (hp.countP_eq _),h.positive⟩

theorem Ledger.perm {i : Instance} {l l' : List Token} (h : Ledger i l) (hp : l.Perm l') : Ledger i l' :=
  ⟨h.toCounted.perm hp,fun t ht => h.fresh t (hp.mem_iff.mpr ht),(hp.map _).nodup_iff.mp h.distinct⟩

theorem Counted.deliver {m : Instance} {t : Token} {rest : List Token} (dt : Binary64)
    (h : Counted m (m.running ++ m.pending ++ t :: rest)) :
    let j := (m.deliver t dt).2
    Counted j (j.running ++ j.pending ++ rest) := by
  obtain ⟨-,-,hr,hp,-,-,hc,hpos⟩ := deliver_spec m t dt
  dsimp only at hr hp hc hpos ⊢
  refine ⟨?_,hpos h.positive⟩
  intro a
  rw [hc a,h.counts a,hr,hp]
  by_cases hke : m.keeps t dt <;> by_cases ha : t.activation = a <;>
    simp [hke,ha,List.countP_append] <;> omega

theorem length_queued (act seq last : UInt64) (targets : List FlowTarget) :
    (queued act seq last targets).length = targets.length := by
  induction targets generalizing seq last with
  | nil => rfl
  | cons target rest ih => by_cases hb : target.backEdge <;> simp [queued,hb,ih]

theorem queued_seqs (act seq last : UInt64) (targets : List FlowTarget)
    (h : seq.toNat + targets.length < 2 ^ 64) :
    (queued act seq last targets).map (·.seq.toNat) = List.range' seq.toNat targets.length := by
  induction targets generalizing seq last with
  | nil => rfl
  | cons target rest ih =>
    have hs : (seq + 1).toNat = seq.toNat + 1 := by
      rw [UInt64.toNat_add]; simp only [List.length_cons] at h; simp; omega
    have ih' := ih (seq + 1)
    rw [hs] at ih'
    by_cases hb : target.backEdge <;>
      simp [queued,hb,List.range'_succ,ih' _ (by simp only [List.length_cons] at h; omega)]

theorem seq_of_mem_queued {act seq last : UInt64} {targets : List FlowTarget}
    (h : seq.toNat + targets.length < 2 ^ 64) {u : Token} (hu : u ∈ queued act seq last targets) :
    seq.toNat ≤ u.seq.toNat ∧ u.seq.toNat < seq.toNat + targets.length := by
  have hm : u.seq.toNat ∈ List.range' seq.toNat targets.length := by
    rw [← queued_seqs act seq last targets h]
    exact List.mem_map_of_mem hu
  exact List.mem_range'_1.mp hm

private theorem perm_after_delivery (kept fresh running pending rest : List Token) :
    (kept ++ fresh ++ (running ++ pending ++ rest)).Perm (running ++ kept ++ (pending ++ fresh) ++ rest) :=
  List.perm_iff_count.mpr fun a => by simp only [List.count_append]; omega

theorem Ledger.deliver {m : Instance} {t : Token} {rest : List Token} (dt : Binary64)
    (h : Ledger m (m.running ++ m.pending ++ t :: rest))
    (hb : m.nextSeq.toNat + (m.deliver t dt).1 < 2 ^ 64) :
    let j := (m.deliver t dt).2
    Ledger j (j.running ++ j.pending ++ rest) ∧ j.nextSeq.toNat = m.nextSeq.toNat + (m.deliver t dt).1 := by
  obtain ⟨hn,-,hr,hp,hns,-,-,-⟩ := deliver_spec m t dt
  dsimp only at hn hr hp hns ⊢
  rw [hn] at hb ⊢
  generalize hs : m.sentTargets t dt = sent at hb hp hns
  generalize hk : (if m.keeps t dt then [t] else []) = kept at hr
  generalize hfr : queued t.activation m.nextSeq m.store.lastId sent = fresh at hp
  have hseq : fresh.map (·.seq.toNat) = List.range' m.nextSeq.toNat sent.length := by
    rw [← hfr]; exact queued_seqs _ _ _ _ hb
  have hN : (m.deliver t dt).2.nextSeq.toNat = m.nextSeq.toNat + sent.length := by
    rw [hns]; omega
  refine ⟨?_,hN⟩
  have hperm : (kept ++ fresh ++ (m.running ++ m.pending ++ rest)).Perm
      ((m.deliver t dt).2.running ++ (m.deliver t dt).2.pending ++ rest) := by
    rw [hr,hp]
    exact perm_after_delivery _ _ _ _ _
  have hfreshN : ∀ u ∈ fresh, m.nextSeq.toNat ≤ u.seq.toNat ∧ u.seq.toNat < m.nextSeq.toNat + sent.length :=
    fun u hu => seq_of_mem_queued hb (hfr ▸ hu)
  have hold : ∀ u ∈ kept ++ (m.running ++ m.pending ++ rest), u ∈ m.running ++ m.pending ++ t :: rest := by
    intro u hu
    have hk' : kept ⊆ [t] := by rw [← hk]; split <;> simp
    simp only [List.mem_append,List.mem_cons] at hu ⊢
    rcases hu with hu | (hu | hu) | hu
    · exact Or.inr (Or.inl (List.mem_singleton.mp (hk' hu)))
    · exact Or.inl (Or.inl hu)
    · exact Or.inl (Or.inr hu)
    · exact Or.inr (Or.inr hu)
  refine ⟨Counted.deliver dt h.toCounted,?_,?_⟩
  · intro u hu
    replace hu := hperm.mem_iff.mpr hu
    rw [hN]
    rcases List.mem_append.mp (List.append_assoc kept fresh _ ▸ hu) with hu | hu
    · have := h.fresh u (hold u (List.mem_append_left _ hu))
      omega
    · rcases List.mem_append.mp hu with hu | hu
      · have := hfreshN u hu
        omega
      · have := h.fresh u (hold u (List.mem_append_right _ hu))
        omega
  · refine (hperm.map _).nodup_iff.mp ?_
    have hKR : ((kept ++ (m.running ++ m.pending ++ rest)).map (·.seq)).Nodup := by
      rw [← hk]
      split
      · have hp : (t :: (m.running ++ m.pending ++ rest)).Perm (m.running ++ m.pending ++ t :: rest) :=
          List.perm_iff_count.mpr fun a => by simp only [List.count_append,List.count_cons]; omega
        exact (hp.map _).nodup_iff.mpr h.distinct
      · have hs : (m.running ++ m.pending ++ rest).Sublist (m.running ++ m.pending ++ t :: rest) :=
          (List.sublist_cons_self t rest).append_left _
        exact h.distinct.sublist (hs.map _)
    have hF : (fresh.map (·.seq)).Nodup := by
      have : ((fresh.map (·.seq)).map UInt64.toNat).Nodup := by
        rw [List.map_map]; exact hseq ▸ List.nodup_range'
      exact List.Pairwise.of_map UInt64.toNat (fun a b h e => h (congrArg UInt64.toNat e)) this
    have hp : (fresh ++ (kept ++ (m.running ++ m.pending ++ rest))).Perm
        (kept ++ fresh ++ (m.running ++ m.pending ++ rest)) :=
      List.perm_iff_count.mpr fun a => by simp only [List.count_append]; omega
    refine (hp.map _).nodup_iff.mp ?_
    rw [List.map_append,List.nodup_append]
    refine ⟨hF,hKR,?_⟩
    intro a ha b hb hab
    obtain ⟨u,hu,rfl⟩ := List.mem_map.mp ha
    obtain ⟨v,hv,rfl⟩ := List.mem_map.mp hb
    have h1 := hfreshN u hu
    have h2 := h.fresh v (hold v hv)
    rw [hab] at h1
    omega

theorem deliverAll_nil (m : Instance) (dt : Binary64) : m.deliverAll [] dt = (0,m) := rfl

theorem deliverAll_cons (m : Instance) (t : Token) (rest : List Token) (dt : Binary64) :
    m.deliverAll (t :: rest) dt =
      ((m.deliver t dt).1 + ((m.deliver t dt).2.deliverAll rest dt).1,
        ((m.deliver t dt).2.deliverAll rest dt).2) := rfl

theorem deliverAll_append (m : Instance) (now later : List Token) (dt : Binary64) :
    m.deliverAll (now ++ later) dt =
      ((m.deliverAll now dt).1 + ((m.deliverAll now dt).2.deliverAll later dt).1,
        ((m.deliverAll now dt).2.deliverAll later dt).2) := by
  induction now generalizing m with
  | nil => simp [deliverAll_nil]
  | cons t rest ih => simp [deliverAll_cons,ih,Nat.add_assoc]

theorem Ledger.deliverAll {m : Instance} {now later : List Token} (dt : Binary64)
    (h : Ledger m (m.running ++ m.pending ++ (now ++ later)))
    (hb : m.nextSeq.toNat + (m.deliverAll now dt).1 < 2 ^ 64) :
    let j := (m.deliverAll now dt).2
    Ledger j (j.running ++ j.pending ++ later) ∧
      j.nextSeq.toNat = m.nextSeq.toNat + (m.deliverAll now dt).1 := by
  induction now generalizing m with
  | nil => exact ⟨h,by simp [deliverAll_nil]⟩
  | cons t rest ih =>
    rw [deliverAll_cons] at hb ⊢
    obtain ⟨h1,hn1⟩ := Ledger.deliver dt h (by omega)
    obtain ⟨h2,hn2⟩ := ih h1 (by omega)
    exact ⟨h2,by rw [hn2,hn1]; omega⟩

theorem Counted.deliverAll {m : Instance} {now later : List Token} (dt : Binary64)
    (h : Counted m (m.running ++ m.pending ++ (now ++ later))) :
    let j := (m.deliverAll now dt).2
    Counted j (j.running ++ j.pending ++ later) := by
  induction now generalizing m with
  | nil => exact h
  | cons t rest ih =>
    rw [deliverAll_cons]
    exact ih (Counted.deliver dt h)

theorem deliverAll_tokens (m : Instance) (batch : List Token) (dt : Binary64)
    (hsorted : batch.Pairwise (fun a b => a.seq < b.seq))
    (hb : m.nextSeq.toNat + (m.deliverAll batch dt).1 < 2 ^ 64) :
    let j := (m.deliverAll batch dt).2
    DeliveryFrame m j ∧
      j.running = m.running ++ batch.filter (fun t =>
        (m.deliverAll (batch.filter (·.seq < t.seq)) dt).2.keeps t dt) ∧
      (∃ fresh, j.pending = m.pending ++ fresh ∧
        fresh.map (·.seq.toNat) = List.range' m.nextSeq.toNat (m.deliverAll batch dt).1) ∧
      j.nextSeq.toNat = m.nextSeq.toNat + (m.deliverAll batch dt).1 := by
  induction batch generalizing m with
  | nil => exact ⟨DeliveryFrame.refl m,by simp [deliverAll_nil],⟨[],by simp [deliverAll_nil]⟩,by simp [deliverAll_nil]⟩
  | cons u rest ih =>
    rw [List.pairwise_cons] at hsorted
    rw [deliverAll_cons] at hb ⊢
    obtain ⟨hn,hf,hr,hp,hns,-,-,-⟩ := deliver_spec m u dt
    obtain ⟨hf2,hr2,⟨fresh,hp2,hs2⟩,hn2⟩ := ih (m.deliver u dt).2 hsorted.2 (by omega)
    have hN : (m.deliver u dt).2.nextSeq.toNat = m.nextSeq.toNat + (m.deliver u dt).1 := by
      rw [hns,hn]; rw [hn] at hb; omega
    refine ⟨hf.trans hf2,?_,?_,by rw [hn2,hN]; omega⟩
    · rw [hr2,hr,List.filter_cons]
      have hu : (u :: rest).filter (·.seq < u.seq) = [] := by
        simp only [List.filter_cons,UInt64.lt_irrefl,decide_false,Bool.false_eq_true,if_false]
        exact List.filter_eq_nil_iff.mpr fun v hv => by
          have := hsorted.1 v hv
          simp only [UInt64.lt_iff_toNat_lt] at this ⊢
          simp only [decide_eq_true_eq]
          omega
      have hrest : ∀ t ∈ rest, (u :: rest).filter (·.seq < t.seq) = u :: rest.filter (·.seq < t.seq) := by
        intro t ht
        simp [hsorted.1 t ht]
      rw [hu,deliverAll_nil]
      have hcongr : rest.filter (fun t => (m.deliverAll ((u :: rest).filter (·.seq < t.seq)) dt).2.keeps t dt) =
          rest.filter (fun t => ((m.deliver u dt).2.deliverAll (rest.filter (·.seq < t.seq)) dt).2.keeps t dt) :=
        List.filter_congr fun t ht => by rw [hrest t ht,deliverAll_cons]
      rw [hcongr]
      by_cases hk : m.keeps u dt <;> simp [hk]
    · refine ⟨queued u.activation m.nextSeq m.store.lastId (m.sentTargets u dt) ++ fresh,?_,?_⟩
      · rw [hp2,hp,List.append_assoc]
      · rw [List.map_append,hs2,hN,queued_seqs _ _ _ _ (by rw [hn] at hb; omega),hn,List.range'_append_1]

theorem deliverAll_frame (m : Instance) (batch : List Token) (dt : Binary64) :
    DeliveryFrame m (m.deliverAll batch dt).2 := by
  induction batch generalizing m with
  | nil => exact DeliveryFrame.refl m
  | cons t rest ih => exact (deliver_spec m t dt).2.1.trans (ih _)

private theorem foldl_store_frame {α : Type} (F : ActivationStore → α → ActivationStore)
    (hF : ∀ s a, (F s a).live = s.live ∧ (F s a).lastId = s.lastId) (l : List α) (s : ActivationStore) :
    (l.foldl F s).live = s.live ∧ (l.foldl F s).lastId = s.lastId := by
  induction l generalizing s with
  | nil => exact ⟨rfl,rfl⟩
  | cons a rest ih =>
    obtain ⟨h1,h2⟩ := ih (F s a)
    exact ⟨h1.trans (hF s a).1,h2.trans (hF s a).2⟩

theorem checkJoinTimeouts_frame (i : Instance) :
    let j := i.checkJoinTimeouts
    DeliveryFrame i j ∧ j.running = i.running ∧ j.pending = i.pending ∧ j.nextSeq = i.nextSeq ∧
      j.store.live = i.store.live ∧ j.store.lastId = i.store.lastId := by
  unfold checkJoinTimeouts
  split
  · exact ⟨DeliveryFrame.refl i,rfl,rfl,rfl,rfl,rfl⟩
  · dsimp only
    rw [foldl_only_reports _ (fun k e => by obtain ⟨_,_,_⟩ := e; rfl)]
    refine ⟨⟨rfl,rfl,rfl,rfl,rfl⟩,rfl,rfl,rfl,?_,?_⟩
    · exact (foldl_store_frame _ (fun s e => by obtain ⟨_,_,_⟩ := e; exact ⟨rfl,rfl⟩) _ _).1
    · exact (foldl_store_frame _ (fun s e => by obtain ⟨_,_,_⟩ := e; exact ⟨rfl,rfl⟩) _ _).2

/-- A tick of a running instance that was not cancelled delivers its live tokens, in sequence
order, from `tickStart`; the summary counts them and the tokens sent, and the instance keeps
running while tokens are left, finishing otherwise. -/
theorem step_of_running (i : Instance) (dt : Binary64) (hc : i.cancelled = false)
    (hs : i.status = .running) :
    let r := i.step dt
    let d := i.tickStart.deliverAll i.tokens dt
    r.1.delivered = i.tokens.length ∧ r.1.spawned = d.1 ∧ r.1.liveTokens = r.2.liveTokens ∧
      r.2.running = d.2.running ∧ r.2.pending = d.2.pending ∧ r.2.nextSeq = d.2.nextSeq ∧
      r.2.store.live = d.2.store.live ∧ r.2.graph = i.graph ∧ r.2.cancelled = false ∧
      (r.2.running ++ r.2.pending ≠ [] → r.2.status = .running) := by
  have hd := deliverAll_frame i.tickStart i.tokens dt
  simp only [step,hc,hs,Bool.false_eq_true,if_false,ne_eq,not_true_eq_false]
  rcases hdel : i.tickStart.deliverAll i.tokens dt with ⟨sent,j⟩
  rw [hdel] at hd
  obtain ⟨hf,hr,hp,hn,hl,-⟩ := checkJoinTimeouts_frame j
  simp only [tickEnd]
  split
  · rename_i h0
    refine ⟨rfl,rfl,rfl,hr,hp,hn,hl,hf.graph.trans hd.graph,hf.cancelled.trans (hd.cancelled.trans hc),?_⟩
    intro hne
    simp only [liveTokens,Nat.add_eq_zero_iff,List.length_eq_zero_iff] at h0
    exact absurd (by simp [emit,h0.1,h0.2]) hne
  · refine ⟨rfl,rfl,rfl,hr,hp,hn,hl,hf.graph.trans hd.graph,hf.cancelled.trans (hd.cancelled.trans hc),?_⟩
    intro _
    exact hf.status.trans (hd.status.trans hs)

end Instance

end Tickflow