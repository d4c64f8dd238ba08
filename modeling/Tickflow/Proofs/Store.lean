import Tickflow.Proofs.Members
/-! # What each store operation touches

Operations on slots or parked states leave the live counts and the numbering alone, and the
count operations leave slots and parked states alone. A store that never records a zero count
reports the last token exactly when the count was one.
-/
namespace Tickflow

theorem SlotKey.compare_def (a b : SlotKey) :
    compare a b = (compare a.activation b.activation).then (compare a.node b.node) := rfl

instance : Std.LawfulEqOrd SlotKey where
  compare_self {a} := by
    simp [SlotKey.compare_def,Std.compare_self]
  eq_of_compare {a b} h := by
    obtain ⟨ha,hn⟩ := Ordering.then_eq_eq.mp ((SlotKey.compare_def a b).symm.trans h)
    cases a; cases b
    simp only [Std.compare_eq_iff_eq] at ha hn
    simp [ha,hn]

theorem SlotKey.not_after_iff (a b : Nat) : (compare a b != .gt) = decide (a ≤ b) := by
  rw [Bool.eq_iff_iff,bne_iff_ne,ne_eq,Nat.compare_eq_gt,decide_eq_true_iff]
  omega

/-- The range from `(act, 0)` to `(act, nodeIndexEnd)` holds exactly the keys of the activation
whose node index is at most the end marker. -/
theorem SlotKey.within_activation (k : SlotKey) (act : UInt64) :
    k.within ⟨act,0⟩ ⟨act,nodeIndexEnd⟩ = (k.activation == act && decide (k.node ≤ nodeIndexEnd)) := by
  unfold SlotKey.within
  rw [SlotKey.compare_def,SlotKey.compare_def]
  dsimp only
  by_cases ha : k.activation = act
  · subst ha
    simp [Std.compare_self,SlotKey.not_after_iff]
  · rcases UInt64.lt_or_lt_of_ne ha with h | h
    · simp [ha,Std.compare_eq_lt.mpr h,Std.compare_eq_gt.mpr h]
    · simp [ha,Std.compare_eq_gt.mpr h,Std.compare_eq_lt.mpr h]

namespace ActivationStore

variable (s : ActivationStore) (node : Nat) (act : UInt64)

theorem release_eq : s.release act =
    ((s.slots.filter (·.1.within ⟨act,0⟩ ⟨act,nodeIndexEnd⟩)).map (fun e => (e.1.node,e.2)),
      { s with slots := s.slots.filter fun e => !e.1.within ⟨act,0⟩ ⟨act,nodeIndexEnd⟩ }) := by
  unfold release
  rw [List.partition_eq_filter_filter]
  rfl

theorem slot?_release (n : Nat) (a : UInt64) :
    (s.release act).2.slot? n a = if act = a ∧ n ≤ nodeIndexEnd then none else s.slot? n a := by
  unfold slot?
  rw [release_eq]
  have h := lookupMember_filter (fun k : SlotKey => !k.within ⟨act,0⟩ ⟨act,nodeIndexEnd⟩) ⟨a,n⟩ s.slots
  dsimp only at h ⊢
  rw [h,SlotKey.within_activation]
  by_cases ha : act = a
  · subst ha
    by_cases hn : n ≤ nodeIndexEnd <;> simp [hn]
  · simp [ha,Ne.symm ha]

@[simp] theorem mint_fst : s.mint.1 = s.lastId + 1 := rfl
@[simp] theorem mint_live : s.mint.2.live = s.live := rfl
@[simp] theorem mint_lastId : s.mint.2.lastId = s.lastId + 1 := rfl
@[simp] theorem mint_slots : s.mint.2.slots = s.slots := rfl
@[simp] theorem mint_parked : s.mint.2.parked = s.parked := rfl

@[simp] theorem modifySlot_live (f : Slot → Slot) : (s.modifySlot node act f).live = s.live := rfl
@[simp] theorem modifySlot_lastId (f : Slot → Slot) : (s.modifySlot node act f).lastId = s.lastId := rfl
@[simp] theorem modifySlot_parked (f : Slot → Slot) : (s.modifySlot node act f).parked = s.parked := rfl

@[simp] theorem takeState_live : (s.takeState node act).2.live = s.live := by
  unfold takeState; split <;> rfl
@[simp] theorem takeState_lastId : (s.takeState node act).2.lastId = s.lastId := by
  unfold takeState; split <;> rfl

@[simp] theorem resume_live (seq : UInt64) : (s.resume seq).2.live = s.live := by
  unfold resume; split <;> rfl
@[simp] theorem resume_lastId (seq : UInt64) : (s.resume seq).2.lastId = s.lastId := by
  unfold resume; split <;> rfl

@[simp] theorem hold_live (seq : UInt64) (st : ActivationState) : (s.hold node act seq st).live = s.live := by
  unfold hold; split <;> rfl
@[simp] theorem hold_lastId (seq : UInt64) (st : ActivationState) :
    (s.hold node act seq st).lastId = s.lastId := by
  unfold hold; split <;> rfl

@[simp] theorem restore_live (st : ActivationState) : (s.restore node act st).live = s.live := rfl
@[simp] theorem restore_lastId (st : ActivationState) : (s.restore node act st).lastId = s.lastId := rfl
@[simp] theorem retire_live : (s.retire node act).live = s.live := rfl
@[simp] theorem retire_lastId : (s.retire node act).lastId = s.lastId := rfl
@[simp] theorem latch_live : (s.latch node act).live = s.live := rfl
@[simp] theorem latch_lastId : (s.latch node act).lastId = s.lastId := rfl
@[simp] theorem markWaiting_live (tick : UInt64) : (s.markWaiting node act tick).live = s.live := rfl
@[simp] theorem markWaiting_lastId (tick : UInt64) : (s.markWaiting node act tick).lastId = s.lastId := rfl
@[simp] theorem release_live : (s.release act).2.live = s.live := rfl
@[simp] theorem release_lastId : (s.release act).2.lastId = s.lastId := rfl

@[simp] theorem tokenCreated_slots : (s.tokenCreated act).slots = s.slots := rfl
@[simp] theorem tokenCreated_parked : (s.tokenCreated act).parked = s.parked := rfl
@[simp] theorem tokenCreated_lastId : (s.tokenCreated act).lastId = s.lastId := rfl

@[simp] theorem tokenConsumed_slots : (s.tokenConsumed act).2.slots = s.slots := by
  unfold tokenConsumed; split
  · split <;> rfl
  · rfl
@[simp] theorem tokenConsumed_parked : (s.tokenConsumed act).2.parked = s.parked := by
  unfold tokenConsumed; split
  · split <;> rfl
  · rfl
@[simp] theorem tokenConsumed_lastId : (s.tokenConsumed act).2.lastId = s.lastId := by
  unfold tokenConsumed; split
  · split <;> rfl
  · rfl

theorem liveTokens_tokenCreated (b : UInt64) :
    (s.tokenCreated act).liveTokens b = s.liveTokens b + if act = b then 1 else 0 := by
  by_cases h : act = b
  · subst h; simp [liveTokens,tokenCreated]
  · simp [liveTokens,tokenCreated,h]

theorem liveTokens_tokenConsumed (b : UInt64) :
    (s.tokenConsumed act).2.liveTokens b = s.liveTokens b - if act = b then 1 else 0 := by
  unfold tokenConsumed
  split
  · rename_i n hn
    split
    · by_cases h : act = b
      · subst h; simp [liveTokens,hn]
      · simp [liveTokens,h]
    · by_cases h : act = b
      · subst h; simp [liveTokens,hn]; omega
      · simp [liveTokens,h]
  · rename_i hn
    by_cases h : act = b
    · subst h; simp [liveTokens,hn]
    · simp [h]

theorem liveTokens_of_live_eq {s s' : ActivationStore} (h : s'.live = s.live) (b : UInt64) :
    s'.liveTokens b = s.liveTokens b := by
  unfold liveTokens; rw [h]

def CountsPositive : Prop := ∀ a, lookupMember a s.live ≠ some 0

theorem CountsPositive.of_live_eq {s s' : ActivationStore} (h : s'.live = s.live)
    (hp : s.CountsPositive) : s'.CountsPositive := by
  intro a; rw [h]; exact hp a

theorem CountsPositive.tokenCreated {s : ActivationStore} (h : s.CountsPositive) (act : UInt64) :
    (s.tokenCreated act).CountsPositive := by
  intro a
  by_cases e : act = a
  · subst e; simp [ActivationStore.tokenCreated]
  · simpa [ActivationStore.tokenCreated,e] using h a

theorem CountsPositive.tokenConsumed {s : ActivationStore} (h : s.CountsPositive) (act : UInt64) :
    (s.tokenConsumed act).2.CountsPositive := by
  intro a
  unfold ActivationStore.tokenConsumed
  split
  · split
    · rename_i n _ hn
      by_cases e : act = a
      · subst e; simp; omega
      · simpa [e] using h a
    · by_cases e : act = a
      · subst e; simp
      · simpa [e] using h a
  · exact h a

theorem tokenConsumed_fst_iff {s : ActivationStore} (h : s.CountsPositive) (act : UInt64) :
    (s.tokenConsumed act).1 = true ↔ s.liveTokens act = 1 := by
  unfold tokenConsumed liveTokens
  split
  · rename_i n hn
    have h0 : n ≠ 0 := fun e => h act (e ▸ hn)
    split <;> simp [hn] <;> omega
  · rename_i hn
    simp [hn]

end ActivationStore

end Tickflow
