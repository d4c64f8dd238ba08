import Mathlib
import Tickflow.Proofs.JoinTimeouts
/-! # Sweeps over the slots

Releasing an activation takes out exactly its slots, in ascending node order, and leaves the rest
of the store as it was. The waiting slots are listed in key order, and clearing empties the
store and reports how much it dropped.
-/
namespace Tickflow

namespace ActivationStore

variable {s : ActivationStore}

namespace Sorted

theorem mem_release_iff (hs : s.Sorted) {act : UInt64} {n : Nat} {sl : Slot} :
    (n,sl) ∈ (s.release act).1 ↔ s.slot? n act = some sl ∧ n ≤ nodeIndexEnd := by
  rw [release_eq]
  constructor
  · intro h
    obtain ⟨⟨k,sl'⟩,hk,he⟩ := List.mem_map.mp h
    obtain ⟨hk,hw⟩ := List.mem_filter.mp hk
    obtain ⟨rfl,rfl⟩ := Prod.mk.inj he
    rw [SlotKey.within_activation,Bool.and_eq_true,beq_iff_eq,decide_eq_true_iff] at hw
    have hkey : k = ⟨act,k.node⟩ := by rw [← hw.1]
    refine ⟨?_,hw.2⟩
    unfold slot?
    rw [← hkey]
    exact Ascending.lookupMember_of_mem hs hk
  · rintro ⟨h,hn⟩
    refine List.mem_map.mpr ⟨(⟨act,n⟩,sl),List.mem_filter.mpr ⟨mem_of_lookupMember h,?_⟩,rfl⟩
    simp [SlotKey.within_activation,hn]

theorem release_ascending (hs : s.Sorted) (act : UInt64) : ((s.release act).1.map Prod.fst).Pairwise (· < ·) := by
  rw [release_eq,List.map_map,List.pairwise_map]
  refine hs.nodes_ascending act fun e h => ?_
  rw [SlotKey.within_activation,Bool.and_eq_true,beq_iff_eq] at h
  exact h.1

theorem waiting_ascending (hs : s.Sorted) :
    (s.waiting.map fun w => (w.1,w.2.1)).Pairwise fun x y => x.1 < y.1 ∨ x.1 = y.1 ∧ x.2 < y.2 := by
  unfold waiting
  rw [List.map_map,List.pairwise_map]
  exact (Ascending.filter hs _).imp fun {x y} h => (SlotKey.compare_lt_iff _ _).mp h

theorem nodup_keys (hs : s.Sorted) (p : SlotKey × Slot → Bool) : ((s.slots.filter p).map Prod.fst).Nodup :=
  List.pairwise_map.mpr ((Ascending.filter hs p).imp SlotKey.ne_of_compare_lt)

theorem slots_foldl_modify (f : Slot → Slot) (K : List SlotKey) (hs : s.Sorted) (hK : K.Nodup)
    (hex : ∀ k ∈ K, k ∈ s.slots.map Prod.fst) :
    (K.foldl (fun st k => st.modifySlot k.node k.activation f) s).slots =
      s.slots.map fun e => if e.1 ∈ K then (e.1,f e.2) else e := by
  induction K generalizing s with
  | nil => simp
  | cons k K ih =>
    obtain ⟨⟨k',v⟩,hv,hk⟩ := List.mem_map.mp (hex k List.mem_cons_self)
    obtain rfl : k = k' := hk.symm
    obtain ⟨hkK,hK⟩ := List.nodup_cons.mp hK
    have h1 : (s.modifySlot k.node k.activation f).slots = s.slots.map fun e => if e.1 = k then (e.1,f e.2) else e :=
      Ascending.alterMember_of_mem hs hv {} f
    have hkeys : (s.modifySlot k.node k.activation f).slots.map Prod.fst = s.slots.map Prod.fst := by
      rw [h1,List.map_map]
      refine List.map_congr_left fun e _ => ?_
      by_cases he : e.1 = k <;> simp [he]
    rw [List.foldl_cons,ih (hs.modifySlot _ _ _) hK fun k hk => hkeys ▸ hex k (List.mem_cons_of_mem _ hk),h1,
      List.map_map]
    refine List.map_congr_left fun e _ => ?_
    by_cases he : e.1 = k
    · simp [he,hkK]
    · simp [he]

theorem slots_foldl_waiting (hs : s.Sorted) (f : Slot → Slot) :
    (s.waiting.foldl (fun st w => st.modifySlot w.2.1 w.1 f) s).slots =
      s.slots.map fun e => (e.1,if e.2.isWaiting then f e.2 else e.2) := by
  have hfold : s.waiting.foldl (fun st w => st.modifySlot w.2.1 w.1 f) s =
      ((s.slots.filter (·.2.isWaiting)).map Prod.fst).foldl (fun st k => st.modifySlot k.node k.activation f) s := by
    unfold waiting
    rw [List.foldl_map,List.foldl_map]
  have hex : ∀ k ∈ (s.slots.filter (·.2.isWaiting)).map Prod.fst, k ∈ s.slots.map Prod.fst :=
    fun k hk => (List.filter_sublist.map Prod.fst).subset hk
  rw [hfold,hs.slots_foldl_modify f _ (hs.nodup_keys _) hex]
  refine List.map_congr_left fun e he => ?_
  have hlisted : e.1 ∈ (s.slots.filter (·.2.isWaiting)).map Prod.fst ↔ e.2.isWaiting = true := by
    constructor
    · intro hk
      obtain ⟨e',he',hkey⟩ := List.mem_map.mp hk
      obtain ⟨he',hw⟩ := List.mem_filter.mp he'
      have hsame : some e'.2 = some e.2 := by
        rw [← Ascending.lookupMember_of_mem hs he,← Ascending.lookupMember_of_mem hs he',hkey]
      rwa [← Option.some.inj hsame]
    · intro hw
      exact List.mem_map.mpr ⟨e,List.mem_filter.mpr ⟨he,hw⟩,rfl⟩
  by_cases hw : e.2.isWaiting = true
  · simp [hlisted.mpr hw,hw]
  · simp [mt hlisted.mp hw,hw]

theorem slot?_foldl_waiting (hs : s.Sorted) (f : Slot → Slot) (n : Nat) (a : UInt64) :
    (s.waiting.foldl (fun st w => st.modifySlot w.2.1 w.1 f) s).slot? n a =
      (s.slot? n a).map fun sl => if sl.isWaiting then f sl else sl := by
  unfold slot?
  rw [hs.slots_foldl_waiting f]
  exact lookupMember_map_snd ⟨a,n⟩ (fun sl => if sl.isWaiting then f sl else sl) s.slots

end Sorted

/-- In a store of slots at 32-bit node indices, releasing, listing the waiting slots and
clearing each touch exactly what they name. The range that `release act` takes holds the slots
of `act` at every node index, the end marker's included, and no other slot. -/
theorem release_waiting_clear_exact (hs : s.Sorted) (hidx : ∀ e ∈ s.slots, e.1.node ≤ nodeIndexEnd)
    (act : UInt64) :
    (∀ n b, (s.release act).2.slot? n b = if act = b then none else s.slot? n b) ∧
    (∀ n sl, (n,sl) ∈ (s.release act).1 ↔ s.slot? n act = some sl) ∧
    ((s.release act).1.map Prod.fst).Pairwise (· < ·) ∧
    (s.release act).2.parked = s.parked ∧ (s.release act).2.live = s.live ∧
    (∀ b n sl, (b,n,sl) ∈ s.waiting ↔ s.slot? n b = some sl ∧ sl.waitingSince.isSome = true ∧ sl.latched = false) ∧
    (s.waiting.map fun w => (w.1,w.2.1)).Pairwise (fun x y => x.1 < y.1 ∨ x.1 = y.1 ∧ x.2 < y.2) ∧
    (∀ (f : Slot → Slot) n b, (s.waiting.foldl (fun st w => st.modifySlot w.2.1 w.1 f) s).slot? n b =
      (s.slot? n b).map fun sl => if sl.isWaiting then f sl else sl) ∧
    (∀ n b, s.clear.2.slot? n b = none) ∧ (∀ q, lookupMember q s.clear.2.parked = none) ∧
    (∀ b, s.clear.2.liveTokens b = 0) ∧ s.clear.1 = s.size + s.parked.length := by
  refine ⟨fun n b => ?_,fun n sl => ?_,hs.release_ascending act,rfl,rfl,
    fun b n sl => ?_,hs.waiting_ascending,hs.slot?_foldl_waiting,fun n b => rfl,fun q => rfl,fun b => rfl,rfl⟩
  · -- past the end marker there is no slot to take
    rw [slot?_release]
    by_cases hn : n ≤ nodeIndexEnd
    · simp [hn]
    · simp [hn,slot?_eq_none_of_lt hidx (Nat.lt_of_not_le hn)]
  · rw [hs.mem_release_iff]
    exact and_iff_left_of_imp fun h => hidx _ (mem_of_lookupMember h)
  · rw [Instance.mem_waiting_iff hs,Slot.isWaiting,Bool.and_eq_true,Bool.not_eq_true']

/-- Two activations: the first waits at node 0 and has latched at the last 32-bit node index,
the second waits at node 2; one state is parked. -/
def sweepStore : ActivationStore where
  slots := [(⟨1,0⟩,{ waitingSince := some 3 }),(⟨1,4294967295⟩,{ latched := true }),(⟨2,2⟩,{ waitingSince := some 5 })]
  parked := [(7,{})]
  live := [(1,1),(2,2)]
  lastId := 2

theorem release_waiting_clear_exact_edge :
    sweepStore.Sorted ∧ (∀ e ∈ sweepStore.slots, e.1.node ≤ nodeIndexEnd) ∧
    (∀ n b, (sweepStore.release 1).2.slot? n b = if 1 = b then none else sweepStore.slot? n b) ∧
    (∀ n sl, (n,sl) ∈ (sweepStore.release 1).1 ↔ sweepStore.slot? n 1 = some sl) ∧
    ((sweepStore.release 1).1.map Prod.fst).Pairwise (· < ·) ∧
    (sweepStore.release 1).2.parked = sweepStore.parked ∧ (sweepStore.release 1).2.live = sweepStore.live ∧
    (∀ b n sl, (b,n,sl) ∈ sweepStore.waiting ↔
      sweepStore.slot? n b = some sl ∧ sl.waitingSince.isSome = true ∧ sl.latched = false) ∧
    (sweepStore.waiting.map fun w => (w.1,w.2.1)).Pairwise (fun x y => x.1 < y.1 ∨ x.1 = y.1 ∧ x.2 < y.2) ∧
    (∀ (f : Slot → Slot) n b,
      (sweepStore.waiting.foldl (fun st w => st.modifySlot w.2.1 w.1 f) sweepStore).slot? n b =
        (sweepStore.slot? n b).map fun sl => if sl.isWaiting then f sl else sl) ∧
    (∀ n b, sweepStore.clear.2.slot? n b = none) ∧ (∀ q, lookupMember q sweepStore.clear.2.parked = none) ∧
    (∀ b, sweepStore.clear.2.liveTokens b = 0) ∧ sweepStore.clear.1 = sweepStore.size + sweepStore.parked.length := by
  have hs : sweepStore.Sorted := by
    unfold Sorted Ascending sweepStore
    decide
  have hidx : ∀ e ∈ sweepStore.slots, e.1.node ≤ nodeIndexEnd := by
    unfold sweepStore nodeIndexEnd
    decide
  exact ⟨hs,hidx,release_waiting_clear_exact hs hidx 1⟩

end ActivationStore

end Tickflow
