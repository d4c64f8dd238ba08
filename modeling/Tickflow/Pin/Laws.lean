import Tickflow.Pin.Set
/-! # Membership in pin sets

A pin set is a 16-bit mask, and its laws are those of bits: a pin is a member when it is below
16 and its bit is set. Union, adding a pin, the subset test and the empty test all read off
the members, so two sets with the same members are equal.
-/
namespace Tickflow

namespace PinSet

theorem bit_toBitVec (i : Fin maxPins) : (bit i).toBitVec = BitVec.twoPow 16 i.val := by
  unfold bit
  apply BitVec.eq_of_getLsbD_eq
  intro j hj
  have hi : i.val < 16 := i.isLt
  simp only [BitVec.getLsbD_twoPow,UInt16.toBitVec_shiftLeft,hi]
  by_cases h : i.val = j <;> simp [h] <;> omega

/-- A mask meets a bit exactly when the mask has that bit. -/
theorem and_bit_ne_zero (m : UInt16) (i : Fin maxPins) : (m &&& bit i != 0) = m.toBitVec.getLsbD i.val := by
  have hi : i.val < 16 := i.isLt
  have h0 : BitVec.twoPow 16 i.val ≠ 0#16 := by
    intro h
    have := congrArg (·.getLsbD i.val) h
    simp [hi] at this
  apply Bool.eq_iff_iff.mpr
  rw [bne_iff_ne,ne_eq,← UInt16.toBitVec_inj,UInt16.toBitVec_and,bit_toBitVec,BitVec.and_twoPow]
  by_cases hb : m.toBitVec.getLsbD i.val = true <;> simp [hb,h0]

theorem contains_eq (s : PinSet) (i : Nat) :
    s.contains i = (decide (i < 16) && s.mask.toBitVec.getLsbD i) := by
  unfold contains
  split
  · rename_i hi
    rw [and_bit_ne_zero]
    simp [show i < 16 from hi]
  · rename_i hi
    simp [show ¬i < 16 from hi]

theorem lt_of_contains {s : PinSet} {i : Nat} (h : s.contains i = true) : i < 16 := by
  rw [contains_eq,Bool.and_eq_true,decide_eq_true_eq] at h
  exact h.1

theorem ext_contains {s t : PinSet} (h : ∀ i, s.contains i = t.contains i) : s = t := by
  cases s
  cases t
  congr
  apply UInt16.toBitVec_inj.mp
  apply BitVec.eq_of_getLsbD_eq
  intro j hj
  have := h j
  simp only [contains_eq,hj,decide_true,Bool.true_and] at this
  exact this

@[simp] theorem contains_empty (i : Nat) : empty.contains i = false := by
  simp [contains_eq,empty]

@[simp] theorem contains_union (s t : PinSet) (i : Nat) :
    (s.union t).contains i = (s.contains i || t.contains i) := by
  simp only [contains_eq,union,UInt16.toBitVec_or,BitVec.getLsbD_or]
  cases decide (i < 16) <;> simp

theorem union_empty (s : PinSet) : s.union empty = s :=
  ext_contains fun i => by simp

theorem union_comm (s t : PinSet) : s.union t = t.union s :=
  ext_contains fun i => by simp [Bool.or_comm]

theorem contains_or_bit (s : PinSet) (p : Fin maxPins) (i : Nat) :
    (⟨s.mask ||| bit p⟩ : PinSet).contains i = (s.contains i || decide (i = p.val)) := by
  simp only [contains_eq,UInt16.toBitVec_or,BitVec.getLsbD_or,bit_toBitVec,BitVec.getLsbD_twoPow]
  have hp : p.val < 16 := p.isLt
  by_cases hip : i = p.val
  · subst hip
    simp [hp]
  · simp [hip,Ne.symm hip]

@[simp] theorem contains_add (s : PinSet) (p i : Nat) :
    (s.add p).contains i = (s.contains i || (decide (i = p) && decide (p < 16))) := by
  unfold add insert
  split
  · rename_i hp
    split
    · rename_i hs
      by_cases hip : i = p
      · subst hip
        simp [hs]
      · simp [hip]
    · rw [contains_or_bit]
      simp [show p < 16 from hp]
  · rename_i hp
    simp [show ¬p < 16 from hp]

/-- Adding a pin already in the set leaves the set as it was. -/
theorem add_eq_self {s : PinSet} {p : Nat} (h : s.contains p = true) : s.add p = s :=
  ext_contains fun i => by
    by_cases hi : i = p
    · subst hi
      simp [h]
    · simp [hi]

/-- Inserting a pin succeeds exactly when it is below 16 and not yet a member, and the set
after it is the set with the pin added. -/
theorem insert_eq_add (s : PinSet) (i : Nat) : s.insert i = (decide (i < 16) && !s.contains i,s.add i) := by
  unfold add insert
  split
  · rename_i hi
    by_cases h2 : s.contains i <;> simp [show i < 16 from hi,h2]
  · rename_i hi
    simp [show ¬i < 16 from hi]

theorem subset_iff (s t : PinSet) : s.subset t = true ↔ ∀ i, s.contains i = true → t.contains i = true := by
  unfold subset
  rw [beq_iff_eq,← UInt16.toBitVec_inj,UInt16.toBitVec_and,UInt16.toBitVec_not,UInt16.toBitVec_zero]
  constructor
  · intro h i hi
    have := congrArg (·.getLsbD i) h
    simp only [contains_eq,Bool.and_eq_true,decide_eq_true_eq] at hi ⊢
    simp [hi.1,hi.2] at this
    exact ⟨hi.1,this⟩
  · intro h
    apply BitVec.eq_of_getLsbD_eq
    intro j hj
    have hj' := h j
    simp only [contains_eq,Bool.and_eq_true,decide_eq_true_eq,hj,true_and] at hj'
    simp only [BitVec.getLsbD_and,BitVec.getLsbD_not,hj,decide_true,Bool.true_and,BitVec.getLsbD_zero]
    cases hs : s.mask.toBitVec.getLsbD j
    · rfl
    · simp [hj' hs]

theorem isEmpty_iff (s : PinSet) : s.isEmpty = true ↔ ∀ i, s.contains i = false := by
  constructor
  · intro h i
    have hs : s = empty := by
      cases s
      simp only [isEmpty,beq_iff_eq] at h
      simp [h,empty]
    rw [hs,contains_empty]
  · intro h
    have hs : s = empty := ext_contains fun i => by rw [h i,contains_empty]
    rw [hs]
    rfl

@[simp] theorem contains_ofList (l : List Nat) (i : Nat) :
    (ofList l).contains i = (decide (i ∈ l) && decide (i < 16)) := by
  unfold ofList
  have h : ∀ (s : PinSet), (l.foldl add s).contains i = (s.contains i || (decide (i ∈ l) && decide (i < 16))) := by
    induction l with
    | nil => simp
    | cons x rest ih =>
      intro s
      rw [List.foldl_cons,ih,contains_add]
      by_cases hx : i = x
      · subst hx
        cases hi : decide (i < 16) <;> simp_all
      · simp [hx]
  rw [h,contains_empty,Bool.false_or]

theorem ofList_append_singleton (l : List Nat) (p : Nat) : ofList (l ++ [p]) = (ofList l).add p :=
  ext_contains fun i => by
    by_cases h : i = p
    · subst h
      simp
    · simp [h]

@[simp] theorem contains_single (p i : Nat) : (single p).contains i = (decide (i = p) && decide (p < 16)) := by
  simp [single]

theorem mem_toList {s : PinSet} {i : Nat} : i ∈ s.toList ↔ s.contains i = true := by
  unfold toList maxPins
  rw [List.mem_filter,List.mem_range]
  exact ⟨fun h => h.2,fun h => ⟨lt_of_contains h,h⟩⟩

theorem nodup_toList (s : PinSet) : s.toList.Nodup := List.nodup_range.filter _

end PinSet

end Tickflow
