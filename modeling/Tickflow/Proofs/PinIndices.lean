import Mathlib
import Tickflow.Engine.Document
import Tickflow.Pin.Laws
/-! # Pin sets as finite sets of indices

A pin set stands for the set of indices below 16 whose bit its mask sets, and every operation is
the operation of that set. A document array of bytes reads back as the set of its indices below
16, so every written set reads back as itself.
-/
namespace Tickflow

namespace PinSet

def members (s : PinSet) : Finset ℕ := (Finset.range maxPins).filter fun i => s.mask.toNat.testBit i

@[simp] theorem mem_members {s : PinSet} {i : ℕ} : i ∈ s.members ↔ i < 16 ∧ s.mask.toNat.testBit i = true := by
  simp [members,maxPins]

theorem contains_iff_mem {s : PinSet} {i : ℕ} : s.contains i = true ↔ i ∈ s.members := by
  rw [mem_members,contains_eq,Bool.and_eq_true,decide_eq_true_eq]
  rfl

theorem contains_remove (s : PinSet) (p i : ℕ) : (s.remove p).contains i = (s.contains i && !decide (i = p)) := by
  unfold remove
  split
  · rename_i hp
    have hp' : p < 16 := hp
    simp only [contains_eq,UInt16.toBitVec_and,UInt16.toBitVec_not,BitVec.getLsbD_and,BitVec.getLsbD_not,
      bit_toBitVec,BitVec.getLsbD_twoPow]
    by_cases hip : i = p
    · subst hip
      simp
    · by_cases hi : i < 16 <;> simp [hip,Ne.symm hip,hi]
  · rename_i hp
    by_cases hip : i = p
    · subst hip
      simp [contains_eq,show ¬i < 16 from hp]
    · simp [hip]

theorem insert_fst_iff {s : PinSet} {i : ℕ} : (s.insert i).1 = true ↔ i < 16 ∧ i ∉ s.members := by
  rw [insert_eq_add,← contains_iff_mem]
  simp

theorem members_add (s : PinSet) (i : ℕ) :
    (s.add i).members = if i < 16 then s.members ∪ {i} else s.members := by
  ext j
  rw [← contains_iff_mem,contains_add]
  split
  · rename_i hi
    rw [Finset.mem_union,Finset.mem_singleton,← contains_iff_mem]
    by_cases hji : j = i <;> simp [hji,hi]
  · rename_i hi
    rw [← contains_iff_mem]
    simp [hi]

theorem members_remove (s : PinSet) (i : ℕ) : (s.remove i).members = s.members.erase i := by
  ext j
  rw [← contains_iff_mem,contains_remove,Finset.mem_erase,← contains_iff_mem]
  by_cases hji : j = i <;> simp [hji]

theorem subset_iff_members (s t : PinSet) : s.subset t = true ↔ s.members ⊆ t.members := by
  rw [subset_iff]
  simp only [contains_iff_mem]
  rfl

theorem members_ofList (l : List ℕ) : (ofList l).members = l.toFinset.filter (· < 16) := by
  ext j
  rw [← contains_iff_mem,contains_ofList]
  simp

theorem pairwise_toList (s : PinSet) : s.toList.Pairwise (· < ·) :=
  List.pairwise_lt_range.filter _

theorem toFinset_toList (s : PinSet) : s.toList.toFinset = s.members := by
  ext j
  rw [List.mem_toFinset,mem_toList,contains_iff_mem]

theorem toList_eq_sort (s : PinSet) : s.toList = s.members.sort := by
  rw [← toFinset_toList]
  exact ((List.toFinset_sort (· ≤ ·) (nodup_toList s)).2 ((pairwise_toList s).imp le_of_lt)).symm

theorem size_eq_card (s : PinSet) : s.size = s.members.card := by
  rw [size,toList_eq_sort,Finset.length_sort]

theorem ofList_toList (s : PinSet) : ofList s.toList = s :=
  ext_contains fun i => by
    cases h : s.contains i
    · simp [mem_toList,h]
    · simp [mem_toList,h,lt_of_contains h]

theorem readArray_indices (l : List ℕ) (h : ∀ x ∈ l, x < 256) :
    Json.readArray (Json.readUnsigned 8) (.array (l.map Json.nat)) = .ok l := by
  show (l.map Json.nat).mapM (Json.readUnsigned 8) = .ok l
  induction l with
  | nil => rfl
  | cons x rest ih =>
    have hx : x < 256 := h x List.mem_cons_self
    have hread : Json.readUnsigned 8 (Json.nat x) = .ok x := by
      simp only [Json.readUnsigned,Json.nat,Int.natCast_nonneg,true_and,Int.toNat_natCast]
      rw [if_pos (by simp only [Nat.pow_eq]; omega)]
    rw [List.map_cons,List.mapM_cons,hread,ih fun y hy => h y (List.mem_cons_of_mem x hy)]
    rfl

theorem ofJson?_bytes (bytes : List UInt8) :
    ofJson? (.array (bytes.map fun b => Json.nat b.toNat)) = .ok (ofList (bytes.map UInt8.toNat)) := by
  have hl : bytes.map (fun b => Json.nat b.toNat) = (bytes.map UInt8.toNat).map Json.nat := by
    rw [List.map_map]
    rfl
  have hb : ∀ x ∈ bytes.map UInt8.toNat, x < 256 := by
    intro x hx
    obtain ⟨b,-,rfl⟩ := List.mem_map.mp hx
    exact b.toNat_lt
  unfold ofJson?
  rw [hl,readArray_indices _ hb]
  rfl

theorem ofJson?_toJson (s : PinSet) : ofJson? s.toJson = .ok s := by
  have h := readArray_indices s.toList fun x hx => by
    have := lt_of_contains (mem_toList.mp hx)
    omega
  unfold ofJson? toJson
  rw [h]
  exact congrArg Except.ok (ofList_toList s)

theorem toNat_bit (i : Fin maxPins) : (bit i).toNat = 2 ^ i.val := by
  have hi : i.val < 16 := i.isLt
  rw [← UInt16.toNat_toBitVec,bit_toBitVec,BitVec.toNat_twoPow_of_lt hi]

/-- A pin set is the set of indices below 16 whose bits its mask sets, and each operation is
the operation of that set. Membership is the bit below 16; inserting reports whether the index
was new and in range and adds it when in range; removing erases; the size counts the members;
the subset test is inclusion; the listing ascends strictly through the members, and the
debug text, the document form and the reading of any byte array follow it, so that reading a
written set gives it back. The only shift, `bit`, takes an index below 16 by its type and is
exact. -/
theorem mask_models_index_set (s t : PinSet) (i : ℕ) (l : List ℕ) (bytes : List UInt8) :
    (s.contains i = true ↔ i < 16 ∧ s.mask.toNat.testBit i = true) ∧
    ((s.insert i).1 = true ↔ i < 16 ∧ i ∉ s.members) ∧
    (s.insert i).2.members = (if i < 16 then s.members ∪ {i} else s.members) ∧
    (s.remove i).members = s.members.erase i ∧
    s.size = s.members.card ∧
    (s.subset t = true ↔ s.members ⊆ t.members) ∧
    s.toList = s.members.sort ∧ s.toList.Pairwise (· < ·) ∧
    (ofList l).members = l.toFinset.filter (· < 16) ∧
    single i = ofList [i] ∧
    s.debugText = "\x7b" ++ ", ".intercalate (s.members.sort.map toString) ++ "\x7d" ∧
    s.toJson = .array (s.members.sort.map Json.nat) ∧
    ofJson? (.array (bytes.map fun b => Json.nat b.toNat)) = .ok (ofList (bytes.map UInt8.toNat)) ∧
    ofJson? s.toJson = .ok s ∧
    ∀ j : Fin maxPins, (bit j).toNat = 2 ^ j.val := by
  refine ⟨?_,insert_fst_iff,?_,members_remove s i,size_eq_card s,subset_iff_members s t,toList_eq_sort s,
    pairwise_toList s,members_ofList l,rfl,?_,?_,ofJson?_bytes bytes,ofJson?_toJson s,toNat_bit⟩
  · rw [contains_iff_mem,mem_members]
  · rw [← members_add]
    rfl
  · rw [debugText,toList_eq_sort]
  · rw [toJson,toList_eq_sort]

example : (ofList [5,1,16,1]).toList = [1,5] := by decide

end PinSet

end Tickflow
