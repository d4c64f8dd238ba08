import Tickflow.Proofs.Slots
/-! # Slots in key order

The store keeps its slots in ascending key order, each key once, and every store operation keeps
that order. Read in it, the slots of one activation come in ascending node order and the waiting
slots in (activation, node) order.
-/
namespace Tickflow

namespace SlotKey

theorem compare_lt_iff (a b : SlotKey) :
    compare a b = .lt ↔ a.activation < b.activation ∨ a.activation = b.activation ∧ a.node < b.node := by
  rw [compare_def,Ordering.then_eq_lt,Std.compare_eq_lt,Std.compare_eq_iff_eq,Nat.compare_eq_lt]

theorem compare_lt_trans {a b c : SlotKey} (h₁ : compare a b = .lt) (h₂ : compare b c = .lt) :
    compare a c = .lt := by
  rw [compare_lt_iff] at h₁ h₂ ⊢
  rcases h₁ with h₁ | ⟨e₁,h₁⟩ <;> rcases h₂ with h₂ | ⟨e₂,h₂⟩
  · exact Or.inl (UInt64.lt_trans h₁ h₂)
  · exact Or.inl (e₂ ▸ h₁)
  · exact Or.inl (e₁ ▸ h₂)
  · exact Or.inr ⟨e₁.trans e₂,Nat.lt_trans h₁ h₂⟩

theorem ne_of_compare_lt {a b : SlotKey} (h : compare a b = .lt) : a ≠ b := by
  rintro rfl
  simp [Std.compare_self] at h

theorem compare_lt_of_gt {a b : SlotKey} (h : compare a b = .gt) : compare b a = .lt := by
  rw [compare_def,Ordering.then_eq_gt,Std.compare_eq_gt,Std.compare_eq_iff_eq,Nat.compare_eq_gt] at h
  rw [compare_lt_iff]
  rcases h with h | ⟨e,h⟩
  · exact Or.inl h
  · exact Or.inr ⟨e.symm,h⟩

end SlotKey

theorem mem_of_lookupMember {κ α : Type} [Ord κ] [Std.LawfulEqOrd κ] {key : κ} {v : α} {l : List (κ × α)}
    (h : lookupMember key l = some v) : (key,v) ∈ l := by
  unfold lookupMember at h
  obtain ⟨x,hx,rfl⟩ := Option.map_eq_some_iff.mp h
  have hk : x.1 = key := Std.LawfulEqOrd.eq_of_compare (by simpa using List.find?_some hx)
  rw [← hk]
  exact List.mem_of_find?_eq_some hx

section Ascending

variable {α : Type}

def Ascending (l : List (SlotKey × α)) : Prop := l.Pairwise fun x y => compare x.1 y.1 = .lt

theorem mem_insertMember {key : SlotKey} {v : α} {l : List (SlotKey × α)} {y : SlotKey × α}
    (h : y ∈ insertMember key v l) : y = (key,v) ∨ y ∈ l := by
  induction l with
  | nil => exact Or.inl (List.mem_singleton.mp h)
  | cons e rest ih =>
    obtain ⟨k,w⟩ := e
    simp only [insertMember] at h
    split at h
    · rcases List.mem_cons.mp h with h | h
      · exact Or.inl h
      · exact Or.inr h
    · rcases List.mem_cons.mp h with h | h
      · exact Or.inl h
      · exact Or.inr (List.mem_cons_of_mem _ h)
    · rcases List.mem_cons.mp h with h | h
      · exact Or.inr (h ▸ List.mem_cons_self)
      · rcases ih h with h | h
        · exact Or.inl h
        · exact Or.inr (List.mem_cons_of_mem _ h)

namespace Ascending

theorem insertMember {l : List (SlotKey × α)} (h : Ascending l) (key : SlotKey) (v : α) :
    Ascending (insertMember key v l) := by
  induction l with
  | nil => exact List.pairwise_singleton _ _
  | cons e rest ih =>
    obtain ⟨k,w⟩ := e
    have hk : ∀ y ∈ rest, compare k y.1 = .lt := fun y hy => List.rel_of_pairwise_cons h hy
    simp only [Tickflow.insertMember]
    split
    · rename_i hlt
      refine List.Pairwise.cons (fun y hy => ?_) h
      rcases List.mem_cons.mp hy with rfl | hy
      · exact hlt
      · exact SlotKey.compare_lt_trans hlt (hk y hy)
    · rename_i heq
      have he : key = k := Std.LawfulEqOrd.eq_of_compare heq
      subst he
      exact List.Pairwise.cons hk h.of_cons
    · rename_i hgt
      refine List.Pairwise.cons (fun y hy => ?_) (ih h.of_cons)
      rcases mem_insertMember hy with rfl | hy
      · exact SlotKey.compare_lt_of_gt hgt
      · exact hk y hy

theorem sublist {l l' : List (SlotKey × α)} (h : Ascending l) (hs : l'.Sublist l) : Ascending l' :=
  List.Pairwise.sublist hs h

theorem filter {l : List (SlotKey × α)} (h : Ascending l) (p : SlotKey × α → Bool) : Ascending (l.filter p) :=
  h.sublist List.filter_sublist

theorem alterMember {l : List (SlotKey × α)} (h : Ascending l) (key : SlotKey) (d : α) (f : α → α) :
    Ascending (alterMember key d f l) :=
  h.insertMember _ _

theorem eraseMember {l : List (SlotKey × α)} (h : Ascending l) (key : SlotKey) : Ascending (eraseMember key l) :=
  h.filter _

theorem lookupMember_of_mem {l : List (SlotKey × α)} (h : Ascending l) {k : SlotKey} {v : α}
    (hm : (k,v) ∈ l) : lookupMember k l = some v := by
  induction l with
  | nil => exact absurd hm List.not_mem_nil
  | cons e rest ih =>
    obtain ⟨k',w⟩ := e
    rw [lookupMember_cons]
    rcases List.mem_cons.mp hm with he | hm
    · obtain ⟨rfl,rfl⟩ := Prod.mk.inj he
      simp
    · have hne : k' ≠ k := SlotKey.ne_of_compare_lt (List.rel_of_pairwise_cons h hm)
      rw [if_neg hne]
      exact ih h.of_cons hm

end Ascending

end Ascending

namespace ActivationStore

def Sorted (s : ActivationStore) : Prop := Ascending s.slots

variable {s : ActivationStore}

namespace Sorted

theorem of_slots_eq {s' : ActivationStore} (h : s.Sorted) (he : s'.slots = s.slots) : s'.Sorted := by
  unfold Sorted
  rw [he]
  exact h

theorem modifySlot (h : s.Sorted) (node : Nat) (act : UInt64) (f : Slot → Slot) : (s.modifySlot node act f).Sorted :=
  Ascending.alterMember h _ _ _

theorem takeState (h : s.Sorted) (node : Nat) (act : UInt64) : (s.takeState node act).2.Sorted := by
  unfold ActivationStore.takeState
  split
  · exact h.modifySlot _ _ _
  · exact h

theorem restore (h : s.Sorted) (node : Nat) (act : UInt64) (st : ActivationState) : (s.restore node act st).Sorted :=
  h.modifySlot _ _ _

theorem latch (h : s.Sorted) (node : Nat) (act : UInt64) : (s.latch node act).Sorted :=
  h.modifySlot _ _ _

theorem markWaiting (h : s.Sorted) (node : Nat) (act tick : UInt64) : (s.markWaiting node act tick).Sorted :=
  h.modifySlot _ _ _

theorem retire (h : s.Sorted) (node : Nat) (act : UInt64) : (s.retire node act).Sorted :=
  Ascending.eraseMember h _

theorem hold (h : s.Sorted) (node : Nat) (act seq : UInt64) (st : ActivationState) : (s.hold node act seq st).Sorted := by
  unfold ActivationStore.hold Sorted
  dsimp only
  split
  · exact h
  · exact h.modifySlot node act _

theorem resume (h : s.Sorted) (seq : UInt64) : (s.resume seq).2.Sorted :=
  h.of_slots_eq (resume_slots _ _)

theorem release (h : s.Sorted) (act : UInt64) : (s.release act).2.Sorted := by
  rw [release_eq]
  exact Ascending.filter h _

theorem nodes_ascending (h : s.Sorted) (act : UInt64) {p : SlotKey × Slot → Bool}
    (hp : ∀ e, p e = true → e.1.activation = act) :
    (s.slots.filter p).Pairwise fun x y => x.1.node < y.1.node := by
  refine (Ascending.filter h _).imp_of_mem fun {x y} hx hy hxy => ?_
  have hxa := hp x (List.mem_filter.mp hx).2
  have hya := hp y (List.mem_filter.mp hy).2
  rcases (SlotKey.compare_lt_iff _ _).mp hxy with hlt | ⟨-,hlt⟩
  · rw [hxa,hya] at hlt
    exact absurd hlt (UInt64.lt_irrefl act)
  · exact hlt

theorem node_le (h : s.Sorted) (hidx : ∀ n a, s.slot? n a ≠ none → n < nodeIndexEnd) :
    ∀ e ∈ s.slots, e.1.node ≤ nodeIndexEnd := by
  rintro ⟨k,sl⟩ he
  have hl : s.slot? k.node k.activation = some sl := Ascending.lookupMember_of_mem h he
  exact Nat.le_of_lt (hidx _ _ (by rw [hl]; exact Option.some_ne_none _))

end Sorted

/-- Where every slot sits at a node index up to the end marker, the range of an activation's
keys holds all its slots. -/
theorem release_eq_of_le (hidx : ∀ e ∈ s.slots, e.1.node ≤ nodeIndexEnd) (act : UInt64) :
    s.release act = ((s.slots.filter (·.1.activation == act)).map (fun e => (e.1.node,e.2)),
      { s with slots := s.slots.filter fun e => !(e.1.activation == act) }) := by
  have hw : ∀ e ∈ s.slots, e.1.within ⟨act,0⟩ ⟨act,nodeIndexEnd⟩ = (e.1.activation == act) := by
    intro e he
    rw [SlotKey.within_activation,decide_eq_true (hidx e he),Bool.and_true]
  rw [release_eq,List.filter_congr hw,List.filter_congr fun e he => congrArg (!·) (hw e he)]

theorem slot?_eq_none_of_lt (hidx : ∀ e ∈ s.slots, e.1.node ≤ nodeIndexEnd) {n : Nat} (hn : nodeIndexEnd < n)
    (a : UInt64) : s.slot? n a = none := by
  cases h : s.slot? n a with
  | none => rfl
  | some sl => exact absurd (hidx _ (mem_of_lookupMember h)) (Nat.not_le_of_lt hn)

end ActivationStore

end Tickflow
