import Mathlib
import Tickflow.Engine.Store
/-! # Lookup in key-ordered member lists

A member list answers a lookup with its first member of that key. These are the lookup laws
the store's maps rest on: inserting, erasing and altering a key changes the lookup of that key
alone, and filtering by a condition on keys hides exactly the keys it drops. None of them
needs the list to be in key order, only that `compare` is `eq` on equal keys alone.
-/
namespace Tickflow

@[simp] theorem lookupMember_nil {κ α : Type} [Ord κ] (key : κ) :
    lookupMember key ([] : List (κ × α)) = none := rfl

variable {κ α : Type} [Ord κ] [Std.LawfulEqOrd κ] [DecidableEq κ]

theorem lookupMember_cons (key k : κ) (w : α) (rest : List (κ × α)) :
    lookupMember key ((k,w) :: rest) = if k = key then some w else lookupMember key rest := by
  by_cases h : k = key
  · simp [lookupMember,h]
  · have hc : (compare k key == Ordering.eq) = false := by
      simpa [Std.compare_beq_iff_eq] using h
    simp [lookupMember,hc,h]

@[simp] theorem lookupMember_insertMember (key key' : κ) (v : α) (l : List (κ × α)) :
    lookupMember key' (insertMember key v l) = if key = key' then some v else lookupMember key' l := by
  induction l with
  | nil => simp [insertMember,lookupMember_cons]
  | cons e rest ih =>
    obtain ⟨k,w⟩ := e
    simp only [insertMember]
    split
    · simp [lookupMember_cons]
    · rename_i heq
      have hk : key = k := Std.LawfulEqOrd.eq_of_compare heq
      subst hk
      by_cases h : key = key' <;> simp [lookupMember_cons,h]
    · rename_i hgt
      have hk : k ≠ key := by
        rintro rfl
        simp [Std.compare_self] at hgt
      simp only [lookupMember_cons,ih]
      by_cases h : k = key'
      · subst h; simp [Ne.symm hk]
      · simp [h]

theorem lookupMember_filter (p : κ → Bool) (key : κ) (l : List (κ × α)) :
    lookupMember key (l.filter fun e => p e.1) = if p key then lookupMember key l else none := by
  induction l with
  | nil => simp
  | cons e rest ih =>
    obtain ⟨k,w⟩ := e
    by_cases hp : p k
    · simp only [List.filter_cons,hp,if_true,lookupMember_cons,ih]
      by_cases h : k = key
      · subst h; simp [hp]
      · simp [h]
    · simp only [List.filter_cons,hp,Bool.false_eq_true,if_false,ih,lookupMember_cons]
      by_cases h : k = key
      · subst h; simp [hp]
      · simp [h]

@[simp] theorem lookupMember_eraseMember (key key' : κ) (l : List (κ × α)) :
    lookupMember key' (eraseMember key l) = if key = key' then none else lookupMember key' l := by
  have h := lookupMember_filter (fun k => compare k key != Ordering.eq) key' l
  simp only [eraseMember] at h ⊢
  rw [h]
  by_cases hk : key = key'
  · subst hk; simp
  · have hc : (compare key' key != Ordering.eq) = true := by
      simpa [Std.compare_beq_iff_eq] using Ne.symm hk
    simp [hc,hk]

@[simp] theorem lookupMember_alterMember (key key' : κ) (d : α) (f : α → α) (l : List (κ × α)) :
    lookupMember key' (alterMember key d f l) =
      if key = key' then some (f ((lookupMember key l).getD d)) else lookupMember key' l := by
  simp [alterMember]

omit [DecidableEq κ] in
theorem lookupMember_ne_none_of_mem {key : κ} {v : α} {l : List (κ × α)} (h : (key,v) ∈ l) :
    lookupMember key l ≠ none := by
  unfold lookupMember
  rw [ne_eq,Option.map_eq_none_iff,List.find?_eq_none]
  intro hn
  exact hn (key,v) h (by simp [Std.compare_self])

end Tickflow
