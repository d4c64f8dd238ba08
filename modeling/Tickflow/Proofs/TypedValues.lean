import Tickflow.Proofs.JsonText
import Tickflow.Value.Document
/-! # Typed values in documents

A storable value read back after its typed text gives itself exactly when its document nests less
deeply than the reader allows, and is refused otherwise (`toOption_ofTyped?`).
-/
namespace Tickflow

namespace Json

theorem readsBack_array_iff {lim : Nat} {items : List Json} {j' : Json} :
    ReadsBack lim (.array items) j' ↔
      (lim ≤ 1 ∧ j' = .unreadable .tooDeep) ∨ (2 ≤ lim ∧ ∃ items', j' = .array items' ∧ ReadsBackItems (lim - 1) items items') := by
  by_cases hl : lim ≤ 1 <;> simp [ReadsBack,hl]; omega

theorem readsBack_object_iff {lim : Nat} {members : List (String × Json)} {j' : Json} :
    ReadsBack lim (.object members) j' ↔
      (lim ≤ 1 ∧ j' = .unreadable .tooDeep) ∨
        (2 ≤ lim ∧ ∃ members', j' = .object members' ∧ ReadsBackMembers (lim - 1) members members') := by
  by_cases hl : lim ≤ 1 <;> simp [ReadsBack,hl]; omega

@[simp] theorem depth_typed (name : String) (c : Json) :
    (object [("type",.string name),("value",c)]).depth = c.depth + 1 := by
  simp [depth,depthMembers]

end Json

namespace Value

open Json

mutual

/-- A value its document form keeps: every double finite, and the members of every map in
strictly ascending key order, as a map holds them. -/
def Storable : Value → Prop
  | .float x => x.isFinite = true
  | .list items => StorableItems items
  | .map members => (members.map Prod.fst).Pairwise (· < ·) ∧ StorableMembers members
  | _ => True

def StorableItems : List Value → Prop
  | [] => True
  | v :: rest => Storable v ∧ StorableItems rest

def StorableMembers : List (String × Value) → Prop
  | [] => True
  | (_,v) :: rest => Storable v ∧ StorableMembers rest

end

theorem contentFirst_typed (name : String) (c : Json) :
    contentFirst [("type",.string name),("value",c)] = false := by
  simp [contentFirst,List.findIdx?_cons]

theorem ofTyped?_typed {name : String} (h : name ∈ variantNames) (c : Json) :
    ofTyped? (.object [("type",.string name),("value",c)]) = ofContent name c := by
  simp [ofTyped?,Json.member?,contentFirst_typed,variantOf,ofContentMember,h]
  cases ofContent name c <;> rfl

theorem ofTyped?_null : ofTyped? (.object [("type",.string "Null")]) = .ok .null := by
  simp [ofTyped?,Json.member?,contentFirst,variantOf,ofContentMember,variantNames]

theorem ofContent_unreadable {name : String} (h : name = "List" ∨ name = "Map") (r : ReadError) :
    (ofContent name (.unreadable r)).toOption = none := by
  rcases h with rfl | rfl <;> rfl

theorem ofContent_int (n : Int64) : ofContent "Int" (.int n.toInt) = .ok (.int n) := by
  have hlo := Int64.le_toInt n
  have hhi := Int64.toInt_lt n
  have hin : -9223372036854775808 ≤ n.toInt ∧ n.toInt < 9223372036854775808 := by
    constructor <;> omega
  simp [ofContent,readInt64,Int64.ofInt_toInt,hin]

theorem ofContent_float (d : Decimal) (x : Binary64) : ofContent "Float" (.decimal d x) = .ok (.float x) := rfl

theorem ofContent_list (items : List Json) : ofContent "List" (.array items) = .list <$> ofTypedItems items := rfl

theorem ofContent_map (members : List (String × Json)) :
    ofContent "Map" (.object members) = (fun ms => .map (orderMembers ms)) <$> ofTypedMembers members := rfl

theorem toOption_map {ε α β : Type} (f : α → β) (x : Except ε α) : (f <$> x).toOption = x.toOption.map f := by
  cases x <;> rfl

theorem toOption_ofTypedItems_cons (j : Json) (rest : List Json) :
    (ofTypedItems (j :: rest)).toOption = (ofTyped? j).toOption.bind fun v => (ofTypedItems rest).toOption.map (v :: ·) := by
  simp only [ofTypedItems]
  cases ofTyped? j <;> cases ofTypedItems rest <;> rfl

theorem toOption_ofTypedMembers_cons (k : String) (j : Json) (rest : List (String × Json)) :
    (ofTypedMembers ((k,j) :: rest)).toOption =
      (ofTyped? j).toOption.bind fun v => (ofTypedMembers rest).toOption.map ((k,v) :: ·) := by
  simp only [ofTypedMembers]
  cases ofTyped? j <;> cases ofTypedMembers rest <;> rfl

theorem readsBack_typed {lim : Nat} {name : String} {c j' : Json}
    (h : ReadsBack lim (.object [("type",.string name),("value",c)]) j') :
    (lim ≤ 1 ∧ j' = .unreadable .tooDeep) ∨
      (2 ≤ lim ∧ ∃ c', j' = .object [("type",.string name),("value",c')] ∧ ReadsBack (lim - 1) c c') := by
  rcases readsBack_object_iff.mp h with h | ⟨hl,ms',rfl,hms⟩
  · exact .inl h
  · obtain ⟨t',rest',rfl,rfl,c',rest'',rfl,hc,rfl⟩ := hms
    exact .inr ⟨hl,c',rfl,hc⟩

theorem toOption_typed_scalar {lim : Nat} {name : String} {c j' : Json} {v : Value} (hname : name ∈ variantNames)
    (hc : c.depth = 0) (hread : ∀ c', ReadsBack (lim - 1) c c' → ofContent name c' = .ok v)
    (h : ReadsBack lim (.object [("type",.string name),("value",c)]) j') :
    (ofTyped? j').toOption = if (Json.object [("type",.string name),("value",c)]).depth < lim then some v else none := by
  rcases readsBack_typed h with ⟨hl,rfl⟩ | ⟨hl,c',rfl,hc'⟩
  · rw [depth_typed,if_neg (by omega)]
    rfl
  · rw [ofTyped?_typed hname,hread c' hc',depth_typed,if_pos (by omega)]
    rfl

/-! ## Maps in key order -/

section Order

variable {α : Type}

theorem insertMember_of_lt {k : String} (v : α) {acc : List (String × α)} (h : ∀ k' ∈ acc.map Prod.fst, k' < k) :
    insertMember k v acc = acc ++ [(k,v)] := by
  induction acc with
  | nil => rfl
  | cons m rest ih =>
    obtain ⟨k',w⟩ := m
    have hgt : compare k k' = .gt := compare_gt_iff_gt.mpr (h k' List.mem_cons_self)
    rw [insertMember,hgt,ih fun k'' hk'' => h k'' (List.mem_cons_of_mem _ hk'')]
    rfl

theorem foldl_insertMember_of_ascending (l acc : List (String × α))
    (h : ((acc ++ l).map Prod.fst).Pairwise (· < ·)) :
    l.foldl (fun acc m => insertMember m.1 m.2 acc) acc = acc ++ l := by
  induction l generalizing acc with
  | nil => simp
  | cons m rest ih =>
    have hlt : ∀ k' ∈ acc.map Prod.fst, k' < m.1 := by
      intro k' hk'
      rw [List.map_append,List.pairwise_append] at h
      exact h.2.2 k' hk' m.1 List.mem_cons_self
    rw [List.foldl_cons,insertMember_of_lt m.2 hlt,ih _ (by rwa [List.append_assoc,List.singleton_append])]
    simp

theorem orderMembers_of_ascending {l : List (String × α)} (h : (l.map Prod.fst).Pairwise (· < ·)) : orderMembers l = l := by
  have h' := foldl_insertMember_of_ascending l [] (by rwa [List.nil_append])
  rw [List.nil_append] at h'
  exact h'

end Order

/-! ## Typed documents read back -/

mutual

theorem toOption_ofTyped? : ∀ (v : Value) {lim : Nat} {j' : Json}, v.Storable → ReadsBack lim v.toTyped j' →
    (ofTyped? j').toOption = if v.toTyped.depth < lim then some v else none
  | .null,lim,j',_,h => by
    rcases readsBack_object_iff.mp h with ⟨hl,rfl⟩ | ⟨hl,ms',rfl,t',rest',rfl,rfl,rfl⟩
    · rw [if_neg (by simp [toTyped,depth,depthMembers]; omega)]
      rfl
    · rw [ofTyped?_null,if_pos (by simp [toTyped,depth,depthMembers]; omega)]
      rfl
  | .bool b,lim,j',_,h => toOption_typed_scalar (by decide) rfl (fun c' hc => by cases hc; rfl) h
  | .int n,lim,j',_,h => toOption_typed_scalar (by decide) rfl (fun c' hc => by cases hc; exact ofContent_int n) h
  | .float x,lim,j',_,h =>
    toOption_typed_scalar (by decide) rfl (fun c' hc => by obtain ⟨d,rfl⟩ := hc; exact ofContent_float d x) h
  | .string s,lim,j',_,h => toOption_typed_scalar (by decide) rfl (fun c' hc => by cases hc; rfl) h
  | .list items,lim,j',hs,h => by
    rcases readsBack_typed h with ⟨hl,rfl⟩ | ⟨hl,c',rfl,hc⟩
    · rw [if_neg (by simp [toTyped]; omega)]
      rfl
    rw [ofTyped?_typed (by decide)]
    rcases readsBack_array_iff.mp hc with ⟨hl',rfl⟩ | ⟨hl',items',rfl,hitems⟩
    · rw [ofContent_unreadable (.inl rfl),if_neg (by simp [toTyped,depth]; omega)]
    · rw [ofContent_list,toOption_map,toOption_ofTypedItems items (by omega) hs hitems]
      simp only [toTyped,depth_typed,depth]
      by_cases hd : depthItems (toTypedItems items) < lim - 1 - 1
      · rw [if_pos hd,if_pos (by omega)]
        rfl
      · rw [if_neg hd,if_neg (by omega)]
        rfl
  | .map members,lim,j',hs,h => by
    rcases readsBack_typed h with ⟨hl,rfl⟩ | ⟨hl,c',rfl,hc⟩
    · rw [if_neg (by simp [toTyped]; omega)]
      rfl
    rw [ofTyped?_typed (by decide)]
    rcases readsBack_object_iff.mp hc with ⟨hl',rfl⟩ | ⟨hl',ms',rfl,hms⟩
    · rw [ofContent_unreadable (.inr rfl),if_neg (by simp [toTyped,depth]; omega)]
    · rw [ofContent_map,toOption_map,toOption_ofTypedMembers members (by omega) hs.2 hms]
      simp only [toTyped,depth_typed,depth]
      by_cases hd : depthMembers (toTypedMembers members) < lim - 1 - 1
      · rw [if_pos hd,if_pos (by omega),Option.map_some,orderMembers_of_ascending hs.1]
      · rw [if_neg hd,if_neg (by omega)]
        rfl

theorem toOption_ofTypedItems : ∀ (items : List Value) {lim : Nat} {items' : List Json}, 0 < lim →
    StorableItems items → ReadsBackItems lim (toTypedItems items) items' →
    (ofTypedItems items').toOption = if depthItems (toTypedItems items) < lim then some items else none
  | [],lim,items',hl,_,h => by
    cases h
    rw [if_pos (by simp [toTypedItems,depthItems]; omega)]
    rfl
  | v :: rest,lim,items',hl,hs,h => by
    obtain ⟨j',rest',rfl,hj,hr⟩ := h
    rw [toOption_ofTypedItems_cons,toOption_ofTyped? v hs.1 hj,toOption_ofTypedItems rest hl hs.2 hr]
    simp only [toTypedItems,depthItems,max_lt_iff]
    by_cases h1 : v.toTyped.depth < lim <;> by_cases h2 : depthItems (toTypedItems rest) < lim <;> simp [h1,h2]

theorem toOption_ofTypedMembers : ∀ (members : List (String × Value)) {lim : Nat} {ms' : List (String × Json)}, 0 < lim →
    StorableMembers members → ReadsBackMembers lim (toTypedMembers members) ms' →
    (ofTypedMembers ms').toOption = if depthMembers (toTypedMembers members) < lim then some members else none
  | [],lim,ms',hl,_,h => by
    cases h
    rw [if_pos (by simp [toTypedMembers,depthMembers]; omega)]
    rfl
  | (k,v) :: rest,lim,ms',hl,hs,h => by
    obtain ⟨j',rest',rfl,hj,hr⟩ := h
    rw [toOption_ofTypedMembers_cons,toOption_ofTyped? v hs.1 hj,toOption_ofTypedMembers rest hl hs.2 hr]
    simp only [toTypedMembers,depthMembers,max_lt_iff]
    by_cases h1 : v.toTyped.depth < lim <;> by_cases h2 : depthMembers (toTypedMembers rest) < lim <;> simp [h1,h2]

end

mutual

theorem writable_toTyped : ∀ (v : Value), v.Storable → Writable v.toTyped
  | .null,_ => ⟨trivial,trivial⟩
  | .bool _,_ => ⟨trivial,trivial,trivial⟩
  | .int n,_ => by
    have hlo := Int64.le_toInt n
    have hhi := Int64.toInt_lt n
    refine ⟨trivial,⟨?_,?_⟩,trivial⟩ <;> simp only [Nat.pow_eq] <;> push_cast <;> omega
  | .float _,hs => ⟨trivial,hs,trivial⟩
  | .string _,_ => ⟨trivial,trivial,trivial⟩
  | .list items,hs => ⟨trivial,writable_toTypedItems items hs,trivial⟩
  | .map members,hs => ⟨trivial,writable_toTypedMembers members hs.2,trivial⟩

theorem writable_toTypedItems : ∀ (items : List Value), StorableItems items → WritableItems (toTypedItems items)
  | [],_ => trivial
  | v :: rest,hs => ⟨writable_toTyped v hs.1,writable_toTypedItems rest hs.2⟩

theorem writable_toTypedMembers : ∀ (members : List (String × Value)), StorableMembers members →
    WritableMembers (toTypedMembers members)
  | [],_ => trivial
  | (_,v) :: rest,hs => ⟨writable_toTyped v hs.1,writable_toTypedMembers rest hs.2⟩

end

end Value

end Tickflow
