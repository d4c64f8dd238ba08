import Tickflow.Proofs.Shortest
import Tickflow.Json.Reader
import Tickflow.Json.Writer
/-! # Decimals written and read back

Digits written by `Nat.toDigits` read back as the number they spell, and a run of them stops
where the digits stop. The text of a decimal reads back as a decimal of the same sign and value
(`readNumber_render`).
-/
namespace Tickflow

/-! ## Digits -/

theorem isDigit_of_mem_toDigits : ∀ {n : Nat} {c : Char}, c ∈ Nat.toDigits 10 n → c.isDigit = true
  | n,c,h => by
    by_cases hn : n < 10
    · rw [Nat.toDigits_of_lt_base hn,List.mem_singleton] at h
      rw [h,Nat.isDigit_digitChar]
      exact decide_eq_true hn
    · rw [Nat.toDigits_of_base_le (by norm_num) (by omega),List.mem_append,List.mem_singleton] at h
      rcases h with h | h
      · exact isDigit_of_mem_toDigits h
      · rw [h,Nat.isDigit_digitChar]
        exact decide_eq_true (Nat.mod_lt _ (by norm_num))
termination_by n => n
decreasing_by omega

theorem digitChar_sub_zero : ∀ d < 10, (Nat.digitChar d).toNat - '0'.toNat = d := by decide

theorem toDigits_head_ne_zero : ∀ {n : Nat}, 0 < n → (Nat.toDigits 10 n).head? ≠ some '0'
  | n,hn => by
    by_cases h : n < 10
    · rw [Nat.toDigits_of_lt_base h]
      have : ∀ n < 10, n ≠ 0 → Nat.digitChar n ≠ '0' := by decide
      simpa using this n h (by omega)
    · rw [Nat.toDigits_of_base_le (by norm_num) (by omega),List.head?_append_of_ne_nil _ Nat.toDigits_ne_nil]
      exact toDigits_head_ne_zero (by omega)
termination_by n => n
decreasing_by omega

namespace Json.Reader

theorem foldl_digit (ds : List Char) (n : Nat) :
    ds.foldl (fun n c => 10 * n + (c.toNat - '0'.toNat)) n = n * 10 ^ ds.length + digitsValue ds := by
  induction ds generalizing n with
  | nil => simp [digitsValue]
  | cons c ds ih =>
    simp only [List.foldl_cons,digitsValue,List.length_cons]
    rw [ih,ih (10 * 0 + _)]
    ring

theorem digitsValue_append (a b : List Char) :
    digitsValue (a ++ b) = digitsValue a * 10 ^ b.length + digitsValue b := by
  rw [digitsValue,List.foldl_append,foldl_digit]
  rfl

theorem digitsValue_toDigits : ∀ n : Nat, digitsValue (Nat.toDigits 10 n) = n
  | n => by
    by_cases hn : n < 10
    · rw [Nat.toDigits_of_lt_base hn]
      simp only [digitsValue,List.foldl_cons,List.foldl_nil]
      rw [digitChar_sub_zero n hn]
      omega
    · rw [Nat.toDigits_of_base_le (by norm_num) (by omega),digitsValue_append,digitsValue_toDigits (n / 10)]
      simp only [digitsValue,List.foldl_cons,List.foldl_nil,List.length_singleton,pow_one]
      rw [digitChar_sub_zero _ (Nat.mod_lt _ (by norm_num))]
      omega
termination_by n => n
decreasing_by omega

theorem digitsValue_replicate_zero (k : Nat) : digitsValue (List.replicate k '0') = 0 := by
  induction k with
  | zero => rfl
  | succ k ih =>
    rw [List.replicate_succ',digitsValue_append,ih]
    rfl

theorem readDigits_append {ds rest : List Char} (hds : ∀ c ∈ ds, c.isDigit = true)
    (hrest : ∀ c ∈ rest.head?, c.isDigit = false) : readDigits (ds ++ rest) = (ds,rest) := by
  induction ds with
  | nil =>
    cases rest with
    | nil => rfl
    | cons c r => simp [readDigits,hrest c rfl]
  | cons c ds ih =>
    have hc := hds c (by simp)
    simp [readDigits,hc,ih (fun x hx => hds x (by simp [hx]))]

/-! ## The parts of a number -/

theorem readSign_signed (neg : Bool) {d : Char} (hd : d.isDigit = true) (r : List Char) :
    readSign ((if neg then ['-'] else []) ++ d :: r) = (neg,d :: r) := by
  cases neg
  · unfold readSign
    split
    · rename_i h
      simp only [Bool.false_eq_true,if_false,List.nil_append,List.cons.injEq] at h
      rw [h.1] at hd
      exact absurd hd (by decide)
    · rfl
  · rfl

theorem readFraction_point {ds rest : List Char} (hds : ∀ c ∈ ds, c.isDigit = true)
    (hrest : ∀ c ∈ rest.head?, c.isDigit = false) : readFraction ('.' :: ds ++ rest) = (ds,rest,true) := by
  simp only [readFraction,List.cons_append]
  rw [readDigits_append hds hrest]

theorem readFraction_none {rest : List Char} (h : ∀ c ∈ rest.head?, c ≠ '.') :
    readFraction rest = ([],rest,false) := by
  unfold readFraction
  split
  · rename_i r
    exact absurd rfl (h '.' rfl)
  · rfl

theorem readExponentPart_none {rest : List Char} (h : ∀ c ∈ rest.head?, c ≠ 'e' ∧ c ≠ 'E') :
    readExponentPart rest = (false,[],rest,false) := by
  unfold readExponentPart
  split
  · exact absurd rfl (h 'e' rfl).1
  · exact absurd rfl (h 'E' rfl).2
  · rfl

theorem readExponentSign_digit {d : Char} (hd : d.isDigit = true) (r : List Char) :
    readExponentSign (d :: r) = (false,d :: r) := by
  unfold readExponentSign
  split
  · rename_i h
    simp only [List.cons.injEq] at h
    rw [h.1] at hd
    exact absurd hd (by decide)
  · rename_i h
    simp only [List.cons.injEq] at h
    rw [h.1] at hd
    exact absurd hd (by decide)
  · rfl

theorem readExponentPart_mark {sign ds rest : List Char} (neg : Bool)
    (hsign : sign = (if neg then ['-'] else []) ∨ (sign = ['+'] ∧ neg = false))
    (hds : ∀ c ∈ ds, c.isDigit = true) (hne : ds ≠ []) (hrest : ∀ c ∈ rest.head?, c.isDigit = false) :
    readExponentPart ('e' :: sign ++ ds ++ rest) = (neg,ds,rest,true) := by
  obtain ⟨d,ds',rfl⟩ := List.exists_cons_of_ne_nil hne
  have hsgn : readExponentSign (sign ++ d :: ds' ++ rest) = (neg,d :: ds' ++ rest) := by
    rcases hsign with rfl | ⟨rfl,rfl⟩
    · cases neg
      · exact readExponentSign_digit (hds d (by simp)) _
      · rfl
    · rfl
  simp only [readExponentPart,List.cons_append,List.append_assoc] at hsgn ⊢
  rw [hsgn]
  dsimp only
  rw [← List.cons_append,readDigits_append hds hrest]

theorem exponentText_toList (e : ℤ) (plus : Bool) :
    ∃ sign : List Char, ((if e < 0 then "-" ++ toString e.natAbs
        else (if plus then "+" else "") ++ toString e.natAbs).toList = sign ++ Nat.toDigits 10 e.natAbs) ∧
      (sign = (if decide (e < 0) then ['-'] else []) ∨ (sign = ['+'] ∧ decide (e < 0) = false)) := by
  by_cases he : e < 0
  · exact ⟨['-'],by simp [he],Or.inl (by simp [he])⟩
  · cases plus
    · exact ⟨[],by simp [he],Or.inl (by simp [he])⟩
    · exact ⟨['+'],by simp [he],Or.inr ⟨rfl,by simp [he]⟩⟩

theorem signed_natAbs (e : ℤ) :
    (if decide (e < 0) then -(digitsValue (Nat.toDigits 10 e.natAbs) : ℤ)
      else digitsValue (Nat.toDigits 10 e.natAbs)) = e := by
  rw [digitsValue_toDigits]
  split <;> rename_i h <;> simp only [decide_eq_true_eq] at h <;> omega

/-! ## Numbers -/

theorem readNumber_of_parts (loose neg : Bool) {intDs tail : List Char}
    (hint : ∀ c ∈ intDs, c.isDigit = true) (hne : intDs ≠ [])
    (hlead : 1 < intDs.length → intDs.head? ≠ some '0')
    (htail : ∀ c ∈ tail.head?, c.isDigit = false)
    {fracDs tail' : List Char} {hasFrac : Bool} (hfrac : readFraction tail = (fracDs,tail',hasFrac))
    (hfne : hasFrac = true → fracDs ≠ [])
    {expNeg : Bool} {expDs rest : List Char} {hasExp : Bool}
    (hexp : readExponentPart tail' = (expNeg,expDs,rest,hasExp)) (hene : hasExp = true → expDs ≠ [])
    (hsome : hasFrac = true ∨ hasExp = true) {c : Nat} {k : ℤ}
    (hc : digitsValue (intDs ++ fracDs) = c)
    (hk : (if expNeg then -(digitsValue expDs : ℤ) else digitsValue expDs) - fracDs.length = k)
    {x : Binary64} (hx : Binary64.ofDecimal? neg c k = some x) :
    readNumber loose ((if neg then ['-'] else []) ++ intDs ++ tail) =
      .ok (.decimal ⟨neg,c,k⟩ x,rest) := by
  subst hc hk
  obtain ⟨d,ds,rfl⟩ := List.exists_cons_of_ne_nil hne
  unfold readNumber
  rw [List.append_assoc,List.cons_append,readSign_signed neg (hint d (by simp))]
  dsimp only
  rw [← List.cons_append,readDigits_append hint htail]
  dsimp only
  rw [hfrac]
  dsimp only
  rw [hexp]
  dsimp only
  have h1 : ¬(1 < (d :: ds).length ∧ (d :: ds).head? = some '0') := fun h => hlead h.1 h.2
  have h2 : ¬(hasFrac = true ∧ fracDs.isEmpty = true) := fun h => hfne h.1 (List.isEmpty_iff.mp h.2)
  have h3 : ¬(hasExp = true ∧ expDs.isEmpty = true) := fun h => hene h.1 (List.isEmpty_iff.mp h.2)
  have h4 : ¬((!hasFrac) = true ∧ (!hasExp) = true) := by
    rcases hsome with h | h <;> simp [h]
  simp only [List.isEmpty_cons,Bool.false_eq_true,if_false,gt_iff_lt,if_neg h1,if_neg h2,if_neg h3,
    if_neg h4,hx]

/-- What may follow a number: nothing, or a character that continues no number. -/
def EndsNumber (rest : List Char) : Prop :=
  ∀ c ∈ rest.head?, c.isDigit = false ∧ c ≠ '.' ∧ c ≠ 'e' ∧ c ≠ 'E'

theorem readNumber_render (loose : Bool) (layout : DecimalLayout) (hpz : layout.pointZero = true)
    (d : Decimal) {rest : List Char} (hrest : EndsNumber rest) :
    ∃ (c : Nat) (k : ℤ), (c : ℚ) * 10 ^ k = d.digits * 10 ^ d.exponent ∧ ∀ x,
      Binary64.ofDecimal? d.negative c k = some x →
        readNumber loose ((d.render layout).toList ++ rest) = .ok (.decimal ⟨d.negative,c,k⟩ x,rest) := by
  have hr : ∀ c ∈ rest.head?, c.isDigit = false := fun c hc => (hrest c hc).1
  have hre : ∀ c ∈ rest.head?, c ≠ 'e' ∧ c ≠ 'E' := fun c hc => (hrest c hc).2.2
  have hsign : (if d.negative = true then "-" else "").toList = if d.negative then ['-'] else [] := by
    split <;> rfl
  unfold Decimal.render
  dsimp only
  rw [String.toList_append,hsign,List.append_assoc]
  by_cases h0 : d.digits = 0
  · refine ⟨0,-1,by simp [h0],fun x hx => ?_⟩
    simp only [h0,if_true,hpz]
    rw [show "0.0".toList ++ rest = ['0'] ++ ('.' :: ['0'] ++ rest) by simp,← List.append_assoc]
    exact readNumber_of_parts loose d.negative (by simp) (by simp) (by simp) (by simp)
      (readFraction_point (by simp) hr) (by simp) (readExponentPart_none hre) (by simp) (Or.inl rfl)
      rfl (by simp [digitsValue]) hx
  · have hpos : 0 < d.digits := Nat.pos_of_ne_zero h0
    simp only [h0,if_false,hpz,if_true,String.length_ofList,String.toList_ofList]
    have hds : ∀ c ∈ Nat.toDigits 10 d.digits, c.isDigit = true := fun c hc => isDigit_of_mem_toDigits hc
    have hne : Nat.toDigits 10 d.digits ≠ [] := Nat.toDigits_ne_nil
    have hhead := toDigits_head_ne_zero hpos
    have hval := digitsValue_toDigits d.digits
    generalize Nat.toDigits 10 d.digits = ds at hds hne hhead hval ⊢
    by_cases hposn : layout.positionalFrom < (ds.length : ℤ) + d.exponent ∧
        (ds.length : ℤ) + d.exponent ≤ layout.positionalTo
    · rw [if_pos hposn]
      by_cases hexp : 0 ≤ d.exponent
      · rw [if_pos hexp]
        obtain ⟨n,hn⟩ := Int.eq_ofNat_of_zero_le hexp
        have hint : ∀ c ∈ ds ++ List.replicate n '0', c.isDigit = true := by
          intro c hc
          rcases List.mem_append.mp hc with h | h
          · exact hds c h
          · rw [List.eq_of_mem_replicate h]
            rfl
        refine ⟨digitsValue (ds ++ List.replicate n '0' ++ ['0']),-1,?_,fun x hx => ?_⟩
        · have h0' : digitsValue ['0'] = 0 := rfl
          rw [digitsValue_append,digitsValue_append,digitsValue_replicate_zero,hval,hn,h0']
          simp only [List.length_replicate,List.length_singleton,pow_one,zpow_natCast,zpow_neg_one]
          push_cast
          field_simp
          ring
        · rw [hn,Int.toNat_natCast,show (String.ofList ds ++ repeatChar '0' n ++ ".0").toList ++ rest =
            (ds ++ List.replicate n '0') ++ ('.' :: ['0'] ++ rest) by simp [repeatChar],← List.append_assoc]
          exact readNumber_of_parts loose d.negative hint (by simp [hne])
            (fun _ => by rw [List.head?_append_of_ne_nil _ hne]; exact hhead) (by simp)
            (readFraction_point (by simp) hr) (by simp) (readExponentPart_none hre) (by simp) (Or.inl rfl)
            rfl (by simp [digitsValue]) hx
      · rw [if_neg hexp]
        by_cases hpt : 0 < (ds.length : ℤ) + d.exponent
        · rw [if_pos hpt]
          refine ⟨d.digits,d.exponent,rfl,fun x hx => ?_⟩
          have hpe : (((ds.length : ℤ) + d.exponent).toNat : ℤ) = ds.length + d.exponent :=
            Int.toNat_of_nonneg hpt.le
          generalize ((ds.length : ℤ) + d.exponent).toNat = p at hpe ⊢
          rw [show (String.ofList (List.take p ds) ++ "." ++ String.ofList (List.drop p ds)).toList ++ rest =
            List.take p ds ++ ('.' :: List.drop p ds ++ rest) by simp,← List.append_assoc]
          exact readNumber_of_parts loose d.negative (fun c hc => hds c (List.mem_of_mem_take hc))
            (by simp only [ne_eq,List.take_eq_nil_iff,not_or]; exact ⟨by omega,hne⟩)
            (fun _ => by rw [List.head?_take,if_neg (by omega)]; exact hhead) (by simp)
            (readFraction_point (fun c hc => hds c (List.mem_of_mem_drop hc)) hr)
            (fun _ => by simp only [ne_eq,List.drop_eq_nil_iff,not_le]; omega)
            (readExponentPart_none hre) (by simp) (Or.inl rfl) (by rw [List.take_append_drop,hval])
            (by simp only [Bool.false_eq_true,if_false,List.length_drop]; simp [digitsValue]; omega) hx
        · rw [if_neg hpt]
          refine ⟨d.digits,d.exponent,rfl,fun x hx => ?_⟩
          have hme : ((-((ds.length : ℤ) + d.exponent)).toNat : ℤ) = -(ds.length + d.exponent) :=
            Int.toNat_of_nonneg (by omega)
          generalize (-((ds.length : ℤ) + d.exponent)).toNat = m at hme ⊢
          have hfr : ∀ c ∈ List.replicate m '0' ++ ds, c.isDigit = true := by
            intro c hc
            rcases List.mem_append.mp hc with h | h
            · rw [List.eq_of_mem_replicate h]
              rfl
            · exact hds c h
          rw [show ("0." ++ repeatChar '0' m ++ String.ofList ds).toList ++ rest =
            ['0'] ++ ('.' :: (List.replicate m '0' ++ ds) ++ rest) by simp [repeatChar],← List.append_assoc]
          exact readNumber_of_parts loose d.negative (by simp) (by simp) (by simp) (by simp)
            (readFraction_point hfr hr) (by simp [hne]) (readExponentPart_none hre) (by simp) (Or.inl rfl)
            (by rw [digitsValue_append,digitsValue_append,digitsValue_replicate_zero,hval]; simp [digitsValue])
            (by simp only [Bool.false_eq_true,if_false,List.length_append,List.length_replicate]
                simp [digitsValue]; omega) hx
    · rw [if_neg hposn]
      refine ⟨d.digits,d.exponent,rfl,fun x hx => ?_⟩
      obtain ⟨sign,htext,hsign⟩ := exponentText_toList ((ds.length : ℤ) + d.exponent - 1) layout.exponentPlus
      have hk := signed_natAbs ((ds.length : ℤ) + d.exponent - 1)
      have hexpDs : ∀ c ∈ Nat.toDigits 10 ((ds.length : ℤ) + d.exponent - 1).natAbs, c.isDigit = true :=
        fun c hc => isDigit_of_mem_toDigits hc
      have hmark := readExponentPart_mark _ hsign hexpDs Nat.toDigits_ne_nil hr
      rw [String.toList_append,String.toList_append,htext]
      have hL : 1 ≤ ds.length := List.length_pos_iff.mpr hne
      by_cases h1 : ds.length = 1
      · rw [if_pos h1,show (String.ofList ds).toList ++ "e".toList ++
            (sign ++ Nat.toDigits 10 ((ds.length : ℤ) + d.exponent - 1).natAbs) ++ rest =
            ds ++ ('e' :: sign ++ Nat.toDigits 10 ((ds.length : ℤ) + d.exponent - 1).natAbs ++ rest) by simp,
          ← List.append_assoc]
        exact readNumber_of_parts loose d.negative hds hne (by omega) (by simp)
          (readFraction_none (by simp)) (by simp) hmark (fun _ => Nat.toDigits_ne_nil) (Or.inr rfl)
          (by rw [List.append_nil,hval]) (by rw [hk]; simp; omega) hx
      · rw [if_neg h1,show (String.ofList (List.take 1 ds) ++ "." ++ String.ofList (List.drop 1 ds)).toList ++
            "e".toList ++ (sign ++ Nat.toDigits 10 ((ds.length : ℤ) + d.exponent - 1).natAbs) ++ rest =
            List.take 1 ds ++ ('.' :: List.drop 1 ds ++
              ('e' :: sign ++ Nat.toDigits 10 ((ds.length : ℤ) + d.exponent - 1).natAbs ++ rest)) by simp,
          ← List.append_assoc]
        exact readNumber_of_parts loose d.negative (fun c hc => hds c (List.mem_of_mem_take hc))
          (by simp [hne]) (by simp) (by simp)
          (readFraction_point (fun c hc => hds c (List.mem_of_mem_drop hc)) (by simp))
          (fun _ => by simp only [ne_eq,List.drop_eq_nil_iff,not_le]; omega) hmark
          (fun _ => Nat.toDigits_ne_nil) (Or.inl rfl) (by rw [List.take_append_drop,hval])
          (by rw [hk]; simp; omega) hx

theorem readNumber_intText (loose : Bool) {n : ℤ} (hlo : -((Nat.pow 2 63 : Nat) : ℤ) ≤ n)
    (hhi : n < ((Nat.pow 2 64 : Nat) : ℤ)) {rest : List Char} (hrest : EndsNumber rest) :
    readNumber loose ((Json.intText n).toList ++ rest) = .ok (.int n,rest) := by
  have hr : ∀ c ∈ rest.head?, c.isDigit = false := fun c hc => (hrest c hc).1
  have hds : ∀ c ∈ Nat.toDigits 10 n.natAbs, c.isDigit = true := fun c hc => isDigit_of_mem_toDigits hc
  have htext : (Json.intText n).toList ++ rest =
      (if decide (n < 0) then ['-'] else []) ++ Nat.toDigits 10 n.natAbs ++ rest := by
    unfold Json.intText
    split <;> simp [*]
  obtain ⟨d,ds,hdd⟩ := List.exists_cons_of_ne_nil (Nat.toDigits_ne_nil (n := n.natAbs) (b := 10))
  rw [htext]
  unfold readNumber
  rw [List.append_assoc,hdd,List.cons_append,readSign_signed _ (hds d (by simp [hdd]))]
  dsimp only
  rw [← List.cons_append,← hdd,readDigits_append hds hr]
  dsimp only
  rw [readFraction_none (fun c hc => (hrest c hc).2.1)]
  dsimp only
  rw [readExponentPart_none (fun c hc => (hrest c hc).2.2)]
  dsimp only
  have hlead : ¬((Nat.toDigits 10 n.natAbs).length > 1 ∧ (Nat.toDigits 10 n.natAbs).head? = some '0') := by
    rintro ⟨hl,hh⟩
    rcases Nat.eq_zero_or_pos n.natAbs with h0 | hpos
    · rw [h0] at hl
      simp at hl
    · exact toDigits_head_ne_zero hpos hh
  have hne : (Nat.toDigits 10 n.natAbs).isEmpty = false := by rw [hdd]; rfl
  simp only [List.append_nil,digitsValue_toDigits,hne,Bool.false_eq_true,if_false,if_neg hlead,false_and,
    Bool.not_false,and_self,if_true,int64Bound]
  by_cases hn : n < 0
  · simp only [hn,decide_true,Bool.not_true,Bool.false_eq_true,false_and,if_false,true_and]
    rw [if_pos ⟨by omega,by omega⟩,show -(n.natAbs : ℤ) = n by omega]
  · simp only [hn,decide_false,Bool.not_false,true_and]
    rw [if_pos (by omega),show (n.natAbs : ℤ) = n by omega]

theorem render_head (layout : DecimalLayout) (d : Decimal) :
    ∃ c cs, (d.render layout).toList = c :: cs ∧ (c = '-' ∨ c.isDigit = true) := by
  unfold Decimal.render
  dsimp only
  rw [String.toList_append]
  cases hneg : d.negative
  · obtain ⟨c,cs,hdd⟩ := List.exists_cons_of_ne_nil (Nat.toDigits_ne_nil (n := d.digits) (b := 10))
    have hc : c.isDigit = true := isDigit_of_mem_toDigits (by rw [hdd]; simp)
    by_cases h0 : d.digits = 0
    · simp only [h0,if_true]
      by_cases hpz : layout.pointZero = true <;> simp [hpz]
    · simp only [h0,if_false,hdd,String.length_ofList,Bool.false_eq_true,String.toList_empty,
        List.nil_append]
      by_cases hposn : layout.positionalFrom < ((c :: cs).length : ℤ) + d.exponent ∧
          ((c :: cs).length : ℤ) + d.exponent ≤ layout.positionalTo
      · rw [if_pos hposn]
        by_cases hexp : 0 ≤ d.exponent
        · rw [if_pos hexp]
          simp [hc]
        · rw [if_neg hexp]
          by_cases hpt : 0 < ((c :: cs).length : ℤ) + d.exponent
          · rw [if_pos hpt]
            obtain ⟨p,hp⟩ : ∃ p, (((c :: cs).length : ℤ) + d.exponent).toNat = p + 1 :=
              ⟨(((c :: cs).length : ℤ) + d.exponent).toNat - 1,by omega⟩
            rw [hp]
            simp [hc]
          · rw [if_neg hpt]
            simp
      · rw [if_neg hposn]
        by_cases h1 : (c :: cs).length = 1
        · rw [if_pos h1]
          simp [hc]
        · rw [if_neg h1]
          simp [hc]
  · simp only [if_true]
    exact ⟨'-',_,rfl,Or.inl rfl⟩

theorem readNumber_doubleText (loose : Bool) {x : Binary64} (hx : x.isFinite = true) {rest : List Char}
    (hrest : EndsNumber rest) :
    ∃ d, readNumber loose ((Json.doubleText x).toList ++ rest) = .ok (.decimal d x,rest) := by
  obtain ⟨d,hd⟩ := Binary64.shortest?_of_isFinite hx .even
  obtain ⟨c,k,hv,hread⟩ := readNumber_render loose Json.doubleLayout rfl d hrest
  refine ⟨⟨d.negative,c,k⟩,?_⟩
  rw [Json.doubleText,hd]
  exact hread x (Binary64.shortest?_reads_back x .even hd hv)

theorem readNumber_singleText (loose : Bool) {x : Binary32} (hx : x.isFinite = true) {rest : List Char}
    (hrest : EndsNumber rest) :
    ∃ d y, readNumber loose ((Json.singleText x).toList ++ rest) = .ok (.decimal d y,rest) ∧
      Binary32.ofDecimal? d.negative d.digits d.exponent = some x := by
  obtain ⟨d,hd⟩ := Binary32.shortest?_of_isFinite hx .even
  obtain ⟨c,k,hv,hread⟩ := readNumber_render loose Json.singleLayout rfl d hrest
  have hlt : (c : ℚ) * 10 ^ k < 2 ^ (1023 : ℤ) := by
    rw [hv]
    calc (d.digits : ℚ) * 10 ^ d.exponent < 2 ^ (128 : ℤ) := Binary32.shortest?_lt x .even hd
      _ ≤ 2 ^ (1023 : ℤ) := zpow_le_zpow_right₀ (by norm_num) (by norm_num)
  obtain ⟨y,hy⟩ := Option.isSome_iff_exists.mp (Binary64.ofDecimal?_isSome_of_lt d.negative hlt)
  refine ⟨⟨d.negative,c,k⟩,y,?_,Binary32.shortest?_reads_back x .even hd hv⟩
  rw [Json.singleText,hd]
  exact hread y hy

end Json.Reader

end Tickflow
