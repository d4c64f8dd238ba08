import Tickflow.Number.Decimal
import Mathlib
/-! # Rounding to a binary format

The ratios that round to a value `m * 2^q` form an interval around it (`RoundsTo`), and every
ratio in it rounds to `m * 2^q` (`roundRatio_eq_of_roundsTo`). `ofDecimal?_eq_of_roundsTo`
carries this to decimals read from text.
-/
namespace Tickflow

/-! ## Integer logarithms of ratios -/

theorem log_eq_of_bounds {b : Nat} (hb : 1 < b) {r : ℚ} {z : ℤ} (hlo : (b : ℚ) ^ z ≤ r)
    (hhi : r < (b : ℚ) ^ (z + 1)) : Int.log b r = z := by
  have hb0 : (0 : ℚ) < b := by exact_mod_cast (by omega : 0 < b)
  have hr : 0 < r := lt_of_lt_of_le (zpow_pos hb0 z) hlo
  have h1 : z ≤ Int.log b r := (Int.zpow_le_iff_le_log hb hr).mp hlo
  have h2 : Int.log b r < z + 1 := (Int.lt_zpow_iff_log_lt hb hr).mp hhi
  omega

theorem two_zpow_log2_le {n : Nat} (hn : 0 < n) : (2 : ℚ) ^ (n.log2 : ℤ) ≤ n := by
  rw [zpow_natCast]
  exact_mod_cast Nat.log2_self_le (by omega)

theorem lt_two_zpow_log2_succ (n : Nat) : (n : ℚ) < 2 ^ ((n.log2 : ℤ) + 1) := by
  rw [show (n.log2 : ℤ) + 1 = ((n.log2 + 1 : Nat) : ℤ) by push_cast; rfl,zpow_natCast]
  exact_mod_cast Nat.lt_log2_self

theorem ratio_between_zpow {b : ℚ} (hb : 0 < b) {num den : Nat} {a c : ℤ} (hn1 : b ^ a ≤ num)
    (hn2 : (num : ℚ) < b ^ (a + 1)) (hd1 : b ^ c ≤ den) (hd2 : (den : ℚ) < b ^ (c + 1)) :
    b ^ (a - c - 1) < (num : ℚ) / den ∧ (num : ℚ) / den < b ^ (a - c + 1) := by
  have hdq : (0 : ℚ) < den := lt_of_lt_of_le (zpow_pos hb c) hd1
  constructor
  · rw [lt_div_iff₀ hdq]
    calc b ^ (a - c - 1) * den < b ^ (a - c - 1) * b ^ (c + 1) := by gcongr
      _ = b ^ a := by rw [← zpow_add₀ hb.ne']; ring_nf
      _ ≤ num := hn1
  · rw [div_lt_iff₀ hdq]
    calc (num : ℚ) < b ^ (a + 1) := hn2
      _ = b ^ (a - c + 1) * b ^ c := by rw [← zpow_add₀ hb.ne']; ring_nf
      _ ≤ b ^ (a - c + 1) * den := by gcongr

theorem ratio_between_log2 {num den : Nat} (hn : 0 < num) (hd : 0 < den) :
    (2 : ℚ) ^ ((num.log2 : ℤ) - den.log2 - 1) < (num : ℚ) / den ∧
      (num : ℚ) / den < 2 ^ ((num.log2 : ℤ) - den.log2 + 1) :=
  ratio_between_zpow (by norm_num) (two_zpow_log2_le hn) (lt_two_zpow_log2_succ num)
    (two_zpow_log2_le hd) (lt_two_zpow_log2_succ den)

theorem scaled_le_iff {base : Nat} (hbase : 0 < base) {num den : Nat} (hd : 0 < den) (b : ℤ) :
    ((if 0 ≤ b then (num,den * Nat.pow base b.toNat) else (num * Nat.pow base (-b).toNat,den)).2 ≤
      (if 0 ≤ b then (num,den * Nat.pow base b.toNat) else (num * Nat.pow base (-b).toNat,den)).1) ↔
      (base : ℚ) ^ b ≤ (num : ℚ) / den := by
  have hdq : (0 : ℚ) < den := by exact_mod_cast hd
  rw [le_div_iff₀ hdq]
  by_cases hb : 0 ≤ b
  · obtain ⟨n,rfl⟩ := Int.eq_ofNat_of_zero_le hb
    simp only [if_pos hb,Int.toNat_natCast,Nat.pow_eq,zpow_natCast]
    rw [mul_comm]
    exact_mod_cast Iff.rfl
  · obtain ⟨n,hn⟩ : ∃ n : Nat, b = -(n : ℤ) := ⟨(-b).toNat,by omega⟩
    subst hn
    simp only [if_neg hb,neg_neg,Int.toNat_natCast,Nat.pow_eq,zpow_neg,zpow_natCast]
    have : (0 : ℚ) < base := by exact_mod_cast hbase
    rw [← div_eq_inv_mul,div_le_iff₀ (by positivity)]
    exact_mod_cast Iff.rfl

theorem floorLog2Ratio_eq_log {num den : Nat} (hn : 0 < num) (hd : 0 < den) :
    floorLog2Ratio num den = Int.log 2 ((num : ℚ) / den) := by
  obtain ⟨hlo,hhi⟩ := ratio_between_log2 hn hd
  unfold floorLog2Ratio
  dsimp only
  simp only [scaled_le_iff two_pos hd]
  split
  · rename_i h
    exact (log_eq_of_bounds (by norm_num) (by exact_mod_cast h) (by exact_mod_cast hhi)).symm
  · rename_i h
    rw [not_le] at h
    exact (log_eq_of_bounds (by norm_num) (by exact_mod_cast hlo.le)
      (by rw [sub_add_cancel]; exact_mod_cast h)).symm

/-! ## Rounding half to even -/

theorem roundHalfEven_eq {num den m : Nat} (hd : 0 < den)
    (hlo : 2 * (m * den) ≤ 2 * num + den) (hhi : 2 * num ≤ 2 * (m * den) + den)
    (htie : 2 * (m * den) = 2 * num + den ∨ 2 * num = 2 * (m * den) + den → m % 2 = 0) :
    roundHalfEven num den = m := by
  have hsplit : num / den * den + num % den = num := Nat.div_add_mod' num den
  have hr : num % den < den := Nat.mod_lt num hd
  have hq1 : num / den ≤ m := by
    have : num < (m + 1) * den := by rw [Nat.add_mul,Nat.one_mul]; omega
    exact Nat.lt_succ_iff.mp ((Nat.div_lt_iff_lt_mul hd).mpr this)
  have hq2 : m ≤ num / den + 1 := by
    rcases m with _ | m
    · exact Nat.zero_le _
    · have : m * den ≤ num := by rw [Nat.add_mul,Nat.one_mul] at hlo; omega
      have := (Nat.le_div_iff_mul_le hd).mpr this
      omega
  unfold roundHalfEven
  dsimp only
  rcases Nat.eq_or_lt_of_le hq1 with hq | hq
  · rw [hq] at hsplit ⊢
    rw [if_neg]
    rintro (h | ⟨h,hodd⟩)
    · omega
    · have := htie (Or.inr (by omega))
      omega
  · have hm : m = num / den + 1 := by omega
    rw [hm,Nat.add_mul,Nat.one_mul] at hlo htie
    rw [hm,if_pos]
    by_cases h : 2 * (num % den) = den
    · have := htie (Or.inl (by omega))
      exact Or.inr ⟨h,by omega⟩
    · exact Or.inl (by omega)

/-- `x` lies within a half of `s`, and `s` is even when `x` is exactly a half away: rounding
`x` half to even gives `s`. -/
def NearHalf (x : ℚ) (s : Nat) : Prop :=
  (s : ℚ) - 1 / 2 ≤ x ∧ x ≤ s + 1 / 2 ∧ (x = s - 1 / 2 ∨ x = s + 1 / 2 → s % 2 = 0)

theorem roundHalfEven_eq_of_nearHalf {num den s : Nat} (hd : 0 < den)
    (h : NearHalf ((num : ℚ) / den) s) : roundHalfEven num den = s := by
  obtain ⟨hlo,hhi,htie⟩ := h
  have hdq : (0 : ℚ) < den := by exact_mod_cast hd
  have hdiv : (num : ℚ) / den * den = num := div_mul_cancel₀ _ hdq.ne'
  refine roundHalfEven_eq hd ?_ ?_ fun h => htie ?_
  · have : ((s : ℚ) - 1 / 2) * den ≤ (num : ℚ) / den * den := mul_le_mul_of_nonneg_right hlo hdq.le
    have : ((2 * (s * den) : Nat) : ℚ) ≤ ((2 * num + den : Nat) : ℚ) := by push_cast; linarith
    exact_mod_cast this
  · have : (num : ℚ) / den * den ≤ ((s : ℚ) + 1 / 2) * den := mul_le_mul_of_nonneg_right hhi hdq.le
    have : ((2 * num : Nat) : ℚ) ≤ ((2 * (s * den) + den : Nat) : ℚ) := by push_cast; linarith
    exact_mod_cast this
  · rcases h with h | h
    · left
      have h' : ((2 * (s * den) : Nat) : ℚ) = ((2 * num + den : Nat) : ℚ) := by exact_mod_cast h
      push_cast at h'
      field_simp
      linarith
    · right
      have h' : ((2 * num : Nat) : ℚ) = ((2 * (s * den) + den : Nat) : ℚ) := by exact_mod_cast h
      push_cast at h'
      field_simp
      linarith

theorem scaled_div (num : Nat) {den : Nat} (hd : 0 < den) (e : ℤ) :
    0 < (if 0 ≤ e then (num,den * Nat.pow 2 e.toNat) else (num * Nat.pow 2 (-e).toNat,den)).2 ∧
      (((if 0 ≤ e then (num,den * Nat.pow 2 e.toNat) else (num * Nat.pow 2 (-e).toNat,den)).1 : ℚ) /
        (if 0 ≤ e then (num,den * Nat.pow 2 e.toNat) else (num * Nat.pow 2 (-e).toNat,den)).2 =
        (num : ℚ) / den / 2 ^ e) := by
  by_cases he : 0 ≤ e
  · obtain ⟨n,rfl⟩ := Int.eq_ofNat_of_zero_le he
    simp only [if_pos he,Int.toNat_natCast,Nat.pow_eq,zpow_natCast]
    refine ⟨by positivity,?_⟩
    push_cast
    rw [div_div]
  · obtain ⟨n,hn⟩ : ∃ n : Nat, e = -(n : ℤ) := ⟨(-e).toNat,by omega⟩
    subst hn
    simp only [if_neg he,neg_neg,Int.toNat_natCast,Nat.pow_eq,zpow_neg,zpow_natCast]
    refine ⟨hd,?_⟩
    push_cast
    rw [div_inv_eq_mul,mul_div_right_comm]

/-! ## The rounding interval -/

namespace BinaryFormat

/-- `m * 2^q` is a nonzero finite value of the format: a significand below `2^p`, normal
unless the exponent is the least one, and an exponent in range. -/
structure Represents (f : BinaryFormat) (m : Nat) (q : ℤ) : Prop where
  pos : 0 < m
  lt_pow : m < 2 ^ f.precision
  normal : 2 ^ f.fractionBits ≤ m ∨ q = f.minQuantum
  min_le : f.minQuantum ≤ q
  le_max : q ≤ f.maxQuantum

/-- The lower end of the rationals that round to `m * 2^q`: a quarter of the last place below
at the least significand of a binade above the least exponent, where the value below lies half
as far, and half of it below elsewhere. -/
def lowerEnd (f : BinaryFormat) (m : Nat) (q : ℤ) : ℚ :=
  (if m = 2 ^ f.fractionBits ∧ f.minQuantum < q then (m : ℚ) - 1 / 4 else (m : ℚ) - 1 / 2) * 2 ^ q

/-- The upper end of the rationals that round to `m * 2^q`: half a unit of its last place
above. -/
def upperEnd (m : Nat) (q : ℤ) : ℚ := ((m : ℚ) + 1 / 2) * 2 ^ q

/-- The rationals that round to `m * 2^q`: strictly between the two ends, or at an end when
`m` is even. -/
def RoundsTo (f : BinaryFormat) (m : Nat) (q : ℤ) (r : ℚ) : Prop :=
  (f.lowerEnd m q < r ∧ r < upperEnd m q) ∨ (m % 2 = 0 ∧ (r = f.lowerEnd m q ∨ r = upperEnd m q))

instance (f : BinaryFormat) (m : Nat) (q : ℤ) (r : ℚ) : Decidable (f.RoundsTo m q r) :=
  inferInstanceAs (Decidable ((f.lowerEnd m q < r ∧ r < upperEnd m q) ∨
    (m % 2 = 0 ∧ (r = f.lowerEnd m q ∨ r = upperEnd m q))))

variable {f : BinaryFormat} {m : Nat} {q : ℤ} {r : ℚ}

theorem RoundsTo.lowerEnd_le (h : f.RoundsTo m q r) : f.lowerEnd m q ≤ r := by
  rcases h with ⟨h,-⟩ | ⟨-,h | h⟩
  · exact h.le
  · exact h.ge
  · rw [h,lowerEnd,upperEnd]
    gcongr
    split <;> linarith

theorem RoundsTo.le_upperEnd (h : f.RoundsTo m q r) : r ≤ upperEnd m q := by
  rcases h with ⟨-,h⟩ | ⟨-,h | h⟩
  · exact h.le
  · rw [h,lowerEnd,upperEnd]
    gcongr
    split <;> linarith
  · exact h.le

theorem RoundsTo.even_of_end (h : f.RoundsTo m q r) (he : r = f.lowerEnd m q ∨ r = upperEnd m q) :
    m % 2 = 0 := by
  rcases h with ⟨h1,h2⟩ | ⟨h,-⟩
  · rcases he with rfl | rfl
    · exact absurd h1 (lt_irrefl _)
    · exact absurd h2 (lt_irrefl _)
  · exact h

theorem RoundsTo.nearHalf (h : f.RoundsTo m q r) : NearHalf (r / 2 ^ q) m := by
  have hp : (0 : ℚ) < 2 ^ q := zpow_pos (by norm_num) q
  have hlo := h.lowerEnd_le
  have hhi := h.le_upperEnd
  have hlow : ((m : ℚ) - 1 / 2) * 2 ^ q ≤ f.lowerEnd m q := by
    rw [lowerEnd]
    gcongr
    split <;> linarith
  refine ⟨?_,?_,fun ht => h.even_of_end ?_⟩
  · rw [le_div_iff₀ hp]
    linarith
  · rw [div_le_iff₀ hp]
    exact hhi
  · rcases ht with ht | ht
    · left
      rw [div_eq_iff hp.ne'] at ht
      linarith
    · right
      rw [div_eq_iff hp.ne'] at ht
      rw [ht,upperEnd]

theorem two_zpow_natCast_add (a : Nat) (q : ℤ) : (2 : ℚ) ^ ((a : ℤ) + q) = 2 ^ a * 2 ^ q := by
  rw [zpow_add₀ (by norm_num),zpow_natCast]

theorem RoundsTo.pick (hp : 2 ≤ f.precision) (hm : f.Represents m q) (hr : f.RoundsTo m q r)
    (hpos : 0 < r) :
    (max (Int.log 2 r - f.fractionBits) f.minQuantum = q ∧ NearHalf (r / 2 ^ q) m) ∨
      (m = 2 ^ f.fractionBits ∧ max (Int.log 2 r - f.fractionBits) f.minQuantum = q - 1 ∧
        NearHalf (r / 2 ^ (q - 1)) (2 ^ f.precision)) := by
  have hq : (0 : ℚ) < 2 ^ q := zpow_pos (by norm_num) q
  have hfb : f.precision = f.fractionBits + 1 := by unfold fractionBits; omega
  have hfb1 : 1 ≤ f.fractionBits := by unfold fractionBits; omega
  have hnear := hr.nearHalf
  have hr2 : r = r / 2 ^ q * 2 ^ q := (div_mul_cancel₀ r hq.ne').symm
  set u := r / 2 ^ q with hu
  have hm1 : (m : ℚ) + 1 ≤ 2 ^ f.precision := by exact_mod_cast hm.lt_pow
  have hpow : (2 : ℚ) ^ f.precision = 2 * 2 ^ f.fractionBits := by rw [hfb,pow_succ]; ring
  have hu_lt : u < 2 * 2 ^ f.fractionBits := by linarith [hnear.2.1]
  by_cases hA : (2 : ℚ) ^ f.fractionBits ≤ u
  · left
    refine ⟨?_,hnear⟩
    have hlog : Int.log 2 r = f.fractionBits + q := by
      refine log_eq_of_bounds (by norm_num) ?_ ?_
      · rw [Nat.cast_ofNat,two_zpow_natCast_add,hr2]
        exact mul_le_mul_of_nonneg_right hA hq.le
      · rw [Nat.cast_ofNat,add_right_comm,← Nat.cast_succ,two_zpow_natCast_add,hr2,pow_succ]
        exact mul_lt_mul_of_pos_right (by linarith) hq
    rw [hlog]
    have := hm.min_le
    omega
  · rw [not_le] at hA
    by_cases hB : m = 2 ^ f.fractionBits ∧ f.minQuantum < q
    · right
      obtain ⟨hm2,hmin⟩ := hB
      have hlow : (m : ℚ) - 1 / 4 ≤ u := by
        have h1 := hr.lowerEnd_le
        rw [lowerEnd,if_pos ⟨hm2,hmin⟩,hr2] at h1
        exact le_of_mul_le_mul_right h1 hq
      have hm2' : (m : ℚ) = 2 ^ f.fractionBits := by exact_mod_cast hm2
      have hhalf : (2 : ℚ) ^ f.fractionBits = 2 * 2 ^ (f.fractionBits - 1) := by
        rw [← pow_succ']
        congr 1
        omega
      have hone : (1 : ℚ) ≤ 2 ^ (f.fractionBits - 1) := one_le_pow₀ (by norm_num)
      have hlog : Int.log 2 r = ((f.fractionBits - 1 : Nat) : ℤ) + q := by
        refine log_eq_of_bounds (by norm_num) ?_ ?_
        · rw [Nat.cast_ofNat,two_zpow_natCast_add,hr2]
          exact mul_le_mul_of_nonneg_right (by linarith) hq.le
        · rw [Nat.cast_ofNat,add_right_comm,← Nat.cast_succ,Nat.succ_eq_add_one,
            show f.fractionBits - 1 + 1 = f.fractionBits by omega,two_zpow_natCast_add,hr2]
          exact mul_lt_mul_of_pos_right hA hq
      refine ⟨hm2,?_,?_⟩
      · rw [hlog]
        omega
      · have h2u : r / 2 ^ (q - 1) = 2 * u := by
          rw [zpow_sub₀ (by norm_num),zpow_one,hu]
          field_simp
        rw [h2u]
        refine ⟨?_,?_,fun _ => ?_⟩
        · push_cast
          linarith
        · push_cast
          linarith
        · rw [hfb,Nat.pow_succ,Nat.mul_mod_left]
    · left
      have hqmin : q = f.minQuantum := by
        rcases hm.normal with hnorm | hmin
        · have hmle : (m : ℚ) < 2 ^ f.fractionBits + 1 := by linarith [hnear.1]
          have hmle' : m ≤ 2 ^ f.fractionBits := by
            have : m < 2 ^ f.fractionBits + 1 := by exact_mod_cast hmle
            omega
          have := hm.min_le
          by_contra hne
          exact hB ⟨le_antisymm hmle' hnorm,lt_of_le_of_ne this (Ne.symm hne)⟩
        · exact hmin
      refine ⟨?_,hnear⟩
      have hlog : Int.log 2 r < f.fractionBits + q := by
        refine (Int.lt_zpow_iff_log_lt (by norm_num) hpos).mp ?_
        rw [Nat.cast_ofNat,two_zpow_natCast_add,hr2]
        exact mul_lt_mul_of_pos_right hA hq
      omega

theorem roundRatio_eq_of_roundsTo (hp : 2 ≤ f.precision) (hm : f.Represents m q) {num den : Nat}
    (hn : 0 < num) (hd : 0 < den) (hr : f.RoundsTo m q ((num : ℚ) / den)) :
    f.roundRatio num den = some (m,q) := by
  have hpos : (0 : ℚ) < (num : ℚ) / den := by positivity
  unfold roundRatio
  rw [floorLog2Ratio_eq_log hn hd]
  dsimp only
  rcases hr.pick hp hm hpos with ⟨he,hs⟩ | ⟨hm2,he,hs⟩
  · obtain ⟨hpos',hdiv⟩ := scaled_div num hd q
    rw [he,roundHalfEven_eq_of_nearHalf hpos' (by rw [hdiv]; exact hs)]
    have hne : m ≠ Nat.pow 2 f.precision := by rw [Nat.pow_eq]; exact hm.lt_pow.ne
    simp only [if_neg hne,gt_iff_lt,if_neg (not_lt.mpr hm.le_max)]
  · obtain ⟨hpos',hdiv⟩ := scaled_div num hd (q - 1)
    rw [he,roundHalfEven_eq_of_nearHalf hpos' (by rw [hdiv]; exact hs)]
    simp only [Nat.pow_eq,if_pos,sub_add_cancel,gt_iff_lt,if_neg (not_lt.mpr hm.le_max),hm2]

end BinaryFormat

/-! ## Decimals -/

theorem pow_length_toDigits : ∀ c : Nat, 0 < c →
    10 ^ ((Nat.toDigits 10 c).length - 1) ≤ c ∧ c < 10 ^ (Nat.toDigits 10 c).length
  | c,hc => by
    by_cases h : c < 10
    · rw [Nat.toDigits_of_lt_base h]
      simp only [List.length_singleton,Nat.sub_self,pow_zero,pow_one]
      omega
    · have ih := pow_length_toDigits (c / 10) (by omega)
      rw [Nat.toDigits_of_base_le (by norm_num) (by omega),List.length_append,List.length_singleton,
        Nat.add_sub_cancel]
      set L := (Nat.toDigits 10 (c / 10)).length
      have hL : 1 ≤ L := Nat.length_toDigits_pos
      obtain ⟨h1,h2⟩ := ih
      have h1' : 10 ^ (L - 1) * 10 ≤ c := (Nat.le_div_iff_mul_le (by norm_num)).mp h1
      have h2' : c < 10 ^ L * 10 := (Nat.div_lt_iff_lt_mul (by norm_num)).mp h2
      rw [← pow_succ,show L - 1 + 1 = L by omega] at h1'
      exact ⟨h1',by rw [Nat.pow_succ]; exact h2'⟩
termination_by c => c
decreasing_by omega

theorem zpow_magnitude_bounds {c : Nat} (hc : 0 < c) (k : ℤ) :
    (10 : ℚ) ^ (k + (Nat.toDigits 10 c).length - 1) ≤ c * 10 ^ k ∧
      (c : ℚ) * 10 ^ k < 10 ^ (k + (Nat.toDigits 10 c).length) := by
  obtain ⟨h1,h2⟩ := pow_length_toDigits c hc
  have hL : 1 ≤ (Nat.toDigits 10 c).length := Nat.length_toDigits_pos
  have hk : (0 : ℚ) < 10 ^ k := zpow_pos (by norm_num) k
  have h1' : (10 : ℚ) ^ ((Nat.toDigits 10 c).length - 1) ≤ c := by exact_mod_cast h1
  have h2' : (c : ℚ) < 10 ^ (Nat.toDigits 10 c).length := by exact_mod_cast h2
  constructor
  · rw [add_sub_assoc,zpow_add₀ (by norm_num),mul_comm (c : ℚ)]
    rw [show ((Nat.toDigits 10 c).length : ℤ) - 1 = (((Nat.toDigits 10 c).length - 1 : Nat) : ℤ) by omega,
      zpow_natCast]
    exact mul_le_mul_of_nonneg_left h1' hk.le
  · rw [zpow_add₀ (by norm_num),zpow_natCast,mul_comm (c : ℚ)]
    exact mul_lt_mul_of_pos_left h2' hk

theorem pow_scaled_div {b : Nat} (hb : 0 < b) {c : Nat} (k : ℤ) :
    (0 < c → 0 < (if 0 ≤ k then (c * Nat.pow b k.toNat,1) else (c,Nat.pow b (-k).toNat)).1) ∧
    0 < (if 0 ≤ k then (c * Nat.pow b k.toNat,1) else (c,Nat.pow b (-k).toNat)).2 ∧
      (((if 0 ≤ k then (c * Nat.pow b k.toNat,1) else (c,Nat.pow b (-k).toNat)).1 : ℚ) /
        (if 0 ≤ k then (c * Nat.pow b k.toNat,1) else (c,Nat.pow b (-k).toNat)).2 = c * (b : ℚ) ^ k) := by
  by_cases hk : 0 ≤ k
  · obtain ⟨n,rfl⟩ := Int.eq_ofNat_of_zero_le hk
    simp only [if_pos hk,Int.toNat_natCast,Nat.pow_eq,zpow_natCast]
    refine ⟨fun hc => Nat.mul_pos hc (Nat.pow_pos hb),Nat.one_pos,?_⟩
    push_cast
    rw [div_one]
  · obtain ⟨n,hn⟩ : ∃ n : Nat, k = -(n : ℤ) := ⟨(-k).toNat,by omega⟩
    subst hn
    simp only [if_neg hk,neg_neg,Int.toNat_natCast,Nat.pow_eq,zpow_neg,zpow_natCast]
    refine ⟨id,Nat.pow_pos hb,?_⟩
    push_cast
    rw [div_eq_mul_inv]

namespace BinaryFormat

variable {f : BinaryFormat} {m : Nat} {q : ℤ}

theorem RoundsTo.bounds (hm : f.Represents m q) {r : ℚ} (hr : f.RoundsTo m q r) :
    (2 : ℚ) ^ (q - 1) ≤ r ∧ r < 2 ^ ((f.precision : ℤ) + q) := by
  have hq : (0 : ℚ) < 2 ^ q := zpow_pos (by norm_num) q
  have hm1 : (1 : ℚ) ≤ m := by exact_mod_cast hm.pos
  have hm2 : (m : ℚ) + 1 ≤ 2 ^ f.precision := by exact_mod_cast hm.lt_pow
  constructor
  · calc (2 : ℚ) ^ (q - 1) = (1 / 2) * 2 ^ q := by rw [zpow_sub₀ (by norm_num),zpow_one]; ring
      _ ≤ ((m : ℚ) - 1 / 2) * 2 ^ q := by gcongr; linarith
      _ ≤ f.lowerEnd m q := by
        rw [lowerEnd]
        gcongr
        split <;> linarith
      _ ≤ r := hr.lowerEnd_le
  · calc r ≤ upperEnd m q := hr.le_upperEnd
      _ < 2 ^ f.precision * 2 ^ q := by
        rw [upperEnd]
        exact mul_lt_mul_of_pos_right (by linarith) hq
      _ = 2 ^ ((f.precision : ℤ) + q) := (two_zpow_natCast_add _ _).symm

/-- A decimal that rounds to `m * 2^q` reads as the bits of `±m * 2^q`, in a format whose
values lie between `10^-401` and `10^400`. -/
theorem ofDecimal?_eq_of_roundsTo (hp : 2 ≤ f.precision) (hm : f.Represents m q)
    (hbig : (2 : ℚ) ^ ((f.precision : ℤ) + f.maxQuantum) ≤ 10 ^ (400 : ℤ))
    (hsmall : (10 : ℚ) ^ (-401 : ℤ) ≤ 2 ^ (f.minQuantum - 1))
    (neg : Bool) {c : Nat} {k : ℤ} (hc : 0 < c) (hr : f.RoundsTo m q ((c : ℚ) * 10 ^ k)) :
    f.ofDecimal? neg c k = some (f.encodeFinite neg m q) := by
  obtain ⟨hlo,hhi⟩ := hr.bounds hm
  obtain ⟨hmag1,hmag2⟩ := zpow_magnitude_bounds hc k
  have hmax : k + ((Nat.toDigits 10 c).length : ℤ) ≤ 400 := by
    have : (10 : ℚ) ^ (k + (Nat.toDigits 10 c).length - 1) < 10 ^ (400 : ℤ) :=
      calc (10 : ℚ) ^ (k + (Nat.toDigits 10 c).length - 1) ≤ c * 10 ^ k := hmag1
        _ < 2 ^ ((f.precision : ℤ) + q) := hhi
        _ ≤ 2 ^ ((f.precision : ℤ) + f.maxQuantum) := zpow_le_zpow_right₀ (by norm_num) (by
            have := hm.le_max
            omega)
        _ ≤ 10 ^ (400 : ℤ) := hbig
    have := (zpow_lt_zpow_iff_right₀ (by norm_num : (1 : ℚ) < 10)).mp this
    omega
  have hmin : -400 ≤ k + ((Nat.toDigits 10 c).length : ℤ) := by
    have : (10 : ℚ) ^ (-401 : ℤ) < 10 ^ (k + (Nat.toDigits 10 c).length) :=
      calc (10 : ℚ) ^ (-401 : ℤ) ≤ 2 ^ (f.minQuantum - 1) := hsmall
        _ ≤ 2 ^ (q - 1) := zpow_le_zpow_right₀ (by norm_num) (by
            have := hm.min_le
            omega)
        _ ≤ c * 10 ^ k := hlo
        _ < 10 ^ (k + (Nat.toDigits 10 c).length) := hmag2
    have := (zpow_lt_zpow_iff_right₀ (by norm_num : (1 : ℚ) < 10)).mp this
    omega
  obtain ⟨hnum,hden,hdiv⟩ := pow_scaled_div (b := 10) (by norm_num) (c := c) k
  unfold ofDecimal?
  rw [if_neg hc.ne']
  dsimp only
  rw [if_neg (by omega),if_neg (by omega)]
  unfold ofRatio?
  rw [if_neg (hnum hc).ne',roundRatio_eq_of_roundsTo hp hm (hnum hc) hden (by rw [hdiv,Nat.cast_ofNat]; exact hr)]
  rfl

theorem roundRatio_isSome (hminmax : f.minQuantum < f.maxQuantum) {num den : Nat} (hn : 0 < num)
    (hd : 0 < den) (hlt : (num : ℚ) / den < 2 ^ (f.maxQuantum + f.fractionBits)) :
    (f.roundRatio num den).isSome := by
  have hpos : (0 : ℚ) < (num : ℚ) / den := by positivity
  have hlog : Int.log 2 ((num : ℚ) / den) < f.maxQuantum + f.fractionBits :=
    (Int.lt_zpow_iff_log_lt (by norm_num) hpos).mp (by exact_mod_cast hlt)
  unfold roundRatio
  rw [floorLog2Ratio_eq_log hn hd]
  dsimp only
  -- the exponent picked is below the greatest, so even a carry stays in range
  have hcarry : ∀ (c : Prop) [Decidable c] (a b : Nat),
      (if c then (a,max (Int.log 2 ((num : ℚ) / den) - f.fractionBits) f.minQuantum + 1)
        else (b,max (Int.log 2 ((num : ℚ) / den) - f.fractionBits) f.minQuantum)).2 ≤ f.maxQuantum := by
    intro c _ a b
    split <;> omega
  rw [if_neg (not_lt.mpr (hcarry _ _ _))]
  rfl

theorem ofDecimal?_isSome (hminmax : f.minQuantum < f.maxQuantum) (neg : Bool) {c : Nat} {k : ℤ}
    (hmag : k + ((Nat.toDigits 10 c).length : ℤ) ≤ 400)
    (hlt : (c : ℚ) * 10 ^ k < 2 ^ (f.maxQuantum + f.fractionBits)) :
    (f.ofDecimal? neg c k).isSome := by
  unfold ofDecimal?
  split
  · rfl
  · rename_i hc
    dsimp only
    rw [if_neg (by omega)]
    split
    · rfl
    · obtain ⟨hnum,hden,hdiv⟩ := pow_scaled_div (b := 10) (by norm_num) (c := c) k
      have hnum := hnum (Nat.pos_of_ne_zero hc)
      unfold ofRatio?
      rw [if_neg hnum.ne',Option.isSome_map]
      exact roundRatio_isSome hminmax hnum hden (by rw [hdiv,Nat.cast_ofNat]; exact hlt)

/-! ## Bit patterns -/

theorem bits_split (f : BinaryFormat) {bits : Nat}
    (hbits : bits < 2 ^ (1 + f.exponentBits + f.fractionBits)) :
    bits = bits / 2 ^ (f.fractionBits + f.exponentBits) * (2 ^ f.exponentBits * 2 ^ f.fractionBits) +
      bits / 2 ^ f.fractionBits % 2 ^ f.exponentBits * 2 ^ f.fractionBits + bits % 2 ^ f.fractionBits ∧
    bits / 2 ^ (f.fractionBits + f.exponentBits) < 2 := by
  have h1 := Nat.div_add_mod' bits (2 ^ f.fractionBits)
  have h2 := Nat.div_add_mod' (bits / 2 ^ f.fractionBits) (2 ^ f.exponentBits)
  have h3 : bits / 2 ^ f.fractionBits / 2 ^ f.exponentBits = bits / 2 ^ (f.fractionBits + f.exponentBits) := by
    rw [Nat.div_div_eq_div_mul,← pow_add]
  refine ⟨?_,?_⟩
  · rw [← h3]
    calc bits = (bits / 2 ^ f.fractionBits / 2 ^ f.exponentBits * 2 ^ f.exponentBits +
          bits / 2 ^ f.fractionBits % 2 ^ f.exponentBits) * 2 ^ f.fractionBits + bits % 2 ^ f.fractionBits := by
          rw [h2,h1]
      _ = _ := by ring
  · refine (Nat.div_lt_iff_lt_mul (by positivity)).mpr ?_
    calc bits < 2 ^ (1 + f.exponentBits + f.fractionBits) := hbits
      _ = 2 * 2 ^ (f.fractionBits + f.exponentBits) := by rw [← pow_succ']; congr 1; omega

theorem encodeFinite_decode (hp : 1 ≤ f.precision) (hw : 2 ≤ f.exponentBits) {bits : Nat}
    (hbits : bits < 2 ^ (1 + f.exponentBits + f.fractionBits)) {neg : Bool} {m : Nat} {q : ℤ}
    (h : f.decode bits = .finite neg m q) :
    (0 < m → f.Represents m q) ∧ f.encodeFinite neg m q = bits := by
  obtain ⟨hsplit,hsign⟩ := bits_split f hbits
  have hfb : f.precision = f.fractionBits + 1 := by unfold fractionBits; omega
  have hpow : 2 ^ f.precision = 2 * 2 ^ f.fractionBits := by rw [hfb,pow_succ']
  have hbias2 : 2 ≤ 2 ^ (f.exponentBits - 1) := by
    calc 2 = 2 ^ 1 := rfl
      _ ≤ 2 ^ (f.exponentBits - 1) := Nat.pow_le_pow_right (by norm_num) (by omega)
  have hbias : f.bias + 1 = 2 ^ (f.exponentBits - 1) := by
    simp only [bias,Nat.pow_eq]
    omega
  have hE2 : 2 ^ f.exponentBits = 2 * 2 ^ (f.exponentBits - 1) := by
    rw [← pow_succ']; congr 1; omega
  have hmin_le_max : f.minQuantum ≤ f.maxQuantum := by
    simp only [minQuantum,maxQuantum]
    omega
  have hbE : bits / 2 ^ f.fractionBits % 2 ^ f.exponentBits < 2 ^ f.exponentBits := Nat.mod_lt _ (by positivity)
  have hfrP : bits % 2 ^ f.fractionBits < 2 ^ f.fractionBits := Nat.mod_lt _ (by positivity)
  unfold decode at h
  simp only [Nat.pow_eq] at h
  generalize bits / 2 ^ (f.fractionBits + f.exponentBits) = s at *
  generalize bits / 2 ^ f.fractionBits % 2 ^ f.exponentBits = b at *
  generalize bits % 2 ^ f.fractionBits = fr at *
  have hsignterm : (if (s % 2 == 1) = true then 2 ^ (f.fractionBits + f.exponentBits) else 0) =
      s * (2 ^ f.exponentBits * 2 ^ f.fractionBits) := by
    rw [← pow_add,add_comm f.exponentBits]
    rcases (by omega : s = 0 ∨ s = 1) with rfl | rfl <;> simp
  split at h
  · split at h <;> cases h
  · split at h
    · rename_i hmax hzero
      cases h
      refine ⟨fun hm => ⟨hm,by omega,Or.inr rfl,le_refl _,hmin_le_max⟩,?_⟩
      unfold encodeFinite
      simp only [Nat.pow_eq]
      rw [if_pos hfrP,hsignterm]
      rw [hzero] at hsplit
      omega
    · rename_i hmax hzero
      cases h
      refine ⟨fun _ => ⟨by omega,by omega,Or.inl (by omega),?_,?_⟩,?_⟩
      · simp only [minQuantum]
        omega
      · simp only [maxQuantum]
        omega
      · unfold encodeFinite
        simp only [Nat.pow_eq]
        rw [if_neg (by omega),hsignterm]
        rw [show (b : ℤ) - (f.bias : ℤ) - (f.fractionBits : ℤ) - f.minQuantum + 1 = (b : ℤ) by
            simp only [minQuantum]; ring,Int.toNat_natCast]
        omega

end BinaryFormat

end Tickflow
