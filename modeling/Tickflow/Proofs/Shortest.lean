import Tickflow.Proofs.Rounding
/-! # Shortest digits read back

`shortestDigits` takes the first grid of significant digits with a neighbour in the value's
rounding interval (`shortestDigits_eq_search`), and the grid of seventeen always has one. So the
shortest digits, in any spelling, read back as the value's bits (`Printable.shortest?_reads_back`).
-/
namespace Tickflow

/-! ## Exact comparisons -/

theorem zpow_mul_pow_neg_toNat {x : ℚ} (hx : x ≠ 0) (k : ℤ) : x ^ k * x ^ (-k).toNat = x ^ k.toNat := by
  rw [← zpow_natCast,← zpow_natCast (n := k.toNat),← zpow_add₀ hx]
  congr 1
  omega

theorem compareScaled_eq (c : Nat) (k : ℤ) (x : Nat) (s : ℤ) :
    compareScaled c k x s = compare ((c : ℚ) * 10 ^ k) ((x : ℚ) * 2 ^ s) := by
  have hT : (0 : ℚ) < 10 ^ (-k).toNat * 2 ^ (-s).toNat := by positivity
  have hl : (((c * 10 ^ k.toNat * 2 ^ (-s).toNat : Nat)) : ℚ) =
      (c : ℚ) * 10 ^ k * (10 ^ (-k).toNat * 2 ^ (-s).toNat) := by
    push_cast
    rw [← zpow_mul_pow_neg_toNat (by norm_num) k]
    ring
  have hr : (((x * 10 ^ (-k).toNat * 2 ^ s.toNat : Nat)) : ℚ) =
      (x : ℚ) * 2 ^ s * (10 ^ (-k).toNat * 2 ^ (-s).toNat) := by
    push_cast
    rw [← zpow_mul_pow_neg_toNat (by norm_num) s]
    ring
  unfold compareScaled
  dsimp only
  simp only [Nat.pow_eq]
  rcases lt_trichotomy ((c : ℚ) * 10 ^ k) ((x : ℚ) * 2 ^ s) with h | h | h
  · rw [(compare_lt_iff_lt).mpr h,Nat.compare_eq_lt]
    have : ((c * 10 ^ k.toNat * 2 ^ (-s).toNat : Nat) : ℚ) < ((x * 10 ^ (-k).toNat * 2 ^ s.toNat : Nat) : ℚ) := by
      rw [hl,hr]
      exact mul_lt_mul_of_pos_right h hT
    exact_mod_cast this
  · rw [(compare_eq_iff_eq).mpr h,Nat.compare_eq_eq]
    have : ((c * 10 ^ k.toNat * 2 ^ (-s).toNat : Nat) : ℚ) = ((x * 10 ^ (-k).toNat * 2 ^ s.toNat : Nat) : ℚ) := by
      rw [hl,hr,h]
    exact_mod_cast this
  · rw [(compare_gt_iff_gt).mpr h,Nat.compare_eq_gt]
    have : ((x * 10 ^ (-k).toNat * 2 ^ s.toNat : Nat) : ℚ) < ((c * 10 ^ k.toNat * 2 ^ (-s).toNat : Nat) : ℚ) := by
      rw [hl,hr]
      exact mul_lt_mul_of_pos_right h hT
    exact_mod_cast this

theorem floorLog10Ratio_eq_log {num den : Nat} (hn : 0 < num) (hd : 0 < den) :
    floorLog10Ratio num den = Int.log 10 ((num : ℚ) / den) := by
  have hpow : ∀ {c : Nat}, 0 < c → (10 : ℚ) ^ (((Nat.toDigits 10 c).length : ℤ) - 1) ≤ c ∧
      (c : ℚ) < 10 ^ (((Nat.toDigits 10 c).length : ℤ) - 1 + 1) := by
    intro c hc
    obtain ⟨h1,h2⟩ := pow_length_toDigits c hc
    have hL : 1 ≤ (Nat.toDigits 10 c).length := Nat.length_toDigits_pos
    rw [sub_add_cancel,zpow_natCast,
      show ((Nat.toDigits 10 c).length : ℤ) - 1 = (((Nat.toDigits 10 c).length - 1 : Nat) : ℤ) by omega,
      zpow_natCast]
    exact ⟨by exact_mod_cast h1,by exact_mod_cast h2⟩
  obtain ⟨hn1,hn2⟩ := hpow hn
  obtain ⟨hd1,hd2⟩ := hpow hd
  obtain ⟨hlo,hhi⟩ := ratio_between_zpow (by norm_num) hn1 hn2 hd1 hd2
  unfold floorLog10Ratio
  dsimp only
  simp only [scaled_le_iff (by norm_num : 0 < 10) hd,Nat.cast_ofNat]
  split
  · rename_i h
    refine (log_eq_of_bounds (by norm_num) (by exact_mod_cast h) ?_).symm
    rw [show ((Nat.toDigits 10 num).length : ℤ) - (Nat.toDigits 10 den).length + 1 =
      ((Nat.toDigits 10 num).length : ℤ) - 1 - (((Nat.toDigits 10 den).length : ℤ) - 1) + 1 by ring]
    exact_mod_cast hhi
  · rename_i h
    rw [not_le] at h
    refine (log_eq_of_bounds (by norm_num) ?_ (by rw [sub_add_cancel]; exact_mod_cast h)).symm
    rw [show ((Nat.toDigits 10 num).length : ℤ) - (Nat.toDigits 10 den).length - 1 =
      ((Nat.toDigits 10 num).length : ℤ) - 1 - (((Nat.toDigits 10 den).length : ℤ) - 1) - 1 by ring]
    exact_mod_cast hlo.le

/-! ## The search over grids -/

/-- The value's lower neighbour `⌊(vn / vd) / 10^k⌋` on the grid of spacing `10^k`. -/
def gridFloor (vn vd : Nat) (k : ℤ) : Nat := vn * Nat.pow 10 (-k).toNat / (vd * Nat.pow 10 k.toNat)

/-- One of the two neighbours of `vn / vd` on the grid of spacing `10^k` passes the test. -/
def GridHit (inside : Nat → ℤ → Bool) (vn vd : Nat) (k : ℤ) : Prop :=
  inside (gridFloor vn vd k) k = true ∨ inside (gridFloor vn vd k + 1) k = true

theorem gridFloor_bounds (vn : Nat) {vd : Nat} (hd : 0 < vd) (k : ℤ) :
    (gridFloor vn vd k : ℚ) * 10 ^ k ≤ (vn : ℚ) / vd ∧
      (vn : ℚ) / vd < ((gridFloor vn vd k : ℚ) + 1) * 10 ^ k := by
  have hB : 0 < vd * Nat.pow 10 k.toNat := Nat.mul_pos hd (Nat.pow_pos (by norm_num))
  have h1 : gridFloor vn vd k * (vd * Nat.pow 10 k.toNat) ≤ vn * Nat.pow 10 (-k).toNat :=
    Nat.div_mul_le_self _ _
  have h2 : vn * Nat.pow 10 (-k).toNat < vd * Nat.pow 10 k.toNat * (gridFloor vn vd k + 1) :=
    Nat.lt_mul_div_succ _ hB
  simp only [Nat.pow_eq] at h1 h2
  have hP : (0 : ℚ) < 10 ^ (-k).toNat := by positivity
  have hvd : (0 : ℚ) < vd := by exact_mod_cast hd
  have hs := zpow_mul_pow_neg_toNat (x := (10 : ℚ)) (by norm_num) k
  constructor
  · rw [le_div_iff₀ hvd]
    refine le_of_mul_le_mul_right ?_ hP
    calc (gridFloor vn vd k : ℚ) * 10 ^ k * vd * 10 ^ (-k).toNat
        = ((gridFloor vn vd k * (vd * 10 ^ k.toNat) : Nat) : ℚ) := by push_cast; rw [← hs]; ring
      _ ≤ ((vn * 10 ^ (-k).toNat : Nat) : ℚ) := by exact_mod_cast h1
      _ = vn * 10 ^ (-k).toNat := by push_cast; ring
  · rw [div_lt_iff₀ hvd]
    refine lt_of_mul_lt_mul_right ?_ hP.le
    calc (vn : ℚ) * 10 ^ (-k).toNat = ((vn * 10 ^ (-k).toNat : Nat) : ℚ) := by push_cast; ring
      _ < ((vd * 10 ^ k.toNat * (gridFloor vn vd k + 1) : Nat) : ℚ) := by exact_mod_cast h2
      _ = ((gridFloor vn vd k : ℚ) + 1) * 10 ^ k * vd * 10 ^ (-k).toNat := by push_cast; rw [← hs]; ring

theorem search_inside {tie : Tie} {m : Nat} {q : ℤ} {inside : Nat → ℤ → Bool} {vn vd : Nat}
    {e : ℤ} : ∀ (fuel n : Nat), (∃ j < fuel, GridHit inside vn vd (e - ((n + j : Nat) : ℤ) + 1)) →
      inside (shortestDigits.search tie m q inside vn vd e fuel n).1
        (shortestDigits.search tie m q inside vn vd e fuel n).2 = true
  | 0, n, ⟨j, hj, _⟩ => absurd hj (Nat.not_lt_zero j)
  | fuel + 1, n, ⟨j, hj, hit⟩ => by
    rw [shortestDigits.search]
    split
    · split <;> (try split) <;> assumption
    · assumption
    · assumption
    · next h1 h2 =>
      apply search_inside fuel (n + 1)
      cases j with
      | zero =>
        simp only [GridHit,gridFloor,Nat.add_zero] at hit
        rcases hit with h | h
        · rw [h1] at h
          cases h
        · rw [h2] at h
          cases h
      | succ j => exact ⟨j,by omega,by rwa [show n + (j + 1) = n + 1 + j by omega] at hit⟩

/-! ## The interval test -/

namespace BinaryFormat

variable {f : BinaryFormat} {m : Nat} {q : ℤ}

theorem lowerEnd_eq_quarters (hm : 0 < m) :
    f.lowerEnd m q = (((if m = Nat.pow 2 f.fractionBits ∧ q > f.minQuantum then 4 * m - 1
      else 4 * m - 2 : Nat)) : ℚ) * 2 ^ (q - 2) := by
  have hq : (2 : ℚ) ^ (q - 2) = 2 ^ q / 4 := by
    rw [zpow_sub₀ (by norm_num)]
    norm_num
  simp only [lowerEnd,hq,Nat.pow_eq,gt_iff_lt]
  split <;>
    (rw [Nat.cast_sub (by omega)]
     push_cast
     ring)

theorem upperEnd_eq_quarters : upperEnd m q = ((4 * m + 2 : Nat) : ℚ) * 2 ^ (q - 2) := by
  rw [upperEnd,zpow_sub₀ (by norm_num)]
  push_cast
  ring

theorem lowerEnd_lt_value : f.lowerEnd m q < (m : ℚ) * 2 ^ q := by
  rw [lowerEnd]
  have : (0 : ℚ) < 2 ^ q := zpow_pos (by norm_num) q
  gcongr
  split <;> linarith

theorem value_lt_upperEnd : (m : ℚ) * 2 ^ q < upperEnd m q := by
  rw [upperEnd]
  have : (0 : ℚ) < 2 ^ q := zpow_pos (by norm_num) q
  gcongr
  linarith

theorem shortestDigits_eq_search (hm : 0 < m) (tie : Tie) : shortestDigits f tie m q =
    shortestDigits.search tie m q (fun c k => decide (f.RoundsTo m q ((c : ℚ) * 10 ^ k)))
      (scaleByTwo m q).1 (scaleByTwo m q).2 (floorLog10Ratio (scaleByTwo m q).1 (scaleByTwo m q).2) 17 1 := by
  unfold shortestDigits
  cases scaleByTwo m q with
  | mk vn vd =>
    dsimp only
    congr 1
    funext c k
    rw [compareScaled_eq,compareScaled_eq,← lowerEnd_eq_quarters hm,← upperEnd_eq_quarters]
    have hLU : f.lowerEnd m q < upperEnd m q := lowerEnd_lt_value.trans value_lt_upperEnd
    rcases lt_trichotomy ((c : ℚ) * 10 ^ k) (f.lowerEnd m q) with h1 | h1 | h1
    · rw [compare_lt_iff_lt.mpr h1]
      exact (decide_eq_false fun h => absurd h.lowerEnd_le (not_le.mpr h1)).symm
    · rw [compare_eq_iff_eq.mpr h1,compare_lt_iff_lt.mpr (by rw [h1]; exact hLU)]
      exact decide_eq_decide.mpr ⟨fun he => Or.inr ⟨he,Or.inl h1⟩,fun h => h.even_of_end (Or.inl h1)⟩
    · rcases lt_trichotomy ((c : ℚ) * 10 ^ k) (upperEnd m q) with h2 | h2 | h2
      · rw [compare_gt_iff_gt.mpr h1,compare_lt_iff_lt.mpr h2]
        exact (decide_eq_true (Or.inl ⟨h1,h2⟩)).symm
      · rw [compare_gt_iff_gt.mpr h1,compare_eq_iff_eq.mpr h2]
        exact decide_eq_decide.mpr ⟨fun he => Or.inr ⟨he,Or.inr h2⟩,fun h => h.even_of_end (Or.inr h2)⟩
      · rw [compare_gt_iff_gt.mpr h1,compare_gt_iff_gt.mpr h2]
        exact (decide_eq_false fun h => absurd h.le_upperEnd (not_le.mpr h2)).symm
theorem RoundsTo.neighbour {g : ℚ} (hw : g < upperEnd m q - f.lowerEnd m q) {c : Nat}
    (hc1 : (c : ℚ) * g ≤ m * 2 ^ q) (hc2 : (m : ℚ) * 2 ^ q < (c + 1) * g) :
    f.RoundsTo m q (c * g) ∨ f.RoundsTo m q ((c + 1) * g) := by
  have hlo := lowerEnd_lt_value (f := f) (m := m) (q := q)
  have hhi := value_lt_upperEnd (m := m) (q := q)
  by_cases h : f.lowerEnd m q < c * g
  · exact Or.inl (Or.inl ⟨h,by linarith⟩)
  · right
    left
    constructor
    · linarith
    · rw [not_lt] at h
      linarith

theorem spacing_lt_width (h16 : 2 ^ f.precision ≤ 10 ^ 16) (hm : f.Represents m q) {k : ℤ}
    (hk : (10 : ℚ) ^ (k + 16) ≤ m * 2 ^ q) : (10 : ℚ) ^ k < upperEnd m q - f.lowerEnd m q := by
  have hq : (0 : ℚ) < 2 ^ q := zpow_pos (by norm_num) q
  have hT : (0 : ℚ) < 10 ^ k := zpow_pos (by norm_num) k
  have hk' : (10 : ℚ) ^ k * 10 ^ 16 ≤ m * 2 ^ q := by
    rw [← zpow_natCast,← zpow_add₀ (by norm_num)]
    exact_mod_cast hk
  have h16' : (2 : ℚ) ^ f.precision ≤ 10 ^ 16 := by exact_mod_cast h16
  have hfb : f.precision = f.fractionBits + 1 := by
    have h1 := hm.pos
    have h2 := hm.lt_pow
    unfold fractionBits
    rcases Nat.eq_zero_or_pos f.precision with h | h
    · rw [h,pow_zero] at h2
      omega
    · omega
  rw [upperEnd,lowerEnd]
  split
  · rename_i hb
    have hm' : (m : ℚ) = 2 ^ f.fractionBits := by exact_mod_cast hb.1
    have : (10 : ℚ) ^ k * 2 * 2 ^ f.fractionBits ≤ 2 ^ q * 2 ^ f.fractionBits := by
      calc (10 : ℚ) ^ k * 2 * 2 ^ f.fractionBits = 10 ^ k * 2 ^ f.precision := by
            rw [hfb,pow_succ]
            ring
        _ ≤ 10 ^ k * 10 ^ 16 := by gcongr
        _ ≤ m * 2 ^ q := hk'
        _ = 2 ^ q * 2 ^ f.fractionBits := by rw [hm',mul_comm]
    have := le_of_mul_le_mul_right this (by positivity)
    linarith
  · have hm2 : (m : ℚ) < 2 ^ f.precision := by exact_mod_cast hm.lt_pow
    have : (10 : ℚ) ^ k * 10 ^ 16 < 2 ^ q * 10 ^ 16 :=
      calc (10 : ℚ) ^ k * 10 ^ 16 ≤ m * 2 ^ q := hk'
        _ < 2 ^ f.precision * 2 ^ q := by gcongr
        _ ≤ 10 ^ 16 * 2 ^ q := by gcongr
        _ = 2 ^ q * 10 ^ 16 := mul_comm _ _
    have := lt_of_mul_lt_mul_right this (by positivity)
    linarith

theorem shortestDigits_roundsTo (h16 : 2 ^ f.precision ≤ 10 ^ 16) (hm : f.Represents m q)
    (tie : Tie) :
    f.RoundsTo m q ((shortestDigits f tie m q).1 * 10 ^ (shortestDigits f tie m q).2) := by
  obtain ⟨hvn,hvd,hv⟩ := pow_scaled_div (b := 2) two_pos (c := m) q
  rw [Nat.cast_ofNat] at hv
  rw [shortestDigits_eq_search hm.pos]
  unfold scaleByTwo
  generalize (if 0 ≤ q then (m * Nat.pow 2 q.toNat,1) else (m,Nat.pow 2 (-q).toNat)) = p at hvn hvd hv ⊢
  obtain ⟨vn,vd⟩ := p
  dsimp only at hvn hvd hv ⊢
  have hv0 : (0 : ℚ) < m * 2 ^ q := by
    have : (0 : ℚ) < m := by exact_mod_cast hm.pos
    positivity
  have he : floorLog10Ratio vn vd = Int.log 10 ((m : ℚ) * 2 ^ q) := by
    rw [floorLog10Ratio_eq_log (hvn hm.pos) hvd,hv]
  -- on the grid of seventeen digits the value has a neighbour in its interval
  have hit : GridHit (fun c k => decide (f.RoundsTo m q ((c : ℚ) * 10 ^ k))) vn vd
      (floorLog10Ratio vn vd - ((1 + 16 : Nat) : ℤ) + 1) := by
    have hk16 : (10 : ℚ) ^ (floorLog10Ratio vn vd - ((1 + 16 : Nat) : ℤ) + 1 + 16) ≤ m * 2 ^ q := by
      rw [he,show Int.log 10 ((m : ℚ) * 2 ^ q) - ((1 + 16 : Nat) : ℤ) + 1 + 16 =
        Int.log 10 ((m : ℚ) * 2 ^ q) by push_cast; ring]
      exact_mod_cast Int.zpow_log_le_self (by norm_num) hv0
    obtain ⟨hg1,hg2⟩ := gridFloor_bounds vn hvd (floorLog10Ratio vn vd - ((1 + 16 : Nat) : ℤ) + 1)
    rw [hv] at hg1 hg2
    rcases RoundsTo.neighbour (spacing_lt_width h16 hm hk16) hg1 hg2 with h | h
    · exact Or.inl (decide_eq_true h)
    · exact Or.inr (decide_eq_true (by exact_mod_cast h))
  exact of_decide_eq_true (search_inside 17 1 ⟨16,by norm_num,hit⟩)

end BinaryFormat

/-! ## Dropping trailing zeros -/

theorem Decimal.normalize_go (d : Decimal) : ∀ (fuel digits : Nat) (exponent : ℤ),
    (Decimal.normalize.go d digits exponent fuel).negative = d.negative ∧
      ((Decimal.normalize.go d digits exponent fuel).digits : ℚ) *
        10 ^ (Decimal.normalize.go d digits exponent fuel).exponent = digits * 10 ^ exponent
  | 0,_,_ => ⟨rfl,rfl⟩
  | fuel + 1,digits,exponent => by
    rw [Decimal.normalize.go]
    split
    · rename_i h
      obtain ⟨hneg,hval⟩ := Decimal.normalize_go d fuel (digits / 10) (exponent + 1)
      refine ⟨hneg,?_⟩
      have hd : (digits : ℚ) = 10 * ((digits / 10 : Nat) : ℚ) := by exact_mod_cast (by omega)
      rw [hval,hd,zpow_add₀ (by norm_num),zpow_one]
      ring
    · exact ⟨rfl,rfl⟩

theorem Decimal.normalize_value (d : Decimal) :
    d.normalize.negative = d.negative ∧
      (d.normalize.digits : ℚ) * 10 ^ d.normalize.exponent = d.digits * 10 ^ d.exponent :=
  Decimal.normalize_go d _ _ _

/-! ## Reading the shortest digits back -/

namespace BinaryFormat

/-- A format whose shortest digits lie on a grid of at most seventeen digits and whose values
lie in the decimal range that `ofDecimal?` rounds. -/
structure Printable (f : BinaryFormat) : Prop where
  two_le_precision : 2 ≤ f.precision
  two_le_exponentBits : 2 ≤ f.exponentBits
  sixteen_digits : 2 ^ f.precision ≤ 10 ^ 16
  le_ten_pow_400 : (2 : ℚ) ^ ((f.precision : ℤ) + f.maxQuantum) ≤ 10 ^ (400 : ℤ)
  ten_pow_neg_401_le : (10 : ℚ) ^ (-401 : ℤ) ≤ 2 ^ (f.minQuantum - 1)

theorem two_zpow_le_ten_zpow {a b : ℕ} (h : 2 ^ a ≤ 10 ^ b) :
    (2 : ℚ) ^ (a : ℤ) ≤ 10 ^ (b : ℤ) ∧ (10 : ℚ) ^ (-(b : ℤ)) ≤ 2 ^ (-(a : ℤ)) := by
  have h' : (2 : ℚ) ^ a ≤ 10 ^ b := by exact_mod_cast h
  rw [zpow_neg,zpow_neg,zpow_natCast,zpow_natCast]
  exact ⟨h',inv_anti₀ (by positivity) h'⟩

theorem binary64_printable : binary64.Printable where
  two_le_precision := by decide
  two_le_exponentBits := by decide
  sixteen_digits := by decide
  le_ten_pow_400 := by
    rw [show (binary64.precision : ℤ) + binary64.maxQuantum = ((1024 : ℕ) : ℤ) by decide]
    exact (two_zpow_le_ten_zpow (by decide +kernel)).1
  ten_pow_neg_401_le := by
    rw [show binary64.minQuantum - 1 = -((1075 : ℕ) : ℤ) by decide]
    exact (two_zpow_le_ten_zpow (by decide +kernel)).2

theorem binary32_printable : binary32.Printable where
  two_le_precision := by decide
  two_le_exponentBits := by decide
  sixteen_digits := by decide
  le_ten_pow_400 := by
    rw [show (binary32.precision : ℤ) + binary32.maxQuantum = ((128 : ℕ) : ℤ) by decide]
    exact (two_zpow_le_ten_zpow (by decide +kernel)).1
  ten_pow_neg_401_le := by
    rw [show binary32.minQuantum - 1 = -((150 : ℕ) : ℤ) by decide]
    exact (two_zpow_le_ten_zpow (by decide +kernel)).2
variable {f : BinaryFormat}

/-- The shortest decimal of a bit pattern is that of a finite value of the same sign: zero
digits for a zero, and for any other value a decimal that rounds to it. -/
theorem Printable.shortest?_spec (hf : f.Printable) (tie : Tie) {bits : Nat}
    (hbits : bits < 2 ^ (1 + f.exponentBits + f.fractionBits)) {d : Decimal}
    (hd : (f.decode bits).shortest? f tie = some d) :
    ∃ m q, f.decode bits = .finite d.negative m q ∧ ((m = 0 ∧ d.digits = 0) ∨
      (f.Represents m q ∧ f.RoundsTo m q ((d.digits : ℚ) * 10 ^ d.exponent))) := by
  generalize hx : f.decode bits = x at hd
  cases x with
  | finite neg m q =>
    obtain ⟨hrep,-⟩ := encodeFinite_decode (by have := hf.two_le_precision; omega) hf.two_le_exponentBits hbits hx
    rcases Nat.eq_zero_or_pos m with rfl | hm
    · simp only [BinaryValue.shortest?,Option.some.injEq] at hd
      subst hd
      exact ⟨0,q,rfl,Or.inl ⟨rfl,rfl⟩⟩
    · obtain ⟨m,rfl⟩ : ∃ m', m = m' + 1 := ⟨m - 1,by omega⟩
      have hd' : d = Decimal.normalize ⟨neg,(shortestDigits f tie (m + 1) q).1,
          (shortestDigits f tie (m + 1) q).2⟩ := by
        simp only [BinaryValue.shortest?,Option.some.injEq] at hd
        exact hd.symm
      obtain ⟨hneg,hval⟩ := Decimal.normalize_value ⟨neg,(shortestDigits f tie (m + 1) q).1,
        (shortestDigits f tie (m + 1) q).2⟩
      rw [← hd'] at hneg hval
      refine ⟨m + 1,q,by rw [hneg],Or.inr ⟨hrep hm,?_⟩⟩
      rw [hval]
      exact shortestDigits_roundsTo hf.sixteen_digits (hrep hm) tie
  | infinite neg => simp [BinaryValue.shortest?] at hd
  | nan => simp [BinaryValue.shortest?] at hd

theorem Printable.shortest?_reads_back (hf : f.Printable) (tie : Tie) {bits : Nat}
    (hbits : bits < 2 ^ (1 + f.exponentBits + f.fractionBits)) {d : Decimal}
    (hd : (f.decode bits).shortest? f tie = some d) {c : Nat} {k : ℤ}
    (hv : (c : ℚ) * 10 ^ k = d.digits * 10 ^ d.exponent) :
    f.ofDecimal? d.negative c k = some bits := by
  obtain ⟨m,q,hx,h⟩ := hf.shortest?_spec tie hbits hd
  obtain ⟨-,henc⟩ := encodeFinite_decode (by have := hf.two_le_precision; omega) hf.two_le_exponentBits hbits hx
  rcases h with ⟨rfl,h0⟩ | ⟨hm,hr⟩
  · have hc : c = 0 := by
      simp only [h0,Nat.cast_zero,zero_mul,mul_eq_zero,Nat.cast_eq_zero] at hv
      exact hv.resolve_right (zpow_ne_zero _ (by norm_num))
    subst hc
    rw [← henc]
    have h0 : 0 < Nat.pow 2 f.fractionBits := Nat.two_pow_pos _
    simp only [ofDecimal?,if_pos,encodeFinite,if_pos h0]
  · rw [← hv] at hr
    have hc : 0 < c := by
      have hpos : (0 : ℚ) < c * 10 ^ k := lt_of_lt_of_le (zpow_pos (by norm_num) _) (hr.bounds hm).1
      exact_mod_cast pos_of_mul_pos_left hpos (zpow_pos (by norm_num) k).le
    rw [ofDecimal?_eq_of_roundsTo hf.two_le_precision hm hf.le_ten_pow_400 hf.ten_pow_neg_401_le _ hc hr,
      henc]

theorem Printable.shortest?_lt (hf : f.Printable) (tie : Tie) {bits : Nat}
    (hbits : bits < 2 ^ (1 + f.exponentBits + f.fractionBits)) {d : Decimal}
    (hd : (f.decode bits).shortest? f tie = some d) :
    (d.digits : ℚ) * 10 ^ d.exponent < 2 ^ ((f.precision : ℤ) + f.maxQuantum) := by
  obtain ⟨m,q,-,h⟩ := hf.shortest?_spec tie hbits hd
  rcases h with ⟨-,h0⟩ | ⟨hm,hr⟩
  · rw [h0,Nat.cast_zero,zero_mul]
    positivity
  · calc (d.digits : ℚ) * 10 ^ d.exponent < 2 ^ ((f.precision : ℤ) + q) := (hr.bounds hm).2
      _ ≤ 2 ^ ((f.precision : ℤ) + f.maxQuantum) :=
        zpow_le_zpow_right₀ (by norm_num) (by have := hm.le_max; omega)

theorem ofDecimal?_isSome_of_lt (hminmax : f.minQuantum < f.maxQuantum)
    (h400 : (2 : ℚ) ^ (f.maxQuantum + f.fractionBits) ≤ 10 ^ (400 : ℤ)) (neg : Bool) {c : Nat} {k : ℤ}
    (hlt : (c : ℚ) * 10 ^ k < 2 ^ (f.maxQuantum + f.fractionBits)) : (f.ofDecimal? neg c k).isSome := by
  rcases Nat.eq_zero_or_pos c with rfl | hc
  · simp [ofDecimal?]
  · refine ofDecimal?_isSome hminmax neg ?_ hlt
    have h1 := (zpow_magnitude_bounds hc k).1
    have : (10 : ℚ) ^ (k + (Nat.toDigits 10 c).length - 1) < 10 ^ (400 : ℤ) := by linarith
    have := (zpow_lt_zpow_iff_right₀ (by norm_num : (1 : ℚ) < 10)).mp this
    omega

end BinaryFormat

namespace Binary64

theorem shortest?_reads_back (x : Binary64) (tie : Tie) {d : Decimal} (hd : x.shortest? tie = some d)
    {c : Nat} {k : ℤ} (hv : (c : ℚ) * 10 ^ k = d.digits * 10 ^ d.exponent) :
    Binary64.ofDecimal? d.negative c k = some x := by
  have hbits : x.bits.toNat < 2 ^ (1 + BinaryFormat.binary64.exponentBits + BinaryFormat.binary64.fractionBits) :=
    x.bits.toNat_lt
  rw [Binary64.ofDecimal?,BinaryFormat.binary64_printable.shortest?_reads_back tie hbits hd hv]
  simp only [Option.map_some,UInt64.ofNat_toNat]

theorem shortest?_of_isFinite {x : Binary64} (hx : x.isFinite = true) (tie : Tie) :
    ∃ d, x.shortest? tie = some d := by
  unfold isFinite at hx
  unfold shortest?
  split at hx
  · rename_i neg m q h
    rw [h]
    cases m <;> simp [BinaryValue.shortest?]
  · cases hx

theorem ofDecimal?_isSome_of_lt (neg : Bool) {c : Nat} {k : ℤ} (hlt : (c : ℚ) * 10 ^ k < 2 ^ (1023 : ℤ)) :
    (Binary64.ofDecimal? neg c k).isSome := by
  have hq : BinaryFormat.binary64.maxQuantum + BinaryFormat.binary64.fractionBits = ((1023 : ℕ) : ℤ) := by
    decide
  rw [Binary64.ofDecimal?,Option.isSome_map]
  refine BinaryFormat.ofDecimal?_isSome_of_lt (by decide) ?_ neg ?_
  · rw [hq]
    exact (BinaryFormat.two_zpow_le_ten_zpow (by decide +kernel)).1
  · rw [hq]
    exact hlt

end Binary64

namespace Binary32

theorem shortest?_reads_back (x : Binary32) (tie : Tie) {d : Decimal} (hd : x.shortest? tie = some d)
    {c : Nat} {k : ℤ} (hv : (c : ℚ) * 10 ^ k = d.digits * 10 ^ d.exponent) :
    Binary32.ofDecimal? d.negative c k = some x := by
  have hbits : x.bits.toNat < 2 ^ (1 + BinaryFormat.binary32.exponentBits + BinaryFormat.binary32.fractionBits) :=
    x.bits.toNat_lt
  rw [Binary32.ofDecimal?,BinaryFormat.binary32_printable.shortest?_reads_back tie hbits hd hv]
  simp only [Option.map_some,UInt32.ofNat_toNat]

theorem shortest?_of_isFinite {x : Binary32} (hx : x.isFinite = true) (tie : Tie) :
    ∃ d, x.shortest? tie = some d := by
  unfold isFinite at hx
  unfold shortest?
  split at hx
  · rename_i neg m q h
    rw [h]
    cases m <;> simp [BinaryValue.shortest?]
  · cases hx

theorem shortest?_lt (x : Binary32) (tie : Tie) {d : Decimal} (hd : x.shortest? tie = some d) :
    (d.digits : ℚ) * 10 ^ d.exponent < 2 ^ (128 : ℤ) := by
  have hbits : x.bits.toNat < 2 ^ (1 + BinaryFormat.binary32.exponentBits + BinaryFormat.binary32.fractionBits) :=
    x.bits.toNat_lt
  have h := BinaryFormat.binary32_printable.shortest?_lt tie hbits hd
  rwa [show (BinaryFormat.binary32.precision : ℤ) + BinaryFormat.binary32.maxQuantum = 128 by decide] at h

end Binary32

end Tickflow
