import Mathlib.Tactic.Ring
import AgentCompiler.Proofs.Decimal.Nearest

/-!
# The shortest decimal reads back

The search for the shortest decimal of a finite value ends in the interval of the value: the grid is
made finer until one of its units is smaller than half the last place. What lies in the interval is
read as the value, whatever the digits it is written with.
-/

namespace AgentCompiler.Decimal

open Binary64 (powerRatio powerRatio_pos powerRatio_div Near)

variable {x : Binary64}

/-! ## The interval -/

/-- The value of a decimal. -/
def toRat (d : Decimal) : ℚ := d.digits * 10 ^ d.exponent

/-- The ends of the interval and the value, as fractions. -/
theorem Interval.of_spec (hzero : x.isZero = false) :
    0 < (Interval.of x).den ∧
      ((Interval.of x).low : ℚ) / (Interval.of x).den =
        (x.significand - x.reachBelow) * 2 ^ x.scale ∧
      ((Interval.of x).value : ℚ) / (Interval.of x).den = x.significand * 2 ^ x.scale ∧
      ((Interval.of x).high : ℚ) / (Interval.of x).den = (x.significand + 1 / 2) * 2 ^ x.scale := by
  have hbits := Binary64.significand_pos hzero
  obtain ⟨-, hd⟩ := powerRatio_pos two_pos (x.scale - 2)
  have hratio := powerRatio_div 2 (x.scale - 2)
  rw [Nat.cast_ofNat] at hratio
  have hscale : (2 : ℚ) ^ x.scale =
      4 * ((powerRatio 2 (x.scale - 2)).1 / (powerRatio 2 (x.scale - 2)).2) := by
    rw [hratio, zpow_sub₀ two_ne_zero]
    norm_num
    ring
  unfold Interval.of Binary64.reachBelow
  dsimp only
  rw [Binary64.pow_fraction, hscale]
  refine ⟨hd, ?_, ?_, ?_⟩
  · split
    · rw [Nat.cast_mul, Nat.cast_sub (by omega)]
      push_cast
      ring
    · rw [Nat.cast_mul, Nat.cast_sub (by omega)]
      push_cast
      ring
  · push_cast
    ring
  · push_cast
    ring

/-- A multiple of a power of ten is held by the interval when it is near the value. -/
theorem Interval.holds_iff (hzero : x.isZero = false) (k : ℕ) (e : ℤ) :
    (Interval.of x).holds k e ↔ x.Near (k * 10 ^ e) := by
  obtain ⟨hden, hlow, -, hhigh⟩ := Interval.of_spec hzero
  obtain ⟨-, hd⟩ := powerRatio_pos (show 0 < 10 by norm_num) e
  have hclosed : (Interval.of x).closed = decide (x.significand % 2 = 0) := rfl
  have hratio := powerRatio_div 10 e
  rw [Nat.cast_ofNat] at hratio
  have hden' : (0 : ℚ) < (Interval.of x).den := by exact_mod_cast hden
  have hd' : (0 : ℚ) < (powerRatio 10 e).2 := by exact_mod_cast hd
  -- Comparisons with the ends are those of the fractions.
  have hpoint : (k : ℚ) * 10 ^ e =
      (k * (powerRatio 10 e).1 * (Interval.of x).den : ℕ) /
        ((powerRatio 10 e).2 * (Interval.of x).den : ℕ) := by
    rw [← hratio]
    push_cast
    field_simp
  have hend (a : ℕ) : (a : ℚ) / (Interval.of x).den =
      (a * (powerRatio 10 e).2 : ℕ) / ((powerRatio 10 e).2 * (Interval.of x).den : ℕ) := by
    push_cast
    field_simp
  have hunit : (0 : ℚ) < ((powerRatio 10 e).2 * (Interval.of x).den : ℕ) := by
    exact_mod_cast Nat.mul_pos hd hden
  have hle (a b : ℕ) : a ≤ b ↔ (a : ℚ) / ((powerRatio 10 e).2 * (Interval.of x).den : ℕ) ≤
      b / ((powerRatio 10 e).2 * (Interval.of x).den : ℕ) := by
    rw [div_le_div_iff_of_pos_right hunit, Nat.cast_le]
  have hlt (a b : ℕ) : a < b ↔ (a : ℚ) / ((powerRatio 10 e).2 * (Interval.of x).den : ℕ) <
      b / ((powerRatio 10 e).2 * (Interval.of x).den : ℕ) := by
    rw [div_lt_div_iff_of_pos_right hunit, Nat.cast_lt]
  unfold holds
  dsimp only
  rw [hclosed]
  by_cases heven : x.significand % 2 = 0
  · rw [decide_eq_true heven, if_pos rfl, decide_eq_true_iff, hle, hle, ← hend, ← hend, ← hpoint, hlow,
      hhigh]
    constructor
    · exact fun h => ⟨h.1, h.2, fun hodd => by omega⟩
    · exact fun h => ⟨h.low, h.high⟩
  · rw [decide_eq_false heven, if_neg Bool.false_ne_true, decide_eq_true_iff, hlt, hlt, ← hend, ← hend,
      ← hpoint, hlow, hhigh]
    constructor
    · exact fun h => ⟨h.1.le, h.2.le, fun _ => h⟩
    · exact fun h => h.odd (by omega)

/-! ## The search -/

/-- A decimal that is found on a grid is held by the interval. -/
theorem Interval.holds_of_onGrid {i : Interval} {tie : Tie} {e : ℤ} {d : Decimal}
    (h : i.onGrid tie e = some d) : i.holds d.digits d.exponent := by
  unfold onGrid at h
  dsimp only at h
  split at h
  · next hdown =>
      cases h
      exact (Bool.and_eq_true_iff.mp hdown).1
  split at h
  · next hup =>
      cases h
      exact hup
  · cases h

/-- A grid has a decimal in the interval when the neighbour above the value is one. -/
theorem Interval.onGrid_isSome {i : Interval} {tie : Tie} {e : ℤ}
    (h : i.holds (i.value * (powerRatio 10 e).2 / ((powerRatio 10 e).1 * i.den) + 1) e) :
    (i.onGrid tie e).isSome := by
  unfold onGrid
  dsimp only
  rw [h]
  split
  · rfl
  · rfl

/-- The search ends in the interval when one of the grids that it tries has a decimal there. -/
theorem Interval.holds_search {i : Interval} {tie : Tie} {count : ℕ} {e : ℤ}
    (h : ∃ j < count, (i.onGrid tie (e - j)).isSome) :
    i.holds (i.search tie count e).digits (i.search tie count e).exponent := by
  induction count generalizing e with
  | zero =>
      obtain ⟨j, hj, -⟩ := h
      cases hj
  | succ count ih =>
      rw [search]
      cases hfirst : i.onGrid tie e with
      | some d => exact holds_of_onGrid hfirst
      | none =>
          refine ih ?_
          obtain ⟨j, hj, hsome⟩ := h
          cases j with
          | zero =>
              rw [Nat.cast_zero, sub_zero, hfirst] at hsome
              cases hsome
          | succ j =>
              refine ⟨j, by omega, ?_⟩
              have hplace : e - 1 - (j : ℤ) = e - (j + 1 : ℕ) := by
                push_cast
                ring
              rw [hplace]
              exact hsome

/-- Zeros at the end of a decimal do not count. -/
theorem toRat_strip (d : Decimal) (count : ℕ) : (d.strip count).toRat = d.toRat := by
  induction count generalizing d with
  | zero => rfl
  | succ count ih =>
      rw [strip]
      split
      · next h =>
          rw [ih, toRat, toRat]
          have hdigits : (d.digits : ℚ) = 10 * (d.digits / 10 : ℕ) := by
            exact_mod_cast (Nat.mul_div_cancel' (Nat.dvd_of_mod_eq_zero h.2)).symm
          rw [hdigits, zpow_add_one₀ (by norm_num)]
          ring
      · rfl

/-! ## A grid that is fine enough -/

/-- A power of ten is not above a power of two whose exponent is three and a third times as large, and a
little more: the third power of ten is below the tenth of two, and the ninety-third of two below the
twenty-eighth of ten. -/
theorem ten_zpow_le_two_zpow {e p : ℤ} (h : 100000 * e ≤ 30103 * p - 314232) (hlow : -3000 ≤ p)
    (hhigh : p ≤ 3000) : (10 : ℚ) ^ e ≤ 2 ^ p := by
  rcases le_or_gt 0 p with hp | hp
  · rcases le_or_gt 0 e with he | he
    · obtain ⟨m, rfl⟩ := Int.eq_ofNat_of_zero_le he
      obtain ⟨n, rfl⟩ := Int.eq_ofNat_of_zero_le hp
      rw [zpow_natCast, zpow_natCast]
      refine (pow_le_pow_iff_left₀ (by positivity) (by positivity) three_ne_zero).mp ?_
      calc ((10 : ℚ) ^ m) ^ 3 = (10 ^ 3) ^ m := by rw [← pow_mul, ← pow_mul, mul_comm]
        _ ≤ (2 ^ 10) ^ m := by gcongr; norm_num
        _ = 2 ^ (10 * m) := (pow_mul _ _ _).symm
        _ ≤ 2 ^ (n * 3) := pow_le_pow_right₀ one_le_two (by omega)
        _ = (2 ^ n) ^ 3 := pow_mul _ _ _
    · exact (zpow_le_one_of_nonpos₀ (by norm_num) he.le).trans (one_le_zpow₀ one_le_two hp)
  · obtain ⟨m, rfl⟩ : ∃ m : ℕ, e = -m := ⟨(-e).toNat, by omega⟩
    obtain ⟨n, rfl⟩ : ∃ n : ℕ, p = -n := ⟨(-p).toNat, by omega⟩
    rw [zpow_neg, zpow_neg, zpow_natCast, zpow_natCast]
    refine inv_anti₀ (by positivity) ?_
    refine (pow_le_pow_iff_left₀ (by positivity) (by positivity) (show 93 ≠ 0 by norm_num)).mp ?_
    calc ((2 : ℚ) ^ n) ^ 93 = (2 ^ 93) ^ n := by rw [← pow_mul, ← pow_mul, mul_comm]
      _ ≤ (10 ^ 28) ^ n := by gcongr; norm_num
      _ = 10 ^ (28 * n) := (pow_mul _ _ _).symm
      _ ≤ 10 ^ (m * 93) := pow_le_pow_right₀ (by norm_num) (by omega)
      _ = (10 ^ m) ^ 93 := pow_mul _ _ _

/-- The twenty-second place that is tried is smaller than half the last place of the value. -/
theorem ten_zpow_lastGrid_le (hfinite : x.isFinite) (hzero : x.isZero = false) :
    (10 : ℚ) ^ (firstPlace (Interval.of x).value (Interval.of x).den - 21) ≤ 2 ^ (x.scale - 2) := by
  obtain ⟨hden, -, hvalue, -⟩ := Interval.of_spec hzero
  have hden' : (0 : ℚ) < (Interval.of x).den := by exact_mod_cast hden
  have hbits : (0 : ℚ) < x.significand := by exact_mod_cast Binary64.significand_pos hzero
  have hpos : 0 < (Interval.of x).value := by
    have hpos' : (0 : ℚ) < (Interval.of x).value / (Interval.of x).den := by
      rw [hvalue]
      positivity
    exact_mod_cast (div_pos_iff_of_pos_right hden').mp hpos'
  have hfirst := (Binary64.log2_sub_bounds hpos hden).1
  rw [hvalue] at hfirst
  have hless : (x.significand : ℚ) * 2 ^ x.scale < 2 ^ (x.scale + 53) := by
    have hbits' : (x.significand : ℚ) < 9007199254740992 := by exact_mod_cast x.significand_lt
    have hfixed : (2 : ℚ) ^ (53 : ℤ) = 9007199254740992 := by norm_num
    rw [zpow_add₀ two_ne_zero, hfixed, mul_comm]
    gcongr
  have hlog := (zpow_lt_zpow_iff_right₀ one_lt_two).mp (hfirst.trans hless)
  have hscale := x.le_scale
  have hscale' := Binary64.scale_le hfinite
  refine ten_zpow_le_two_zpow ?_ (by omega) (by omega)
  unfold firstPlace
  omega

/-- On a grid whose unit is that small the neighbour above a value is near it. -/
theorem near_neighbour (hzero : x.isZero = false) {e : ℤ} (he : (10 : ℚ) ^ e ≤ 2 ^ (x.scale - 2)) :
    x.Near (((Interval.of x).value * (powerRatio 10 e).2 /
      ((powerRatio 10 e).1 * (Interval.of x).den) + 1 : ℕ) * 10 ^ e) := by
  obtain ⟨hden, -, hvalue, -⟩ := Interval.of_spec hzero
  obtain ⟨hn, hd⟩ := powerRatio_pos (show 0 < 10 by norm_num) e
  have hratio := powerRatio_div 10 e
  rw [Nat.cast_ofNat] at hratio
  generalize (Interval.of x).value = value at *
  generalize (Interval.of x).den = den at *
  generalize (powerRatio 10 e).1 = n at *
  generalize (powerRatio 10 e).2 = d at *
  have hbelow := Nat.div_mul_le_self (value * d) (n * den)
  have habove := Nat.lt_mul_div_succ (value * d) (Nat.mul_pos hn hden)
  generalize value * d / (n * den) = k at *
  have hden' : (0 : ℚ) < den := by exact_mod_cast hden
  have hd' : (0 : ℚ) < d := by exact_mod_cast hd
  have hlow : (k : ℚ) * 10 ^ e ≤ x.significand * 2 ^ x.scale := by
    rw [← hratio, ← hvalue, ← mul_div_assoc, div_le_div_iff₀ hd' hden', mul_assoc]
    exact_mod_cast hbelow
  have hhigh : x.significand * 2 ^ x.scale < ((k : ℚ) + 1) * 10 ^ e := by
    rw [← hratio, ← hvalue, ← mul_div_assoc, div_lt_div_iff₀ hden' hd']
    have habove' : (value : ℚ) * d < n * den * (k + 1) := by exact_mod_cast habove
    linarith
  have hunit : (0 : ℚ) < 2 ^ x.scale := by positivity
  have hquarter : (2 : ℚ) ^ (x.scale - 2) = 2 ^ x.scale / 4 := by
    rw [zpow_sub₀ two_ne_zero]
    norm_num
  rw [hquarter] at he
  have hfloor : (x.significand - x.reachBelow) * 2 ^ x.scale < ((k : ℚ) + 1) * 10 ^ e := by
    have hreach := x.reachBelow_pos
    nlinarith
  have hroof : ((k : ℚ) + 1) * 10 ^ e < (x.significand + 1 / 2) * 2 ^ x.scale := by
    linarith
  rw [Nat.cast_add_one]
  exact ⟨hfloor.le, hroof.le, fun _ => ⟨hfloor, hroof⟩⟩

/-- The shortest decimal of a finite value that is not zero lies in its interval. -/
theorem near_shortest (tie : Tie) (hfinite : x.isFinite) (hzero : x.isZero = false) :
    x.Near (shortest tie x).toRat := by
  have hfine := near_neighbour hzero (ten_zpow_lastGrid_le hfinite hzero)
  rw [← Interval.holds_iff hzero] at hfine
  have hsome : ∃ j < 22, ((Interval.of x).onGrid tie
      (firstPlace (Interval.of x).value (Interval.of x).den - (j : ℕ))).isSome :=
    ⟨21, by norm_num, Interval.onGrid_isSome hfine⟩
  have hfound := Interval.holds_search hsome
  rw [Interval.holds_iff hzero] at hfound
  have hshortest : shortest tie x = ((Interval.of x).search tie 22
      (firstPlace (Interval.of x).value (Interval.of x).den)).strip 22 := by
    rw [shortest, hzero]
    rfl
  rw [hshortest, toRat_strip]
  exact hfound

/-! ## Reading a decimal -/

/-- A number and the count of its digits. -/
theorem length_toDigits_bounds {k : ℕ} (hk : 0 < k) :
    (10 : ℚ) ^ (((Nat.toDigits 10 k).length : ℤ) - 1) ≤ k ∧
      (k : ℚ) < 10 ^ ((Nat.toDigits 10 k).length : ℤ) := by
  have hlength {n : ℕ} (hn : 0 < n) : (Nat.toDigits 10 k).length ≤ n ↔ k < 10 ^ n :=
    Nat.length_toDigits_le_iff (by norm_num) hn
  have hpos : 0 < (Nat.toDigits 10 k).length := Nat.length_toDigits_pos
  constructor
  · rcases Nat.eq_or_lt_of_le hpos with hone | hmore
    · rw [← hone]
      simpa using Nat.one_le_iff_ne_zero.mpr hk.ne'
    · have hlow := mt (hlength (n := (Nat.toDigits 10 k).length - 1) (by omega)).mpr (by omega)
      have hcast : ((Nat.toDigits 10 k).length : ℤ) - 1 = ((Nat.toDigits 10 k).length - 1 : ℕ) := by
        omega
      rw [hcast, zpow_natCast]
      exact_mod_cast not_lt.mp hlow
  · rw [zpow_natCast]
    exact_mod_cast (hlength hpos).mp le_rfl

/-- A decimal in the interval of a finite value is read as this value. It is never cut off, because it
is neither below half the least value nor above the largest power of two. -/
theorem ofDecimal_of_near (hfinite : x.isFinite) (hzero : x.isZero = false) {k : ℕ} {e : ℤ}
    (h : x.Near (k * 10 ^ e)) : Binary64.ofDecimal x.negative k e = x := by
  have hunit : (0 : ℚ) < 10 ^ e := by positivity
  have hpos : (0 : ℚ) < k := pos_of_mul_pos_left (h.pos hzero) hunit.le
  have hk : 0 < k := by exact_mod_cast hpos
  obtain ⟨hlow, hhigh⟩ := length_toDigits_bounds hk
  have hscale := x.le_scale
  have hscale' := Binary64.scale_le hfinite
  unfold Binary64.ofDecimal
  dsimp only
  generalize ((Nat.toDigits 10 k).length : ℤ) = places at *
  have habove : ¬(places + e < -400) := fun hless => by
    have hsmall : (k : ℚ) * 10 ^ e < 2 ^ (-1075 : ℤ) := by
      calc (k : ℚ) * 10 ^ e < 10 ^ places * 10 ^ e := by gcongr
        _ = 10 ^ (places + e) := (zpow_add₀ (by norm_num) _ _).symm
        _ ≤ 10 ^ (-400 : ℤ) := zpow_le_zpow_right₀ (by norm_num) hless.le
        _ ≤ 2 ^ (-1075 : ℤ) := ten_zpow_le_two_zpow (by norm_num) (by norm_num) (by norm_num)
    exact absurd (h.two_zpow_le hzero) (not_le.mpr hsmall)
  have hbelow : ¬(400 < places + e) := fun hmore => by
    have hlarge : (2 : ℚ) ^ (1024 : ℤ) ≤ k * 10 ^ e := by
      calc (2 : ℚ) ^ (1024 : ℤ) ≤ 10 ^ (400 : ℤ) := by
            have hinv := ten_zpow_le_two_zpow (e := -400) (p := -1024) (by norm_num) (by norm_num)
              (by norm_num)
            rw [zpow_neg, zpow_neg] at hinv
            exact (inv_le_inv₀ (by positivity) (by positivity)).mp hinv
        _ ≤ 10 ^ (places - 1 + e) := zpow_le_zpow_right₀ (by norm_num) (by omega)
        _ = 10 ^ (places - 1) * 10 ^ e := zpow_add₀ (by norm_num) _ _
        _ ≤ k * 10 ^ e := by gcongr
    have hless : (k : ℚ) * 10 ^ e < 2 ^ (1024 : ℤ) :=
      h.lt.trans_le (zpow_le_zpow_right₀ one_le_two (by omega))
    exact absurd hlarge (not_le.mpr hless)
  rw [if_neg (not_or.mpr ⟨hk.ne', habove⟩), if_neg hbelow]
  obtain ⟨-, hd⟩ := powerRatio_pos (show 0 < 10 by norm_num) e
  refine Near.nearest_eq hfinite hzero hd ?_
  have hratio := powerRatio_div 10 e
  rw [Nat.cast_ofNat] at hratio
  rw [Nat.cast_mul, mul_div_assoc, hratio]
  exact h

end AgentCompiler.Decimal
