import Mathlib.Algebra.Order.Archimedean.Basic
import Mathlib.Algebra.Order.Field.Power
import Mathlib.Data.Int.Log
import Mathlib.Data.Rat.Floor
import Mathlib.Tactic.FieldSimp
import Mathlib.Tactic.Linarith
import Mathlib.Tactic.Positivity
import AgentCompiler.Decimal.Shortest

/-!
# The interval of a floating-point value

Every fraction in the interval of a finite value is rounded to this value. A fraction that is a little
below a power of two has its last place one lower than the power itself, and is rounded up to it.
-/

namespace AgentCompiler.Binary64

/-! ## Fractions -/

theorem powerRatio_pos {base : ℕ} (hbase : 0 < base) (e : ℤ) :
    0 < (powerRatio base e).1 ∧ 0 < (powerRatio base e).2 := by
  unfold powerRatio
  split
  · exact ⟨Nat.one_pos, Nat.pow_pos hbase⟩
  · exact ⟨Nat.pow_pos hbase, Nat.one_pos⟩

/-- The fraction of a power is the power. -/
theorem powerRatio_div (base : ℕ) (e : ℤ) :
    ((powerRatio base e).1 : ℚ) / (powerRatio base e).2 = (base : ℚ) ^ e := by
  unfold powerRatio
  split
  · next hneg =>
      obtain ⟨k, rfl⟩ : ∃ k : ℕ, e = -k := ⟨(-e).toNat, by omega⟩
      simp
  · next hnonneg =>
      obtain ⟨k, rfl⟩ : ∃ k : ℕ, e = k := ⟨e.toNat, by omega⟩
      simp

theorem pow_fraction : Nat.pow 2 52 = 4503599627370496 := by norm_num

/-- A fraction is its integer part and what is left over. -/
theorem div_eq_div_add_mod {num den : ℕ} (hden : 0 < den) :
    (num : ℚ) / den = (num / den : ℕ) + ((num % den : ℕ) : ℚ) / den := by
  have hden' : (0 : ℚ) < den := by exact_mod_cast hden
  have hsplit : (num : ℚ) = den * (num / den : ℕ) + (num % den : ℕ) := by
    exact_mod_cast (Nat.div_add_mod num den).symm
  rw [div_eq_iff hden'.ne', add_mul, div_mul_cancel₀ _ hden'.ne']
  linarith

/-- A fraction is rounded to the integer that is at most a half away, and less when it is odd. -/
theorem roundHalfEven_eq {num den k : ℕ} (hden : 0 < den) (hlow : (k : ℚ) - 1 / 2 ≤ num / den)
    (hhigh : (num : ℚ) / den ≤ k + 1 / 2)
    (hodd : k % 2 = 1 → (k : ℚ) - 1 / 2 < num / den ∧ (num : ℚ) / den < k + 1 / 2) :
    roundHalfEven num den = k := by
  have hden' : (0 : ℚ) < den := by exact_mod_cast hden
  have hrest := Nat.mod_lt num hden
  rw [div_eq_div_add_mod hden] at hlow hhigh hodd
  unfold roundHalfEven
  generalize num / den = q at *
  generalize num % den = r at *
  have hless : 2 * r < den ↔ (r : ℚ) / den < 1 / 2 := by
    rw [div_lt_iff₀ hden', ← @Nat.cast_lt ℚ]
    push_cast
    constructor <;> intro h <;> linarith
  have hmore : den < 2 * r ↔ 1 / 2 < (r : ℚ) / den := by
    rw [lt_div_iff₀ hden', ← @Nat.cast_lt ℚ]
    push_cast
    constructor <;> intro h <;> linarith
  have hnonneg : 0 ≤ (r : ℚ) / den := by positivity
  have hone : (r : ℚ) / den < 1 := (div_lt_one hden').mpr (by exact_mod_cast hrest)
  generalize (r : ℚ) / den = f at *
  dsimp only
  split
  · next h =>
      rw [hless] at h
      have hk : (k : ℚ) < q + 1 := by linarith
      have hq : (q : ℚ) < k + 1 := by linarith
      norm_cast at hk hq
      omega
  next hge =>
  rw [hless, not_lt] at hge
  split
  · next h =>
      rw [hmore] at h
      have hk : (k : ℚ) < q + 2 := by linarith
      have hq : (q : ℚ) < k := by linarith
      norm_cast at hk hq
      omega
  · next h =>
      rw [hmore, not_lt] at h
      -- The fraction lies in the middle, so that the integer is a neighbour, and not an odd one.
      obtain rfl : f = 1 / 2 := le_antisymm h hge
      have hk : (k : ℚ) ≤ q + 1 := by linarith
      have hq : (q : ℚ) ≤ k := by linarith
      have heven : k % 2 ≠ 1 := fun hone => by
        obtain ⟨hlow, hhigh⟩ := hodd hone
        have hk : (k : ℚ) < q + 1 := by linarith
        have hq : (q : ℚ) < k := by linarith
        norm_cast at hk hq
        omega
      norm_cast at hk hq
      omega

/-- The first bit of a fraction is where those of its parts tell, or one place below. -/
theorem log2_sub_bounds {num den : ℕ} (hnum : 0 < num) (hden : 0 < den) :
    (2 : ℚ) ^ ((num.log2 : ℤ) - den.log2 - 1) < num / den ∧
      (num : ℚ) / den < 2 ^ ((num.log2 : ℤ) - den.log2 + 1) := by
  have hbits {n : ℕ} (hn : 0 < n) :
      (2 : ℚ) ^ (n.log2 : ℤ) ≤ n ∧ (n : ℚ) < 2 ^ ((n.log2 : ℤ) + 1) := by
    have hlow : 2 ^ n.log2 ≤ n := Nat.log2_self_le hn.ne'
    have hhigh : n < 2 ^ (n.log2 + 1) := Nat.lt_log2_self
    exact ⟨by exact_mod_cast hlow, by exact_mod_cast hhigh⟩
  have hden' : (0 : ℚ) < den := by exact_mod_cast hden
  obtain ⟨hn, hn'⟩ := hbits hnum
  obtain ⟨hd, hd'⟩ := hbits hden
  constructor
  · rw [lt_div_iff₀ hden']
    calc (2 : ℚ) ^ ((num.log2 : ℤ) - den.log2 - 1) * den
        < 2 ^ ((num.log2 : ℤ) - den.log2 - 1) * 2 ^ ((den.log2 : ℤ) + 1) := by gcongr
      _ = 2 ^ (num.log2 : ℤ) := by
        rw [← zpow_add₀ two_ne_zero]
        congr 1
        ring
      _ ≤ num := hn
  · rw [div_lt_iff₀ hden']
    calc (num : ℚ) < 2 ^ ((num.log2 : ℤ) + 1) := hn'
      _ = 2 ^ ((num.log2 : ℤ) - den.log2 + 1) * 2 ^ (den.log2 : ℤ) := by
        rw [← zpow_add₀ two_ne_zero]
        congr 1
        ring
      _ ≤ 2 ^ ((num.log2 : ℤ) - den.log2 + 1) * den := by gcongr

/-- The last place of the value nearest to a fraction lies fifty-two places below its first bit, unless
the least exponent is met. -/
theorem placeOf_eq {num den : ℕ} (hnum : 0 < num) (hden : 0 < den) {e : ℤ}
    (hlow : (2 : ℚ) ^ e ≤ num / den) (hhigh : (num : ℚ) / den < 2 ^ (e + 1)) :
    placeOf num den = max (e - 52) (-1074) := by
  obtain ⟨hdown, hup⟩ := log2_sub_bounds hnum hden
  have he : e < (num.log2 : ℤ) - den.log2 + 1 :=
    (zpow_lt_zpow_iff_right₀ one_lt_two).mp (hlow.trans_lt hup)
  have he' : (num.log2 : ℤ) - den.log2 - 1 < e + 1 :=
    (zpow_lt_zpow_iff_right₀ one_lt_two).mp (hdown.trans hhigh)
  have hbelow : num * (powerRatio 2 ((num.log2 : ℤ) - den.log2 - 52)).2 <
      Nat.pow 2 52 * (den * (powerRatio 2 ((num.log2 : ℤ) - den.log2 - 52)).1) ↔
        e < (num.log2 : ℤ) - den.log2 := by
    obtain ⟨-, hd⟩ := powerRatio_pos two_pos ((num.log2 : ℤ) - den.log2 - 52)
    have hratio := powerRatio_div 2 ((num.log2 : ℤ) - den.log2 - 52)
    generalize (powerRatio 2 ((num.log2 : ℤ) - den.log2 - 52)).1 = n at *
    generalize (powerRatio 2 ((num.log2 : ℤ) - den.log2 - 52)).2 = d at *
    generalize (num.log2 : ℤ) - den.log2 = first at *
    have hpower : (2 : ℚ) ^ first = 4503599627370496 * n / d := by
      have hfixed : (4503599627370496 : ℚ) = 2 ^ (52 : ℤ) := by norm_num
      rw [mul_div_assoc, hratio, Nat.cast_ofNat, hfixed, ← zpow_add₀ two_ne_zero]
      congr 1
      ring
    have hless : num * d < Nat.pow 2 52 * (den * n) ↔ (num : ℚ) / den < 2 ^ first := by
      rw [hpower, div_lt_div_iff₀ (by exact_mod_cast hden) (by exact_mod_cast hd), Nat.pow_eq,
        ← @Nat.cast_lt ℚ]
      push_cast
      rw [mul_assoc _ (n : ℚ), mul_comm (n : ℚ)]
    rw [hless]
    constructor
    · exact fun h => (zpow_lt_zpow_iff_right₀ one_lt_two).mp (hlow.trans_lt h)
    · exact fun h => hhigh.trans_le ((zpow_le_zpow_iff_right₀ one_lt_two).mpr h)
  unfold placeOf
  dsimp only
  split
  · next h =>
      have hlast := hbelow.mp h
      congr 1
      omega
  · next h =>
      have hlast := mt hbelow.mpr h
      congr 1
      omega

/-- The magnitude nearest to a fraction has the integer for significand that is at most half a last
place away, and less when it is odd. -/
theorem nearestMagnitude_eq {num den k : ℕ} {e : ℤ} (hnum : 0 < num) (hden : 0 < den)
    (hplace : placeOf num den = e) (hlow : ((k : ℚ) - 1 / 2) * 2 ^ e ≤ num / den)
    (hhigh : (num : ℚ) / den ≤ (k + 1 / 2) * 2 ^ e)
    (hodd : k % 2 = 1 → ((k : ℚ) - 1 / 2) * 2 ^ e < num / den ∧
      (num : ℚ) / den < (k + 1 / 2) * 2 ^ e) :
    nearestMagnitude num den = (e + 1074).toNat * Nat.pow 2 52 + k := by
  have hunit : (0 : ℚ) < 2 ^ e := by positivity
  obtain ⟨hn, hd⟩ := powerRatio_pos two_pos e
  have hratio := powerRatio_div 2 e
  rw [Nat.cast_ofNat] at hratio
  unfold nearestMagnitude
  rw [if_neg hnum.ne', hplace]
  dsimp only
  generalize (powerRatio 2 e).1 = n at *
  generalize (powerRatio 2 e).2 = d at *
  have hscaled : ((num * d : ℕ) : ℚ) / (den * n : ℕ) = num / den / 2 ^ e := by
    rw [← hratio]
    push_cast
    field_simp
  congr 1
  refine roundHalfEven_eq (Nat.mul_pos hden hn) ?_ ?_ fun hk => ?_
  · rw [hscaled, le_div_iff₀ hunit]
    exact hlow
  · rw [hscaled, div_le_iff₀ hunit]
    exact hhigh
  · rw [hscaled, lt_div_iff₀ hunit, div_lt_iff₀ hunit]
    exact hodd hk

/-- A fraction that is less than a quarter of a place below a power of two is rounded up to it. -/
theorem nearestMagnitude_below_power {num den : ℕ} (hnum : 0 < num) (hden : 0 < den) {q : ℤ}
    (hq : -1074 < q) (hlow : ((4503599627370496 : ℚ) - 1 / 4) * 2 ^ q ≤ num / den)
    (hless : (num : ℚ) / den < 4503599627370496 * 2 ^ q) :
    nearestMagnitude num den = (q + 1074).toNat * Nat.pow 2 52 + 4503599627370496 := by
  have hhalved : (2 : ℚ) ^ q = 2 * 2 ^ (q - 1) := by
    rw [zpow_sub_one₀ two_ne_zero]
    ring
  have hfixed : (2 : ℚ) ^ (52 : ℤ) = 4503599627370496 := by norm_num
  have hunit : (0 : ℚ) < 2 ^ (q - 1) := by positivity
  rw [hhalved] at hlow hless
  have hfirst : (2 : ℚ) ^ (q + 51) ≤ num / den := by
    have hsum : q + 51 = 52 + (q - 1) := by ring
    rw [hsum, zpow_add₀ two_ne_zero, hfixed]
    linarith
  have hnext : (num : ℚ) / den < 2 ^ (q + 51 + 1) := by
    have hsum : q + 51 + 1 = 52 + q := by ring
    rw [hsum, zpow_add₀ two_ne_zero, hfixed, hhalved]
    exact hless
  -- The last place is one lower than that of the power, which has twice as many units of it.
  have hplace : placeOf num den = q - 1 := by
    rw [placeOf_eq hnum hden hfirst hnext]
    omega
  have hrounded : nearestMagnitude num den =
      (q - 1 + 1074).toNat * Nat.pow 2 52 + 9007199254740992 := by
    refine nearestMagnitude_eq hnum hden hplace ?_ ?_ fun hodd => ?_
    · push_cast
      linarith
    · push_cast
      linarith
    · cases hodd
  rw [hrounded, pow_fraction]
  omega

/-! ## Finite values -/

section

variable (x : Binary64)

/-- Exponent and fraction are one word. -/
theorem magnitude_eq : x.magnitude.val =
    (x.scale + 1074).toNat * Nat.pow 2 52 + x.significand := by
  have hword := Nat.div_add_mod x.magnitude.val (Nat.pow 2 52)
  unfold scale significand
  rw [pow_fraction] at hword ⊢
  dsimp only
  split
  · omega
  · omega

theorem significand_lt : x.significand < 9007199254740992 := by
  unfold significand
  rw [pow_fraction]
  dsimp only
  split
  · omega
  · omega

/-- The significand has fifty-three bits above the least exponent. -/
theorem scale_eq_or : x.scale = -1074 ∨ -1074 < x.scale ∧ 4503599627370496 ≤ x.significand := by
  unfold scale significand
  rw [pow_fraction]
  dsimp only
  split
  · omega
  · omega

theorem le_scale : -1074 ≤ x.scale := by
  rcases x.scale_eq_or with h | ⟨h, -⟩
  · exact h.ge
  · exact h.le

variable {x}

theorem significand_pos (h : x.isZero = false) : 0 < x.significand := by
  have hmagnitude := x.magnitude_eq
  have hne : x.magnitude.val ≠ 0 := by simpa [isZero] using h
  rcases x.scale_eq_or with hscale | ⟨-, hbits⟩
  · rw [hscale] at hmagnitude
    simp at hmagnitude
    omega
  · omega

theorem scale_le (h : x.isFinite) : x.scale ≤ 971 := by
  have hlt : x.magnitude.val < infinite := by simpa [isFinite] using h
  unfold infinite at hlt
  unfold scale
  rw [pow_fraction] at hlt ⊢
  omega

/-! ## The interval -/

/-- How far below a value its interval reaches, in units of its last place. -/
def reachBelow (x : Binary64) : ℚ :=
  if x.significand = 4503599627370496 ∧ -1074 < x.scale then 1 / 4 else 1 / 2

/-- A fraction lies in the interval of a value: between its ends, which belong to it when the significand
is even. -/
structure Near (x : Binary64) (r : ℚ) : Prop where
  low : (x.significand - x.reachBelow) * 2 ^ x.scale ≤ r
  high : r ≤ (x.significand + 1 / 2) * 2 ^ x.scale
  odd : x.significand % 2 = 1 → (x.significand - x.reachBelow) * 2 ^ x.scale < r ∧
    r < (x.significand + 1 / 2) * 2 ^ x.scale

theorem reachBelow_le (x : Binary64) : x.reachBelow ≤ 1 / 2 := by
  unfold reachBelow
  split <;> norm_num

theorem reachBelow_pos (x : Binary64) : 0 < x.reachBelow := by
  unfold reachBelow
  split <;> norm_num

theorem Near.two_zpow_le {r : ℚ} (h : x.Near r) (hzero : x.isZero = false) :
    (2 : ℚ) ^ (-1075 : ℤ) ≤ r := by
  have hone : (1 : ℚ) ≤ x.significand := by exact_mod_cast significand_pos hzero
  have hreach := x.reachBelow_le
  have hscale := x.le_scale
  have hhalf : (2 : ℚ) ^ (-1075 : ℤ) = 2 ^ (-1074 : ℤ) / 2 := zpow_sub_one₀ two_ne_zero (-1074)
  calc (2 : ℚ) ^ (-1075 : ℤ) = 1 / 2 * 2 ^ (-1074 : ℤ) := by
        rw [hhalf, div_eq_mul_inv, mul_comm, one_div]
    _ ≤ 1 / 2 * 2 ^ x.scale := by
      gcongr
      exact one_le_two
    _ ≤ (x.significand - x.reachBelow) * 2 ^ x.scale := by
      gcongr
      linarith
    _ ≤ r := h.low

theorem Near.pos {r : ℚ} (h : x.Near r) (hzero : x.isZero = false) : 0 < r :=
  (show (0 : ℚ) < 2 ^ (-1075 : ℤ) by positivity).trans_le (h.two_zpow_le hzero)

theorem Near.lt {r : ℚ} (h : x.Near r) : r < 2 ^ (x.scale + 53) := by
  have hbits : (x.significand : ℚ) + 1 ≤ 9007199254740992 := by
    exact_mod_cast x.significand_lt
  have hunit : (0 : ℚ) < 2 ^ x.scale := by positivity
  calc r ≤ (x.significand + 1 / 2) * 2 ^ x.scale := h.high
    _ < 9007199254740992 * 2 ^ x.scale := by
      gcongr
      linarith
    _ = 2 ^ (x.scale + 53) := by
      rw [zpow_add₀ two_ne_zero]
      norm_num
      ring

/-- A fraction in the interval that lies below the least significand of fifty-three bits is at most a
quarter away, and the value is a power of two. -/
theorem Near.quarter_le {r : ℚ} (h : x.Near r) (hnormal : -1074 < x.scale)
    (hbits : 4503599627370496 ≤ x.significand) (hless : r < 4503599627370496 * 2 ^ x.scale) :
    x.significand = 4503599627370496 ∧ ((4503599627370496 : ℚ) - 1 / 4) * 2 ^ x.scale ≤ r := by
  have hunit : (0 : ℚ) < 2 ^ x.scale := by positivity
  have hpower : x.significand = 4503599627370496 := by
    have hlow := lt_of_mul_lt_mul_right (h.low.trans_lt hless) hunit.le
    have hreach := x.reachBelow_le
    have hbits' : (x.significand : ℚ) < 4503599627370497 := by linarith
    norm_cast at hbits'
    omega
  have hreach : x.reachBelow = 1 / 4 := if_pos ⟨hpower, hnormal⟩
  have hlow := h.low
  rw [hreach, hpower] at hlow
  exact ⟨hpower, by exact_mod_cast hlow⟩

/-- Every fraction in the interval of a value has the value's magnitude for the nearest one. -/
theorem Near.nearestMagnitude_eq {num den : ℕ} (hzero : x.isZero = false) (hden : 0 < den)
    (h : x.Near (num / den)) : nearestMagnitude num den = x.magnitude := by
  have hden' : (0 : ℚ) < den := by exact_mod_cast hden
  have hpos := h.pos hzero
  have hnum : 0 < num := by
    have hnum' : (0 : ℚ) < num := (div_pos_iff_of_pos_right hden').mp hpos
    exact_mod_cast hnum'
  rw [x.magnitude_eq]
  obtain ⟨e, hlow, hhigh⟩ := exists_mem_Ico_zpow hpos (one_lt_two)
  have hplace := placeOf_eq hnum hden hlow hhigh
  have he : e < x.scale + 53 := (zpow_lt_zpow_iff_right₀ one_lt_two).mp (hlow.trans_lt h.lt)
  by_cases hbelow : x.scale = -1074 ∨ x.scale + 52 ≤ e
  · -- The last place is that of the value.
    have hscale : placeOf num den = x.scale := by
      rw [hplace]
      rcases x.scale_eq_or with h | ⟨h, -⟩
      · omega
      · omega
    have hreach := x.reachBelow_le
    have hhalf : ((x.significand : ℚ) - 1 / 2) * 2 ^ x.scale ≤
        (x.significand - x.reachBelow) * 2 ^ x.scale := by gcongr
    exact Binary64.nearestMagnitude_eq hnum hden hscale (hhalf.trans h.low) h.high fun hodd =>
      ⟨hhalf.trans_lt (h.odd hodd).1, (h.odd hodd).2⟩
  · -- The value is a power of two, and the fraction lies below it.
    obtain ⟨hscale, hlast⟩ := not_or.mp hbelow
    obtain ⟨hnormal, hbits⟩ := x.scale_eq_or.resolve_left hscale
    have hless : (num : ℚ) / den < 4503599627370496 * 2 ^ x.scale := by
      calc (num : ℚ) / den < 2 ^ (e + 1) := hhigh
        _ ≤ 2 ^ (52 + x.scale) := (zpow_le_zpow_iff_right₀ one_lt_two).mpr (by omega)
        _ = 4503599627370496 * 2 ^ x.scale := by
          rw [zpow_add₀ two_ne_zero]
          norm_num
    obtain ⟨hpower, hlow'⟩ := h.quarter_le hnormal hbits hless
    rw [nearestMagnitude_below_power hnum hden hnormal hlow' hless, hpower]

/-- Every fraction in the interval of a finite value is rounded to it. -/
theorem Near.nearest_eq {num den : ℕ} (hfinite : x.isFinite) (hzero : x.isZero = false)
    (hden : 0 < den) (h : x.Near (num / den)) : nearest x.negative num den = x := by
  have hlt : x.magnitude.val < infinite := by simpa [isFinite] using hfinite
  rw [nearest, h.nearestMagnitude_eq hzero hden, ofMagnitude]
  have hmin : min x.magnitude.val infinite = x.magnitude.val := Nat.min_eq_left hlt.le
  simp only [hmin]

end

end AgentCompiler.Binary64
