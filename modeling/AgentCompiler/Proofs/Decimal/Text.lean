import Mathlib.Tactic.IntervalCases
import AgentCompiler.Document.CoreScalar
import AgentCompiler.Proofs.Decimal.Shortest

/-!
# The text of a number reads back

A floating-point value is written as its shortest decimal, positionally or with an exponent. Both texts
are `Written` decimals of the same value, and a written decimal is read as the value nearest to it; it
lies in the interval of the value that was written, so that `decimal?_documentText` holds for every
finite value, zeros and their signs included.
-/

namespace AgentCompiler

/-- The characters of a text are decimal digits. -/
def Digits (s : List Char) : Prop := ∀ c ∈ s, c.isDigit = true

namespace Digits

theorem nil : Digits [] := fun _ hc => absurd hc List.not_mem_nil

theorem append {s t : List Char} (hs : Digits s) (ht : Digits t) : Digits (s ++ t) :=
  fun c hc => (List.mem_append.mp hc).elim (hs c) (ht c)

theorem left {s t : List Char} (h : Digits (s ++ t)) : Digits s :=
  fun c hc => h c (List.mem_append_left t hc)

theorem right {s t : List Char} (h : Digits (s ++ t)) : Digits t :=
  fun c hc => h c (List.mem_append_right s hc)

theorem digitChars (n : ℕ) : Digits (Decimal.digitChars n) := fun _ hc =>
  Nat.isDigit_of_mem_toDigits (by norm_num) le_rfl hc

theorem zeros (n : ℕ) : Digits (List.replicate n '0') := fun c hc => by
  rw [List.eq_of_mem_replicate hc]
  rfl

/-- The digits in front of a text are split off when no digit follows. -/
theorem span {s rest : List Char} (h : Digits s) (hrest : ∀ c ∈ rest.head?, c.isDigit = false) :
    (s ++ rest).span Char.isDigit = (s, rest) := by
  rw [List.span_eq_takeWhile_dropWhile, List.takeWhile_append_of_pos h, List.dropWhile_append_of_pos h]
  cases rest with
  | nil => simp
  | cons c rest =>
      have hc : c.isDigit = false := hrest c rfl
      simp [hc]

end Digits

/-! ## Texts of decimals -/

open Decimal (digitChars sign)

/-- The fraction of a decimal: nothing, or digits behind a point. -/
inductive Fraction : List Char → List Char → Prop
  | absent : Fraction [] []
  | point (ds : List Char) : Fraction ('.' :: ds) ds

/-- The end of a decimal: nothing, or an exponent with a sign. -/
inductive Exponent : List Char → ℤ → Prop
  | absent : Exponent [] 0
  | signed (e : ℤ) : Exponent ('e' :: (if e < 0 then '-' else '+') :: digitChars e.natAbs) e

/-- The text of the decimal `k · 10 ^ e` with a sign: digits in front of the point and behind it, and an
exponent. The fraction or the exponent is there. -/
inductive Written (negative : Bool) : List Char → ℕ → ℤ → Prop
  | parts {whole point fraction tail : List Char} {e : ℤ} (hwhole : Digits whole) (hne : whole ≠ [])
      (hpoint : Fraction point fraction) (hfraction : Digits fraction) (htail : Exponent tail e)
      (hmarked : point ++ tail ≠ []) :
      Written negative (sign negative ++ (whole ++ (point ++ tail)))
        (Nat.ofDigitChars 10 (whole ++ fraction) 0) (e - fraction.length)

section

variable {negative : Bool} {s fraction tail : List Char} {k : ℕ} {e : ℤ} {c : Char}

theorem Exponent.head? (h : Exponent s e) : ∀ c ∈ s.head?, c.isDigit = false := by
  cases h with
  | absent => simp
  | signed e => simp

theorem Fraction.head? (h : Fraction s fraction) (htail : Exponent tail e) :
    ∀ c ∈ (s ++ tail).head?, c.isDigit = false := by
  cases h with
  | absent => exact htail.head?
  | point ds => simp

/-- Behind its sign a decimal starts with a digit. -/
theorem Written.head (h : Written negative s k e) :
    ∃ c t, s = sign negative ++ c :: t ∧ c.isDigit = true := by
  cases h with
  | parts hwhole hne =>
      obtain ⟨c, whole, rfl⟩ := List.exists_cons_of_ne_nil hne
      exact ⟨c, _, rfl, hwhole c List.mem_cons_self⟩

/-- A decimal has a point or the mark of an exponent. -/
theorem Written.marked (h : Written negative s k e) : '.' ∈ s ∨ 'e' ∈ s := by
  cases h with
  | parts _ _ hpoint _ htail hmarked =>
      cases hpoint with
      | point ds => simp
      | absent =>
          cases htail with
          | signed e => simp
          | absent => exact absurd rfl hmarked

/-- The characters of a decimal. -/
theorem Written.mem (h : Written negative s k e) (hc : c ∈ s) :
    c.isDigit = true ∨ c ∈ ['-', '+', '.', 'e'] := by
  cases h with
  | parts hwhole _ hpoint hfraction htail =>
      simp only [List.mem_append] at hc
      rcases hc with hsign | hc | hpart | hend
      · cases negative with
        | true => exact .inr (by simp_all [sign])
        | false => cases hsign
      · exact .inl (hwhole c hc)
      · cases hpoint with
        | absent => cases hpart
        | point =>
            rcases List.mem_cons.mp hpart with rfl | hpart
            · simp
            · exact .inl (hfraction c hpart)
      · cases htail with
        | absent => cases hend
        | signed e =>
            rcases List.mem_cons.mp hend with rfl | hend
            · simp
            rcases List.mem_cons.mp hend with rfl | hend
            · split <;> simp
            · exact .inl (Digits.digitChars _ c hend)

end

/-- A whole number is written with its zeros and one more behind the point. -/
theorem written_whole (negative : Bool) {d : Decimal} (h : 0 ≤ d.exponent) :
    ∃ (k : ℕ) (e : ℤ), Written negative (sign negative ++ d.positional true) k e ∧
      (k : ℚ) * 10 ^ e = d.toRat := by
  unfold Decimal.positional
  dsimp only
  rw [if_pos h]
  have hdigits : Digits (digitChars d.digits ++ List.replicate d.exponent.toNat '0') :=
    (Digits.digitChars _).append (.zeros _)
  refine ⟨_, _, .parts hdigits (by simp [digitChars]) (.point ['0']) (.zeros 1) .absent (by simp), ?_⟩
  obtain ⟨n, hn⟩ := Int.eq_ofNat_of_zero_le h
  have hvalue : Nat.ofDigitChars 10
      (digitChars d.digits ++ List.replicate d.exponent.toNat '0' ++ ['0']) 0 =
        10 * (10 ^ n * d.digits) := by
    rw [List.append_assoc, ← List.replicate_succ', Nat.ofDigitChars_append,
      Nat.ofDigitChars_replicate_zero, digitChars, Nat.ofDigitChars_ten_toDigits, hn, Int.toNat_natCast,
      pow_succ']
    ring
  rw [hvalue, Decimal.toRat, hn, zpow_natCast]
  simp
  ring

/-- A decimal with a fraction has the point among its digits, with zeros in front where they are too
few. -/
theorem written_fraction (negative : Bool) {d : Decimal} (h : d.exponent < 0) :
    ∃ (k : ℕ) (e : ℤ), Written negative (sign negative ++ d.positional true) k e ∧
      (k : ℚ) * 10 ^ e = d.toRat := by
  unfold Decimal.positional
  dsimp only
  rw [if_neg (not_le.mpr h)]
  obtain ⟨places, hplaces⟩ : ∃ n : ℕ, d.exponent = -n := ⟨(-d.exponent).toNat, by omega⟩
  have hcount : (-d.exponent).toNat = places := by omega
  rw [hcount]
  generalize hpadded : List.replicate (places + 1 - (digitChars d.digits).length) '0' ++
    digitChars d.digits = padded
  have hdigits : Digits padded := hpadded ▸ (Digits.zeros _).append (.digitChars _)
  have hlength : places < padded.length := by
    rw [← hpadded, List.length_append, List.length_replicate]
    omega
  rw [← List.take_append_drop (padded.length - places) padded] at hdigits
  have hwhole : padded.take (padded.length - places) ≠ [] := by
    rw [← List.length_pos_iff, List.length_take]
    omega
  have hwritten : Written negative _ _ _ :=
    .parts hdigits.left hwhole (.point _) hdigits.right .absent (by simp)
  rw [List.append_nil] at hwritten
  refine ⟨_, _, hwritten, ?_⟩
  rw [List.take_append_drop, ← hpadded, Nat.ofDigitChars_append, Nat.ofDigitChars_replicate_zero,
    mul_zero, digitChars, Nat.ofDigitChars_ten_toDigits, Decimal.toRat, hplaces]
  congr 2
  rw [← digitChars, hpadded, List.length_drop]
  omega

/-- A decimal without an exponent is written as one of the same value. -/
theorem written_positional (negative : Bool) (d : Decimal) :
    ∃ (k : ℕ) (e : ℤ), Written negative (sign negative ++ d.positional true) k e ∧
      (k : ℚ) * 10 ^ e = d.toRat := by
  rcases le_or_gt 0 d.exponent with h | h
  · exact written_whole negative h
  · exact written_fraction negative h

/-- A decimal with an exponent is written as itself. -/
theorem written_scientific (negative : Bool) (d : Decimal) :
    Written negative (sign negative ++ d.scientific) d.digits d.exponent := by
  have hdigits := Digits.digitChars d.digits
  have hvalue : Nat.ofDigitChars 10 (digitChars d.digits) 0 = d.digits :=
    Nat.ofDigitChars_ten_toDigits
  unfold Decimal.scientific Decimal.lead
  dsimp only
  split
  · next c c' ds heq =>
      have hsplit : digitChars d.digits = [c] ++ c' :: ds := heq
      rw [hsplit] at hdigits hvalue ⊢
      have hwritten : Written negative _ _ _ := .parts hdigits.left (List.cons_ne_nil c [])
        (.point (c' :: ds)) hdigits.right (.signed (d.exponent + ([c] ++ c' :: ds).length - 1)) (by simp)
      have hplaces : d.exponent + (([c] ++ c' :: ds).length : ℤ) - 1 - ((c' :: ds).length : ℤ) =
          d.exponent := by
        rw [List.length_append, List.length_singleton]
        push_cast
        ring
      rw [hvalue, hplaces] at hwritten
      exact hwritten
  · next hshort =>
      have hone : (digitChars d.digits).length = 1 := by
        cases hchars : digitChars d.digits with
        | nil => exact absurd hchars Nat.toDigits_ne_nil
        | cons c ds =>
            cases ds with
            | nil => rfl
            | cons c' ds => exact absurd hchars (hshort c c' ds)
      have hwritten : Written negative _ _ _ := .parts hdigits Nat.toDigits_ne_nil .absent .nil
        (.signed (d.exponent + (digitChars d.digits).length - 1)) (by simp)
      have hplaces : d.exponent + ((digitChars d.digits).length : ℤ) - 1 - (([] : List Char).length : ℤ) =
          d.exponent := by
        rw [hone]
        simp
      rw [List.append_nil, hvalue, hplaces] at hwritten
      exact hwritten

/-- The text of a finite value is a decimal that is rounded to this value. -/
theorem written_documentText {x : Binary64} (h : x.isFinite) :
    ∃ (k : ℕ) (e : ℤ), Written x.negative x.documentText k e ∧ .ofDecimal x.negative k e = x := by
  unfold Binary64.documentText
  dsimp only
  cases hzero : x.isZero with
  | true =>
      have hshortest : Decimal.shortest .even x = ⟨0, 0⟩ := by
        rw [Decimal.shortest, hzero]
        rfl
      have hmagnitude : x.magnitude = 0 := Fin.ext (by simpa [Binary64.isZero] using hzero)
      have hx : Binary64.zero x.negative = x := by
        cases x with
        | mk negative magnitude =>
            cases hmagnitude
            rfl
      obtain ⟨k, e, hwritten, hvalue⟩ := written_positional x.negative ⟨0, 0⟩
      have hk : k = 0 := by
        simpa [Decimal.toRat, (zpow_pos (show (0 : ℚ) < 10 by norm_num) e).ne'] using hvalue
      rw [hshortest]
      refine ⟨k, e, hwritten, ?_⟩
      rw [hk, Binary64.ofDecimal]
      simp [hx]
  | false =>
      have hnear := Decimal.near_shortest .even h hzero
      split
      · obtain ⟨k, e, hwritten, hvalue⟩ := written_positional x.negative (Decimal.shortest .even x)
        rw [← hvalue] at hnear
        exact ⟨k, e, hwritten, Decimal.ofDecimal_of_near h hzero hnear⟩
      · exact ⟨_, _, written_scientific _ _, Decimal.ofDecimal_of_near h hzero hnear⟩

namespace Document.CoreScalar

/-! ## Reading integers -/

theorem digit?_of_isDigit {c : Char} (h : c.isDigit = true) :
    digit? 10 c = some (c.toNat - '0'.toNat) := by
  have hle : c.toNat ≤ 57 := (Char.isDigit_iff_toNat.mp h).2
  have hlt : c.toNat - '0'.toNat < 10 := Nat.lt_of_le_of_lt (Nat.sub_le_sub_right hle 48) (by norm_num)
  unfold digit?
  rw [if_pos h, Option.filter_some, if_pos (decide_eq_true hlt)]

/-- Digits are read as the number they stand for. -/
theorem natural?_of_digits {s : List Char} (h : Digits s) (hne : s ≠ []) :
    natural? 10 s = some (Nat.ofDigitChars 10 s 0) := by
  have hfold (init : ℕ) : s.foldlM (fun n c => (digit? 10 c).map (n * 10 + ·)) init =
      some (Nat.ofDigitChars 10 s init) := by
    clear hne
    induction s generalizing init with
    | nil => rfl
    | cons c s ih =>
        rw [List.foldlM_cons, digit?_of_isDigit (h c List.mem_cons_self), Nat.ofDigitChars_cons,
          mul_comm 10]
        exact ih (fun d hd => h d (List.mem_cons_of_mem _ hd)) _
  cases s with
  | nil => exact absurd rfl hne
  | cons c s => exact hfold 0

theorem natural?_digitChars (n : ℕ) : natural? 10 (digitChars n) = some n := by
  rw [natural?_of_digits (.digitChars n) Nat.toDigits_ne_nil]
  exact congrArg some Nat.ofDigitChars_ten_toDigits

/-- A sign is split off a text that starts with a digit. -/
theorem splitSign_sign (negative : Bool) {c : Char} (h : c.isDigit = true) (s : List Char) :
    splitSign (sign negative ++ c :: s) = (negative, c :: s) := by
  cases negative with
  | true => rfl
  | false =>
      show splitSign (c :: s) = (false, c :: s)
      unfold splitSign
      split
      · next heq =>
          cases heq
          cases h
      · next heq =>
          cases heq
          cases h
      · rfl

/-- The digits of a positive number start with no zero. -/
theorem head?_digitChars {n : ℕ} (h : 0 < n) : (digitChars n).head? ≠ some '0' := by
  induction n using Nat.strongRecOn with
  | _ n ih =>
      unfold digitChars at ih ⊢
      rw [Nat.toDigits_eq_if (by norm_num)]
      split
      · next hlt =>
          intro hzero
          have hdigit : Nat.digitChar n = '0' := Option.some.inj hzero
          interval_cases n <;> cases hdigit
      · next hge =>
          rw [List.head?_append_of_ne_nil _ Nat.toDigits_ne_nil]
          exact ih (n / 10) (by omega) (by omega)

/-! ## Reading decimals -/

theorem splitSign_exponent (e : ℤ) :
    splitSign ((if e < 0 then '-' else '+') :: digitChars e.natAbs) =
      (decide (e < 0), digitChars e.natAbs) := by
  by_cases hneg : e < 0
  · rw [if_pos hneg, decide_eq_true hneg]
    rfl
  · rw [if_neg hneg, decide_eq_false hneg]
    rfl

theorem ite_neg_abs (e : ℤ) : (if e < 0 then -|e| else |e|) = e := by
  split
  · next hneg => rw [abs_of_neg hneg, neg_neg]
  · next hnonneg => exact abs_of_nonneg (not_lt.mp hnonneg)

theorem foldl_digits (s : List Char) (init : ℕ) :
    s.foldl (fun n c => n * 10 + (c.toNat - '0'.toNat)) init = Nat.ofDigitChars 10 s init := by
  simp only [mul_comm _ 10]
  rfl

/-- A decimal is read as the value nearest to it. -/
theorem decimal?_of_written {negative : Bool} {s : List Char} {k : ℕ} {e : ℤ}
    (h : Written negative s k e) : decimal? s = some (.ofDecimal negative k e) := by
  cases h with
  | parts hwhole hne hpoint hfraction htail hmarked =>
      obtain ⟨c, whole, rfl⟩ := List.exists_cons_of_ne_nil hne
      have hspan := hwhole.span (hpoint.head? htail)
      have hspan' := hfraction.span htail.head?
      unfold decimal?
      rw [List.cons_append, splitSign_sign negative (hwhole c List.mem_cons_self), ← List.cons_append]
      simp only [hspan, foldl_digits]
      cases hpoint with
      | absent =>
          cases htail with
          | absent => simp
          | signed e =>
              rw [List.nil_append]
              simp [splitSign_exponent, natural?_digitChars, ite_neg_abs]
      | point =>
          simp only [List.cons_append, hspan']
          cases htail with
          | absent => simp
          | signed e => simp [splitSign_exponent, natural?_digitChars, ite_neg_abs]

/-- The text of a finite value is read as this value. -/
theorem decimal?_documentText {x : Binary64} (h : x.isFinite) : decimal? x.documentText = some x := by
  obtain ⟨k, e, hwritten, hx⟩ := written_documentText h
  rw [decimal?_of_written hwritten, hx]

end Document.CoreScalar

end AgentCompiler
