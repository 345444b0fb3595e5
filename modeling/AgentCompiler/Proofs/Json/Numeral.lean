import AgentCompiler.Proofs.Code.ReadBack

/-!
# Numerals

The numbers of the grammar of JSON: behind a minus sign or none, a zero or digits that start with no
zero, then a point and at least one digit or nothing, then an exponent or nothing. The text of every
integer and of every finite floating-point value is such a numeral, and what it stands for is read back
from it.
-/

namespace AgentCompiler.Json.Grammar

open Decimal (digitChars sign)
open Code

/-! ## Reading numerals -/

/-- What is left behind at least one digit. -/
def pastDigits? (s : List Char) : Option (List Char) :=
  if s.head?.any Char.isDigit then some (s.dropWhile Char.isDigit) else none

/-- What is left behind the digits in front of the point. Behind a leading zero there are none. -/
def pastWhole? (s : List Char) : Option (List Char) :=
  if s.head? = some '0' then some s.tail else pastDigits? s

/-- What is left behind a fraction, if there is one. -/
def pastFraction? (s : List Char) : Option (List Char) :=
  if s.head? = some '.' then pastDigits? s.tail else some s

/-- What is left behind an exponent, if there is one. -/
def pastExponent? (s : List Char) : Option (List Char) :=
  if s.head? = some 'e' ∨ s.head? = some 'E' then
    pastDigits? (if s.tail.head? = some '+' ∨ s.tail.head? = some '-' then s.tail.tail else s.tail)
  else some s

/-- What is left behind a minus sign, if there is one. -/
def pastMinus (s : List Char) : List Char := if s.head? = some '-' then s.tail else s

/-- What is left behind a numeral. -/
def pastNumeral? (s : List Char) : Option (List Char) := do
  pastExponent? (← pastFraction? (← pastWhole? (pastMinus s)))

/-- The number in front of a text, and what is left behind it. -/
def number? (s : List Char) : Option (Number × List Char) := do
  let rest ← pastNumeral? s
  let n ← Display.number? (s.take (s.length - rest.length))
  some (n, rest)

/-! ## The numerals of the grammar -/

/-- A character that may go on a numeral. -/
def isNumeralChar (c : Char) : Bool := c.isDigit || c = '.' || c = 'e' || c = 'E'

/-- The digits in front of the point. -/
inductive Whole : List Char → Prop
  | zero : Whole ['0']
  | digits {c : Char} {ds : List Char} (hc : c ≠ '0') (h : Digits (c :: ds)) : Whole (c :: ds)

/-- A fraction with its point; nothing when it has no digits. -/
def pointed (ds : List Char) : List Char := if ds.isEmpty then [] else '.' :: ds

/-- A numeral behind its sign. -/
inductive Numeral : List Char → Prop
  | parts {whole fraction tail : List Char} {e : ℤ} (hwhole : Whole whole)
      (hfraction : Digits fraction) (htail : Exponent tail e) :
      Numeral (whole ++ (pointed fraction ++ tail))

variable {s t rest : List Char} {c : Char}

theorem pastDigits?_append (h : Digits s) (hne : s ≠ [])
    (hrest : ∀ c ∈ rest.head?, c.isDigit = false) : pastDigits? (s ++ rest) = some rest := by
  obtain ⟨c, s, rfl⟩ := List.exists_cons_of_ne_nil hne
  have hspan := h.span hrest
  rw [List.span_eq_takeWhile_dropWhile, Prod.mk.injEq] at hspan
  rw [pastDigits?, hspan.2, if_pos]
  simpa using h c List.mem_cons_self

theorem Whole.digit_head (h : Whole s) : ∃ c ds, s = c :: ds ∧ c.isDigit = true := by
  cases h with
  | zero => exact ⟨'0', [], rfl, rfl⟩
  | @digits c ds hc h => exact ⟨c, ds, rfl, h c List.mem_cons_self⟩

theorem pastMinus_append (negative : Bool) (h : Whole s) :
    pastMinus (sign negative ++ (s ++ rest)) = s ++ rest := by
  cases negative with
  | true => rfl
  | false =>
      obtain ⟨c, ds, rfl, hc⟩ := h.digit_head
      refine if_neg fun heq => ?_
      obtain rfl := Option.some.inj heq
      cases hc

theorem pastWhole?_append (h : Whole s) (hrest : ∀ c ∈ rest.head?, c.isDigit = false) :
    pastWhole? (s ++ rest) = some rest := by
  cases h with
  | zero => rfl
  | @digits c ds hc h =>
      have hzero : ¬(c :: ds ++ rest).head? = some '0' := fun heq => hc (Option.some.inj heq)
      rw [pastWhole?, if_neg hzero]
      exact pastDigits?_append h (List.cons_ne_nil _ _) hrest

theorem pastFraction?_append (h : Digits s)
    (hrest : ∀ c ∈ rest.head?, c.isDigit = false ∧ c ≠ '.') :
    pastFraction? (pointed s ++ rest) = some rest := by
  cases s with
  | nil =>
      have hpoint : ¬rest.head? = some '.' := fun heq => (hrest '.' heq).2 rfl
      exact if_neg hpoint
  | cons c s => exact pastDigits?_append h (List.cons_ne_nil _ _) fun c hc => (hrest c hc).1

theorem pastExponent?_append {e : ℤ} (h : Exponent s e)
    (hrest : ∀ c ∈ rest.head?, isNumeralChar c = false) : pastExponent? (s ++ rest) = some rest := by
  have hne {c : Char} (hc : isNumeralChar c = true) : ¬rest.head? = some c := fun heq => by
    rw [hrest c heq] at hc
    cases hc
  cases h with
  | absent => exact if_neg (not_or.mpr ⟨hne rfl, hne rfl⟩)
  | signed e =>
      have hsign : (if e < 0 then '-' else '+') = '+' ∨ (if e < 0 then '-' else '+') = '-' := by
        split <;> simp
      have hdigit (c : Char) (hc : c ∈ rest.head?) : c.isDigit = false := by
        have hnumeral := hrest c hc
        simp only [isNumeralChar, Bool.or_eq_false_iff] at hnumeral
        exact hnumeral.1.1.1
      rw [pastExponent?, if_pos (.inl rfl), if_pos (by simpa using hsign)]
      exact pastDigits?_append (.digitChars _) Nat.toDigits_ne_nil hdigit

/-- A numeral is read to its end. -/
theorem pastNumeral?_append (negative : Bool) (h : Numeral s)
    (hrest : ∀ c ∈ rest.head?, isNumeralChar c = false) :
    pastNumeral? (sign negative ++ (s ++ rest)) = some rest := by
  cases h with
  | @parts whole fraction tail e hwhole hfraction htail =>
      have hmark (c : Char) (hc : c ∈ (tail ++ rest).head?) : c.isDigit = false ∧ c ≠ '.' := by
        cases htail with
        | signed e =>
            obtain rfl := Option.some.inj hc
            decide
        | absent =>
            have hnumeral := hrest c hc
            simp only [isNumeralChar, Bool.or_eq_false_iff, decide_eq_false_iff_not] at hnumeral
            exact hnumeral.1.1
      have hdigit (c : Char) (hc : c ∈ (pointed fraction ++ (tail ++ rest)).head?) :
          c.isDigit = false := by
        cases fraction with
        | nil => exact (hmark c hc).1
        | cons d ds =>
            obtain rfl := Option.some.inj hc
            rfl
      rw [pastNumeral?, List.append_assoc, List.append_assoc, pastMinus_append negative hwhole,
        pastWhole?_append hwhole hdigit]
      exact (congrArg (· >>= pastExponent?) (pastFraction?_append hfraction hmark)).trans
        (pastExponent?_append htail hrest)

/-! ## The texts of numbers -/

theorem Whole.of_isDigit (h : c.isDigit = true) : Whole [c] := by
  rcases eq_or_ne c '0' with rfl | hc
  · exact .zero
  · exact .digits hc fun d hd => List.mem_singleton.mp hd ▸ h

/-- The digits of a positive number start with no zero, whatever digits follow them. -/
theorem Whole.of_pos {n : ℕ} (hn : 0 < n) (ht : Digits t) : Whole (digitChars n ++ t) := by
  have hzero := Document.CoreScalar.head?_digitChars hn
  obtain ⟨c, ds, hsplit, -⟩ := Display.exists_digitChars n
  have hdigits := (Digits.digitChars n).append ht
  rw [hsplit] at hzero hdigits ⊢
  exact .digits (fun heq => hzero (congrArg some heq)) hdigits

theorem whole_digitChars (n : ℕ) : Whole (digitChars n) := by
  rcases Nat.eq_zero_or_pos n with rfl | hn
  · exact .zero
  · simpa using Whole.of_pos hn .nil

theorem Whole.take (h : Whole s) {n : ℕ} (hn : 0 < n) : Whole (s.take n) := by
  obtain ⟨n, rfl⟩ := Nat.exists_eq_add_of_lt hn
  rw [Nat.zero_add]
  cases h with
  | zero =>
      rw [List.take_succ_cons, List.take_nil]
      exact .zero
  | digits hc h => exact .digits hc fun d hd => h d (List.mem_of_mem_take (i := n + 1) hd)

/-- The digits of an integer without its sign. -/
theorem numeral_digitChars (n : ℕ) : Numeral (digitChars n) := by
  have hnumeral : Numeral (digitChars n ++ (pointed [] ++ [])) :=
    .parts (whole_digitChars n) .nil .absent
  simpa [pointed] using hnumeral

theorem Numeral.of_point (h : Whole s) (ht : Digits t) (hne : t ≠ []) : Numeral (s ++ '.' :: t) := by
  have hnumeral : Numeral (s ++ (pointed t ++ [])) := .parts h ht .absent
  rwa [pointed, if_neg (by simpa using hne), List.append_nil] at hnumeral

/-- Digits behind so many zeros that one more digit stands there than `places`. -/
def padded (n places : ℕ) : List Char :=
  List.replicate (places + 1 - (digitChars n).length) '0' ++ digitChars n

theorem digits_padded (n places : ℕ) : Digits (padded n places) := (Digits.zeros _).append (.digitChars n)

theorem length_padded (n places : ℕ) :
    (padded n places).length = max (places + 1) (digitChars n).length := by
  rw [padded, List.length_append, List.length_replicate]
  omega

/-- In front of the places stand the first digits, or one zero when there are too few. -/
theorem whole_padded (n places : ℕ) :
    Whole ((padded n places).take ((padded n places).length - places)) := by
  have hlength := length_padded n places
  rcases Nat.lt_or_ge places (digitChars n).length with hmany | hfew
  · have hnone : padded n places = digitChars n := by
      rw [padded, Nat.sub_eq_zero_of_le hmany, List.replicate_zero, List.nil_append]
    exact hnone ▸ (whole_digitChars n).take (by omega)
  · have hone : (padded n places).length - places = 1 := by omega
    have hzero : padded n places = '0' :: (padded n places).tail := by
      rw [padded, Nat.sub_add_comm hfew, List.replicate_succ]
      rfl
    rw [hone, hzero, List.take_succ_cons, List.take_zero]
    exact .zero

/-- A positional decimal of a value that is not zero, or of the plain zero. -/
theorem numeral_positional {d : Decimal} (h : 0 < d.digits ∨ d.exponent = 0) :
    Numeral (d.positional true) := by
  unfold Decimal.positional
  dsimp only
  split
  · refine .of_point ?_ (.zeros 1) (List.cons_ne_nil _ _)
    rcases h with hpos | hzero
    · exact .of_pos hpos (.zeros _)
    · rw [hzero]
      simpa using whole_digitChars d.digits
  · generalize hplaces : (-d.exponent).toNat = places
    refine .of_point (whole_padded d.digits places)
      (fun c hc => digits_padded d.digits places c (List.mem_of_mem_drop hc)) ?_
    have hlength := length_padded d.digits places
    rw [← List.length_pos_iff, List.length_drop]
    show 0 < (padded d.digits places).length - ((padded d.digits places).length - places)
    omega

/-- A decimal with an exponent. -/
theorem numeral_scientific (d : Decimal) : Numeral d.scientific := by
  have hdigits := Digits.digitChars d.digits
  unfold Decimal.scientific
  dsimp only
  split
  · next c c' ds heq =>
      rw [heq] at hdigits
      have hfraction : Digits (c' :: ds) := fun b hb => hdigits b (List.mem_cons_of_mem c hb)
      exact .parts (.of_isDigit (hdigits c List.mem_cons_self)) hfraction (.signed _)
  · next hshort =>
      obtain ⟨c, ds, hsplit, hc⟩ := Display.exists_digitChars d.digits
      cases ds with
      | cons c' ds => exact absurd hsplit (hshort c c' ds)
      | nil =>
          rw [hsplit]
          exact .parts (.of_isDigit hc) Digits.nil (.signed _)

/-- The text of a finite floating-point value. -/
theorem numeral_documentText {x : Binary64} (h : x.isFinite) :
    ∃ s, x.documentText = sign x.negative ++ s ∧ Numeral s := by
  refine ⟨_, rfl, ?_⟩
  have hstrict : 0 < (Decimal.shortest .even x).digits ∨ (Decimal.shortest .even x).exponent = 0 := by
    cases hzero : x.isZero with
    | true =>
        right
        rw [Decimal.shortest, hzero]
        rfl
    | false =>
        left
        have hpos := (Decimal.near_shortest .even h hzero).pos hzero
        rw [Decimal.toRat] at hpos
        exact_mod_cast pos_of_mul_pos_left hpos (by positivity)
  split
  · exact numeral_positional hstrict
  · exact numeral_scientific _

/-- The text of a number is a numeral behind a sign or none. -/
theorem numeral_text {n : Number} (h : (Json.num n).Valid) :
    ∃ negative s, n.text = sign negative ++ s ∧ Numeral s := by
  cases h with
  | integer n => exact ⟨_, _, Display.intText_eq n, numeral_digitChars _⟩
  | real h => exact ⟨_, numeral_documentText h⟩

/-- The text of a number starts with a digit or a minus sign. -/
theorem exists_text {n : Number} (h : (Json.num n).Valid) :
    ∃ c s, n.text = c :: s ∧ (c.isDigit = true ∨ c = '-') := by
  obtain ⟨negative, s, htext, hnumeral⟩ := numeral_text h
  cases negative with
  | true => exact ⟨_, _, htext, .inr rfl⟩
  | false =>
      cases hnumeral with
      | parts hwhole =>
          obtain ⟨c, ds, rfl, hc⟩ := hwhole.digit_head
          exact ⟨_, _, htext, .inl hc⟩

/-- A number is read from its text. -/
theorem number?_text {n : Number} (h : (Json.num n).Valid)
    (hrest : ∀ c ∈ rest.head?, isNumeralChar c = false) :
    number? (n.text ++ rest) = some (n, rest) := by
  obtain ⟨negative, s, htext, hnumeral⟩ := numeral_text h
  have hpast : pastNumeral? (n.text ++ rest) = some rest := by
    rw [htext, List.append_assoc]
    exact pastNumeral?_append negative hnumeral hrest
  have hvalue : Display.number? n.text = some n := by
    cases h with
    | integer n => exact Display.number?_intText n
    | real h => exact Display.number?_documentText h
  unfold number?
  rw [hpast]
  simp [hvalue]

end AgentCompiler.Json.Grammar
