import AgentCompiler.Json.Pointer
import AgentCompiler.Proofs.Decimal.Text
import AgentCompiler.Proofs.Text.Pieces

/-!
# What a pointer leads to

A pointer (RFC 6901) goes from a value to one inside it, token by token. `Leads` says where it leads by the
rules of pointers alone, and `leads_iff` that following a pointer finds just that.
-/

namespace AgentCompiler

open Decimal (digitChars)

/-! ## Indices -/

/-- A digit is the one character of its number. -/
theorem digitChars_of_isDigit {c : Char} (h : c.isDigit = true) :
    c.toNat - '0'.toNat < 10 ∧ digitChars (c.toNat - '0'.toNat) = [c] := by
  have hbounds : 48 ≤ c.toNat ∧ c.toNat ≤ 57 := Char.isDigit_iff_toNat.mp h
  have hlast : c.toNat - '0'.toNat < 10 := by
    show c.toNat - 48 < 10
    omega
  refine ⟨hlast, ?_⟩
  rw [digitChars, Nat.toDigits_of_lt_base hlast, List.singleton_inj]
  refine Char.toNat_inj.mp ?_
  rw [Nat.toNat_digitChar_of_lt_ten hlast]
  show 48 + (c.toNat - 48) = c.toNat
  omega

/-- Digits behind those of a positive number are the last ones of a number. -/
theorem digitChars_append {s : List Char} (h : Digits s) {n : ℕ} (hn : 0 < n) :
    digitChars n ++ s = digitChars (Nat.ofDigitChars 10 s n) := by
  induction s generalizing n with
  | nil => exact List.append_nil _
  | cons c s ih =>
      obtain ⟨hlast, hdigit⟩ := digitChars_of_isDigit (h c List.mem_cons_self)
      have hstep : digitChars n ++ [c] = digitChars (10 * n + (c.toNat - '0'.toNat)) := by
        rw [← hdigit]
        exact Nat.toDigits_append_toDigits (by decide) hn hlast
      rw [Nat.ofDigitChars_cons, ← ih (fun d hd => h d (List.mem_cons_of_mem c hd)) (by omega), ← hstep,
        List.append_assoc, List.singleton_append]

namespace Json

theorem foldl_index (s : List Char) (n : ℕ) :
    s.foldl (fun n d => n * 10 + (d.toNat - '0'.toNat)) n = Nat.ofDigitChars 10 s n := by
  induction s generalizing n with
  | nil => rfl
  | cons c s ih => rw [List.foldl_cons, ih, Nat.ofDigitChars_cons, Nat.mul_comm]

/-- An index is read from its digits, and from nothing else. -/
theorem indexOf?_eq_some_iff {token : List Char} {i : ℕ} :
    indexOf? token = some i ↔ token = digitChars i := by
  constructor
  · intro h
    unfold indexOf? at h
    split at h
    · cases h
    · cases h
      rfl
    · next c cs _ =>
        split at h
        · next hdigits =>
            obtain ⟨hzero, hall⟩ := hdigits
            obtain rfl := Option.some.inj h
            rw [List.all_cons, Bool.and_eq_true] at hall
            have hpos : 0 < c.toNat - '0'.toNat := by
              have hle : 48 ≤ c.toNat := (Char.isDigit_iff_toNat.mp hall.1).1
              have hne : c.toNat ≠ 48 := fun heq => hzero (Char.toNat_inj.mp heq)
              show 0 < c.toNat - 48
              omega
            rw [foldl_index, Nat.ofDigitChars_cons, Nat.mul_zero, Nat.zero_add,
              ← digitChars_append (List.all_eq_true.mp hall.2) hpos, (digitChars_of_isDigit hall.1).2]
            rfl
        · cases h
  · rintro rfl
    rcases Nat.eq_zero_or_pos i with rfl | hpos
    · rfl
    have hzero := Document.CoreScalar.head?_digitChars hpos
    have hdigits : Digits (digitChars i) := .digitChars i
    have hvalue : Nat.ofDigitChars 10 (digitChars i) 0 = i := Nat.ofDigitChars_ten_toDigits
    obtain ⟨c, cs, hsplit⟩ := List.exists_cons_of_ne_nil (Nat.toDigits_ne_nil (b := 10) (n := i))
    rw [show digitChars i = c :: cs from hsplit] at hzero hdigits hvalue ⊢
    have hfirst : c ≠ '0' := fun heq => hzero (congrArg some heq)
    unfold indexOf?
    split
    · next heq => cases heq
    · next heq =>
        cases heq
        exact absurd rfl hfirst
    · next heq =>
        cases heq
        rw [if_pos ⟨hfirst, List.all_eq_true.mpr hdigits⟩, foldl_index, hvalue]

/-! ## Keys -/

/-- A token spells a key: it has `~1` for a slash and `~0` for a tilde. A tilde with neither digit behind it
stands for itself, as all other characters do. -/
inductive Spells : List Char → List Char → Prop
  | nil : Spells [] []
  | slash {token key : List Char} (rest : Spells token key) : Spells ('~' :: '1' :: token) ('/' :: key)
  | tilde {token key : List Char} (rest : Spells token key) : Spells ('~' :: '0' :: token) ('~' :: key)
  | plain {c : Char} {token key : List Char}
      (alone : c = '~' → token.head? ≠ some '0' ∧ token.head? ≠ some '1') (rest : Spells token key) :
      Spells (c :: token) (c :: key)

theorem spells_unescapeToken (token : List Char) : Spells token (unescapeToken token) := by
  fun_induction unescapeToken token with
  | case1 token ih => exact .slash ih
  | case2 token ih => exact .tilde ih
  | case3 c token hslash htilde ih =>
      refine .plain (fun htwo => ⟨fun hzero => ?_, fun hone => ?_⟩) ih
      · obtain ⟨ds, rfl⟩ := List.head?_eq_some_iff.mp hzero
        exact htilde ds htwo rfl
      · obtain ⟨ds, rfl⟩ := List.head?_eq_some_iff.mp hone
        exact hslash ds htwo rfl
  | case4 => exact .nil

/-- The key of a token is the token with its escapes undone. -/
theorem spells_iff {token key : List Char} : Spells token key ↔ key = unescapeToken token := by
  constructor
  · intro h
    induction h with
    | nil => rfl
    | slash _ ih => rw [ih, unescapeToken]
    | tilde _ ih => rw [ih, unescapeToken]
    | @plain c token key alone _ ih =>
        rw [ih, unescapeToken]
        · rintro ds rfl rfl
          exact (alone rfl).2 rfl
        · rintro ds rfl rfl
          exact (alone rfl).1 rfl
  · rintro rfl
    exact spells_unescapeToken token

/-! ## Steps -/

/-- A key names a member of an object, or is the decimal index of an item. -/
inductive Child : Json → List Char → Json → Prop
  | member {ms : List (String × Json)} {key : List Char} {value : Json}
      (found : ms.lookup (String.ofList key) = some value) : Child (.obj ms) key value
  | item {items : List Json} {i : ℕ} {value : Json} (found : items[i]? = some value) :
      Child (.arr items) (digitChars i) value

theorem child_iff {j value : Json} {key : List Char} : Child j key value ↔ child? j key = some value := by
  constructor
  · rintro (found | found)
    · exact found
    · exact Option.bind_eq_some_iff.mpr ⟨_, indexOf?_eq_some_iff.mpr rfl, found⟩
  · intro h
    cases j with
    | obj ms => exact .member h
    | arr items =>
        obtain ⟨i, hi, found⟩ := Option.bind_eq_some_iff.mp h
        obtain rfl := indexOf?_eq_some_iff.mp hi
        exact .item found
    | null | bool _ | num _ | str _ => cases h

/-! ## Pointers -/

/-- A pointer leads from a value to itself, or by the child of its first token to where the rest leads. -/
inductive Leads : Json → List Char → Json → Prop
  | here {value : Json} : Leads value [] value
  | step {value next target : Json} {token key rest : List Char} (whole : '/' ∉ token)
      (spelt : Spells token key) (child : Child value key next) (onward : Leads next rest target) :
      Leads value ('/' :: (token ++ rest)) target

/-- A pointer whose tokens hold no slash is split into these. -/
theorem splitOn_tokens {tokens : List (List Char)} (h : ∀ token ∈ tokens, '/' ∉ token) :
    (tokens.flatMap ('/' :: ·)).splitOn '/' = [] :: tokens := by
  induction tokens with
  | nil => rfl
  | cons token tokens ih =>
      have hrest := ih fun t ht => h t (List.mem_cons_of_mem token ht)
      have htoken : token.splitOn '/' = [token] := List.splitOn_eq_singleton (h token List.mem_cons_self)
      rw [List.flatMap_cons, List.cons_append, List.splitOn_cons_eq_if_modifyHead, if_pos (by decide)]
      cases tokens with
      | nil => rw [List.flatMap_nil, List.append_nil, htoken]
      | cons next tokens =>
          rw [List.flatMap_cons, List.cons_append, List.splitOn_cons_eq_if_modifyHead,
            if_pos (by decide)] at hrest
          rw [List.flatMap_cons, List.cons_append, List.splitOn_append_cons_self, htoken,
            List.cons.inj hrest |>.2, List.singleton_append]

theorem intercalate_tokens (first : List Char) (tokens : List (List Char)) :
    ['/'].intercalate (first :: tokens) = first ++ tokens.flatMap ('/' :: ·) := by
  induction tokens generalizing first with
  | nil => simp
  | cons token tokens ih =>
      rw [List.intercalate_cons_cons, ih, List.flatMap_cons, List.append_assoc, List.singleton_append,
        List.cons_append]

/-- A pointer is followed token by token. -/
theorem pointer?_eq_some_iff {document target : Json} {pointer : List Char} :
    document.pointer? (.ofList pointer) = some target ↔ ∃ tokens : List (List Char),
      (∀ token ∈ tokens, '/' ∉ token) ∧ pointer = tokens.flatMap ('/' :: ·) ∧
        (tokens.map unescapeToken).foldlM child? document = some target := by
  unfold pointer?
  rw [String.toList_ofList]
  constructor
  · intro h
    split at h
    · next tokens hsplit =>
        refine ⟨tokens, fun token htoken hslash => ?_, ?_, h⟩
        · have hpiece : token ∈ pointer.splitOn '/' := hsplit ▸ List.mem_cons_of_mem [] htoken
          have hnone := Text.eq_false_of_mem_splitOnP hpiece '/' hslash
          cases hnone
        · have hpieces : ['/'].intercalate (pointer.splitOn '/') = pointer := List.intercalate_splitOn '/'
          rw [← hpieces, hsplit, intercalate_tokens, List.nil_append]
    · cases h
  · rintro ⟨tokens, hwhole, rfl, htarget⟩
    rw [splitOn_tokens hwhole]
    exact htarget

/-- Following a pointer finds what it leads to, and nothing else. -/
theorem leads_iff {document target : Json} {pointer : List Char} :
    Leads document pointer target ↔ document.pointer? (.ofList pointer) = some target := by
  rw [pointer?_eq_some_iff]
  constructor
  · intro h
    induction h with
    | here => exact ⟨[], List.forall_mem_nil _, rfl, rfl⟩
    | @step value next target token key rest whole spelt child _ ih =>
        obtain ⟨tokens, hwhole, rfl, htarget⟩ := ih
        refine ⟨token :: tokens, List.forall_mem_cons.mpr ⟨whole, hwhole⟩, rfl, ?_⟩
        rw [List.map_cons, List.foldlM_cons, ← spells_iff.mp spelt, child_iff.mp child]
        exact htarget
  · rintro ⟨tokens, hwhole, rfl, htarget⟩
    induction tokens generalizing document with
    | nil =>
        cases htarget
        exact .here
    | cons token tokens ih =>
        rw [List.map_cons, List.foldlM_cons] at htarget
        obtain ⟨next, hnext, hrest⟩ := Option.bind_eq_some_iff.mp htarget
        obtain ⟨hfirst, hlater⟩ := List.forall_mem_cons.mp hwhole
        exact .step hfirst (spells_unescapeToken token) (child_iff.mpr hnext) (ih hlater hrest)

end Json

end AgentCompiler
