import Mathlib.Data.List.Chain
import AgentCompiler.Name.Namespace
import AgentCompiler.Proofs.Name.Distinct
import AgentCompiler.Proofs.Text.Pieces

/-!
# The shape of cleaned names

A cleaned name consists of lower-case letters, digits and underscores, of which no two stand next to
each other and none stands last. A counter keeps this shape. A namespace is such a name, or the
beginning of one with a digest behind it, so it has no three underscores in a row and does not end in
one. This is why a dispatch key can be taken apart in one way only.
-/

namespace AgentCompiler.Name

/-- A lower-case letter or a digit. -/
def isWordChar (c : Char) : Bool := c.isLower || c.isDigit

/-- A lower-case letter, a digit or an underscore. -/
def isKeyChar (c : Char) : Bool := isWordChar c || c == '_'

/-- Lower-case letters, digits and single underscores, none of them at the end. -/
structure Joined (s : List Char) : Prop where
  chars : ∀ c ∈ s, isKeyChar c
  apart : s.IsChain fun a b => a = '_' → b ≠ '_'
  last : ∀ c ∈ s.getLast?, c ≠ '_'

/-! ## Characters -/

theorem isKeyChar_of_isWordChar {c : Char} (h : isWordChar c) : isKeyChar c := by
  rw [isKeyChar, h, Bool.true_or]

theorem ne_underscore_of_isWordChar {c : Char} (h : isWordChar c) : c ≠ '_' := by
  rintro rfl
  exact absurd h (by decide)

/-- What holds of every letter and digit among the ASCII characters holds of all letters and digits. -/
theorem of_isAlphanum {p : Char → Prop}
    (hall : ∀ n < 128, (Char.ofNat n).isAlphanum → p (Char.ofNat n)) {c : Char}
    (h : c.isAlphanum) : p c := by
  have hascii : c.toNat < 128 := by
    have hrange : c.isAlphanum = true := h
    delta Char.isAlphanum Char.isAlpha Char.isUpper Char.isLower Char.isDigit at hrange
    simp only [ge_iff_le, Bool.or_eq_true, Bool.and_eq_true, decide_eq_true_eq,
      UInt32.le_iff_toNat_le] at hrange
    change c.val.toNat < 128
    rcases hrange with (⟨-, hle⟩ | ⟨-, hle⟩) | ⟨-, hle⟩
    all_goals exact lt_of_le_of_lt hle (by decide)
  have hc := hall c.toNat hascii
  rw [Char.ofNat_toNat] at hc
  exact hc h

/-- A letter or digit in lower case is a character of a word. -/
theorem isWordChar_toLower {c : Char} (h : c.isAlphanum) : isWordChar c.toLower :=
  of_isAlphanum (p := fun c => isWordChar c.toLower) (by decide) h

/-- A digit of a number is a character of a word. -/
theorem isWordChar_of_mem_digitChars {n : Nat} {c : Char} (h : c ∈ Decimal.digitChars n) :
    isWordChar c := by
  have hdigit : c.isDigit := Nat.isDigit_of_mem_toDigits (by decide) (by decide) h
  rw [isWordChar, hdigit, Bool.or_true]

/-! ## Cleaned names -/

namespace Joined

/-- A word has the shape of a name. -/
theorem ofWord {s : List Char} (h : ∀ c ∈ s, isWordChar c) : Joined s where
  chars c hc := isKeyChar_of_isWordChar (h c hc)
  apart := by
    induction s with
    | nil => exact .nil
    | cons c s ih =>
        refine (ih fun d hd => h d (List.mem_cons_of_mem _ hd)).cons fun d hd _ => ?_
        exact ne_underscore_of_isWordChar (h d (List.mem_cons_of_mem _ (List.mem_of_mem_head? hd)))
  last c hc := ne_underscore_of_isWordChar (h c (List.mem_of_getLast? hc))

/-- A name is joined to a word by an underscore. -/
theorem append {s t : List Char} (hs : Joined s) (ht : Joined t) (hne : t ≠ [])
    (hhead : ∀ c ∈ t.head?, c ≠ '_') : Joined (s ++ '_' :: t) where
  chars c hc := by
    rcases List.mem_append.mp hc with hc | hc
    · exact hs.chars c hc
    · rcases List.mem_cons.mp hc with rfl | hc
      · rfl
      · exact ht.chars c hc
  apart := by
    refine hs.apart.append (ht.apart.cons fun c hc _ => hhead c hc) fun c hc d _ hunder => ?_
    exact absurd hunder (hs.last c hc)
  last c hc := by
    rw [List.getLast?_append_of_ne_nil _ (List.cons_ne_nil _ _),
      List.getLast?_cons_of_ne_nil hne] at hc
    exact ht.last c hc

/-- A single underscore may stand in front of a name that starts with another character. -/
theorem cons {s : List Char} (hs : Joined s) (hne : s ≠ []) (hhead : ∀ c ∈ s.head?, c ≠ '_') :
    Joined ('_' :: s) where
  chars c hc := by
    rcases List.mem_cons.mp hc with rfl | hc
    · rfl
    · exact hs.chars c hc
  apart := hs.apart.cons fun c hc _ => hhead c hc
  last c hc := by
    rw [List.getLast?_cons_of_ne_nil hne] at hc
    exact hs.last c hc

theorem intercalate_ne_nil {w : List Char} (ws : List (List Char)) (hw : w ≠ []) :
    List.intercalate ['_'] (w :: ws) ≠ [] := by
  cases ws with
  | nil => rwa [List.intercalate_singleton]
  | cons w' ws =>
      rw [List.intercalate_cons_cons, List.append_assoc]
      exact List.append_ne_nil_of_left_ne_nil hw _

/-- Words joined by underscores have the shape of a name, and do not start with an underscore. -/
theorem intercalate {ws : List (List Char)} (h : ∀ w ∈ ws, w ≠ [] ∧ ∀ c ∈ w, isWordChar c) :
    Joined (List.intercalate ['_'] ws) ∧
      ∀ c ∈ (List.intercalate ['_'] ws).head?, isWordChar c := by
  induction ws with
  | nil =>
      rw [List.intercalate_nil]
      exact ⟨ofWord (List.forall_mem_nil _), fun c hc => by cases hc⟩
  | cons w ws ih =>
      obtain ⟨hne, hchars⟩ := h w List.mem_cons_self
      have hhead : ∀ c ∈ w.head?, isWordChar c := fun c hc => hchars c (List.mem_of_mem_head? hc)
      cases ws with
      | nil =>
          rw [List.intercalate_singleton]
          exact ⟨ofWord hchars, hhead⟩
      | cons w' ws =>
          obtain ⟨hrest, hrestHead⟩ := ih fun v hv => h v (List.mem_cons_of_mem _ hv)
          obtain ⟨hne', -⟩ := h w' (List.mem_cons_of_mem _ List.mem_cons_self)
          have hrestNe := intercalate_ne_nil ws hne'
          rw [List.intercalate_cons_cons, List.append_assoc]
          refine ⟨(ofWord hchars).append hrest hrestNe
            fun c hc => ne_underscore_of_isWordChar (hrestHead c hc), ?_⟩
          rw [List.head?_append_of_ne_nil _ hne]
          exact hhead

end Joined

/-- The words of a text are not empty and consist of lower-case letters and digits. -/
theorem mem_words {s w : List Char} (h : w ∈ words s) : w ≠ [] ∧ ∀ c ∈ w, isWordChar c := by
  obtain ⟨run, hrun, rfl⟩ := List.mem_map.mp h
  obtain ⟨hpiece, hne⟩ := List.mem_filter.mp hrun
  refine ⟨fun hnil => ?_, fun c hc => ?_⟩
  · rw [List.map_eq_nil_iff] at hnil
    subst hnil
    cases hne
  · obtain ⟨d, hd, rfl⟩ := List.mem_map.mp hc
    have halnum := Text.eq_false_of_mem_splitOnP hpiece d hd
    exact isWordChar_toLower (by simpa using halnum)

/-- A cleaned name has the shape of a name, and is not empty. -/
theorem joined_snake (s : String) : Joined (snake s).toList ∧ (snake s).toList ≠ [] := by
  rw [snake, String.toList_ofList, variableChars]
  obtain ⟨hjoined, hhead⟩ := Joined.intercalate fun w hw => mem_words (s := s.toList) hw
  split
  · exact ⟨.ofWord (List.all_eq_true.mp (by decide)), by decide⟩
  · next c cs heq =>
      rw [heq] at hjoined hhead
      split
      · refine ⟨hjoined.cons (List.cons_ne_nil c cs) fun d hd => ?_, List.cons_ne_nil _ _⟩
        exact ne_underscore_of_isWordChar (hhead d hd)
      · exact ⟨hjoined, List.cons_ne_nil c cs⟩

/-- A counter keeps the shape of a name. -/
theorem Joined.numbered {name : String} (h : Joined name.toList) (k : Nat) :
    Joined (numbered name k).toList := by
  have hdigits : ∀ c ∈ Decimal.digitChars k, isWordChar c := fun c hc =>
    isWordChar_of_mem_digitChars hc
  have hchars : (Name.numbered name k).toList = name.toList ++ '_' :: Decimal.digitChars k := by
    simp [Name.numbered, Decimal.natural]
  rw [hchars]
  exact h.append (.ofWord hdigits) Nat.toDigits_ne_nil fun c hc =>
    ne_underscore_of_isWordChar (hdigits c (List.mem_of_mem_head? hc))

/-- Distinct cleaned names have the shape of names. -/
theorem joined_of_mem_distinct {names : List String} {n : String}
    (h : ∀ m ∈ names, Joined m.toList) (hn : n ∈ distinct names) : Joined n.toList := by
  rcases mem_distinct hn with hn | ⟨m, hm, k, rfl⟩
  · exact h n hn
  · exact (h m hm).numbered k

/-- Distinct names are made of the characters of names. -/
theorem isKeyChar_of_mem_distinct {names : List String} {n : String}
    (h : ∀ m ∈ names, ∀ c ∈ m.toList, isKeyChar c) (hn : n ∈ distinct names) :
    ∀ c ∈ n.toList, isKeyChar c := by
  rcases mem_distinct hn with hn | ⟨m, hm, k, rfl⟩
  · exact h n hn
  · intro c hc
    simp only [numbered, Decimal.natural, String.toList_append, String.toList_ofList,
      List.mem_append] at hc
    rcases hc with (hc | hc) | hc
    · exact h m hm c hc
    · obtain rfl := List.mem_singleton.mp hc
      rfl
    · exact isKeyChar_of_isWordChar (isWordChar_of_mem_digitChars hc)

/-! ## Cut names -/

/-- A hexadecimal digit is a character of a word. -/
theorem isWordChar_digitChar {n : Nat} (h : n < 16) : isWordChar (Nat.digitChar n) := by
  have hall : ∀ n < 16, isWordChar (Nat.digitChar n) := by decide
  exact hall n h

/-- A digest has thirty-two bytes. -/
theorem length_sha256 (message : List UInt8) : (Digest.Sha256.digest message).length = 32 := by
  simp only [Digest.Sha256.digest, Digest.Sha256.bytesOf, List.length_flatMap, List.length_map,
    List.length_reverse, List.length_range]
  rfl

/-- The digest behind a cut name has six characters of words. -/
theorem digest_spec (name : String) :
    (digest name).length = 6 ∧ ∀ c ∈ (digest name).toList, isWordChar c := by
  have hlength : (Digest.Sha256.hex name).length = 64 := by
    rw [Digest.Sha256.hex, String.length_ofList, List.length_flatMap]
    simp only [Digest.Sha256.hexByte, List.length_cons, List.length_nil, List.map_const',
      List.sum_replicate_nat, length_sha256]
  refine ⟨?_, fun c hc => ?_⟩
  · rw [digest, String.length_ofList, List.length_take, String.length_toList, hlength]
    rfl
  · rw [digest, String.toList_ofList] at hc
    have hhex := List.mem_of_mem_take hc
    rw [Digest.Sha256.hex, String.toList_ofList] at hhex
    obtain ⟨b, -, hb⟩ := List.mem_flatMap.mp hhex
    have hbyte := b.toNat_lt
    simp only [Digest.Sha256.hexByte, List.mem_cons, List.not_mem_nil, or_false] at hb
    rcases hb with rfl | rfl
    · exact isWordChar_digitChar (by omega)
    · exact isWordChar_digitChar (by omega)

/-- A cut name with its digest. -/
theorem toList_prune_of_lt {name : String} {budget : Nat} (h : budget < name.length) :
    (prune name budget).toList = name.toList.take budget ++ '_' :: (digest name).toList := by
  rw [prune, if_neg (by omega)]
  simp

theorem length_prune_of_lt {name : String} {budget : Nat} (h : budget < name.length) :
    (prune name budget).length = budget + 7 := by
  rw [← String.length_toList, toList_prune_of_lt h, List.length_append, List.length_take,
    List.length_cons, String.length_toList, String.length_toList, (digest_spec name).1]
  omega

theorem length_prune_le (name : String) (budget : Nat) :
    (prune name budget).length ≤ budget + 7 := by
  by_cases h : name.length ≤ budget
  · rw [prune, if_pos h]
    omega
  · rw [length_prune_of_lt (by omega)]

/-- A cut name is made of the characters of names. -/
theorem isKeyChar_of_mem_prune {name : String} {budget : Nat} (h : ∀ c ∈ name.toList, isKeyChar c) :
    ∀ c ∈ (prune name budget).toList, isKeyChar c := by
  by_cases hle : name.length ≤ budget
  · rw [prune, if_pos hle]
    exact h
  · rw [toList_prune_of_lt (by omega)]
    intro c hc
    rcases List.mem_append.mp hc with hc | hc
    · exact h c (List.mem_of_mem_take hc)
    · rcases List.mem_cons.mp hc with rfl | hc
      · rfl
      · exact isKeyChar_of_isWordChar ((digest_spec name).2 c hc)

theorem bound_of_length_le {name : String} (h : name.length ≤ 64) : bound name maxLength = name :=
  if_pos (.inl h)

theorem bound_of_lt_length {name : String} (h : 64 < name.length) :
    bound name maxLength = prune name 57 :=
  if_neg (by simp only [maxLength]; omega)

/-- Different names stay different when they are cut to one budget, unless both are cut and have the
same digest. -/
theorem prune_ne {m n : String} {budget : Nat} (hne : m ≠ n)
    (hdigest : budget < m.length → budget < n.length → digest m ≠ digest n) :
    prune m budget ≠ prune n budget := by
  intro heq
  have hlength := congrArg String.length heq
  by_cases hm : budget < m.length
  · by_cases hn : budget < n.length
    · -- The digests are the last six characters of both.
      have hchars := congrArg String.toList heq
      rw [toList_prune_of_lt hm, toList_prune_of_lt hn] at hchars
      have htail := List.append_inj_right' hchars (by
        rw [List.length_cons, List.length_cons, String.length_toList, String.length_toList,
          (digest_spec m).1, (digest_spec n).1])
      exact hdigest hm hn (String.toList_injective (List.cons_eq_cons.mp htail).2)
    · rw [length_prune_of_lt hm, prune, if_pos (by omega)] at hlength
      omega
  · by_cases hn : budget < n.length
    · rw [length_prune_of_lt hn, prune, if_pos (by omega)] at hlength
      omega
    · rw [prune, if_pos (by omega), prune, if_pos (by omega)] at heq
      exact hne heq

end AgentCompiler.Name
