import AgentCompiler.Proofs.Name.Joined

/-!
# Names that are identifiers

An identifier is a word that starts with a letter or an underscore, and is not reserved. The reserved
words are made of letters, so a word with an underscore in it only has to have the right shape. A cleaned
name has it, and what is put behind it to keep it apart begins with an underscore.
-/

namespace AgentCompiler.Name

variable {word name : String}

/-! ## Characters -/

theorem ne_underscore_of_isAlphanum {c : Char} (h : c.isAlphanum) : c ≠ '_' := by
  rintro rfl
  exact absurd h (by decide)

theorem isAlphanum_of_isAlpha {c : Char} (h : c.isAlpha) : c.isAlphanum := by
  rw [Char.isAlphanum, h, Bool.true_or]

theorem isAlpha_of_isUpper {c : Char} (h : c.isUpper) : c.isAlpha :=
  Bool.or_eq_true_iff.mpr (.inl h)

theorem isAlpha_of_isLower {c : Char} (h : c.isLower) : c.isAlpha :=
  Bool.or_eq_true_iff.mpr (.inr h)

theorem isInner_of_isAlphanum {c : Char} (h : c.isAlphanum) : isInner c := by
  rw [isInner, h, Bool.true_or]

theorem isAlphanum_of_isWordChar {c : Char} (h : isWordChar c) : c.isAlphanum := by
  rw [isWordChar, Bool.or_eq_true] at h
  rcases h with hlower | hdigit
  · exact isAlphanum_of_isAlpha (isAlpha_of_isLower hlower)
  · rw [Char.isAlphanum, hdigit, Bool.or_true]

/-! ## The shape of identifiers -/

/-- The shape of an identifier: a letter or an underscore comes first, and letters, digits and
underscores follow. -/
structure IsWord (word : String) : Prop where
  head : ∃ c ∈ word.toList.head?, isInitial c
  chars : ∀ c ∈ word.toList, isInner c

/-- A word is an identifier when it is not reserved. -/
theorem isIdentifier_iff : isIdentifier word ↔ IsWord word ∧ isKeyword word = false := by
  have hinner {c : Char} (hc : isInitial c) : isInner c := by
    rw [isInitial, Bool.or_eq_true] at hc
    rw [isInner, Bool.or_eq_true]
    exact hc.imp_left isAlphanum_of_isAlpha
  rw [isIdentifier]
  cases hword : word.toList with
  | nil =>
      refine iff_of_false Bool.false_ne_true fun h => ?_
      obtain ⟨c, hc, -⟩ := h.1.head
      rw [hword] at hc
      cases hc
  | cons c cs =>
      simp only [Bool.and_eq_true, Bool.not_eq_true', List.all_eq_true]
      constructor
      · rintro ⟨⟨hc, hcs⟩, hkeyword⟩
        refine ⟨⟨⟨c, ?_, hc⟩, ?_⟩, hkeyword⟩
        · rw [hword]
          rfl
        · rw [hword]
          exact List.forall_mem_cons.mpr ⟨hinner hc, hcs⟩
      · rintro ⟨⟨⟨d, hd, hinitial⟩, hchars⟩, hkeyword⟩
        rw [hword] at hd hchars
        obtain rfl := Option.some.inj hd
        exact ⟨⟨hinitial, (List.forall_mem_cons.mp hchars).2⟩, hkeyword⟩

/-- The reserved words have no underscores. -/
theorem isKeyword_eq_false (h : '_' ∈ word.toList) : isKeyword word = false := by
  have hletters : ∀ w ∈ keywords, '_' ∉ w.toList := by decide +kernel
  rw [Bool.eq_false_iff, isKeyword]
  exact fun hmem => hletters word (List.contains_iff_mem.mp hmem) h

/-- A word is an identifier when an underscore and what may follow it stand behind it. -/
theorem IsWord.isIdentifier_append {tail : String} (h : IsWord word)
    (htail : ∀ c ∈ tail.toList, isInner c) (hunder : '_' ∈ tail.toList) :
    isIdentifier (word ++ tail) := by
  have hchars : (word ++ tail).toList = word.toList ++ tail.toList := String.toList_append
  refine isIdentifier_iff.mpr ⟨⟨?_, ?_⟩, isKeyword_eq_false ?_⟩
  · obtain ⟨c, hc, hinitial⟩ := h.head
    refine ⟨c, ?_, hinitial⟩
    rw [hchars, List.head?_append, Option.mem_def.mp hc]
    rfl
  · rw [hchars]
    exact List.forall_mem_append.mpr ⟨h.chars, htail⟩
  · rw [hchars]
    exact List.mem_append_right _ hunder

/-- A counter keeps a name an identifier. -/
theorem isIdentifier_numbered (h : isIdentifier name) (k : Nat) : isIdentifier (numbered name k) := by
  have htail : ("_" ++ Decimal.natural k).toList = '_' :: Decimal.digitChars k := by
    simp [Decimal.natural]
  rw [numbered, String.append_assoc]
  refine (isIdentifier_iff.mp h).1.isIdentifier_append ?_ ?_
  · rw [htail]
    refine List.forall_mem_cons.mpr ⟨rfl, fun c hc => isInner_of_isAlphanum ?_⟩
    exact isAlphanum_of_isWordChar (isWordChar_of_mem_digitChars hc)
  · rw [htail]
    exact List.mem_cons_self

/-- Identifiers stay identifiers when they get counters. -/
theorem isIdentifier_of_mem_distinct {names : List String} (h : ∀ n ∈ names, isIdentifier n)
    (hname : name ∈ distinct names) : isIdentifier name := by
  rcases mem_distinct hname with hmem | ⟨n, hn, k, rfl⟩
  · exact h name hmem
  · exact isIdentifier_numbered (h n hn) k

/-- A cleaned name has the shape of an identifier. -/
theorem isWord_snake (s : String) : IsWord (snake s) where
  head := by
    rw [snake, String.toList_ofList, variableChars]
    split
    · exact ⟨'v', rfl, rfl⟩
    · next c cs hwords =>
        split
        · exact ⟨'_', rfl, rfl⟩
        · next hdigit =>
            have hhead := (Joined.intercalate fun w hw => mem_words (s := s.toList) hw).2 c
            rw [hwords] at hhead
            have hchar := hhead rfl
            rw [isWordChar, Bool.eq_false_iff.mpr hdigit, Bool.or_false] at hchar
            refine ⟨c, rfl, ?_⟩
            rw [isInitial, isAlpha_of_isLower hchar, Bool.true_or]
  chars c hc := by
    have hkey := (joined_snake s).1.chars c hc
    rw [isKeyChar, Bool.or_eq_true, beq_iff_eq] at hkey
    rcases hkey with hword | rfl
    · exact isInner_of_isAlphanum (isAlphanum_of_isWordChar hword)
    · rfl

end AgentCompiler.Name
