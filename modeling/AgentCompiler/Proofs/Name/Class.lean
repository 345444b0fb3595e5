import AgentCompiler.Proofs.Name.Identifier

/-!
# The shape of class names

A class name starts with a capital, which leaves three of the reserved words that it can be: those that
are values. `pascal_mem_constants_iff` says which texts become such a word, and `exists_pascal_eq` that every
short word of letters and digits behind a capital is the class of some text.
-/

namespace AgentCompiler.Name

/-! ## Capitals -/

/-- A walk along a text that drops the underscores. A character behind an underscore is put in upper
case and every other one in lower case; `up` says whether there has just been an underscore. -/
def recase : (up : Bool) → List Char → List Char
  | _, [] => []
  | up, c :: cs =>
    if c = '_' then recase true cs
    else (if up then c.toUpper else c.toLower) :: recase false cs

/-- The capitalised words of a text are what a walk along it leaves. -/
theorem camel_eq (s : List Char) : camel s = recase true (classStem s) := by
  -- Behind an underscore the first word is capitalised, and else only the later ones are.
  have hsplit (t : List Char) : ∃ word rest, t.splitOn '_' = word :: rest ∧
      capitalize word ++ rest.flatMap capitalize = recase true t ∧
      word.map Char.toLower ++ rest.flatMap capitalize = recase false t := by
    induction t with
    | nil => exact ⟨[], [], rfl, rfl, rfl⟩
    | cons c t ih =>
        obtain ⟨word, rest, hwords, htrue, hfalse⟩ := ih
        simp only [List.splitOn] at hwords ⊢
        rw [List.splitOnP_cons_eq_if_modifyHead, hwords]
        by_cases hc : c = '_'
        · subst hc
          exact ⟨[], word :: rest, rfl, htrue, htrue⟩
        · refine ⟨c :: word, rest, by simp [hc], ?_, ?_⟩
          · rw [recase, if_neg hc, ← hfalse]
            rfl
          · rw [recase, if_neg hc, ← hfalse]
            rfl
  obtain ⟨word, rest, hwords, htrue, -⟩ := hsplit (classStem s)
  rw [camel, hwords, List.flatMap_cons, htrue]

/-- Letters and digits stay letters and digits in the other case, and none gets a small letter in upper
case. -/
theorem case_spec {c : Char} (h : c.isAlphanum) :
    c.toUpper.isAlphanum ∧ c.toLower.isAlphanum ∧ c.toUpper.isLower = false ∧
      (c.isUpper → c.toUpper = c) ∧ (c.isUpper = false → c.toLower = c) :=
  of_isAlphanum (p := fun c => c.toUpper.isAlphanum ∧ c.toLower.isAlphanum ∧
    c.toUpper.isLower = false ∧ (c.isUpper → c.toUpper = c) ∧ (c.isUpper = false → c.toLower = c))
    (by decide) h

theorem isUpper_toUpper {c : Char} (h : c.isAlpha) : c.toUpper.isUpper :=
  of_isAlphanum (p := fun c => c.isAlpha → c.toUpper.isUpper) (by decide) (isAlphanum_of_isAlpha h) h

/-- A walk along letters, digits and underscores leaves letters and digits. -/
theorem isAlphanum_of_mem_recase {up : Bool} {s : List Char} (h : ∀ c ∈ s, isInner c) :
    ∀ d ∈ recase up s, d.isAlphanum := by
  induction s generalizing up with
  | nil => exact List.forall_mem_nil _
  | cons c s ih =>
      obtain ⟨hc, hs⟩ := List.forall_mem_cons.mp h
      rw [recase]
      split
      · exact ih hs
      · next hne =>
          have halnum : c.isAlphanum := by simpa [isInner, hne] using hc
          refine List.forall_mem_cons.mpr ⟨?_, ih hs⟩
          cases up with
          | true => exact (case_spec halnum).1
          | false => exact (case_spec halnum).2.1

/-! ## The shape of a class name -/

/-- What stands in a class stem for a character. -/
def stemChar (c : Char) : Char := if c.isAlphanum then c else '_'

/-- The stem of a text that starts with a letter is the text with underscores in it. -/
theorem classStem_cons {c : Char} (hc : c.isAlpha) (t : List Char) :
    classStem (c :: t) = c :: t.map stemChar := by
  have halnum : c.isAlphanum = true := isAlphanum_of_isAlpha hc
  simp only [classStem, List.map_cons, halnum, if_true, hc]
  rfl

/-- Any other text stands behind a prefix. -/
theorem classStem_cases (s : List Char) :
    (∃ c t, s = c :: t ∧ c.isAlpha) ∨ classStem s = "Model_".toList ++ s.map stemChar := by
  cases s with
  | nil => exact .inr rfl
  | cons c t =>
      by_cases hc : c.isAlpha
      · exact .inl ⟨c, t, rfl, hc⟩
      · refine .inr ?_
        have hfirst : (stemChar c).isAlpha = false := by
          rw [stemChar]
          split
          · exact Bool.eq_false_iff.mpr hc
          · rfl
        show (if (stemChar c).isAlpha then _ else _) = _
        rw [hfirst]
        rfl

theorem isInner_stemChar (c : Char) : isInner (stemChar c) := by
  rw [stemChar]
  split
  · next h => exact isInner_of_isAlphanum h
  · rfl

/-- Letters, digits and underscores stay in a stem. -/
theorem map_stemChar {s : List Char} (h : ∀ c ∈ s, isInner c) : s.map stemChar = s := by
  refine (List.map_congr_left fun c hc => ?_).trans (List.map_id s)
  have hinner := h c hc
  rw [isInner, Bool.or_eq_true, decide_eq_true_eq] at hinner
  rcases hinner with halnum | rfl
  · exact if_pos halnum
  · rfl

/-- The stem of a class starts with a letter, and letters, digits and underscores follow. -/
theorem classStem_spec (s : List Char) :
    ∃ c t, classStem s = c :: t ∧ c.isAlpha ∧ ∀ d ∈ classStem s, isInner d := by
  have hmap (t : List Char) : ∀ d ∈ t.map stemChar, isInner d := by
    intro d hd
    obtain ⟨c, -, rfl⟩ := List.mem_map.mp hd
    exact isInner_stemChar c
  rcases classStem_cases s with ⟨c, t, rfl, hc⟩ | hstem
  · refine ⟨c, t.map stemChar, classStem_cons hc t, hc, ?_⟩
    rw [classStem_cons hc]
    exact List.forall_mem_cons.mpr ⟨isInner_of_isAlphanum (isAlphanum_of_isAlpha hc), hmap t⟩
  · refine ⟨'M', "odel_".toList ++ s.map stemChar, hstem, by decide, ?_⟩
    rw [hstem]
    exact List.forall_mem_append.mpr ⟨List.all_eq_true.mp (by decide), hmap s⟩

/-- A capital, behind which letters and digits stand. -/
theorem camel_spec (s : List Char) :
    ∃ c t, camel s = c :: t ∧ c.isUpper ∧ ∀ d ∈ camel s, d.isAlphanum := by
  obtain ⟨c, t, hstem, hc, hinner⟩ := classStem_spec s
  refine ⟨c.toUpper, recase false t, ?_, isUpper_toUpper hc, ?_⟩
  · rw [camel_eq, hstem, recase, if_neg (ne_underscore_of_isAlphanum (isAlphanum_of_isAlpha hc))]
    rfl
  · rw [camel_eq]
    exact isAlphanum_of_mem_recase hinner

/-- The shape of a class name. -/
structure IsClass (name : String) : Prop where
  head : ∃ c ∈ name.toList.head?, c.isUpper
  chars : ∀ c ∈ name.toList, isInner c
  length_le : name.length ≤ maxLength

theorem isClass_pascal (s : String) : IsClass (pascal s) := by
  obtain ⟨c, t, hcamel, hupper, halnum⟩ := camel_spec s.toList
  have hinner : ∀ d ∈ camel s.toList, isInner d := fun d hd => isInner_of_isAlphanum (halnum d hd)
  rw [pascal]
  rcases Nat.lt_or_ge 64 (String.ofList (camel s.toList)).length with hlong | hshort
  · rw [bound_of_lt_length hlong]
    have hcut : 57 < (String.ofList (camel s.toList)).length := lt_trans (by decide) hlong
    have hchars := toList_prune_of_lt hcut
    rw [String.toList_ofList] at hchars
    refine ⟨⟨c, ?_, hupper⟩, fun d hd => ?_, ?_⟩
    · rw [hchars, hcamel]
      rfl
    · rw [hchars] at hd
      rcases List.mem_append.mp hd with hd | hd
      · exact hinner d (List.mem_of_mem_take hd)
      · rcases List.mem_cons.mp hd with rfl | hd
        · rfl
        · exact isInner_of_isAlphanum (isAlphanum_of_isWordChar ((digest_spec _).2 d hd))
    · exact length_prune_le _ 57
  · rw [bound_of_length_le hshort]
    refine ⟨⟨c, ?_, hupper⟩, ?_, hshort⟩
    · rw [String.toList_ofList, hcamel]
      rfl
    · rw [String.toList_ofList]
      exact hinner

/-- The reserved words that are values. -/
def constants : List String := ["False", "None", "True"]

theorem IsClass.isWord {name : String} (h : IsClass name) : IsWord name where
  head := by
    obtain ⟨c, hc, hupper⟩ := h.head
    exact ⟨c, hc, by rw [isInitial, isAlpha_of_isUpper hupper, Bool.true_or]⟩
  chars := h.chars

/-- A class name is an identifier unless it is one of the reserved words that start with a capital. -/
theorem IsClass.isIdentifier_iff {name : String} (h : IsClass name) :
    isIdentifier name ↔ name ∉ constants := by
  have hkeyword : isKeyword name ↔ name ∈ constants := by
    have hcapital : ∀ word ∈ keywords, word.toList.head?.any Char.isUpper → word ∈ constants := by
      decide +kernel
    have hsubset : constants ⊆ keywords := by decide
    obtain ⟨c, hhead, hupper⟩ := h.head
    rw [isKeyword, List.contains_iff_mem]
    refine ⟨fun hmem => hcapital name hmem ?_, fun hmem => hsubset hmem⟩
    rw [Option.mem_def.mp hhead]
    exact hupper
  rw [Name.isIdentifier_iff, and_iff_right h.isWord, ← hkeyword, Bool.not_eq_true]

/-! ## Texts of one class -/

/-- A text spells a word: it has the letters of the word in any case, and no letters or digits behind
them. -/
def Spells (s word : List Char) : Prop :=
  ∃ letters rest, s = letters ++ rest ∧ letters.map Char.toLower = word.map Char.toLower ∧
    ∀ c ∈ rest, c.isAlphanum = false

/-- Behind an underscore the first letter or digit is no small letter. -/
theorem eq_nil_of_recase_true {s word : List Char} (hword : ∀ c ∈ word, c.isLower)
    (h : recase true (s.map stemChar) = word) : word = [] ∧ ∀ c ∈ s, c.isAlphanum = false := by
  induction s generalizing word with
  | nil => exact ⟨h.symm, List.forall_mem_nil _⟩
  | cons c s ih =>
      by_cases hc : c.isAlphanum
      · rw [List.map_cons, stemChar, if_pos hc, recase,
          if_neg (ne_underscore_of_isAlphanum hc)] at h
        have hlower := hword c.toUpper (h ▸ List.mem_cons_self)
        rw [(case_spec hc).2.2.1] at hlower
        cases hlower
      · rw [List.map_cons, stemChar, if_neg hc, recase, if_pos rfl] at h
        obtain ⟨hnil, hs⟩ := ih hword h
        exact ⟨hnil, List.forall_mem_cons.mpr ⟨Bool.eq_false_iff.mpr hc, hs⟩⟩

/-- A walk leaves small letters alone when these stand in the text, in any case, with no letter or digit
behind them. -/
theorem spells_of_recase_false {s word : List Char} (hword : ∀ c ∈ word, c.isLower)
    (h : recase false (s.map stemChar) = word) :
    ∃ letters rest, s = letters ++ rest ∧ letters.map Char.toLower = word ∧
      ∀ c ∈ rest, c.isAlphanum = false := by
  induction s generalizing word with
  | nil => exact ⟨[], [], rfl, h, List.forall_mem_nil _⟩
  | cons c s ih =>
      by_cases hc : c.isAlphanum
      · rw [List.map_cons, stemChar, if_pos hc, recase,
          if_neg (ne_underscore_of_isAlphanum hc)] at h
        subst h
        obtain ⟨letters, rest, rfl, hletters, hrest⟩ :=
          ih (fun d hd => hword d (List.mem_cons_of_mem _ hd)) rfl
        exact ⟨c :: letters, rest, rfl, by rw [List.map_cons, hletters]; rfl, hrest⟩
      · rw [List.map_cons, stemChar, if_neg hc, recase, if_pos rfl] at h
        obtain ⟨rfl, hs⟩ := eq_nil_of_recase_true hword h
        exact ⟨[], c :: s, rfl, rfl, List.forall_mem_cons.mpr ⟨Bool.eq_false_iff.mpr hc, hs⟩⟩

/-- A walk leaves nothing of characters that are no letters or digits. -/
theorem recase_of_not_isAlphanum {up : Bool} {s : List Char} (h : ∀ c ∈ s, c.isAlphanum = false) :
    recase up (s.map stemChar) = [] := by
  induction s generalizing up with
  | nil => rfl
  | cons c s ih =>
      obtain ⟨hc, hs⟩ := List.forall_mem_cons.mp h
      rw [List.map_cons, stemChar, if_neg (by rw [hc]; exact Bool.false_ne_true), recase, if_pos rfl,
        ih hs]

/-- Away from underscores letters and digits are put in lower case. -/
theorem recase_false_append {s t : List Char} (h : ∀ c ∈ s, c.isAlphanum) :
    recase false (s ++ t) = s.map Char.toLower ++ recase false t := by
  induction s with
  | nil => rfl
  | cons c s ih =>
      obtain ⟨hc, hs⟩ := List.forall_mem_cons.mp h
      rw [List.cons_append, recase, if_neg (ne_underscore_of_isAlphanum hc), ih hs]
      rfl

/-- A character is a letter when it is a small letter in lower case. -/
theorem isAlpha_of_isLower_toLower {c : Char} (h : c.toLower.isLower) : c.isAlpha := by
  unfold Char.toLower at h
  split at h
  · next hrange => exact isAlpha_of_isUpper (decide_eq_true hrange)
  · exact isAlpha_of_isLower h

/-- Small letters stay in lower case. -/
theorem map_toLower_of_isLower {word : List Char} (h : ∀ c ∈ word, c.isLower) :
    word.map Char.toLower = word := by
  refine (List.map_congr_left fun c hc => ?_).trans (List.map_id word)
  have halnum := isAlphanum_of_isAlpha (isAlpha_of_isLower (h c hc))
  exact of_isAlphanum (p := fun c => c.isLower → c.toLower = c) (by decide) halnum (h c hc)

/-- A letter has a capital for its upper case when both are one letter in lower case. -/
theorem toUpper_eq_iff {a c : Char} (ha : a.isAlpha) (hc : c.isUpper) :
    a.toUpper = c ↔ a.toLower = c.toLower := by
  have hcase {c : Char} (h : c.isAlphanum) :
      c.toUpper.toLower = c.toLower ∧ c.toLower.toUpper = c.toUpper :=
    of_isAlphanum (p := fun c => c.toUpper.toLower = c.toLower ∧ c.toLower.toUpper = c.toUpper)
      (by decide) h
  have halnum : c.isAlphanum := isAlphanum_of_isAlpha (isAlpha_of_isUpper hc)
  constructor
  · rintro rfl
    exact (hcase (isAlphanum_of_isAlpha ha)).1.symm
  · intro heq
    rw [← (hcase (isAlphanum_of_isAlpha ha)).2, heq, (hcase halnum).2]
    exact (case_spec halnum).2.2.2.1 hc

/-- The capitalised words of a text are one word behind a capital exactly when the text spells that
word. A word behind `M` is left out: a text without a letter at its start is put behind `Model_`. -/
theorem camel_eq_iff {s word : List Char} {c : Char} (hc : c.isUpper) (hm : c ≠ 'M')
    (hword : ∀ d ∈ word, d.isLower) : camel s = c :: word ↔ Spells s (c :: word) := by
  have hlower := map_toLower_of_isLower hword
  constructor
  · intro h
    rw [camel_eq] at h
    rcases classStem_cases s with ⟨a, t, rfl, ha⟩ | hstem
    · rw [classStem_cons ha, recase,
        if_neg (ne_underscore_of_isAlphanum (isAlphanum_of_isAlpha ha))] at h
      obtain ⟨hhead, htail⟩ := List.cons_eq_cons.mp h
      obtain ⟨letters, rest, rfl, hletters, hrest⟩ := spells_of_recase_false hword htail
      refine ⟨a :: letters, rest, rfl, ?_, hrest⟩
      rw [List.map_cons, List.map_cons, hletters, hlower, (toUpper_eq_iff ha hc).mp hhead]
    · rw [hstem] at h
      exact absurd (List.cons_eq_cons.mp h).1.symm hm
  · rintro ⟨letters, rest, rfl, hletters, hrest⟩
    cases letters with
    | nil => cases hletters
    | cons a letters =>
        obtain ⟨hhead, htail⟩ := List.cons_eq_cons.mp hletters
        rw [hlower] at htail
        have ha : a.isAlpha := isAlpha_of_isLower_toLower (by
          rw [hhead]
          exact of_isAlphanum (p := fun c => c.isUpper → c.toLower.isLower) (by decide)
            (isAlphanum_of_isAlpha (isAlpha_of_isUpper hc)) hc)
        have halnum : ∀ d ∈ letters, d.isAlphanum := fun d hd =>
          isAlphanum_of_isAlpha (isAlpha_of_isLower_toLower
            (hword _ (htail ▸ List.mem_map_of_mem hd)))
        have hstem := map_stemChar fun d hd => isInner_of_isAlphanum (halnum d hd)
        rw [camel_eq, List.cons_append, classStem_cons ha, List.map_append, hstem, recase,
          if_neg (ne_underscore_of_isAlphanum (isAlphanum_of_isAlpha ha)),
          recase_false_append halnum, recase_of_not_isAlphanum hrest, List.append_nil, htail]
        exact congrArg (· :: word) ((toUpper_eq_iff ha hc).mpr hhead)

/-- A class that is not cut is made of the capitalised words of its text. A cut one is as long as a
class can be. -/
theorem pascal_eq_iff_camel {s name : String} (h : name.length < maxLength) :
    pascal s = name ↔ camel s.toList = name.toList := by
  rw [pascal]
  rcases Nat.lt_or_ge 64 (String.ofList (camel s.toList)).length with hlong | hshort
  · rw [bound_of_lt_length hlong]
    refine iff_of_false (fun heq => ?_) fun heq => ?_
    · have hcut : 57 < (String.ofList (camel s.toList)).length := lt_trans (by decide) hlong
      have hlength := length_prune_of_lt hcut
      rw [heq] at hlength
      exact absurd h (hlength ▸ by decide)
    · rw [heq, String.ofList_toList] at hlong
      exact absurd hlong (Nat.not_lt.mpr h.le)
  · rw [bound_of_length_le hshort, ← String.toList_inj, String.toList_ofList]

/-- A class is a reserved word exactly when its text spells one of the reserved words that are
values. -/
theorem pascal_mem_constants_iff (s : String) :
    pascal s ∈ constants ↔ ∃ word ∈ constants, Spells s.toList word.toList := by
  have hshape : ∀ word ∈ constants, word.length < maxLength ∧
      ∃ c t, word.toList = c :: t ∧ c.isUpper ∧ c ≠ 'M' ∧ ∀ d ∈ t, d.isLower := by
    intro word hword
    simp only [constants, List.mem_cons, List.not_mem_nil, or_false] at hword
    rcases hword with rfl | rfl | rfl
    · exact ⟨by decide, 'F', "alse".toList, rfl, by decide, by decide, List.all_eq_true.mp (by decide)⟩
    · exact ⟨by decide, 'N', "one".toList, rfl, by decide, by decide, List.all_eq_true.mp (by decide)⟩
    · exact ⟨by decide, 'T', "rue".toList, rfl, by decide, by decide, List.all_eq_true.mp (by decide)⟩
  have hiff {word : String} (hword : word ∈ constants) :
      pascal s = word ↔ Spells s.toList word.toList := by
    obtain ⟨hlength, c, t, hchars, hupper, hm, hlower⟩ := hshape word hword
    rw [pascal_eq_iff_camel hlength, hchars, camel_eq_iff hupper hm hlower]
  constructor
  · exact fun hmem => ⟨_, hmem, (hiff hmem).mp rfl⟩
  · rintro ⟨word, hword, hspells⟩
    rw [(hiff hword).mpr hspells]
    exact hword

/-! ## Texts for a class -/

/-- A word with an underscore in front of each capital. -/
def spread (word : List Char) : List Char :=
  word.flatMap fun c => if c.isUpper then ['_', c] else [c]

/-- A walk along a word with underscores in front of its capitals leaves the word. -/
theorem recase_spread {word : List Char} (h : ∀ c ∈ word, c.isAlphanum) :
    recase false (spread word) = word := by
  induction word with
  | nil => rfl
  | cons c word ih =>
      obtain ⟨hc, hword⟩ := List.forall_mem_cons.mp h
      have hne := ne_underscore_of_isAlphanum hc
      obtain ⟨-, -, -, hupper, hlower⟩ := case_spec hc
      rw [spread, List.flatMap_cons]
      by_cases hcapital : c.isUpper
      · rw [if_pos hcapital]
        show recase false ('_' :: c :: spread word) = _
        rw [recase, if_pos rfl, recase, if_neg hne, ih hword]
        exact congrArg (· :: word) (hupper hcapital)
      · rw [if_neg hcapital]
        show recase false (c :: spread word) = _
        rw [recase, if_neg hne, ih hword]
        exact congrArg (· :: word) (hlower (Bool.eq_false_iff.mpr hcapital))

/-- Letters and digits behind a capital, which are not too many, are the class of some text without
slashes. -/
theorem exists_pascal_eq {name : String} (hhead : ∃ c ∈ name.toList.head?, c.isUpper)
    (hchars : ∀ c ∈ name.toList, c.isAlphanum) (hlength : name.length ≤ maxLength) :
    ∃ s : String, '/' ∉ s.toList ∧ pascal s = name := by
  obtain ⟨c, hc, hupper⟩ := hhead
  obtain ⟨t, hname⟩ := List.head?_eq_some_iff.mp hc
  rw [hname] at hchars
  obtain ⟨halnum, ht⟩ := List.forall_mem_cons.mp hchars
  have hspread : ∀ d ∈ spread t, isInner d := by
    intro d hd
    obtain ⟨e, he, hd⟩ := List.mem_flatMap.mp hd
    have hinner := isInner_of_isAlphanum (ht e he)
    split at hd
    · rcases List.mem_pair.mp hd with rfl | rfl
      · rfl
      · exact hinner
    · exact List.mem_singleton.mp hd ▸ hinner
  have hcamel : camel (c :: spread t) = name.toList := by
    rw [camel_eq, classStem_cons (isAlpha_of_isUpper hupper), map_stemChar hspread, recase,
      if_neg (ne_underscore_of_isAlphanum halnum), recase_spread ht, hname]
    exact congrArg (· :: t) ((case_spec halnum).2.2.2.1 hupper)
  refine ⟨.ofList (c :: spread t), fun hslash => ?_, ?_⟩
  · rw [String.toList_ofList] at hslash
    rcases List.mem_cons.mp hslash with rfl | hslash
    · exact absurd halnum (by decide)
    · exact absurd (hspread _ hslash) (by decide)
  · rw [pascal, String.toList_ofList, hcamel, String.ofList_toList, bound_of_length_le hlength]

end AgentCompiler.Name
