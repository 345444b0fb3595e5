import AgentCompiler.Proofs.Prompt.Token

/-!
# Tokens that stand apart

A token may share a dollar sign with the text beside it, as the second name of `$one$two$` does, and
then reading the tokens and replacing a token do not see the same names. Where every token that is
replaced stands apart, a replacement takes this token out, puts the tokens of the value in, and leaves
all others as they are.
-/

namespace AgentCompiler.Prompt

variable {fills : List Char → Prop} {name value s t : List Char}

/-- No dollar sign is shared by a name that is filled and another run of characters of names, which may
be empty. -/
def Apart (fills : List Char → Prop) (s : List Char) : Prop :=
  ∀ a b, (∀ c ∈ a, isNameChar c) → (∀ c ∈ b, isNameChar c) →
    '$' :: a ++ '$' :: b ++ ['$'] <:+: s → ¬fills a ∧ ¬fills b

namespace Apart

theorem of_infix (hs : Apart fills s) (ht : t <:+: s) : Apart fills t :=
  fun a b ha hb hin => hs a b ha hb (hin.trans ht)

/-- A token that is filled blocks on both sides. -/
theorem blocks {before after : List Char} (h : Apart fills (before ++ tokenChars name ++ after))
    (hname : IsName name) (hfills : fills name) : Blocks before.reverse ∧ Blocks after := by
  constructor
  · rcases blocks_or_name before.reverse with hblocks | ⟨u, w, hrev, hu⟩
    · exact hblocks
    have hbefore : before = w.reverse ++ '$' :: u.reverse := by
      rw [← List.reverse_reverse before, hrev]
      simp
    refine absurd hfills (h u.reverse name (by simpa using hu) hname.2 ⟨w.reverse, after, ?_⟩).2
    rw [hbefore]
    simp [tokenChars]
  · rcases blocks_or_name after with hblocks | ⟨u, w, rfl, hu⟩
    · exact hblocks
    refine absurd hfills (h name u hname.2 hu ⟨before, w, ?_⟩).1
    simp [tokenChars]

end Apart

/-! ## Seams -/

/-- The start of a blocking text holds a break when it reaches a dollar sign. -/
theorem Blocks.exists_isBreak {l : List Char} (h : Blocks s) (hl : l <+: s) (hdollar : '$' ∈ l) :
    ∃ c ∈ l, IsBreak c := by
  rcases h with hs | ⟨u, c, w, rfl, hu, hc⟩
  · exact absurd (hl.subset hdollar) hs
  obtain ⟨rest, hrest⟩ := hl
  rcases List.append_eq_append_iff.mp hrest with ⟨more, rfl, -⟩ | ⟨more, rfl, hmore⟩
  · exact absurd (List.mem_append_left more hdollar) hu
  · cases more with
    | nil => exact absurd (by simpa using hdollar) hu
    | cons d more =>
        obtain ⟨rfl, -⟩ := List.cons_eq_cons.mp hmore
        exact ⟨c, List.mem_append_right u List.mem_cons_self, hc⟩

/-- What starts and ends with a dollar sign and holds no break lies on one side of a seam at which one
of the texts blocks. -/
theorem infix_seam {w : List Char} (hw : ∀ c ∈ w, ¬IsBreak c) (hhead : w.head? = some '$')
    (hlast : w.getLast? = some '$') (hseam : Blocks s.reverse ∨ Blocks t) (h : w <:+: s ++ t) :
    w <:+: s ∨ w <:+: t := by
  rcases List.infix_append_iff_ne_nil.mp h with hs | ht | ⟨l, l', hl, hl', rfl, hsuffix, hprefix⟩
  · exact .inl hs
  · exact .inr ht
  -- Across the seam, the part on the side that blocks would hold a break.
  exfalso
  rcases hseam with hs | ht
  · have hdollar : '$' ∈ l.reverse := by
      rw [List.head?_append_of_ne_nil _ hl] at hhead
      exact List.mem_reverse.mpr (List.mem_of_mem_head? hhead)
    obtain ⟨c, hc, hbreak⟩ := hs.exists_isBreak (List.reverse_prefix.mpr hsuffix) hdollar
    exact hw c (List.mem_append_left l' (List.mem_reverse.mp hc)) hbreak
  · have hdollar : '$' ∈ l' := by
      rw [List.getLast?_append_of_ne_nil _ hl'] at hlast
      exact List.mem_of_getLast? hlast
    obtain ⟨c, hc, hbreak⟩ := ht.exists_isBreak hprefix hdollar
    exact hw c (List.mem_append_right l hc) hbreak

/-- No token holds a break. -/
theorem not_isBreak_tokenChars (hname : ∀ c ∈ name, isNameChar c) :
    ∀ c ∈ tokenChars name, ¬IsBreak c := by
  intro c hc hbreak
  rw [tokenChars, List.mem_append, List.mem_cons, List.mem_singleton] at hc
  rcases hc with (rfl | hc) | rfl
  · exact hbreak.1 rfl
  · exact absurd (hname c hc) (by rw [hbreak.2]; decide)
  · exact hbreak.1 rfl

/-- Tokens stand apart in two texts that are joined where one of them blocks. -/
theorem Apart.append (hs : Apart fills s) (ht : Apart fills t)
    (hseam : Blocks s.reverse ∨ Blocks t) : Apart fills (s ++ t) := by
  intro a b ha hb hin
  have hchars : ∀ c ∈ '$' :: a ++ '$' :: b ++ ['$'], ¬IsBreak c := by
    intro c hc
    rw [List.append_assoc] at hc
    rcases List.mem_append.mp hc with hc | hc
    · exact not_isBreak_tokenChars ha c (List.mem_append_left ['$'] hc)
    · exact not_isBreak_tokenChars hb c hc
  rcases infix_seam hchars rfl (by rw [List.getLast?_append]; rfl) hseam hin with hin | hin
  · exact hs a b ha hb hin
  · exact ht a b ha hb hin

/-! ## Replacing a token -/

/-- A text without dollar signs is kept, whatever follows it. -/
theorem replaceAll_plain_append (hs : '$' ∉ s) (t : List Char) :
    Text.replaceAll (tokenChars name) value (s ++ t) = s ++ Text.replaceAll (tokenChars name) value t :=
  Text.replaceAll_append_left hs t

theorem replaceAll_plain (hs : '$' ∉ s) : Text.replaceAll (tokenChars name) value s = s := by
  have hreplace : Text.replaceAll (tokenChars name) value (s ++ []) = s ++ [] :=
    replaceAll_plain_append hs []
  rwa [List.append_nil] at hreplace

/-- A text that blocks still does so when tokens are replaced in it. -/
theorem Blocks.replaceAll (h : Blocks s) :
    Blocks (Text.replaceAll (tokenChars name) value s) := by
  rcases h with hs | ⟨u, c, w, rfl, hu, hc⟩
  · rw [replaceAll_plain hs]
    exact .inl hs
  · have hstart : ¬tokenChars name <+: c :: w := fun hp => hc.1 (List.cons_prefix_cons.mp hp).1.symm
    rw [replaceAll_plain_append hu, Text.replaceAll_cons hstart]
    exact .inr ⟨u, c, _, rfl, hu, hc⟩

/-- The tokens of a text that does not hold a token stay when it is looked for. -/
theorem flatMap_of_notMem {names : List (List Char)} (h : name ∉ names) :
    (names.flatMap fun n => if n = name then tokensFrom none value else [n]) = names := by
  induction names with
  | nil => rfl
  | cons n names ih =>
      rw [List.mem_cons, not_or] at h
      rw [List.flatMap_cons, if_neg (Ne.symm h.1), ih h.2, List.singleton_append]

/-- Where a token stands apart, its replacement by a value keeps the tokens apart, takes it out and puts
the tokens of the value in its place. -/
theorem Apart.replaceAll (hname : IsName name) (hfills : fills name) (hs : Apart fills s)
    (hvalue : name ∈ tokensFrom none s → Apart fills value) :
    Apart fills (Text.replaceAll (tokenChars name) value s) ∧
      tokensFrom none (Text.replaceAll (tokenChars name) value s) =
        (tokensFrom none s).flatMap fun n => if n = name then tokensFrom none value else [n] := by
  have hne : tokenChars name ≠ [] := List.cons_ne_nil _ _
  induction hlength : s.length using Nat.strong_induction_on generalizing s with
  | _ length ih =>
  by_cases hin : tokenChars name <:+: s
  · -- The text behind the first occurrence is shorter, so that it can be replaced on its own.
    obtain ⟨before, after, rfl, hbefore, hreplace⟩ := Text.exists_first hne hin
    obtain ⟨hblocks, hblocks'⟩ := hs.blocks hname hfills
    have htokens : tokensFrom none (before ++ tokenChars name ++ after) =
        tokensFrom none before ++ name :: tokensFrom none after := by
      rw [List.append_assoc, tokensFrom_seam (.inl hblocks), tokensFrom_token hname]
    have hvalue' : Apart fills value :=
      hvalue (htokens ▸ List.mem_append_right _ List.mem_cons_self)
    have hshort : after.length < length := by
      rw [← hlength]
      simp [tokenChars]
      omega
    obtain ⟨hrest, hrestTokens⟩ := ih after.length hshort
      (hs.of_infix ⟨before ++ tokenChars name, [], by simp⟩) (fun _ => hvalue') rfl
    have hrestBlocks : Blocks (Text.replaceAll (tokenChars name) value after) := hblocks'.replaceAll
    have hnot : name ∉ tokensFrom none before := fun hmem => hbefore (infix_of_mem_tokens hmem).2
    rw [hreplace value after, List.append_assoc]
    refine ⟨?_, ?_⟩
    · have hhead : Apart fills before := hs.of_infix ⟨[], tokenChars name ++ after, by simp⟩
      exact hhead.append (hvalue'.append hrest (.inr hrestBlocks)) (.inl hblocks)
    · rw [tokensFrom_seam (.inl hblocks), tokensFrom_seam (.inr hrestBlocks), hrestTokens, htokens,
        List.flatMap_append, flatMap_of_notMem hnot, List.flatMap_cons, if_pos rfl]
  · have hnot : name ∉ tokensFrom none s := fun hmem => hin (infix_of_mem_tokens hmem).2
    rw [Text.replaceAll_of_not_infix hin, flatMap_of_notMem hnot]
    exact ⟨hs, rfl⟩

/-! ## Taking a phrase out -/

/-- The start of a text that blocks does so as well. -/
theorem Blocks.left (h : Blocks (s ++ t)) : Blocks s := by
  rcases h with hs | ⟨u, c, w, heq, hu, hc⟩
  · exact .inl fun hmem => hs (List.mem_append_left t hmem)
  rcases List.append_eq_append_iff.mp heq with ⟨more, rfl, -⟩ | ⟨more, rfl, hmore⟩
  · exact .inl fun hmem => hu (List.mem_append_left more hmem)
  · cases more with
    | nil => exact .inl (by simpa using hu)
    | cons d more =>
        obtain ⟨rfl, -⟩ := List.cons_eq_cons.mp hmore
        exact .inr ⟨u, c, more, rfl, hu, hc⟩

/-- A text without dollar signs that holds a break blocks, whatever follows it. -/
theorem blocks_append (hs : '$' ∉ s) (hbreak : ∃ c ∈ s, IsBreak c) (t : List Char) :
    Blocks (s ++ t) := by
  obtain ⟨c, hc, hbreak⟩ := hbreak
  obtain ⟨u, w, rfl⟩ := List.append_of_mem hc
  have hu : '$' ∉ u := fun hmem => hs (List.mem_append_left _ hmem)
  exact .inr ⟨u, c, w ++ t, by simp, hu, hbreak⟩

/-- At no occurrence of a phrase do the texts in front and behind, with the phrase taken out of them,
make a name of their ends. -/
def Removable (phrase s : List Char) : Prop :=
  ∀ before after, s = before ++ phrase ++ after →
    Blocks (Text.replaceAll phrase [] before).reverse ∨ Blocks (Text.replaceAll phrase [] after)

/-- Taking out a phrase with a break keeps the tokens of a text, when it joins no name. -/
theorem tokensFrom_remove {phrase : List Char} (hdollar : '$' ∉ phrase)
    (hbreak : ∃ c ∈ phrase, IsBreak c) (h : Removable phrase s) :
    tokensFrom none (Text.replaceAll phrase [] s) = tokensFrom none s := by
  have hne : phrase ≠ [] := by
    obtain ⟨c, hc, -⟩ := hbreak
    exact List.ne_nil_of_mem hc
  induction hlength : s.length using Nat.strong_induction_on generalizing s with
  | _ length ih =>
  by_cases hin : phrase <:+: s
  · obtain ⟨before, after, rfl, hbefore, hreplace⟩ := Text.exists_first hne hin
    have hkeep : Text.replaceAll phrase [] before = before := Text.replaceAll_of_not_infix hbefore
    have hshort : after.length < length := by
      have hpos := List.length_pos_iff.mpr hne
      simp only [← hlength, List.length_append]
      omega
    have hrest : Removable phrase after := by
      intro before' after' hafter
      rcases h (before ++ phrase ++ before') after' (by rw [hafter]; simp) with hblocks | hblocks
      · rw [hreplace [] before', List.append_nil, List.reverse_append] at hblocks
        exact .inl hblocks.left
      · exact .inr hblocks
    have hseam := h before after rfl
    rw [hkeep] at hseam
    rw [hreplace [] after, List.append_nil, tokensFrom_seam hseam, ih after.length hshort hrest rfl,
      List.append_assoc, tokensFrom_seam (.inr (blocks_append hdollar hbreak after)),
      tokensFrom_seam (.inl (.inl (by simpa using hdollar))), tokensFrom_of_notMem none hdollar,
      List.nil_append]
  · rw [Text.replaceAll_of_not_infix hin]

/-- Tokens stand apart where there are too few dollar signs for two of them. -/
theorem apart_of_count (h : s.count '$' < 3) : Apart fills s := by
  intro a b _ _ hin
  have hle := hin.sublist.count_le '$'
  simp only [List.count_append, List.count_cons_self, List.cons_append, List.count_nil] at hle
  omega

/-- A phrase that is longer than a text cannot be taken out of it. -/
theorem removable_of_length_lt {phrase : List Char} (h : s.length < phrase.length) :
    Removable phrase s := by
  intro before after hs
  rw [hs, List.length_append, List.length_append] at h
  omega

end AgentCompiler.Prompt
