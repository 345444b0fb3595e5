import AgentCompiler.Proofs.Text.Replace
import AgentCompiler.Proofs.Text.Wrap
import AgentCompiler.Prompt.Token

/-!
# Reading tokens

The tokens of a text are read character by character. A character that is neither a dollar sign nor part
of a name closes whatever was open, so the tokens of the text before it and of the text behind it are
those of the whole. A text *blocks* when such a character comes before its first dollar sign: nothing
that was open in front of it can become a token. Wrapping breaks a text at spaces, so that no token is
lost.
-/

namespace AgentCompiler.Prompt

/-! ## Reading in two steps -/

/-- What is open after a text has been read. -/
def openAfter : (name : Option (List Char)) → List Char → Option (List Char)
  | name, [] => name
  | none, c :: cs => openAfter (if c = '$' then some [] else none) cs
  | some name, c :: cs =>
    if c = '$' then
      if name.isEmpty then openAfter (some []) cs else openAfter none cs
    else openAfter (if isNameChar c then some (name ++ [c]) else none) cs

/-- The tokens of two texts, of which the second is read with what the first has left open. -/
theorem tokensFrom_append (name : Option (List Char)) (s t : List Char) :
    tokensFrom name (s ++ t) = tokensFrom name s ++ tokensFrom (openAfter name s) t := by
  induction s generalizing name with
  | nil => cases name <;> rfl
  | cons c s ih =>
      cases name with
      | none => exact ih _
      | some name =>
          simp only [List.cons_append, tokensFrom, openAfter]
          split
          · split
            · exact ih _
            · rw [ih, List.cons_append]
          · exact ih _

theorem openAfter_append (name : Option (List Char)) (s t : List Char) :
    openAfter name (s ++ t) = openAfter (openAfter name s) t := by
  induction s generalizing name with
  | nil => cases name <;> rfl
  | cons c s ih =>
      cases name with
      | none => exact ih _
      | some name =>
          simp only [List.cons_append, openAfter]
          split
          · split
            · exact ih _
            · exact ih _
          · exact ih _

/-- A text without dollar signs holds no token. -/
theorem tokensFrom_of_notMem (name : Option (List Char)) {s : List Char} (h : '$' ∉ s) :
    tokensFrom name s = [] := by
  induction s generalizing name with
  | nil => cases name <;> rfl
  | cons c s ih =>
      rw [List.mem_cons, not_or] at h
      cases name with
      | none => exact ih _ h.2
      | some name =>
          rw [tokensFrom, if_neg (Ne.symm h.1)]
          exact ih _ h.2

/-- Without dollar signs nothing is opened. -/
theorem openAfter_none_of_notMem {s : List Char} (h : '$' ∉ s) : openAfter none s = none := by
  induction s with
  | nil => rfl
  | cons c s ih =>
      rw [List.mem_cons, not_or] at h
      rw [openAfter, if_neg (Ne.symm h.1)]
      exact ih h.2

/-- A character that no token holds. -/
def IsBreak (c : Char) : Prop := c ≠ '$' ∧ isNameChar c = false

instance (c : Char) : Decidable (IsBreak c) := inferInstanceAs (Decidable (_ ∧ _))

/-- A break closes what is open. -/
theorem openAfter_break (name : Option (List Char)) {c : Char} (hc : IsBreak c) :
    openAfter name [c] = none := by
  cases name with
  | none => rw [openAfter, if_neg hc.1, openAfter]
  | some name => rw [openAfter, if_neg hc.1, hc.2, openAfter]; rfl

/-- The tokens in front of a break and those behind it. -/
theorem tokensFrom_break (name : Option (List Char)) (s t : List Char) {c : Char} (hc : IsBreak c) :
    tokensFrom name (s ++ c :: t) = tokensFrom name s ++ tokensFrom none t := by
  have hcons : c :: t = [c] ++ t := rfl
  have hnone : tokensFrom (openAfter name s) [c] = [] :=
    tokensFrom_of_notMem _ (by simpa using Ne.symm hc.1)
  rw [tokensFrom_append, hcons, tokensFrom_append, openAfter_break _ hc, hnone, List.nil_append]

/-! ## Blocking texts -/

/-- A break comes before the first dollar sign, or there is none. -/
def Blocks (s : List Char) : Prop :=
  '$' ∉ s ∨ ∃ u c w, s = u ++ c :: w ∧ '$' ∉ u ∧ IsBreak c

/-- Nothing that is open in front of a blocking text becomes a token. -/
theorem Blocks.tokensFrom_eq {s : List Char} (h : Blocks s) (name : Option (List Char)) :
    tokensFrom name s = tokensFrom none s := by
  rcases h with hs | ⟨u, c, w, rfl, hu, hc⟩
  · rw [tokensFrom_of_notMem name hs, tokensFrom_of_notMem none hs]
  · rw [tokensFrom_break _ _ _ hc, tokensFrom_break _ _ _ hc, tokensFrom_of_notMem _ hu,
      tokensFrom_of_notMem _ hu]

/-- A text that blocks from behind leaves nothing open. -/
theorem openAfter_of_blocks_reverse {s : List Char} (h : Blocks s.reverse) :
    openAfter none s = none := by
  rcases h with hs | ⟨u, c, w, hrev, hu, hc⟩
  · exact openAfter_none_of_notMem (by simpa using hs)
  · have hsplit : s = w.reverse ++ [c] ++ u.reverse := by
      rw [← List.reverse_reverse s, hrev]
      simp
    rw [hsplit, openAfter_append, openAfter_append, openAfter_break _ hc]
    exact openAfter_none_of_notMem (by simpa using hu)

/-- The tokens of two texts are those of both, when one of them blocks at the seam. -/
theorem tokensFrom_seam {s t : List Char} (h : Blocks s.reverse ∨ Blocks t) :
    tokensFrom none (s ++ t) = tokensFrom none s ++ tokensFrom none t := by
  rw [tokensFrom_append]
  rcases h with hs | ht
  · rw [openAfter_of_blocks_reverse hs]
  · rw [ht.tokensFrom_eq]

/-- A text blocks, or a name stands before its first dollar sign. -/
theorem blocks_or_name (s : List Char) :
    Blocks s ∨ ∃ u w, s = u ++ '$' :: w ∧ ∀ c ∈ u, isNameChar c := by
  induction s with
  | nil => exact .inl (.inl List.not_mem_nil)
  | cons c s ih =>
      by_cases hdollar : c = '$'
      · exact .inr ⟨[], s, by rw [hdollar, List.nil_append], List.forall_mem_nil _⟩
      by_cases hname : isNameChar c
      · rcases ih with (hs | ⟨u, d, w, rfl, hu, hd⟩) | ⟨u, w, rfl, hu⟩
        · exact .inl (.inl (by simpa [Ne.symm hdollar] using hs))
        · exact .inl (.inr ⟨c :: u, d, w, rfl, by simpa [Ne.symm hdollar] using hu, hd⟩)
        · exact .inr ⟨c :: u, w, rfl, List.forall_mem_cons.mpr ⟨hname, hu⟩⟩
      · exact .inl (.inr ⟨[], c, s, rfl, List.not_mem_nil, hdollar, Bool.eq_false_iff.mpr hname⟩)

/-! ## What a token is -/

/-- A name as it stands in a text. -/
def tokenChars (name : List Char) : List Char := '$' :: name ++ ['$']

/-- A text that is a name. -/
def IsName (name : List Char) : Prop := name ≠ [] ∧ ∀ c ∈ name, isNameChar c

theorem not_isNameChar_dollar : isNameChar '$' = false := by decide

/-- Characters of names are added to what is open. -/
theorem tokensFrom_names (name u s : List Char) (hu : ∀ c ∈ u, isNameChar c) :
    tokensFrom (some name) (u ++ s) = tokensFrom (some (name ++ u)) s := by
  induction u generalizing name with
  | nil => rw [List.append_nil, List.nil_append]
  | cons c u ih =>
      rw [List.forall_mem_cons] at hu
      have hne : c ≠ '$' := fun heq => by
        rw [heq, not_isNameChar_dollar] at hu
        exact absurd hu.1 (by decide)
      rw [List.cons_append, tokensFrom, if_neg hne, if_pos hu.1, ih _ hu.2, List.append_assoc,
        List.singleton_append]

/-- A token is read, and then what follows it. -/
theorem tokensFrom_token {name : List Char} (h : IsName name) (s : List Char) :
    tokensFrom none (tokenChars name ++ s) = name :: tokensFrom none s := by
  have hsplit : tokenChars name ++ s = '$' :: (name ++ '$' :: s) := by simp [tokenChars]
  rw [hsplit, tokensFrom, if_pos rfl, tokensFrom_names _ _ _ h.2, List.nil_append, tokensFrom,
    if_pos rfl, if_neg (by simpa using h.1)]

/-- Every token stands in the text, between its dollar signs. `name` is open in front of the text. -/
theorem infix_of_mem_tokensFrom {name : Option (List Char)} {s t : List Char}
    (h : t ∈ tokensFrom name s) (hname : ∀ n ∈ name, ∀ c ∈ n, isNameChar c) :
    IsName t ∧ tokenChars t <:+: (name.elim [] ('$' :: ·)) ++ s := by
  induction s generalizing name with
  | nil => cases name <;> cases h
  | cons c s ih =>
      cases name with
      | none =>
          rw [tokensFrom] at h
          split at h
          · next hc =>
              subst hc
              exact ih h (by simp)
          · obtain ⟨ht, hin⟩ := ih h (by simp)
            exact ⟨ht, List.infix_cons hin⟩
      | some n =>
          have hn := hname n rfl
          rw [tokensFrom] at h
          split at h
          · next hc =>
              subst hc
              split at h
              · obtain ⟨ht, hin⟩ := ih h (by simp)
                exact ⟨ht, List.infix_append_of_infix_right hin⟩
              · next hne =>
                  rcases List.mem_cons.mp h with rfl | h
                  · refine ⟨⟨by simpa using hne, hn⟩, [], s, ?_⟩
                    simp [tokenChars]
                  · obtain ⟨ht, hin⟩ := ih h (by simp)
                    exact ⟨ht, List.infix_append_of_infix_right (List.infix_cons hin)⟩
          · split at h
            · next hc =>
                obtain ⟨ht, hin⟩ := ih h (by
                  intro m hm d hd
                  obtain rfl := Option.some.inj hm
                  rcases List.mem_append.mp hd with hd | hd
                  · exact hn d hd
                  · exact List.mem_singleton.mp hd ▸ hc)
                exact ⟨ht, by simpa using hin⟩
            · obtain ⟨ht, hin⟩ := ih h (by simp)
              exact ⟨ht, List.infix_append_of_infix_right (List.infix_cons hin)⟩

/-- A token of a text is a name, and stands in the text. -/
theorem infix_of_mem_tokens {s t : List Char} (h : t ∈ tokensFrom none s) :
    IsName t ∧ tokenChars t <:+: s :=
  infix_of_mem_tokensFrom h (by simp)

/-! ## Wrapping -/

theorem isBreak_space : IsBreak ' ' := by decide

theorem isBreak_newline : IsBreak '\n' := by decide

/-- Tokens are read by parts at a break. -/
theorem byParts_tokensFrom {c : Char} (hc : IsBreak c) : Text.ByParts (tokensFrom none) c where
  nil := rfl
  append s t := tokensFrom_break none s t hc

/-- Wrapping a text keeps its tokens. -/
theorem tokens_wrap (text : String) (width : Nat) : tokens (Text.wrap text width) = tokens text := by
  rw [tokens, Text.wrap, String.toList_ofList,
    (byParts_tokensFrom isBreak_space).wrapChars (byParts_tokensFrom isBreak_newline)]
  rfl

/-- What wrapping a text keeps. Every line fits the width or cannot be broken; the lines stand where those
that they come from stood, and lines that fit are the same; words and tokens are the same, in order; and
nothing is left to wrap. -/
theorem wrap_keeps_words (text : String) (width : Nat) :
    (∀ line ∈ (Text.wrap text width).toList.splitOn '\n', line.length ≤ width ∨ ' ' ∉ line) ∧
      (∃ parts, (Text.wrap text width).toList.splitOn '\n' = parts.flatten ∧
        List.Forall₂ (Text.WrapsTo width) (text.toList.splitOn '\n') parts) ∧
      Text.words (Text.wrap text width).toList = Text.words text.toList ∧
      tokens (Text.wrap text width) = tokens text ∧
      Text.wrap (Text.wrap text width) width = Text.wrap text width := by
  have hchars : (Text.wrap text width).toList = Text.wrapChars width text.toList :=
    String.toList_ofList
  refine ⟨fun line hline => ?_, ⟨(text.toList.splitOn '\n').map (Text.wrapLine width), ?_, ?_⟩, ?_,
    tokens_wrap text width, ?_⟩
  · rw [hchars] at hline
    exact Text.narrow_of_mem_wrapChars hline
  · rw [hchars, Text.splitOn_wrapChars, List.flatMap_def]
  · rw [List.forall₂_map_right_iff, List.forall₂_same]
    exact fun line _ => Text.wrapsTo_wrapLine width line
  · rw [hchars]
    exact (Text.byParts_words rfl).wrapChars (Text.byParts_words rfl) width text.toList
  · rw [Text.wrap, hchars, Text.wrapChars_wrapChars]
    rfl

/-- A line is broken at a run of spaces, a word that is too wide stays whole, and a line that fits keeps
the spaces at its end. -/
theorem wrap_keeps_words_longName :
    Text.wrap "aaa  bbb $long_name$ c\nfits  " 6 = "aaa \nbbb\n$long_name$\nc\nfits  " ∧
      "$long_name$".toList ∈ "aaa \nbbb\n$long_name$\nc\nfits  ".toList.splitOn '\n' ∧
      ("$long_name$".toList.length ≤ 6 ∨ ' ' ∉ "$long_name$".toList) := by
  have hwrap : Text.wrap "aaa  bbb $long_name$ c\nfits  " 6 =
      "aaa \nbbb\n$long_name$\nc\nfits  " := by
    decide +kernel
  have hmem : "$long_name$".toList ∈ "aaa \nbbb\n$long_name$\nc\nfits  ".toList.splitOn '\n' := by
    decide +kernel
  have hnarrow := (wrap_keeps_words "aaa  bbb $long_name$ c\nfits  " 6).1 "$long_name$".toList
  rw [hwrap] at hnarrow
  exact ⟨hwrap, hmem, hnarrow hmem⟩

end AgentCompiler.Prompt
