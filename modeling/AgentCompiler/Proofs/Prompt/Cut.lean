import AgentCompiler.Proofs.Prompt.Apart

/-!
# Cutting a text at its tokens

A text is cut into what stands in front of its first token, and the tokens with what stands behind each
of them. Where the dollar signs are those of the tokens, and something between two tokens can be in no
name, a token is replaced in every place on its own, whatever stands in the others.
-/

namespace AgentCompiler.Prompt

variable {name value s t : List Char}

/-- A text that is cut at its tokens. -/
structure Cut where
  /-- What stands in front of the first token. -/
  lead : List Char
  /-- The name of each token, with what stands behind it up to the next one. -/
  parts : List (List Char × List Char)
deriving DecidableEq

namespace Cut

/-- The text with something in the place of each token. -/
def fill (value : List Char → List Char) (c : Cut) : List Char :=
  c.lead ++ c.parts.flatMap fun part => value part.1 ++ part.2

/-- The cut of a text behind more text. -/
def behindText (s : List Char) (c : Cut) : Cut := { c with lead := s ++ c.lead }

/-- The cut of a text behind a token. -/
def behindToken (name : List Char) (c : Cut) : Cut := ⟨[], (name, c.lead) :: c.parts⟩

theorem fill_behindText (value : List Char → List Char) (s : List Char) (c : Cut) :
    (c.behindText s).fill value = s ++ c.fill value := List.append_assoc _ _ _

theorem fill_behindToken (value : List Char → List Char) (name : List Char) (c : Cut) :
    (c.behindToken name).fill value = value name ++ c.fill value := List.append_assoc _ _ _

end Cut

/-- Cuts a text, where `name` holds what has been read since a dollar sign that may open a token. -/
def cutFrom : (name : Option (List Char)) → List Char → Cut
  | none, [] => ⟨[], []⟩
  | some name, [] => ⟨'$' :: name, []⟩
  | none, c :: cs => if c = '$' then cutFrom (some []) cs else (cutFrom none cs).behindText [c]
  | some name, c :: cs =>
    if c = '$' then
      if name.isEmpty then (cutFrom (some []) cs).behindText ['$']
      else (cutFrom none cs).behindToken name
    else if isNameChar c then cutFrom (some (name ++ [c])) cs
    else (cutFrom none cs).behindText ('$' :: name ++ [c])

/-- A text cut at its tokens. -/
def cut (s : List Char) : Cut := cutFrom none s

/-- The names of a cut text are those of its tokens. -/
theorem names_cutFrom (name : Option (List Char)) (s : List Char) :
    (cutFrom name s).parts.map Prod.fst = tokensFrom name s := by
  induction s generalizing name with
  | nil => cases name <;> rfl
  | cons c s ih =>
      cases name with
      | none =>
          rw [cutFrom, tokensFrom]
          split
          · exact ih _
          · exact ih _
      | some name =>
          rw [cutFrom, tokensFrom]
          split
          · split
            · exact ih _
            · exact congrArg (name :: ·) (ih none)
          · split
            · exact ih _
            · exact ih _

/-- With the tokens in their places a cut text is the text. -/
theorem fill_cutFrom (name : Option (List Char)) (s : List Char) :
    (cutFrom name s).fill tokenChars = name.elim [] ('$' :: ·) ++ s := by
  induction s generalizing name with
  | nil => cases name <;> simp [cutFrom, Cut.fill]
  | cons c s ih =>
      cases name with
      | none =>
          rw [cutFrom]
          split
          · next hc => rw [ih, hc]; rfl
          · rw [Cut.fill_behindText, ih]; rfl
      | some name =>
          rw [cutFrom]
          split
          · next hc =>
              subst hc
              split
              · next hempty =>
                  rw [Cut.fill_behindText, ih, List.isEmpty_iff.mp hempty]
                  rfl
              · rw [Cut.fill_behindToken, ih]
                simp [tokenChars]
          · split
            · rw [ih]
              simp
            · rw [Cut.fill_behindText, ih]
              simp

theorem names_cut (s : List Char) : (cut s).parts.map Prod.fst = tokensFrom none s :=
  names_cutFrom none s

theorem fill_cut (s : List Char) : (cut s).fill tokenChars = s := fill_cutFrom none s

/-! ## Replacing at a seam -/

/-- A token that starts in front of a seam at which one of the texts blocks ends in front of it. -/
theorem prefix_of_prefix_seam (hname : IsName name) (hs : s ≠ [])
    (hseam : Blocks s.reverse ∨ Blocks t) (h : tokenChars name <+: s ++ t) : tokenChars name <+: s := by
  rcases List.prefix_or_prefix_of_prefix h (List.prefix_append s t) with hp | ⟨more, hmore⟩
  · exact hp
  have hrest : more <+: t := by
    rw [← hmore] at h
    exact (List.prefix_append_right_inj s).mp h
  have hblocks : Blocks s.reverse ∨ Blocks more := by
    obtain ⟨behind, rfl⟩ := hrest
    exact hseam.imp_right Blocks.left
  have hlast : (tokenChars name).getLast? = some '$' := by
    rw [tokenChars, List.getLast?_append]
    rfl
  rcases infix_seam (not_isBreak_tokenChars hname.2) rfl hlast hblocks (hmore ▸ List.infix_rfl) with
    hin | hin
  · rw [← hin.eq_of_length_le (by rw [← hmore, List.length_append]; omega)]
  · have hlength := hin.length_le
    have hpos := List.length_pos_iff.mpr hs
    rw [← hmore, List.length_append] at hlength
    omega

/-- A token is replaced on its own in two texts that are joined where one of them blocks. -/
theorem replaceAll_seam (hname : IsName name) (hseam : Blocks s.reverse ∨ Blocks t) :
    Text.replaceAll (tokenChars name) value (s ++ t) =
      Text.replaceAll (tokenChars name) value s ++ Text.replaceAll (tokenChars name) value t := by
  have hne : tokenChars name ≠ [] := List.cons_ne_nil _ _
  have hleft {u w : List Char} (h : Blocks (u ++ w).reverse ∨ Blocks t) :
      Blocks w.reverse ∨ Blocks t :=
    h.imp_left fun h => Blocks.left (by rwa [List.reverse_append] at h)
  induction hlength : s.length using Nat.strong_induction_on generalizing s with
  | _ length ih =>
  cases s with
  | nil => rfl
  | cons c s =>
      by_cases hprefix : tokenChars name <+: c :: s
      · -- The token is replaced, and what follows it in the first text is shorter.
        obtain ⟨rest, hrest⟩ := hprefix
        have hshort : rest.length < length := by
          rw [← hlength, ← hrest]
          simp [tokenChars]
          omega
        rw [← hrest] at hseam ⊢
        rw [List.append_assoc, Text.replaceAll_append hne, Text.replaceAll_append hne,
          ih rest.length hshort (hleft hseam) rfl, List.append_assoc]
      · have hstart : ¬tokenChars name <+: c :: (s ++ t) := fun hp =>
          hprefix (prefix_of_prefix_seam hname (List.cons_ne_nil c s) hseam hp)
        have hshort : s.length < length := by
          rw [← hlength, List.length_cons]
          omega
        rw [List.cons_append, Text.replaceAll_cons hstart, Text.replaceAll_cons hprefix,
          ih s.length hshort (hleft (u := [c]) hseam) rfl, List.cons_append]

/-- A token is replaced as a whole. -/
theorem replaceAll_token_self : Text.replaceAll (tokenChars name) value (tokenChars name) = value := by
  have hne : tokenChars name ≠ [] := List.cons_ne_nil _ _
  have hreplace : Text.replaceAll (tokenChars name) value (tokenChars name ++ []) = value ++ [] :=
    Text.replaceAll_append hne []
  rwa [List.append_nil, List.append_nil] at hreplace

/-- A token holds no other one. -/
theorem replaceAll_token_ne {other : List Char} (hname : IsName name) (hother : IsName other)
    (hne : name ≠ other) :
    Text.replaceAll (tokenChars name) value (tokenChars other) = tokenChars other := by
  refine Text.replaceAll_of_not_infix fun hin => hne ?_
  have hdollar : '$' ∉ other := fun hmem => absurd (hother.2 '$' hmem) (by decide)
  have hcount : (tokenChars other).count '$' < 3 := by
    simp [tokenChars, List.count_eq_zero.mpr hdollar]
  obtain ⟨before, after, hsplit⟩ := hin
  -- With two dollar signs nothing stands beside the token, so that it is the one that is read.
  have hapart : Apart (fun _ => True) (before ++ tokenChars name ++ after) :=
    hsplit ▸ apart_of_count hcount
  obtain ⟨hblocks, -⟩ := hapart.blocks hname trivial
  have htokens := tokensFrom_token hother []
  rw [List.append_nil, ← hsplit, List.append_assoc, tokensFrom_seam (.inl hblocks),
    tokensFrom_token hname] at htokens
  exact List.mem_singleton.mp (htokens ▸ List.mem_append_right _ List.mem_cons_self)

/-! ## Tokens that are kept apart by text -/

/-- All dollar signs of a text are those of its tokens, and what stands between two tokens holds a
character that is in no name. -/
structure Cut.Spaced (c : Cut) : Prop where
  lead : '$' ∉ c.lead
  plain : ∀ part ∈ c.parts, '$' ∉ part.2
  broken : ∀ part ∈ c.parts.dropLast, ∃ d ∈ part.2, isNameChar d = false

-- The break is looked for among the characters of the text, not among all characters.
instance (c : Cut) : Decidable c.Spaced :=
  decidable_of_iff
    ('$' ∉ c.lead ∧ (∀ part ∈ c.parts, '$' ∉ part.2) ∧
      ∀ part ∈ c.parts.dropLast, part.2.any (!isNameChar ·))
    ⟨fun ⟨hlead, hplain, hbroken⟩ => ⟨hlead, hplain, by simpa using hbroken⟩,
      fun h => ⟨h.lead, h.plain, by simpa using h.broken⟩⟩

/-- A token is replaced in what stands in each of the places behind the start of a text. -/
theorem replaceAll_parts {parts : List (List Char × List Char)} (hname : IsName name)
    (hplain : ∀ part ∈ parts, '$' ∉ part.2)
    (hbroken : ∀ part ∈ parts.dropLast, ∃ d ∈ part.2, isNameChar d = false)
    (content : List Char → List Char) :
    Text.replaceAll (tokenChars name) value (parts.flatMap fun part => content part.1 ++ part.2) =
      parts.flatMap fun part =>
        Text.replaceAll (tokenChars name) value (content part.1) ++ part.2 := by
  induction parts with
  | nil => rfl
  | cons part parts ih =>
      obtain ⟨hpart, hrest⟩ := List.forall_mem_cons.mp hplain
      have hblocks : Blocks (part.2 ++ parts.flatMap fun part => content part.1 ++ part.2) := by
        cases parts with
        | nil => exact .inl (by simpa using hpart)
        | cons part' parts =>
            obtain ⟨d, hd, hbreak⟩ := hbroken part List.mem_cons_self
            exact blocks_append hpart ⟨d, hd, fun heq => hpart (heq ▸ hd), hbreak⟩ _
      have hlater : ∀ p ∈ parts.dropLast, ∃ d ∈ p.2, isNameChar d = false := by
        intro p hp
        refine hbroken p ?_
        cases parts with
        | nil => cases hp
        | cons part' parts => exact List.mem_cons_of_mem part hp
      rw [List.flatMap_cons, List.flatMap_cons, List.append_assoc, replaceAll_seam hname (.inr hblocks),
        replaceAll_plain_append hpart, ih hrest hlater, List.append_assoc]

/-- A token is replaced in what stands in each of the places. -/
theorem Cut.Spaced.replaceAll_fill {c : Cut} (hc : c.Spaced) (hname : IsName name)
    (content : List Char → List Char) :
    Text.replaceAll (tokenChars name) value (c.fill content) =
      c.fill fun n => Text.replaceAll (tokenChars name) value (content n) := by
  rw [Cut.fill, Cut.fill, replaceAll_plain_append hc.lead,
    replaceAll_parts hname hc.plain hc.broken]

/-- Only what is put in the places of the tokens matters. -/
theorem Cut.fill_congr {c : Cut} {content content' : List Char → List Char}
    (h : ∀ n ∈ c.parts.map Prod.fst, content n = content' n) : c.fill content = c.fill content' := by
  rw [fill, fill, List.flatMap_congr fun part hpart => by rw [h part.1 (List.mem_map_of_mem hpart)]]

/-- A text whose tokens are kept apart stays when another one is replaced. -/
theorem replaceAll_of_notMem_tokens (hs : (cut s).Spaced) (hname : IsName name)
    (h : name ∉ tokensFrom none s) : Text.replaceAll (tokenChars name) value s = s := by
  calc Text.replaceAll (tokenChars name) value s
      = Text.replaceAll (tokenChars name) value ((cut s).fill tokenChars) := by rw [fill_cut]
    _ = (cut s).fill fun n => Text.replaceAll (tokenChars name) value (tokenChars n) :=
        hs.replaceAll_fill hname tokenChars
    _ = (cut s).fill tokenChars := by
        refine Cut.fill_congr fun n hn => ?_
        rw [names_cut] at hn
        exact replaceAll_token_ne hname (infix_of_mem_tokens hn).1 fun heq => h (heq ▸ hn)
    _ = s := fill_cut s

end AgentCompiler.Prompt
