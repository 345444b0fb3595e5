import AgentCompiler.Proofs.Name.Identifier

/-!
# What cleaned names look like

A cleaned name is spelt out of blocks of lower-case letters and digits. The words of a name that is spelt
in this way are its blocks, so cleaning leaves it as it is: `snake_eq_iff` says which names are cleaned
ones.
-/

namespace AgentCompiler.Name

variable {s block : List Char} {blocks : List (List Char)}

/-! ## Names spelt out of blocks -/

/-- A block is a run of lower-case letters and digits, and not empty. -/
def IsBlock (block : List Char) : Prop := block ≠ [] ∧ ∀ c ∈ block, isWordChar c

/-- The first block starts with a digit. -/
def startsWithDigit (blocks : List (List Char)) : Bool :=
  (blocks.head?.bind List.head?).any Char.isDigit

/-- Blocks joined by single underscores, behind one more underscore when a digit comes first. -/
def spell (blocks : List (List Char)) : List Char :=
  (if startsWithDigit blocks then ['_'] else []) ++ List.intercalate ['_'] blocks

/-- A name that is spelt out of one or more blocks. -/
def IsSpelt (name : String) : Prop :=
  ∃ blocks, blocks ≠ [] ∧ (∀ block ∈ blocks, IsBlock block) ∧ name.toList = spell blocks

/-! ## Words -/

/-- Words are read by parts at an underscore. -/
theorem byParts_words : Text.ByParts words '_' where
  nil := rfl
  append s t := by
    rw [words, words, words, List.splitOnP_append_cons s t (by decide), List.filter_append,
      List.map_append]

/-- A character of a block is in lower case. -/
theorem toLower_of_isWordChar {c : Char} (h : isWordChar c) : c.toLower = c :=
  of_isAlphanum (p := fun c => isWordChar c → c.toLower = c) (by decide) (isAlphanum_of_isWordChar h) h

/-- A block is one word. -/
theorem words_block (h : IsBlock block) : words block = [block] := by
  have hwhole : block.splitOnP (fun c => !c.isAlphanum) = [block] :=
    List.splitOnP_eq_singleton fun c hc => by simp [isAlphanum_of_isWordChar (h.2 c hc)]
  have hlower : block.map Char.toLower = block :=
    (List.map_congr_left fun c hc => toLower_of_isWordChar (h.2 c hc)).trans (List.map_id block)
  rw [words, hwhole, List.filter_cons_of_pos (by simpa using h.1), List.filter_nil, List.map_singleton,
    hlower]

/-- The words of a name are the blocks that it is spelt out of. -/
theorem words_spell (h : ∀ block ∈ blocks, IsBlock block) : words (spell blocks) = blocks := by
  have hjoined : words (List.intercalate ['_'] blocks) = blocks := by
    rw [byParts_words.intercalate, List.flatMap_congr fun block hblock => words_block (h block hblock)]
    exact List.flatMap_singleton' blocks
  rw [spell]
  split
  · -- The underscore in front is a separator with nothing before it.
    exact (byParts_words.append [] _).trans hjoined
  · exact hjoined

/-! ## Cleaned names -/

/-- A joined text starts as its first block does. -/
theorem head?_intercalate (h : ∀ block ∈ blocks, IsBlock block) :
    (List.intercalate ['_'] blocks).head? = blocks.head?.bind List.head? := by
  cases blocks with
  | nil => rfl
  | cons block blocks =>
      obtain ⟨hne, -⟩ := h block List.mem_cons_self
      cases blocks with
      | nil =>
          rw [List.intercalate_singleton]
          rfl
      | cons block' blocks =>
          rw [List.intercalate_cons_cons, List.append_assoc, List.head?_append_of_ne_nil _ hne]
          rfl

/-- A cleaned name is spelt out of the words of its text. -/
theorem variableChars_eq (h : words s ≠ []) : variableChars s = spell (words s) := by
  have hblocks : ∀ block ∈ words s, IsBlock block := fun block hblock => mem_words hblock
  have hhead := head?_intercalate hblocks
  obtain ⟨word, rest, hwords⟩ := List.exists_cons_of_ne_nil h
  have hne : List.intercalate ['_'] (words s) ≠ [] :=
    hwords ▸ Joined.intercalate_ne_nil rest (hblocks word (hwords ▸ List.mem_cons_self)).1
  rw [variableChars, spell, startsWithDigit, ← hhead]
  split
  · next hnil => exact absurd hnil hne
  · next c cs heq =>
      rw [heq, List.head?_cons, Option.any_some]
      split <;> rfl

/-- A cleaned name is spelt out of blocks. -/
theorem isSpelt_snake (s : String) : IsSpelt (snake s) := by
  rw [IsSpelt, snake, String.toList_ofList]
  by_cases h : words s.toList = []
  · -- A text without words takes a name of one block.
    have hvariable : variableChars s.toList = "variable".toList := by
      rw [variableChars, h]
      rfl
    refine ⟨["variable".toList], List.cons_ne_nil _ _, ?_, hvariable⟩
    exact List.forall_mem_singleton.mpr ⟨by decide, List.all_eq_true.mp (by decide)⟩
  · exact ⟨words s.toList, h, fun block hblock => mem_words hblock, variableChars_eq h⟩

/-- A name that is spelt out of blocks is left as it is. -/
theorem snake_of_isSpelt {name : String} (h : IsSpelt name) : snake name = name := by
  obtain ⟨blocks, hne, hblocks, hname⟩ := h
  have hwords : words name.toList = blocks := by rw [hname, words_spell hblocks]
  rw [snake, variableChars_eq (hwords ▸ hne), hwords, ← hname, String.ofList_toList]

/-- The cleaned names are those that are spelt out of blocks, and these are the names that cleaning leaves
as they are. So a name that is cleaned twice is the name cleaned once. -/
theorem snake_eq_iff (name : String) :
    ((∃ s, snake s = name) ↔ IsSpelt name) ∧ (snake name = name ↔ IsSpelt name) ∧
      snake (snake name) = snake name := by
  have hfixed : snake name = name ↔ IsSpelt name :=
    ⟨fun h => h ▸ isSpelt_snake name, snake_of_isSpelt⟩
  refine ⟨⟨?_, fun h => ⟨name, snake_of_isSpelt h⟩⟩, hfixed, snake_of_isSpelt (isSpelt_snake name)⟩
  rintro ⟨s, rfl⟩
  exact isSpelt_snake s

end AgentCompiler.Name
