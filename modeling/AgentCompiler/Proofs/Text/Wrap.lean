import Mathlib.Data.List.Forall2
import AgentCompiler.Proofs.Text.Pieces
import AgentCompiler.Text.Wrap

/-!
# Wrapped texts

Wrapping replaces some of the spaces of a line that is too wide by line feeds. A line is only made wider
than the limit by a single word, so what comes out is narrow, and a narrow line is left as it is. A
reading that goes by parts at spaces and at line feeds does not see the difference.
-/

namespace AgentCompiler.Text

variable {width : Nat} {open_ line : List Char} {ws : List (List Char)}

/-! ## Narrow lines -/

/-- A line fits the width, or cannot be broken. -/
def Narrow (width : Nat) (line : List Char) : Prop := line.length ≤ width ∨ ' ' ∉ line

instance (width : Nat) (line : List Char) : Decidable (Narrow width line) :=
  inferInstanceAs (Decidable (_ ∨ _))

/-- Lines stay narrow when they are filled with words: a word is only added where it fits. -/
theorem narrow_fillLines (hopen : Narrow width open_) (hws : ∀ w ∈ ws, ' ' ∉ w) :
    ∀ l ∈ fillLines width open_ ws, Narrow width l := by
  induction ws generalizing open_ with
  | nil => exact List.forall_mem_singleton.mpr hopen
  | cons w ws ih =>
      obtain ⟨hw, hrest⟩ := List.forall_mem_cons.mp hws
      rw [fillLines]
      split
      · exact ih (.inr hw) hrest
      split
      · next hfits =>
          refine ih (.inl ?_) hrest
          rw [List.length_append, List.length_cons]
          omega
      · exact List.forall_mem_cons.mpr ⟨hopen, ih (.inr hw) hrest⟩

/-- A narrow line is left as it is. -/
theorem wrapLine_of_narrow (h : Narrow width line) : wrapLine width line = [line] := by
  unfold wrapLine
  split
  · rfl
  · next hwide =>
      rw [List.splitOn_eq_singleton (h.resolve_left hwide)]
      rfl

theorem narrow_wrapLine (width : Nat) (line : List Char) :
    ∀ l ∈ wrapLine width line, Narrow width l := by
  unfold wrapLine
  split
  · next hfits => exact List.forall_mem_singleton.mpr (.inl hfits)
  · refine narrow_fillLines (.inl (Nat.zero_le width)) fun w hw hspace => ?_
    exact absurd (eq_false_of_mem_splitOnP hw ' ' hspace) (by decide)

/-! ## Lines of a wrapped text -/

/-- Filled lines are made of the characters of the words, and of spaces. -/
theorem mem_of_mem_fillLines {l : List Char} {c : Char} (hl : l ∈ fillLines width open_ ws)
    (hc : c ∈ l) : c = ' ' ∨ c ∈ open_ ∨ ∃ w ∈ ws, c ∈ w := by
  induction ws generalizing open_ with
  | nil => exact .inr (.inl (List.mem_singleton.mp hl ▸ hc))
  | cons w ws ih =>
      have hword {open' : List Char} (hopen : c ∈ open' → c = ' ' ∨ c ∈ open_ ∨ c ∈ w)
          (hl : l ∈ fillLines width open' ws) : c = ' ' ∨ c ∈ open_ ∨ ∃ w' ∈ w :: ws, c ∈ w' := by
        rcases ih hl with hspace | hmem | ⟨w', hw', hmem⟩
        · exact .inl hspace
        · exact (hopen hmem).imp_right (.imp_right fun hmem => ⟨w, List.mem_cons_self, hmem⟩)
        · exact .inr (.inr ⟨w', List.mem_cons_of_mem w hw', hmem⟩)
      rw [fillLines] at hl
      split at hl
      · exact hword (fun h => .inr (.inr h)) hl
      split at hl
      · refine hword (fun h => ?_) hl
        rcases List.mem_append.mp h with h | h
        · exact .inr (.inl h)
        · exact (List.mem_cons.mp h).imp_right .inr
      · rcases List.mem_cons.mp hl with rfl | hl
        · exact .inr (.inl hc)
        · exact hword (fun h => .inr (.inr h)) hl

theorem mem_of_mem_wrapLine {l : List Char} {c : Char} (hl : l ∈ wrapLine width line) (hc : c ∈ l) :
    c = ' ' ∨ c ∈ line := by
  unfold wrapLine at hl
  split at hl
  · exact .inr (List.mem_singleton.mp hl ▸ hc)
  · rcases mem_of_mem_fillLines hl hc with hspace | hnil | ⟨w, hw, hmem⟩
    · exact .inl hspace
    · cases hnil
    · exact .inr (mem_of_mem_splitOnP hw c hmem)

theorem wrapLine_ne_nil (width : Nat) (line : List Char) : wrapLine width line ≠ [] := by
  have hfill (open_ : List Char) (ws : List (List Char)) : fillLines width open_ ws ≠ [] := by
    induction ws generalizing open_ with
    | nil => exact List.cons_ne_nil _ _
    | cons w ws ih =>
        rw [fillLines]
        split
        · exact ih w
        split
        · exact ih _
        · exact List.cons_ne_nil _ _
  unfold wrapLine
  split
  · exact List.cons_ne_nil _ _
  · exact hfill _ _

/-- The lines of a wrapped text are those that its lines are wrapped to. -/
theorem splitOn_wrapChars (width : Nat) (s : List Char) :
    (wrapChars width s).splitOn '\n' = (s.splitOn '\n').flatMap (wrapLine width) := by
  refine List.splitOn_intercalate '\n' (fun l hl hfeed => ?_) ?_
  · obtain ⟨line, hline, hl⟩ := List.mem_flatMap.mp hl
    rcases mem_of_mem_wrapLine hl hfeed with hspace | hmem
    · exact absurd hspace (by decide)
    · exact absurd (eq_false_of_mem_splitOnP hline '\n' hmem) (by decide)
  · obtain ⟨first, rest, hlines⟩ := List.exists_cons_of_ne_nil (List.splitOn_ne_nil '\n' s)
    rw [hlines, List.flatMap_cons]
    exact List.append_ne_nil_of_left_ne_nil (wrapLine_ne_nil width first) _

theorem narrow_of_mem_wrapChars {l s : List Char} (h : l ∈ (wrapChars width s).splitOn '\n') :
    Narrow width l := by
  rw [splitOn_wrapChars] at h
  obtain ⟨line, -, hl⟩ := List.mem_flatMap.mp h
  exact narrow_wrapLine width line l hl

/-- A wrapped text is left as it is when it is wrapped again. -/
theorem wrapChars_wrapChars (width : Nat) (s : List Char) :
    wrapChars width (wrapChars width s) = wrapChars width s := by
  have hkeep : ((wrapChars width s).splitOn '\n').flatMap (wrapLine width) =
      (wrapChars width s).splitOn '\n' := by
    rw [List.flatMap_congr fun l hl => wrapLine_of_narrow (narrow_of_mem_wrapChars hl)]
    exact List.flatMap_singleton' _
  rw [wrapChars, hkeep, List.intercalate_splitOn]

/-! ## Readings -/

namespace ByParts

variable {β : Type} {f : List Char → List β}

/-- Lines that are filled with words are read as what was open and the words. -/
theorem fillLines (h : ByParts f ' ') (width : Nat) (open_ : List Char) (ws : List (List Char)) :
    (Text.fillLines width open_ ws).flatMap f = f open_ ++ ws.flatMap f := by
  induction ws generalizing open_ with
  | nil => rw [Text.fillLines, List.flatMap_singleton, List.flatMap_nil, List.append_nil]
  | cons w ws ih =>
      rw [Text.fillLines, List.flatMap_cons]
      split
      · next hempty =>
          obtain rfl := List.isEmpty_iff.mp hempty
          rw [ih, h.nil, List.nil_append]
      split
      · rw [ih, h.append, List.append_assoc]
      · rw [List.flatMap_cons, ih]

theorem wrapLine (h : ByParts f ' ') (width : Nat) (line : List Char) :
    (Text.wrapLine width line).flatMap f = f line := by
  unfold Text.wrapLine
  split
  · rw [List.flatMap_singleton]
  · rw [h.fillLines, h.nil, List.nil_append, h.splitOn]

/-- A reading that goes by parts at spaces and line feeds reads the same in a wrapped text. -/
theorem wrapChars (hspace : ByParts f ' ') (hfeed : ByParts f '\n') (width : Nat) (s : List Char) :
    f (Text.wrapChars width s) = f s := by
  rw [Text.wrapChars, hfeed.intercalate, List.flatMap_assoc]
  simp only [hspace.wrapLine]
  exact hfeed.splitOn s

end ByParts

/-- A space or a line feed. -/
def isGap (c : Char) : Bool := c = ' ' || c = '\n'

/-- The words of a text: what stands between spaces and line feeds, without empty ones. -/
def words (s : List Char) : List (List Char) := (s.splitOnP isGap).filter (!·.isEmpty)

/-- Words are read by parts at a space or a line feed. -/
theorem byParts_words {c : Char} (hc : isGap c) : ByParts words c where
  nil := rfl
  append s t := by rw [words, words, words, List.splitOnP_append_cons s t hc, List.filter_append]

/-- The lines that a line is wrapped to. A line that fits is kept, the others are broken between words as
far as they can be. -/
structure WrapsTo (width : Nat) (line : List Char) (ls : List (List Char)) : Prop where
  kept : line.length ≤ width → ls = [line]
  narrow : ∀ l ∈ ls, Narrow width l
  words_eq : ls.flatMap words = words line

theorem wrapsTo_wrapLine (width : Nat) (line : List Char) :
    WrapsTo width line (wrapLine width line) where
  kept hfits := wrapLine_of_narrow (.inl hfits)
  narrow := narrow_wrapLine width line
  words_eq := (byParts_words rfl).wrapLine width line

end AgentCompiler.Text
