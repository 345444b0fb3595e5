import Mathlib.Data.List.Induction
import AgentCompiler.Code.Module
import AgentCompiler.Proofs.Text.Pieces

/-!
# Lines of a module

A line that a section of a module is written with is a line of the module, when it does not end with a
blank: trimming, leaving blank sections out, joining and tidying take away nothing but blank lines and
blanks at the ends of lines.
-/

namespace AgentCompiler

namespace Text

variable {l s t : List Char} {c : Char}

/-- A line that ends with a character which is not blank. -/
def EndsInk (l : List Char) : Prop := ∃ c, l.getLast? = some c ∧ isBlank c = false

namespace EndsInk

theorem append (h : EndsInk t) : EndsInk (s ++ t) := by
  obtain ⟨c, hlast, hc⟩ := h
  exact ⟨c, by rw [List.getLast?_append, hlast, Option.some_or], hc⟩

theorem ne_nil (h : EndsInk l) : l ≠ [] := by
  rintro rfl
  obtain ⟨c, hlast, -⟩ := h
  cases hlast

theorem dropBlanksEnd_eq (h : EndsInk l) : dropBlanksEnd l = l := by
  obtain ⟨c, hlast, hc⟩ := h
  obtain ⟨init, rfl⟩ := List.getLast?_eq_some_iff.mp hlast
  have hkeep : ¬isBlank c := by rw [hc]; exact Bool.false_ne_true
  rw [dropBlanksEnd, List.reverse_append, List.reverse_singleton, List.singleton_append,
    List.dropWhile_cons_of_neg hkeep, List.reverse_cons, List.reverse_reverse]

theorem dropReturn_eq (h : EndsInk l) : dropReturn l = l := by
  obtain ⟨c, hlast, hc⟩ := h
  have hreturn : c ≠ '\r' := by
    rintro rfl
    exact absurd hc (by decide)
  rw [dropReturn, hlast, if_neg (by simpa using hreturn)]

end EndsInk

/-! ## Joined texts -/

theorem mem_splitOn_append_left (h : l ∈ s.splitOn '\n') (t : List Char) :
    l ∈ (s ++ '\n' :: t).splitOn '\n' := by
  rw [List.splitOn_append_cons_self]
  exact List.mem_append_left _ h

theorem mem_splitOn_append_right (h : l ∈ t.splitOn '\n') (s : List Char) :
    l ∈ (s ++ '\n' :: t).splitOn '\n' := by
  rw [List.splitOn_append_cons_self]
  exact List.mem_append_right _ h

/-- The lines of a text are lines of all texts joined, with one line feed or more between neighbours. -/
theorem infix_splitOn_intercalate {texts : List (List Char)} (ht : t ∈ texts) (n : Nat) :
    t.splitOn '\n' <:+: (List.intercalate (List.replicate (n + 1) '\n') texts).splitOn '\n' := by
  induction texts with
  | nil => cases ht
  | cons first texts ih =>
      cases texts with
      | nil =>
          obtain rfl := List.mem_singleton.mp ht
          simp
      | cons next texts =>
          rw [List.intercalate_cons_cons]
          rcases List.mem_cons.mp ht with rfl | ht
          · rw [List.replicate_succ, List.append_assoc, List.cons_append, List.splitOn_append_cons_self]
            exact (List.prefix_append _ _).isInfix
          · have hlast (rest : List Char) : first ++ List.replicate (n + 1) '\n' ++ rest =
                first ++ List.replicate n '\n' ++ '\n' :: rest := by
              simp [List.replicate_succ']
            rw [hlast, List.splitOn_append_cons_self]
            exact (ih ht).trans (List.suffix_append _ _).isInfix

/-- A line of a text is a line of all texts joined. -/
theorem mem_splitOn_intercalate {texts : List (List Char)} (ht : t ∈ texts)
    (h : l ∈ t.splitOn '\n') (n : Nat) :
    l ∈ (List.intercalate (List.replicate (n + 1) '\n') texts).splitOn '\n' :=
  (infix_splitOn_intercalate ht n).subset h

/-- A line of a text that is given line by line. -/
theorem mem_splitOn_ofLines {line : String} {ls : List String} (hline : line ∈ ls)
    (h : '\n' ∉ line.toList) : line.toList ∈ (ofLines ls).toList.splitOn '\n' := by
  rw [toList_ofLines]
  refine mem_splitOn_intercalate (List.mem_map_of_mem hline) ?_ 0
  rw [List.splitOn_eq_singleton h]
  exact List.mem_singleton_self _

/-! ## Trimmed texts -/

theorem mem_splitOn_dropWhile (hl : l ≠ []) (h : l ∈ s.splitOn '\n') :
    l ∈ (s.dropWhile (· == '\n')).splitOn '\n' := by
  induction s with
  | nil => exact h
  | cons c s ih =>
      by_cases hc : c = '\n'
      · subst hc
        rw [List.splitOn_cons_eq_if_modifyHead, if_pos (beq_self_eq_true _)] at h
        rw [List.dropWhile_cons_of_pos rfl]
        exact ih ((List.mem_cons.mp h).resolve_left hl)
      · rw [List.dropWhile_cons_of_neg (by simpa using hc)]
        exact h

/-- A line of a text that is not empty stays when the line feeds at the ends are taken away. -/
theorem mem_splitOn_trimLineFeeds (hl : l ≠ []) (h : l ∈ s.splitOn '\n') :
    l ∈ (Code.trimLineFeeds s).splitOn '\n' := by
  rw [Code.trimLineFeeds]
  have hstart := mem_splitOn_dropWhile hl h
  generalize s.dropWhile (· == '\n') = t at hstart
  -- At the end the line feeds are taken away one after the other, so the text is read backwards.
  induction t using List.reverseRecOn with
  | nil => exact hstart
  | append_singleton t c ih =>
      rw [List.reverse_append, List.reverse_singleton, List.singleton_append]
      by_cases hc : c = '\n'
      · subst hc
        rw [List.splitOn_append_cons_self] at hstart
        rw [List.dropWhile_cons_of_pos rfl]
        refine ih ((List.mem_append.mp hstart).resolve_right fun hlast => hl ?_)
        exact List.mem_singleton.mp hlast
      · rw [List.dropWhile_cons_of_neg (by simpa using hc), List.reverse_cons, List.reverse_reverse]
        exact hstart

/-! ## Tidy texts -/

/-- The lines of a text are the pieces between its line feeds, but for their ends. -/
theorem mem_lines (hl : EndsInk l) (h : l ∈ s.splitOn '\n') : l ∈ lines s := by
  obtain ⟨init, last, hpieces⟩ := List.eq_nil_or_concat (s.splitOn '\n') |>.resolve_left
    (List.splitOn_ne_nil _ _)
  rw [List.concat_eq_append] at hpieces
  unfold lines
  rw [hpieces] at h ⊢
  simp only [List.dropLast_concat, List.getLast?_concat]
  rcases List.mem_append.mp h with h | h
  · have hended : l ∈ init.map dropReturn := List.mem_map.mpr ⟨l, h, hl.dropReturn_eq⟩
    split
    · exact hended
    · exact hended
    · exact List.mem_append_left _ hended
  · obtain rfl := List.mem_singleton.mp h
    cases l with
    | nil => exact absurd rfl hl.ne_nil
    | cons c l => exact List.mem_append_right _ (List.mem_singleton_self _)

theorem mem_closeGaps {ls : List (List Char)} (hl : l ≠ []) (h : l ∈ ls) (gap : Nat) :
    l ∈ closeGaps gap ls := by
  induction ls generalizing gap with
  | nil => cases h
  | cons first ls ih =>
      rw [closeGaps]
      split
      · next hempty =>
          rcases List.mem_cons.mp h with rfl | h
          · exact absurd (List.isEmpty_iff.mp hempty) hl
          · exact ih h _
      · refine List.mem_append_right _ ?_
        rcases List.mem_cons.mp h with rfl | h
        · exact List.mem_cons_self
        · exact List.mem_cons_of_mem _ (ih h 0)

/-- Only empty lines are taken away. -/
theorem mem_tidyLines {ls : List (List Char)} (hl : l ≠ []) (h : l ∈ ls) : l ∈ tidyLines ls := by
  have hrest : l ∈ ls.dropWhile List.isEmpty := by
    induction ls with
    | nil => cases h
    | cons first ls ih =>
        by_cases hfirst : first.isEmpty
        · rw [List.dropWhile_cons_of_pos hfirst]
          rcases List.mem_cons.mp h with rfl | h
          · exact absurd (List.isEmpty_iff.mp hfirst) hl
          · exact ih h
        · rw [List.dropWhile_cons_of_neg hfirst]
          exact h
  unfold tidyLines
  split
  · next hnil =>
      rw [hnil] at hrest
      exact hrest
  · next first rest hcons =>
      rw [hcons] at hrest
      rcases List.mem_cons.mp hrest with rfl | hrest
      · exact List.mem_cons_self
      · exact List.mem_cons_of_mem _ (mem_closeGaps hl hrest 0)

theorem mem_splitOn_ended {ls : List (List Char)} (hl : '\n' ∉ l) (h : l ∈ ls) :
    l ∈ (ls.flatMap (· ++ ['\n'])).splitOn '\n' := by
  obtain ⟨before, after, rfl⟩ := List.append_of_mem h
  have hown : l ∈ (l ++ '\n' :: after.flatMap (· ++ ['\n'])).splitOn '\n' := by
    refine mem_splitOn_append_left ?_ _
    rw [List.splitOn_eq_singleton hl]
    exact List.mem_singleton_self _
  rw [List.flatMap_append, List.flatMap_cons, List.append_assoc, List.singleton_append]
  induction before with
  | nil => exact hown
  | cons first before ih =>
      rw [List.flatMap_cons, List.append_assoc, List.append_assoc, List.singleton_append]
      exact mem_splitOn_append_right (ih (List.mem_append_right before List.mem_cons_self)) _

/-- A line of a text that does not end with a blank is a line of the tidy text. -/
theorem mem_lines_tidyChars (hl : EndsInk l) (h : l ∈ s.splitOn '\n') : l ∈ lines (tidyChars s) := by
  have hfeed : '\n' ∉ l := fun hmem => absurd (eq_false_of_mem_splitOnP h '\n' hmem) (by decide)
  have hline : l ∈ (lines s).map dropBlanksEnd :=
    List.mem_map.mpr ⟨l, mem_lines hl h, hl.dropBlanksEnd_eq⟩
  exact mem_lines hl (mem_splitOn_ended hfeed (mem_tidyLines hl.ne_nil hline))

end Text

namespace Code

open Text

/-- A line of a section that does not end with a blank is a line of the module. -/
theorem Sections.mem_lines_assemble {s : Sections} {body : String} {l : List Char}
    (hmem : body ∈ s.toList) (hl : EndsInk l) (h : l ∈ body.toList.splitOn '\n') :
    l ∈ lines s.assemble.toList := by
  have hbody := mem_splitOn_trimLineFeeds hl.ne_nil h
  obtain ⟨c, hlast, hc⟩ := hl
  have hink : ¬(trimLineFeeds body.toList).all isBlank := by
    intro hall
    have hblank := List.all_eq_true.mp hall c
      (mem_of_mem_splitOnP hbody c (List.mem_of_getLast? hlast))
    rw [hc] at hblank
    cases hblank
  rw [assemble, String.toList_ofList]
  refine mem_lines_tidyChars ⟨c, hlast, hc⟩ (mem_splitOn_intercalate ?_ hbody 2)
  exact List.mem_filter.mpr ⟨List.mem_map.mpr ⟨body, hmem, rfl⟩, by simpa using hink⟩

end Code

end AgentCompiler
