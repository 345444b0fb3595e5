import Mathlib.Data.List.Infix
import AgentCompiler.Text.Marker

/-!
# Replacing a pattern

A text without the pattern stays as it is. Otherwise it splits at the first occurrence, the value takes
the place of the pattern, and what follows is replaced on its own.
-/

namespace AgentCompiler.Text

variable {pattern value : List Char}

/-- The characters of an occurrence are passed over. -/
theorem replaceFrom_append (xs s : List Char) :
    replaceFrom pattern value xs.length (xs ++ s) = replaceAll pattern value s := by
  induction xs with
  | nil => rfl
  | cons x xs ih => exact ih

/-- A pattern at the start of a text is replaced. -/
theorem replaceAll_append (hpattern : pattern ≠ []) (s : List Char) :
    replaceAll pattern value (pattern ++ s) = value ++ replaceAll pattern value s := by
  cases pattern with
  | nil => exact absurd rfl hpattern
  | cons c cs =>
      have hprefix : (c :: cs).isPrefixOf (c :: (cs ++ s)) := by
        rw [List.isPrefixOf_iff_prefix]
        exact List.prefix_append (c :: cs) s
      rw [replaceAll, List.cons_append, replaceFrom, if_pos hprefix]
      exact congrArg (value ++ ·) (replaceFrom_append cs s)

/-- A character at which the pattern does not start is kept. -/
theorem replaceAll_cons {c : Char} {s : List Char} (h : ¬pattern <+: c :: s) :
    replaceAll pattern value (c :: s) = c :: replaceAll pattern value s := by
  have hprefix : ¬pattern.isPrefixOf (c :: s) := fun hp => h (List.isPrefixOf_iff_prefix.mp hp)
  rw [replaceAll, replaceFrom, if_neg hprefix]
  rfl

/-- A text without the pattern stays as it is. -/
theorem replaceAll_of_not_infix {s : List Char} (h : ¬pattern <:+: s) :
    replaceAll pattern value s = s := by
  induction s with
  | nil => rfl
  | cons c s ih =>
      rw [List.infix_cons_iff, not_or] at h
      rw [replaceAll_cons h.1, ih h.2]

/-- A text with the pattern splits at the first occurrence, whatever follows it. -/
theorem exists_first {s : List Char} (hpattern : pattern ≠ []) (h : pattern <:+: s) :
    ∃ before after, s = before ++ pattern ++ after ∧ ¬pattern <:+: before ∧
      ∀ value after, replaceAll pattern value (before ++ pattern ++ after) =
        before ++ value ++ replaceAll pattern value after := by
  induction s with
  | nil => exact absurd (List.infix_nil.mp h) hpattern
  | cons c s ih =>
      by_cases hprefix : pattern <+: c :: s
      · obtain ⟨after, hafter⟩ := hprefix
        refine ⟨[], after, hafter.symm, fun hnil => ?_, fun value after => ?_⟩
        · exact hpattern (List.infix_nil.mp hnil)
        · exact replaceAll_append hpattern after
      · rcases List.infix_cons_iff.mp h with hp | hs
        · exact absurd hp hprefix
        obtain ⟨before, after, rfl, hbefore, hreplace⟩ := ih hs
        -- An occurrence that starts at `c` would end before what follows the first one.
        have hstart (after' : List Char) : ¬pattern <+: c :: (before ++ pattern ++ after') := by
          intro hp
          have hlength : pattern.length ≤ (c :: (before ++ pattern)).length := by simp; omega
          have hshort := List.prefix_of_prefix_length_le hp
            (List.prefix_append (c :: (before ++ pattern)) after') hlength
          exact hprefix (hshort.trans (List.prefix_append (c :: (before ++ pattern)) after))
        refine ⟨c :: before, after, rfl, fun hin => ?_, fun value after' => ?_⟩
        · rcases List.infix_cons_iff.mp hin with hp | hin
          · refine hprefix (hp.trans ?_)
            rw [← List.cons_append, ← List.cons_append, List.append_assoc]
            exact List.prefix_append _ _
          · exact hbefore hin
        · rw [List.cons_append, List.cons_append, replaceAll_cons (hstart after'), hreplace value]
          rfl

/-- What stands before any start of the pattern is kept. -/
theorem replaceAll_append_left {first : Char} {cs u : List Char} (hu : first ∉ u) (s : List Char) :
    replaceAll (first :: cs) value (u ++ s) = u ++ replaceAll (first :: cs) value s := by
  induction u with
  | nil => rfl
  | cons d u ih =>
      rw [List.mem_cons, not_or] at hu
      rw [List.cons_append, replaceAll_cons fun hp => hu.1 (List.cons_prefix_cons.mp hp).1, ih hu.2]
      rfl

end AgentCompiler.Text
