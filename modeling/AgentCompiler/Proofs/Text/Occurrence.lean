import AgentCompiler.Proofs.Text.Marker
import AgentCompiler.Proofs.Text.Pieces
import AgentCompiler.Text.Margin

/-!
# Occurrences of a word

A word occurs in a text that is put together exactly when it occurs in one of the parts, as long as the
text between them has a character that the word does not have. Lines are moved by blanks, so a word without
blanks occurs where it occurred before.
-/

namespace AgentCompiler.Text

variable {w s t v : List Char} {c : Char}

/-- A text that starts and ends with a character which a word does not have. -/
structure Fenced (w v : List Char) : Prop where
  first : ∃ c rest, v = c :: rest ∧ c ∉ w
  last : ∃ init c, v = init ++ [c] ∧ c ∉ w

namespace Fenced

theorem of_quoted (h : c ∉ w) (s : List Char) : Fenced w (c :: s ++ [c]) :=
  ⟨⟨c, s ++ [c], rfl, h⟩, ⟨c :: s, c, rfl, h⟩⟩

theorem of_ends {p : Char → Bool} (hfirst : v.head?.any p) (hlast : v.getLast?.any p)
    (hp : ∀ c, p c → c ∉ w) : Fenced w v := by
  obtain ⟨c, hc, hpc⟩ := (Option.any_eq_true ..).mp hfirst
  obtain ⟨d, hd, hpd⟩ := (Option.any_eq_true ..).mp hlast
  obtain ⟨rest, hrest⟩ := List.head?_eq_some_iff.mp hc
  obtain ⟨init, hinit⟩ := List.getLast?_eq_some_iff.mp hd
  exact ⟨⟨c, rest, hrest, hp c hpc⟩, ⟨init, d, hinit, hp d hpd⟩⟩

theorem of_forall (hne : v ≠ []) (h : ∀ c ∈ v, c ∉ w) : Fenced w v := by
  obtain ⟨c, rest, rfl⟩ := List.exists_cons_of_ne_nil hne
  obtain ⟨init, d, heq⟩ := List.eq_nil_or_concat' (c :: rest) |>.resolve_left hne
  refine ⟨⟨c, rest, rfl, h c List.mem_cons_self⟩, ⟨init, d, heq, h d ?_⟩⟩
  rw [heq]
  exact List.mem_append_right _ (List.mem_singleton_self d)

/-- A word occurs in a fenced text, or in front of it, or behind it. -/
theorem infix_cases (hv : Fenced w v) (h : w <:+: s ++ (v ++ t)) :
    w <:+: s ∨ w <:+: v ∨ w <:+: t := by
  obtain ⟨c, rest, hfirst, hc⟩ := hv.first
  obtain ⟨init, d, hlast, hd⟩ := hv.last
  rw [hfirst] at h
  rcases infix_append_cons hc h with h | h
  · exact .inl h
  have hwhole : w <:+: init ++ d :: t := by
    rw [← List.singleton_append, ← List.append_assoc, ← hlast, hfirst]
    exact List.infix_cons h
  rcases infix_append_cons hd hwhole with h | h
  · refine .inr (.inl (h.trans ?_))
    rw [hlast]
    exact (List.prefix_append init [d]).isInfix
  · exact .inr (.inr h)

end Fenced

/-! ## Joined texts -/

/-- A word occurs in a part of a text that is joined with characters which it does not have. -/
theorem infix_intercalate {separator : List Char} {parts : List (List Char)} (hw : w ≠ [])
    (hne : separator ≠ []) (hseparator : ∀ c ∈ separator, c ∉ w)
    (h : w <:+: List.intercalate separator parts) : ∃ part ∈ parts, w <:+: part := by
  induction parts with
  | nil => exact absurd (List.infix_nil.mp h) hw
  | cons part parts ih =>
      cases parts with
      | nil =>
          rw [List.intercalate_singleton] at h
          exact ⟨part, List.mem_singleton_self part, h⟩
      | cons part' parts =>
          rw [List.intercalate_cons_cons, List.append_assoc] at h
          rcases (Fenced.of_forall hne hseparator).infix_cases h with h | h | h
          · exact ⟨part, List.mem_cons_self, h⟩
          · obtain ⟨c, hc⟩ := List.exists_mem_of_ne_nil w hw
            exact absurd hc (hseparator c (h.subset hc))
          · obtain ⟨found, hfound, hin⟩ := ih h
            exact ⟨found, List.mem_cons_of_mem _ hfound, hin⟩

theorem infix_ofLines {ls : List String} (hw : w ≠ []) (hfeed : '\n' ∉ w)
    (h : w <:+: (ofLines ls).toList) : ∃ l ∈ ls, w <:+: l.toList := by
  rw [toList_ofLines] at h
  obtain ⟨l, hl, hin⟩ := infix_intercalate hw (List.cons_ne_nil _ _) (by simpa using hfeed) h
  obtain ⟨line, hline, rfl⟩ := List.mem_map.mp hl
  exact ⟨line, hline, hin⟩

/-! ## Moved lines -/

/-- The lines of a text stand in it. -/
theorem infix_of_mem_lines {l : List Char} (h : l ∈ lines s) : l <:+: s := by
  have hpiece {piece : List Char} (hmem : piece ∈ s.splitOn '\n') : piece <:+: s := by
    have hjoined := infix_joinLines hmem
    rwa [joinLines, List.intercalate_splitOn] at hjoined
  have hended {l : List Char} (hmem : l ∈ (s.splitOn '\n').dropLast.map dropReturn) : l <:+: s := by
    obtain ⟨piece, hpieces, rfl⟩ := List.mem_map.mp hmem
    refine List.IsInfix.trans ?_ (hpiece (List.dropLast_subset _ hpieces))
    unfold dropReturn
    split
    · exact (List.dropLast_prefix piece).isInfix
    · exact List.infix_rfl
  unfold lines at h
  dsimp only at h
  split at h
  · exact hended h
  · exact hended h
  · next last hlast =>
      rcases List.mem_append.mp h with h | h
      · exact hended h
      · rw [List.mem_singleton.mp h]
        exact hpiece (List.mem_of_getLast? hlast)

/-- A word without blanks that occurs in a text whose lines were moved occurs in the text itself. -/
theorem infix_of_infix_indent {text : String} {levels : Nat} (hw : w ≠ [])
    (hink : ∀ c ∈ w, isBlank c = false) (h : w <:+: (indent text levels).toList) :
    w <:+: text.toList := by
  have hno {d : Char} (hd : isBlank d = true) : d ∉ w := by
    intro hmem
    rw [hink d hmem] at hd
    cases hd
  rw [indent, String.toList_ofList] at h
  obtain ⟨l, hl, hin⟩ := infix_intercalate hw (List.cons_ne_nil _ _) (by simpa using hno rfl) h
  obtain ⟨line, hline, rfl⟩ := List.mem_map.mp hl
  refine List.IsInfix.trans ?_ (infix_of_mem_lines hline)
  split at hin
  · exact absurd (List.infix_nil.mp hin) hw
  -- The blanks in front of a line are passed over.
  · generalize 4 * levels = n at hin
    induction n with
    | zero => exact hin
    | succ n ih =>
        rw [List.replicate_succ, List.cons_append] at hin
        rcases infix_append_cons (s := []) (hno rfl) hin with hnil | hin
        · exact absurd (List.infix_nil.mp hnil) hw
        · exact ih hin

/-! ## Filled texts -/

/-- A word that occurs in a text after a replacement occurs in the text or in the value. -/
theorem infix_of_infix_replaceAll {pattern : List Char} (hpattern : pattern ≠ []) (hv : Fenced w v)
    (h : w <:+: replaceAll pattern v s) : w <:+: s ∨ w <:+: v := by
  induction hlength : s.length using Nat.strong_induction_on generalizing s with
  | _ n ih =>
      by_cases hin : pattern <:+: s
      · obtain ⟨before, after, rfl, -, hreplace⟩ := exists_first hpattern hin
        rw [hreplace, List.append_assoc] at h
        have hpos := List.length_pos_iff.mpr hpattern
        rcases hv.infix_cases h with h | h | h
        · refine .inl (h.trans ?_)
          rw [List.append_assoc]
          exact (List.prefix_append _ _).isInfix
        · exact .inr h
        · refine (ih after.length (by simp at hlength; omega) h rfl).imp_left fun hafter => ?_
          exact hafter.trans (List.suffix_append _ _).isInfix
      · rw [Text.replaceAll_of_not_infix hin] at h
        exact .inl h

/-- A word that occurs in a filled text occurs in the template or in a value. -/
theorem infix_of_infix_fill {template : String} {values : List (String × String)}
    (hvalues : ∀ e ∈ values, Fenced w e.2.toList) (h : w <:+: (fill template values).toList) :
    w <:+: template.toList ∨ ∃ e ∈ values, w <:+: e.2.toList := by
  rw [fill, String.toList_ofList] at h
  generalize template.toList = s at h ⊢
  induction values generalizing s with
  | nil => exact .inl h
  | cons e values ih =>
      rw [List.forall_mem_cons] at hvalues
      rcases ih hvalues.2 _ h with h | ⟨e', he', h⟩
      · rcases infix_of_infix_replaceAll marker_ne_nil hvalues.1 h with h | h
        · exact .inl h
        · exact .inr ⟨e, List.mem_cons_self, h⟩
      · exact .inr ⟨e', List.mem_cons_of_mem _ he', h⟩

end AgentCompiler.Text
