import Mathlib.Data.List.Infix
import AgentCompiler.Proofs.Code.Line

/-!
# Tidy texts

Tidying takes the blanks from the ends of lines, and leaves two lines of a run of empty ones. What is
left is neat: no line ends with a blank, and no three lines in a row are empty. Whole lines of a text that
start and end with a line of ink are tidied as if they stood alone.
-/

namespace AgentCompiler.Text

variable {c : Char} {l l' s t u : List Char} {ls ls' : List (List Char)}

/-! ## Blanks at the end -/

theorem dropBlanksEnd_append (h : ∀ c ∈ t, isBlank c) (s : List Char) :
    dropBlanksEnd (s ++ t) = dropBlanksEnd s := by
  rw [dropBlanksEnd, dropBlanksEnd, List.reverse_append, List.dropWhile_append_of_pos]
  simpa using h

/-- What is taken away are blanks, and no blank is left at the end. -/
theorem dropBlanksEnd_spec (s : List Char) :
    (∃ blanks, s = dropBlanksEnd s ++ blanks ∧ ∀ c ∈ blanks, isBlank c) ∧
      (dropBlanksEnd s = [] ∨ EndsInk (dropBlanksEnd s)) := by
  induction s using List.reverseRecOn with
  | nil => exact ⟨⟨[], rfl, List.forall_mem_nil _⟩, .inl rfl⟩
  | append_singleton s c ih =>
      obtain ⟨⟨blanks, hs, hblanks⟩, hend⟩ := ih
      by_cases hc : isBlank c
      · rw [dropBlanksEnd_append (by simpa using hc)]
        refine ⟨⟨blanks ++ [c], ?_, ?_⟩, hend⟩
        · rw [← List.append_assoc, ← hs]
        · simpa [or_imp, forall_and] using ⟨hblanks, hc⟩
      · have hink : EndsInk (s ++ [c]) := ⟨c, List.getLast?_concat, Bool.eq_false_iff.mpr hc⟩
        rw [hink.dropBlanksEnd_eq]
        exact ⟨⟨[], (List.append_nil _).symm, List.forall_mem_nil _⟩, .inr hink⟩

theorem dropBlanksEnd_eq_self (h : l = [] ∨ EndsInk l) : dropBlanksEnd l = l := by
  rcases h with rfl | h
  · rfl
  · exact h.dropBlanksEnd_eq

/-- A character of ink stays, with all that is in front of it. -/
theorem dropBlanksEnd_cons (h : isBlank c = false) (s : List Char) :
    dropBlanksEnd (c :: s) = c :: dropBlanksEnd s := by
  obtain ⟨⟨blanks, hs, hblanks⟩, hend⟩ := dropBlanksEnd_spec s
  have hkept : EndsInk (c :: dropBlanksEnd s) := by
    rcases hend with hnil | hink
    · rw [hnil]
      exact ⟨c, rfl, h⟩
    · exact hink.append (s := [c])
  conv_lhs => rw [hs, ← List.cons_append]
  rw [dropBlanksEnd_append hblanks, hkept.dropBlanksEnd_eq]

theorem EndsInk.of_append (h : EndsInk (s ++ t)) (ht : t ≠ []) : EndsInk t := by
  rwa [EndsInk, List.getLast?_append_of_ne_nil _ ht] at h

theorem EndsInk.not_forall_isBlank (h : EndsInk s) : ¬∀ c ∈ s, isBlank c := by
  obtain ⟨c, hlast, hc⟩ := h
  intro hall
  rw [hall c (List.mem_of_getLast? hlast)] at hc
  cases hc

theorem dropBlanksEnd_dropReturn (l : List Char) : dropBlanksEnd (dropReturn l) = dropBlanksEnd l := by
  unfold dropReturn
  split
  · next hlast =>
      obtain ⟨init, rfl⟩ := List.getLast?_eq_some_iff.mp hlast
      have hreturn : ∀ c ∈ ['\r'], isBlank c := List.forall_mem_singleton.mpr rfl
      rw [List.dropLast_concat, dropBlanksEnd_append hreturn]
  · rfl

/-! ## Tidy lines -/

theorem closeGaps_concat_nil (gap : Nat) (ls : List (List Char)) :
    closeGaps gap (ls ++ [[]]) = closeGaps gap ls := by
  induction ls generalizing gap with
  | nil => rfl
  | cons l ls ih => rw [List.cons_append, closeGaps, closeGaps, ih, ih]

theorem closeGaps_append_cons (hl : l ≠ []) (gap : Nat) (ls ls' : List (List Char)) :
    closeGaps gap (ls ++ l :: ls') = closeGaps gap (ls ++ [l]) ++ closeGaps 0 ls' := by
  have hempty : l.isEmpty = false := List.isEmpty_eq_false_iff.mpr hl
  induction ls generalizing gap with
  | nil => simp [closeGaps, hempty]
  | cons first ls ih =>
      rw [List.cons_append, List.cons_append, closeGaps, closeGaps, ih, ih]
      split
      · rfl
      · rw [List.append_assoc, List.cons_append]

theorem tidyLines_nil_cons (ls : List (List Char)) : tidyLines ([] :: ls) = tidyLines ls := by
  rw [tidyLines, List.dropWhile_cons_of_pos rfl]
  rfl

theorem tidyLines_cons (hl : l ≠ []) (ls : List (List Char)) :
    tidyLines (l :: ls) = l :: closeGaps 0 ls := by
  rw [tidyLines, List.dropWhile_cons_of_neg (by simpa using hl)]

theorem tidyLines_concat_nil (ls : List (List Char)) : tidyLines (ls ++ [[]]) = tidyLines ls := by
  induction ls with
  | nil => rfl
  | cons l ls ih =>
      by_cases hl : l = []
      · rw [hl, List.cons_append, tidyLines_nil_cons, tidyLines_nil_cons, ih]
      · rw [List.cons_append, tidyLines_cons hl, tidyLines_cons hl, closeGaps_concat_nil]

theorem tidyLines_append_cons (hl : l ≠ []) (ls ls' : List (List Char)) :
    tidyLines (ls ++ l :: ls') = tidyLines (ls ++ [l]) ++ closeGaps 0 ls' := by
  induction ls with
  | nil =>
      rw [List.nil_append, List.nil_append, tidyLines_cons hl, tidyLines_cons hl]
      rfl
  | cons first ls ih =>
      by_cases hfirst : first = []
      · rw [hfirst, List.cons_append, List.cons_append, tidyLines_nil_cons, tidyLines_nil_cons, ih]
      · rw [List.cons_append, List.cons_append, tidyLines_cons hfirst, tidyLines_cons hfirst,
          closeGaps_append_cons hl, List.cons_append]

/-- The last line of ink stays the last one. -/
theorem closeGaps_concat (hl : l ≠ []) (gap : Nat) (ls : List (List Char)) :
    ∃ before, closeGaps gap (ls ++ [l]) = before ++ [l] := by
  induction ls generalizing gap with
  | nil =>
      refine ⟨List.replicate (min gap 2) [], ?_⟩
      rw [List.nil_append, closeGaps, if_neg (by simpa using hl)]
      rfl
  | cons first ls ih =>
      rw [List.cons_append, closeGaps]
      split
      · exact ih _
      · obtain ⟨before, hbefore⟩ := ih 0
        refine ⟨List.replicate (min gap 2) [] ++ first :: before, ?_⟩
        rw [hbefore, List.append_assoc, List.cons_append]

theorem tidyLines_concat (hl : l ≠ []) (ls : List (List Char)) :
    ∃ before, tidyLines (ls ++ [l]) = before ++ [l] := by
  induction ls with
  | nil => exact ⟨[], tidyLines_cons hl []⟩
  | cons first ls ih =>
      rw [List.cons_append]
      by_cases hfirst : first = []
      · rw [hfirst, tidyLines_nil_cons]
        exact ih
      · obtain ⟨before, hbefore⟩ := closeGaps_concat hl 0 ls
        exact ⟨first :: before, by rw [tidyLines_cons hfirst, hbefore, List.cons_append]⟩

/-- Lines from a line of ink to another one are tidied as if they stood alone. -/
theorem infix_tidyLines (hl : l ≠ []) (hl' : l' ≠ []) (before ls after : List (List Char)) :
    tidyLines (l :: (ls ++ [l'])) <:+: tidyLines (before ++ l :: (ls ++ l' :: after)) := by
  obtain ⟨start, hstart⟩ := tidyLines_concat hl before
  refine ⟨start, closeGaps 0 after, ?_⟩
  rw [tidyLines_append_cons hl, closeGaps_append_cons hl', hstart, tidyLines_cons hl]
  simp

/-! ## Texts of lines -/

theorem joinLines_cons (l : List Char) (hne : ls ≠ []) :
    joinLines (l :: ls) = l ++ '\n' :: joinLines ls := by
  obtain ⟨l', ls, rfl⟩ := List.exists_cons_of_ne_nil hne
  exact joinLines_cons_cons l l' ls

theorem joinLines_concat (hne : ls ≠ []) (l : List Char) :
    joinLines (ls ++ [l]) = joinLines ls ++ '\n' :: l := by
  induction ls with
  | nil => exact absurd rfl hne
  | cons first ls ih =>
      cases ls with
      | nil => simp [joinLines]
      | cons l' ls =>
          rw [List.cons_append, joinLines_cons _ (by simp), ih (by simp), joinLines_cons_cons,
            List.append_assoc, List.cons_append]

/-- Lines that are ended by line feeds. -/
theorem flatMap_ended (ls : List (List Char)) : ls.flatMap (· ++ ['\n']) = joinLines (ls ++ [[]]) := by
  induction ls with
  | nil => rfl
  | cons l ls ih => rw [List.flatMap_cons, ih, List.cons_append, joinLines_cons _ (by simp)]; simp

theorem splitOn_joinLines (hne : ls ≠ []) (hfeed : ∀ l ∈ ls, '\n' ∉ l) :
    (joinLines ls).splitOn '\n' = ls := List.splitOn_intercalate '\n' hfeed hne

theorem joinLines_splitOn (s : List Char) : joinLines (s.splitOn '\n') = s := List.intercalate_splitOn '\n'

/-- The lines of a text without the blanks at their ends. -/
def bareLines (s : List Char) : List (List Char) := (s.splitOn '\n').map dropBlanksEnd

/-- Whether a line ends in a carriage return, and whether the last one ends at all, makes no difference. -/
theorem tidyLines_lines (s : List Char) :
    tidyLines ((lines s).map dropBlanksEnd) = tidyLines (bareLines s) := by
  obtain ⟨init, last, hpieces⟩ := List.eq_nil_or_concat' (s.splitOn '\n') |>.resolve_left
    (List.splitOn_ne_nil _ _)
  have hended : (init.map dropReturn).map dropBlanksEnd = init.map dropBlanksEnd := by
    rw [List.map_map]
    exact List.map_congr_left fun l _ => dropBlanksEnd_dropReturn l
  unfold lines bareLines
  rw [hpieces]
  simp only [List.dropLast_concat, List.getLast?_concat]
  cases last with
  | nil => rw [hended, List.map_append, List.map_singleton, dropBlanksEnd_eq_self (.inl rfl), tidyLines_concat_nil]
  | cons c last => rw [List.map_append, hended, List.map_append]

theorem tidyChars_eq (s : List Char) : tidyChars s = joinLines (tidyLines (bareLines s) ++ [[]]) := by
  rw [tidyChars, tidyLines_lines, flatMap_ended]

theorem mem_of_mem_closeGaps {gap : Nat} (h : l ∈ closeGaps gap ls) : l = [] ∨ l ∈ ls := by
  induction ls generalizing gap with
  | nil => cases h
  | cons first ls ih =>
      rw [closeGaps] at h
      split at h
      · exact (ih h).imp_right (List.mem_cons_of_mem _)
      rcases List.mem_append.mp h with h | h
      · exact .inl (List.eq_of_mem_replicate h)
      rcases List.mem_cons.mp h with rfl | h
      · exact .inr List.mem_cons_self
      · exact (ih h).imp_right (List.mem_cons_of_mem _)

theorem mem_of_mem_tidyLines (h : l ∈ tidyLines ls) : l = [] ∨ l ∈ ls := by
  induction ls with
  | nil => cases h
  | cons first ls ih =>
      by_cases hfirst : first = []
      · rw [hfirst, tidyLines_nil_cons] at h
        exact (ih h).imp_right (List.mem_cons_of_mem _)
      rw [tidyLines_cons hfirst] at h
      rcases List.mem_cons.mp h with rfl | h
      · exact .inr List.mem_cons_self
      · exact (mem_of_mem_closeGaps h).imp_right (List.mem_cons_of_mem _)

/-! ## Neat texts -/

/-- No line of a text ends with a blank, and no three lines in a row are empty. -/
structure IsNeat (s : List Char) : Prop where
  ends : ∀ l ∈ s.splitOn '\n', l = [] ∨ EndsInk l
  gaps : ¬[[], [], []] <:+: s.splitOn '\n'

instance (l : List Char) : Decidable (EndsInk l) :=
  decidable_of_iff (l.getLast?.any fun c => !isBlank c) (by simp [Option.any_eq_true, EndsInk])

instance (s : List Char) : Decidable (IsNeat s) :=
  decidable_of_iff ((∀ l ∈ s.splitOn '\n', l = [] ∨ EndsInk l) ∧ ¬[[], [], []] <:+: s.splitOn '\n')
    ⟨fun h => ⟨h.1, h.2⟩, fun h => ⟨h.ends, h.gaps⟩⟩

/-- Between lines of ink, at most two empty lines are left. -/
theorem not_infix_closeGaps (gap : Nat) (ls : List (List Char)) :
    ¬[[], [], []] <:+: closeGaps gap ls ++ [[]] := by
  induction ls generalizing gap with
  | nil =>
      intro h
      cases List.infix_cons_iff.mp h with
      | inl hstart => exact absurd hstart.length_le (by decide)
      | inr hin => cases List.infix_nil.mp hin
  | cons l ls ih =>
      rw [closeGaps]
      split
      · exact ih _
      next hempty =>
      intro h
      have hink : l ∉ [[], [], []] := by simpa using hempty
      rw [List.append_assoc, List.cons_append] at h
      rcases infix_append_cons hink h with h | h
      · -- In front of a line of ink stand at most two empty ones.
        have hlength := h.length_le
        simp only [List.length_cons, List.length_nil, List.length_replicate] at hlength
        omega
      · exact ih 0 h

theorem not_infix_tidyLines (ls : List (List Char)) : ¬[[], [], []] <:+: tidyLines ls ++ [[]] := by
  induction ls with
  | nil =>
      intro h
      exact absurd h.length_le (by decide)
  | cons l ls ih =>
      by_cases hl : l = []
      · rw [hl, tidyLines_nil_cons]
        exact ih
      rw [tidyLines_cons hl]
      intro h
      rcases infix_append_cons (s := []) (by simpa using hl) h with h | h
      · exact absurd h.length_le (by decide)
      · exact not_infix_closeGaps 0 ls h

theorem feed_notMem_bareLines (h : l ∈ bareLines s) : '\n' ∉ l := by
  obtain ⟨piece, hpiece, rfl⟩ := List.mem_map.mp h
  obtain ⟨⟨blanks, hblanks, -⟩, -⟩ := dropBlanksEnd_spec piece
  intro hmem
  have hfeed : '\n' ∈ piece := by
    rw [hblanks]
    exact List.mem_append_left _ hmem
  exact absurd (eq_false_of_mem_splitOnP hpiece '\n' hfeed) (by decide)

/-- A tidy text has the tidy lines, and an empty piece behind the last line feed. -/
theorem splitOn_tidyChars (s : List Char) :
    (tidyChars s).splitOn '\n' = tidyLines (bareLines s) ++ [[]] := by
  rw [tidyChars_eq]
  refine splitOn_joinLines (by simp) fun l hl => ?_
  rcases List.mem_append.mp hl with hl | hl
  · rcases mem_of_mem_tidyLines hl with rfl | hl
    · exact List.not_mem_nil
    · exact feed_notMem_bareLines hl
  · rw [List.mem_singleton.mp hl]
    exact List.not_mem_nil

/-- A tidy text is neat. -/
theorem isNeat_tidyChars (s : List Char) : IsNeat (tidyChars s) := by
  constructor
  · intro l hl
    rw [splitOn_tidyChars] at hl
    rcases List.mem_append.mp hl with hl | hl
    · rcases mem_of_mem_tidyLines hl with rfl | hl
      · exact .inl rfl
      · obtain ⟨piece, -, rfl⟩ := List.mem_map.mp hl
        exact (dropBlanksEnd_spec piece).2
    · exact .inl (List.mem_singleton.mp hl)
  · rw [splitOn_tidyChars]
    exact not_infix_tidyLines _

/-- Whole lines of a neat text are neat. -/
theorem IsNeat.of_lines (h : IsNeat (s ++ '\n' :: (t ++ '\n' :: u))) : IsNeat t := by
  have hmiddle : t.splitOn '\n' <:+: (s ++ '\n' :: (t ++ '\n' :: u)).splitOn '\n' := by
    rw [List.splitOn_append_cons_self, List.splitOn_append_cons_self]
    exact ⟨s.splitOn '\n', u.splitOn '\n', List.append_assoc _ _ _⟩
  exact ⟨fun l hl => h.ends l (hmiddle.subset hl), fun hgap => h.gaps (hgap.trans hmiddle)⟩

/-- Gaps that are small enough stay. -/
theorem closeGaps_eq_self (hl : l ≠ []) (gap : Nat)
    (h : ¬[[], [], []] <:+: List.replicate gap [] ++ (ls ++ [l])) :
    closeGaps gap (ls ++ [l]) = List.replicate gap [] ++ (ls ++ [l]) := by
  have hgap {gap : Nat} {rest : List (List Char)}
      (h : ¬[[], [], []] <:+: List.replicate gap [] ++ rest) : min gap 2 = gap := by
    by_contra hmin
    obtain ⟨n, rfl⟩ := Nat.exists_eq_add_of_le (show 3 ≤ gap by omega)
    rw [List.replicate_add, List.append_assoc] at h
    exact h (List.prefix_append _ _).isInfix
  induction ls generalizing gap with
  | nil =>
      rw [List.nil_append] at h ⊢
      rw [closeGaps, if_neg (by simpa using hl), hgap h]
      rfl
  | cons first ls ih =>
      rw [List.cons_append] at h ⊢
      rw [closeGaps]
      split
      · next hempty =>
          have hmore : List.replicate gap [] ++ first :: (ls ++ [l]) =
              List.replicate (gap + 1) [] ++ (ls ++ [l]) := by
            rw [List.isEmpty_iff.mp hempty, List.replicate_succ', List.append_assoc]
            rfl
          rw [hmore] at h ⊢
          exact ih _ h
      · have hrest : ¬[[], [], []] <:+: ls ++ [l] := fun hin =>
          h (hin.trans ((List.suffix_cons _ _).trans (List.suffix_append _ _)).isInfix)
        rw [hgap h, ih 0 hrest]
        rfl

/-! ## Trimmed texts -/

/-- A text starts with a character that is not blank. -/
def StartsInk (s : List Char) : Prop := ∃ c, s.head? = some c ∧ isBlank c = false

theorem StartsInk.ne_nil (h : StartsInk s) : s ≠ [] := by
  rintro rfl
  obtain ⟨c, hhead, -⟩ := h
  cases hhead

theorem StartsInk.append (h : StartsInk s) : StartsInk (s ++ t) := by
  obtain ⟨c, hhead, hc⟩ := h
  exact ⟨c, by rw [List.head?_append, hhead, Option.some_or], hc⟩

theorem StartsInk.intercalate {separator : List Char} (h : StartsInk l) :
    StartsInk (List.intercalate separator (l :: ls)) := by
  cases ls with
  | nil => rwa [List.intercalate_singleton]
  | cons l' ls =>
      rw [List.intercalate_cons_cons, List.append_assoc]
      exact h.append

theorem EndsInk.intercalate {separator : List Char} (h : EndsInk l) :
    EndsInk (List.intercalate separator (ls ++ [l])) := by
  induction ls with
  | nil => rwa [List.nil_append, List.intercalate_singleton]
  | cons first ls ih =>
      rw [List.cons_append, List.intercalate_cons_of_ne_nil (by simp)]
      exact ih.append

/-- A trimmed text is empty, or has ink at both ends. -/
theorem trim_cases (t : String) :
    (trim t).toList = [] ∨ StartsInk (trim t).toList ∧ EndsInk (trim t).toList := by
  rw [trim, trimEnd, trimStart, String.toList_ofList, String.toList_ofList]
  cases hstart : t.toList.dropWhile isBlank with
  | nil => exact .inl rfl
  | cons c rest =>
      have hc : isBlank c = false := by
        have hhead := List.head?_dropWhile_not isBlank t.toList
        rw [hstart] at hhead
        simpa using hhead
      have hends := (dropBlanksEnd_spec (c :: rest)).2
      rw [dropBlanksEnd_cons hc] at hends ⊢
      exact .inr ⟨⟨c, rfl, hc⟩, hends.resolve_left (List.cons_ne_nil _ _)⟩

theorem isBlank_feed : ∀ c ∈ ['\n'], isBlank c := List.forall_mem_singleton.mpr rfl

theorem trim_ofList (hstart : StartsInk s) (hend : EndsInk s) (ht : ∀ c ∈ t, isBlank c) :
    trim (.ofList (s ++ t)) = .ofList s := by
  obtain ⟨c, hhead, hc⟩ := hstart
  obtain ⟨rest, rfl⟩ := List.head?_eq_some_iff.mp hhead
  rw [trim, trimEnd, trimStart, String.toList_ofList, String.toList_ofList, List.cons_append,
    List.dropWhile_cons_of_neg (by rw [hc]; exact Bool.false_ne_true), ← List.cons_append,
    dropBlanksEnd_append ht, hend.dropBlanksEnd_eq]

theorem bareLines_of_startsInk (h : StartsInk s) :
    ∃ l ls, StartsInk l ∧ bareLines s = l :: ls := by
  obtain ⟨c, hhead, hc⟩ := h
  obtain ⟨rest, rfl⟩ := List.head?_eq_some_iff.mp hhead
  have hfeed : (c == '\n') = false := by
    rw [beq_eq_false_iff_ne]
    rintro rfl
    exact absurd hc (by decide)
  obtain ⟨first, ls, hrest⟩ := List.exists_cons_of_ne_nil (List.splitOn_ne_nil '\n' rest)
  refine ⟨c :: dropBlanksEnd first, ls.map dropBlanksEnd, ⟨c, rfl, hc⟩, ?_⟩
  rw [bareLines, List.splitOn_cons_eq_if_modifyHead, hfeed, if_neg Bool.false_ne_true, hrest,
    List.modifyHead_cons, List.map_cons, dropBlanksEnd_cons hc]

theorem bareLines_of_endsInk (h : EndsInk s) : ∃ ls l, EndsInk l ∧ bareLines s = ls ++ [l] := by
  obtain ⟨init, last, hpieces⟩ := List.eq_nil_or_concat' (s.splitOn '\n') |>.resolve_left
    (List.splitOn_ne_nil _ _)
  have hlast : EndsInk last := by
    have hs := joinLines_splitOn s
    rw [hpieces] at hs
    obtain ⟨c, hc, hink⟩ := h
    refine ⟨c, ?_, hink⟩
    cases init with
    | nil =>
        rw [← hc, ← hs]
        simp [joinLines]
    | cons first init =>
        rw [joinLines_concat (List.cons_ne_nil _ _)] at hs
        cases last with
        | nil =>
            rw [← hs, List.getLast?_concat] at hc
            obtain rfl := Option.some.inj hc
            exact absurd hink (by decide)
        | cons d last =>
            rw [← hs, List.append_cons, List.getLast?_append_of_ne_nil _ (List.cons_ne_nil _ _)] at hc
            exact hc
  refine ⟨init.map dropBlanksEnd, last, hlast, ?_⟩
  rw [bareLines, hpieces, List.map_append, List.map_singleton, hlast.dropBlanksEnd_eq]

/-- A trimmed text is tidied to a trimmed text and a line feed. -/
theorem exists_tidyChars_eq (hstart : StartsInk s) (hend : EndsInk s) :
    ∃ t, tidyChars s = t ++ ['\n'] ∧ StartsInk t ∧ EndsInk t := by
  obtain ⟨first, rest, hfirst, hlines⟩ := bareLines_of_startsInk hstart
  obtain ⟨init, last, hlast, hlines'⟩ := bareLines_of_endsInk hend
  obtain ⟨before, hbefore⟩ := tidyLines_concat hlast.ne_nil init
  have htidy : tidyLines (bareLines s) = first :: closeGaps 0 rest := by
    rw [hlines, tidyLines_cons hfirst.ne_nil]
  refine ⟨joinLines (tidyLines (bareLines s)), ?_, ?_, ?_⟩
  · rw [tidyChars_eq, joinLines_concat (by rw [htidy]; exact List.cons_ne_nil _ _)]
  · rw [htidy]
    exact hfirst.intercalate
  · rw [hlines', hbefore]
    exact hlast.intercalate

theorem bareLines_framed (hl : EndsInk l) (hl' : EndsInk l') (hfeed : '\n' ∉ l) (hfeed' : '\n' ∉ l')
    (s : List Char) : bareLines (l ++ '\n' :: (s ++ '\n' :: l')) = l :: (bareLines s ++ [l']) := by
  rw [bareLines, List.splitOn_append_cons_self, List.splitOn_append_cons_self,
    List.splitOn_eq_singleton hfeed, List.splitOn_eq_singleton hfeed', List.map_append, List.map_append,
    List.map_singleton, List.map_singleton, hl.dropBlanksEnd_eq, hl'.dropBlanksEnd_eq]
  rfl

/-- A trimmed text between two lines of ink is tidied on its own. -/
theorem tidyChars_framed (hstart : StartsInk s) (hend : EndsInk s) (hl : EndsInk l) (hl' : EndsInk l')
    (hfeed : '\n' ∉ l) (hfeed' : '\n' ∉ l') :
    tidyChars (l ++ '\n' :: (s ++ '\n' :: l')) = l ++ '\n' :: (tidyChars s ++ (l' ++ ['\n'])) := by
  obtain ⟨first, rest, hfirst, hlines⟩ := bareLines_of_startsInk hstart
  obtain ⟨init, last, hlast, hlines'⟩ := bareLines_of_endsInk hend
  have hgaps : closeGaps 0 (bareLines s ++ [l']) = tidyLines (bareLines s) ++ [l'] := by
    have hown : closeGaps 0 (bareLines s) = tidyLines (bareLines s) := by
      rw [hlines, tidyLines_cons hfirst.ne_nil, closeGaps, if_neg (by simpa using hfirst.ne_nil)]
      rfl
    rw [← hown, hlines', List.append_assoc, List.singleton_append, closeGaps_append_cons hlast.ne_nil]
    simp [closeGaps, hl'.ne_nil]
  have hne : tidyLines (bareLines s) ≠ [] := by
    rw [hlines, tidyLines_cons hfirst.ne_nil]
    exact List.cons_ne_nil _ _
  rw [tidyChars_eq, bareLines_framed hl hl' hfeed hfeed', tidyLines_cons hl.ne_nil, hgaps, tidyChars_eq,
    joinLines_concat hne, List.cons_append, joinLines_cons _ (by simp), joinLines_concat (by simp),
    joinLines_concat hne]
  simp

/-- Lines that start and end with ink, and have no larger gaps, are tidy. -/
theorem tidyLines_eq_self {ls ls' : List (List Char)} {l l' : List Char} (hl : l ≠ []) (hl' : l' ≠ [])
    (h : l :: ls = ls' ++ [l']) (hgap : ¬[[], [], []] <:+: l :: ls) : tidyLines (l :: ls) = l :: ls := by
  cases ls' with
  | nil =>
      obtain ⟨-, rfl⟩ := List.cons_eq_cons.mp h
      exact tidyLines_cons hl []
  | cons first ls' =>
      obtain ⟨-, hls⟩ := List.cons_eq_cons.mp h
      subst hls
      rw [tidyLines_cons hl, List.append_eq, closeGaps_eq_self hl' 0]
      · rfl
      · exact fun hin => hgap (hin.trans (List.suffix_cons _ _).isInfix)

theorem bareLines_of_ends (h : ∀ l ∈ s.splitOn '\n', l = [] ∨ EndsInk l) :
    bareLines s = s.splitOn '\n' :=
  (List.map_congr_left fun l hl => dropBlanksEnd_eq_self (h l hl)).trans (List.map_id _)

/-- A trimmed text that is neat is tidy but for a line feed at its end. -/
theorem tidyChars_of_isNeat (hstart : StartsInk s) (hend : EndsInk s) (h : IsNeat s) :
    tidyChars s = s ++ ['\n'] := by
  obtain ⟨first, rest, hfirst, hlines⟩ := bareLines_of_startsInk hstart
  obtain ⟨init, last, hlast, hlines'⟩ := bareLines_of_endsInk hend
  have hbare := bareLines_of_ends h.ends
  have hgaps : tidyLines (bareLines s) = bareLines s := by
    have hgap := h.gaps
    rw [← hbare] at hgap
    rw [hlines] at hgap hlines' ⊢
    exact tidyLines_eq_self hfirst.ne_nil hlast.ne_nil hlines' hgap
  rw [tidyChars_eq, hgaps, hlines', joinLines_concat (by simp), ← hlines', hbare, joinLines_splitOn]

end AgentCompiler.Text
