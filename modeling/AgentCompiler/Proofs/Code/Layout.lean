import AgentCompiler.Proofs.Text.Tidy

/-!
# The layout of a module is a normal form

A tidy text has a shape of its own, `IsTidy`, and exactly the texts of this shape stay as they are when
they are tidied. What is tidied keeps its lines of ink. Tidying goes by parts at two blank lines between
texts with ink, so that a module is its tidy sections with two blank lines between neighbours.
-/

namespace AgentCompiler

namespace Text

variable {l l' s t : List Char} {ls ls' : List (List Char)}

/-! ## Gaps -/

theorem closeGaps_replicate (gap n : Nat) (ls : List (List Char)) :
    closeGaps gap (List.replicate n [] ++ ls) = closeGaps (gap + n) ls := by
  induction n generalizing gap with
  | zero => rfl
  | succ n ih =>
      rw [List.replicate_succ, List.cons_append, closeGaps, List.isEmpty_nil, if_pos rfl, ih]
      congr 1
      omega

theorem closeGaps_replicate_nil (n : Nat) : closeGaps 0 (List.replicate n []) = [] := by
  have hnil := closeGaps_replicate 0 n []
  rwa [List.append_nil] at hnil

theorem tidyLines_replicate (n : Nat) (ls : List (List Char)) :
    tidyLines (List.replicate n [] ++ ls) = tidyLines ls := by
  induction n with
  | zero => rfl
  | succ n ih => rw [List.replicate_succ, List.cons_append, tidyLines_nil_cons, ih]

/-- Lines with ink among them have a first one. -/
theorem exists_first_ink (h : ∃ l ∈ ls, l ≠ []) :
    ∃ n l rest, l ≠ [] ∧ ls = List.replicate n [] ++ l :: rest := by
  induction ls with
  | nil => obtain ⟨l, hl, -⟩ := h; cases hl
  | cons first ls ih =>
      by_cases hfirst : first = []
      · obtain ⟨l, hl, hne⟩ := h
        have hrest : l ∈ ls := (List.mem_cons.mp hl).resolve_left fun heq => hne (heq.trans hfirst)
        obtain ⟨n, l, rest, hne, rfl⟩ := ih ⟨l, hrest, hne⟩
        exact ⟨n + 1, l, rest, hne, by rw [hfirst, List.replicate_succ, List.cons_append]⟩
      · exact ⟨0, first, ls, hfirst, rfl⟩

/-- Lines with ink among them have a last one. -/
theorem exists_last_ink (h : ∃ l ∈ ls, l ≠ []) :
    ∃ init l n, l ≠ [] ∧ ls = init ++ l :: List.replicate n [] := by
  have hreverse : ∃ l ∈ ls.reverse, l ≠ [] := by simpa using h
  obtain ⟨n, l, rest, hne, hsplit⟩ := exists_first_ink hreverse
  refine ⟨rest.reverse, l, n, hne, ?_⟩
  rw [← List.reverse_reverse ls, hsplit]
  simp

/-- Two empty lines between lines with ink are kept, and all others around them are not. -/
theorem tidyLines_append_gap (h : ∃ l ∈ ls, l ≠ []) (h' : ∃ l ∈ ls', l ≠ []) :
    tidyLines (ls ++ [] :: [] :: ls') = tidyLines ls ++ [] :: [] :: tidyLines ls' := by
  obtain ⟨init, l, n, hl, rfl⟩ := exists_last_ink h
  obtain ⟨m, l', rest, hl', rfl⟩ := exists_first_ink h'
  have hgap : closeGaps 0 (List.replicate n [] ++ [] :: [] :: (List.replicate m [] ++ l' :: rest)) =
      [] :: [] :: l' :: closeGaps 0 rest := by
    have hskip (gap : Nat) (ls : List (List Char)) : closeGaps gap ([] :: ls) = closeGaps (gap + 1) ls := rfl
    have hmin : min (0 + n + 1 + 1 + m) 2 = 2 := by omega
    rw [closeGaps_replicate, hskip, hskip, closeGaps_replicate, closeGaps, if_neg (by simpa using hl'),
      hmin]
    rfl
  rw [List.append_assoc, List.cons_append, tidyLines_append_cons hl, hgap,
    tidyLines_append_cons hl init (List.replicate n []), closeGaps_replicate_nil,
    List.append_nil, tidyLines_replicate, tidyLines_cons hl']

theorem filter_closeGaps (gap : Nat) (ls : List (List Char)) :
    (closeGaps gap ls).filter (!·.isEmpty) = ls.filter (!·.isEmpty) := by
  induction ls generalizing gap with
  | nil => rfl
  | cons l ls ih =>
      rw [closeGaps]
      split
      · next hempty => rw [ih, List.filter_cons_of_neg (by simp [hempty])]
      · next hink =>
          rw [List.filter_append, List.filter_cons_of_pos (by simp [hink]),
            List.filter_cons_of_pos (by simp [hink]), ih]
          simp

/-- Tidying lines keeps those of ink. -/
theorem filter_tidyLines (ls : List (List Char)) :
    (tidyLines ls).filter (!·.isEmpty) = ls.filter (!·.isEmpty) := by
  induction ls with
  | nil => rfl
  | cons l ls ih =>
      by_cases hl : l = []
      · rw [hl, tidyLines_nil_cons, ih]
        rfl
      · rw [tidyLines_cons hl, List.filter_cons, List.filter_cons, filter_closeGaps]

theorem tidyLines_eq_nil_iff : tidyLines ls = [] ↔ ∀ l ∈ ls, l = [] := by
  induction ls with
  | nil => simp [tidyLines]
  | cons l ls ih =>
      by_cases hl : l = []
      · rw [hl, tidyLines_nil_cons, ih]
        simp
      · rw [tidyLines_cons hl]
        simp [hl]

/-! ## Tidy texts -/

/-- The lines of ink of a text, without the blanks at their ends. -/
def inkLines (s : List Char) : List (List Char) := ((lines s).map dropBlanksEnd).filter (!·.isEmpty)

/-- The shape of a tidy text. No line ends with a blank and no three lines in a row are empty; the text
does not start with an empty line, and ends with a line of ink and one line feed, if it is not empty. -/
structure IsTidy (s : List Char) : Prop extends IsNeat s where
  start : s.head? ≠ some '\n'
  final : s = [] ∨ ∃ t, s = t ++ ['\n'] ∧ EndsInk t

theorem inkLines_eq (s : List Char) : inkLines s = (bareLines s).filter (!·.isEmpty) := by
  rw [inkLines, ← filter_tidyLines, tidyLines_lines, filter_tidyLines]

/-- A text is tidied to a text with the same lines of ink. -/
theorem inkLines_tidyChars (s : List Char) : inkLines (tidyChars s) = inkLines s := by
  rw [inkLines_eq, inkLines_eq, bareLines_of_ends (isNeat_tidyChars s).ends, splitOn_tidyChars,
    List.filter_append, filter_tidyLines]
  simp

theorem dropBlanksEnd_eq_nil_iff (l : List Char) : dropBlanksEnd l = [] ↔ ∀ c ∈ l, isBlank c := by
  obtain ⟨⟨blanks, hl, hblanks⟩, hend⟩ := dropBlanksEnd_spec l
  constructor
  · intro hnil
    rw [hl, hnil, List.nil_append]
    exact hblanks
  · intro hall
    refine hend.resolve_right fun hink => hink.not_forall_isBlank fun c hc => hall c ?_
    rw [hl]
    exact List.mem_append_left _ hc

/-- A text is blank when all its lines are. -/
theorem forall_bareLines_eq_nil_iff (s : List Char) :
    (∀ l ∈ bareLines s, l = []) ↔ ∀ c ∈ s, isBlank c := by
  have hink : ByParts (List.filter (!isBlank ·)) '\n' :=
    ⟨rfl, fun s t => by rw [List.filter_append, List.filter_cons_of_neg (by decide)]⟩
  have hpieces : (∀ piece ∈ s.splitOn '\n', ∀ c ∈ piece, isBlank c) ↔ ∀ c ∈ s, isBlank c := by
    have hparts := hink.splitOn s
    refine ⟨fun hall => ?_, fun hall piece hpiece c hc => hall c (mem_of_mem_splitOnP hpiece c hc)⟩
    have hnil : (s.splitOn '\n').flatMap (List.filter (!isBlank ·)) = [] :=
      List.flatMap_eq_nil_iff.mpr fun piece hpiece =>
        List.filter_eq_nil_iff.mpr fun c hc => by simp [hall piece hpiece c hc]
    rw [hnil, eq_comm, List.filter_eq_nil_iff] at hparts
    simpa using hparts
  rw [← hpieces, bareLines, List.forall_mem_map]
  exact forall₂_congr fun piece _ => dropBlanksEnd_eq_nil_iff piece

theorem tidyChars_eq_nil_iff (s : List Char) : tidyChars s = [] ↔ ∀ c ∈ s, isBlank c := by
  rw [← forall_bareLines_eq_nil_iff, ← tidyLines_eq_nil_iff, tidyChars, tidyLines_lines]
  cases tidyLines (bareLines s) <;> simp

/-- What is tidied is tidy. -/
theorem isTidy_tidyChars (s : List Char) : IsTidy (tidyChars s) := by
  have hlines := tidyChars_eq s
  by_cases hblank : ∀ l ∈ bareLines s, l = []
  · have hnil := (tidyChars_eq_nil_iff s).mpr ((forall_bareLines_eq_nil_iff s).mp hblank)
    exact ⟨isNeat_tidyChars s, by rw [hnil]; exact nofun, .inl hnil⟩
  have hink : ∃ l ∈ bareLines s, l ≠ [] := by simpa using hblank
  refine ⟨isNeat_tidyChars s, ?_, .inr ?_⟩
  · obtain ⟨n, first, rest, hne, hsplit⟩ := exists_first_ink hink
    rw [hsplit, tidyLines_replicate, tidyLines_cons hne, List.cons_append, joinLines_cons _ (by simp)] at hlines
    obtain ⟨c, first, rfl⟩ := List.exists_cons_of_ne_nil hne
    have hfeed : '\n' ∉ c :: first := feed_notMem_bareLines (s := s) (by rw [hsplit]; simp)
    rw [hlines]
    rintro ⟨⟩
    exact hfeed List.mem_cons_self
  · obtain ⟨init, last, n, hne, hsplit⟩ := exists_last_ink hink
    obtain ⟨before, hbefore⟩ := tidyLines_concat hne init
    have hlast : EndsInk last := by
      have hmem : last ∈ bareLines s := by rw [hsplit]; simp
      obtain ⟨piece, -, rfl⟩ := List.mem_map.mp hmem
      exact (dropBlanksEnd_spec piece).2.resolve_left hne
    rw [hsplit, tidyLines_append_cons hne, closeGaps_replicate_nil, List.append_nil, hbefore,
      joinLines_concat (by simp)] at hlines
    exact ⟨_, hlines, hlast.intercalate⟩

/-- A tidy text stays as it is. -/
theorem IsTidy.tidyChars_eq (h : IsTidy s) : tidyChars s = s := by
  rcases h.final with rfl | ⟨t, rfl, ht⟩
  · rfl
  obtain ⟨c, t, rfl⟩ := List.exists_cons_of_ne_nil ht.ne_nil
  have hsplit : (c :: t ++ ['\n']).splitOn '\n' = (c :: t).splitOn '\n' ++ [[]] := by
    rw [List.splitOn_append_cons_self]
    rfl
  have hends : ∀ l ∈ (c :: t).splitOn '\n', l = [] ∨ EndsInk l := fun l hl =>
    h.ends l (by rw [hsplit]; exact List.mem_append_left _ hl)
  have hgaps : ¬[[], [], []] <:+: (c :: t).splitOn '\n' := fun hgap =>
    h.gaps (by rw [hsplit]; exact hgap.trans (List.prefix_append _ _).isInfix)
  obtain ⟨init, last, hlast, hinit⟩ := bareLines_of_endsInk ht
  rw [bareLines_of_ends hends] at hinit
  have hlines : tidyLines ((c :: t).splitOn '\n') = (c :: t).splitOn '\n' := by
    have hfeed : (c == '\n') = false := by
      rw [beq_eq_false_iff_ne]
      rintro rfl
      exact h.start rfl
    obtain ⟨first, rest, hrest⟩ := List.exists_cons_of_ne_nil (List.splitOn_ne_nil '\n' t)
    rw [List.splitOn_cons_eq_if_modifyHead, hfeed, if_neg Bool.false_ne_true, hrest,
      List.modifyHead_cons] at hinit hgaps ⊢
    exact tidyLines_eq_self (List.cons_ne_nil c first) hlast.ne_nil hinit hgaps
  rw [Text.tidyChars_eq, bareLines_of_ends h.ends, hsplit, tidyLines_concat_nil, hlines,
    joinLines_concat (List.splitOn_ne_nil _ _), joinLines_splitOn]

/-! ## Joined texts -/

/-- Texts with ink and two blank lines between them are tidied one by one. -/
theorem tidyChars_append_gap (hs : ∃ c ∈ s, isBlank c = false) (ht : ∃ c ∈ t, isBlank c = false) :
    tidyChars (s ++ '\n' :: '\n' :: '\n' :: t) = tidyChars s ++ '\n' :: '\n' :: tidyChars t := by
  have hink {s : List Char} (hs : ∃ c ∈ s, isBlank c = false) : ∃ l ∈ bareLines s, l ≠ [] := by
    by_contra hnone
    push Not at hnone
    obtain ⟨c, hc, hink⟩ := hs
    rw [(forall_bareLines_eq_nil_iff s).mp hnone c hc] at hink
    cases hink
  have hlines : bareLines (s ++ '\n' :: '\n' :: '\n' :: t) =
      bareLines s ++ [] :: [] :: bareLines t := by
    rw [bareLines, List.splitOn_append_cons_self, List.map_append]
    rfl
  simp only [tidyChars, tidyLines_lines]
  rw [hlines, tidyLines_append_gap (hink hs) (hink ht), List.flatMap_append]
  rfl

theorem tidyChars_intercalate {texts : List (List Char)}
    (h : ∀ t ∈ texts, ∃ c ∈ t, isBlank c = false) :
    tidyChars (List.intercalate ['\n', '\n', '\n'] texts) =
      List.intercalate ['\n', '\n'] (texts.map tidyChars) := by
  induction texts with
  | nil => rfl
  | cons first texts ih =>
      cases texts with
      | nil => rw [List.intercalate_singleton, List.map_singleton, List.intercalate_singleton]
      | cons next texts =>
          obtain ⟨hfirst, hrest⟩ := List.forall_mem_cons.mp h
          have hink : ∃ c ∈ List.intercalate ['\n', '\n', '\n'] (next :: texts), isBlank c = false := by
            obtain ⟨c, hc, hink⟩ := hrest next List.mem_cons_self
            refine ⟨c, ?_, hink⟩
            cases texts with
            | nil => rwa [List.intercalate_singleton]
            | cons t texts =>
                rw [List.intercalate_cons_cons]
                exact List.mem_append_left _ (List.mem_append_left _ hc)
          rw [List.intercalate_cons_cons, List.append_assoc, List.cons_append, List.cons_append,
            List.cons_append, List.nil_append, tidyChars_append_gap hfirst hink, ih hrest]
          simp only [List.map_cons, List.intercalate_cons_cons, List.append_assoc]
          rfl

/-- Line feeds at the ends make no difference to the tidy text. -/
theorem tidyChars_trimLineFeeds (s : List Char) : tidyChars (Code.trimLineFeeds s) = tidyChars s := by
  have hstart (s : List Char) : tidyChars (s.dropWhile (· == '\n')) = tidyChars s := by
    induction s with
    | nil => rfl
    | cons c s ih =>
        by_cases hc : c = '\n'
        · subst hc
          have hlines : bareLines ('\n' :: s) = [] :: bareLines s := by
            rw [bareLines, List.splitOn_cons_eq_if_modifyHead, if_pos (beq_self_eq_true _)]
            rfl
          rw [List.dropWhile_cons_of_pos rfl, ih, Text.tidyChars_eq, Text.tidyChars_eq, hlines,
            tidyLines_nil_cons]
        · rw [List.dropWhile_cons_of_neg (by simpa using hc)]
  have hend (s : List Char) : tidyChars (s.reverse.dropWhile (· == '\n')).reverse = tidyChars s := by
    induction s using List.reverseRecOn with
    | nil => rfl
    | append_singleton s c ih =>
        rw [List.reverse_append, List.reverse_singleton, List.singleton_append]
        by_cases hc : c = '\n'
        · subst hc
          have hlines : bareLines (s ++ ['\n']) = bareLines s ++ [[]] := by
            rw [bareLines, List.splitOn_append_cons_self, List.map_append]
            rfl
          rw [List.dropWhile_cons_of_pos rfl, ih, Text.tidyChars_eq, Text.tidyChars_eq, hlines,
            tidyLines_concat_nil]
        · rw [List.dropWhile_cons_of_neg (by simpa using hc), List.reverse_cons, List.reverse_reverse]
  rw [Code.trimLineFeeds, hend, hstart]

end Text

namespace Code

open Text

/-- Line feeds at the ends make no difference to whether a text is blank. -/
theorem all_isBlank_trimLineFeeds (s : List Char) : (trimLineFeeds s).all isBlank = s.all isBlank := by
  rw [Bool.eq_iff_iff, List.all_eq_true, List.all_eq_true, ← tidyChars_eq_nil_iff, ← tidyChars_eq_nil_iff,
    tidyChars_trimLineFeeds]

/-- A module is its tidy sections that are not blank, in order, with two line feeds between neighbours. -/
theorem toList_assemble (s : Sections) : s.assemble.toList =
    List.intercalate ['\n', '\n']
      ((s.toList.filter (!blank ·)).map fun t => tidyChars t.toList) := by
  have hbodies : (s.toList.map fun t => trimLineFeeds t.toList).filter (!·.all isBlank) =
      (s.toList.filter (!blank ·)).map fun t => trimLineFeeds t.toList := by
    rw [List.filter_map]
    congr 2
    funext t
    exact congrArg (!·) (all_isBlank_trimLineFeeds t.toList)
  have hink : ∀ t ∈ (s.toList.filter (!blank ·)).map fun t => trimLineFeeds t.toList,
      ∃ c ∈ t, isBlank c = false := by
    rw [← hbodies]
    intro t ht
    simpa using (List.mem_filter.mp ht).2
  rw [Sections.assemble, String.toList_ofList, hbodies, tidyChars_intercalate hink, List.map_map]
  congr 2
  funext t
  exact tidyChars_trimLineFeeds t.toList

/-- Tidy texts are a normal form: what is tidied has the shape of a tidy text and the same lines of ink,
is empty only when the text was blank, and stays as it is. A module is its tidy sections that are not
blank, in their order; since each ends with one line feed and the next starts with a line of ink, the
two line feeds between them are two blank lines. -/
theorem layout_normal :
    (∀ text : String, IsTidy (tidy text).toList ∧ inkLines (tidy text).toList = inkLines text.toList ∧
      (tidy text = "" ↔ blank text) ∧ tidy (tidy text) = tidy text) ∧
    ∀ s : Sections, s.assemble = String.intercalate "\n\n"
      (([s.imports, s.models, s.prompts, s.collaboration, s.tools, s.memory, s.knowledgeBases,
        s.agentSetup, s.usage].filter (!blank ·)).map tidy) := by
  refine ⟨fun text => ⟨?_, ?_, ?_, ?_⟩, fun s => ?_⟩
  · rw [tidy, String.toList_ofList]
    exact isTidy_tidyChars text.toList
  · rw [tidy, String.toList_ofList]
    exact inkLines_tidyChars text.toList
  · rw [← String.toList_inj, tidy, String.toList_ofList, String.toList_empty, tidyChars_eq_nil_iff, blank,
      List.all_eq_true]
  · rw [tidy, tidy, String.toList_ofList, (isTidy_tidyChars text.toList).tidyChars_eq]
  · rw [← String.toList_inj, toList_assemble, String.toList_intercalate, List.map_map]
    congr 2
    funext t
    exact String.toList_ofList.symm

end Code

end AgentCompiler
