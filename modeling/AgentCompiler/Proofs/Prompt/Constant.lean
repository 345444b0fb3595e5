import AgentCompiler.Prompt.Compile
import AgentCompiler.Proofs.Code.TripleQuoted
import AgentCompiler.Proofs.Text.Tidy

/-!
# The constants of prompts in a module

The templates of an agent stand in its module as constants, in triple quotes. The whole module is tidied,
and so are the lines of the templates. `constants_assembled` says what becomes of the constants, and which
of them stay as they are.
-/

namespace AgentCompiler

namespace Code

open Text

variable {c : Char} {s t : List Char}

/-! ## Lines in triple quotes -/

theorem escapeTriple_cons (hquote : c ≠ '"') (hslash : c ≠ '\\') (s : List Char) :
    escapeTriple (c :: s) = c :: escapeTriple s := by
  rw [escapeTriple]
  · exact fun _ h _ => hquote h
  · exact hslash

/-- No escape runs over a character that needs none. -/
theorem escapeTriple_append_cons (hquote : c ≠ '"') (hslash : c ≠ '\\') (s t : List Char) :
    escapeTriple (s ++ c :: t) = escapeTriple s ++ c :: escapeTriple t := by
  fun_induction escapeTriple s with
  | case1 cs ih => rw [List.cons_append, List.cons_append, List.cons_append, escapeTriple, ih]; rfl
  | case2 cs ih => rw [List.cons_append, escapeTriple, ih]; rfl
  | case3 d cs hquotes hback ih =>
      rw [List.cons_append, escapeTriple, ih, List.cons_append]
      · intro rest hd hrest
        rcases cs with _ | ⟨e, _ | ⟨f, cs⟩⟩
        · exact hquote (List.cons_eq_cons.mp hrest).1
        · exact hquote (List.cons_eq_cons.mp (List.cons_eq_cons.mp hrest).2).1
        · obtain ⟨rfl, htail⟩ := List.cons_eq_cons.mp hrest
          obtain ⟨rfl, -⟩ := List.cons_eq_cons.mp htail
          exact hquotes cs hd rfl
      · exact hback
  | case4 => exact escapeTriple_cons hquote hslash t

theorem escapeTriple_of_forall (h : ∀ c ∈ s, c ≠ '"' ∧ c ≠ '\\') : escapeTriple s = s := by
  induction s with
  | nil => rfl
  | cons c s ih =>
      rw [List.forall_mem_cons] at h
      rw [escapeTriple_cons h.1.1 h.1.2, ih h.2]

theorem plain_of_isBlank (h : isBlank c) : c ≠ '"' ∧ c ≠ '\\' := by
  constructor
  · rintro rfl
    exact absurd h (by decide)
  · rintro rfl
    exact absurd h (by decide)

/-- Blanks need no escape. -/
theorem escapeTriple_append_blanks (h : ∀ c ∈ t, isBlank c) (s : List Char) :
    escapeTriple (s ++ t) = escapeTriple s ++ t := by
  cases t with
  | nil => rw [List.append_nil, List.append_nil]
  | cons c t =>
      obtain ⟨hquote, hslash⟩ := plain_of_isBlank (h c List.mem_cons_self)
      rw [escapeTriple_append_cons hquote hslash,
        escapeTriple_of_forall fun d hd => plain_of_isBlank (h d (List.mem_cons_of_mem c hd))]

theorem startsInk_escapeTriple (h : StartsInk s) : StartsInk (escapeTriple s) := by
  fun_cases escapeTriple s with
  | case1 => exact ⟨'\\', rfl, by decide⟩
  | case2 => exact ⟨'\\', rfl, by decide⟩
  | case3 c cs => exact h
  | case4 => exact h

/-- The escapes of a text without a blank at its end have none at their end. -/
theorem endsInk_escapeTriple (h : EndsInk s) : EndsInk (escapeTriple s) := by
  fun_induction escapeTriple s with
  | case1 cs ih =>
      by_cases hcs : cs = []
      · rw [hcs]
        exact ⟨'"', rfl, by decide⟩
      · have hrest := ih (EndsInk.of_append (s := ['"', '"', '"']) h hcs)
        exact EndsInk.append (s := ['\\', '"', '\\', '"', '\\', '"']) hrest
  | case2 cs ih =>
      by_cases hcs : cs = []
      · rw [hcs]
        exact ⟨'\\', rfl, by decide⟩
      · have hrest := ih (EndsInk.of_append (s := ['\\']) h hcs)
        exact EndsInk.append (s := ['\\', '\\']) hrest
  | case3 c cs hquotes hslash ih =>
      by_cases hcs : cs = []
      · rw [hcs] at h ⊢
        exact h
      · exact EndsInk.append (s := [c]) (ih (EndsInk.of_append (s := [c]) h hcs))
  | case4 => exact h

theorem endsInk_of_escapeTriple (h : EndsInk (escapeTriple s)) : EndsInk s := by
  obtain ⟨⟨blanks, hs, hblanks⟩, hend⟩ := dropBlanksEnd_spec s
  have hnone : blanks = [] := by
    by_contra hne
    rw [hs, escapeTriple_append_blanks hblanks] at h
    exact (h.of_append hne).not_forall_isBlank hblanks
  rw [hnone, List.append_nil] at hs
  rw [← hs] at hend
  refine hend.resolve_left fun hnil => h.ne_nil ?_
  rw [hnil]
  rfl

theorem feed_notMem_escapeTriple (h : '\n' ∉ s) : '\n' ∉ escapeTriple s := by
  fun_induction escapeTriple s <;> simp_all

theorem escapeTriple_joinLines (ls : List (List Char)) :
    escapeTriple (joinLines ls) = joinLines (ls.map escapeTriple) := by
  induction ls with
  | nil => rfl
  | cons l ls ih =>
      cases ls with
      | nil => simp [joinLines]
      | cons l' ls =>
          rw [joinLines_cons_cons, escapeTriple_append_cons (by decide) (by decide), ih, List.map_cons,
            List.map_cons, List.map_cons, joinLines_cons_cons]

/-- The lines in triple quotes are the lines of the text, with escapes. -/
theorem splitOn_escapeTriple (s : List Char) :
    (escapeTriple s).splitOn '\n' = (s.splitOn '\n').map escapeTriple := by
  conv_lhs => rw [← joinLines_splitOn s, escapeTriple_joinLines]
  refine splitOn_joinLines (by simp) fun l hl => ?_
  obtain ⟨piece, hpiece, rfl⟩ := List.mem_map.mp hl
  refine feed_notMem_escapeTriple fun hmem => ?_
  exact absurd (eq_false_of_mem_splitOnP hpiece '\n' hmem) (by decide)

theorem dropBlanksEnd_escapeTriple (l : List Char) :
    dropBlanksEnd (escapeTriple l) = escapeTriple (dropBlanksEnd l) := by
  obtain ⟨⟨blanks, hl, hblanks⟩, hend⟩ := dropBlanksEnd_spec l
  conv_lhs => rw [hl, escapeTriple_append_blanks hblanks, dropBlanksEnd_append hblanks]
  refine dropBlanksEnd_eq_self ?_
  exact hend.imp escapeTriple_eq_nil_iff.mpr endsInk_escapeTriple

theorem bareLines_escapeTriple (s : List Char) :
    bareLines (escapeTriple s) = (bareLines s).map escapeTriple := by
  rw [bareLines, bareLines, splitOn_escapeTriple, List.map_map, List.map_map]
  exact List.map_congr_left fun l _ => dropBlanksEnd_escapeTriple l

theorem closeGaps_escapeTriple (gap : Nat) (ls : List (List Char)) :
    closeGaps gap (ls.map escapeTriple) = (closeGaps gap ls).map escapeTriple := by
  induction ls generalizing gap with
  | nil => rfl
  | cons l ls ih =>
      rw [List.map_cons, closeGaps, closeGaps]
      by_cases hl : l = []
      · simp [hl, ih]
      · simp [hl, ih, escapeTriple]

theorem tidyLines_escapeTriple (ls : List (List Char)) :
    tidyLines (ls.map escapeTriple) = (tidyLines ls).map escapeTriple := by
  induction ls with
  | nil => rfl
  | cons l ls ih =>
      rw [List.map_cons]
      by_cases hl : l = []
      · rw [hl, tidyLines_nil_cons, ← ih]
        exact tidyLines_nil_cons _
      · rw [tidyLines_cons hl, tidyLines_cons (escapeTriple_eq_nil_iff.not.mpr hl),
          closeGaps_escapeTriple, List.map_cons]

/-- A text can be tidied before its escapes are made or behind. -/
theorem tidyChars_escapeTriple (s : List Char) :
    tidyChars (escapeTriple s) = escapeTriple (tidyChars s) := by
  rw [tidyChars_eq, tidyChars_eq, escapeTriple_joinLines, bareLines_escapeTriple,
    tidyLines_escapeTriple, List.map_append]
  rfl

/-- A text is neat when it is neat in triple quotes. -/
theorem isNeat_of_escapeTriple (h : IsNeat (escapeTriple s)) : IsNeat s := by
  have hlines := splitOn_escapeTriple s
  constructor
  · intro l hl
    have hends := h.ends (escapeTriple l) (hlines ▸ List.mem_map_of_mem hl)
    exact hends.imp escapeTriple_eq_nil_iff.mp endsInk_of_escapeTriple
  · intro hgap
    refine h.gaps ?_
    rw [hlines]
    exact hgap.map escapeTriple

end Code

namespace Prompt

open Code Text

/-! ## Constants -/

/-- The line that a constant starts with. -/
def opening (kind : PromptKind) : List Char := (kind.constant ++ " = \"\"\"").toList

/-- The line that a constant ends with. -/
def closing : List Char := ['"', '"', '"']

theorem opening_spec (kind : PromptKind) :
    StartsInk (opening kind) ∧ EndsInk (opening kind) ∧ '\n' ∉ opening kind := by
  cases kind <;> exact ⟨⟨_, rfl, by decide⟩, ⟨'"', by decide, by decide⟩, by decide⟩

theorem closing_spec : EndsInk closing ∧ '\n' ∉ closing :=
  ⟨⟨'"', rfl, by decide⟩, by decide⟩

namespace Compiled

variable {p : Compiled}

/-- The prompt with a tidy template. -/
def tidied (p : Compiled) : Compiled := { p with template := tidy (trim p.template) }

@[simp]
theorem kind_tidied (p : Compiled) : p.tidied.kind = p.kind := by
  rw [tidied]

/-- The template stands between the lines that a constant starts and ends with. -/
theorem toList_render (p : Compiled) :
    p.render.toList = opening p.kind ++ '\n' :: (escapeTriple (trim p.template).toList ++ '\n' :: closing) := by
  have hfeed : ('\n' : Char) ≠ '"' ∧ ('\n' : Char) ≠ '\\' := by decide
  have htext : ("\n" ++ trim p.template ++ "\n").toList = '\n' :: ((trim p.template).toList ++ ['\n']) := by
    simp
  have hescaped : escapeTriple ('\n' :: ((trim p.template).toList ++ ['\n'])) =
      '\n' :: (escapeTriple (trim p.template).toList ++ ['\n']) := by
    rw [escapeTriple_cons hfeed.1 hfeed.2, escapeTriple_append_cons hfeed.1 hfeed.2]
    rfl
  have hclosed : closeTriple ('\n' :: (escapeTriple (trim p.template).toList ++ ['\n'])) =
      '\n' :: (escapeTriple (trim p.template).toList ++ ['\n']) := by
    rw [closeTriple, if_neg]
    rw [← List.cons_append, List.getLast?_concat]
    decide
  rw [render, tripleQuote, tripleQuoteChars, htext, hescaped, hclosed, opening]
  simp [closing]

theorem startsInk_render (p : Compiled) : StartsInk p.render.toList := by
  rw [toList_render]
  exact (opening_spec p.kind).1.append

theorem endsInk_render (p : Compiled) : EndsInk p.render.toList := by
  have hend : EndsInk ('\n' :: closing) := closing_spec.1.append (s := ['\n'])
  rw [toList_render, List.append_cons]
  exact hend.append.append

/-- The lines of a constant. -/
theorem bareLines_render (p : Compiled) : bareLines p.render.toList =
    opening p.kind :: (bareLines (escapeTriple (trim p.template).toList) ++ [closing]) := by
  obtain ⟨-, hopening, hfeed⟩ := opening_spec p.kind
  rw [toList_render]
  exact bareLines_framed hopening closing_spec.1 hfeed closing_spec.2 _

/-- A constant is tidied by tidying its template. -/
theorem tidyChars_render (p : Compiled) : tidyChars p.render.toList = p.tidied.render.toList ++ ['\n'] := by
  obtain ⟨-, hopening, hfeed⟩ := opening_spec p.kind
  have htemplate : p.tidied.template = tidy (trim p.template) := rfl
  rcases trim_cases p.template with hnil | ⟨hstart, hend⟩
  · -- Nothing is left of a blank template, and the empty line stays.
    have hblank : trim p.tidied.template = "" := by
      rw [htemplate, tidy, hnil]
      rfl
    rw [tidyChars_eq, bareLines_render, hnil, toList_render, hblank, tidyLines_cons hopening.ne_nil]
    have hlines : closeGaps 0 (bareLines (escapeTriple []) ++ [closing]) = [[], closing] := by decide
    rw [hlines]
    simp [joinLines, List.intercalate_cons_cons, tidied, escapeTriple]
  · obtain ⟨text, htext, hstart', hend'⟩ := exists_tidyChars_eq hstart hend
    have htrim : (trim p.tidied.template).toList = text := by
      rw [htemplate, tidy, htext, trim_ofList hstart' hend' isBlank_feed, String.toList_ofList]
    rw [toList_render, toList_render, htrim,
      tidyChars_framed (startsInk_escapeTriple hstart) (endsInk_escapeTriple hend) hopening closing_spec.1
        hfeed closing_spec.2,
      tidyChars_escapeTriple, htext, escapeTriple_append_cons (by decide) (by decide)]
    simp [tidied, escapeTriple]

/-- A neat template is not changed by tidying. -/
theorem render_tidied_of_isNeat (h : IsNeat (trim p.template).toList) : p.tidied.render = p.render := by
  have htrim : trim p.tidied.template = trim p.template := by
    show trim (.ofList (tidyChars (trim p.template).toList)) = trim p.template
    rcases trim_cases p.template with hnil | ⟨hstart, hend⟩
    · rw [hnil, String.toList_eq_nil_iff.mp hnil]
      rfl
    · rw [tidyChars_of_isNeat hstart hend h, trim_ofList hstart hend isBlank_feed, String.ofList_toList]
  rw [render, render, htrim, kind_tidied]

end Compiled

/-! ## Constants in a module -/

theorem toList_renderAll (ps : List Compiled) :
    (renderAll ps).toList = List.intercalate ['\n', '\n'] (ps.map fun p => p.render.toList) := by
  rw [renderAll, String.toList_intercalate, List.map_map]
  rfl

theorem renderAll_ink {ps : List Compiled} (h : ps ≠ []) :
    StartsInk (renderAll ps).toList ∧ EndsInk (renderAll ps).toList := by
  rw [toList_renderAll]
  constructor
  · obtain ⟨p, rest, rfl⟩ := List.exists_cons_of_ne_nil h
    exact p.startsInk_render.intercalate
  · obtain ⟨init, p, rfl⟩ := (List.eq_nil_or_concat' ps).resolve_left h
    rw [List.map_append]
    exact p.endsInk_render.intercalate

end Prompt

namespace Code

open Text

theorem ne_feed_of_ink (h : isBlank c = false) : ¬(c == '\n') = true := by
  rw [beq_iff_eq]
  rintro rfl
  exact absurd h (by decide)

theorem trimLineFeeds_eq_self (hstart : StartsInk s) (hend : EndsInk s) : trimLineFeeds s = s := by
  obtain ⟨c, hhead, hc⟩ := hstart
  obtain ⟨d, hlast, hd⟩ := hend
  obtain ⟨rest, hrest⟩ := List.head?_eq_some_iff.mp hhead
  obtain ⟨init, hinit⟩ := List.getLast?_eq_some_iff.mp hlast
  have hkept : s.dropWhile (· == '\n') = s := by
    rw [hrest, List.dropWhile_cons_of_neg (p := (· == '\n')) (ne_feed_of_ink hc)]
  rw [trimLineFeeds, hkept, hinit, List.reverse_append, List.reverse_singleton, List.singleton_append,
    List.dropWhile_cons_of_neg (p := (· == '\n')) (ne_feed_of_ink hd), List.reverse_cons, List.reverse_reverse]

/-- The lines of a section with ink at both ends are lines of the module, before it is tidied. -/
theorem Sections.infix_assemble {sections : Sections} {body : String} (hmem : body ∈ sections.toList)
    (hstart : StartsInk body.toList) (hend : EndsInk body.toList) :
    ∃ text, sections.assemble.toList = tidyChars text ∧
      body.toList.splitOn '\n' <:+: text.splitOn '\n' := by
  refine ⟨_, String.toList_ofList, infix_splitOn_intercalate (n := 2) ?_⟩
  refine List.mem_filter.mpr ⟨List.mem_map.mpr ⟨body, hmem, trimLineFeeds_eq_self hstart hend⟩, ?_⟩
  rw [Bool.not_eq_true', Bool.eq_false_iff, Ne, List.all_eq_true]
  exact hend.not_forall_isBlank

end Code

namespace Prompt

open Code Text

/-- The lines of a constant are tidied on their own. -/
theorem Compiled.infix_tidyChars {p : Compiled} {text : List Char}
    (h : p.render.toList.splitOn '\n' <:+: text.splitOn '\n') :
    tidyChars p.render.toList <:+: tidyChars text := by
  obtain ⟨before, after, htext⟩ := h
  have hlines : tidyLines (bareLines p.render.toList) <:+: tidyLines (bareLines text) := by
    have hbare : bareLines text =
        before.map dropBlanksEnd ++ bareLines p.render.toList ++ after.map dropBlanksEnd := by
      rw [bareLines, ← htext, List.map_append, List.map_append]
      rfl
    obtain ⟨-, hopening, -⟩ := opening_spec p.kind
    rw [hbare, bareLines_render, List.append_assoc, List.cons_append, List.append_assoc]
    exact infix_tidyLines hopening.ne_nil closing_spec.1.ne_nil _ _ _
  obtain ⟨start, finish, htidy⟩ := hlines
  rw [tidyChars, tidyChars, tidyLines_lines, tidyLines_lines, ← htidy, List.flatMap_append, List.flatMap_append]
  exact ⟨_, _, rfl⟩

/-- Whatever the other sections of a module are, the module holds the constant of each prompt with a tidy
template. It holds the constant itself exactly when the trimmed template is neat: no line of it ends with
a blank, and no three lines in a row are empty. -/
theorem constants_assembled (sections : Code.Sections) (ps : List Compiled) {p : Compiled} (hp : p ∈ ps) :
    p.tidied.render.toList <:+: ({ sections with prompts := renderAll ps } : Code.Sections).assemble.toList ∧
      (p.render.toList <:+: ({ sections with prompts := renderAll ps } : Code.Sections).assemble.toList ↔
        IsNeat (trim p.template).toList) := by
  obtain ⟨hstart, hend⟩ := renderAll_ink (List.ne_nil_of_mem hp)
  have hsection : renderAll ps ∈ ({ sections with prompts := renderAll ps } : Code.Sections).toList :=
    List.mem_cons_of_mem _ (List.mem_cons_of_mem _ List.mem_cons_self)
  obtain ⟨text, hassemble, hbody⟩ := Sections.infix_assemble hsection hstart hend
  have hlines : p.render.toList.splitOn '\n' <:+: text.splitOn '\n' := by
    have hmem : p.render.toList ∈ ps.map fun q => q.render.toList := List.mem_map.mpr ⟨p, hp, rfl⟩
    rw [toList_renderAll] at hbody
    exact (infix_splitOn_intercalate hmem 1).trans hbody
  rw [hassemble]
  have htidied : p.tidied.render.toList <:+: tidyChars text := by
    have hconstant := Compiled.infix_tidyChars hlines
    rw [p.tidyChars_render] at hconstant
    exact (List.prefix_append _ _).isInfix.trans hconstant
  refine ⟨htidied, fun hkept => ?_, fun hneat => ?_⟩
  · obtain ⟨before, after, htext⟩ := hkept
    have hneat := isNeat_tidyChars text
    rw [← htext, p.toList_render] at hneat
    refine isNeat_of_escapeTriple (IsNeat.of_lines (s := before ++ opening p.kind) (u := closing ++ after) ?_)
    simpa using hneat
  · rw [← Compiled.render_tidied_of_isNeat hneat]
    exact htidied

/-- A prompt whose template is neat when it is trimmed. -/
def neatPrompt : Compiled := ⟨.orchestration, " Answer.\n\n\nBe kind. ", {}⟩

/-- A prompt whose template has a blank at the end of a line. -/
def blankAtEnd : Compiled := ⟨.orchestration, "Answer. \nBe kind.", {}⟩

theorem constants_assembled_neatPrompt :
    neatPrompt ∈ [neatPrompt, blankAtEnd] ∧
      neatPrompt.render.toList <:+:
        ({ prompts := renderAll [neatPrompt, blankAtEnd] } : Code.Sections).assemble.toList ∧
      blankAtEnd.tidied.render.toList <:+:
        ({ prompts := renderAll [neatPrompt, blankAtEnd] } : Code.Sections).assemble.toList := by
  have hmem : neatPrompt ∈ [neatPrompt, blankAtEnd] := List.mem_cons_self
  have hmem' : blankAtEnd ∈ [neatPrompt, blankAtEnd] := List.mem_cons_of_mem _ List.mem_cons_self
  have hneat : IsNeat (trim neatPrompt.template).toList := by decide +kernel
  exact ⟨hmem, (constants_assembled {} _ hmem).2.mpr hneat, (constants_assembled {} _ hmem').1⟩

/-- The constant of a template with a blank at the end of a line does not stand in the module. -/
theorem constant_not_assembled :
    ¬blankAtEnd.render.toList <:+:
      ({ prompts := renderAll [blankAtEnd] } : Code.Sections).assemble.toList := by
  decide +kernel

end Prompt

end AgentCompiler
