import Mathlib.Data.List.DropRight
import AgentCompiler.Code.Literal
import AgentCompiler.Proofs.Code.Display

/-!
# Triple quotes read back

The reader of texts in triple quotes, and what it finds in the literals that `tripleQuote` writes. A
backslash is doubled, a run of three quotes is escaped, and a quote at the end is escaped once more even
where it is escaped already. So a text reads back exactly when the run of quotes at its end is not made of
threes: `tripleQuote_reads_iff`.
-/

namespace AgentCompiler.Code

/-! ## Reading -/

/-- What is read, behind a text that was read before it. -/
def readBehind (s : List Char) (x : List Char × List Char) : List Char × List Char := (s ++ x.1, x.2)

/-- Reads on behind the opening quotes: what the text is, and what is left behind the quotes that close
it. A backslash escapes the next character, and the first three quotes in a row that are not escaped
close the text. No character between them has another meaning. -/
def readTriple : List Char → Option (List Char × List Char)
  | '"' :: '"' :: '"' :: rest => some ([], rest)
  | ['\\'] => none
  | '\\' :: c :: s => (Display.escaped? c).bind fun d => (readTriple s).map (readBehind [d])
  | c :: s => (readTriple s).map (readBehind [c])
  | [] => none

/-- Reads a literal in triple quotes from its first character on: what the text is, and what is left. -/
def readTripleQuoted : List Char → Option (List Char × List Char)
  | '"' :: '"' :: '"' :: s => readTriple s
  | _ => none

variable {c : Char} {s t : List Char}

theorem readBehind_nil : readBehind [] = id := rfl

theorem map_readBehind_append (s t : List Char) (x : Option (List Char × List Char)) :
    (x.map (readBehind t)).map (readBehind s) = x.map (readBehind (s ++ t)) := by
  rw [Option.map_map]
  refine congrArg (Option.map · x) (funext fun y => ?_)
  simp [readBehind]

/-- An escaped quote is read as a quote. -/
theorem readTriple_quote (s : List Char) :
    readTriple ('\\' :: '"' :: s) = (readTriple s).map (readBehind ['"']) := by
  rw [readTriple]
  rfl

/-- An escaped backslash is read as a backslash. -/
theorem readTriple_backslash (s : List Char) :
    readTriple ('\\' :: '\\' :: s) = (readTriple s).map (readBehind ['\\']) := by
  rw [readTriple]
  rfl

/-- Any other character is read as it stands, and so is a quote in front of fewer than two others. -/
theorem readTriple_cons (hslash : c ≠ '\\') (hquotes : c = '"' → ¬['"', '"'] <+: s) :
    readTriple (c :: s) = (readTriple s).map (readBehind [c]) := by
  rw [readTriple]
  · rintro rest hc rfl
    exact hquotes hc ⟨rest, rfl⟩
  · rintro hc
    exact absurd hc hslash
  · rintro d s' hc
    exact absurd hc hslash

/-! ## Escaped texts -/

/-- A text that goes on behind its first character ends as what is behind it. -/
theorem getLast?_ne_of_cons (h : (c :: s).getLast? ≠ some '"') : s.getLast? ≠ some '"' := by
  cases s with
  | nil => simp
  | cons d s => rwa [List.getLast?_cons_cons] at h

/-- Two quotes in front of an escaped text stand in front of the text, when it does not end in one. -/
theorem quotes_prefix_of_escapeTriple (ht : t.getLast? ≠ some '"') (hne : t ≠ []) {rest : List Char}
    (h : ['"', '"'] <+: escapeTriple t ++ rest) : ['"', '"'] <+: t := by
  revert h
  fun_cases escapeTriple t with
  | case1 cs => exact fun _ => ⟨'"' :: cs, rfl⟩
  | case2 cs => exact fun h => absurd (List.cons_prefix_cons.mp h).1 (by decide)
  | case3 c cs =>
      intro h
      obtain ⟨rfl, hrest⟩ := List.cons_prefix_cons.mp h
      have hcs : cs ≠ [] := by
        rintro rfl
        exact ht rfl
      -- The second quote is the first character of the escaped rest, hence of the rest itself.
      obtain ⟨d, u, hescaped⟩ := List.exists_cons_of_ne_nil (escapeTriple_eq_nil_iff.not.mpr hcs)
      rw [hescaped] at hrest
      obtain ⟨rfl, -⟩ := List.cons_prefix_cons.mp hrest
      obtain ⟨v, hv⟩ := List.head?_eq_some_iff.mp (head?_of_escapeTriple (s := cs) (by rw [hescaped]; rfl))
      exact ⟨v, by rw [hv]; rfl⟩
  | case4 => exact absurd rfl hne

/-- An escaped text that does not end in a quote is read back, whatever follows. -/
theorem readTriple_escapeTriple_append (ht : t.getLast? ≠ some '"') (rest : List Char) :
    readTriple (escapeTriple t ++ rest) = (readTriple rest).map (readBehind t) := by
  fun_induction escapeTriple t with
  | case1 cs ih =>
      have hcs := getLast?_ne_of_cons (getLast?_ne_of_cons (getLast?_ne_of_cons ht))
      simp only [List.cons_append, readTriple_quote, ih hcs, map_readBehind_append, List.nil_append]
  | case2 cs ih =>
      simp only [List.cons_append, readTriple_backslash, ih (getLast?_ne_of_cons ht),
        map_readBehind_append, List.nil_append]
  | case3 c cs hquotes hslash ih =>
      rw [List.cons_append, readTriple_cons, ih (getLast?_ne_of_cons ht), map_readBehind_append]
      · rfl
      · exact hslash
      · rintro rfl hprefix
        have hcs : cs ≠ [] := by
          rintro rfl
          exact ht rfl
        obtain ⟨u, hu⟩ := quotes_prefix_of_escapeTriple (getLast?_ne_of_cons ht) hcs hprefix
        exact hquotes u rfl hu.symm
  | case4 => rw [readBehind_nil, Option.map_id]; rfl

/-- A text that does not end in a quote is escaped by itself. -/
theorem escapeTriple_append (ht : t.getLast? ≠ some '"') (rest : List Char) :
    escapeTriple (t ++ rest) = escapeTriple t ++ escapeTriple rest := by
  fun_induction escapeTriple t with
  | case1 cs ih =>
      have hcs := getLast?_ne_of_cons (getLast?_ne_of_cons (getLast?_ne_of_cons ht))
      simp only [List.cons_append, escapeTriple, ih hcs]
  | case2 cs ih => simp only [List.cons_append, escapeTriple, ih (getLast?_ne_of_cons ht)]
  | case3 c cs hquotes hslash ih =>
      rw [List.cons_append, escapeTriple, ih (getLast?_ne_of_cons ht), List.cons_append]
      · rintro u rfl hu
        rcases cs with _ | ⟨d, _ | ⟨e, cs⟩⟩
        · simp at ht
        · obtain ⟨rfl, -⟩ := List.cons_eq_cons.mp hu
          simp at ht
        · obtain ⟨hd, htail⟩ := List.cons_eq_cons.mp hu
          obtain ⟨he, -⟩ := List.cons_eq_cons.mp htail
          exact hquotes cs rfl (by rw [hd, he])
      · exact hslash
  | case4 => rfl

/-! ## The end of a text -/

/-- Only what stands last is looked at when a text is closed. -/
theorem closeTriple_append (s : List Char) (ht : t ≠ []) :
    closeTriple (s ++ t) = s ++ closeTriple t := by
  rw [closeTriple, closeTriple, List.getLast?_append_of_ne_nil s ht]
  split
  · rw [List.dropLast_append_of_ne_nil ht, List.append_assoc]
  · rfl

/-- A run of quotes in front of the closing quotes. One that is made of threes is cut off in front of
its last quote, with a backslash in its place. -/
theorem readTriple_quotes : (n : ℕ) →
    readTriple (closeTriple (escapeTriple (List.replicate (n + 1) '"')) ++ ['"', '"', '"']) =
      some (if 3 ∣ n + 1 then (List.replicate n '"' ++ ['\\'], ['"'])
        else (List.replicate (n + 1) '"', []))
  | 0 | 1 | 2 => by decide
  | n + 3 => by
      have hrun : escapeTriple (List.replicate (n + 3 + 1) '"') =
          ['\\', '"', '\\', '"', '\\', '"'] ++ escapeTriple (List.replicate (n + 1) '"') := rfl
      have hne : escapeTriple (List.replicate (n + 1) '"') ≠ [] :=
        escapeTriple_eq_nil_iff.not.mpr (List.cons_ne_nil _ _)
      have hthrees : 3 ∣ n + 3 + 1 ↔ 3 ∣ n + 1 := by omega
      rw [hrun, closeTriple_append _ hne]
      simp only [List.cons_append, List.nil_append, readTriple_quote, readTriple_quotes n, hthrees]
      split <;> rfl

/-- How many quotes stand at the end of a text. -/
def closingQuotes (s : List Char) : ℕ := (s.rtakeWhile (· = '"')).length

/-- The quotes at the end of a text are escaped by threes, and no quote is left over. -/
def EndsInThrees (s : List Char) : Prop := 0 < closingQuotes s ∧ 3 ∣ closingQuotes s

instance (s : List Char) : Decidable (EndsInThrees s) := inferInstanceAs (Decidable (_ ∧ _))

/-- A text is what stands in front of the quotes at its end, and these. -/
theorem exists_eq_append_quotes (s : List Char) :
    ∃ t, t.getLast? ≠ some '"' ∧ s = t ++ List.replicate (closingQuotes s) '"' := by
  refine ⟨s.rdropWhile (· = '"'), fun hlast => ?_, ?_⟩
  · have hne : s.rdropWhile (· = '"') ≠ [] := by
      intro hnil
      rw [hnil] at hlast
      cases hlast
    rw [List.getLast?_eq_some_getLast hne, Option.some.injEq] at hlast
    exact List.rdropWhile_last_not _ _ hne (by simpa using hlast)
  · have hquotes : s.rtakeWhile (· = '"') = List.replicate (closingQuotes s) '"' :=
      List.eq_replicate_iff.mpr ⟨rfl, fun c hc => by simpa using List.mem_rtakeWhile_imp hc⟩
    rw [← hquotes, List.rdropWhile_append_rtakeWhile]

/-- What the reader finds in a literal that was written. -/
theorem readTripleQuoted_tripleQuoteChars (s : List Char) :
    readTripleQuoted (tripleQuoteChars s) =
      some (if EndsInThrees s then (s.dropLast ++ ['\\'], ['"']) else (s, [])) := by
  obtain ⟨t, ht, hs⟩ := exists_eq_append_quotes s
  have hopen : readTripleQuoted (tripleQuoteChars s) =
      readTriple (closeTriple (escapeTriple s) ++ ['"', '"', '"']) := rfl
  rw [hopen]
  cases hn : closingQuotes s with
  | zero =>
      rw [hn, List.replicate_zero, List.append_nil] at hs
      subst hs
      have hlast : (escapeTriple s).getLast? ≠ some '"' := by rwa [getLast?_escapeTriple]
      have hends : ¬EndsInThrees s := fun h => by simp [EndsInThrees, hn] at h
      rw [closeTriple, if_neg hlast, readTriple_escapeTriple_append ht, if_neg hends]
      simp [readTriple, readBehind]
  | succ n =>
      rw [hn] at hs
      have hends : EndsInThrees s ↔ 3 ∣ n + 1 := by simp [EndsInThrees, hn]
      have hne : escapeTriple (List.replicate (n + 1) '"') ≠ [] :=
        escapeTriple_eq_nil_iff.not.mpr (List.cons_ne_nil _ _)
      have hdrop : s.dropLast = t ++ List.replicate n '"' := by
        rw [hs, List.dropLast_append_of_ne_nil (by simp), List.dropLast_replicate]
        rfl
      rw [hdrop]
      simp only [hends]
      rw [hs, escapeTriple_append ht, closeTriple_append _ hne, List.append_assoc,
        readTriple_escapeTriple_append ht, readTriple_quotes]
      split <;> simp [readBehind]

/-- A literal in triple quotes reads back to its text, and is closed by its last three characters,
exactly when the run of quotes at the end of the text is not made of threes. Where it is, the literal is
closed one character early: a backslash is read in the place of the last quote, and a quote is left. -/
theorem tripleQuote_reads_iff (s : String) :
    (readTripleQuoted (tripleQuote s).toList = some (s.toList, []) ↔ ¬EndsInThrees s.toList) ∧
      (EndsInThrees s.toList →
        readTripleQuoted (tripleQuote s).toList = some (s.toList.dropLast ++ ['\\'], ['"'])) := by
  rw [tripleQuote, String.toList_ofList, readTripleQuoted_tripleQuoteChars]
  split
  · next h => simp [h]
  · next h => simp [h]

/-- Three quotes are closed one character early. -/
theorem tripleQuote_threeQuotes :
    (tripleQuote "\"\"\"").toList =
        ['"', '"', '"', '\\', '"', '\\', '"', '\\', '\\', '"', '"', '"', '"'] ∧
      readTripleQuoted (tripleQuote "\"\"\"").toList ≠ some (['"', '"', '"'], []) := by
  decide

end AgentCompiler.Code
