import Mathlib.Data.List.Basic
import AgentCompiler.Proofs.Text.Replace

/-!
# Markers

A marker is a name between two braces that open and two that close. No marker starts inside another one
or runs into one, so that the markers of a name in a text can be counted piece by piece.
-/

namespace AgentCompiler.Text

variable {c : Char} {key key' pattern s u : List Char}

/-! ## Names and braces -/

/-- A name without braces. -/
structure Braceless (key : List Char) : Prop where
  left : '{' ∉ key
  right : '}' ∉ key

instance (key : List Char) : Decidable (Braceless key) :=
  decidable_of_iff ('{' ∉ key ∧ '}' ∉ key) ⟨fun h => ⟨h.1, h.2⟩, fun h => ⟨h.left, h.right⟩⟩

theorem marker_ne_nil : marker key ≠ [] := List.cons_ne_nil _ _

/-- Two markers at one place have the same name. -/
theorem key_eq_of_starts (hkey : Braceless key) (hkey' : Braceless key')
    (h : marker key <+: marker key' ++ s) : key = key' := by
  obtain ⟨rest, hrest⟩ := h
  have hclosed : key ++ '}' :: '}' :: rest = key' ++ '}' :: '}' :: s := by
    simpa [marker] using hrest
  have hname (k : List Char) (hk : Braceless k) (w : List Char) :
      (k ++ '}' :: w).takeWhile (· != '}') = k := by
    rw [List.takeWhile_append_of_pos fun c hc => by
      simpa using fun heq : c = '}' => hk.right (heq ▸ hc)]
    simp
  rw [← hname key hkey, hclosed, hname key' hkey']

/-- A marker does not start at the second brace of a marker. -/
theorem not_marker_prefix_inner (hkey' : Braceless key') :
    ¬marker key <+: '{' :: (key' ++ '}' :: s) := by
  intro h
  have hsecond := (List.cons_prefix_cons.mp h).2
  cases key' with
  | nil => cases (List.cons_prefix_cons.mp hsecond).1
  | cons c cs =>
      obtain rfl := (List.cons_prefix_cons.mp hsecond).1
      exact hkey'.left List.mem_cons_self

/-- A marker starts with a brace. -/
theorem not_marker_prefix_cons (hc : c ≠ '{') : ¬marker key <+: c :: s :=
  fun h => hc (List.cons_prefix_cons.mp h).1.symm

theorem not_marker_infix (h : ¬['{', '{'] <:+: s) : ¬marker key <:+: s :=
  fun hin => h (List.IsInfix.trans ⟨[], key ++ ['}', '}'], rfl⟩ hin)

/-! ## Texts that an occurrence does not run into -/

/-- No occurrence of a pattern runs from a text before `s` into `s`. -/
def Uncrossed (pattern s : List Char) : Prop := ∀ u, u ≠ [] → pattern <+: u ++ s → pattern <+: u

/-- A pattern at the start of two texts stands in the first one, or runs into the second one. -/
theorem prefix_append_cases (h : pattern <+: u ++ s) :
    pattern <+: u ∨ ∃ d rest, pattern = u ++ d :: rest ∧ d :: rest <+: s := by
  rcases List.prefix_or_prefix_of_prefix h (List.prefix_append u s) with hp | ⟨rest, rfl⟩
  · exact .inl hp
  cases rest with
  | nil => exact .inl (by rw [List.append_nil])
  | cons d rest => exact .inr ⟨d, rest, rfl, (List.prefix_append_right_inj u).mp h⟩

theorem uncrossed_cons (hc : c ∉ pattern) : Uncrossed pattern (c :: s) := by
  intro u _ h
  rcases prefix_append_cases h with hp | ⟨d, rest, rfl, hstart⟩
  · exact hp
  obtain rfl := (List.cons_prefix_cons.mp hstart).1
  exact absurd (List.mem_append_right u List.mem_cons_self) hc

/-- A marker is not run into by another one. -/
theorem uncrossed_marker (hkey : Braceless key) : Uncrossed (marker key) (marker key' ++ s) := by
  intro u hu h
  rcases prefix_append_cases h with hp | ⟨d, rest, hmarker, hstart⟩
  · exact hp
  match u with
  | [b] =>
      -- The second brace of the one marker would be the first of the other.
      obtain ⟨rfl, rfl, rfl⟩ : b = '{' ∧ d = '{' ∧ rest = key ++ ['}', '}'] := by
        simpa [marker, eq_comm] using hmarker
      have hsecond := (List.cons_prefix_cons.mp hstart).2
      cases key with
      | nil => cases (List.cons_prefix_cons.mp hsecond).1
      | cons c cs =>
          obtain rfl := (List.cons_prefix_cons.mp hsecond).1
          exact absurd List.mem_cons_self hkey.left
  | b :: b' :: u =>
      -- Behind its first two braces no marker has a brace that opens.
      obtain ⟨rfl, hstart⟩ := List.cons_prefix_cons.mp hstart
      have hinner : key ++ ['}', '}'] = u ++ '{' :: rest := by
        simpa [marker] using (List.cons_eq_cons.mp (List.cons_eq_cons.mp hmarker).2).2
      have hmem : '{' ∈ key ++ ['}', '}'] := by
        rw [hinner]
        exact List.mem_append_right u List.mem_cons_self
      exact absurd hmem (by simpa using hkey.left)

/-! ## Occurrences -/

/-- How often a pattern occurs, at whatever place. -/
def occurrences (pattern : List Char) : List Char → Nat
  | [] => 0
  | c :: cs => (if pattern <+: c :: cs then 1 else 0) + occurrences pattern cs

theorem occurrences_eq_zero (hpattern : pattern ≠ []) :
    occurrences pattern s = 0 ↔ ¬pattern <:+: s := by
  induction s with
  | nil => simpa [occurrences] using hpattern
  | cons c s ih => rw [occurrences, List.infix_cons_iff]; split <;> simp_all

theorem occurrences_append (h : Uncrossed pattern s) :
    occurrences pattern (u ++ s) = occurrences pattern u + occurrences pattern s := by
  induction u with
  | nil => rw [List.nil_append, occurrences, Nat.zero_add]
  | cons c u ih =>
      have hiff : pattern <+: c :: (u ++ s) ↔ pattern <+: c :: u :=
        ⟨h (c :: u) (List.cons_ne_nil _ _), fun hp => hp.trans (List.prefix_append (c :: u) s)⟩
      rw [List.cons_append, occurrences, occurrences, ih, Nat.add_assoc]
      simp only [hiff]

/-- No marker starts in a text in which no brace opens. -/
theorem occurrences_append_of_notMem (hu : '{' ∉ u) :
    occurrences (marker key) (u ++ s) = occurrences (marker key) s := by
  induction u with
  | nil => rfl
  | cons c u ih =>
      rw [List.mem_cons, not_or] at hu
      rw [List.cons_append, occurrences, if_neg (not_marker_prefix_cons (Ne.symm hu.1)), ih hu.2,
        Nat.zero_add]

theorem add_occurrences_le (pattern u s : List Char) :
    occurrences pattern u + occurrences pattern s ≤ occurrences pattern (u ++ s) := by
  induction u with
  | nil => rw [List.nil_append, occurrences, Nat.zero_add]
  | cons c u ih =>
      have hstart (h : pattern <+: c :: u) : pattern <+: c :: (u ++ s) :=
        h.trans (List.prefix_append (c :: u) s)
      rw [List.cons_append, occurrences, occurrences]
      split
      · next h =>
          rw [if_pos (hstart h)]
          omega
      · omega

/-- No marker starts inside a marker. -/
theorem occurrences_inner (hkey' : Braceless key') :
    occurrences (marker key) ('{' :: (key' ++ ['}', '}'] ++ s)) = occurrences (marker key) s := by
  have hname : '{' ∉ key' ++ ['}', '}'] := by simpa using hkey'.left
  have hstart : ¬marker key <+: '{' :: (key' ++ ['}', '}'] ++ s) := by
    simpa using not_marker_prefix_inner hkey'
  rw [occurrences, if_neg hstart, occurrences_append_of_notMem hname, Nat.zero_add]

/-- A marker occurs once in itself. -/
theorem occurrences_marker_append (hkey : Braceless key) :
    occurrences (marker key) (marker key ++ s) = 1 + occurrences (marker key) s := by
  show (if marker key <+: marker key ++ s then 1 else 0) +
    occurrences (marker key) ('{' :: (key ++ ['}', '}'] ++ s)) = _
  rw [if_pos (List.prefix_append _ _), occurrences_inner hkey]

/-- A marker does not occur in another one. -/
theorem occurrences_marker_append_of_ne (hkey : Braceless key) (hkey' : Braceless key')
    (hne : key ≠ key') :
    occurrences (marker key) (marker key' ++ s) = occurrences (marker key) s := by
  show (if marker key <+: marker key' ++ s then 1 else 0) +
    occurrences (marker key) ('{' :: (key' ++ ['}', '}'] ++ s)) = _
  rw [if_neg fun h => hne (key_eq_of_starts hkey hkey' h), occurrences_inner hkey', Nat.zero_add]

/-- A text that is split at every occurrence of a pattern. -/
inductive Split (pattern : List Char) : List Char → Prop
  | last (s : List Char) (h : ¬pattern <:+: s) : Split pattern s
  | more (u s : List Char) (h : ¬pattern <:+: u) (rest : Split pattern s) :
      Split pattern (u ++ (pattern ++ s))

theorem exists_split (hpattern : pattern ≠ []) (s : List Char) : Split pattern s := by
  induction hlength : s.length using Nat.strong_induction_on generalizing s with
  | _ n ih =>
      by_cases hin : pattern <:+: s
      · obtain ⟨before, after, rfl, hbefore, -⟩ := exists_first hpattern hin
        have hpos := List.length_pos_iff.mpr hpattern
        rw [List.append_assoc]
        exact .more _ _ hbefore (ih after.length (by simp at hlength; omega) after rfl)
      · exact .last _ hin

theorem split_marker (key s : List Char) : Split (marker key) s := exists_split marker_ne_nil s

/-! ## Filled texts -/

/-- A text that does not start with a marker starts as its template does. -/
theorem head?_fillChars {c : Char} (hc : c ≠ '{') (s : List Char)
    (values : List (List Char × List Char)) : (fillChars (c :: s) values).head? = some c := by
  rw [fillChars]
  induction values generalizing s with
  | nil => rfl
  | cons e values ih =>
      obtain ⟨name, value⟩ := e
      show (values.foldl _ (replaceAll (marker name) value (c :: s))).head? = some c
      rw [replaceAll_cons (not_marker_prefix_cons hc)]
      exact ih _

theorem head?_fill {template : String} {c : Char} (hc : c ≠ '{')
    (h : template.toList.head? = some c) (values : List (String × String)) :
    (fill template values).toList.head? = some c := by
  obtain ⟨s, hs⟩ := List.head?_eq_some_iff.mp h
  rw [fill, String.toList_ofList, hs]
  exact head?_fillChars hc s _

end AgentCompiler.Text
