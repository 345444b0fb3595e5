import Mathlib.Data.List.Basic
import AgentCompiler.Text.Lines

/-!
# Pieces of a text

A text that is split at separators falls into pieces without separators, and a text that is given line by
line is put together from its lines. A reading that takes the two sides of a separator apart reads a text
piece by piece.
-/

namespace AgentCompiler.Text

variable {α : Type} {p : α → Bool}

/-- A piece is taken from the text, and holds no separator. -/
theorem of_mem_splitOnP {s piece : List α} (h : piece ∈ s.splitOnP p) :
    ∀ x ∈ piece, x ∈ s ∧ p x = false := by
  induction s generalizing piece with
  | nil =>
      obtain rfl := List.mem_singleton.mp h
      exact List.forall_mem_nil _
  | cons c s ih =>
      have hlater {piece : List α} (h : piece ∈ s.splitOnP p) : ∀ x ∈ piece, x ∈ c :: s ∧ p x = false :=
        fun x hx => ⟨List.mem_cons_of_mem c (ih h x hx).1, (ih h x hx).2⟩
      rw [List.splitOnP_cons_eq_if_modifyHead] at h
      split at h
      · rcases List.mem_cons.mp h with rfl | h
        · exact List.forall_mem_nil _
        · exact hlater h
      · next hc =>
          obtain ⟨first, rest, hsplit⟩ := List.exists_cons_of_ne_nil (List.splitOnP_ne_nil p s)
          rw [hsplit] at h hlater
          rw [List.modifyHead_cons] at h
          rcases List.mem_cons.mp h with rfl | h
          · refine List.forall_mem_cons.mpr ⟨⟨List.mem_cons_self, Bool.eq_false_iff.mpr hc⟩, ?_⟩
            exact hlater List.mem_cons_self
          · exact hlater (List.mem_cons_of_mem _ h)

theorem eq_false_of_mem_splitOnP {s piece : List α} (h : piece ∈ s.splitOnP p) :
    ∀ x ∈ piece, p x = false := fun x hx => (of_mem_splitOnP h x hx).2

theorem mem_of_mem_splitOnP {s piece : List α} (h : piece ∈ s.splitOnP p) :
    ∀ x ∈ piece, x ∈ s := fun x hx => (of_mem_splitOnP h x hx).1

/-- A text is one piece, or has a first piece and a separator behind it. -/
theorem splitOnP_cases (p : α → Bool) (s : List α) :
    s.splitOnP p = [s] ∨ ∃ piece separator rest, s = piece ++ separator :: rest ∧
      p separator = true ∧ s.splitOnP p = piece :: rest.splitOnP p := by
  induction s with
  | nil => exact .inl rfl
  | cons c s ih =>
      by_cases hc : p c = true
      · exact .inr ⟨[], c, s, rfl, hc, by rw [List.splitOnP_cons_eq_if_modifyHead, if_pos hc]⟩
      rw [List.splitOnP_cons_eq_if_modifyHead, if_neg hc]
      rcases ih with hone | ⟨piece, separator, rest, rfl, hseparator, hsplit⟩
      · exact .inl (by rw [hone, List.modifyHead_cons])
      · exact .inr ⟨c :: piece, separator, rest, rfl, hseparator, by rw [hsplit, List.modifyHead_cons]⟩

/-- A text is cut in one way at its last occurrence of a character. -/
theorem append_cons_inj_of_last {c : α} {a b u w : List α} (hu : c ∉ u) (hw : c ∉ w)
    (h : a ++ c :: u = b ++ c :: w) : a = b ∧ u = w := by
  rcases List.append_eq_append_iff.mp h with ⟨more, rfl, hmore⟩ | ⟨more, rfl, hmore⟩
  · cases more with
    | nil => simpa using hmore
    | cons d more =>
        -- The other text would have the character once more behind its last occurrence.
        obtain ⟨rfl, rfl⟩ := List.cons_eq_cons.mp hmore
        exact absurd (List.mem_append_right more List.mem_cons_self) hu
  · cases more with
    | nil => simpa [eq_comm] using hmore
    | cons d more =>
        obtain ⟨rfl, rfl⟩ := List.cons_eq_cons.mp hmore
        exact absurd (List.mem_append_right more List.mem_cons_self) hw

/-- A word does not run over a character that it does not have. -/
theorem infix_append_cons {c : α} {w s t : List α} (hc : c ∉ w) (h : w <:+: s ++ c :: t) :
    w <:+: s ∨ w <:+: t := by
  induction s with
  | nil =>
      rcases List.infix_cons_iff.mp h with hstart | hin
      · cases w with
        | nil => exact .inl List.nil_infix
        | cons a w =>
            obtain rfl := (List.cons_prefix_cons.mp hstart).1
            exact absurd List.mem_cons_self hc
      · exact .inr hin
  | cons a s ih =>
      rcases List.infix_cons_iff.mp h with hstart | hin
      · -- A word that starts in front of the character and is longer would hold it.
        rcases List.prefix_or_prefix_of_prefix hstart (List.prefix_append (a :: s) (c :: t)) with
          hp | ⟨rest, rfl⟩
        · exact .inl hp.isInfix
        cases rest with
        | nil => exact .inl (by simp)
        | cons d rest =>
            have hnext : d :: rest <+: c :: t := (List.prefix_append_right_inj (a :: s)).mp hstart
            obtain rfl := (List.cons_prefix_cons.mp hnext).1
            exact absurd (List.mem_append_right _ List.mem_cons_self) hc
      · exact (ih hin).imp_left List.infix_cons

/-! ## Reading by parts -/

/-- A reading of texts goes by parts at a character when the parts in front of it and behind it are read
apart. -/
structure ByParts {β : Type} (f : List Char → List β) (c : Char) : Prop where
  nil : f [] = []
  append : ∀ s t, f (s ++ c :: t) = f s ++ f t

namespace ByParts

variable {β : Type} {f : List Char → List β} {c : Char}

/-- Pieces that are joined by the character are read one after the other. -/
theorem intercalate (h : ByParts f c) (pieces : List (List Char)) :
    f (List.intercalate [c] pieces) = pieces.flatMap f := by
  induction pieces with
  | nil => exact h.nil
  | cons piece pieces ih =>
      cases pieces with
      | nil => rw [List.intercalate_singleton, List.flatMap_singleton]
      | cons piece' pieces =>
          rw [List.intercalate_cons_cons, List.append_assoc, List.singleton_append, h.append, ih]
          rfl

/-- A text is read piece by piece. -/
theorem splitOn (h : ByParts f c) (s : List Char) : (s.splitOn c).flatMap f = f s := by
  rw [← h.intercalate, List.intercalate_splitOn]

end ByParts

/-! ## Lines -/

theorem toList_ofLines (ls : List String) : (ofLines ls).toList = joinLines (ls.map String.toList) := by
  rw [ofLines, String.toList_intercalate]
  rfl

theorem joinLines_cons_cons (l l' : List Char) (ls : List (List Char)) :
    joinLines (l :: l' :: ls) = l ++ '\n' :: joinLines (l' :: ls) := by
  rw [joinLines, List.intercalate_cons_cons, List.append_assoc]
  rfl

/-- A text holds each of its lines. -/
theorem infix_joinLines {l : List Char} {ls : List (List Char)} (h : l ∈ ls) :
    l <:+: joinLines ls := by
  induction ls with
  | nil => cases h
  | cons first ls ih =>
      cases ls with
      | nil =>
          obtain rfl := List.mem_singleton.mp h
          exact ⟨[], [], by simp [joinLines]⟩
      | cons l' ls =>
          rw [joinLines_cons_cons]
          rcases List.mem_cons.mp h with rfl | h
          · exact (List.prefix_append _ _).isInfix
          · exact ((ih h).trans (List.suffix_cons _ _).isInfix).trans (List.suffix_append _ _).isInfix

/-- A text that is given line by line starts with its first line. -/
theorem prefix_ofLines (line : String) (ls : List String) :
    line.toList <+: (ofLines (line :: ls)).toList := by
  rw [toList_ofLines, List.map_cons]
  cases ls with
  | nil =>
      have hone : joinLines [line.toList] = line.toList := List.intercalate_singleton
      simpa only [List.map_nil, hone] using List.prefix_rfl
  | cons l ls =>
      rw [List.map_cons, joinLines_cons_cons]
      exact List.prefix_append _ _

theorem head?_of_prefix {line text : List Char} {c : Char} (hline : line.head? = some c)
    (h : line <+: text) : text.head? = some c := by
  obtain ⟨rest, rfl⟩ := h
  rw [List.head?_append, hline, Option.some_or]

/-- The characters of literals, which need not be decoded when they are given as lists. -/
theorem map_toList_of_forall₂ {ss : List String} {cs : List (List Char)}
    (h : List.Forall₂ (fun s c => s = .ofList c) ss cs) : ss.map String.toList = cs := by
  induction h with
  | nil => rfl
  | cons hs _ ih => rw [List.map_cons, ih, hs, String.toList_ofList]

/-- What holds of the characters of lines holds of a text that is given line by line. -/
theorem of_ofLines {P : List Char → Prop} {ls : List String} {cs : List (List Char)}
    (hlines : List.Forall₂ (fun s c => s = .ofList c) ls cs) (h : P (joinLines cs)) :
    P (ofLines ls).toList := by
  rwa [toList_ofLines, map_toList_of_forall₂ hlines]

end AgentCompiler.Text
