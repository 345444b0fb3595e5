import Mathlib.Data.List.Nodup
import AgentCompiler.Name.Distinct

/-!
# Distinct names are distinct

Each name is handed out as it is or with a counter, and none twice. The counters that are tried are one
more than the names to avoid, so one of them is free.
-/

namespace AgentCompiler.Name

/-- Numbers that are written alike are equal. -/
theorem natural_injective : Function.Injective Decimal.natural := by
  intro m n h
  have hchars : Nat.toDigits 10 m = Nat.toDigits 10 n := String.ofList_injective h
  rw [← Nat.ofDigitChars_ten_toDigits (n := m), hchars, Nat.ofDigitChars_ten_toDigits]

/-- The counters of a name make different names. -/
theorem numbered_injective (name : String) : Function.Injective (numbered name) := by
  intro m n h
  have hchars := congrArg String.toList h
  simp only [numbered, String.toList_append, List.append_assoc, List.append_cancel_left_eq] at hchars
  exact natural_injective (String.toList_injective hchars)

/-- The counter that is found makes a name that is not to be avoided. `left` are the names to avoid
whose counters have not been tried, and there are no more of them than tries. -/
theorem freeCounter_notMem (avoid : List String) (name : String) (tries k : Nat)
    (left : List String)
    (hleft : ∀ j > k, numbered name j ∈ avoid → numbered name j ∈ left)
    (htries : left.length ≤ tries) :
    numbered name (freeCounter avoid name tries k) ∉ avoid := by
  induction tries generalizing k left with
  | zero =>
      intro hmem
      have hnil : left = [] := List.length_eq_zero_iff.mp (by omega)
      have hin := hleft (k + 1) (by omega) hmem
      rw [hnil] at hin
      cases hin
  | succ tries ih =>
      rw [freeCounter]
      split
      · next hc =>
          have hin : numbered name (k + 1) ∈ left :=
            hleft (k + 1) (by omega) (List.contains_iff_mem.mp hc)
          -- The name that was tried is used up: no later counter makes it again.
          refine ih (k + 1) (left.erase (numbered name (k + 1))) (fun j hj hmem => ?_) ?_
          · have hne : numbered name j ≠ numbered name (k + 1) := fun heq => by
              have := numbered_injective name heq
              omega
            exact (List.mem_erase_of_ne hne).mpr (hleft j (by omega) hmem)
          · rw [List.length_erase_of_mem hin]
            omega
      · next hc => exact fun hmem => hc (List.contains_iff_mem.mpr hmem)

/-- A name that is handed out was not handed out before, and is the name or a numbered form of it. -/
theorem Handed.next_spec (names : List String) (h : Handed) (name : String) :
    (h.next names name).1 ∉ h.taken ∧
      (h.next names name).2.taken = (h.next names name).1 :: h.taken ∧
      ((h.next names name).1 = name ∨ ∃ k, (h.next names name).1 = numbered name k) := by
  unfold Handed.next
  split
  · refine ⟨fun hmem => ?_, rfl, .inr ⟨_, rfl⟩⟩
    exact freeCounter_notMem (names ++ h.taken) name _ _ (names ++ h.taken)
      (fun _ _ hj => hj) Nat.le.refl (List.mem_append_right names hmem)
  · next hc => exact ⟨fun hmem => hc (List.contains_iff_mem.mpr hmem), rfl, .inl rfl⟩

theorem length_distinctFrom (names : List String) (h : Handed) (ns : List String) :
    (distinctFrom names h ns).length = ns.length := by
  induction ns generalizing h with
  | nil => rfl
  | cons n ns ih => simp only [distinctFrom, List.length_cons, ih]

/-- Names are handed out once: none of the later ones was handed out before. -/
theorem nodup_distinctFrom (names : List String) (h : Handed) (ns : List String) :
    (distinctFrom names h ns).Nodup ∧ ∀ n ∈ distinctFrom names h ns, n ∉ h.taken := by
  induction ns generalizing h with
  | nil => exact ⟨List.nodup_nil, fun n hn => by cases hn⟩
  | cons n ns ih =>
      obtain ⟨hfresh, htaken, -⟩ := h.next_spec names n
      obtain ⟨hnodup, hlater⟩ := ih (h.next names n).2
      rw [htaken] at hlater
      refine ⟨List.nodup_cons.mpr ⟨fun hmem => hlater _ hmem List.mem_cons_self, hnodup⟩, ?_⟩
      intro m hm
      rcases List.mem_cons.mp hm with rfl | hm
      · exact hfresh
      · exact fun hmem => hlater m hm (List.mem_cons_of_mem _ hmem)

/-- Every name handed out is one of the names or a numbered form of one. -/
theorem mem_distinctFrom {names : List String} {h : Handed} {ns : List String} {n : String}
    (hn : n ∈ distinctFrom names h ns) : n ∈ ns ∨ ∃ m ∈ ns, ∃ k, n = numbered m k := by
  induction ns generalizing h with
  | nil => cases hn
  | cons m ns ih =>
      rcases List.mem_cons.mp hn with rfl | hn
      · rcases (h.next_spec names m).2.2 with heq | ⟨k, hk⟩
        · exact .inl (List.mem_cons.mpr (.inl heq))
        · exact .inr ⟨m, List.mem_cons_self, k, hk⟩
      · rcases ih hn with hmem | ⟨m', hm', k, hk⟩
        · exact .inl (List.mem_cons_of_mem _ hmem)
        · exact .inr ⟨m', List.mem_cons_of_mem _ hm', k, hk⟩

theorem length_distinct (names : List String) : (distinct names).length = names.length :=
  length_distinctFrom names {} names

/-- The names with counters are pairwise distinct. -/
theorem nodup_distinct (names : List String) : (distinct names).Nodup :=
  (nodup_distinctFrom names {} names).1

theorem mem_distinct {names : List String} {n : String} (hn : n ∈ distinct names) :
    n ∈ names ∨ ∃ m ∈ names, ∃ k, n = numbered m k :=
  mem_distinctFrom hn

end AgentCompiler.Name
