import AgentCompiler.Proofs.Prompt.Token
import AgentCompiler.Prompt.Compile

/-!
# The order of filling

Placeholders are filled one after the other, each at its rank. Those of the generated code come last.
A placeholder is known by its name.
-/

namespace AgentCompiler

/-! ## Ranks -/

namespace Placeholder

/-- The place of a placeholder in the order in which they are filled. -/
def rank (p : Placeholder) : Nat := all.idxOf p

theorem mem_all (p : Placeholder) : p ∈ all := by cases p <;> decide

theorem nodup_all : all.Nodup := by decide

theorem rank_lt (p : Placeholder) : p.rank < all.length := List.idxOf_lt_length_of_mem p.mem_all

/-- The placeholder of a rank. -/
theorem getElem?_rank (p : Placeholder) : all[p.rank]? = some p := List.getElem?_idxOf p.mem_all

theorem exists_rank {n : Nat} (h : n < all.length) : ∃ p : Placeholder, p.rank = n :=
  ⟨all[n], nodup_all.idxOf_getElem n h⟩

theorem rank_injective {p q : Placeholder} (h : p.rank = q.rank) : p = q := by
  have hp := p.getElem?_rank
  rw [h, getElem?_rank] at hp
  exact (Option.some.inj hp).symm

/-- The placeholders of the generated code come behind all others. -/
theorem rank_lt_of_phase {p q : Placeholder} (hp : p.phase ≠ .runtime) (hq : q.phase = .runtime) :
    p.rank < q.rank := by
  have hcompile : p.rank < 23 := by revert hp; cases p <;> decide
  have hruntime : 23 ≤ q.rank := by revert hq; cases q <;> decide
  omega

/-- What is filled from the definition depends on no feature. -/
theorem feature_of_definition {p : Placeholder} (h : p.phase = .definition) : p.feature = none := by
  revert h
  cases p <;> decide

/-! ## Names -/

theorem ofName?_name (p : Placeholder) : ofName? p.name = some p := by
  cases p <;> decide +kernel

theorem ofName?_eq_some {t : String} {p : Placeholder} : ofName? t = some p ↔ t = p.name := by
  constructor
  · intro h
    have hbeq := List.find?_some h
    exact (beq_iff_eq.mp hbeq).symm
  · rintro rfl
    exact p.ofName?_name

theorem name_injective {p q : Placeholder} (h : p.name = q.name) : p = q := by
  have hsome := q.ofName?_name
  rw [← h, ofName?_name] at hsome
  exact Option.some.inj hsome

end Placeholder

namespace Prompt

/-- A literal is a name when its characters are those of one. -/
theorem IsName.ofList {s : String} {cs : List Char} (hs : s = .ofList cs) (hne : cs ≠ [])
    (hchars : cs.all isNameChar) : IsName s.toList := by
  rw [hs, String.toList_ofList]
  exact ⟨hne, List.all_eq_true.mp hchars⟩

theorem isName_name (p : Placeholder) : IsName p.name.toList := by
  cases p <;> exact .ofList rfl (List.cons_ne_nil _ _) (by decide)

theorem toList_token (p : Placeholder) : p.token.toList = tokenChars p.name.toList := by
  rw [Placeholder.token, String.toList_append, String.toList_append]
  rfl

theorem mem_tokens {t s : String} : t ∈ tokens s ↔ t.toList ∈ tokensFrom none s.toList := by
  rw [tokens, List.mem_map]
  constructor
  · rintro ⟨cs, hcs, rfl⟩
    rw [String.toList_ofList]
    exact hcs
  · intro h
    exact ⟨t.toList, h, String.ofList_toList⟩

/-- The tokens of a template that is filled name placeholders. -/
theorem exists_name_of_known {template t : String} (hknown : unknownToken? template = none)
    (ht : t ∈ tokens template) : ∃ p : Placeholder, t = p.name := by
  have hsome := List.find?_eq_none.mp hknown t ht
  cases hname : Placeholder.ofName? t with
  | none => rw [hname] at hsome; exact absurd rfl hsome
  | some p => exact ⟨p, Placeholder.ofName?_eq_some.mp hname⟩

end Prompt

end AgentCompiler
