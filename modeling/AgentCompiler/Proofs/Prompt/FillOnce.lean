import AgentCompiler.Proofs.Prompt.Closure
import AgentCompiler.Proofs.Prompt.Cut
import AgentCompiler.Proofs.Prompt.Foreign

/-!
# Filling a template in one pass

Placeholders are filled one after the other, over the whole text each time, so that a later one could be
found in a text that was put in, or across its ends. Where text keeps the tokens of a template apart this
does not happen: each token becomes what its placeholder stands for, as if all were filled at once.
-/

namespace AgentCompiler.Prompt

namespace Setting

variable {s : Setting} {template text value : String} {p q : Placeholder} {n : Nat}

/-- What a placeholder stands for in a compiled template: nothing when its feature is missing, the fixed
text or the value of the definition, or its token when the generated code fills it. -/
def stands (s : Setting) (p : Placeholder) : String :=
  if s.features.keeps p then
    match p.phase with
    | .fixture => s.fixtures.text p
    | .definition => s.values.get p
    | .runtime => p.token
  else ""

/-- A template whose tokens are filled all at once. What is put in is not looked into, and a token that
names no placeholder stays. -/
def fillOnce (s : Setting) (template : String) : String :=
  .ofList ((cut template.toList).fill fun name =>
    match Placeholder.ofName? (.ofList name) with
    | some p => (s.stands p).toList
    | none => tokenChars name)

/-! ## One token -/

theorem stands_eq (s : Setting) (p : Placeholder) : s.stands p = (s.replacement p).getD p.token := by
  unfold stands replacement
  cases s.features.keeps p <;> cases p.phase <;> rfl

/-- The token of another placeholder is kept. -/
theorem substitute_token_ne (h : q ≠ p) : s.substitute p.token q = p.token := by
  cases hvalue : s.replacement q with
  | none => rw [substitute, hvalue]
  | some value =>
      have hne : q.name.toList ≠ p.name.toList := fun heq =>
        h (Placeholder.name_injective (String.toList_injective heq))
      refine String.toList_injective ?_
      rw [toList_substitute hvalue, toList_token]
      exact replaceAll_token_ne (isName_name q) (isName_name p) hne

/-- The token of a placeholder becomes what this stands for. -/
theorem substitute_token_self : s.substitute p.token p = s.stands p := by
  rw [stands_eq]
  cases hvalue : s.replacement p with
  | none => rw [substitute, hvalue, Option.getD_none]
  | some value =>
      refine String.toList_injective ?_
      rw [toList_substitute hvalue, toList_token, Option.getD_some]
      exact replaceAll_token_self

theorem substitute_plain (htext : Plain text) : s.substitute text p = text := by
  cases hvalue : s.replacement p with
  | none => rw [substitute, hvalue]
  | some value =>
      refine String.toList_injective ?_
      rw [toList_substitute hvalue]
      exact replaceAll_plain htext

/-- A text whose tokens are kept apart stays when it does not hold the token. -/
theorem substitute_of_notMem (htext : (cut text.toList).Spaced) (h : p.name ∉ tokens text) :
    s.substitute text p = text := by
  cases hvalue : s.replacement p with
  | none => rw [substitute, hvalue]
  | some value =>
      rw [mem_tokens] at h
      refine String.toList_injective ?_
      rw [toList_substitute hvalue]
      exact replaceAll_of_notMem_tokens htext (isName_name p) h

/-- The tokens of a literal are kept apart when those of its characters are. -/
theorem spaced_ofList {cs : List Char} (hs : text = .ofList cs) (h : (cut cs).Spaced) :
    (cut text.toList).Spaced := by
  rw [hs, String.toList_ofList]
  exact h

theorem spaced_memoryContent :
    (cut (Fixtures.builtInText .memoryContent).toList).Spaced := by
  delta Fixtures.builtInText
  exact spaced_ofList rfl (by decide +kernel)

/-- What the memory stands for holds a token, which the generated code fills as long as there is a
memory. -/
theorem substitute_memoryContent (hmemory : s.features.memory) :
    s.substitute (Fixtures.builtInText .memoryContent) p = Fixtures.builtInText .memoryContent := by
  by_cases hp : p = .memorySynopsis
  · have hnone : s.replacement .memorySynopsis = none := replacement_eq_none.mpr ⟨rfl, hmemory⟩
    rw [hp, substitute, hnone]
  · refine substitute_of_notMem spaced_memoryContent fun hmem => hp ?_
    rw [Fixtures.tokens_memoryContent, List.mem_singleton] at hmem
    exact Placeholder.name_injective hmem

/-- What a placeholder stands for holds no token that is filled. -/
theorem substitute_stands (hfixtures : s.fixtures = .builtIn) (hvalues : ∀ p, Plain (s.values.get p))
    (h : q ≠ p) : s.substitute (s.stands p) q = s.stands p := by
  unfold stands
  split
  · next hkeeps =>
      split
      · rw [hfixtures]
        rcases Fixtures.plain_builtInText p with rfl | hplain
        · exact substitute_memoryContent hkeeps
        · exact substitute_plain hplain
      · exact substitute_plain (hvalues p)
      · exact substitute_token_ne h
  · exact substitute_plain (.ofList rfl List.not_mem_nil)

/-- A token is filled at the rank of its placeholder, and stays what it has become. -/
theorem filled_token (hfixtures : s.fixtures = .builtIn) (hvalues : ∀ p, Plain (s.values.get p))
    (hn : n ≤ Placeholder.all.length) :
    s.filled p.token n = if n ≤ p.rank then p.token else s.stands p := by
  induction n with
  | zero => rw [if_pos (Nat.zero_le _)]; rfl
  | succ n ih =>
      obtain ⟨q, rfl⟩ := Placeholder.exists_rank hn
      rw [filled_succ, ih (Nat.le_of_succ_le hn)]
      rcases Nat.lt_trichotomy q.rank p.rank with hlt | heq | hlt
      · rw [if_pos hlt.le, if_pos (Nat.succ_le_of_lt hlt)]
        exact substitute_token_ne fun hqp => hlt.ne (congrArg Placeholder.rank hqp)
      · obtain rfl := Placeholder.rank_injective heq
        rw [if_pos (Nat.le_refl _), if_neg (Nat.not_succ_le_self _)]
        exact substitute_token_self
      · rw [if_neg (by omega), if_neg (by omega)]
        exact substitute_stands hfixtures hvalues fun hqp => hlt.ne' (congrArg Placeholder.rank hqp)

/-! ## All tokens -/

/-- While a template is filled whose tokens are kept apart, each of them is filled on its own. -/
theorem toList_filled (htemplate : (cut template.toList).Spaced) (hn : n ≤ Placeholder.all.length) :
    (s.filled template n).toList =
      (cut template.toList).fill fun name => (s.filled (.ofList (tokenChars name)) n).toList := by
  induction n with
  | zero =>
      have hstart : (cut template.toList).fill
          (fun name => (s.filled (.ofList (tokenChars name)) 0).toList) =
            (cut template.toList).fill tokenChars :=
        Cut.fill_congr fun name _ => String.toList_ofList
      rw [hstart, fill_cut]
      rfl
  | succ n ih =>
      obtain ⟨p, rfl⟩ := Placeholder.exists_rank hn
      have hbefore := ih (Nat.le_of_succ_le hn)
      cases hvalue : s.replacement p with
      | none => simpa only [filled_succ_none hvalue] using hbefore
      | some value =>
          rw [filled_succ, toList_substitute hvalue, hbefore,
            htemplate.replaceAll_fill (isName_name p)]
          refine Cut.fill_congr fun name _ => ?_
          rw [filled_succ, toList_substitute hvalue]

/-- Compiling a template fills its tokens all at once, takes the phrase out and wraps the lines, when its
dollar signs are those of known tokens and text keeps the tokens apart. -/
theorem compile_eq_fillOnce {place : String} (hfixtures : s.fixtures = .builtIn)
    (hvalues : ∀ p, Plain (s.values.get p)) (hknown : ¬Foreign template)
    (htemplate : (cut template.toList).Spaced) :
    s.compile place template =
      .ok (Text.wrap (Text.replace (s.fillOnce template) messagePhrase "") lineWidth) := by
  have hfilled : Placeholder.all.foldl s.substitute template = s.fillOnce template := by
    refine String.toList_injective ?_
    rw [← filled_length, toList_filled htemplate (Nat.le_refl _), fillOnce, String.toList_ofList]
    refine Cut.fill_congr fun name hname => ?_
    rw [names_cut] at hname
    have hmem : .ofList name ∈ tokens template := List.mem_map_of_mem hname
    obtain ⟨p, hp⟩ := exists_name_of_known (unknownToken?_eq_none.mpr hknown) hmem
    have htoken : .ofList (tokenChars name) = p.token := by
      refine String.toList_injective ?_
      rw [toList_token, ← hp, String.toList_ofList, String.toList_ofList]
    rw [htoken, filled_token hfixtures hvalues (Nat.le_refl _), if_neg (Nat.not_le_of_lt p.rank_lt), hp,
      Placeholder.ofName?_name]
  rw [compile, unknownToken?_eq_none.mpr hknown, hfilled]

/-- The setting of an agent with memory that cannot ask its user. -/
def remembering : Setting := ⟨.builtIn, { memory := true }, { instruction := "Be helpful." }⟩

/-- A template with a placeholder of each way of filling. -/
def recalling : String :=
  "$instruction$ $ask_user_missing_information$|$memory_content$\n$question$"

/-- What is put in for the memory holds a token of the generated code, as the template does, and both of
them stay. -/
theorem compile_eq_fillOnce_remembering :
    remembering.fixtures = .builtIn ∧ (∀ p, Plain (remembering.values.get p)) ∧
      ¬Foreign recalling ∧ (cut recalling.toList).Spaced ∧
      remembering.compile "orchestration" recalling =
        .ok "Be helpful. |<memory_synopsis>\n$memory_synopsis$\n</memory_synopsis>\n$question$" := by
  have hvalues (p : Placeholder) : Plain (remembering.values.get p) := by
    cases p <;> exact .ofList rfl (by decide)
  have hknown : ¬Foreign recalling := not_foreign_ofList rfl (by decide +kernel)
  have hspaced : (cut recalling.toList).Spaced := spaced_ofList rfl (by decide +kernel)
  refine ⟨rfl, hvalues, hknown, hspaced, ?_⟩
  rw [compile_eq_fillOnce rfl hvalues hknown hspaced]
  decide +kernel

end Setting

end AgentCompiler.Prompt
