import AgentCompiler.Proofs.Prompt.Apart
import AgentCompiler.Proofs.Prompt.Fixture
import AgentCompiler.Proofs.Prompt.Rank

/-!
# What is left in a compiled template

A compiled template should hold no other tokens than those that the generated code fills. The tokens are
checked in the template only, before anything is filled. What is left beyond them comes from a value of
the definition, or is joined from both sides of a place where text was put in or taken out. Where tokens
stand apart nothing is joined, and a compiled template is closed exactly when every token of an inserted
value of the definition is filled later.
-/

namespace AgentCompiler.Prompt

namespace Setting

variable {s : Setting} {template text value t : String} {p q : Placeholder} {n m : Nat}

/-- The template when the placeholders of lower rank are filled. -/
def filled (s : Setting) (template : String) (n : Nat) : String :=
  (Placeholder.all.take n).foldl s.substitute template

/-- A token that may be left: a placeholder of the generated code whose feature, if any, is there. -/
def Allows (s : Setting) (t : String) : Prop :=
  ∃ p, Placeholder.ofName? t = some p ∧ p.phase = .runtime ∧ s.features.keeps p

/-- Every token of a text may be left. -/
def Closed (s : Setting) (text : String) : Prop := ∀ t ∈ tokens text, s.Allows t

/-! ## Filling one placeholder -/

theorem filled_succ :
    s.filled template (p.rank + 1) = s.substitute (s.filled template p.rank) p := by
  rw [filled, List.take_add_one, p.getElem?_rank, List.foldl_append]
  rfl

theorem filled_length :
    s.filled template Placeholder.all.length = Placeholder.all.foldl s.substitute template := by
  rw [filled, List.take_length]

/-- A placeholder that the generated code fills is passed over. -/
theorem filled_succ_none (h : s.replacement p = none) :
    s.filled template (p.rank + 1) = s.filled template p.rank := by
  rw [filled_succ, substitute, h]

/-- The characters of a text with a placeholder filled. -/
theorem toList_substitute (hvalue : s.replacement p = some value) :
    (s.substitute text p).toList =
      Text.replaceAll (tokenChars p.name.toList) value.toList text.toList := by
  rw [substitute, hvalue, ← toList_token]
  exact String.toList_ofList

theorem replacement_eq_none :
    s.replacement p = none ↔ p.phase = .runtime ∧ s.features.keeps p = true := by
  unfold replacement
  cases hkeeps : s.features.keeps p <;> cases hphase : p.phase <;> simp

theorem replacement_of_definition (h : p.phase = .definition) :
    s.replacement p = some (s.values.get p) := by
  have hkeeps : s.features.keeps p = true := by
    rw [Features.keeps, Placeholder.feature_of_definition h]
  rw [replacement, hkeeps, h]
  rfl

/-- Where a value comes from. -/
theorem replacement_cases (h : s.replacement p = some value) :
    value = "" ∨ (p.phase = .fixture ∧ value = s.fixtures.text p) ∨
      (p.phase = .definition ∧ value = s.values.get p) := by
  unfold replacement at h
  split at h
  · exact .inl (Option.some.inj h).symm
  split at h
  · next hp => exact .inr (.inl ⟨hp, (Option.some.inj h).symm⟩)
  · next hp => exact .inr (.inr ⟨hp, (Option.some.inj h).symm⟩)
  · cases h

/-- What may be left is what is never filled. -/
theorem allows_iff : s.Allows t ↔ ∃ p, t = p.name ∧ s.replacement p = none := by
  simp only [Allows, Placeholder.ofName?_eq_some, replacement_eq_none]

/-! ## Names that come in -/

/-- A name that is read when a placeholder has been filled with a value, and that was not read before
unless it is the name of that placeholder. -/
def Adds (s : Setting) (template : String) (p : Placeholder) (value t : String) : Prop :=
  s.replacement p = some value ∧ t ∈ tokens (s.filled template (p.rank + 1)) ∧
    (t ∈ tokens (s.filled template p.rank) → t = p.name)

/-- How a name comes in that the generated code may not know. -/
inductive Brings (s : Setting) (template : String) : String → Prop
  /-- A value of the definition holds it. -/
  | value {p : Placeholder} {t : String} (hadds : s.Adds template p (s.values.get p) t)
      (hp : p.phase = .definition) (ht : t ∈ tokens (s.values.get p)) : Brings s template t
  /-- The value does not hold it: it is joined with the text around the value. -/
  | joined {p : Placeholder} {value t : String} (hadds : s.Adds template p value t)
      (ht : t ∉ tokens value) : Brings s template t
  /-- It is joined where the phrase is taken out. -/
  | removal {t : String} (ht : t ∉ tokens (s.filled template Placeholder.all.length))
      (hremoved : t ∈ tokens
        (Text.replace (s.filled template Placeholder.all.length) messagePhrase "")) :
      Brings s template t

/-- A name that is read while a template is filled was brought in, or is that of a placeholder which is
filled later or not at all. `Brought` covers what comes in when a placeholder is filled. -/
theorem named_or_brought {Brought : String → Prop} (hknown : unknownToken? template = none)
    (hadds : ∀ p value t, s.Adds template p value t →
      Brought t ∨ ∃ q : Placeholder, t = q.name ∧ p.rank < q.rank)
    (hn : n ≤ Placeholder.all.length) (ht : t ∈ tokens (s.filled template n)) :
    Brought t ∨ ∃ q : Placeholder, t = q.name ∧ (n ≤ q.rank ∨ s.replacement q = none) := by
  induction n with
  | zero =>
      obtain ⟨q, hq⟩ := exists_name_of_known hknown ht
      exact .inr ⟨q, hq, .inl (Nat.zero_le _)⟩
  | succ n ih =>
      obtain ⟨p, rfl⟩ := Placeholder.exists_rank hn
      have hnext {q : Placeholder} (hq : t = q.name) (hrank : p.rank ≤ q.rank)
          (hne : t = p.name → s.replacement p = none) :
          p.rank + 1 ≤ q.rank ∨ s.replacement q = none := by
        rcases Nat.eq_or_lt_of_le hrank with heq | hlt
        · obtain rfl := Placeholder.rank_injective heq
          exact .inr (hne hq)
        · exact .inl hlt
      -- A name that was there stays covered, unless it is that of the placeholder just filled.
      have hstay (hmem : t ∈ tokens (s.filled template p.rank))
          (hne : t = p.name → s.replacement p = none) :
          Brought t ∨ ∃ q : Placeholder, t = q.name ∧
            (p.rank + 1 ≤ q.rank ∨ s.replacement q = none) := by
        rcases ih (Nat.le_of_succ_le hn) hmem with hbrought | ⟨q, hq, hrank | hnone⟩
        · exact .inl hbrought
        · exact .inr ⟨q, hq, hnext hq hrank hne⟩
        · exact .inr ⟨q, hq, .inr hnone⟩
      cases hvalue : s.replacement p with
      | none =>
          rw [filled_succ_none hvalue] at ht
          exact hstay ht fun _ => hvalue
      | some value =>
          by_cases hold : t ∈ tokens (s.filled template p.rank) ∧ t ≠ p.name
          · exact hstay hold.1 fun heq => absurd heq hold.2
          · have hnew : s.Adds template p value t :=
              ⟨hvalue, ht, fun hmem => Decidable.not_not.mp fun hne => hold ⟨hmem, hne⟩⟩
            rcases hadds p value t hnew with hbrought | ⟨q, hq, hlt⟩
            · exact .inl hbrought
            · exact .inr ⟨q, hq, .inl hlt⟩

/-- The tokens of a fixed text are filled later, if at all. -/
theorem rank_lt_of_mem_fixture (hf : s.fixtures.Reachable) (hp : p.phase = .fixture)
    (ht : t ∈ tokens (s.fixtures.text p)) : ∃ q : Placeholder, t = q.name ∧ p.rank < q.rank := by
  obtain ⟨q, hq, hruntime⟩ := hf.checked p hp t ht
  have hphase : p.phase ≠ .runtime := by
    rw [hp]
    decide
  exact ⟨q, Placeholder.ofName?_eq_some.mp hq, Placeholder.rank_lt_of_phase hphase hruntime⟩

theorem tokens_empty : tokens "" = [] := by decide

/-- A name that a value brings in is filled later, unless the value is one of the definition. -/
theorem rank_lt_of_mem_value (hf : s.fixtures.Reachable) (hvalue : s.replacement p = some value)
    (hp : p.phase ≠ .definition) (ht : t ∈ tokens value) :
    ∃ q : Placeholder, t = q.name ∧ p.rank < q.rank := by
  rcases replacement_cases hvalue with rfl | ⟨hfixture, rfl⟩ | ⟨hdefinition, -⟩
  · rw [tokens_empty] at ht
    exact absurd ht List.not_mem_nil
  · exact rank_lt_of_mem_fixture hf hfixture ht
  · exact absurd hdefinition hp

/-- What is never filled is a placeholder of the generated code. -/
theorem allows_of_length_le (h : t = q.name)
    (hq : Placeholder.all.length ≤ q.rank ∨ s.replacement q = none) : s.Allows t := by
  refine allows_iff.mpr ⟨q, h, hq.resolve_left ?_⟩
  exact Nat.not_le_of_lt q.rank_lt

/-- Before the phrase is taken out, every token may be left or was brought in. -/
theorem allows_or_brings (hf : s.fixtures.Reachable) (hknown : unknownToken? template = none)
    (ht : t ∈ tokens (s.filled template Placeholder.all.length)) :
    s.Allows t ∨ s.Brings template t := by
  have hadds (p : Placeholder) (value t : String) (h : s.Adds template p value t) :
      s.Brings template t ∨ ∃ q : Placeholder, t = q.name ∧ p.rank < q.rank := by
    by_cases hmem : t ∈ tokens value
    · by_cases hp : p.phase = .definition
      · obtain rfl := Option.some.inj (h.1.symm.trans (replacement_of_definition hp))
        exact .inl (.value h hp hmem)
      · exact .inr (rank_lt_of_mem_value hf h.1 hp hmem)
    · exact .inl (.joined h hmem)
  rcases named_or_brought hknown hadds (Nat.le_refl _) ht with hbrings | ⟨q, hq, hlast⟩
  · exact .inr hbrings
  · exact .inl (allows_of_length_le hq hlast)

/-! ## Tokens that stand apart -/

/-- Names that are filled. -/
def Fills (s : Setting) (name : List Char) : Prop :=
  ∃ p value, s.replacement p = some value ∧ p.name.toList = name

/-- Placeholders that come to stand in the text, in the template or with the value of another one that is
filled before. -/
inductive Inserted (s : Setting) (template : String) : Placeholder → Prop
  | template {p : Placeholder} (h : p.name ∈ tokens template) : Inserted s template p
  | value {p q : Placeholder} {value : String} (hp : Inserted s template p)
      (hvalue : s.replacement p = some value) (hq : q.name ∈ tokens value)
      (hlater : p.rank < q.rank) : Inserted s template q

/-- No token that is filled shares a dollar sign with the text beside it, in the template or in an
inserted value, and taking the phrase out joins no name. -/
structure Separate (s : Setting) (template : String) : Prop where
  source : Apart s.Fills template.toList
  inserted : ∀ p value, s.Inserted template p → s.replacement p = some value →
    Apart s.Fills value.toList
  removal : Removable messagePhrase.toList
    (s.filled template Placeholder.all.length).toList

/-- Filling a placeholder that stands apart takes its tokens out and puts those of the value in. -/
theorem mem_tokens_substitute (hvalue : s.replacement p = some value)
    (htext : Apart s.Fills text.toList)
    (hapart : p.name ∈ tokens text → Apart s.Fills value.toList) :
    Apart s.Fills (s.substitute text p).toList ∧
      ∀ t, t ∈ tokens (s.substitute text p) ↔
        (t ∈ tokens text ∧ t ≠ p.name) ∨ (p.name ∈ tokens text ∧ t ∈ tokens value) := by
  have hchars : (s.substitute text p).toList =
      Text.replaceAll (tokenChars p.name.toList) value.toList text.toList := toList_substitute hvalue
  obtain ⟨hresult, htokens⟩ := htext.replaceAll (isName_name p) ⟨p, value, hvalue, rfl⟩
    (fun hmem => hapart (mem_tokens.mpr hmem))
  rw [hchars]
  refine ⟨hresult, fun t => ?_⟩
  have hname : t ≠ p.name ↔ t.toList ≠ p.name.toList := not_congr String.toList_inj.symm
  rw [mem_tokens, hchars, htokens, List.mem_flatMap, mem_tokens, mem_tokens, mem_tokens, hname]
  constructor
  · rintro ⟨name, hmem, ht⟩
    split at ht
    · next heq => exact .inr ⟨heq ▸ hmem, ht⟩
    · next hne =>
        rw [List.mem_singleton] at ht
        exact .inl ⟨ht ▸ hmem, ht ▸ hne⟩
  · rintro (⟨hmem, hne⟩ | ⟨hmem, ht⟩)
    · exact ⟨t.toList, hmem, by rw [if_neg hne, List.mem_singleton]⟩
    · exact ⟨p.name.toList, hmem, by rwa [if_pos rfl]⟩

namespace Separate

/-- While a template is filled its tokens stand apart, and those that are filled later were inserted. -/
theorem filled (hs : s.Separate template) (hn : n ≤ Placeholder.all.length) :
    Apart s.Fills (s.filled template n).toList ∧
      ∀ q : Placeholder, n ≤ q.rank → q.name ∈ tokens (s.filled template n) →
        s.Inserted template q := by
  induction n with
  | zero => exact ⟨hs.source, fun q _ hq => .template hq⟩
  | succ n ih =>
      obtain ⟨p, rfl⟩ := Placeholder.exists_rank hn
      obtain ⟨hapart, hinserted⟩ := ih (Nat.le_of_succ_le hn)
      cases hvalue : s.replacement p with
      | none =>
          rw [filled_succ_none hvalue]
          exact ⟨hapart, fun q hq => hinserted q (Nat.le_of_succ_le hq)⟩
      | some value =>
          have hp (hmem : p.name ∈ tokens (s.filled template p.rank)) : s.Inserted template p :=
            hinserted p (Nat.le_refl _) hmem
          obtain ⟨hnext, htokens⟩ := mem_tokens_substitute hvalue hapart
            (fun hmem => hs.inserted p value (hp hmem) hvalue)
          rw [filled_succ]
          refine ⟨hnext, fun q hq hmem => ?_⟩
          rcases (htokens q.name).mp hmem with ⟨hold, -⟩ | ⟨hin, hnew⟩
          · exact hinserted q (Nat.le_of_succ_le hq) hold
          · exact .value (hp hin) hvalue hnew hq

/-- The tokens once a placeholder is filled. -/
theorem mem_tokens_filled (hs : s.Separate template) (hvalue : s.replacement p = some value) :
    t ∈ tokens (s.filled template (p.rank + 1)) ↔
      (t ∈ tokens (s.filled template p.rank) ∧ t ≠ p.name) ∨
        (p.name ∈ tokens (s.filled template p.rank) ∧ t ∈ tokens value) := by
  obtain ⟨hapart, hinserted⟩ := hs.filled (Nat.le_of_lt p.rank_lt)
  rw [filled_succ]
  refine (mem_tokens_substitute hvalue hapart fun hmem => ?_).2 t
  exact hs.inserted p value (hinserted p (Nat.le_refl _) hmem) hvalue

/-- A token stays until its placeholder is filled. -/
theorem mem_tokens_of_le (hs : s.Separate template) (hnm : n ≤ m)
    (hm : m ≤ Placeholder.all.length) (ht : t ∈ tokens (s.filled template n))
    (hother : ∀ q : Placeholder, n ≤ q.rank → q.rank < m → t ≠ q.name) :
    t ∈ tokens (s.filled template m) := by
  induction m, hnm using Nat.le_induction with
  | base => exact ht
  | succ m hnm ih =>
      obtain ⟨p, rfl⟩ := Placeholder.exists_rank hm
      have hmem := ih (Nat.le_of_succ_le hm) fun q hq hlt => hother q hq (Nat.lt_succ_of_lt hlt)
      cases hvalue : s.replacement p with
      | none => rwa [filled_succ_none hvalue]
      | some value =>
          have hne := hother p hnm (Nat.lt_succ_self _)
          exact (hs.mem_tokens_filled hvalue).mpr (.inl ⟨hmem, hne⟩)

/-- An inserted placeholder stands in the text when its turn comes. -/
theorem mem_of_inserted (hs : s.Separate template) (h : s.Inserted template p) :
    p.name ∈ tokens (s.filled template p.rank) := by
  -- Names are distinct, so none that is filled before takes the token away.
  have hother {n : Nat} {p : Placeholder} (q : Placeholder) (_ : n ≤ q.rank)
      (hlt : q.rank < p.rank) : p.name ≠ q.name := by
    intro heq
    rw [Placeholder.name_injective heq] at hlt
    exact Nat.lt_irrefl _ hlt
  induction h with
  | template h =>
      exact hs.mem_tokens_of_le (Nat.zero_le _) (Nat.le_of_lt (Placeholder.rank_lt _)) h hother
  | value _ hvalue hq hlater ih =>
      have hin := (hs.mem_tokens_filled hvalue).mpr (.inr ⟨ih, hq⟩)
      exact hs.mem_tokens_of_le hlater (Nat.le_of_lt (Placeholder.rank_lt _)) hin hother

end Separate

/-! ## Compiling -/

theorem plain_messagePhrase : Plain messagePhrase := .ofList rfl (by decide)

/-- The phrase holds a break, a space. -/
theorem messagePhrase_break : ∃ c ∈ messagePhrase.toList, IsBreak c := by
  have hchars : messagePhrase = .ofList _ := rfl
  refine ⟨' ', ?_, isBreak_space⟩
  rw [hchars, String.toList_ofList]
  decide

/-- The tokens of a compiled template are those that are left when all placeholders are filled and the
phrase is taken out. -/
theorem compile_eq_ok {place : String} (h : s.compile place template = .ok text) :
    unknownToken? template = none ∧ tokens text =
      tokens (Text.replace (s.filled template Placeholder.all.length) messagePhrase "") := by
  unfold compile at h
  split at h
  · cases h
  · next hknown =>
      obtain rfl := Except.ok.inj h
      rw [tokens_wrap, filled_length]
      exact ⟨hknown, rfl⟩

/-- Where names stand apart, the phrase is taken out between them. -/
theorem Separate.tokens_removal (hs : s.Separate template) :
    tokens (Text.replace (s.filled template Placeholder.all.length) messagePhrase "") =
      tokens (s.filled template Placeholder.all.length) := by
  rw [tokens, Text.replace, String.toList_ofList]
  exact congrArg _ (tokensFrom_remove plain_messagePhrase messagePhrase_break hs.removal)

/-- Each token of an inserted value of the definition is that of a placeholder which is filled later. -/
def Ordered (s : Setting) (template : String) : Prop :=
  ∀ p, s.Inserted template p → p.phase = .definition → ∀ t ∈ tokens (s.values.get p),
    ∃ q, Placeholder.ofName? t = some q ∧ p.rank < q.rank

namespace Separate

/-- When values of the definition only hold what is filled later, no other tokens are left. -/
theorem closed_of_ordered (hs : s.Separate template) (hf : s.fixtures.Reachable)
    (hknown : unknownToken? template = none) (hordered : s.Ordered template)
    (ht : t ∈ tokens (s.filled template Placeholder.all.length)) : s.Allows t := by
  have hadds (p : Placeholder) (value t : String) (h : s.Adds template p value t) :
      False ∨ ∃ q : Placeholder, t = q.name ∧ p.rank < q.rank := by
    obtain ⟨hvalue, hread, hold⟩ := h
    rcases (hs.mem_tokens_filled hvalue).mp hread with ⟨hmem, hne⟩ | ⟨hmem, hnew⟩
    · exact absurd (hold hmem) hne
    · by_cases hp : p.phase = .definition
      · have hinserted := (hs.filled (Nat.le_of_lt p.rank_lt)).2 p (Nat.le_refl _) hmem
        obtain rfl := Option.some.inj (hvalue.symm.trans (replacement_of_definition hp))
        obtain ⟨q, hq, hlt⟩ := hordered p hinserted hp t hnew
        exact .inr ⟨q, Placeholder.ofName?_eq_some.mp hq, hlt⟩
      · exact .inr (rank_lt_of_mem_value hf hvalue hp hnew)
  rcases named_or_brought hknown hadds (Nat.le_refl _) ht with hfalse | ⟨q, hq, hlast⟩
  · exact hfalse.elim
  · exact allows_of_length_le hq hlast

/-- A token of a value of the definition that no later placeholder has is left to the end. -/
theorem ordered_of_closed (hs : s.Separate template)
    (hclosed : ∀ t ∈ tokens (s.filled template Placeholder.all.length), s.Allows t) :
    s.Ordered template := by
  intro p hp hphase t ht
  have hmem : t ∈ tokens (s.filled template (p.rank + 1)) :=
    (hs.mem_tokens_filled (replacement_of_definition hphase)).mpr (.inr ⟨hs.mem_of_inserted hp, ht⟩)
  -- Otherwise nothing takes the token away, and it is left as one of the generated code.
  by_contra hnone
  have hother (q : Placeholder) (hlt : p.rank + 1 ≤ q.rank) : t ≠ q.name := fun heq =>
    hnone ⟨q, Placeholder.ofName?_eq_some.mpr heq, hlt⟩
  have hlast := hs.mem_tokens_of_le p.rank_lt (Nat.le_refl _) hmem fun q hq _ => hother q hq
  obtain ⟨q, hq, hruntime, -⟩ := hclosed t hlast
  have hlt : p.rank < q.rank := by
    refine Placeholder.rank_lt_of_phase ?_ hruntime
    rw [hphase]
    decide
  exact hnone ⟨q, hq, hlt⟩

end Separate

/-- What is left in a compiled template. Every token may be left, came with a value of the definition,
or was joined. Where tokens stand apart, all of them may be left exactly when each token of an inserted
value of the definition is that of a placeholder which is filled later. -/
theorem compile_closed_iff {place : String} (hf : s.fixtures.Reachable)
    (h : s.compile place template = .ok text) :
    (∀ t ∈ tokens text, s.Allows t ∨ s.Brings template t) ∧
      (s.Separate template → (s.Closed text ↔ s.Ordered template)) := by
  obtain ⟨hknown, htokens⟩ := compile_eq_ok h
  refine ⟨fun t ht => ?_, fun hs => ?_⟩
  · rw [htokens] at ht
    by_cases hbefore : t ∈ tokens (s.filled template Placeholder.all.length)
    · exact allows_or_brings hf hknown hbefore
    · exact .inr (.removal hbefore ht)
  · rw [Closed, htokens, hs.tokens_removal]
    exact ⟨hs.ordered_of_closed, fun hordered t ht => hs.closed_of_ordered hf hknown hordered ht⟩

/-! ## A closed template and one that is not -/

/-- The setting of an agent without features and values. -/
def bare : Setting := ⟨.builtIn, {}, {}⟩

/-- The tokens of the template share dollar signs with what looks like a third one. Once that is taken
out, the other two are joined to a name that no placeholder has. -/
theorem compile_shared_not_closed :
    bare.fixtures.Reachable ∧
      bare.compile "orchestration" "$question$tools$question$" = .ok "$questionquestion$" ∧
      ¬bare.Closed "$questionquestion$" := by
  refine ⟨.builtIn, by decide +kernel, fun hclosed => ?_⟩
  have htokens : tokens "$questionquestion$" = ["questionquestion"] := by
    rw [tokens_ofList rfl]
    decide
  obtain ⟨p, hp, -⟩ := hclosed "questionquestion" (by rw [htokens]; exact List.mem_singleton_self _)
  have hnone : Placeholder.ofName? "questionquestion" = none := by decide +kernel
  rw [hnone] at hp
  cases hp

/-- The setting of an agent whose instruction holds a placeholder of the generated code. -/
def asking : Setting := { bare with values := { instruction := "Be kind: $question$" } }

theorem tokens_asking :
    tokens "$instruction$" = ["instruction"] ∧ tokens "Be kind: $question$" = ["question"] := by
  constructor
  · rw [tokens_ofList rfl]
    decide
  · rw [tokens_ofList rfl]
    decide

theorem filled_asking :
    asking.filled "$instruction$" Placeholder.all.length = "Be kind: $question$" := by
  decide +kernel

theorem compile_asking :
    asking.compile "orchestration" "$instruction$" = .ok "Be kind: $question$" := by
  have hknown : unknownToken? "$instruction$" = none := by decide +kernel
  have htext : Text.wrap (Text.replace "Be kind: $question$" messagePhrase "") lineWidth =
      "Be kind: $question$" := by
    decide +kernel
  rw [compile, hknown, ← filled_length, filled_asking]
  exact congrArg Except.ok htext

/-- Only the instruction is inserted, and the question with it. -/
theorem inserted_asking (h : asking.Inserted "$instruction$" p) :
    p = .instruction ∨ p = .question := by
  induction h with
  | template h =>
      rw [tokens_asking.1, List.mem_singleton] at h
      exact .inl (Placeholder.name_injective h)
  | value _ hvalue hq _ ih =>
      rcases ih with rfl | rfl
      · obtain rfl := Option.some.inj hvalue
        have hname := List.mem_singleton.mp (tokens_asking.2 ▸ hq)
        exact .inr (Placeholder.name_injective hname)
      · cases hvalue

theorem separate_asking : asking.Separate "$instruction$" where
  source := apart_of_count (by decide +kernel)
  inserted p value hp hvalue := by
    rcases inserted_asking hp with rfl | rfl
    · obtain rfl := Option.some.inj hvalue
      exact apart_of_count (by decide +kernel)
    · cases hvalue
  removal := by
    rw [filled_asking]
    exact removable_of_length_lt (by decide +kernel)

theorem compile_asking_closed :
    asking.fixtures.Reachable ∧
      asking.compile "orchestration" "$instruction$" = .ok "Be kind: $question$" ∧
      asking.Separate "$instruction$" ∧ asking.Closed "Be kind: $question$" := by
  have hordered : asking.Ordered "$instruction$" := by
    intro p hp hphase t ht
    rcases inserted_asking hp with rfl | rfl
    · have hname := List.mem_singleton.mp (tokens_asking.2 ▸ ht)
      exact ⟨.question, Placeholder.ofName?_eq_some.mpr hname, by decide⟩
    · cases hphase
  have hclosed := ((compile_closed_iff .builtIn compile_asking).2 separate_asking).mpr hordered
  exact ⟨.builtIn, compile_asking, separate_asking, hclosed⟩

end Setting

end AgentCompiler.Prompt
