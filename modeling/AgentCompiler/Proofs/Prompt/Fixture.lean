import AgentCompiler.Proofs.Prompt.Token
import AgentCompiler.Prompt.Fixture

/-!
# Tokens of fixed texts

Every text of a table that was built in, changed or read from a file holds placeholders of the generated
code only, because each text is checked before it is taken over.
-/

namespace AgentCompiler.Prompt

/-- Every token of a text is a placeholder that the generated code fills. -/
def RuntimeTokens (text : String) : Prop :=
  ∀ t ∈ tokens text, ∃ p, Placeholder.ofName? t = some p ∧ p.phase = .runtime

/-- A computation in two steps that succeeds does so in both. -/
theorem exists_of_bind_eq_ok {ε α β : Type} {x : Except ε α} {f : α → Except ε β} {b : β}
    (h : (x >>= f) = .ok b) : ∃ a, x = .ok a ∧ f a = .ok b := by
  cases x with
  | error e => cases h
  | ok a => exact ⟨a, rfl, h⟩

/-! ## Plain texts -/

/-- A text without dollar signs. -/
def Plain (s : String) : Prop := '$' ∉ s.toList

/-- The characters of a literal, which need not be decoded when they are given as a list. -/
theorem tokens_ofList {s : String} {cs : List Char} (hs : s = .ofList cs) :
    tokens s = (tokensFrom none cs).map .ofList := by
  rw [hs, tokens, String.toList_ofList]

theorem Plain.ofList {s : String} {cs : List Char} (hs : s = .ofList cs) (h : '$' ∉ cs) :
    Plain s := by
  rw [Plain, hs, String.toList_ofList]
  exact h

theorem plain_append {s t : String} : Plain (s ++ t) ↔ Plain s ∧ Plain t := by
  rw [Plain, String.toList_append, List.mem_append, not_or]
  rfl

/-- A plain text has no tokens. -/
theorem Plain.tokens_eq {s : String} (h : Plain s) : tokens s = [] := by
  rw [tokens, tokensFrom_of_notMem none h, List.map_nil]

/-! ## Tables that can be reached -/

namespace Fixtures

/-- A table that is built in, results from a change, or was read from a file. -/
inductive Reachable : Fixtures → Prop
  | builtIn : Reachable builtIn
  | set {f f' : Fixtures} {p : Placeholder} {text : String} (h : Reachable f)
      (hset : f.set p text = .ok f') : Reachable f'
  | ofFile {path : String} {text : Except Files.ReadFault String} {f : Fixtures}
      (hfile : Fixtures.ofFile path text = .ok f) : Reachable f

/-- Every fixed text of the table holds placeholders of the generated code only. -/
def Checked (f : Fixtures) : Prop := ∀ p, p.phase = .fixture → RuntimeTokens (f.text p)

/-- Tokens that pass the check are placeholders of the generated code. -/
theorem runtime_of_checkTokens {name : String} {ts : List String}
    (h : checkTokens name ts = .ok ()) :
    ∀ t ∈ ts, ∃ p, Placeholder.ofName? t = some p ∧ p.phase = .runtime := by
  induction ts with
  | nil => exact List.forall_mem_nil _
  | cons t ts ih =>
      rw [checkTokens] at h
      split at h
      · cases h
      · next p hp =>
          split at h
          · cases h
          · next hphase =>
              refine List.forall_mem_cons.mpr ⟨⟨p, hp, ?_⟩, ih h⟩
              simpa [Placeholder.isCompileTime] using hphase

/-- Every built-in text but one is plain. -/
theorem plain_builtInText (p : Placeholder) : p = .memoryContent ∨ Plain (builtInText p) := by
  -- The text of each placeholder is opened without the equations of the definition, which would
  -- decode every text.
  delta Fixtures.builtInText
  cases p
  case memoryContent => exact .inl rfl
  all_goals
    right
    dsimp only
    try simp only [plain_append]
    and_intros
    all_goals exact .ofList rfl (by decide)

theorem tokens_memoryContent : tokens (builtInText .memoryContent) = ["memory_synopsis"] := by
  delta Fixtures.builtInText
  rw [tokens_ofList rfl]
  decide

/-- The built-in texts hold placeholders of the generated code only. -/
theorem checked_builtIn : Checked builtIn := by
  intro p _ t ht
  rcases plain_builtInText p with rfl | hplain
  · rw [builtIn, tokens_memoryContent, List.mem_singleton] at ht
    exact ⟨.memorySynopsis, by rw [ht]; decide, rfl⟩
  · rw [builtIn, hplain.tokens_eq] at ht
    exact absurd ht List.not_mem_nil

/-- A table stays checked when a text that passes the check is taken over. -/
theorem checked_update {f : Fixtures} (hf : Checked f) {name text : String} (p : Placeholder)
    (h : checkTokens name (tokens text) = .ok ()) : Checked (f.update p text) := by
  intro q hq
  simp only [Fixtures.update]
  split
  · exact runtime_of_checkTokens h
  · exact hf q hq

theorem checked_set {f f' : Fixtures} (hf : Checked f) {p : Placeholder} {text : String}
    (h : f.set p text = .ok f') : Checked f' := by
  unfold Fixtures.set at h
  split at h
  · cases h
  obtain ⟨u, hcheck, hupdate⟩ := exists_of_bind_eq_ok h
  obtain rfl := Except.ok.inj hupdate
  exact checked_update hf p hcheck

theorem checked_override {path : String} {f f' : Fixtures} (hf : Checked f)
    {entry : String × String} (h : Fixtures.override path f entry = .ok f') : Checked f' := by
  obtain ⟨key, text⟩ := entry
  unfold Fixtures.override at h
  dsimp only at h
  split at h
  · cases h
  next p _ =>
  split at h
  · cases h
  obtain ⟨u, hcheck, hupdate⟩ := exists_of_bind_eq_ok h
  obtain rfl := Except.ok.inj hupdate
  have hok : checkTokens key (tokens text) = .ok () := by
    cases hresult : checkTokens key (tokens text) with
    | ok => rfl
    | error e =>
        rw [hresult] at hcheck
        cases hcheck
  exact checked_update hf p hok

/-- The texts of a file are taken over one after the other. -/
theorem checked_foldlM {path : String} {f f' : Fixtures} (hf : Checked f)
    {entries : List (String × String)}
    (h : entries.foldlM (Fixtures.override path) f = .ok f') : Checked f' := by
  induction entries generalizing f with
  | nil =>
      obtain rfl := Except.ok.inj h
      exact hf
  | cons entry entries ih =>
      rw [List.foldlM_cons] at h
      obtain ⟨f₁, hentry, hrest⟩ := exists_of_bind_eq_ok h
      exact ih (checked_override hf hentry) hrest

/-- Every table that can be reached is checked. -/
theorem Reachable.checked {f : Fixtures} (h : Reachable f) : Checked f := by
  induction h with
  | builtIn => exact checked_builtIn
  | set _ hset ih => exact checked_set ih hset
  | ofFile hfile =>
      obtain ⟨text, -, hfile⟩ := exists_of_bind_eq_ok hfile
      split at hfile
      · cases hfile
      · obtain ⟨entries, -, hfile⟩ := exists_of_bind_eq_ok hfile
        exact checked_foldlM checked_builtIn hfile

end Fixtures

end AgentCompiler.Prompt
