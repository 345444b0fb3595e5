import AgentCompiler.Assembly.Conversation
import AgentCompiler.Proofs.Code.Bare
import AgentCompiler.Proofs.Prompt.Foreign

/-!
# Names of prompts in a code

A module has two names for each kind of prompt: the variable of its model and the constant of its
template. Both are made of capitals, underscores and two small letters, so that they do not run over the
blanks, quotes and brackets between the parts of a code. The conversation of a module mentions the prompt
that leads it, and those of the steps that it takes.
-/

namespace AgentCompiler

/-- The variable of the model and the constant of the template. -/
def PromptKind.names (kind : PromptKind) : List String := [kind.handle, kind.constant]

namespace Assembly

open Prompt (mem_all_kinds)
open Text (Fenced)

variable {c : Char} {s t w : List Char} {kind : PromptKind} {kinds kinds' : List PromptKind}
  {ls : List String} {lines : List (List Char)}

/-- A code has one of the names of a kind of prompt. -/
def Mentions (s : List Char) (kind : PromptKind) : Prop := ∃ name ∈ kind.names, name.toList <:+: s

/-- A code has names of some kinds of prompts only. -/
def MentionsOnly (kinds : List PromptKind) (s : List Char) : Prop := ∀ kind, Mentions s kind → kind ∈ kinds

/-! ## What names are made of -/

/-- What variables of models start with. -/
def modelMark : List Char := ['l', 'l', 'm', '_']

/-- What constants of templates end with. -/
def templateMark : List Char := ['_', 'T', 'E', 'M', 'P', 'L', 'A', 'T', 'E']

/-- What the variable of a model ends with, and what the constant of a template starts with. -/
def nameParts : PromptKind → List Char × List Char
  | .orchestration =>
    (['O', 'R', 'C', 'H', 'E', 'S', 'T', 'R', 'A', 'T', 'I', 'O', 'N'],
      ['O', 'R', 'C', 'H', 'E', 'S', 'T', 'R', 'A', 'T', 'I', 'O', 'N'])
  | .preProcessing =>
    (['P', 'R', 'E', '_', 'P', 'R', 'O', 'C', 'E', 'S', 'S', 'I', 'N', 'G'],
      ['P', 'R', 'E', '_', 'P', 'R', 'O', 'C', 'E', 'S', 'S', 'I', 'N', 'G'])
  | .postProcessing =>
    (['P', 'O', 'S', 'T', '_', 'P', 'R', 'O', 'C', 'E', 'S', 'S', 'I', 'N', 'G'],
      ['P', 'O', 'S', 'T', '_', 'P', 'R', 'O', 'C', 'E', 'S', 'S', 'I', 'N', 'G'])
  | .memorySummarization =>
    (['M', 'E', 'M', 'O', 'R', 'Y', '_', 'S', 'U', 'M', 'M', 'A', 'R', 'I', 'Z', 'A', 'T', 'I', 'O', 'N'],
      ['M', 'E', 'M', 'O', 'R', 'Y'])
  | .knowledgeBaseResponseGeneration =>
    (['K', 'N', 'O', 'W', 'L', 'E', 'D', 'G', 'E', '_', 'B', 'A', 'S', 'E', '_', 'R', 'E', 'S', 'P', 'O',
        'N', 'S', 'E', '_', 'G', 'E', 'N', 'E', 'R', 'A', 'T', 'I', 'O', 'N'],
      ['K', 'B', '_', 'G', 'E', 'N', 'E', 'R', 'A', 'T', 'I', 'O', 'N'])
  | .routingClassifier =>
    (['R', 'O', 'U', 'T', 'I', 'N', 'G', '_', 'C', 'L', 'A', 'S', 'S', 'I', 'F', 'I', 'E', 'R'],
      ['R', 'O', 'U', 'T', 'I', 'N', 'G'])

/-- The names of a kind of prompt, by their characters. -/
def nameChars (kind : PromptKind) : List (List Char) :=
  [modelMark ++ (nameParts kind).1, (nameParts kind).2 ++ templateMark]

theorem map_toList_names (kind : PromptKind) : kind.names.map String.toList = nameChars kind :=
  (by decide : ∀ kind ∈ PromptKind.all, kind.names.map String.toList = nameChars kind)
    kind (mem_all_kinds kind)

theorem mentions_iff : Mentions s kind ↔ ∃ w ∈ nameChars kind, w <:+: s := by
  simp only [← map_toList_names, Mentions, List.mem_map, exists_exists_and_eq_and]

theorem mem_nameChars {name : String} (h : name ∈ kind.names) : name.toList ∈ nameChars kind :=
  map_toList_names kind ▸ List.mem_map_of_mem h

/-- A search for a word from left to right. -/
def occurs (w s : List Char) : Bool := s.tails.any (w.isPrefixOf ·)

theorem occurs_iff : occurs w s ↔ w <:+: s := by
  simp only [occurs, List.any_eq_true, List.mem_tails, List.isPrefixOf_iff_prefix,
    List.infix_iff_prefix_suffix, and_comm]

instance (s : List Char) (kind : PromptKind) : Decidable (Mentions s kind) :=
  decidable_of_iff (∃ w ∈ nameChars kind, occurs w s) (by simp only [occurs_iff, mentions_iff])

instance (kinds : List PromptKind) (s : List Char) : Decidable (MentionsOnly kinds s) :=
  decidable_of_iff (∀ kind ∈ PromptKind.all, Mentions s kind → kind ∈ kinds)
    ⟨fun h kind => h kind (mem_all_kinds kind), fun h kind _ => h kind⟩

/-- A text without the marks of names. -/
def Unmarked (s : List Char) : Prop := ¬modelMark <:+: s ∧ ¬templateMark <:+: s

instance (s : List Char) : Decidable (Unmarked s) :=
  decidable_of_iff (¬occurs modelMark s ∧ ¬occurs templateMark s) (by simp only [occurs_iff, Unmarked])

/-- A character that names of prompts are made of. -/
def isNameMark (c : Char) : Bool := c.isUpper || c == 'l' || c == 'm' || c == '_'

/-- A word that is made as names of prompts are. -/
structure IsName (w : List Char) : Prop where
  marks : w.all isNameMark
  capital : w.any Char.isUpper
  marked : ¬Unmarked w

instance (w : List Char) : Decidable (IsName w) :=
  decidable_of_iff (w.all isNameMark ∧ w.any Char.isUpper ∧ ¬Unmarked w)
    ⟨fun h => ⟨h.1, h.2.1, h.2.2⟩, fun h => ⟨h.marks, h.capital, h.marked⟩⟩

theorem isName_of_mem_names {name : String} (h : name ∈ kind.names) : IsName name.toList :=
  (by decide : ∀ kind ∈ PromptKind.all, ∀ w ∈ nameChars kind, IsName w)
    kind (mem_all_kinds kind) _ (mem_nameChars h)

/-- What is part of a text without marks has none. -/
theorem Unmarked.infix_trans (hs : Unmarked s) (h : t <:+: s) : Unmarked t :=
  ⟨fun hin => hs.1 (hin.trans h), fun hin => hs.2 (hin.trans h)⟩

/-- A text whose ends are no marks of names. -/
def Bordered (s : List Char) : Prop := s.head?.any (!isNameMark ·) ∧ s.getLast?.any (!isNameMark ·)

instance (s : List Char) : Decidable (Bordered s) := inferInstanceAs (Decidable (_ ∧ _))

namespace IsName

variable (hw : IsName w)
include hw

theorem notMem (hc : isNameMark c = false) : c ∉ w := by
  intro hmem
  rw [List.all_eq_true.mp hw.marks c hmem] at hc
  cases hc

theorem ne_nil : w ≠ [] := by
  rintro rfl
  exact absurd hw.capital (by decide)

theorem ink : ∀ c ∈ w, Text.isBlank c = false := by
  intro c hc
  have hblanks : Text.blanks.all (!isNameMark ·) := by decide
  by_contra hne
  rw [Bool.not_eq_false, Text.isBlank, List.contains_iff_mem] at hne
  exact hw.notMem (by simpa using List.all_eq_true.mp hblanks c hne) hc

theorem fenced (h : Bordered s) : Fenced w s :=
  .of_ends h.1 h.2 fun c hc => hw.notMem (by simpa using hc)

end IsName

/-! ## Codes that are put together -/

namespace MentionsOnly

theorem mono (hkinds : kinds ⊆ kinds') (h : MentionsOnly kinds s) : MentionsOnly kinds' s :=
  fun kind hkind => hkinds (h kind hkind)

/-- A code whose names occur in its parts mentions what they mention. -/
theorem of_parts (parts : List (List Char))
    (hparts : ∀ w, IsName w → w <:+: s → ∃ part ∈ parts, w <:+: part)
    (h : ∀ part ∈ parts, MentionsOnly kinds part) : MentionsOnly kinds s := by
  rintro kind ⟨name, hname, hin⟩
  obtain ⟨part, hpart, hin⟩ := hparts name.toList (isName_of_mem_names hname) hin
  exact h part hpart kind ⟨name, hname, hin⟩

theorem append_cons (hc : isNameMark c = false) (hs : MentionsOnly kinds s)
    (ht : MentionsOnly kinds t) : MentionsOnly kinds (s ++ c :: t) := by
  refine of_parts [s, t] (fun w hw hin => ?_) (by simp [hs, ht])
  rcases Text.infix_append_cons (hw.notMem hc) hin with hin | hin
  · exact ⟨s, by simp, hin⟩
  · exact ⟨t, by simp, hin⟩

theorem ofLines (h : ∀ l ∈ ls, MentionsOnly kinds l.toList) :
    MentionsOnly kinds (Text.ofLines ls).toList := by
  refine of_parts (ls.map String.toList) (fun w hw hin => ?_) (by simpa using h)
  obtain ⟨l, hl, hin⟩ := Text.infix_ofLines hw.ne_nil (hw.notMem (by decide)) hin
  exact ⟨l.toList, List.mem_map_of_mem hl, hin⟩

theorem indent {text : String} (h : MentionsOnly kinds text.toList) (levels : ℕ) :
    MentionsOnly kinds (Text.indent text levels).toList := by
  refine of_parts [text.toList] (fun w hw hin => ?_) (by simpa using h)
  exact ⟨_, List.mem_singleton_self _, Text.infix_of_infix_indent hw.ne_nil hw.ink hin⟩

/-- A text that is given by its characters. -/
theorem ofList {text : String} (htext : text = .ofList s) (h : MentionsOnly kinds s) :
    MentionsOnly kinds text.toList := by
  rwa [htext, String.toList_ofList]

/-- A filled template mentions what the template and the values mention. -/
theorem fill {template : String} {values : List (String × String)}
    (htemplate : MentionsOnly kinds template.toList)
    (hvalues : ∀ e ∈ values, Bordered e.2.toList ∧ MentionsOnly kinds e.2.toList) :
    MentionsOnly kinds (Text.fill template values).toList := by
  refine of_parts (template.toList :: values.map (·.2.toList)) (fun w hw hin => ?_) ?_
  · rcases Text.infix_of_infix_fill (fun e he => hw.fenced (hvalues e he).1) hin with hin | ⟨e, he, hin⟩
    · exact ⟨_, List.mem_cons_self, hin⟩
    · exact ⟨_, List.mem_cons_of_mem _ (List.mem_map_of_mem he), hin⟩
  · refine List.forall_mem_cons.mpr ⟨htemplate, fun part hpart => ?_⟩
    obtain ⟨e, he, rfl⟩ := List.mem_map.mp hpart
    exact (hvalues e he).2

/-- A code without marks of names mentions nothing. -/
theorem of_unmarked (h : Unmarked s) : MentionsOnly kinds s := by
  rintro kind ⟨name, hname, hin⟩
  exact absurd (h.infix_trans hin) (isName_of_mem_names hname).marked

theorem of_unmarked_ofList {text : String} (htext : text = .ofList s) (h : Unmarked s) :
    MentionsOnly kinds text.toList :=
  ofList htext (of_unmarked h)

/-- Lines that are given by their characters. -/
theorem ofLines_ofList (hlines : List.Forall₂ (fun s c => s = .ofList c) ls lines)
    (h : ∀ l ∈ lines, MentionsOnly kinds l) : MentionsOnly kinds (Text.ofLines ls).toList := by
  refine ofLines fun l hl => h _ ?_
  rw [← Text.map_toList_of_forall₂ hlines]
  exact List.mem_map_of_mem hl

/-- Lines that are given by their characters, without marks of names. -/
theorem of_unmarked_lines (hlines : List.Forall₂ (fun s c => s = .ofList c) ls lines)
    (h : ∀ l ∈ lines, Unmarked l) :
    MentionsOnly kinds (Text.ofLines ls).toList :=
  ofLines_ofList hlines fun l hl => of_unmarked (h l hl)

end MentionsOnly

theorem eq_ofList_append {a b : String} (ha : a = .ofList s) (hb : b = .ofList t) :
    a ++ b = .ofList (s ++ t) := by
  rw [ha, hb, String.ofList_append]

namespace MentionsOnly

theorem append {a b : String} (ha : a = .ofList s) (hlast : s.getLast? = some c)
    (hc : isNameMark c = false) (hs : MentionsOnly kinds s) (hb : MentionsOnly kinds b.toList) :
    MentionsOnly kinds (a ++ b).toList := by
  obtain ⟨init, rfl⟩ := List.getLast?_eq_some_iff.mp hlast
  have hinit : MentionsOnly kinds init := fun kind ⟨name, hname, hin⟩ =>
    hs kind ⟨name, hname, hin.trans (List.prefix_append _ _).isInfix⟩
  rw [ha, String.toList_append, String.toList_ofList, List.append_assoc, List.singleton_append]
  exact hinit.append_cons hc hb

theorem intercalate {separator : String} {parts : List String} (hne : separator.toList ≠ [])
    (hseparator : separator.toList.all (!isNameMark ·))
    (h : ∀ part ∈ parts, MentionsOnly kinds part.toList) :
    MentionsOnly kinds (String.intercalate separator parts).toList := by
  refine of_parts (parts.map String.toList) (fun w hw hin => ?_) (by simpa using h)
  rw [String.toList_intercalate] at hin
  refine Text.infix_intercalate hw.ne_nil hne (fun c hc => hw.notMem ?_) hin
  simpa using List.all_eq_true.mp hseparator c hc

end MentionsOnly

/-! ## Conversations -/

theorem mentionsOnly_agentHelpers (profile : Profile) :
    MentionsOnly kinds (agentHelpers profile).toList := by
  cases profile with
  | langgraph => exact .of_unmarked_ofList rfl (by decide)
  | strands => exact .of_unmarked_lines (by repeat' constructor) (by decide)

theorem mentionsOnly_buildAgent (profile : Profile) :
    MentionsOnly [.orchestration] (buildAgent profile).toList := by
  cases profile with
  | langgraph => exact .ofLines_ofList (by repeat' constructor) (by decide)
  | strands => exact .ofLines_ofList (by repeat' constructor) (by decide)

/-- A router asks its model with its template. -/
theorem mentionsOnly_routerDispatch (profile : Profile) :
    MentionsOnly [.routingClassifier]
      (routerDispatch (phrases profile).classify (phrases profile).history).toList := by
  refine .fill (.ofLines_ofList (by repeat' constructor) (by decide)) ?_
  have hvalue {text : String} {chars : List Char} (htext : text = .ofList chars)
      (hends : Bordered chars) (h : MentionsOnly [.routingClassifier] chars) :
      Bordered text.toList ∧ MentionsOnly [.routingClassifier] text.toList := by
    rw [htext, String.toList_ofList]
    exact ⟨hends, h⟩
  rw [List.forall_mem_cons, List.forall_mem_singleton]
  cases profile with
  | langgraph =>
      exact ⟨hvalue (eq_ofList_append rfl rfl) (by decide)
          (by decide),
        hvalue rfl (by decide) (.of_unmarked (by decide))⟩
  | strands =>
      exact ⟨hvalue (eq_ofList_append rfl rfl) (by decide)
          (by decide),
        hvalue rfl (by decide) (.of_unmarked (by decide))⟩

theorem forall_mem_if {α : Type} {P : α → Prop} {condition : Bool} {xs : List α}
    (h : condition = true → ∀ x ∈ xs, P x) : ∀ x ∈ (if condition then xs else []), P x := by
  split
  · next hcondition => exact h hcondition
  · exact List.forall_mem_nil _

namespace Conversation

variable (c : Conversation) (profile : Profile)

/-- The prompts of the steps that a conversation takes. -/
def promptKinds : List PromptKind :=
  [.orchestration] ++ (if c.isRouter then [.routingClassifier] else []) ++
    (if c.preProcessing then [.preProcessing] else []) ++
    (if c.postProcessing then [.postProcessing] else [])

theorem mentionsOnly_state : ∀ l ∈ c.state, MentionsOnly kinds l.toList := by
  rw [state, List.forall_mem_append]
  refine ⟨?_, forall_mem_if fun _ => ?_⟩
  · simp only [List.forall_mem_cons]
    and_intros
    · exact .of_unmarked_ofList rfl (by decide)
    · exact .of_unmarked_ofList rfl (by decide)
    · exact .of_unmarked_ofList rfl (by decide)
    · exact List.forall_mem_nil _
  · exact List.forall_mem_singleton.mpr (.of_unmarked_ofList rfl (by decide))

theorem mentionsOnly_synopsis (m : MemoryBinding) : MentionsOnly kinds m.synopsis.toList := by
  cases m with
  | disabled => exact .of_unmarked_ofList rfl (by decide)
  | managed id region => exact .of_unmarked_lines (by repeat' constructor) (by decide)
  | selfContained maxSessions maxDays storageFile => exact .of_unmarked_ofList rfl (by decide)

/-- The agent is built with the model and the template of the prompt that leads it. -/
theorem mentionsOnly_rebuild :
    ∀ l ∈ c.rebuild profile, MentionsOnly [.orchestration] l.toList := by
  simp only [rebuild, List.forall_mem_append]
  and_intros
  · split
    · exact List.forall_mem_nil _
    · exact List.forall_mem_singleton.mpr (mentionsOnly_synopsis c.memory)
  · exact List.forall_mem_singleton.mpr (.ofList rfl (by decide))
  · exact forall_mem_if fun _ =>
      List.forall_mem_singleton.mpr (.of_unmarked_ofList rfl (by decide))
  · exact List.forall_mem_singleton.mpr (mentionsOnly_buildAgent profile)

theorem mentionsOnly_getAgent : MentionsOnly [.orchestration] (c.getAgent profile).toList := by
  refine .ofLines ?_
  simp only [List.forall_mem_cons]
  and_intros
  · exact .of_unmarked_ofList rfl (by decide)
  · exact .of_unmarked_ofList rfl (by decide)
  · cases c.memory with
    | selfContained maxSessions maxDays storageFile =>
        exact .of_unmarked_ofList (eq_ofList_append (eq_ofList_append rfl rfl) rfl)
          (by decide)
    | disabled => exact .of_unmarked_ofList (eq_ofList_append (eq_ofList_append rfl rfl) rfl) (by decide)
    | managed id region =>
        exact .of_unmarked_ofList (eq_ofList_append (eq_ofList_append rfl rfl) rfl) (by decide)
  · exact .indent (.ofLines (c.mentionsOnly_rebuild profile)) 2
  · exact .of_unmarked_ofList rfl (by decide)
  · exact List.forall_mem_nil _

theorem mentionsOnly_recordTurn (m : MemoryBinding) :
    ∀ l ∈ (m.recordTurn? "user" "question").toList, MentionsOnly kinds l.toList := by
  cases m with
  | disabled => exact List.forall_mem_nil _
  | managed id region => exact List.forall_mem_nil _
  | selfContained maxSessions maxDays storageFile =>
      exact List.forall_mem_singleton.mpr (.of_unmarked (by decide))

theorem mentionsOnly_recordAnswer (m : MemoryBinding) :
    ∀ l ∈ (m.recordTurn? "assistant" (asText (phrases profile).latestResponse)).toList,
      MentionsOnly kinds l.toList := by
  cases m with
  | disabled => exact List.forall_mem_nil _
  | managed id region => exact List.forall_mem_nil _
  | selfContained maxSessions maxDays storageFile =>
      refine List.forall_mem_singleton.mpr (.of_unmarked ?_)
      cases profile <;> decide

theorem mentionsOnly_relay : MentionsOnly kinds (phrases profile).relay.toList := by
  cases profile with
  | langgraph => exact .of_unmarked_ofList rfl (by decide)
  | strands => exact .of_unmarked_ofList rfl (by decide)

theorem mentionsOnly_conversation : MentionsOnly kinds (phrases profile).conversation.toList := by
  cases profile with
  | langgraph => exact .of_unmarked_lines (by repeat' constructor) (by decide)
  | strands => exact .of_unmarked_ofList rfl (by decide)

theorem mentionsOnly_preProcess :
    MentionsOnly [.preProcessing] (phrases profile).preProcess.toList := by
  cases profile with
  | langgraph => exact .ofList (eq_ofList_append rfl rfl) (by decide)
  | strands => exact .ofList (eq_ofList_append rfl rfl) (by decide)

theorem mentionsOnly_run : MentionsOnly kinds (phrases profile).run.toList := by
  cases profile with
  | langgraph => exact .of_unmarked_ofList (eq_ofList_append rfl rfl) (by decide)
  | strands => exact .of_unmarked_lines (by repeat' constructor) (by decide)

theorem mentionsOnly_conclusion (h : c.postProcessing → .postProcessing ∈ kinds) :
    ∀ l ∈ c.conclusion (phrases profile), MentionsOnly kinds l.toList := by
  have hmono (hon : c.postProcessing = true) {l : List Char} (hl : MentionsOnly [.postProcessing] l) :
      MentionsOnly kinds l :=
    hl.mono (List.cons_subset.mpr ⟨h hon, List.nil_subset kinds⟩)
  unfold conclusion
  split
  · next hon =>
      rw [List.forall_mem_cons, List.forall_mem_singleton]
      cases profile with
      | langgraph =>
          exact ⟨hmono hon (.ofList (eq_ofList_append (eq_ofList_append (eq_ofList_append
              (eq_ofList_append (eq_ofList_append rfl rfl) rfl) rfl) rfl) rfl) (by decide)),
            hmono hon (.ofLines_ofList (by repeat' constructor) (by decide))⟩
      | strands =>
          exact ⟨hmono hon (.ofList (eq_ofList_append (eq_ofList_append (eq_ofList_append
              (eq_ofList_append (eq_ofList_append rfl rfl) rfl) rfl) rfl) rfl) (by decide)),
            hmono hon (.ofList rfl (by decide))⟩
  · refine List.forall_mem_singleton.mpr ?_
    cases profile with
    | langgraph => exact .of_unmarked_ofList rfl (by decide)
    | strands => exact .of_unmarked_ofList rfl (by decide)

/-- An answer is made with the prompts of the steps that the conversation takes. -/
theorem mentionsOnly_answer :
    ∀ l ∈ c.answer (phrases profile), MentionsOnly c.promptKinds l.toList := by
  simp only [answer, List.forall_mem_append, List.forall_mem_cons]
  and_intros
  · split
    · exact .of_unmarked_ofList (eq_ofList_append rfl rfl) (by decide)
    · exact .of_unmarked_ofList (eq_ofList_append rfl rfl) (by decide)
  · exact .of_unmarked_ofList rfl (by decide)
  · exact .of_unmarked_ofList rfl (by decide)
  · exact List.forall_mem_nil _
  · refine forall_mem_if fun _ => List.forall_mem_singleton.mpr ?_
    exact .append rfl rfl (by decide) (.of_unmarked (by decide))
      ((mentionsOnly_relay profile).indent 1)
  · refine forall_mem_if fun hrouter => ?_
    rw [List.forall_mem_cons, List.forall_mem_singleton]
    refine ⟨mentionsOnly_conversation profile, (mentionsOnly_routerDispatch profile).mono ?_⟩
    simp [promptKinds, hrouter]
  · refine forall_mem_if fun hpre => ?_
    rw [List.forall_mem_cons, List.forall_mem_singleton]
    refine ⟨(mentionsOnly_preProcess profile).mono ?_, ?_⟩
    · simp [promptKinds, hpre]
    · exact .of_unmarked_ofList (eq_ofList_append rfl rfl) (by decide)
  · exact mentionsOnly_recordTurn c.memory
  · exact mentionsOnly_run profile
  · exact List.forall_mem_nil _
  · exact mentionsOnly_recordAnswer profile c.memory
  · exact c.mentionsOnly_conclusion profile fun hpost => by simp [promptKinds, hpost]

/-- A conversation mentions the prompts of the steps that it takes. -/
theorem mentionsOnly_render : MentionsOnly c.promptKinds (c.render profile).toList := by
  refine .intercalate (by decide) (by decide) ?_
  simp only [List.forall_mem_cons]
  and_intros
  · exact mentionsOnly_agentHelpers profile
  · exact .ofLines c.mentionsOnly_state
  · exact (c.mentionsOnly_getAgent profile).mono (by simp [promptKinds])
  · have hbody := (MentionsOnly.ofLines (c.mentionsOnly_answer profile)).indent 1
    cases hrelay : c.acceptsRelay with
    | true =>
        rw [invokeAgent, signature, hrelay]
        exact .append (eq_ofList_append rfl rfl) rfl (by decide) (.of_unmarked (by decide)) hbody
    | false =>
        rw [invokeAgent, signature, hrelay]
        exact .append (eq_ofList_append rfl rfl) rfl (by decide) (.of_unmarked (by decide)) hbody
  · exact List.forall_mem_nil _

end Conversation

end Assembly

end AgentCompiler
