import AgentCompiler.Assembly.Interpreter
import AgentCompiler.Memory.Coordinator
import AgentCompiler.Proofs.Assembly.Mention
import AgentCompiler.Proofs.Name.Joined

/-!
# Names of prompts around literals

The code that opens the memory of a module and the one of the tool that runs code are templates with
literals in them. Outside of its literals the one mentions the prompt that sums up sessions, and the other
the prompt that leads the conversation. A literal may hold the marker of a value that is put in later: the
agent that writes code leaves the literal as it found it, and so does an identifier of a resource when it
is made as a name is.
-/

namespace AgentCompiler

open Assembly Code
open Text (marker fillChars replaceAll Fenced isPlainChar isMarkerChar)

variable {w s t v : List Char} {kinds : List PromptKind} {key key' : List Char} {places : List Place}

namespace Assembly

theorem MentionsOnly.of_imp (hs : MentionsOnly kinds s)
    (h : ∀ kind ∉ kinds, ∀ name ∈ kind.names, name.toList <:+: t → name.toList <:+: s) :
    MentionsOnly kinds t := by
  rintro kind ⟨name, hname, hin⟩
  by_contra hkind
  exact hkind (hs kind ⟨name, hname, h kind hkind name hname hin⟩)

/-- A word does not occur in a text that mentions other kinds of prompts only. -/
theorem MentionsOnly.absent {kind : PromptKind} {name : String} (hs : MentionsOnly kinds s)
    (hkind : kind ∉ kinds) (hname : name ∈ kind.names) : ¬name.toList <:+: s :=
  fun hin => hkind (hs kind ⟨name, hname, hin⟩)

/-! ## Values -/

theorem unmarked_of_isDigit {c : Char} (h : c.isDigit) :
    isNameMark c = false ∧ isMarkerChar c = false ∧ c ≠ '"' ∧ c ≠ '\\' := by
  have hbounds : 48 ≤ c.toNat ∧ c.toNat < 58 := by
    rw [Char.isDigit, Bool.and_eq_true, decide_eq_true_eq, decide_eq_true_eq] at h
    exact ⟨h.1, Nat.lt_succ_of_le h.2⟩
  have hall : ∀ n < 58, 48 ≤ n → isNameMark (.ofNat n) = false ∧ isMarkerChar (.ofNat n) = false ∧
      Char.ofNat n ≠ '"' ∧ Char.ofNat n ≠ '\\' := by decide
  rw [← Char.ofNat_toNat c]
  exact hall _ hbounds.2 hbounds.1

/-- A character of a cleaned name stands for itself in a literal, and is no capital. -/
theorem isKeyChar_spec {c : Char} (h : Name.isKeyChar c) : escapeChar c = [c] ∧ c.isUpper = false := by
  have hascii : c.toNat < 128 := by
    rw [Name.isKeyChar, Name.isWordChar, Bool.or_eq_true, Bool.or_eq_true] at h
    rcases h with (h | h) | h
    · delta Char.isLower at h
      rw [Bool.and_eq_true, decide_eq_true_eq, decide_eq_true_eq] at h
      exact lt_of_le_of_lt h.2 (by decide)
    · rw [Char.isDigit, Bool.and_eq_true, decide_eq_true_eq, decide_eq_true_eq] at h
      exact lt_of_le_of_lt h.2 (by decide)
    · rw [eq_of_beq h]
      decide
  have hall : ∀ n < 128, Name.isKeyChar (.ofNat n) →
      escapeChar (.ofNat n) = [.ofNat n] ∧ (Char.ofNat n).isUpper = false := by decide
  have hc := hall c.toNat hascii
  rw [Char.ofNat_toNat] at hc
  exact hc h

namespace IsName

variable (hw : IsName w)
include hw

theorem quote_notMem : '"' ∉ w := hw.notMem (by decide)

/-- A value of characters that neither names nor markers have. -/
theorem inert_of_forall (hne : v ≠ [])
    (hv : ∀ c ∈ v, isNameMark c = false ∧ isMarkerChar c = false ∧ c ≠ '"' ∧ c ≠ '\\') : Inert w v where
  fenced := .of_forall hne fun c hc => hw.notMem (hv c hc).1
  stays := by
    rw [List.forall_mem_singleton]
    exact after_of_plain (by decide) fun c hc => (hv c hc).2.2
  free := by
    rw [List.forall_mem_singleton]
    intro hin
    obtain ⟨c, hc⟩ := List.exists_mem_of_ne_nil w hw.ne_nil
    have hmem := (infix_of_infix_bareFrom hw.quote_notMem hin).subset hc
    exact hw.notMem (hv c hmem).1 hc
  braceless hmem := absurd (hv _ hmem).2.1 (by decide)
  apart key hkey := .of_forall hne fun c hc => notMem_marker hkey (hv c hc).2.1

theorem inert_natural (n : ℕ) : Inert w (Decimal.natural n).toList := by
  rw [Decimal.natural, String.toList_ofList]
  refine hw.inert_of_forall Nat.toDigits_ne_nil fun c hc => unmarked_of_isDigit ?_
  exact Nat.isDigit_of_mem_toDigits (by decide) (by decide) hc

theorem inert_quoteChars (h : '{' ∉ quoteChars s) : Inert w (quoteChars s) where
  toQuiet := quiet_quoteChars hw.ne_nil hw.quote_notMem s
  braceless := h
  apart _ hkey := fenced_quoteChars (notMem_marker hkey rfl) s

/-- A literal that is made as cleaned names are may stand inside of texts as well: it closes the text, and
opens it again. -/
theorem quiet_quoteChars_key (hs : ∀ c ∈ s, Name.isKeyChar c) :
    Quiet w [.code, .text] (quoteChars s) := by
  have hplain : ∀ c ∈ s, c ≠ '"' ∧ c ≠ '\\' := fun c hc =>
    ⟨fun heq => absurd (heq ▸ hs c hc) (by decide), fun heq => absurd (heq ▸ hs c hc) (by decide)⟩
  have hsame : s.flatMap escapeChar = s := by
    rw [List.flatMap_congr fun c hc => (isKeyChar_spec (hs c hc)).1, List.flatMap_singleton']
  obtain ⟨hfenced, hstays, hfree⟩ := quiet_quoteChars hw.ne_nil hw.quote_notMem s
  rw [List.forall_mem_singleton] at hstays hfree
  refine ⟨hfenced, ?_, ?_⟩
  · refine List.forall_mem_cons.mpr ⟨hstays, List.forall_mem_singleton.mpr ?_⟩
    show Place.code.after (s.flatMap escapeChar ++ ['"']) = .text
    rw [hsame, after_append, after_of_plain (by decide) hplain]
    rfl
  · refine List.forall_mem_cons.mpr ⟨hfree, List.forall_mem_singleton.mpr fun hin => ?_⟩
    have hin := infix_of_infix_bareFrom hw.quote_notMem hin
    obtain ⟨c, hc, hupper⟩ := List.any_eq_true.mp hw.capital
    have hmem := hin.subset hc
    rw [quoteChars, hsame] at hmem
    rcases List.mem_append.mp hmem with hmem | hmem
    · rcases List.mem_cons.mp hmem with rfl | hmem
      · exact absurd hupper (by decide)
      · rw [(isKeyChar_spec (hs c hmem)).2] at hupper
        cases hupper
    · rw [List.mem_singleton.mp hmem] at hupper
      exact absurd hupper (by decide)

end IsName

/-- A text without marks of names and braces, behind which there is code. Neither names nor markers have the
characters at its ends. -/
structure Settled (s : List Char) : Prop where
  first : s.head?.any fun c => !isNameMark c && !isMarkerChar c
  last : s.getLast?.any fun c => !isNameMark c && !isMarkerChar c
  braceless : '{' ∉ s
  closed : Place.code.after s = .code
  unmarked : Unmarked s

instance (s : List Char) : Decidable (Settled s) :=
  decidable_of_iff (_ ∧ _ ∧ _ ∧ _ ∧ _)
    ⟨fun ⟨h₁, h₂, h₃, h₄, h₅⟩ => ⟨h₁, h₂, h₃, h₄, h₅⟩,
      fun h => ⟨h.first, h.last, h.braceless, h.closed, h.unmarked⟩⟩

theorem Settled.inert (h : Settled s) (hw : IsName w) : Inert w s where
  fenced := .of_ends h.first h.last fun c hc => hw.notMem (by simp at hc; exact hc.1)
  stays := List.forall_mem_singleton.mpr h.closed
  free := by
    rw [List.forall_mem_singleton]
    intro hin
    exact hw.marked (h.unmarked.infix_trans (infix_of_infix_bareFrom hw.quote_notMem hin))
  braceless := h.braceless
  apart _ hkey := .of_ends h.first h.last fun c hc => notMem_marker hkey (by simp at hc; exact hc.2)

/-! ## Templates -/

/-- A template whose markers of some names stand at places of code, and which mentions some kinds of
prompts only outside of its texts. -/
structure Template (kinds : List PromptKind) (keys : List (List Char)) (s : List Char) : Prop where
  sits : ∀ key ∈ keys, key.all isPlainChar ∧ Sits key [.code] .code s
  mentions : MentionsOnly kinds (bareFrom .code s)

namespace Template

variable {ls : List String} {lines keys : List (List Char)}

theorem of_lines (hlines : List.Forall₂ (fun s c => s = .ofList c) ls lines)
    (hsits : ∀ key ∈ keys, key.all isPlainChar ∧ Sits key [.code] .code (Text.joinLines lines))
    (hmentions : MentionsOnly kinds (bareFrom .code (Text.joinLines lines))) :
    Template kinds keys (Text.ofLines ls).toList :=
  Text.of_ofLines (P := Template kinds keys) hlines ⟨hsits, hmentions⟩

/-- Inert values leave a template for the names that are still to be filled. -/
theorem fill {values : List (List Char × List Char)}
    (h : Template kinds (values.map Prod.fst ++ keys) s)
    (hvalues : ∀ e ∈ values, ∀ w, IsName w → Inert w e.2) : Template kinds keys (fillChars s values) := by
  have hinert {w : List Char} (hw : IsName w) :=
    fillChars_inert hw.quote_notMem fun e he =>
      have ⟨hplain, hsits⟩ := h.sits e.1 (List.mem_append_left _ (List.mem_map_of_mem he))
      ⟨hplain, hvalues e he w hw, hsits⟩
  refine ⟨fun key hkey => ?_, ?_⟩
  · obtain ⟨hplain, hsits⟩ := h.sits key (List.mem_append_right _ hkey)
    have hname : IsName PromptKind.orchestration.handle.toList :=
      isName_of_mem_names List.mem_cons_self
    exact ⟨hplain, (hinert hname).2 key _ hplain hsits⟩
  · exact h.mentions.of_imp fun kind _ name hname => (hinert (isName_of_mem_names hname)).1

/-- A literal mentions nothing. -/
theorem replaceAll (h : Template kinds [key] s) (text : List Char) :
    MentionsOnly kinds (bareFrom .code (replaceAll (marker key) (quoteChars text) s)) := by
  obtain ⟨hplain, hsits⟩ := h.sits key (List.mem_singleton_self key)
  refine h.mentions.of_imp fun kind _ name hname => ?_
  have hw := isName_of_mem_names hname
  exact infix_of_infix_bareFrom_replaceAll hplain hw.quote_notMem (by decide)
    (quiet_quoteChars hw.ne_nil hw.quote_notMem text) hsits

/-- A literal mentions nothing, and neither does a value that is put in behind it and may take the place
of markers in the literal. -/
theorem replaceAll_pair {kinds' : List PromptKind} (h : Template kinds [key, key'] s)
    (hkinds : kinds ⊆ kinds') (hcode : .code ∈ places) (hescape : .escape ∉ places) (text : List Char)
    (htext : Sits key' places .code (quoteChars text))
    (hv : ∀ kind ∉ kinds', ∀ name ∈ kind.names, Quiet name.toList places v) :
    MentionsOnly kinds' (bareFrom .code
      (Text.replaceAll (marker key') v (Text.replaceAll (marker key) (quoteChars text) s))) := by
  obtain ⟨hplain, hsits⟩ := h.sits key List.mem_cons_self
  obtain ⟨hplain', hsits'⟩ := h.sits key' (List.mem_cons_of_mem _ List.mem_cons_self)
  have hfirst : Template kinds [key] s :=
    ⟨List.forall_mem_singleton.mpr ⟨hplain, hsits⟩, h.mentions⟩
  have hplaces : Sits key' places .code (Text.replaceAll (marker key) (quoteChars text) s) := by
    refine hsits.replaceAll hplain hplain' (by decide) (by simpa using after_quoteChars text)
      (fenced_quoteChars (notMem_marker hplain' rfl) text) (by simpa using htext) ?_
    exact hsits'.mono (List.cons_subset.mpr ⟨hcode, List.nil_subset _⟩)
  refine ((hfirst.replaceAll text).mono hkinds).of_imp fun kind hkind name hname => ?_
  exact infix_of_infix_bareFrom_replaceAll hplain' (isName_of_mem_names hname).quote_notMem hescape
    (hv kind hkind name hname) hplaces

end Template

/-! ## The tool that runs code -/

theorem template_localInterpreterText :
    Template [] (["doc", "model"].map String.toList) localInterpreterText.toList :=
  .of_lines (by repeat' constructor) (by decide +kernel) (.of_unmarked (by decide +kernel))

theorem template_managedInterpreterText :
    Template [] (["doc", "region", "coding_agent"].map String.toList) managedInterpreterText.toList :=
  .of_lines (by repeat' constructor) (by decide +kernel) (.of_unmarked (by decide +kernel))

theorem settled_codeToolDoc : Settled codeToolDoc.toList :=
  Text.of_ofLines (P := Settled) (by repeat' constructor) (by decide +kernel)

theorem bordered_codingAgent (profile : Profile) :
    Bordered (Text.indent (codingAgent profile) 2).toList := by
  rw [Text.indent, String.toList_ofList]
  cases profile with
  | langgraph =>
      exact Text.of_ofLines (P := fun s => Bordered (Text.joinLines (Text.indentLines 2 (Text.lines s))))
        (by repeat' constructor) (by decide)
  | strands =>
      exact Text.of_ofLines (P := fun s => Bordered (Text.joinLines (Text.indentLines 2 (Text.lines s))))
        (by repeat' constructor) (by decide)

/-- The agent that writes code closes the texts that it opens. -/
theorem stays_codingAgent (profile : Profile) :
    ∀ q ∈ [Place.code, .text], q.after (Text.indent (codingAgent profile) 2).toList = q := by
  have hcheck : ∀ q ∈ [Place.code, .text], q.after
      (Text.joinLines (Text.indentLines 2 (Text.lines (codingAgent profile).toList))) = q := by
    cases profile with
    | langgraph =>
        exact Text.of_ofLines (P := fun s => ∀ q ∈ [Place.code, .text],
          q.after (Text.joinLines (Text.indentLines 2 (Text.lines s))) = q)
          (by repeat' constructor) (by decide +kernel)
    | strands =>
        exact Text.of_ofLines (P := fun s => ∀ q ∈ [Place.code, .text],
          q.after (Text.joinLines (Text.indentLines 2 (Text.lines s))) = q)
          (by repeat' constructor) (by decide +kernel)
  rwa [Text.indent, String.toList_ofList]

/-- The agent that writes code has no names but those of the prompt that leads the conversation. -/
theorem quiet_codingAgent {kind : PromptKind} {name : String} (profile : Profile)
    (hkind : kind ∉ [PromptKind.orchestration]) (hname : name ∈ kind.names) :
    Quiet name.toList [.code, .text] (Text.indent (codingAgent profile) 2).toList := by
  have hmentions : MentionsOnly [.orchestration] (codingAgent profile).toList := by
    cases profile with
    | langgraph => exact .ofLines_ofList (by repeat' constructor) (by decide)
    | strands => exact .ofLines_ofList (by repeat' constructor) (by decide)
  have hw := isName_of_mem_names hname
  refine ⟨hw.fenced (bordered_codingAgent profile), stays_codingAgent profile, fun q _ hin => ?_⟩
  exact (hmentions.indent 2).absent hkind hname (infix_of_infix_bareFrom hw.quote_notMem hin)

theorem toList_quote (text : String) : (Code.quote text).toList = quoteChars text.toList := by
  rw [Code.quote, String.toList_ofList]

/-- The tool that runs code mentions the prompt that leads the conversation at most, whatever the model
and the region are called. -/
theorem mentionsOnly_interpreterCode (profile : Profile) (managed : Bool) (model : Model.Resolved)
    (region : String) :
    MentionsOnly [.orchestration] (bare (interpreterCode profile managed model region)) := by
  have hinert {doc : String} (h : Settled doc.toList) :
      ∀ e ∈ Text.toChars [("doc", doc)], ∀ w, IsName w → Inert w e.2 := by
    intro e he w hw
    rw [List.mem_singleton.mp he]
    exact h.inert hw
  have hdoc := hinert settled_codeToolDoc
  rw [bare, interpreterCode]
  split
  · have hcode : Template [] ["region".toList, "coding_agent".toList]
        (fillChars managedInterpreterText.toList (Text.toChars [("doc", codeToolDoc)])) :=
      template_managedInterpreterText.fill hdoc
    have hregion : Sits "coding_agent".toList [.code, .text] .code (quoteChars region.toList) :=
      .quoteChars (notMem_marker (by decide) rfl) (by decide) _
    have hpair := hcode.replaceAll_pair (List.nil_subset _) (by decide) (by decide) region.toList
      hregion fun kind hkind name hname => quiet_codingAgent profile hkind hname
    have hfirst := Text.fillChars_concat managedInterpreterText.toList [("doc", codeToolDoc)] "region"
      (Code.quote region)
    have hlast := Text.fillChars_concat managedInterpreterText.toList
      [("doc", codeToolDoc), ("region", Code.quote region)] "coding_agent"
      (Text.indent (codingAgent profile) 2)
    rw [toList_quote] at hfirst
    rw [← hfirst] at hpair
    rw [Text.toList_fill]
    exact hlast ▸ hpair
  · have hcode : Template [] ["model".toList]
        (fillChars localInterpreterText.toList (Text.toChars [("doc", codeToolDoc)])) :=
      template_localInterpreterText.fill hdoc
    have hmodel := hcode.replaceAll ("bedrock/" ++ model.modelId).toList
    have hlast := Text.fillChars_concat localInterpreterText.toList [("doc", codeToolDoc)] "model"
      (Code.quote ("bedrock/" ++ model.modelId))
    rw [toList_quote] at hlast
    rw [← hlast] at hmodel
    rw [Text.toList_fill]
    exact hmodel.mono (List.nil_subset _)

/-! ## The memory -/

theorem template_managerText :
    Template [.memorySummarization]
      (["max_sessions", "max_days", "platform", "storage_file"].map String.toList)
      MemoryBinding.managerText.toList :=
  .of_lines (by repeat' constructor) (by decide +kernel) (by decide +kernel)

theorem template_managedText :
    Template [] (["region", "memory_id"].map String.toList) MemoryBinding.managedText.toList :=
  .of_lines (by repeat' constructor) (by decide) (.of_unmarked (by decide))

/-- A manager mentions the prompt that sums up sessions, whatever its file is called. -/
theorem mentionsOnly_selfContained (profile : Profile) (maxSessions maxDays : ℕ) (storageFile : String) :
    MentionsOnly [.memorySummarization]
      (bare ((MemoryBinding.selfContained maxSessions maxDays storageFile).render profile.platform)) := by
  have hplatform : '{' ∉ quoteChars profile.platform.toList := by cases profile <;> decide
  have hvalues : ∀ e ∈ Text.toChars [("max_sessions", Decimal.natural maxSessions),
      ("max_days", Decimal.natural maxDays), ("platform", Code.quote profile.platform)],
      ∀ w, IsName w → Inert w e.2 := by
    simp only [Text.toChars, List.map_cons, List.map_nil, List.forall_mem_cons, toList_quote]
    exact ⟨fun w hw => hw.inert_natural _, fun w hw => hw.inert_natural _,
      fun w hw => hw.inert_quoteChars hplatform, List.forall_mem_nil _⟩
  have hcode : Template [.memorySummarization] ["storage_file".toList]
      (fillChars MemoryBinding.managerText.toList (Text.toChars
        [("max_sessions", Decimal.natural maxSessions), ("max_days", Decimal.natural maxDays),
          ("platform", Code.quote profile.platform)])) :=
    template_managerText.fill hvalues
  have hfile := hcode.replaceAll storageFile.toList
  have hlast := Text.fillChars_concat MemoryBinding.managerText.toList
    [("max_sessions", Decimal.natural maxSessions), ("max_days", Decimal.natural maxDays),
      ("platform", Code.quote profile.platform)] "storage_file" (Code.quote storageFile)
  rw [toList_quote] at hlast
  rw [← hlast] at hfile
  rw [bare, MemoryBinding.render, Text.toList_fill]
  exact hfile

/-- A resource mentions no prompt. Where the region holds the marker of the identifier, that is so for
identifiers that are made as cleaned names are. -/
theorem mentionsOnly_managed {id region : String} (platform : String)
    (h : ¬marker "memory_id".toList <:+: region.toList ∨ ∀ c ∈ id.toList, Name.isKeyChar c) :
    MentionsOnly [] (bare ((MemoryBinding.managed id region).render platform)) := by
  have hplain : "memory_id".toList.all isPlainChar := by decide
  have hpair : MentionsOnly [] (bareFrom .code (replaceAll (marker "memory_id".toList)
      (quoteChars id.toList) (replaceAll (marker "region".toList) (quoteChars region.toList)
        MemoryBinding.managedText.toList))) := by
    rcases h with hregion | hid
    · have hsits : Sits "memory_id".toList [.code] .code (quoteChars region.toList) := by
        refine Sits.of_not_infix (fun hin => hregion ?_) _
        exact marker_infix_of_quoteChars (notMem_marker hplain rfl) (notMem_marker hplain rfl) hin
      refine template_managedText.replaceAll_pair (List.nil_subset _) (by decide) (by decide)
        region.toList hsits fun kind _ name hname => ?_
      have hw := isName_of_mem_names hname
      exact quiet_quoteChars hw.ne_nil hw.quote_notMem _
    · have hsits : Sits "memory_id".toList [.code, .text] .code (quoteChars region.toList) :=
        .quoteChars (notMem_marker hplain rfl) (by decide) _
      exact template_managedText.replaceAll_pair (List.nil_subset _) (by decide) (by decide)
        region.toList hsits fun kind _ name hname => (isName_of_mem_names hname).quiet_quoteChars_key hid
  have hfirst := Text.fillChars_concat MemoryBinding.managedText.toList [] "region" (Code.quote region)
  have hlast := Text.fillChars_concat MemoryBinding.managedText.toList [("region", Code.quote region)]
    "memory_id" (Code.quote id)
  rw [toList_quote, Text.fillChars_nil] at hfirst
  rw [toList_quote] at hlast
  rw [← hfirst] at hpair
  rw [bare, MemoryBinding.render, Text.toList_fill]
  exact hlast ▸ hpair

/-! ## Session coordinators -/

namespace MentionsOnly

/-- What a text does not mention, its code does not mention. -/
theorem bare {text : String} (h : MentionsOnly kinds text.toList) : MentionsOnly kinds (bare text) :=
  h.of_imp fun _ _ _ hname => infix_of_infix_bareFrom (isName_of_mem_names hname).quote_notMem

/-- Names have capitals. -/
theorem of_lower (h : ∀ c ∈ s, c.isUpper = false) : MentionsOnly kinds s := by
  rintro kind ⟨name, hname, hin⟩
  obtain ⟨c, hc, hupper⟩ := List.any_eq_true.mp (isName_of_mem_names hname).capital
  rw [h c (hin.subset hc)] at hupper
  cases hupper

end MentionsOnly

/-- The function that binds a module to a coordinator mentions no prompt. -/
theorem mentionsOnly_coordinatorBinding (registers : Bool) {children : List String}
    (hchildren : ∀ child ∈ children, ∀ c ∈ child.toList, Name.isKeyChar c) :
    MentionsOnly kinds (bare (Memory.coordinatorBinding registers children)) := by
  have hchild : ∀ child ∈ children,
      MentionsOnly kinds ("    " ++ child ++ "(coordinator)").toList := by
    intro child hmem
    have hends : ("    " : String).toList.all (!·.isUpper) ∧
        ("(coordinator)" : String).toList.all (!·.isUpper) := by decide
    refine .of_lower fun c hc => ?_
    rw [String.toList_append, String.toList_append, List.mem_append, List.mem_append] at hc
    rcases hc with (hc | hc) | hc
    · simpa using List.all_eq_true.mp hends.1 c hc
    · exact (isKeyChar_spec (hchildren child hmem c hc)).2
    · simpa using List.all_eq_true.mp hends.2 c hc
  have hstatements {ls : List String} (h : ∀ l ∈ ls, MentionsOnly kinds l.toList) :
      ∀ l ∈ (if ls.isEmpty then ["    pass"] else ls), MentionsOnly kinds l.toList := by
    split
    · exact List.forall_mem_singleton.mpr (.of_unmarked_ofList rfl (by decide))
    · exact h
  refine MentionsOnly.bare (.ofLines (List.forall_mem_cons.mpr ⟨?_, ?_⟩))
  · exact .of_unmarked_ofList rfl (by decide)
  · refine hstatements (List.forall_mem_append.mpr ⟨?_, List.forall_mem_map.mpr hchild⟩)
    exact forall_mem_if fun _ => List.forall_mem_singleton.mpr (.of_unmarked_ofList rfl (by decide))

end Assembly

end AgentCompiler
