import AgentCompiler.Proofs.Code.Bare
import AgentCompiler.Proofs.Code.ReadBack
import AgentCompiler.Proofs.Name.Class
import AgentCompiler.Proofs.Typing.Order
import AgentCompiler.Typing.Render

/-!
# Types read back from annotations

The annotation of a type is a word, behind which brackets may stand. A declaration is its own word, so
an annotation says which type it stands for as long as no declaration has the word of another type:
`injOn_hint_iff`.
-/

namespace AgentCompiler

/-! ## Literals in front of a rest -/

namespace Code

/-- The characters in front of the first quote that no backslash escapes. -/
def untilQuote : List Char → List Char
  | [] => []
  | '\\' :: c :: cs => '\\' :: c :: untilQuote cs
  | '"' :: _ => []
  | c :: cs => c :: untilQuote cs

/-- Characters that are no quotes and no backslashes are passed over. -/
theorem untilQuote_append {s : List Char} (h : ∀ c ∈ s, c ≠ '"' ∧ c ≠ '\\') (rest : List Char) :
    untilQuote (s ++ rest) = s ++ untilQuote rest := by
  induction s with
  | nil => rfl
  | cons c s ih =>
      obtain ⟨⟨hquote, hslash⟩, hs⟩ := List.forall_mem_cons.mp h
      rw [List.cons_append, List.cons_append, ← ih hs, untilQuote]
      · exact fun _ _ hc => absurd hc hslash
      · exact hquote

/-- The first quote that is not escaped is the one behind the text. -/
theorem untilQuote_flatMap_escapeChar (s rest : List Char) :
    untilQuote (s.flatMap escapeChar ++ '"' :: rest) = s.flatMap escapeChar := by
  induction s with
  | nil => rfl
  | cons c s ih =>
      rw [List.flatMap_cons, List.append_assoc]
      rcases escapeChar_cases c with ⟨hsame, hc⟩ | ⟨d, digits, hescape, -, hdigits⟩
      · rw [hsame, untilQuote_append (List.forall_mem_singleton.mpr hc), ih]
      · have hplain : ∀ e ∈ digits, e ≠ '"' ∧ e ≠ '\\' := fun e he =>
          ⟨(hdigits e he).1, (hdigits e he).2.1⟩
        rw [hescape, List.cons_append, List.cons_append, List.cons_append, List.cons_append,
          untilQuote, untilQuote_append hplain, ih]

/-- A literal can be taken from the start of a text in one way. -/
theorem quoteChars_append_inj {s t rest rest' : List Char}
    (h : quoteChars s ++ rest = quoteChars t ++ rest') : s = t ∧ rest = rest' := by
  have hbody : s.flatMap escapeChar ++ '"' :: rest = t.flatMap escapeChar ++ '"' :: rest' := by
    simpa [quoteChars] using h
  have hescaped := congrArg untilQuote hbody
  rw [untilQuote_flatMap_escapeChar, untilQuote_flatMap_escapeChar] at hescaped
  have hquote : literal (.str (.ofList s)) = literal (.str (.ofList t)) := by
    simp only [literal, literalChars, scalarChars, quoteChars, String.toList_ofList, hescaped]
  have hread := congrArg Display.read hquote
  rw [(Display.read_literal (.str _)).1, (Display.read_literal (.str _)).1] at hread
  refine ⟨String.ofList_injective (Json.str.inj (Option.some.inj hread)), ?_⟩
  rw [hescaped] at hbody
  exact (List.cons_eq_cons.mp (List.append_cancel_left hbody)).2

end Code

/-! ## Words of types -/

namespace TypeExpr

open Name (isInner)

/-- The word that the annotation of a type starts with. -/
def word : TypeExpr → String
  | text => "str"
  | integer => "int"
  | real => "float"
  | truth => "bool"
  | none => "None"
  | any => "Any"
  | map => "Dict"
  | list _ => "List"
  | literal _ => "Literal"
  | named name => name
  | union _ => "Union"

/-- What stands in the brackets behind the word; nothing where there are no brackets. -/
def inBrackets : TypeExpr → Option (List Char)
  | map => some "str, Any".toList
  | list item => some item.hint.toList
  | literal value => some (Code.quoteChars value.toList)
  | union variants => some (List.intercalate [',', ' '] ((hints variants).map String.toList))
  | text | integer | real | truth | none | any | named _ => Option.none

/-- What stands behind the word. -/
def brackets (t : TypeExpr) : List Char :=
  match t.inBrackets with
  | some inner => '[' :: inner ++ [']']
  | Option.none => []

theorem brackets_of_eq_none {t : TypeExpr} (h : t.inBrackets = Option.none) : t.brackets = [] := by
  rw [brackets, h]

theorem brackets_of_eq_some {t : TypeExpr} {inner : List Char} (h : t.inBrackets = some inner) :
    t.brackets = '[' :: (inner ++ [']']) := by
  rw [brackets, h]
  rfl

theorem toList_hint (t : TypeExpr) : t.hint.toList = t.word.toList ++ t.brackets := by
  cases t <;> simp [hint, word, brackets, inBrackets, Code.quote, String.toList_intercalate]

/-- The rest of an annotation behind one of the types in it. -/
def Closes (rest : List Char) : Prop := ∀ c ∈ rest.head?, c = ',' ∨ c = ']'

/-- A type whose annotation no other type can have: every declaration that it mentions has the shape of
a class, and not the word of a type without brackets. -/
def Unmistakable (t : TypeExpr) : Prop :=
  ∀ name ∈ t.names, Name.IsClass name ∧ name ≠ "Any" ∧ name ≠ "None"

theorem unmistakable_union {ts : List TypeExpr} :
    Unmistakable (.union ts) ↔ ∀ t ∈ ts, Unmistakable t := by
  simp only [Unmistakable, names, mem_namesAll]
  constructor
  · exact fun h t ht name hname => h name ⟨t, ht, hname⟩
  · rintro h name ⟨t, ht, hname⟩
    exact h t ht name hname

/-- The words of types that are no declarations. -/
def builtinWords : List String :=
  ["str", "int", "float", "bool", "None", "Any", "Dict", "List", "Literal", "Union"]

theorem word_mem_or_named (t : TypeExpr) : t.word ∈ builtinWords ∨ ∃ name, t = named name := by
  cases t with
  | named name => exact .inr ⟨name, rfl⟩
  | text | integer | real | truth | none | any | map | list _ | literal _ | union _ =>
      refine .inl ?_
      simp [word, builtinWords]

theorem word_spec {t : TypeExpr} (h : Unmistakable t) :
    t.word.toList ≠ [] ∧ ∀ c ∈ t.word.toList, isInner c := by
  rcases word_mem_or_named t with hmem | ⟨name, rfl⟩
  · have hbuiltin : ∀ w ∈ builtinWords, w.toList ≠ [] ∧ w.toList.all isInner := by decide +kernel
    obtain ⟨hne, hall⟩ := hbuiltin _ hmem
    exact ⟨hne, List.all_eq_true.mp hall⟩
  · obtain ⟨⟨⟨c, hc, -⟩, hchars, -⟩, -⟩ := h name List.mem_cons_self
    refine ⟨fun hnil => ?_, hchars⟩
    simp only [word] at hnil
    rw [hnil] at hc
    cases hc

/-- The type without brackets that a word stands for. -/
def ofWord (word : String) : TypeExpr :=
  match word with
  | "str" => text
  | "int" => integer
  | "float" => real
  | "bool" => truth
  | "None" => none
  | "Any" => any
  | name => named name

theorem ofWord_word {t : TypeExpr} (h : Unmistakable t) (hnone : t.inBrackets = Option.none) :
    ofWord t.word = t := by
  cases t with
  | named name =>
      obtain ⟨⟨⟨c, hc, hupper⟩, -, -⟩, hany, hnothing⟩ := h name List.mem_cons_self
      -- The other words start with a small letter.
      have hsmall (small : String) (hsmall : small.toList.head?.any Char.isUpper = false) :
          name ≠ small := by
        rintro rfl
        rw [Option.mem_def.mp hc, Option.any_some, hupper] at hsmall
        cases hsmall
      have hstr := hsmall "str" (by decide)
      have hint := hsmall "int" (by decide)
      have hfloat := hsmall "float" (by decide)
      have hbool := hsmall "bool" (by decide)
      simp only [word]
      unfold ofWord
      split <;> simp_all
  | text | integer | real | truth | none | any => rfl
  | map | list _ | literal _ | union _ => cases hnone

/-! ## One annotation in front of a rest -/

/-- A word ends where a character stands that belongs to no word. -/
theorem word_append_inj {w w' rest rest' : List Char} (hw : ∀ c ∈ w, isInner c)
    (hw' : ∀ c ∈ w', isInner c) (hrest : ∀ c ∈ rest.head?, isInner c = false)
    (hrest' : ∀ c ∈ rest'.head?, isInner c = false) (h : w ++ rest = w' ++ rest') :
    w = w' ∧ rest = rest' := by
  have hends {w more rest : List Char} (hmore : ∀ c ∈ w ++ more, isInner c)
      (hrest : ∀ c ∈ (more ++ rest).head?, isInner c = false) : more = [] := by
    cases more with
    | nil => rfl
    | cons c more =>
        have hinner := hmore c (List.mem_append_right _ List.mem_cons_self)
        rw [hrest c rfl] at hinner
        cases hinner
  rcases List.append_eq_append_iff.mp h with ⟨more, rfl, rfl⟩ | ⟨more, rfl, rfl⟩
  · obtain rfl := hends hw' hrest
    simp
  · obtain rfl := hends hw hrest'
    simp

theorem isInner_of_closes {t : TypeExpr} {rest : List Char} (h : Closes rest) :
    ∀ c ∈ (t.brackets ++ rest).head?, isInner c = false := by
  intro c hc
  cases hinner : t.inBrackets with
  | none =>
      rw [brackets_of_eq_none hinner] at hc
      rcases h c hc with rfl | rfl <;> rfl
  | some inner =>
      rw [brackets_of_eq_some hinner] at hc
      cases hc
      rfl

theorem not_closes_bracket (rest : List Char) : ¬Closes ('[' :: rest) := by
  intro h
  rcases h '[' rfl with h | h <;> exact absurd h (by decide)

/-- Two annotations in front of their rests can only be the same text when they are those of one type
without brackets, or have the same word and what is in their brackets goes on alike. -/
theorem hint_append_cases {t t' : TypeExpr} {rest rest' : List Char} (h : Unmistakable t)
    (h' : Unmistakable t') (hrest : Closes rest) (hrest' : Closes rest')
    (heq : t.hint.toList ++ rest = t'.hint.toList ++ rest') :
    t.inBrackets = Option.none ∧ t = t' ∧ rest = rest' ∨
      ∃ inner inner', t.inBrackets = some inner ∧ t'.inBrackets = some inner' ∧ t.word = t'.word ∧
        inner ++ ']' :: rest = inner' ++ ']' :: rest' := by
  rw [toList_hint, toList_hint, List.append_assoc, List.append_assoc] at heq
  obtain ⟨hword, hbrackets⟩ := word_append_inj (word_spec h).2 (word_spec h').2
    (isInner_of_closes hrest) (isInner_of_closes hrest') heq
  rw [String.toList_inj] at hword
  cases hinner : t.inBrackets with
  | none =>
      rw [brackets_of_eq_none hinner, List.nil_append] at hbrackets
      cases hinner' : t'.inBrackets with
      | none =>
          rw [brackets_of_eq_none hinner', List.nil_append] at hbrackets
          refine .inl ⟨rfl, ?_, hbrackets⟩
          rw [← ofWord_word h hinner, hword, ofWord_word h' hinner']
      | some inner' =>
          rw [brackets_of_eq_some hinner', List.cons_append] at hbrackets
          exact absurd (hbrackets ▸ hrest) (not_closes_bracket _)
  | some inner =>
      rw [brackets_of_eq_some hinner, List.cons_append] at hbrackets
      cases hinner' : t'.inBrackets with
      | none =>
          rw [brackets_of_eq_none hinner', List.nil_append] at hbrackets
          exact absurd (hbrackets ▸ hrest') (not_closes_bracket _)
      | some inner' =>
          rw [brackets_of_eq_some hinner', List.cons_append] at hbrackets
          exact .inr ⟨inner, inner', rfl, rfl, hword, by simpa using hbrackets⟩

/-! ## Annotations in annotations -/

/-- Annotations with commas between them. -/
def joined (ts : List TypeExpr) : List Char :=
  List.intercalate [',', ' '] ((hints ts).map String.toList)

/-- What stands behind the first one of several annotations. -/
def afterFirst : List TypeExpr → List Char
  | [] => []
  | t :: ts => ',' :: ' ' :: joined (t :: ts)

theorem joined_cons (t : TypeExpr) (ts : List TypeExpr) :
    joined (t :: ts) = t.hint.toList ++ afterFirst ts := by
  cases ts with
  | nil => simp [joined, hints, afterFirst]
  | cons t' ts => simp [joined, hints, afterFirst, List.intercalate_cons_cons]

theorem closes_afterFirst (ts : List TypeExpr) (rest : List Char) :
    Closes (afterFirst ts ++ ']' :: rest) := by
  intro c hc
  cases ts with
  | nil =>
      cases hc
      exact .inr rfl
  | cons t ts =>
      cases hc
      exact .inl rfl

/-- Behind the first annotations the others go on alike. -/
theorem joined_of_afterFirst {ts ts' : List TypeExpr} {rest rest' : List Char}
    (h : afterFirst ts ++ ']' :: rest = afterFirst ts' ++ ']' :: rest') :
    joined ts ++ ']' :: rest = joined ts' ++ ']' :: rest' := by
  cases ts with
  | nil =>
      cases ts' with
      | nil => exact h
      | cons t' ts' => exact absurd (List.cons_eq_cons.mp h).1 (by decide)
  | cons t ts =>
      cases ts' with
      | nil => exact absurd (List.cons_eq_cons.mp h).1 (by decide)
      | cons t' ts' =>
          exact (List.cons_eq_cons.mp (List.cons_eq_cons.mp h).2).2

/-- No annotation starts with a bracket. -/
theorem joined_cons_ne {t : TypeExpr} (h : Unmistakable t) (ts : List TypeExpr)
    (rest rest' : List Char) : joined (t :: ts) ++ ']' :: rest ≠ ']' :: rest' := by
  intro heq
  obtain ⟨hne, hinner⟩ := word_spec h
  obtain ⟨c, cs, hword⟩ := List.exists_cons_of_ne_nil hne
  rw [joined_cons, toList_hint, hword] at heq
  have hc := hinner c (hword ▸ List.mem_cons_self)
  rw [(List.cons_eq_cons.mp heq).1] at hc
  exact absurd hc (by decide)

/-- The annotation of a type can be taken from the start of a text in one way. -/
def ReadsBack (t : TypeExpr) : Prop :=
  ∀ t' rest rest', Unmistakable t → Unmistakable t' → Closes rest → Closes rest' →
    t.hint.toList ++ rest = t'.hint.toList ++ rest' → t = t' ∧ rest = rest'

namespace ReadsBack

theorem of_eq_none {t : TypeExpr} (h : t.inBrackets = Option.none) : ReadsBack t := by
  intro t' rest rest' ht ht' hrest hrest' heq
  rcases hint_append_cases ht ht' hrest hrest' heq with ⟨-, hsame⟩ | ⟨_, _, hsome, -⟩
  · exact hsame
  · rw [h] at hsome
    cases hsome

/-- A type with brackets is read back when what is in the brackets tells it from the types that have the
same word. -/
theorem of_eq_some {t : TypeExpr} {inner : List Char} (h : t.inBrackets = some inner)
    (hread : ∀ t' inner' rest rest', Unmistakable t → Unmistakable t' →
      t'.inBrackets = some inner' → t.word = t'.word → inner ++ ']' :: rest = inner' ++ ']' :: rest' →
      t = t' ∧ rest = rest') : ReadsBack t := by
  intro t' rest rest' ht ht' hrest hrest' heq
  rcases hint_append_cases ht ht' hrest hrest' heq with ⟨hnone, -⟩ | ⟨_, inner', hsome, hi, hw, hin⟩
  · rw [h] at hnone
    cases hnone
  · obtain rfl := Option.some.inj (h.symm.trans hsome)
    exact hread t' inner' rest rest' ht ht' hi hw hin

theorem map : ReadsBack map := by
  refine of_eq_some rfl fun t' inner' rest rest' _ _ hi hw hin => ?_
  cases t' with
  | map =>
      cases hi
      exact ⟨rfl, (List.cons_eq_cons.mp (List.append_cancel_left hin)).2⟩
  | list _ | literal _ | union _ => exact absurd hw (by simp [word])
  | text | integer | real | truth | none | any | named _ => cases hi

theorem list {item : TypeExpr} (h : ReadsBack item) : ReadsBack (list item) := by
  refine of_eq_some rfl fun t' inner' rest rest' ht ht' hi hw hin => ?_
  cases t' with
  | list item' =>
      cases hi
      obtain ⟨rfl, hsame⟩ :=
        h item' _ _ ht ht' (closes_afterFirst [] _) (closes_afterFirst [] _) hin
      exact ⟨rfl, (List.cons_eq_cons.mp hsame).2⟩
  | map | literal _ | union _ => exact absurd hw (by simp [word])
  | text | integer | real | truth | none | any | named _ => cases hi

theorem literal (value : String) : ReadsBack (literal value) := by
  refine of_eq_some rfl fun t' inner' rest rest' _ _ hi hw hin => ?_
  cases t' with
  | literal value' =>
      cases hi
      obtain ⟨hvalue, hsame⟩ := Code.quoteChars_append_inj hin
      obtain rfl := String.toList_injective hvalue
      exact ⟨rfl, (List.cons_eq_cons.mp hsame).2⟩
  | map | list _ | union _ => exact absurd hw (by simp [word])
  | text | integer | real | truth | none | any | named _ => cases hi

/-- Annotations with commas between them are read back one by one. -/
theorem joined_append_inj {ts ts' : List TypeExpr} {rest rest' : List Char}
    (hread : ∀ t ∈ ts, ReadsBack t) (h : ∀ t ∈ ts, Unmistakable t) (h' : ∀ t ∈ ts', Unmistakable t)
    (heq : joined ts ++ ']' :: rest = joined ts' ++ ']' :: rest') : ts = ts' ∧ rest = rest' := by
  induction ts generalizing ts' with
  | nil =>
      cases ts' with
      | nil => exact ⟨rfl, (List.cons_eq_cons.mp heq).2⟩
      | cons t' ts' =>
          exact absurd heq.symm (joined_cons_ne (h' t' List.mem_cons_self) ts' _ _)
  | cons t ts ih =>
      obtain ⟨hread, hreads⟩ := List.forall_mem_cons.mp hread
      obtain ⟨ht, hts⟩ := List.forall_mem_cons.mp h
      cases ts' with
      | nil => exact absurd heq (joined_cons_ne ht ts _ _)
      | cons t' ts' =>
          obtain ⟨ht', hts'⟩ := List.forall_mem_cons.mp h'
          rw [joined_cons, joined_cons, List.append_assoc, List.append_assoc] at heq
          obtain ⟨rfl, hmore⟩ := hread t' _ _ ht ht' (closes_afterFirst ts _)
            (closes_afterFirst ts' _) heq
          obtain ⟨rfl, hrest⟩ := ih hreads hts hts' (joined_of_afterFirst hmore)
          exact ⟨rfl, hrest⟩

theorem union {ts : List TypeExpr} (h : ∀ t ∈ ts, ReadsBack t) : ReadsBack (union ts) := by
  refine of_eq_some rfl fun t' inner' rest rest' ht ht' hi hw hin => ?_
  cases t' with
  | union ts' =>
      cases hi
      obtain ⟨rfl, hsame⟩ :=
        joined_append_inj h (unmistakable_union.mp ht) (unmistakable_union.mp ht') hin
      exact ⟨rfl, hsame⟩
  | map | list _ | literal _ => exact absurd hw (by simp [word])
  | text | integer | real | truth | none | any | named _ => cases hi

end ReadsBack

mutual
theorem readsBack : (t : TypeExpr) → ReadsBack t
  | list item => .list (readsBack item)
  | union variants => .union (readsBackAll variants)
  | map => .map
  | literal value => .literal value
  | text | integer | real | truth | none | any | named _ => .of_eq_none rfl
theorem readsBackAll : (ts : List TypeExpr) → ∀ t ∈ ts, ReadsBack t
  | [] => List.forall_mem_nil _
  | t :: ts => List.forall_mem_cons.mpr ⟨readsBack t, readsBackAll ts⟩
end

/-- Unmistakable types with one annotation are one type. -/
theorem injOn_hint : Set.InjOn hint {t | Unmistakable t} := by
  intro t h t' h' heq
  have hclosed : Closes [] := fun c hc => by cases hc
  refine (readsBack t t' [] [] h h' hclosed hclosed ?_).1
  rw [heq]

end TypeExpr

/-- Over a registry whose names have the shape of classes different types have different annotations
exactly when no declaration is called `Any` or `None`. -/
theorem Registry.injOn_hint_iff {r : Registry} (h : ∀ d ∈ r.declarations, Name.IsClass d.name) :
    Set.InjOn TypeExpr.hint {t | r.Knows t} ↔
      r.contains "Any" = false ∧ r.contains "None" = false := by
  constructor
  · intro hinj
    have hfree {t : TypeExpr} {name : String} (hnames : t.names = []) (hhint : t.hint = name)
        (hne : t ≠ .named name) : r.contains name = false := by
      refine Bool.eq_false_iff.mpr fun hold => hne ?_
      refine hinj (knows_of_names_eq_nil hnames) (knows_named.mpr hold) ?_
      rw [hhint, TypeExpr.hint]
    exact ⟨hfree (t := .any) rfl rfl (by simp), hfree (t := .none) rfl rfl (by simp)⟩
  · rintro ⟨hany, hnone⟩
    have hsubset : {t | r.Knows t} ⊆ {t | TypeExpr.Unmistakable t} := by
      intro t ht name hname
      have hold := ht name hname
      obtain ⟨d, hd, rfl⟩ := contains_iff.mp hold
      refine ⟨h d hd, fun heq => ?_, fun heq => ?_⟩
      · rw [heq, hany] at hold
        cases hold
      · rw [heq, hnone] at hold
        cases hold
    exact TypeExpr.injOn_hint.mono hsubset

end AgentCompiler
