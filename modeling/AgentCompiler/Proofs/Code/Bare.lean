import AgentCompiler.Code.Literal
import AgentCompiler.Proofs.Text.Fill
import AgentCompiler.Proofs.Text.Occurrence

/-!
# Code outside of texts

What stands between quotes is no code. Here a code is read from left to right, and its texts are blotted
out. A value that is put into a template as a literal adds no word to what is left, wherever its marker
stands, as long as the reader is at the same kind of place behind the value as in front of it.
-/

namespace AgentCompiler.Code

open Text (marker replaceAll fillChars Braceless Fenced Uncrossed)

variable {c : Char} {key key' s t u v w : List Char} {q : Place} {places places' : List Place}

/-- Where a character of a code stands. -/
inductive Place
  /-- Outside of texts. -/
  | code
  /-- Between quotes. -/
  | text
  /-- Between quotes, right behind a backslash. -/
  | escape
deriving DecidableEq

/-- The place behind a character. -/
def Place.next : Place → Char → Place
  | code, c => if c = '"' then text else code
  | text, c => if c = '"' then code else if c = '\\' then escape else text
  | escape, _ => text

/-- The place behind a code. -/
def Place.after (q : Place) (s : List Char) : Place := s.foldl Place.next q

/-- A code whose texts are blotted out: a quote stands for each of their characters. -/
def bareFrom : Place → List Char → List Char
  | _, [] => []
  | q, c :: s => (if q = .code then c else '"') :: bareFrom (q.next c) s

/-- A code whose texts are blotted out. -/
def bare (s : String) : List Char := bareFrom .code s.toList

theorem after_append (q : Place) (s t : List Char) : q.after (s ++ t) = (q.after s).after t :=
  List.foldl_append

theorem bareFrom_append (q : Place) (s t : List Char) :
    bareFrom q (s ++ t) = bareFrom q s ++ bareFrom (q.after s) t := by
  induction s generalizing q with
  | nil => rfl
  | cons c s ih => exact congrArg (_ :: ·) (ih (q.next c))

/-- A word without quotes stands where it is left. -/
theorem infix_of_infix_bareFrom (hw : '"' ∉ w) (h : w <:+: bareFrom q s) : w <:+: s := by
  have hleft {q : Place} {w s : List Char} (hw : '"' ∉ w) (h : w <+: bareFrom q s) : w <+: s := by
    induction w generalizing q s with
    | nil => exact List.nil_prefix
    | cons a w ih =>
        rw [List.mem_cons, not_or] at hw
        cases s with
        | nil => cases List.prefix_nil.mp h
        | cons c s =>
            rw [bareFrom, List.cons_prefix_cons] at h
            obtain ⟨hfirst, hrest⟩ := h
            split at hfirst
            · exact List.cons_prefix_cons.mpr ⟨hfirst, ih hw.2 hrest⟩
            · exact absurd hfirst.symm hw.1
  induction s generalizing q with
  | nil => exact h
  | cons c s ih =>
      rcases List.infix_cons_iff.mp h with hstart | hin
      · exact (hleft (s := c :: s) (q := q) hw hstart).isInfix
      · exact List.infix_cons (ih hin)

/-- What is fenced stays fenced. -/
theorem fenced_bareFrom (hw : '"' ∉ w) (hv : Fenced w v) (q : Place) : Fenced w (bareFrom q v) := by
  have hblot (q : Place) {c : Char} (hc : c ∉ w) : (if q = .code then c else '"') ∉ w := by
    split
    · exact hc
    · exact hw
  obtain ⟨c, rest, hfirst, hc⟩ := hv.first
  obtain ⟨init, d, hlast, hd⟩ := hv.last
  constructor
  · exact ⟨_, _, by rw [hfirst, bareFrom], hblot q hc⟩
  · exact ⟨bareFrom q init, _, by rw [hlast, bareFrom_append]; rfl, hblot (q.after init) hd⟩

/-! ## Literals -/

/-- Characters that open and close no text do not change the place. -/
theorem after_of_plain (hq : q ≠ .escape) (hs : ∀ c ∈ s, c ≠ '"' ∧ c ≠ '\\') : q.after s = q := by
  induction s with
  | nil => rfl
  | cons c s ih =>
      rw [List.forall_mem_cons] at hs
      have hnext : q.next c = q := by
        cases q with
        | code => exact if_neg hs.1.1
        | text => rw [Place.next, if_neg hs.1.1, if_neg hs.1.2]
        | escape => exact absurd rfl hq
      show (q.next c).after s = q
      rw [hnext]
      exact ih hs.2

theorem hexDigit_ne {n : ℕ} (h : n < 16) :
    Json.hexDigit n ≠ '"' ∧ Json.hexDigit n ≠ '\\' ∧ Json.hexDigit n ≠ '{' :=
  (by decide : ∀ n < 16, Json.hexDigit n ≠ '"' ∧ Json.hexDigit n ≠ '\\' ∧ Json.hexDigit n ≠ '{') n h

/-- A character stands for itself inside a literal, or an escape stands for it. -/
theorem escapeChar_cases (c : Char) : escapeChar c = [c] ∧ (c ≠ '"' ∧ c ≠ '\\') ∨
    ∃ d digits, escapeChar c = '\\' :: d :: digits ∧ d ≠ '{' ∧
      ∀ e ∈ digits, e ≠ '"' ∧ e ≠ '\\' ∧ e ≠ '{' := by
  unfold escapeChar
  split_ifs with hquote hslash _ _ _ hlow
  any_goals exact .inr ⟨_, [], rfl, by decide, List.forall_mem_nil _⟩
  · refine .inr ⟨_, _, rfl, by decide, ?_⟩
    rw [List.forall_mem_cons, List.forall_mem_singleton]
    exact ⟨hexDigit_ne (by omega), hexDigit_ne (by omega)⟩
  · exact .inl ⟨rfl, hquote, hslash⟩

/-- A character inside a literal is blotted out. -/
theorem blotted_escapeChar (c : Char) :
    Place.text.after (escapeChar c) = .text ∧ ∀ d ∈ bareFrom .text (escapeChar c), d = '"' := by
  have hblotted {s : List Char} (hs : ∀ e ∈ s, e ≠ '"' ∧ e ≠ '\\') :
      Place.text.after s = .text ∧ ∀ d ∈ bareFrom .text s, d = '"' := by
    refine ⟨after_of_plain (by decide) hs, ?_⟩
    induction s with
    | nil => exact List.forall_mem_nil _
    | cons e s ih =>
        rw [List.forall_mem_cons] at hs
        rw [bareFrom, Place.next, if_neg hs.1.1, if_neg hs.1.2, List.forall_mem_cons]
        exact ⟨rfl, ih hs.2⟩
  rcases escapeChar_cases c with ⟨hsame, hc⟩ | ⟨d, digits, hescape, -, hdigits⟩
  · rw [hsame]
    exact hblotted (by simpa using hc)
  · obtain ⟨hafter, hquotes⟩ := hblotted fun e he => ⟨(hdigits e he).1, (hdigits e he).2.1⟩
    rw [hescape]
    refine ⟨hafter, ?_⟩
    show ∀ e ∈ '"' :: '"' :: bareFrom .text digits, e = '"'
    rw [List.forall_mem_cons, List.forall_mem_cons]
    exact ⟨rfl, rfl, hquotes⟩

theorem blotted_escape (s : List Char) :
    Place.text.after (s.flatMap escapeChar) = .text ∧
      ∀ d ∈ bareFrom .text (s.flatMap escapeChar), d = '"' := by
  induction s with
  | nil => exact ⟨rfl, List.forall_mem_nil _⟩
  | cons c s ih =>
      obtain ⟨hafter, hblotted⟩ := blotted_escapeChar c
      rw [List.flatMap_cons, after_append, bareFrom_append, hafter]
      refine ⟨ih.1, fun d hd => ?_⟩
      rcases List.mem_append.mp hd with hd | hd
      · exact hblotted d hd
      · exact ih.2 d hd

/-- Behind a literal there is code again. -/
theorem after_quoteChars (s : List Char) : Place.code.after (quoteChars s) = .code := by
  show Place.text.after (s.flatMap escapeChar ++ ['"']) = .code
  rw [after_append, (blotted_escape s).1]
  rfl

/-- A literal is blotted out. -/
theorem eq_quote_of_mem_bareFrom {s : List Char} {d : Char} (h : d ∈ bareFrom .code (quoteChars s)) :
    d = '"' := by
  change d ∈ '"' :: bareFrom .text (s.flatMap escapeChar ++ ['"']) at h
  rw [bareFrom_append, (blotted_escape s).1] at h
  rcases List.mem_cons.mp h with rfl | h
  · rfl
  rcases List.mem_append.mp h with h | h
  · exact (blotted_escape s).2 d h
  · exact List.mem_singleton.mp h

/-- No word is left of a literal. -/
theorem not_infix_bareFrom_quoteChars (hne : w ≠ []) (hw : '"' ∉ w) (s : List Char) :
    ¬w <:+: bareFrom .code (quoteChars s) := by
  intro h
  obtain ⟨c, hc⟩ := List.exists_mem_of_ne_nil w hne
  rw [eq_quote_of_mem_bareFrom (h.subset hc)] at hc
  exact hw hc

theorem fenced_quoteChars (hw : '"' ∉ w) (s : List Char) : Fenced w (quoteChars s) :=
  Fenced.of_quoted hw _

/-! ## Places of markers -/

/-- Every marker of a name stands at one of some places. -/
def Sits (key : List Char) (places : List Place) : Place → List Char → Prop
  | _, [] => True
  | q, c :: s => (marker key <+: c :: s → q ∈ places) ∧ Sits key places (q.next c) s

instance decidableSits (key : List Char) (places : List Place) :
    (q : Place) → (s : List Char) → Decidable (Sits key places q s)
  | _, [] => isTrue trivial
  | q, c :: s =>
    have := decidableSits key places (q.next c) s
    inferInstanceAs (Decidable (_ ∧ _))

namespace Sits

theorem of_not_infix (h : ¬marker key <:+: s) (q : Place) : Sits key places q s := by
  induction s generalizing q with
  | nil => trivial
  | cons c s ih =>
      rw [List.infix_cons_iff, not_or] at h
      exact ⟨fun hp => absurd hp h.1, ih h.2 _⟩

theorem of_notMem (h : '{' ∉ s) (q : Place) : Sits key places q s :=
  of_not_infix (fun hin => h (hin.subset List.mem_cons_self)) q

theorem mono (hplaces : places ⊆ places') (h : Sits key places q s) : Sits key places' q s := by
  induction s generalizing q with
  | nil => trivial
  | cons c s ih => exact ⟨fun hp => hplaces (h.1 hp), ih h.2⟩

theorem right (h : Sits key places q (s ++ t)) : Sits key places (q.after s) t := by
  induction s generalizing q with
  | nil => exact h
  | cons c s ih => exact ih h.2

theorem head (h : Sits key places q (marker key ++ t)) : q ∈ places := h.1 (List.prefix_append _ t)

theorem append_iff (ht : Uncrossed (marker key) t) :
    Sits key places q (s ++ t) ↔ Sits key places q s ∧ Sits key places (q.after s) t := by
  induction s generalizing q with
  | nil => exact (and_iff_right trivial).symm
  | cons c s ih =>
      have hstart : marker key <+: c :: (s ++ t) ↔ marker key <+: c :: s :=
        ⟨ht (c :: s) (List.cons_ne_nil _ _), fun hp => hp.trans (List.prefix_append (c :: s) t)⟩
      show (_ → _) ∧ Sits key places _ (s ++ t) ↔ ((_ → _) ∧ _) ∧ _
      rw [ih, and_assoc, List.append_eq, hstart]
      rfl

/-- At a character that markers do not have, none starts. -/
theorem cons_iff (hc : c ∉ marker key) :
    Sits key places q (c :: s) ↔ Sits key places (q.next c) s := by
  refine and_iff_right fun hp => absurd ?_ hc
  rw [← (List.cons_prefix_cons.mp hp).1]
  exact List.mem_cons_self

/-- No marker runs into a fenced text or out of it. -/
theorem append_of_fenced (hv : Fenced (marker key) v) (hvalue : Sits key places q v)
    (ht : Sits key places (q.after v) t) : Sits key places q (v ++ t) := by
  obtain ⟨init, d, rfl, hd⟩ := hv.last
  rw [append_iff (Text.uncrossed_cons hd), cons_iff hd] at hvalue
  rw [List.append_assoc, List.singleton_append, append_iff (Text.uncrossed_cons hd)]
  refine ⟨hvalue.1, (cons_iff hd).mpr ?_⟩
  rw [after_append] at ht
  exact ht

/-- Inside a literal no marker stands right behind a backslash. -/
theorem escape (hplaces : .text ∈ places) (s : List Char) :
    Sits key places .text (s.flatMap escapeChar) := by
  induction s with
  | nil => trivial
  | cons c s ih =>
      rw [List.flatMap_cons]
      rcases escapeChar_cases c with ⟨hsame, hquote, hslash⟩ | ⟨d, digits, hescape, hd, hdigits⟩
      · rw [hsame, List.singleton_append]
        refine ⟨fun _ => hplaces, ?_⟩
        rw [Place.next, if_neg hquote, if_neg hslash]
        exact ih
      · rw [hescape, List.cons_append, List.cons_append]
        refine ⟨fun _ => hplaces, fun hp => absurd (List.cons_prefix_cons.mp hp).1.symm hd, ?_⟩
        show Sits key places .text (digits ++ s.flatMap escapeChar)
        clear hescape
        induction digits with
        | nil => exact ih
        | cons e digits ihd =>
            rw [List.forall_mem_cons] at hdigits
            refine ⟨fun _ => hplaces, ?_⟩
            rw [Place.next, if_neg hdigits.1.1, if_neg hdigits.1.2.1]
            exact ihd hdigits.2

/-- The markers in a literal stand inside its text. -/
theorem quoteChars (hkey : '"' ∉ marker key) (hplaces : .text ∈ places) (s : List Char) :
    Sits key places .code (quoteChars s) := by
  refine (cons_iff hkey).mpr ((append_iff (Text.uncrossed_cons hkey)).mpr ⟨?_, ?_⟩)
  · exact Sits.escape hplaces s
  · exact (cons_iff hkey).mpr trivial

end Sits

theorem prefix_of_prefix_escape (hw : '\\' ∉ w) (h : w <+: s.flatMap escapeChar) : w <+: s := by
  induction s generalizing w with
  | nil => exact h
  | cons c s ih =>
      cases w with
      | nil => exact List.nil_prefix
      | cons a w =>
          rw [List.mem_cons, not_or] at hw
          rw [List.flatMap_cons] at h
          rcases escapeChar_cases c with ⟨hsame, -⟩ | ⟨d, digits, hescape, -, -⟩
          · rw [hsame] at h
            obtain ⟨rfl, hrest⟩ := List.cons_prefix_cons.mp h
            exact List.cons_prefix_cons.mpr ⟨rfl, ih hw.2 hrest⟩
          · rw [hescape] at h
            exact absurd (List.cons_prefix_cons.mp h).1.symm hw.1

/-- A marker in a literal stands in the text that the literal is for. -/
theorem marker_infix_of_quoteChars (hquote : '"' ∉ marker key) (hslash : '\\' ∉ marker key)
    (h : marker key <:+: quoteChars s) : marker key <:+: s := by
  have hescaped : marker key <:+: s.flatMap escapeChar := by
    rcases Text.infix_append_cons hquote h with h | h
    · rcases Text.infix_append_cons (s := []) hquote h with h | h
      · exact absurd (List.infix_nil.mp h) Text.marker_ne_nil
      · exact h
    · exact absurd (List.infix_nil.mp h) Text.marker_ne_nil
  clear h
  induction s with
  | nil => exact hescaped
  | cons c s ih =>
      rw [List.flatMap_cons] at hescaped
      rcases escapeChar_cases c with ⟨hsame, -⟩ | ⟨d, digits, hescape, hd, hdigits⟩
      · rw [hsame, List.singleton_append] at hescaped
        rcases List.infix_cons_iff.mp hescaped with hstart | hin
        · refine (prefix_of_prefix_escape (s := c :: s) hslash ?_).isInfix
          rwa [List.flatMap_cons, hsame]
        · exact List.infix_cons (ih hin)
      · -- No marker starts inside an escape.
        have hbrace : '{' ∉ '\\' :: d :: digits := by
          simp only [List.mem_cons, not_or]
          exact ⟨by decide, Ne.symm hd, fun hmem => (hdigits _ hmem).2.2 rfl⟩
        rw [hescape] at hescaped
        refine List.infix_cons (ih ?_)
        by_contra hno
        rw [← Text.occurrences_eq_zero Text.marker_ne_nil,
          ← Text.occurrences_append_of_notMem hbrace, Text.occurrences_eq_zero Text.marker_ne_nil] at hno
        exact hno hescaped

/-! ## Values in the place of markers -/

/-- A value with no word of its own, behind which a reader is where it was in front of it. -/
structure Quiet (w : List Char) (places : List Place) (v : List Char) : Prop where
  fenced : Fenced w v
  stays : ∀ q ∈ places, q.after v = q
  free : ∀ q ∈ places, ¬w <:+: bareFrom q v

theorem quiet_quoteChars (hne : w ≠ []) (hw : '"' ∉ w) (s : List Char) :
    Quiet w [.code] (quoteChars s) where
  fenced := fenced_quoteChars hw s
  stays := by simpa using after_quoteChars s
  free := by simpa using not_infix_bareFrom_quoteChars hne hw s

section

variable (hkey : key.all Text.isPlainChar)
include hkey

theorem braceless_of_plain : Braceless key :=
  ⟨fun hmem => absurd (List.all_eq_true.mp hkey _ hmem) (by decide),
    fun hmem => absurd (List.all_eq_true.mp hkey _ hmem) (by decide)⟩

theorem notMem_marker (hc : Text.isMarkerChar c = false) : c ∉ marker key := by
  have hname : c ∉ key := by
    intro hmem
    rw [Text.isMarkerChar, List.all_eq_true.mp hkey c hmem] at hc
    cases hc
  have hbraces : c ≠ '{' ∧ c ≠ '}' := by
    constructor
    · rintro rfl
      cases hc
    · rintro rfl
      cases hc
  simp [marker, hname, hbraces]

/-- A marker does not change the place. -/
theorem after_marker (hq : q ≠ .escape) : q.after (marker key) = q := by
  refine after_of_plain hq fun c hc => ⟨?_, ?_⟩
  · rintro rfl
    exact notMem_marker hkey rfl hc
  · rintro rfl
    exact notMem_marker hkey rfl hc

/-- A quiet value in the place of a marker adds no word to a code. -/
theorem infix_of_infix_bareFrom_replaceAll (hw : '"' ∉ w) (hescape : .escape ∉ places)
    (hv : Quiet w places v) (hs : Sits key places q s)
    (h : w <:+: bareFrom q (replaceAll (marker key) v s)) : w <:+: bareFrom q s := by
  induction Text.split_marker key s generalizing q with
  | last s hno => rwa [Text.replaceAll_of_not_infix hno] at h
  | more u s hno _ ih =>
      have hplace := hs.right.head
      have hq : q.after u ≠ .escape := fun heq => hescape (heq ▸ hplace)
      have hrest : Sits key places (q.after u) s := by
        have hright := hs.right.right
        rwa [after_marker hkey hq] at hright
      rw [Text.replaceAll_append_marker (braceless_of_plain hkey), Text.replaceAll_of_not_infix hno,
        bareFrom_append, bareFrom_append, hv.stays _ hplace] at h
      rw [bareFrom_append, bareFrom_append, after_marker hkey hq]
      rcases (fenced_bareFrom hw hv.fenced (q.after u)).infix_cases h with h | h | h
      · exact h.trans (List.prefix_append _ _).isInfix
      · exact absurd h (hv.free _ hplace)
      · refine (ih hrest h).trans (List.IsInfix.trans ?_ (List.suffix_append _ _).isInfix)
        exact (List.suffix_append _ _).isInfix

/-- The markers of another name sit where they sat, and in the values as they sit there. -/
theorem Sits.replaceAll (hkey' : key'.all Text.isPlainChar) (hescape : .escape ∉ places)
    (hstays : ∀ q ∈ places, q.after v = q) (hv : Fenced (marker key') v)
    (hvalue : ∀ q ∈ places, Sits key' places' q v) (hs : Sits key places q s)
    (h : Sits key' places' q s) : Sits key' places' q (replaceAll (marker key) v s) := by
  induction Text.split_marker key s generalizing q with
  | last s hno => rwa [Text.replaceAll_of_not_infix hno]
  | more u s hno _ ih =>
      have hplace := hs.right.head
      have hq : q.after u ≠ .escape := fun heq => hescape (heq ▸ hplace)
      have hrest := hs.right.right
      have hrest' := h.right.right
      rw [after_marker hkey hq] at hrest hrest'
      rw [Sits.append_iff (Text.uncrossed_marker (braceless_of_plain hkey'))] at h
      obtain ⟨d, rest, hfirst, hd⟩ := hv.first
      have huncrossed : Uncrossed (marker key') (v ++ Text.replaceAll (marker key) v s) := by
        rw [hfirst, List.cons_append]
        exact Text.uncrossed_cons hd
      rw [Text.replaceAll_append_marker (braceless_of_plain hkey), Text.replaceAll_of_not_infix hno,
        Sits.append_iff huncrossed]
      refine ⟨h.1, Sits.append_of_fenced hv (hvalue _ hplace) ?_⟩
      rw [hstays _ hplace]
      exact ih hrest hrest'

end

/-- A value in which no brace opens and that no marker runs into. -/
structure Inert (w v : List Char) : Prop extends Quiet w [.code] v where
  braceless : '{' ∉ v
  apart : ∀ key, key.all Text.isPlainChar → Fenced (marker key) v

/-- Values that are put in at places of code add no word, and leave the other markers where they are. -/
theorem fillChars_inert {values : List (List Char × List Char)} (hw : '"' ∉ w)
    (hvalues : ∀ e ∈ values, e.1.all Text.isPlainChar ∧ Inert w e.2 ∧ Sits e.1 [.code] .code s) :
    (w <:+: bareFrom .code (fillChars s values) → w <:+: bareFrom .code s) ∧
      ∀ key places, key.all Text.isPlainChar → Sits key places .code s →
        Sits key places .code (fillChars s values) := by
  induction values generalizing s with
  | nil => exact ⟨id, fun _ _ _ h => h⟩
  | cons e values ih =>
      obtain ⟨name, value⟩ := e
      obtain ⟨⟨hname, hvalue, hsits⟩, hvalues⟩ := List.forall_mem_cons.mp hvalues
      have hkeep {key : List Char} {places : List Place} (hkey : key.all Text.isPlainChar)
          (h : Sits key places .code s) :
          Sits key places .code (replaceAll (marker name) value s) :=
        hsits.replaceAll hname hkey (by decide) hvalue.stays (hvalue.apart key hkey)
          (fun q _ => .of_notMem hvalue.braceless q) h
      obtain ⟨hwords, hmarkers⟩ := ih fun e he =>
        have ⟨hplain, hinert, hsits⟩ := hvalues e he
        ⟨hplain, hinert, hkeep hplain hsits⟩
      refine ⟨fun h => ?_, fun key places hkey h => hmarkers key places hkey (hkeep hkey h)⟩
      exact infix_of_infix_bareFrom_replaceAll hname hw (by decide) hvalue.toQuiet hsits (hwords h)

end AgentCompiler.Code
