import AgentCompiler.Code.Literal
import AgentCompiler.Proofs.Code.Display
import AgentCompiler.Proofs.Decimal.Text

/-!
# Literals read back

`read_literal` says that the reader of displays takes the literal of a value on one line, and the one on
several lines, back to this value. A text reads as a value in front of every rest, in every place where
a value may stand; the rules below build such texts from their parts, and both layouts follow the same
rules.
-/

namespace AgentCompiler

/-- A value as documents have it: its numbers are finite, and an object has no key twice. -/
inductive Json.Valid : Json → Prop
  | null : Valid .null
  | bool (b : Bool) : Valid (.bool b)
  | integer (n : ℤ) : Valid (.num (.integer n))
  | real {x : Binary64} (h : x.isFinite) : Valid (.num (.real x))
  | str (s : String) : Valid (.str s)
  | arr {items : List Json} (h : ∀ v ∈ items, Valid v) : Valid (.arr items)
  | obj {members : Members} (hkeys : (members.map Prod.fst).Nodup) (h : ∀ m ∈ members, Valid m.2) :
      Valid (.obj members)

namespace Code.Display

open Decimal (digitChars sign)
open Document

variable {stack : List Frame} {s t rest : List Char} {v : Json} {q q' q'' : State} {c : Char}

/-! ## Runs -/

theorem run_cons (q : State) (c : Char) (s : List Char) :
    run q (c :: s) = (step q c).bind fun q => run q s := by
  unfold run
  rw [List.foldlM_cons]
  cases step q c <;> rfl

/-- The reader goes from a state through a text to another state, whatever follows. -/
def Runs (q : State) (s : List Char) (q' : State) : Prop := ∀ rest, run q (s ++ rest) = run q' rest

namespace Runs

theorem nil (q : State) : Runs q [] q := fun _ => rfl

theorem single (h : step q c = some q') : Runs q [c] q' := fun rest => by
  rw [List.singleton_append, run_cons, h, Option.bind_some]

theorem append (h : Runs q s q') (h' : Runs q' t q'') : Runs q (s ++ t) q'' := fun rest => by
  rw [List.append_assoc, h, h']

theorem cons (h : step q c = some q') (h' : Runs q' s q'') : Runs q (c :: s) q'' :=
  (Runs.single h).append h'

/-- White space is skipped in front of a part. -/
theorem space (h : ∀ c ∈ s, isSpace c = true) : Runs (.ready stack) s (.ready stack) := by
  induction s with
  | nil => exact .nil _
  | cons c s ih =>
      have hstep : step (.ready stack) c = some (.ready stack) := if_pos (h c List.mem_cons_self)
      exact .cons hstep (ih fun d hd => h d (List.mem_cons_of_mem c hd))

end Runs

/-! ## Texts -/

theorem hexValue_hexDigit {n : ℕ} (h : n < 16) : JsonText.hexValue (Json.hexDigit n) = some n := by
  interval_cases n <;> rfl

theorem runs_escape {d : Char} (hd : d ≠ 'x') (h : escaped? d = some c) :
    Runs (.text s stack) ['\\', d] (.text (s ++ [c]) stack) := by
  have hstep : step (.escape s stack) d = some (.text (s ++ [c]) stack) := by
    rw [step, if_neg hd, h, Option.map_some]
  exact .cons rfl (.single hstep)

/-- An escaped character is read as the character. -/
theorem runs_escapeChar (s : List Char) (c : Char) (stack : List Frame) :
    Runs (.text s stack) (escapeChar c) (.text (s ++ [c]) stack) := by
  unfold escapeChar
  split
  · next h => exact runs_escape (by decide) (by rw [h]; rfl)
  split
  · next h => exact runs_escape (by decide) (by rw [h]; rfl)
  split
  · next h => exact runs_escape (by decide) (by rw [h]; rfl)
  split
  · next h => exact runs_escape (by decide) (by rw [h]; rfl)
  split
  · next h => exact runs_escape (by decide) (by rw [h]; rfl)
  split
  · next hlow =>
      have hhigh : step (.hex s none stack) (Json.hexDigit (c.toNat / 16)) =
          some (.hex s (some (c.toNat / 16)) stack) := by
        rw [step, hexValue_hexDigit (by omega)]
        rfl
      have hlast : step (.hex s (some (c.toNat / 16)) stack) (Json.hexDigit (c.toNat % 16)) =
          some (.text (s ++ [c]) stack) := by
        rw [step, hexValue_hexDigit (by omega), Option.map_some, Nat.div_add_mod',
          Char.ofNat_toNat]
      exact .cons rfl (.cons rfl (.cons hhigh (.single hlast)))
  · next hquote hback hfeed hreturn _ _ =>
      refine .single ?_
      rw [step, if_neg hquote, if_neg hback]
      simp [hfeed, hreturn]

/-- A text in quotes is read as the text. -/
theorem runs_quoteChars (s : List Char) (stack : List Frame) :
    Runs (.ready stack) (quoteChars s) (closeText s stack) := by
  have hescaped (t : List Char) :
      Runs (.text t stack) (s.flatMap escapeChar) (.text (t ++ s) stack) := by
    induction s generalizing t with
    | nil =>
        rw [List.append_nil]
        exact .nil _
    | cons c s ih =>
        have hsplit : t ++ c :: s = t ++ [c] ++ s := by simp
        rw [List.flatMap_cons, hsplit]
        exact (runs_escapeChar t c stack).append (ih _)
  exact .cons rfl ((hescaped []).append (.single rfl))

/-! ## Values -/

/-- A text reads as a value wherever a value may stand and no word goes on behind it. -/
def Reads (s : List Char) (v : Json) : Prop :=
  ∀ stack, takesValue stack = true → ∀ rest, (∀ c ∈ rest.head?, isPlain c = false) →
    run (.ready stack) (s ++ rest) = run (.after v stack) rest

theorem Reads.of_runs (h : ∀ stack, takesValue stack = true → Runs (.ready stack) s (.after v stack)) :
    Reads s v := fun stack hstack rest _ => h stack hstack rest

theorem ne_of_eq_false {p : Char → Bool} (h : p c = true) {d : Char} (hd : p d = false) : c ≠ d :=
  ne_of_apply_ne p (by simp [h, hd])

theorem step_plain (hstack : takesValue stack = true) (h : isPlain c = true) :
    step (.ready stack) c = some (.word [c] stack) := by
  have hne {d : Char} (hd : isPlain d = false) : c ≠ d := ne_of_eq_false h hd
  have hspace : isSpace c = false := by
    simp [isSpace, hne (d := ' ') rfl, hne (d := '\n') rfl, hne (d := '\r') rfl, hne (d := '\t') rfl,
      hne (d := '\x0c') rfl]
  unfold step stepReady
  simp [hspace, hstack, h, hne (d := '"') rfl, hne (d := '[') rfl, hne (d := '{') rfl]

/-- A word is read as what it stands for. -/
theorem Reads.word (hne : s ≠ []) (hplain : ∀ c ∈ s, isPlain c = true) (h : word? s = some v) :
    Reads s v := by
  intro stack hstack rest hrest
  obtain ⟨c, s, rfl⟩ := List.exists_cons_of_ne_nil hne
  have hstart := step_plain hstack (hplain c List.mem_cons_self)
  have hgrow (t : List Char) (ht : ∀ c ∈ t, isPlain c = true) (s : List Char) :
      Runs (.word s stack) t (.word (s ++ t) stack) := by
    induction t generalizing s with
    | nil =>
        rw [List.append_nil]
        exact .nil _
    | cons d t ih =>
        have hstep : step (.word s stack) d = some (.word (s ++ [d]) stack) :=
          if_pos (ht d List.mem_cons_self)
        have hsplit : s ++ d :: t = s ++ [d] ++ t := by simp
        rw [hsplit]
        exact .cons hstep (ih (fun e he => ht e (List.mem_cons_of_mem d he)) _)
  rw [Runs.cons hstart (hgrow s (fun d hd => hplain d (List.mem_cons_of_mem c hd)) [c]) rest,
    List.singleton_append]
  -- What stands behind the word ends it, and is then read as behind the value.
  cases rest with
  | nil =>
      cases stack with
      | nil => exact h
      | cons f stack => rfl
  | cons d rest =>
      have hend : step (.word (c :: s) stack) d = step (.after v stack) d := by
        have hcut : step (.word (c :: s) stack) d =
            (word? (c :: s)).bind fun v => stepAfter v stack d :=
          if_neg (by simp [hrest d rfl])
        rw [hcut, h]
        rfl
      rw [run_cons, run_cons, hend]

/-! ## Scalars -/

theorem isPlain_of_isDigit (h : c.isDigit = true) : isPlain c = true := by
  simp [isPlain, Char.isAlphanum, h]

theorem isRealMark_of_isDigit (h : c.isDigit = true) : isRealMark c = false := by
  have hne {d : Char} (hd : d.isDigit = false) : c ≠ d := ne_of_eq_false h hd
  simp [isRealMark, hne (d := '.') rfl, hne (d := 'e') rfl, hne (d := 'E') rfl]

/-- A number is read from a word that starts like one, and so is none of the three names. -/
theorem Reads.number {negative : Bool} {n : Number} (hs : s = sign negative ++ c :: t)
    (hc : c.isDigit = true) (hplain : ∀ d ∈ s, isPlain d = true) (h : number? s = some n) :
    Reads s (.num n) := by
  have hne {w : List Char} (hw : ∃ d ∈ w.head?, d.isDigit = false ∧ d ≠ '-') : s ≠ w := by
    rintro rfl
    obtain ⟨d, hd, hdigit, hminus⟩ := hw
    rw [hs] at hd
    cases negative with
    | true => exact hminus (Option.some.inj hd).symm
    | false =>
        rw [← Option.some.inj hd, hc] at hdigit
        cases hdigit
  have hword : word? s = some (.num n) := by
    unfold word?
    rw [if_neg (hne ⟨'N', rfl, rfl, by decide⟩), if_neg (hne ⟨'T', rfl, rfl, by decide⟩),
      if_neg (hne ⟨'F', rfl, rfl, by decide⟩), h, Option.map_some]
  refine .word ?_ hplain hword
  rw [hs]
  simp

theorem reads_null : Reads "None".toList .null :=
  .word (by decide) (List.all_eq_true.mp (by decide)) rfl

theorem reads_bool (b : Bool) : Reads (bool b).toList (.bool b) := by
  cases b <;> exact .word (by decide) (List.all_eq_true.mp (by decide)) rfl

theorem intText_eq (n : ℤ) :
    Number.intText n = sign (decide (n < 0)) ++ digitChars n.natAbs := by
  unfold Number.intText
  by_cases hneg : n < 0
  · rw [if_pos hneg, decide_eq_true hneg]
    rfl
  · rw [if_neg hneg, decide_eq_false hneg]
    rfl

theorem mem_intText {n : ℤ} (h : c ∈ Number.intText n) : c.isDigit = true ∨ c = '-' := by
  rw [intText_eq] at h
  rcases List.mem_append.mp h with hsign | hdigit
  · cases hneg : decide (n < 0) with
    | true => exact .inr (by simpa [hneg, sign] using hsign)
    | false => simp [hneg, sign] at hsign
  · exact .inl (Digits.digitChars _ c hdigit)

theorem exists_digitChars (n : ℕ) :
    ∃ (c : Char) (ds : List Char), digitChars n = c :: ds ∧ c.isDigit = true := by
  have hne : digitChars n ≠ [] := Nat.toDigits_ne_nil
  obtain ⟨c, ds, hsplit⟩ := List.exists_cons_of_ne_nil hne
  exact ⟨c, ds, hsplit, Digits.digitChars n c (hsplit ▸ List.mem_cons_self)⟩

/-- An integer has no needless zero in front. -/
theorem integer?_intText (n : ℤ) : integer? (Number.intText n) = some n := by
  obtain ⟨c, ds, hsplit, hc⟩ := exists_digitChars n.natAbs
  have hzero : ¬(1 < (digitChars n.natAbs).length ∧ (digitChars n.natAbs).head? = some '0') := by
    rcases Nat.eq_zero_or_pos n.natAbs with hzero | hpos
    · rw [hzero]
      decide
    · exact fun h => CoreScalar.head?_digitChars hpos h.2
  unfold integer?
  rw [intText_eq, hsplit, CoreScalar.splitSign_sign _ hc, ← hsplit]
  dsimp only
  rw [if_neg hzero, CoreScalar.natural?_digitChars]
  simp [CoreScalar.ite_neg_abs]

theorem number?_intText (n : ℤ) : number? (Number.intText n) = some (.integer n) := by
  have hmark : (Number.intText n).any isRealMark = false := by
    rw [List.any_eq_false]
    intro d hd
    rcases mem_intText hd with hd | rfl
    · simp [isRealMark_of_isDigit hd]
    · decide
  unfold number?
  rw [hmark, if_neg Bool.false_ne_true, integer?_intText, Option.map_some]

/-- An integer is read from its digits. -/
theorem reads_integer (n : ℤ) : Reads (Number.intText n) (.num (.integer n)) := by
  obtain ⟨c, ds, hsplit, hc⟩ := exists_digitChars n.natAbs
  have hplain (d : Char) (hd : d ∈ Number.intText n) : isPlain d = true := by
    rcases mem_intText hd with hd | rfl
    · exact isPlain_of_isDigit hd
    · rfl
  exact .number (hsplit ▸ intText_eq n) hc hplain (number?_intText n)

theorem number?_documentText {x : Binary64} (h : x.isFinite) :
    number? x.documentText = some (.real x) := by
  obtain ⟨k, e, hwritten, -⟩ := written_documentText h
  have hmark : x.documentText.any isRealMark = true := by
    rw [List.any_eq_true]
    rcases hwritten.marked with hpoint | hexponent
    · exact ⟨'.', hpoint, rfl⟩
    · exact ⟨'e', hexponent, rfl⟩
  unfold number?
  rw [hmark, if_pos rfl, CoreScalar.decimal?_documentText h, Option.map_some]

/-- A finite floating-point value is read from its text. -/
theorem reads_real {x : Binary64} (h : x.isFinite) : Reads x.documentText (.num (.real x)) := by
  obtain ⟨k, e, hwritten, -⟩ := written_documentText h
  obtain ⟨c, ds, hsplit, hc⟩ := hwritten.head
  have hplain (d : Char) (hd : d ∈ x.documentText) : isPlain d = true := by
    rcases hwritten.mem hd with hd | hd
    · exact isPlain_of_isDigit hd
    · have hmarks : ['-', '+', '.', 'e'].all isPlain = true := by decide
      exact List.all_eq_true.mp hmarks d hd
  exact .number hsplit hc hplain (number?_documentText h)

/-- A text in quotes is read where a value may stand. -/
theorem reads_str (s : String) : Reads (quoteChars s.toList) (.str s) := by
  refine .of_runs fun stack hstack => ?_
  have hclosed : closeText s.toList stack = .after (.str s) stack := by
    unfold closeText
    split
    · cases hstack
    · rw [String.ofList_toList]
  rw [← hclosed]
  exact runs_quoteChars s.toList stack

/-! ## Containers -/

/-- A text is one part of the innermost container, which goes from one state to the next. -/
def Part (p : List Char) (f f' : Frame) : Prop :=
  ∃ v g, g.add? v = some f' ∧ ∀ stack rest, (∀ c ∈ rest.head?, isPlain c = false) →
    run (.ready (f :: stack)) (p ++ rest) = run (.after v (g :: stack)) rest

/-- Texts take the innermost container from one state to the next, part by part. -/
inductive Parts : List (List Char) → Frame → Frame → Prop
  | nil (f : Frame) : Parts [] f f
  | cons {p : List Char} {ps : List (List Char)} {f f' f'' : Frame} (h : Part p f f')
      (hrest : Parts ps f' f'') : Parts (p :: ps) f f''

/-- A bracket that ends a container is no other token. -/
theorem closer_spec {f : Frame} (h : f.closer = some c) :
    isPlain c = false ∧ isSpace c = false ∧ c ≠ ',' := by
  cases f with
  | list => cases h; decide
  | dict => cases h; decide
  | entry => cases h

theorem step_close {f : Frame} (h : f.closer = some c) :
    step (.ready (f :: stack)) c = some (.after f.value stack) := by
  cases f with
  | list => cases h; rfl
  | dict => cases h; rfl
  | entry => cases h

theorem step_after {f g : Frame} (hadd : g.add? v = some f) (hc : isSpace c = false) :
    step (.after v (g :: stack)) c =
      if c = ',' then some (.ready (f :: stack)) else close? c (f :: stack) := by
  show stepAfter v (g :: stack) c = _
  unfold stepAfter
  rw [if_neg (Bool.eq_false_iff.mp hc)]
  show (g.add? v).bind _ = _
  rw [hadd, Option.bind_some]

/-- A part is followed by a comma and the next one. -/
theorem Part.comma {p : List Char} {f f' : Frame} (h : Part p f f') :
    Runs (.ready (f :: stack)) (p ++ [',']) (.ready (f' :: stack)) := by
  obtain ⟨v, g, hadd, hreads⟩ := h
  have hstep : step (.after v (g :: stack)) ',' = some (.ready (f' :: stack)) := by
    rw [step_after hadd rfl, if_pos rfl]
  intro rest
  rw [List.append_assoc, hreads stack ([','] ++ rest) (by simp [isPlain]), Runs.single hstep]

/-- A part is followed by the end of the container. -/
theorem Part.close {p : List Char} {f f' : Frame} (h : Part p f f') (hc : f'.closer = some c) :
    Runs (.ready (f :: stack)) (p ++ [c]) (.after f'.value stack) := by
  obtain ⟨v, g, hadd, hreads⟩ := h
  obtain ⟨hplain, hspace, hcomma⟩ := closer_spec hc
  have hstep : step (.after v (g :: stack)) c = some (.after f'.value stack) := by
    rw [step_after hadd hspace, if_neg hcomma, close?, if_pos hc]
  intro rest
  rw [List.append_assoc, hreads stack ([c] ++ rest) (by simpa using hplain), Runs.single hstep]

/-- The parts of a container on one line. -/
theorem Parts.runs_line {ps : List (List Char)} {f f' : Frame} (h : Parts ps f f')
    (hc : f'.closer = some c) :
    Runs (.ready (f :: stack)) (List.intercalate [',', ' '] ps ++ [c]) (.after f'.value stack) := by
  induction h with
  | nil f => exact .single (step_close hc)
  | @cons p ps f g f' hpart hrest ih =>
      cases ps with
      | nil =>
          cases hrest
          rw [List.intercalate_singleton]
          exact hpart.close hc
      | cons p' ps =>
          have hsplit : List.intercalate [',', ' '] (p :: p' :: ps) ++ [c] =
              (p ++ [',']) ++ ([' '] ++ (List.intercalate [',', ' '] (p' :: ps) ++ [c])) := by
            simp
          rw [hsplit]
          exact hpart.comma.append ((Runs.space (by simp [isSpace])).append (ih hc))

theorem isSpace_of_mem_padding {level : ℕ} (h : c ∈ padding level) : isSpace c = true := by
  rw [List.eq_of_mem_replicate h]
  rfl

/-- Parts on lines of their own, each of which ends with a comma. -/
theorem Parts.runs_lines {ps : List (List Char)} {f f' : Frame} (h : Parts ps f f') (level : ℕ) :
    Runs (.ready (f :: stack)) (ps.flatMap fun p => padding level ++ p ++ [',', '\n'])
      (.ready (f' :: stack)) := by
  induction h with
  | nil f => exact .nil _
  | @cons p ps f g f' hpart hrest ih =>
      have hline : padding level ++ p ++ [',', '\n'] =
          padding level ++ ((p ++ [',']) ++ ['\n']) := by
        simp
      rw [List.flatMap_cons, hline]
      have hpadding : Runs (.ready (f :: stack)) (padding level) (.ready (f :: stack)) :=
        .space fun d hd => isSpace_of_mem_padding hd
      have hfeed : Runs (.ready (g :: stack)) ['\n'] (.ready (g :: stack)) := .single rfl
      exact (hpadding.append (hpart.comma.append hfeed)).append ih

/-- The parts of a container on lines of their own, and its end on another one. -/
theorem Parts.runs_block {ps : List (List Char)} {f f' : Frame} (h : Parts ps f f')
    (hc : f'.closer = some c) (level : ℕ) :
    Runs (.ready (f :: stack))
      ('\n' :: ps.flatMap (fun p => padding (level + 1) ++ p ++ [',', '\n']) ++ padding level ++ [c])
      (.after f'.value stack) := by
  have hpadding : Runs (.ready (f' :: stack)) (padding level) (.ready (f' :: stack)) :=
    .space fun d hd => isSpace_of_mem_padding hd
  have hlines : Runs (.ready (f :: stack))
      ('\n' :: ps.flatMap fun p => padding (level + 1) ++ p ++ [',', '\n']) (.ready (f' :: stack)) :=
    .cons rfl (h.runs_lines (level + 1))
  exact (hlines.append hpadding).append (.single (step_close hc))

/-- A bracket opens a container where a value may stand. -/
def Opens (c : Char) (f : Frame) : Prop :=
  ∀ stack, takesValue stack = true → step (.ready stack) c = some (.ready (f :: stack))

theorem opens_list : Opens '[' (.list []) := fun stack h => by
  show stepReady stack '[' = _
  simp [stepReady, isSpace, h]

theorem opens_dict : Opens '{' (.dict []) := fun stack h => by
  show stepReady stack '{' = _
  simp [stepReady, isSpace, h]

/-- A container on one line. -/
theorem Parts.reads_line {ps : List (List Char)} {f f' : Frame} {o : Char} (h : Parts ps f f')
    (ho : Opens o f) (hc : f'.closer = some c) :
    Reads (o :: List.intercalate [',', ' '] ps ++ [c]) f'.value :=
  .of_runs fun stack hstack => .cons (ho stack hstack) (h.runs_line hc)

/-- A container on several lines, whose brackets stand together when it has no parts. -/
theorem Parts.reads_bracketed {ps : List (List Char)} {f f' : Frame} {o : Char} (h : Parts ps f f')
    (ho : Opens o f) (hc : f'.closer = some c) (level : ℕ) :
    Reads (bracketed level o c ps) f'.value := by
  unfold bracketed
  split
  · next hempty =>
      rw [List.isEmpty_iff.mp hempty] at h
      exact h.reads_line ho hc
  · refine .of_runs fun stack hstack => ?_
    rw [List.cons_append, List.cons_append]
    exact .cons (ho stack hstack) (h.runs_block hc level)

/-- The texts of values are the parts of a list. -/
theorem parts_items {render : Json → List Char} {vs : List Json}
    (h : ∀ v ∈ vs, Reads (render v) v) (items : List Json) :
    Parts (vs.map render) (.list items) (.list (items ++ vs)) := by
  induction vs generalizing items with
  | nil =>
      rw [List.append_nil]
      exact .nil _
  | cons v vs ih =>
      have hsplit : items ++ v :: vs = items ++ [v] ++ vs := by simp
      rw [hsplit]
      refine .cons ⟨v, .list items, rfl, fun stack => ?_⟩
        (ih (fun w hw => h w (List.mem_cons_of_mem v hw)) _)
      exact h v List.mem_cons_self (.list items :: stack) rfl

/-- A key, a colon and the text of a value are a part of a dictionary that lacks the key. -/
theorem part_member {key : String} {members : Members} (h : Reads s v)
    (hkey : key ∉ members.map Prod.fst) :
    Part (quoteChars key.toList ++ ':' :: ' ' :: s) (.dict members)
      (.dict (members ++ [(key, v)])) := by
  have hinsert : members.insert key v = members ++ [(key, v)] := Table.insert_of_notMem v hkey
  refine ⟨v, .entry members key, by rw [Frame.add?, hinsert], fun stack rest hrest => ?_⟩
  have hcolon : Runs (closeText key.toList (.dict members :: stack)) [':', ' ']
      (.ready (.entry members key :: stack)) := by
    rw [closeText, String.ofList_toList]
    exact .cons rfl (.single rfl)
  have hsplit : quoteChars key.toList ++ ':' :: ' ' :: s ++ rest =
      quoteChars key.toList ++ [':', ' '] ++ (s ++ rest) := by
    simp
  rw [hsplit, (runs_quoteChars key.toList _).append hcolon]
  exact h (.entry members key :: stack) rfl rest hrest

/-- The texts of members with distinct keys are the parts of a dictionary. -/
theorem parts_members {render : Json → List Char} {ms : Members} (members : Members)
    (h : ∀ m ∈ ms, Reads (render m.2) m.2) (hkeys : ((members ++ ms).map Prod.fst).Nodup) :
    Parts (ms.map fun m => quoteChars m.1.toList ++ ':' :: ' ' :: render m.2) (.dict members)
      (.dict (members ++ ms)) := by
  induction ms generalizing members with
  | nil =>
      rw [List.append_nil]
      exact .nil _
  | cons m ms ih =>
      have hsplit : members ++ m :: ms = members ++ [m] ++ ms := by simp
      have hkey : m.1 ∉ members.map Prod.fst := by
        rw [List.map_append, List.map_cons] at hkeys
        exact fun hmem => (List.nodup_append.mp hkeys).2.2 _ hmem _ List.mem_cons_self rfl
      rw [hsplit] at hkeys ⊢
      exact .cons (part_member (h m List.mem_cons_self) hkey)
        (ih _ (fun n hn => h n (List.mem_cons_of_mem m hn)) hkeys)

/-! ## Literals -/

theorem literalItems_eq_map (vs : List Json) : literalItems vs = vs.map literalChars := by
  induction vs with
  | nil => rfl
  | cons v vs ih => rw [literalItems, ih, List.map_cons]

theorem literalMembers_eq_map (ms : Members) :
    literalMembers ms = ms.map fun m => quoteChars m.1.toList ++ ':' :: ' ' :: literalChars m.2 := by
  induction ms with
  | nil => rfl
  | cons m ms ih => rw [literalMembers, ih, List.map_cons]

theorem prettyItems_eq_map (level : ℕ) (vs : List Json) :
    prettyItems level vs = vs.map (prettyChars level) := by
  induction vs with
  | nil => rfl
  | cons v vs ih => rw [prettyItems, ih, List.map_cons]

theorem prettyMembers_eq_map (level : ℕ) (ms : Members) :
    prettyMembers level ms =
      ms.map fun m => quoteChars m.1.toList ++ ':' :: ' ' :: prettyChars level m.2 := by
  induction ms with
  | nil => rfl
  | cons m ms ih => rw [prettyMembers, ih, List.map_cons]

/-- The literal on one line reads as the value. -/
theorem reads_literalChars (h : v.Valid) : Reads (literalChars v) v := by
  induction h with
  | null => exact reads_null
  | bool b => exact reads_bool b
  | integer n => exact reads_integer n
  | real h => exact reads_real h
  | str s => exact reads_str s
  | @arr items h ih =>
      rw [literalChars, literalItems_eq_map]
      exact (parts_items ih []).reads_line opens_list rfl
  | @obj members hkeys h ih =>
      rw [literalChars, literalMembers_eq_map]
      exact (parts_members [] ih hkeys).reads_line opens_dict rfl

/-- The literal on several lines reads as the value, at every level of indentation. -/
theorem reads_prettyChars (h : v.Valid) (level : ℕ) : Reads (prettyChars level v) v := by
  induction h generalizing level with
  | null => exact reads_null
  | bool b => exact reads_bool b
  | integer n => exact reads_integer n
  | real h => exact reads_real h
  | str s => exact reads_str s
  | @arr items h ih =>
      rw [prettyChars, prettyItems_eq_map]
      exact (parts_items (fun w hw => ih w hw (level + 1)) []).reads_bracketed opens_list rfl level
  | @obj members hkeys h ih =>
      rw [prettyChars, prettyMembers_eq_map]
      exact (parts_members [] (fun m hm => ih m hm (level + 1)) hkeys).reads_bracketed opens_dict rfl level

/-- Every value is read from its literal on one line and from the one on several lines, and the whole
text is read. -/
theorem read_literal (h : v.Valid) :
    read (literal v) = some v ∧ read (prettyLiteral v) = some v := by
  have hread {s : List Char} (hs : Reads s v) : read (.ofList s) = some v := by
    have hrun := hs [] rfl [] (by simp)
    rw [List.append_nil] at hrun
    rw [read, String.toList_ofList, hrun]
    rfl
  exact ⟨hread (reads_literalChars h), hread (reads_prettyChars h 0)⟩

/-- A value with every kind of part. -/
def order : Json :=
  .obj [("note", .str "say \"hi\"\n\x01"), ("sizes", .arr [.num (.integer (-12)), .num (.real
    ⟨true, 4612811918334230528⟩), .arr [], .bool false]), ("by", .obj []), ("to", .null)]

theorem valid_order : order.Valid := by
  refine .obj (by decide) fun m hm => ?_
  simp only [List.mem_cons, List.not_mem_nil, or_false] at hm
  rcases hm with rfl | rfl | rfl | rfl
  · exact .str _
  · refine .arr fun w hw => ?_
    simp only [List.mem_cons, List.not_mem_nil, or_false] at hw
    rcases hw with rfl | rfl | rfl | rfl
    · exact .integer _
    · exact .real (by decide)
    · exact .arr (by simp)
    · exact .bool _
  · exact .obj List.nodup_nil (by simp)
  · exact .null

theorem read_literal_order : order.Valid ∧
    read (literal order) = some order ∧ read (prettyLiteral order) = some order :=
  ⟨valid_order, read_literal valid_order⟩

example : (read " [ 1,\n\"a\" , ] ").map literal = some "[1, \"a\"]" := by decide +kernel

end Code.Display

end AgentCompiler
