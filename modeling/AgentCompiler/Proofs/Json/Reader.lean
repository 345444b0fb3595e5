import AgentCompiler.Json.Writer
import AgentCompiler.Proofs.Json.Numeral

/-!
# Reading JSON by its grammar

The reader of the grammar of JSON (RFC 8259) without the limits that the reader of documents has: a value
may nest as deep as its text goes, and a number keeps all of its digits and is rounded once, to the
nearest floating-point value. An object whose text repeats a key has the value that comes last.
-/

namespace AgentCompiler.Json.Grammar

open Document

/-! ## The reader -/

/-- The string behind its opening quote, and what is left behind its end. -/
def string? (s : List Char) : Option (String × List Char) :=
  (JsonText.readString s).bind fun (text, rest) => text.map fun t => (t, rest)

/-- The rest of a word that stands for a value, behind its first letter. -/
def word? (w : String) (v : Json) (s : List Char) : Option (Json × List Char) :=
  if w.toList.isPrefixOf s then some (v, s.drop w.length) else none

variable {α : Type}

/-- The parts of a container up to its end, with a comma between them. -/
def parts? (part : List Char → Option (α × List Char)) (close : Char) :
    (fuel : ℕ) → List Char → Option (List α × List Char)
  | 0, _ => none
  | fuel + 1, s =>
    (part s).bind fun (x, rest) =>
      match JsonText.skip rest with
      | [] => none
      | c :: rest =>
        if c = ',' then (parts? part close fuel rest).map fun (xs, rest) => (x :: xs, rest)
        else if c = close then some ([x], rest)
        else none

/-- The parts of a container, which may have none, behind its opening bracket. -/
def container? (part : List Char → Option (α × List Char)) (close : Char) (s : List Char) :
    Option (List α × List Char) :=
  if (JsonText.skip s).head? = some close then some ([], (JsonText.skip s).tail)
  else parts? part close s.length s

/-- A key, a colon and a value. -/
def member? (value : List Char → Option (Json × List Char)) (s : List Char) :
    Option ((String × Json) × List Char) :=
  if (JsonText.skip s).head? = some '"' then
    (string? (JsonText.skip s).tail).bind fun (key, rest) =>
      if (JsonText.skip rest).head? = some ':' then
        (value (JsonText.skip rest).tail).map fun (v, rest) => ((key, v), rest)
      else none
  else none

/-- A value, and what is left behind it. Each container takes one from `depth`, and a text has no more
of them than characters. -/
def value? : (depth : ℕ) → List Char → Option (Json × List Char)
  | 0, _ => none
  | depth + 1, s =>
    match JsonText.skip s with
    | [] => none
    | c :: s =>
      if c = '[' then (container? (value? depth) ']' s).map fun (vs, rest) => (.arr vs, rest)
      else if c = '{' then
        (container? (member? (value? depth)) '}' s).map fun (ms, rest) =>
          (.obj (Table.ofEntries ms), rest)
      else if c = '"' then (string? s).map fun (t, rest) => (.str t, rest)
      else if c = 'n' then word? "ull" .null s
      else if c = 't' then word? "rue" (.bool true) s
      else if c = 'f' then word? "alse" (.bool false) s
      else (number? (c :: s)).map fun (n, rest) => (.num n, rest)

/-- Reads a text that is one value, with white space around it. -/
def read (s : String) : Option Json :=
  (value? s.length s.toList).bind fun (v, rest) =>
    if (JsonText.skip rest).isEmpty then some v else none

example : (read " [ 1.50 , -0, \"\\u00e9\\ud83d\\ude00\" ] ").map compact = some "[1.5,0,\"é😀\"]" := by
  decide +kernel

example : read "[01]" = none ∧ read "[1,]" = none ∧ read "\"\n\"" = none := by decide +kernel

variable {s t rest : List Char} {c : Char}

/-! ## White space -/

theorem skip_cons (h : c ∉ [' ', '\n', '\t', '\r']) : JsonText.skip (c :: s) = c :: s := by
  simp only [List.mem_cons, List.not_mem_nil, or_false, not_or] at h
  simp [JsonText.skip, h]

theorem skip_lineBreak (level : ℕ) (s : List Char) :
    JsonText.skip (lineBreak level ++ s) = JsonText.skip s := by
  refine List.dropWhile_append_of_pos fun c hc => ?_
  rcases List.mem_cons.mp hc with rfl | hc
  · rfl
  · rw [List.eq_of_mem_replicate hc]
    rfl

/-- White space in front of a value is skipped. -/
theorem value?_eq_of_skip {depth : ℕ} (h : JsonText.skip s = JsonText.skip t) :
    value? depth s = value? depth t := by
  cases depth with
  | zero => rfl
  | succ depth => rw [value?, value?, h]

/-! ## Strings -/

/-- A character that is escaped by a letter. -/
theorem readPieces_simple {e : Char} (he : e ≠ 'u') (h : JsonText.simpleEscape e = some c) :
    JsonText.readPieces ('\\' :: e :: s) =
      (JsonText.readPieces s).map fun (ps, rest) => (.char c :: ps, rest) := by
  have hbind : JsonText.readPieces ('\\' :: e :: s) = (JsonText.simpleEscape e).bind fun c =>
      (JsonText.readPieces s).bind fun (ps, rest) => some (.char c :: ps, rest) := by
    rw [JsonText.readPieces]
    · rfl
    · exact fun _ _ _ _ _ h => absurd h he
  rw [hbind, h, Option.bind_some, Option.map_eq_bind]
  rfl

/-- A character that is escaped by its code. -/
theorem readPieces_unit {n : ℕ} (h : n < 0x20) :
    JsonText.readPieces (['\\', 'u', '0', '0', hexDigit (n / 16), hexDigit (n % 16)] ++ s) =
      (JsonText.readPieces s).map fun (ps, rest) => (.unit n :: ps, rest) := by
  have hzero : JsonText.hexValue '0' = some 0 := rfl
  have hunit : JsonText.hexUnit '0' '0' (hexDigit (n / 16)) (hexDigit (n % 16)) = some n := by
    unfold JsonText.hexUnit
    rw [hzero, Code.Display.hexValue_hexDigit (by omega), Code.Display.hexValue_hexDigit (by omega)]
    exact congrArg some (by omega)
  show JsonText.readPieces ('\\' :: 'u' :: _ :: _ :: _ :: _ :: s) = _
  rw [JsonText.readPieces, hunit, Option.map_eq_bind]
  rfl

/-- A character that stands for itself. -/
theorem readPieces_char (hquote : c ≠ '"') (hback : c ≠ '\\') (hlow : ¬c.toNat < 0x20) :
    JsonText.readPieces (c :: s) =
      (JsonText.readPieces s).map fun (ps, rest) => (.char c :: ps, rest) := by
  rw [JsonText.readPieces]
  · have hplain : (decide (c.toNat < 0x20) || decide (c = '\\')) = false := by
      simp [hback, Nat.not_lt.mp hlow]
    rw [hplain, if_neg Bool.false_ne_true, Option.map_eq_bind]
    rfl
  · exact hquote
  · exact fun _ _ _ _ _ h => absurd h hback
  · exact fun _ _ h => absurd h hback

/-- A piece of a string that stands for a character. -/
def IsPiece (p : JsonText.Piece) (c : Char) : Prop :=
  p = .char c ∨ p = .unit c.toNat ∧ c.toNat < 0x20

/-- An escaped character is read as a piece that stands for it. -/
theorem readPieces_escapeChar (c : Char) (s : List Char) : ∃ p, IsPiece p c ∧
    JsonText.readPieces (escapeChar c ++ s) =
      (JsonText.readPieces s).map fun (ps, rest) => (p :: ps, rest) := by
  unfold escapeChar
  split
  · next h => exact ⟨_, .inl rfl, readPieces_simple (by decide) (by rw [h]; rfl)⟩
  split
  · next h => exact ⟨_, .inl rfl, readPieces_simple (by decide) (by rw [h]; rfl)⟩
  split
  · next h => exact ⟨_, .inl rfl, readPieces_simple (by decide) (by rw [h]; rfl)⟩
  split
  · next h => exact ⟨_, .inl rfl, readPieces_simple (by decide) (by rw [h]; rfl)⟩
  split
  · next h => exact ⟨_, .inl rfl, readPieces_simple (by decide) (by rw [h]; rfl)⟩
  split
  · next h => exact ⟨_, .inl rfl, readPieces_simple (by decide) (by rw [h]; rfl)⟩
  split
  · next h => exact ⟨_, .inl rfl, readPieces_simple (by decide) (by rw [h]; rfl)⟩
  split
  · next hlow => exact ⟨_, .inr ⟨rfl, hlow⟩, readPieces_unit hlow⟩
  · next hquote hback _ _ _ _ _ hlow => exact ⟨_, .inl rfl, readPieces_char hquote hback hlow⟩

/-- A piece stands for its character in front of any others. -/
theorem charsOf_cons {p : JsonText.Piece} (h : IsPiece p c) (ps : List JsonText.Piece) :
    JsonText.charsOf (p :: ps) = (JsonText.charsOf ps).map (c :: ·) := by
  rcases h with rfl | ⟨rfl, hlow⟩
  · rfl
  · have hhigh : JsonText.isHigh c.toNat = false := by simp [JsonText.isHigh]; omega
    have hsecond : JsonText.isLow c.toNat = false := by simp [JsonText.isLow]; omega
    rcases ps with _ | ⟨p, ps⟩
    · simp [JsonText.charsOf, hhigh, hsecond]
    · cases p <;> simp [JsonText.charsOf, hhigh, hsecond]

/-- Escaped characters are read up to the quote behind them. -/
theorem exists_readPieces (s rest : List Char) : ∃ ps, JsonText.charsOf ps = some s ∧
    JsonText.readPieces (s.flatMap escapeChar ++ '"' :: rest) = some (ps, rest) := by
  induction s with
  | nil => exact ⟨[], rfl, rfl⟩
  | cons c s ih =>
      obtain ⟨ps, hchars, hread⟩ := ih
      obtain ⟨p, hp, hescape⟩ := readPieces_escapeChar c (s.flatMap escapeChar ++ '"' :: rest)
      refine ⟨p :: ps, ?_, ?_⟩
      · rw [charsOf_cons hp, hchars, Option.map_some]
      · rw [List.flatMap_cons, List.append_assoc, hescape, hread, Option.map_some]

/-- A string is read behind its opening quote up to its end. -/
theorem string?_quote (t : String) (rest : List Char) :
    string? ((quote t).tail ++ rest) = some (t, rest) := by
  obtain ⟨ps, hchars, hread⟩ := exists_readPieces t.toList rest
  have hquote : (quote t).tail ++ rest = t.toList.flatMap escapeChar ++ '"' :: rest := by
    simp [quote]
  rw [hquote, string?, JsonText.readString, hread]
  simp [hchars]

/-! ## Values -/

/-- What stands behind a value in a text of several lines. -/
def Stops (s : List Char) : Prop := ∀ c ∈ s.head?, c = ',' ∨ c = '\n'

/-- A text reads as a value wherever a value may stand. -/
def Reads (s : List Char) (v : Json) : Prop :=
  ∀ depth, s.length ≤ depth → ∀ rest, Stops rest → value? depth (s ++ rest) = some (v, rest)

/-- A text is not empty, so that a value may stand in it. -/
theorem Reads.intro {v : Json} (hne : s ≠ [])
    (h : ∀ depth, s.length ≤ depth + 1 → ∀ rest, Stops rest →
      value? (depth + 1) (s ++ rest) = some (v, rest)) : Reads s v := by
  intro depth hdepth rest hrest
  have hpos := List.length_pos_iff.mpr hne
  cases depth with
  | zero => omega
  | succ depth => exact h depth hdepth rest hrest

theorem reads_null : Reads "null".toList .null :=
  .intro (by decide) fun _ _ _ _ => rfl

theorem reads_bool (b : Bool) : Reads (boolText b) (.bool b) := by
  cases b with
  | true => exact .intro (by decide) fun _ _ _ _ => rfl
  | false => exact .intro (by decide) fun _ _ _ _ => rfl

theorem reads_str (t : String) : Reads (quote t) (.str t) := by
  refine .intro (List.cons_ne_nil _ _) fun depth _ rest _ => ?_
  have hvalue : value? (depth + 1) (quote t ++ rest) =
      (string? ((quote t).tail ++ rest)).map fun (t, rest) => (.str t, rest) := rfl
  rw [hvalue, string?_quote]
  rfl

/-- A number is read from its text, which starts like no other value. -/
theorem reads_number {n : Number} (h : (Json.num n).Valid) : Reads n.text (.num n) := by
  obtain ⟨c, s, htext, hc⟩ := exists_text h
  have hne {d : Char} (hd : d.isDigit = false ∧ d ≠ '-') : c ≠ d := by
    rintro rfl
    rcases hc with hc | hc
    · rw [hd.1] at hc
      cases hc
    · exact hd.2 hc
  refine .intro (htext ▸ List.cons_ne_nil _ _) fun depth _ rest hrest => ?_
  have hend (d : Char) (hd : d ∈ rest.head?) : isNumeralChar d = false := by
    rcases hrest d hd with rfl | rfl <;> rfl
  have hskip : JsonText.skip (n.text ++ rest) = n.text ++ rest := by
    rw [htext]
    exact skip_cons (by simp [hne (d := ' ') (by decide), hne (d := '\n') (by decide),
      hne (d := '\t') (by decide), hne (d := '\r') (by decide)])
  have hvalue : value? (depth + 1) (n.text ++ rest) =
      (number? (n.text ++ rest)).map fun (n, rest) => (.num n, rest) := by
    rw [value?, hskip, htext, List.cons_append]
    dsimp only
    rw [if_neg (hne (by decide)), if_neg (hne (by decide)), if_neg (hne (by decide)),
      if_neg (hne (by decide)), if_neg (hne (by decide)), if_neg (hne (by decide))]
  rw [hvalue, number?_text h hend]
  rfl

/-! ## Containers -/

theorem length_le_intercalate (sep : List Char) {p : List Char} {ps : List (List Char)} (h : p ∈ ps) :
    p.length ≤ (List.intercalate sep ps).length := by
  obtain ⟨i, hi⟩ := List.mem_iff_getElem?.mp h
  have hmem : p ∈ ps.intersperse sep :=
    List.mem_of_getElem? (List.getElem?_intersperse_two_mul.trans hi)
  exact (List.sublist_flatten_of_mem hmem).length_le

/-- A part of a container on several lines is shorter than the container. -/
theorem length_lt_bracketed (level : ℕ) (o close : Char) {p : List Char} {ps : List (List Char)}
    (h : p ∈ ps) : p.length < (bracketed level o close ps).length := by
  have hmem : lineBreak (level + 1) ++ p ∈ ps.map fun p => lineBreak (level + 1) ++ p :=
    List.mem_map_of_mem h
  have hle := length_le_intercalate [','] hmem
  have hne : ps.isEmpty = false := by simpa using List.ne_nil_of_mem h
  rw [List.length_append] at hle
  rw [bracketed, hne, if_neg Bool.false_ne_true]
  simp only [List.length_append, List.length_cons]
  omega

theorem bracketed_eq_cons (level : ℕ) (o close : Char) (ps : List (List Char)) :
    bracketed level o close ps = o :: (bracketed level o close ps).tail := by
  unfold bracketed
  split <;> rfl

section

variable {part : List Char → Option (α × List Char)} {render : α → List Char} {o close : Char}
  {x : α} {xs : List α} {level fuel : ℕ}

/-- A part in front of the end of a container is the last one. -/
theorem parts?_last (hclose : close = ']' ∨ close = '}')
    (h : part s = some (x, lineBreak level ++ close :: rest)) :
    parts? part close (fuel + 1) s = some ([x], rest) := by
  have hskip : JsonText.skip (lineBreak level ++ close :: rest) = close :: rest := by
    rw [skip_lineBreak]
    rcases hclose with rfl | rfl <;> exact skip_cons (by decide)
  have hcomma : close ≠ ',' := by
    rcases hclose with rfl | rfl <;> decide
  rw [parts?, h, Option.bind_some]
  dsimp only
  rw [hskip]
  dsimp only
  rw [if_neg hcomma, if_pos rfl]

/-- A part in front of a comma is followed by other parts. -/
theorem parts?_comma (h : part s = some (x, ',' :: t)) (ht : parts? part close fuel t = some (xs, rest)) :
    parts? part close (fuel + 1) s = some (x :: xs, rest) := by
  rw [parts?, h, Option.bind_some]
  dsimp only
  rw [skip_cons (by decide)]
  dsimp only
  rw [if_pos rfl, ht]
  rfl

/-- Parts that are read each from its text are read from these texts with a comma between them. -/
theorem parts?_intercalate (hclose : close = ']' ∨ close = '}') (hne : xs ≠ [])
    (h : ∀ x ∈ xs, ∀ rest, Stops rest → part (render x ++ rest) = some (x, rest))
    (hfuel : (List.intercalate [','] (xs.map render)).length < fuel) (rest : List Char) :
    parts? part close fuel
      (List.intercalate [','] (xs.map render) ++ (lineBreak level ++ close :: rest)) =
        some (xs, rest) := by
  induction xs generalizing fuel with
  | nil => exact absurd rfl hne
  | cons x xs ih =>
      obtain ⟨fuel, rfl⟩ : ∃ n, fuel = n + 1 := ⟨fuel - 1, by omega⟩
      cases xs with
      | nil =>
          have hstops : Stops (lineBreak level ++ close :: rest) := by simp [Stops, lineBreak]
          rw [List.map_singleton, List.intercalate_singleton]
          exact parts?_last hclose (h x List.mem_cons_self _ hstops)
      | cons y ys =>
          have hsplit : List.intercalate [','] ((x :: y :: ys).map render) =
              render x ++ ',' :: List.intercalate [','] ((y :: ys).map render) := by
            rw [List.map_cons, List.map_cons, List.intercalate_cons_cons, List.append_assoc]
            rfl
          have hcomma (t : List Char) : Stops (',' :: t) := by simp [Stops]
          rw [hsplit, List.length_append, List.length_cons] at hfuel
          have hys := ih (List.cons_ne_nil y ys) (fun z hz => h z (List.mem_cons_of_mem x hz))
            (show _ < fuel by omega)
          rw [hsplit, List.append_assoc]
          exact parts?_comma (h x List.mem_cons_self _ (hcomma _)) hys

/-- The parts of a container are read from its text on several lines behind the opening bracket. -/
theorem container?_bracketed (hclose : close = ']' ∨ close = '}')
    (hend : ∀ s, (JsonText.skip s).head? = some close → part s = none)
    (h : ∀ x ∈ xs, ∀ rest, Stops rest →
      part (lineBreak (level + 1) ++ render x ++ rest) = some (x, rest))
    (rest : List Char) :
    container? part close ((bracketed level o close (xs.map render)).tail ++ rest) =
      some (xs, rest) := by
  unfold bracketed
  split
  · next hempty =>
      obtain rfl : xs = [] := by simpa using hempty
      rcases hclose with rfl | rfl <;> rfl
  · next hsome =>
      have hne : xs ≠ [] := by simpa using hsome
      have hshape : (o :: List.intercalate [','] ((xs.map render).map fun p => lineBreak (level + 1) ++ p) ++
          lineBreak level ++ [close]).tail ++ rest =
            List.intercalate [','] (xs.map fun x => lineBreak (level + 1) ++ render x) ++
              (lineBreak level ++ close :: rest) := by
        simp [Function.comp_def]
      rw [hshape]
      generalize htext : List.intercalate [','] (xs.map fun x => lineBreak (level + 1) ++ render x) ++
        (lineBreak level ++ close :: rest) = text
      have hparts {n : ℕ} (hn : text.length ≤ n) : parts? part close n text = some (xs, rest) := by
        rw [← htext, List.length_append, List.length_append, List.length_cons] at hn
        rw [← htext]
        exact parts?_intercalate hclose hne h (by omega) rest
      -- There is a first part, so that the container does not end at once.
      have hopen : ¬(JsonText.skip text).head? = some close := fun heq => by
        have hsome := hparts (Nat.le_succ text.length)
        rw [parts?, hend text heq] at hsome
        cases hsome
      rw [container?, if_neg hopen]
      exact hparts le_rfl

end

/-- A container is read from its text on several lines when its parts are. -/
theorem Reads.bracketed {part : ℕ → List Char → Option (α × List Char)} {render : α → List Char}
    {o close : Char} {xs : List α} {level : ℕ} (build : List α → Json)
    (hvalue : ∀ depth t, value? (depth + 1) (o :: t) =
      (container? (part depth) close t).map fun (xs, rest) => (build xs, rest))
    (hclose : close = ']' ∨ close = '}')
    (hend : ∀ depth s, (JsonText.skip s).head? = some close → part depth s = none)
    (h : ∀ x ∈ xs, ∀ depth, (render x).length ≤ depth → ∀ rest, Stops rest →
      part depth (lineBreak (level + 1) ++ render x ++ rest) = some (x, rest)) :
    Reads (bracketed level o close (xs.map render)) (build xs) := by
  have hne : Json.bracketed level o close (xs.map render) ≠ [] := by
    rw [bracketed_eq_cons]
    exact List.cons_ne_nil _ _
  refine .intro hne fun depth hdepth rest _ => ?_
  have hparts (x : α) (hx : x ∈ xs) (rest : List Char) (hrest : Stops rest) :
      part depth (lineBreak (level + 1) ++ render x ++ rest) = some (x, rest) := by
    have hlt := length_lt_bracketed level o close (List.mem_map_of_mem (f := render) hx)
    exact h x hx depth (by omega) rest hrest
  rw [bracketed_eq_cons, List.cons_append, hvalue, container?_bracketed hclose (hend depth) hparts]
  rfl

/-! ## Printed values -/

/-- No value starts with the end of a container. -/
theorem value?_of_close (depth : ℕ) (hc : c = ']' ∨ c = '}') (h : (JsonText.skip s).head? = some c) :
    value? depth s = none := by
  obtain ⟨t, ht⟩ := List.head?_eq_some_iff.mp h
  cases depth with
  | zero => rfl
  | succ depth =>
      rw [value?, ht]
      rcases hc with rfl | rfl <;> rfl

theorem prettyItems_eq_map (level : ℕ) (vs : List Json) :
    prettyItems level vs = vs.map (prettyChars level) := by
  induction vs with
  | nil => rfl
  | cons v vs ih => rw [prettyItems, ih, List.map_cons]

theorem prettyMembers_eq_map (level : ℕ) (ms : Members) :
    prettyMembers level ms = ms.map fun m => quote m.1 ++ ':' :: ' ' :: prettyChars level m.2 := by
  induction ms with
  | nil => rfl
  | cons m ms ih => rw [prettyMembers, ih, List.map_cons]

theorem reads_arr {level : ℕ} {items : List Json}
    (h : ∀ v ∈ items, Reads (prettyChars (level + 1) v) v) :
    Reads (prettyChars level (.arr items)) (.arr items) := by
  rw [prettyChars, prettyItems_eq_map]
  refine .bracketed .arr (fun _ _ => rfl) (.inl rfl) (fun depth _ => value?_of_close depth (.inl rfl))
    fun v hv depth hdepth rest hrest => ?_
  rw [List.append_assoc, value?_eq_of_skip (skip_lineBreak _ _)]
  exact h v hv depth hdepth rest hrest

/-- A member is read from its key, a colon and the text of its value. -/
theorem member?_append {depth : ℕ} {v : Json} (h : value? depth (s ++ rest) = some (v, rest))
    (level : ℕ) (key : String) :
    member? (value? depth) (lineBreak level ++ (quote key ++ ':' :: ' ' :: s) ++ rest) =
      some ((key, v), rest) := by
  have hskip : JsonText.skip (lineBreak level ++ (quote key ++ ':' :: ' ' :: s) ++ rest) =
      '"' :: ((quote key).tail ++ (':' :: ' ' :: (s ++ rest))) := by
    rw [List.append_assoc, skip_lineBreak, List.append_assoc]
    exact skip_cons (by decide)
  have hcolon : JsonText.skip (':' :: ' ' :: (s ++ rest)) = ':' :: ' ' :: (s ++ rest) :=
    skip_cons (by decide)
  have hspace : JsonText.skip (' ' :: (s ++ rest)) = JsonText.skip (s ++ rest) := rfl
  rw [member?, hskip, List.head?_cons, if_pos rfl, List.tail_cons, string?_quote, Option.bind_some]
  dsimp only
  rw [hcolon, List.head?_cons, if_pos rfl, List.tail_cons, value?_eq_of_skip hspace, h]
  rfl

theorem reads_obj {level : ℕ} {members : Members} (hkeys : (members.map Prod.fst).Nodup)
    (h : ∀ m ∈ members, Reads (prettyChars (level + 1) m.2) m.2) :
    Reads (prettyChars level (.obj members)) (.obj members) := by
  have hend (depth : ℕ) (s : List Char) (hs : (JsonText.skip s).head? = some '}') :
      member? (value? depth) s = none := by
    rw [member?, hs, if_neg (by decide)]
  have hread : Reads (prettyChars level (.obj members)) (.obj (Table.ofEntries members)) := by
    rw [prettyChars, prettyMembers_eq_map]
    refine .bracketed (fun ms => .obj (Table.ofEntries ms)) (fun _ _ => rfl) (.inr rfl) hend
      fun m hm depth hdepth rest hrest => ?_
    rw [List.length_append, List.length_cons, List.length_cons] at hdepth
    exact member?_append (h m hm depth (by omega) rest hrest) (level + 1) m.1
  rwa [Table.ofEntries_of_nodup hkeys] at hread

/-- The text of a value on several lines is read as the value, at every level of indentation. -/
theorem reads_prettyChars {v : Json} (h : v.Valid) (level : ℕ) : Reads (prettyChars level v) v := by
  induction h generalizing level with
  | null => exact reads_null
  | bool b => exact reads_bool b
  | integer n => exact reads_number (.integer n)
  | real h => exact reads_number (.real h)
  | str s => exact reads_str s
  | arr _ ih => exact reads_arr fun v hv => ih v hv (level + 1)
  | obj hkeys _ ih => exact reads_obj hkeys fun m hm => ih m hm (level + 1)

/-- A value is read from its text on several lines with a line feed at the end. -/
theorem read_prettyChars {v : Json} (h : v.Valid) :
    read (.ofList (prettyChars 0 v ++ ['\n'])) = some v := by
  have hstops : Stops ['\n'] := by simp [Stops]
  have hvalue := reads_prettyChars h 0 (prettyChars 0 v ++ ['\n']).length (by simp) ['\n'] hstops
  rw [read, String.length_ofList, String.toList_ofList, hvalue]
  rfl

end AgentCompiler.Json.Grammar
