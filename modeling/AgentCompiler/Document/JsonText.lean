import AgentCompiler.Document.Node

/-!
# Reading JSON text

The grammar of RFC 8259, read into a `Node`. A reading function returns what it read and, when the text
is well formed so far, what is left of it. Integers that fit sixty-four bits stay integers; any other
number is a floating-point value, made from as many of its digits as fit sixty-four bits.
-/

namespace AgentCompiler.Document.JsonText

/-- Skips spaces, tabs and line ends. -/
def skip (s : List Char) : List Char :=
  s.dropWhile fun c => c = ' ' || c = '\n' || c = '\t' || c = '\r'

/-! ## Numbers -/

/-- The value of a digit. -/
def digitOf (c : Char) : Nat := c.toNat - '0'.toNat

/-- The largest integer of sixty-four bits. -/
def maxWord : Nat := Nat.pow 2 64 - 1

/-- Digits taken into a word until the next one would not fit: the word, how many were taken, and how
many were left. -/
def takeDigits (word : Nat) : List Char → Nat × Nat × Nat
  | [] => (word, 0, 0)
  | c :: cs =>
    let next := word * 10 + digitOf c
    if maxWord < next then (word, 0, (c :: cs).length)
    else
      let (w, taken, left) := takeDigits next cs
      (w, taken + 1, left)

/-- An exponent's digits as a number, which is cut off where it can no longer matter. -/
def exponentOf (digits : List Char) : Nat :=
  min (digits.foldl (fun n c => n * 10 + digitOf c) 0) (Nat.pow 2 31 - 1)

/-- The parts of a number's text. -/
structure Numeral where
  negative : Bool
  whole : List Char
  fraction : Option (List Char)
  exponent : Option Int

/-- The value of a numeral; none when it is too large. Minus zero is no integer. -/
def Numeral.value (n : Numeral) : Option Number :=
  let (word, _, left) := takeDigits 0 n.whole
  if n.fraction.isNone && n.exponent.isNone && left = 0 &&
      (!n.negative || decide (0 < word ∧ word ≤ Nat.pow 2 63)) then
    some (.integer (if n.negative then -word else word))
  else
    let (word, taken, _) := takeDigits word (n.fraction.getD [])
    (Binary64.scaled? n.negative word ((left : Int) - taken + n.exponent.getD 0)).map .real

/-- Splits the digits off the front of a text. -/
def spanDigits (s : List Char) : List Char × List Char := s.span Char.isDigit

/-- Reads a numeral: no needless zero in front, and digits after a point and in an exponent. -/
def readNumeral (s : List Char) : Option (Numeral × List Char) := do
  let (negative, s) := match s with
    | '-' :: r => (true, r)
    | r => (false, r)
  let (whole, s) := spanDigits s
  if whole.isEmpty || (whole.length ≠ 1 && whole.head? = some '0') then none
  let (fraction, s) ← match s with
    | '.' :: r =>
      let (ds, r) := spanDigits r
      if ds.isEmpty then none else some (some ds, r)
    | r => some (none, r)
  let (exponent, s) ← match s with
    | c :: r =>
      if c = 'e' || c = 'E' then
        let (minus, r) := match r with
          | '-' :: r => (true, r)
          | '+' :: r => (false, r)
          | r => (false, r)
        let (ds, r) := spanDigits r
        if ds.isEmpty then none
        else some (some (if minus then -(exponentOf ds : Int) else exponentOf ds), r)
      else some (none, c :: r)
    | [] => some (none, [])
  some (⟨negative, whole, fraction, exponent⟩, s)

/-! ## Strings -/

/-- The value of a hexadecimal digit. -/
def hexValue (c : Char) : Option Nat :=
  if c.isDigit then some (digitOf c)
  else if 'a' ≤ c ∧ c ≤ 'f' then some (c.toNat - 'a'.toNat + 10)
  else if 'A' ≤ c ∧ c ≤ 'F' then some (c.toNat - 'A'.toNat + 10)
  else none

/-- Four hexadecimal digits. -/
def hexUnit (a b c d : Char) : Option Nat := do
  some ((((← hexValue a) * 16 + (← hexValue b)) * 16 + (← hexValue c)) * 16 + (← hexValue d))

/-- The character that a letter stands for after a backslash. -/
def simpleEscape (c : Char) : Option Char :=
  match c with
  | '"' => some '"'
  | '\\' => some '\\'
  | '/' => some '/'
  | 'b' => some '\x08'
  | 'f' => some '\x0c'
  | 'n' => some '\n'
  | 'r' => some '\r'
  | 't' => some '\t'
  | _ => none

/-- A piece of a string: a character, or a unit of UTF-16. -/
inductive Piece
  | char (c : Char)
  | unit (n : Nat)

/-- Reads the pieces of a string up to its closing quote. -/
def readPieces : List Char → Option (List Piece × List Char)
  | [] => none
  | '"' :: s => some ([], s)
  | '\\' :: 'u' :: a :: b :: c :: d :: s => do
    let n ← hexUnit a b c d
    let (ps, s) ← readPieces s
    some (.unit n :: ps, s)
  | '\\' :: e :: s => do
    let c ← simpleEscape e
    let (ps, s) ← readPieces s
    some (.char c :: ps, s)
  | c :: s =>
    if c.toNat < 0x20 || c = '\\' then none
    else do
      let (ps, s) ← readPieces s
      some (.char c :: ps, s)

/-- A unit of UTF-16 that opens a pair. -/
def isHigh (n : Nat) : Bool := decide (0xd800 ≤ n ∧ n < 0xdc00)

/-- A unit of UTF-16 that closes a pair. -/
def isLow (n : Nat) : Bool := decide (0xdc00 ≤ n ∧ n < 0xe000)

/-- The characters of a string; none when a unit of a pair stands alone. -/
def charsOf : List Piece → Option (List Char)
  | [] => some []
  | .char c :: ps => (charsOf ps).map (c :: ·)
  | .unit n :: .unit m :: ps =>
    if isHigh n then
      if isLow m then (charsOf ps).map (Char.ofNat (0x10000 + (n - 0xd800) * 0x400 + (m - 0xdc00)) :: ·)
      else none
    else if isLow n then none
    else (charsOf (.unit m :: ps)).map (Char.ofNat n :: ·)
  | .unit n :: ps =>
    if isHigh n || isLow n then none else (charsOf ps).map (Char.ofNat n :: ·)

/-- Reads a string behind its opening quote. -/
def readString (s : List Char) : Option (Option String × List Char) :=
  (readPieces s).map fun (ps, r) => ((charsOf ps).map String.ofList, r)

/-! ## Values -/

/-- What was read, and the rest of a text that is well formed so far. -/
abbrev Result (α : Type) := α × Option (List Char)

/-- Reads a word that stands for a value. -/
def readWord (word : String) (value : Node) (s : List Char) : Result Node :=
  if word.toList.isPrefixOf s then (value, some (s.drop word.length)) else (.broken, none)

/-- Reads the entries of a mapping from a key on, and whether its end was reached. -/
def readEntries (value : List Char → Result Node) :
    (fuel : Nat) → List Char → Result (List (Key × Node) × Bool)
  | 0, _ => (([], false), none)
  | fuel + 1, s =>
    match skip s with
    | '"' :: s =>
      match readString s with
      | none => (([], false), none)
      | some (key, s) =>
        let key := (key.map Key.text).getD .broken
        match skip s with
        | ':' :: s =>
          match value s with
          | (v, none) => (([(key, v)], false), none)
          | (v, some s) =>
            match skip s with
            | ',' :: s =>
              let ((es, ended), rest) := readEntries value fuel s
              (((key, v) :: es, ended), rest)
            | '}' :: s => (([(key, v)], true), some s)
            | _ => (([(key, v)], false), none)
        | _ => (([(key, .broken)], false), none)
    | _ => (([], false), none)

/-- Reads the items of a sequence, and whether its end was reached. -/
def readItems (value : List Char → Result Node) :
    (fuel : Nat) → List Char → Result (List Node × Bool)
  | 0, _ => (([], false), none)
  | fuel + 1, s =>
    match value s with
    | (v, none) => (([v], false), none)
    | (v, some s) =>
      match skip s with
      | ',' :: s =>
        let ((vs, ended), rest) := readItems value fuel s
        ((v :: vs, ended), rest)
      | ']' :: s => (([v], true), some s)
      | _ => (([v], false), none)

/-- Reads a value. Each container takes one from `fuel`, and a text has no more of them than
characters. -/
def readValue : (fuel : Nat) → List Char → Result Node
  | 0, _ => (.broken, none)
  | fuel + 1, s =>
    match skip s with
    | '{' :: s =>
      match skip s with
      | '}' :: s => (.map [] true, some s)
      | s =>
        let ((es, ended), rest) := readEntries (readValue fuel) s.length s
        (.map es ended, rest)
    | '[' :: s =>
      match skip s with
      | ']' :: s => (.seq [] true, some s)
      | s =>
        let ((vs, ended), rest) := readItems (readValue fuel) s.length s
        (.seq vs ended, rest)
    | '"' :: s =>
      match readString s with
      | some (t, s) => (.str t, some s)
      | none => (.broken, none)
    | 'n' :: s => readWord "null" .null ('n' :: s)
    | 't' :: s => readWord "true" (.bool true) ('t' :: s)
    | 'f' :: s => readWord "false" (.bool false) ('f' :: s)
    | s =>
      match readNumeral s with
      | some (n, s) => (.num n.value, some s)
      | none => (.broken, none)

/-- Reads a document: one value, with nothing but white space after it. -/
def read (s : List Char) : Parsed :=
  let (root, rest) := readValue (s.length + 1) s
  { root, ended := (rest.map skip) = some [] }

end AgentCompiler.Document.JsonText

namespace AgentCompiler.Json

open Document in
/-- Reads the text of one JSON value; none when it is not well formed or nests too deep. -/
def read? (s : String) : Option Json :=
  let doc := JsonText.read s.toList
  if doc.ended then doc.root.toJson? maxDepth else none

end AgentCompiler.Json
