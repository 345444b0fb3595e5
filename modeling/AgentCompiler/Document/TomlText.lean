import AgentCompiler.Document.TomlTable

/-!
# Reading TOML text

Tables and arrays of tables, dotted keys, the four kinds of strings, numbers, arrays and inline tables,
read into a `Node`. Dates and times are well formed but are values of no kind that is asked for.
-/

namespace AgentCompiler.Document.TomlText

open Toml

/-- A reading function: what was read, and the rest of the text. -/
abbrev Reader (α : Type) := List Char → Option (α × List Char)

/-- Skips spaces and tabs. -/
def skipSpaces (s : List Char) : List Char := s.dropWhile fun c => c = ' ' || c = '\t'

/-- Skips a comment. -/
def skipComment (s : List Char) : List Char :=
  match s with
  | '#' :: r => r.dropWhile (· ≠ '\n')
  | r => r

/-- How many characters of spaces, line ends and comments come next. -/
def gapLength : (comment : Bool) → List Char → Nat
  | _, [] => 0
  | comment, c :: cs =>
    if c = '\n' then gapLength false cs + 1
    else if comment then gapLength true cs + 1
    else if c = '#' then gapLength true cs + 1
    else if c = ' ' || c = '\t' then gapLength false cs + 1
    else 0

/-- Skips spaces, line ends and comments. -/
def skipGap (s : List Char) : List Char := s.drop (gapLength false s)

/-! ## Strings -/

/-- The value of a hexadecimal numeral. -/
def hex? (ds : List Char) : Option Nat :=
  ds.foldlM (fun n c =>
    if c.isDigit then some (n * 16 + (c.toNat - '0'.toNat))
    else if 'a' ≤ c ∧ c ≤ 'f' then some (n * 16 + (c.toNat - 'a'.toNat + 10))
    else if 'A' ≤ c ∧ c ≤ 'F' then some (n * 16 + (c.toNat - 'A'.toNat + 10))
    else none) 0

/-- The character with a code, written with a number of digits. -/
def code? (digits : Nat) (s : List Char) : Option Char := do
  let ds := s.take digits
  if ds.length ≠ digits then none
  let n ← hex? ds
  if h : n.isValidChar then some (Char.ofNatAux n h) else none

/-- The character that an escape of one letter stands for. -/
def escape? (c : Char) : Option Char :=
  [('b', '\x08'), ('t', '\t'), ('n', '\n'), ('f', '\x0c'), ('r', '\r'), ('"', '"'),
    ('\\', '\\')].lookup c

/-- A character that may stand in a string. -/
def isText (c : Char) : Bool := c = '\t' || (decide (0x20 ≤ c.toNat) && c ≠ '\x7f')

/-- A string on one line, behind its opening quote. -/
def basicString : (fuel : Nat) → Reader (List Char)
  | 0, _ => none
  | fuel + 1, s =>
    match s with
    | '"' :: r => some ([], r)
    | '\\' :: 'u' :: r => do
      let c ← code? 4 r
      let (cs, r) ← basicString fuel (r.drop 4)
      some (c :: cs, r)
    | '\\' :: 'U' :: r => do
      let c ← code? 8 r
      let (cs, r) ← basicString fuel (r.drop 8)
      some (c :: cs, r)
    | '\\' :: e :: r => do
      let c ← escape? e
      let (cs, r) ← basicString fuel r
      some (c :: cs, r)
    | c :: r =>
      if isText c && c ≠ '\\' then do
        let (cs, r) ← basicString fuel r
        some (c :: cs, r)
      else none
    | [] => none

/-- A string without escapes on one line, behind its opening quote. -/
def literalString : Reader (List Char)
  | [] => none
  | c :: r =>
    if c = '\'' then some ([], r)
    else if isText c then do
      let (cs, r) ← literalString r
      some (c :: cs, r)
    else none

/-- How many quotes end a string of several lines, where they stand: three close it, and up to two more
belong to it. -/
def closing (quote : Char) (s : List Char) : Option Nat :=
  let n := (s.takeWhile (· = quote)).length
  if n < 3 then none else some (min (n - 3) 2)

/-- A string of several lines, behind its opening quotes. -/
def multilineString (quote : Char) : (fuel : Nat) → Reader (List Char)
  | 0, _ => none
  | fuel + 1, s =>
    match closing quote s with
    | some extra => some (List.replicate extra quote, s.drop (3 + extra))
    | none =>
      match s with
      | [] => none
      | c :: r =>
        if c = '\\' && quote = '"' then
          match r with
          | 'u' :: r => do
            let c ← code? 4 r
            let (cs, r) ← multilineString quote fuel (r.drop 4)
            some (c :: cs, r)
          | 'U' :: r => do
            let c ← code? 8 r
            let (cs, r) ← multilineString quote fuel (r.drop 8)
            some (c :: cs, r)
          | e :: r' =>
            match escape? e with
            | some c => do
              let (cs, r) ← multilineString quote fuel r'
              some (c :: cs, r)
            | none =>
              match skipSpaces r with
              | '\n' :: _ =>
                multilineString quote fuel (r.dropWhile fun c => c = ' ' || c = '\t' || c = '\n')
              | _ => none
          | [] => none
        else if isText c || c = '\n' then do
          let (cs, r) ← multilineString quote fuel r
          some (c :: cs, r)
        else none

/-- A line feed right behind the opening quotes does not count. -/
def dropFirstBreak (s : List Char) : List Char :=
  match s with
  | '\n' :: r => r
  | r => r

/-- A string of any kind. -/
def string? : Reader (List Char)
  | '"' :: '"' :: '"' :: r => multilineString '"' (r.length + 1) (dropFirstBreak r)
  | '\'' :: '\'' :: '\'' :: r => multilineString '\'' (r.length + 1) (dropFirstBreak r)
  | '"' :: r => basicString (r.length + 1) r
  | '\'' :: r => literalString r
  | _ => none

/-! ## Keys -/

/-- A character of a key without quotes. -/
def isBare (c : Char) : Bool := c.isAlphanum || c = '_' || c = '-'

/-- One component of a key. -/
def simpleKey (s : List Char) : Option (String × List Char) :=
  match s with
  | '"' :: '"' :: '"' :: _ => none
  | '\'' :: '\'' :: '\'' :: _ => none
  | '"' :: r => (basicString (r.length + 1) r).map fun (cs, r) => (.ofList cs, r)
  | '\'' :: r => (literalString r).map fun (cs, r) => (.ofList cs, r)
  | r =>
    let name := r.takeWhile isBare
    if name.isEmpty then none else some (.ofList name, r.drop name.length)

/-- A key: components between points. -/
def key : (fuel : Nat) → Reader (List String)
  | 0, _ => none
  | fuel + 1, s => do
    let (first, r) ← simpleKey s
    match skipSpaces r with
    | '.' :: r =>
      let (rest, r) ← key fuel (skipSpaces r)
      some (first :: rest, r)
    | _ => some ([first], r)

/-! ## Scalars -/

/-- Digits with single underscores between them, the underscores left out. -/
def digits? (isDigit : Char → Bool) (s : List Char) : Option (List Char) :=
  let groups := s.splitOn '_'
  if groups.all fun g => !g.isEmpty && g.all isDigit then some groups.flatten else none

/-- The sign of a number and what follows it. -/
def splitSign (s : List Char) : Bool × List Char :=
  match s with
  | '-' :: r => (true, r)
  | '+' :: r => (false, r)
  | r => (false, r)

/-- The value of decimal digits. -/
def decimal (ds : List Char) : Nat := ds.foldl (fun n c => n * 10 + (c.toNat - '0'.toNat)) 0

/-- The value of digits of a base that is a power of two. -/
def based? (base : Nat) (s : List Char) : Option Nat := do
  let isDigit (c : Char) : Bool := ((hex? [c]).map fun d => decide (d < base)).getD false
  let ds ← digits? isDigit s
  some (ds.foldl (fun n c => n * base + (hex? [c]).getD 0) 0)

/-- Digits without a needless zero in front. -/
def wholeDigits? (s : List Char) : Option (List Char) := do
  let ds ← digits? Char.isDigit s
  if ds.length ≠ 1 && ds.head? = some '0' then none else some ds

/-- An integer. -/
def int? (s : List Char) : Option Int :=
  match s with
  | '0' :: 'x' :: r => (based? 16 r).map Int.ofNat
  | '0' :: 'o' :: r => (based? 8 r).map Int.ofNat
  | '0' :: 'b' :: r => (based? 2 r).map Int.ofNat
  | s =>
    let (negative, r) := splitSign s
    (wholeDigits? r).map fun ds => if negative then -(decimal ds : Int) else decimal ds

/-- A floating-point number. -/
def real? (s : List Char) : Option Binary64 := do
  let (negative, r) := splitSign s
  if r = "inf".toList then return .infinity negative
  if r = "nan".toList then return .nan
  let mantissa := r.takeWhile fun c => c ≠ 'e' && c ≠ 'E'
  let exponent ← match r.drop mantissa.length with
    | [] => some (none : Option Int)
    | _ :: e =>
      let (minus, ds) := splitSign e
      (digits? Char.isDigit ds).map fun ds => some (if minus then -(decimal ds : Int) else decimal ds)
  let whole ← wholeDigits? (mantissa.takeWhile (· ≠ '.'))
  let fraction ← match mantissa.dropWhile (· ≠ '.') with
    | [] => some []
    | _ :: f => digits? Char.isDigit f
  if mantissa.all (· ≠ '.') && exponent.isNone then none
  some (.ofDecimal negative (decimal (whole ++ fraction)) (exponent.getD 0 - fraction.length))

/-- Whether a word looks like a date or a time: its digits and marks stand where they should. -/
def isMoment (s : List Char) : Bool :=
  let shape := s.map fun c => if c.isDigit then '0' else c
  "0000-00-00".toList.isPrefixOf shape || "00:00:00".toList.isPrefixOf shape

/-- A character of a word. -/
def isWord (c : Char) : Bool := isBare c || c = '+' || c = '.' || c = ':'

/-- A truth value, a number or a moment. -/
def word? (s : List Char) : Option Node :=
  if s = "true".toList then some (.bool true)
  else if s = "false".toList then some (.bool false)
  else
    match int? s with
    | some n => if -(Nat.pow 2 63 : Int) ≤ n ∧ n < Nat.pow 2 63 then some (.num (some (.integer n))) else none
    | none =>
      match real? s with
      | some x => some (.num (some (.real x)))
      | none => if isMoment s then some (.num none) else none

/-! ## Values -/

mutual
/-- A value. -/
def value : (fuel : Nat) → Reader Node
  | 0, _ => none
  | fuel + 1, s =>
    match s with
    | '[' :: r => (items fuel (skipGap r)).map fun (ns, r) => (.seq ns true, r)
    | '{' :: r =>
      match skipSpaces r with
      | '}' :: r => some (.map [] true, r)
      | r => (members fuel [] r).map fun (t, r) => (.map (Part.entries t) true, r)
    | '"' :: _ | '\'' :: _ => (string? s).map fun (cs, r) => (.str (some (.ofList cs)), r)
    | s => do
      let word := s.takeWhile isWord
      let rest := s.drop word.length
      -- A date and a time may stand apart.
      let word := match rest with
        | ' ' :: r =>
          if isMoment word && isMoment (r.takeWhile isWord) then word ++ ' ' :: r.takeWhile isWord
          else word
        | _ => word
      let n ← word? word
      some (n, s.drop word.length)
/-- The values of an array, behind its bracket. -/
def items : (fuel : Nat) → Reader (List Node)
  | 0, _ => none
  | fuel + 1, s =>
    match s with
    | ']' :: r => some ([], r)
    | s => do
      let (n, r) ← value fuel s
      match skipGap r with
      | ',' :: r =>
        let (ns, r) ← items fuel (skipGap r)
        some (n :: ns, r)
      | ']' :: r => some ([n], r)
      | _ => none
/-- The members of an inline table, behind its brace or a comma. -/
def members : (fuel : Nat) → Table Part → Reader (Table Part)
  | 0, _, _ => none
  | fuel + 1, t, s => do
    let (path, r) ← key fuel s
    match skipSpaces r with
    | '=' :: r =>
      let (n, r) ← value fuel (skipSpaces r)
      let t ← define n path t
      match skipSpaces r with
      | ',' :: r => members fuel t (skipSpaces r)
      | '}' :: r => some (t, r)
      | _ => none
    | _ => none
end

/-! ## Documents -/

/-- Checks that nothing but a comment follows on the line. -/
def endLine (s : List Char) : Option (List Char) :=
  match skipComment (skipSpaces s) with
  | [] => some []
  | '\n' :: r => some r
  | _ => none

/-- Reads the lines of a document into a table, `path` being the last header. -/
def lines : (fuel : Nat) → (path : List String) → Table Part → List Char → Option (Table Part)
  | 0, _, _, _ => none
  | fuel + 1, path, t, s =>
    match skipGap s with
    | [] => some t
    | '[' :: '[' :: r => do
      let (header, r) ← key fuel (skipSpaces r)
      match skipSpaces r with
      | ']' :: ']' :: r =>
        let last ← header.getLast?
        let t ← atHeader header.dropLast (appendTable last) t
        lines fuel header t (← endLine r)
      | _ => none
    | '[' :: r => do
      let (header, r) ← key fuel (skipSpaces r)
      match skipSpaces r with
      | ']' :: r =>
        let last ← header.getLast?
        let t ← atHeader header.dropLast (defineTable last) t
        lines fuel header t (← endLine r)
      | _ => none
    | s => do
      let (name, r) ← key fuel s
      match skipSpaces r with
      | '=' :: r =>
        let (n, r) ← value fuel (skipSpaces r)
        let t ← atHeader path (define n name) t
        lines fuel path t (← endLine r)
      | _ => none

/-- Line ends of other systems as line feeds. -/
def normalize : List Char → List Char
  | '\r' :: '\n' :: cs => '\n' :: normalize cs
  | c :: cs => c :: normalize cs
  | [] => []

/-- The table of a document; none when its text is not well formed. No control character but the tab and
the line feed may stand in it, not even in a comment. -/
def read? (text : String) : Option Node := do
  let s := normalize text.toList
  let s := match s with
    | '\ufeff' :: r => r
    | r => r
  if s.any fun c => !isText c && c ≠ '\n' then none
  let t ← lines (s.length + 2) [] [] s
  some (.map (Part.entries t) true)

end AgentCompiler.Document.TomlText
