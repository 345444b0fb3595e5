import AgentCompiler.Document.Node

/-!
# Reading YAML text

Block and flow collections, the five styles of scalars, comments, anchors and aliases, and the marks
around a document, read into a `Node`. Scalars without quotes are kept as they are written, since what
they stand for depends on where they stand. A text holds one document.

A reading step takes the text from a cursor and has no result when the text is not well formed. A step
that may open containers takes one from its fuel each time; a text has no more of them than characters.
-/

namespace AgentCompiler.Document.YamlText

/-! ## The cursor -/

/-- A place in the text, and what was given a name before it. -/
structure Cursor where
  rest : List Char
  column : Nat := 0
  line : Nat := 0
  anchors : List (String × Node) := []

/-- A step that reads. -/
abbrev Step (α : Type) := StateT Cursor Option α

/-- The cursor behind the next character. -/
def Cursor.next (c : Cursor) : Cursor :=
  match c.rest with
  | [] => c
  | '\n' :: r => { c with rest := r, column := 0, line := c.line + 1 }
  | _ :: r => { c with rest := r, column := c.column + 1 }

/-- The cursor some characters further. -/
def Cursor.skip (c : Cursor) : (n : Nat) → Cursor
  | 0 => c
  | n + 1 => c.next.skip n

/-- A space or a tab. -/
def isSpace (c : Char) : Bool := c = ' ' || c = '\t'

/-- A space, a tab or a line end, or the end of the text. -/
def isGap : List Char → Bool
  | [] => true
  | c :: _ => isSpace c || c = '\n'

/-- A character that structures a flow collection. -/
def isFlowMark (c : Char) : Bool := [',', '[', ']', '{', '}'].contains c

/-- Whether the cursor stands at an indicator of block structure: the mark, and a gap after it. -/
def Cursor.atMark (c : Cursor) (mark : Char) : Bool :=
  match c.rest with
  | d :: r => d == mark && isGap r
  | [] => false

/-- Whether the document ends here: at a line of three dashes or points, or at the end of the text. -/
def Cursor.atEnd (c : Cursor) : Bool :=
  match c.rest with
  | [] => true
  | '-' :: '-' :: '-' :: r | '.' :: '.' :: '.' :: r => c.column == 0 && isGap r
  | _ => false

/-- How many characters of spaces, line ends and comments come next. Tabs count where they are allowed,
which they are in a flow collection, and else only behind something on the same line. -/
def gapLength (flow : Bool) : (tabs comment : Bool) → List Char → Nat
  | _, _, [] => 0
  | tabs, comment, c :: cs =>
    if c = '\n' then gapLength flow flow false cs + 1
    else if comment then gapLength flow tabs true cs + 1
    else if c = ' ' || (c = '\t' && tabs) then gapLength flow tabs false cs + 1
    else if c = '#' then gapLength flow tabs true cs + 1
    else 0

/-- Goes to the next token. -/
def toToken (flow tabs : Bool) : Step Unit :=
  modify fun c => c.skip (gapLength flow (flow || tabs) false c.rest)

/-- Goes on by some characters. -/
def advance (n : Nat) : Step Unit := modify (·.skip n)

/-! ## Scalars -/

/-- Folded line ends: one becomes a space, and of several the first is dropped. -/
def folded (breaks : Nat) : List Char :=
  if breaks = 1 then [' '] else List.replicate (breaks - 1) '\n'

/-- The part of a scalar without quotes that stands on this line, given the spaces before. -/
def plainLine (flow : Bool) (spaces : List Char) : List Char → List Char
  | [] => []
  | c :: cs =>
    if c = '\n' then []
    else if isSpace c then plainLine flow (c :: spaces) cs
    else if c = '#' && !spaces.isEmpty then []
    else if c = ':' && (isGap cs || (flow && (cs.head?.map isFlowMark).getD false)) then []
    else if flow && isFlowMark c then []
    else spaces.reverse ++ c :: plainLine flow [] cs

/-- Whether a scalar without quotes may start here. -/
def startsPlain (flow : Bool) : List Char → Bool
  | [] => false
  | c :: cs =>
    if c = '-' then !isGap cs
    else if c = '?' || c = ':' then !flow && !isGap cs
    else !isGap [c] && !(",[]{}#&*!|>'\"%@`".toList.contains c)

/-- White space of a scalar that goes on over lines: how many characters there are, how many line ends
among them, and the column behind it. -/
def lineGap : (column : Nat) → List Char → Nat × Nat × Nat
  | column, [] => (0, 0, column)
  | column, c :: cs =>
    if c = '\n' then
      let (n, breaks, col) := lineGap 0 cs
      (n + 1, breaks + 1, col)
    else if isSpace c then
      let (n, breaks, col) := lineGap (column + 1) cs
      (n + 1, breaks, col)
    else (0, 0, column)

/-- The lines of a scalar without quotes that follow its first one. In block structure they stand deeper
than `indent`, which is one more than the column of the collection around. -/
def plainLines (flow : Bool) (indent : Nat) : (fuel : Nat) → Step (List Char)
  | 0 => pure []
  | fuel + 1 => do
    let c ← get
    let (n, breaks, _) := lineGap c.column c.rest
    let d := c.skip n
    let line := if d.rest.head? = some '#' then [] else plainLine flow [] d.rest
    if breaks = 0 || line.isEmpty || d.atEnd || (!flow && decide (d.column < indent)) then pure []
    else
      set (d.skip line.length)
      let more ← plainLines flow indent fuel
      pure (folded breaks ++ line ++ more)

/-- The value of a hexadecimal numeral. -/
def hex? (ds : List Char) : Option Nat :=
  ds.foldlM (fun n c =>
    if c.isDigit then some (n * 16 + (c.toNat - '0'.toNat))
    else if 'a' ≤ c ∧ c ≤ 'f' then some (n * 16 + (c.toNat - 'a'.toNat + 10))
    else if 'A' ≤ c ∧ c ≤ 'F' then some (n * 16 + (c.toNat - 'A'.toNat + 10))
    else none) 0

/-- The character with a code; none when there is no such character. -/
def char? (n : Nat) : Option Char := if h : n.isValidChar then some (Char.ofNatAux n h) else none

/-- The character that an escape of one letter stands for. -/
def escape? (c : Char) : Option Char :=
  [('0', '\x00'), ('a', '\x07'), ('b', '\x08'), ('t', '\t'), ('\t', '\t'), ('n', '\n'), ('v', '\x0b'),
    ('f', '\x0c'), ('r', '\r'), ('e', '\x1b'), (' ', ' '), ('"', '"'), ('/', '/'), ('\\', '\\'),
    ('N', '\x85'), ('_', '\xa0'), ('L', '\u2028'), ('P', '\u2029')].lookup c

/-- How many hexadecimal digits follow the letter of an escape. -/
def escapeDigits? (c : Char) : Option Nat := [('x', 2), ('u', 4), ('U', 8)].lookup c

/-- The text in quotes up to the closing one. -/
def quotedText (double : Bool) : (fuel : Nat) → Step (List Char)
  | 0 => failure
  | fuel + 1 => do
    let c ← get
    match c.rest with
    | [] => failure
    | ch :: cs =>
      if double && ch = '"' then do advance 1; pure []
      else if !double && ch = '\'' then
        match cs with
        | '\'' :: _ => do advance 2; pure ('\'' :: (← quotedText double fuel))
        | _ => do advance 1; pure []
      else if double && ch = '\\' then
        match cs with
        | '\n' :: r =>
          advance (2 + (r.takeWhile isSpace).length)
          quotedText double fuel
        | e :: r =>
          match escapeDigits? e with
          | some n =>
            let ds := r.take n
            let ch ← (if ds.length = n then (hex? ds).bind char? else none : Option Char)
            advance (2 + n)
            pure (ch :: (← quotedText double fuel))
          | none =>
            let ch ← (escape? e : Option Char)
            advance 2
            pure (ch :: (← quotedText double fuel))
        | [] => failure
      else if isSpace ch || ch = '\n' then
        let (n, breaks, _) := lineGap c.column c.rest
        let d := c.skip n
        if breaks ≠ 0 && d.atEnd then failure
        set d
        let more ← quotedText double fuel
        pure ((if breaks = 0 then c.rest.take n else folded breaks) ++ more)
      else do
        advance 1
        pure (ch :: (← quotedText double fuel))

/-! ### Block scalars -/

/-- What becomes of the line ends at the end of a block scalar. -/
inductive Chomp
  | strip
  | clip
  | keep
deriving DecidableEq

/-- The indicators behind the mark of a block scalar: how its end is treated, and its indentation. -/
def header? : List Char → Option (Chomp × Option Nat)
  | [] => some (.clip, none)
  | ['-'] => some (.strip, none)
  | ['+'] => some (.keep, none)
  | [d] => if d.isDigit && d ≠ '0' then some (.clip, some (d.toNat - '0'.toNat)) else none
  | ['-', d] | [d, '-'] => if d.isDigit && d ≠ '0' then some (.strip, some (d.toNat - '0'.toNat)) else none
  | ['+', d] | [d, '+'] => if d.isDigit && d ≠ '0' then some (.keep, some (d.toNat - '0'.toNat)) else none
  | _ => none

/-- How many spaces a line starts with. -/
def leadingSpaces (l : List Char) : Nat := (l.takeWhile (· = ' ')).length

/-- The lines that belong to a block scalar: the ones that are indented enough or hold nothing but too
few spaces. -/
def blockLines (indent : Nat) (lines : List (List Char)) : List (List Char) :=
  lines.takeWhile fun l => indent ≤ leadingSpaces l || l.all (· = ' ')

/-- Whether a line of a block scalar starts with a blank, so that no line end beside it is folded. -/
def isDeeper (l : List Char) : Bool := (l.head?.map isSpace).getD false

/-- A block scalar from its lines: the text, the line end after the last line that holds any, and the
empty lines behind that. `pending` is the line end that has not been written yet, `empties` the number
of empty lines since then, and `deeper` tells of the line before. -/
def blockText (fold : Bool) : (pending : List Char) → (empties : Nat) → (deeper : Bool) →
    List (List Char) → List Char × List Char × Nat
  | pending, empties, _, [] => ([], pending, empties)
  | pending, empties, deeper, l :: ls =>
    if l.isEmpty then blockText fold pending (empties + 1) deeper ls
    else
      let here := isDeeper l
      let break_ :=
        if fold && !pending.isEmpty && !deeper && !here then
          if empties = 0 then [' '] else []
        else pending
      let (text, pending, rest) := blockText fold ['\n'] 0 here ls
      (break_ ++ List.replicate empties '\n' ++ l ++ text, pending, rest)

/-- The indentation of a block scalar without an indicator: that of its first line that holds anything,
no less than what an empty line before it has, and deeper than the collection around. -/
def blockIndent (least : Nat) (lines : List (List Char)) : Nat :=
  let empties := lines.takeWhile fun l => l.all (· = ' ')
  let first := (lines.drop empties.length).head?
  max least ((empties ++ first.toList).foldl (fun m l => max m (leadingSpaces l)) 0)

/-- Reads a block scalar, whose mark the cursor stands at. -/
def blockScalar (indent : Nat) : Step Node := do
  let c ← get
  let fold := c.rest.head? = some '>'
  let headerLine := c.rest.takeWhile (· ≠ '\n')
  let indicators := (headerLine.drop 1).takeWhile fun ch => !isSpace ch && ch ≠ '#'
  let after := (headerLine.drop (1 + indicators.length)).dropWhile isSpace
  if !after.isEmpty && after.head? ≠ some '#' then failure
  let (chomp, given) ← (header? indicators : Option _)
  let lines := (c.rest.drop (headerLine.length + 1)).splitOn '\n'
  let deep := match given with
    | some n => indent - 1 + n
    | none => blockIndent (max indent 1) lines
  let mine := blockLines deep lines
  let (text, pending, empties) := blockText fold [] 0 false (mine.map (·.drop deep))
  let atEnd := mine.length = lines.length
  let taken := mine.foldl (fun n l => n + l.length + 1) 0
  advance (headerLine.length + 1 + taken - if atEnd then 1 else 0)
  -- At the end of the text the last piece is no line, or a line without an end.
  let last := (mine.getLast?.getD []).drop deep
  let empties := if atEnd && last.isEmpty then empties - 1 else empties
  let pending := if atEnd && !last.isEmpty then [] else pending
  let tail := match chomp with
    | .strip => []
    | .clip => pending
    | .keep => pending ++ List.replicate empties '\n'
  pure (.str (some (.ofList (text ++ tail))))

/-! ## Nodes -/

/-- The name of an anchor or an alias: letters, digits, underscores and hyphens, up to a space or a mark
that may follow a name. -/
def nameOf? (cs : List Char) : Option (List Char) :=
  let name := cs.takeWhile fun c => c.isAlphanum || c = '_' || c = '-'
  let ends := match cs.drop name.length with
    | [] => true
    | c :: _ => isSpace c || ['\n', '?', ':', ',', ']', '}', '%', '@', '\x60'].contains c
  if ends && !name.isEmpty then some name else none

/-- The key that a scalar stands for. -/
def keyOf? : Node → Option Key
  | .str s => s.map .text
  | .plain s => some (.plain s)
  | _ => none

/-- Gives a name to a node. -/
def bind (name : Option String) (n : Node) : Step Node := do
  if let some name := name then
    modify fun c => { c with anchors := (name, n) :: c.anchors }
  pure n

/-- Reads an anchor in front of a node. -/
def anchor (flow : Bool) : Step (Option String) := do
  let c ← get
  match c.rest with
  | '&' :: cs =>
    let name ← (nameOf? cs : Option (List Char))
    advance (1 + name.length)
    toToken flow true
    pure (some (.ofList name))
  | _ => pure none

/-- Reads an alias. -/
def aliasNode : Step Node := do
  let c ← get
  let name ← (nameOf? (c.rest.drop 1) : Option (List Char))
  advance (1 + name.length)
  (c.anchors.lookup (.ofList name) : Option Node)

/-- Reads a scalar in quotes. -/
def quoted (double : Bool) : Step Node := do
  advance 1
  let c ← get
  let text ← quotedText double (c.rest.length + 1)
  pure (.str (some (.ofList text)))

mutual
/-- Reads a node of a flow collection, with the cursor at its first token. -/
def flowNode : (fuel : Nat) → Step Node
  | 0 => failure
  | fuel + 1 => do
    let name ← anchor true
    let c ← get
    let n ← match c.rest with
      | '[' :: _ => do
        advance 1
        toToken true true
        pure (.seq (← flowItems fuel) true)
      | '{' :: _ => do
        advance 1
        toToken true true
        pure (.map (← flowEntries fuel) true)
      | '"' :: _ => quoted true
      | '\'' :: _ => quoted false
      | '*' :: _ => aliasNode
      | cs =>
        if startsPlain true cs then do
          let line := plainLine true [] cs
          advance line.length
          let more ← plainLines true 0 cs.length
          pure (.plain (.ofList (line ++ more)))
        else if name.isSome then pure (.plain "")
        else failure
    bind name n
/-- Reads what may follow a key in a flow collection: a colon and a value. -/
def flowValue : (fuel : Nat) → Step (Option Node)
  | 0 => failure
  | fuel + 1 => do
    toToken true true
    match (← get).rest with
    | ':' :: _ =>
      advance 1
      toToken true true
      match (← get).rest with
      | ',' :: _ | ']' :: _ | '}' :: _ => pure (some (.plain ""))
      | _ => some <$> flowNode fuel
    | _ => pure none
/-- Reads the items of a flow sequence up to its end. -/
def flowItems : (fuel : Nat) → Step (List Node)
  | 0 => failure
  | fuel + 1 => do
    match (← get).rest with
    | ']' :: _ => advance 1; pure []
    | _ =>
      let key ← flowNode fuel
      let item ← match ← flowValue fuel with
        | some value => do
          let key ← (keyOf? key : Option Key)
          pure (.map [(key, value)] true)
        | none => pure key
      toToken true true
      match (← get).rest with
      | ',' :: _ =>
        advance 1
        toToken true true
        pure (item :: (← flowItems fuel))
      | ']' :: _ => advance 1; pure [item]
      | _ => failure
/-- Reads the entries of a flow mapping up to its end. -/
def flowEntries : (fuel : Nat) → Step (List (Key × Node))
  | 0 => failure
  | fuel + 1 => do
    match (← get).rest with
    | '}' :: _ => advance 1; pure []
    | _ =>
      let key ← flowNode fuel
      let key ← (keyOf? key : Option Key)
      let value := (← flowValue fuel).getD (.plain "")
      toToken true true
      match (← get).rest with
      | ',' :: _ =>
        advance 1
        toToken true true
        pure ((key, value) :: (← flowEntries fuel))
      | '}' :: _ => advance 1; pure [(key, value)]
      | _ => failure
end

/-- Reads a node that may be the key of a block mapping. A scalar without quotes is read to the end of
its line only, and told apart by the second component. -/
def inlineNode : Step (Node × Bool) := do
  let c ← get
  match c.rest with
  | '"' :: _ => do pure (← quoted true, false)
  | '\'' :: _ => do pure (← quoted false, false)
  | '*' :: _ => do pure (← aliasNode, false)
  | '[' :: _ | '{' :: _ => do pure (← flowNode (c.rest.length + 1), false)
  | cs =>
    if startsPlain false cs then do
      let line := plainLine false [] cs
      advance line.length
      pure (.plain (.ofList line), true)
    else failure

/-- Whether a colon comes next that makes a key of what was read since a line. -/
def atColon (line : Nat) : Step Bool := do
  let c ← get
  let d := c.skip (c.rest.takeWhile isSpace).length
  pure (d.line == line && d.atMark ':')

/-- Goes behind the colon. -/
def passColon : Step Unit := do
  modify fun c => c.skip ((c.rest.takeWhile isSpace).length + 1)

mutual
/-- Reads a node of block structure, with the cursor at its first token. `indent` is one more than the
column of the collection around, and `fresh` tells whether a collection may start on this line. A
sequence that is the value of a key may stand at the column of the key. -/
def blockNode : (fuel : Nat) → (indent : Nat) → (fresh valueOfKey : Bool) → Step Node
  | 0, _, _, _ => failure
  | fuel + 1, indent, fresh, valueOfKey => do
    let before ← get
    let name ← anchor false
    let c ← get
    let moved := c.line != before.line
    let fresh := fresh || moved
    if c.atEnd || (moved && decide (c.column < indent) &&
        !(valueOfKey && c.column + 1 == indent && c.atMark '-')) then
      bind name (.plain "")
    else if c.atMark '-' then
      if !fresh then failure
      bind name (.seq (← blockItems fuel c.column) true)
    else
      match c.rest with
      | '|' :: _ | '>' :: _ => do bind name (← blockScalar indent)
      | _ =>
        let (first, isPlain) ← inlineNode
        if ← atColon c.line then
          if !fresh then failure
          let named ← if moved then pure first else bind name first
          let key ← (keyOf? named : Option Key)
          let column := if moved then c.column else before.column
          let value ← blockValue fuel column
          let n := .map ((key, value) :: (← blockEntries fuel column)) true
          if moved then bind name n else pure n
        else if isPlain then
          let more ← plainLines false indent c.rest.length
          bind name (.plain (((keyOf? first).bind Key.text?).getD "" ++ .ofList more))
        else bind name first
/-- Reads the value behind a key that stands at a column, with the cursor at the colon. -/
def blockValue : (fuel : Nat) → (column : Nat) → Step Node
  | 0, _ => failure
  | fuel + 1, column => do
    passColon
    let before ← get
    toToken false true
    let c ← get
    if c.line == before.line then
      if c.rest.isEmpty then pure (.plain "") else blockNode fuel (column + 1) false true
    else if c.atEnd || decide (c.column < column) then pure (.plain "")
    else if decide (column < c.column) then blockNode fuel (column + 1) true true
    else if c.atMark '-' then do pure (.seq (← blockItems fuel column) true)
    else pure (.plain "")
/-- Reads the further entries of a block mapping at a column. -/
def blockEntries : (fuel : Nat) → (column : Nat) → Step (List (Key × Node))
  | 0, _ => failure
  | fuel + 1, column => do
    toToken false true
    let c ← get
    if c.atEnd || decide (c.column < column) then pure []
    else if c.column != column then failure
    else
      let name ← anchor false
      let (key, _) ← inlineNode
      let key ← bind name key
      if !(← atColon c.line) then failure
      let key ← (keyOf? key : Option Key)
      let value ← blockValue fuel column
      pure ((key, value) :: (← blockEntries fuel column))
/-- Reads the items of a block sequence at a column, with the cursor at a dash or behind the last
item. -/
def blockItems : (fuel : Nat) → (column : Nat) → Step (List Node)
  | 0, _ => failure
  | fuel + 1, column => do
    toToken false true
    let c ← get
    if c.atEnd || decide (c.column < column) || (c.column == column && !c.atMark '-') then pure []
    else if c.column != column then failure
    else
      advance 1
      toToken false false
      let d ← get
      let item ←
        if d.line == c.line then
          if d.rest.isEmpty then pure (.plain "") else blockNode fuel (column + 1) true false
        else if d.atEnd || decide (d.column ≤ column) then pure (.plain "")
        else blockNode fuel (column + 1) true false
      pure (item :: (← blockItems fuel column))
end

/-! ## Documents -/

/-- Line ends of other systems as line feeds, and no mark of the byte order in front. -/
def normalize : List Char → List Char
  | '\r' :: '\n' :: cs => '\n' :: normalize cs
  | '\r' :: cs => '\n' :: normalize cs
  | c :: cs => c :: normalize cs
  | [] => []

/-- A character that may stand in a text. -/
def isAllowed (c : Char) : Bool :=
  let n := c.toNat
  c = '\t' || c = '\n' || decide (0x20 ≤ n ∧ n ≤ 0x7e) || n == 0x85 ||
    (decide (0xa0 ≤ n) && n != 0xfeff && n != 0xfffe && n != 0xffff)

/-- Goes over the lines of directives. -/
def directives : (fuel : Nat) → Step Unit
  | 0 => pure ()
  | fuel + 1 => do
    toToken false false
    let c ← get
    if c.column == 0 && c.rest.head? = some '%' then
      advance (c.rest.takeWhile (· ≠ '\n')).length
      directives fuel

/-- Reads the only document of a text. -/
def document (fuel : Nat) : Step Node := do
  directives fuel
  let c ← get
  let marked := c.rest.take 3 = ['-', '-', '-'] && c.atEnd
  if marked then
    advance 3
    toToken false true
  let d ← get
  let root ← if d.atEnd then pure (.plain "")
    else blockNode fuel 0 (!marked || d.line != c.line) false
  toToken false true
  let e ← get
  if e.rest.take 3 = ['.', '.', '.'] && e.atEnd then
    advance 3
    toToken false true
  if !(← get).rest.isEmpty then failure
  pure root

/-- The node of a text that holds one document. -/
def root? (s : List Char) : Option Node :=
  let s := match s with
    | '\ufeff' :: cs => cs
    | cs => cs
  let text := normalize s
  if text.all isAllowed then
    ((document (4 * text.length + 4)).run { rest := text }).map Prod.fst
  else none

/-- Reads a text that holds one document. -/
def read (s : List Char) : Parsed :=
  match root? s with
  | some root => { root, ended := true, depth := 128 }
  | none => { root := .broken, ended := false }

end AgentCompiler.Document.YamlText
