import AgentCompiler.Document.CoreScalar
import AgentCompiler.Document.JsonText
import AgentCompiler.Table

/-!
# Reading displays

The reader of the values that the generated code writes down: `None`, `True` and `False`, numbers,
texts in double quotes, lists in brackets and dictionaries with texts for keys in braces. White space is
free between the tokens, and a comma may stand behind the last part of a container.

The reader takes one character after the other. Its state holds the containers that are still open, so
that no part of the text is looked at twice and no measure is needed.
-/

namespace AgentCompiler.Code.Display

open Document

/-! ## Tokens -/

/-- White space between two tokens. -/
def isSpace (c : Char) : Bool := c = ' ' || c = '\n' || c = '\r' || c = '\t' || c = '\x0c'

/-- A character of a word: of a name or a number. -/
def isPlain (c : Char) : Bool := c.isAlphanum || c = '.' || c = '-' || c = '+'

/-- A character that makes a number one with a fraction or an exponent. -/
def isRealMark (c : Char) : Bool := c = '.' || c = 'e' || c = 'E'

/-- An integer: digits without a needless zero in front, behind a sign or none. -/
def integer? (s : List Char) : Option Int :=
  let (negative, ds) := CoreScalar.splitSign s
  if 1 < ds.length ∧ ds.head? = some '0' then none
  else (CoreScalar.natural? 10 ds).map fun n => if negative then -(n : Int) else n

/-- A number, of which one with a fraction or an exponent is rounded to the nearest floating-point
value. -/
def number? (s : List Char) : Option Number :=
  if s.any isRealMark then (CoreScalar.decimal? s).map .real else (integer? s).map .integer

/-- What a word stands for. -/
def word? (s : List Char) : Option Json :=
  if s = "None".toList then some .null
  else if s = "True".toList then some (.bool true)
  else if s = "False".toList then some (.bool false)
  else (number? s).map .num

/-- The character that a letter stands for behind a backslash. -/
def escaped? (c : Char) : Option Char :=
  match c with
  | '\\' => some '\\'
  | '\x27' => some '\x27'
  | '"' => some '"'
  | 'a' => some '\x07'
  | 'b' => some '\x08'
  | 'f' => some '\x0c'
  | 'n' => some '\n'
  | 'r' => some '\r'
  | 't' => some '\t'
  | 'v' => some '\x0b'
  | _ => none

/-! ## States -/

/-- An open container with its parts so far. -/
inductive Frame
  /-- A list. -/
  | list (items : List Json)
  /-- A dictionary. -/
  | dict (members : Members)
  /-- A dictionary and the key whose value comes next. -/
  | entry (members : Members) (key : String)

/-- What a container stands for. -/
def Frame.value : Frame → Json
  | .list vs => .arr vs
  | .dict ms => .obj ms
  | .entry ms _ => .obj ms

/-- The bracket that ends a container; none while a key has no value. -/
def Frame.closer : Frame → Option Char
  | .list _ => some ']'
  | .dict _ => some '}'
  | .entry _ _ => none

/-- A container with one more value. A key that was there before keeps its place and takes the new
value. -/
def Frame.add? (v : Json) : Frame → Option Frame
  | .list vs => some (.list (vs ++ [v]))
  | .dict _ => none
  | .entry ms key => some (.dict (ms.insert key v))

/-- A value may stand in the innermost container; in a dictionary it is a key that comes next. -/
def takesValue : List Frame → Bool
  | .dict _ :: _ => false
  | _ => true

/-- How far the reader is, and the containers that are open around it. -/
inductive State
  /-- In front of a part of the innermost container, or of its end. -/
  | ready (stack : List Frame)
  /-- Behind a value. -/
  | after (v : Json) (stack : List Frame)
  /-- Behind a key. -/
  | keyed (key : String) (members : Members) (stack : List Frame)
  /-- In a word. -/
  | word (s : List Char) (stack : List Frame)
  /-- In a text. -/
  | text (s : List Char) (stack : List Frame)
  /-- Behind a backslash. -/
  | escape (s : List Char) (stack : List Frame)
  /-- Behind `\x` and at most one of the two digits that belong to it. -/
  | hex (s : List Char) (high : Option Nat) (stack : List Frame)

/-- The state behind the end of a text, which is a key where a dictionary waits for one. -/
def closeText (s : List Char) : List Frame → State
  | .dict ms :: stack => .keyed (.ofList s) ms stack
  | stack => .after (.str (.ofList s)) stack

/-- Ends the innermost container. -/
def close? (c : Char) : List Frame → Option State
  | f :: stack => if f.closer = some c then some (.after f.value stack) else none
  | [] => none

/-- A step in front of a part. -/
def stepReady (stack : List Frame) (c : Char) : Option State :=
  if isSpace c then some (.ready stack)
  else if c = '"' then some (.text [] stack)
  else if takesValue stack && c = '[' then some (.ready (.list [] :: stack))
  else if takesValue stack && c = '{' then some (.ready (.dict [] :: stack))
  else if takesValue stack && isPlain c then some (.word [c] stack)
  else close? c stack

/-- A step behind a value. -/
def stepAfter (v : Json) (stack : List Frame) (c : Char) : Option State :=
  if isSpace c then some (.after v stack)
  else
    match stack with
    | [] => none
    | f :: stack =>
      (f.add? v).bind fun f => if c = ',' then some (.ready (f :: stack)) else close? c (f :: stack)

/-- A step of the reader. -/
def step : State → Char → Option State
  | .ready stack, c => stepReady stack c
  | .after v stack, c => stepAfter v stack c
  | .keyed key ms stack, c =>
    if isSpace c then some (.keyed key ms stack)
    else if c = ':' then some (.ready (.entry ms key :: stack))
    else none
  | .word s stack, c =>
    if isPlain c then some (.word (s ++ [c]) stack)
    else (word? s).bind fun v => stepAfter v stack c
  | .text s stack, c =>
    if c = '"' then some (closeText s stack)
    else if c = '\\' then some (.escape s stack)
    else if c = '\n' || c = '\r' then none
    else some (.text (s ++ [c]) stack)
  | .escape s stack, c =>
    if c = 'x' then some (.hex s none stack)
    else (escaped? c).map fun d => .text (s ++ [d]) stack
  | .hex s none stack, c => (JsonText.hexValue c).map fun n => .hex s (some n) stack
  | .hex s (some high) stack, c =>
    (JsonText.hexValue c).map fun n => .text (s ++ [Char.ofNat (high * 16 + n)]) stack

/-- What was read when a text ends in a state. -/
def result : State → Option Json
  | .after v [] => some v
  | .word s [] => word? s
  | _ => none

/-- Reads a text from a state on. -/
def run (q : State) (s : List Char) : Option Json := (s.foldlM step q).bind result

/-- Reads a text that is one display from its first character to its last. -/
def read (s : String) : Option Json := run (.ready []) s.toList

end AgentCompiler.Code.Display
