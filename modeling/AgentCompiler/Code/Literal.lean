import AgentCompiler.Json.Basic
import AgentCompiler.Json.Writer

/-!
# Literals of the generated code

Texts, lists and JSON values as literals. A value has one literal on one line and one on several lines,
in which every item stands on a line of its own and is followed by a comma.
-/

namespace AgentCompiler.Code

/-- A character inside a text in quotes. -/
def escapeChar (c : Char) : List Char :=
  if c = '"' then ['\\', '"']
  else if c = '\\' then ['\\', '\\']
  else if c = '\n' then ['\\', 'n']
  else if c = '\r' then ['\\', 'r']
  else if c = '\t' then ['\\', 't']
  else if c.toNat < 0x20 then
    ['\\', 'x', Json.hexDigit (c.toNat / 16), Json.hexDigit (c.toNat % 16)]
  else [c]

/-- A text in quotes. -/
def quoteChars (s : List Char) : List Char := '"' :: s.flatMap escapeChar ++ ['"']

/-- A text in quotes. -/
def quote (s : String) : String := .ofList (quoteChars s.toList)

/-- A text inside triple quotes, where line feeds stand for themselves: backslashes and runs of three
quotes are escaped from left to right. -/
def escapeTriple : List Char → List Char
  | '"' :: '"' :: '"' :: cs => '\\' :: '"' :: '\\' :: '"' :: '\\' :: '"' :: escapeTriple cs
  | '\\' :: cs => '\\' :: '\\' :: escapeTriple cs
  | c :: cs => c :: escapeTriple cs
  | [] => []

/-- Escaping puts nothing behind the last character. -/
theorem getLast?_escapeTriple (s : List Char) : (escapeTriple s).getLast? = s.getLast? := by
  fun_induction escapeTriple s with
  | case1 cs ih => simp [List.getLast?_cons, ih]
  | case2 cs ih => simp [List.getLast?_cons, ih]
  | case3 c cs _ _ ih => simp [List.getLast?_cons, ih]
  | case4 => rfl

/-- Escaping puts no quote in front of a text. -/
theorem head?_of_escapeTriple {s : List Char} (h : (escapeTriple s).head? = some '"') :
    s.head? = some '"' := by
  revert h
  fun_cases escapeTriple s with
  | case1 cs => exact fun _ => rfl
  | case2 cs => exact fun h => by cases h
  | case3 c cs => exact id
  | case4 => exact id

@[simp]
theorem escapeTriple_eq_nil_iff {s : List Char} : escapeTriple s = [] ↔ s = [] := by
  fun_cases escapeTriple s <;> simp

/-- A text inside triple quotes whose last character, when it is a quote, is escaped so that it does not
run into the closing ones. -/
def closeTriple (s : List Char) : List Char :=
  if s.getLast? = some '"' then s.dropLast ++ ['\\', '"'] else s

/-- A text in triple quotes. -/
def tripleQuoteChars (s : List Char) : List Char :=
  ['"', '"', '"'] ++ closeTriple (escapeTriple s) ++ ['"', '"', '"']

/-- A text in triple quotes. -/
def tripleQuote (s : String) : String := .ofList (tripleQuoteChars s.toList)

/-- A truth value. -/
def bool (b : Bool) : String := if b then "True" else "False"

/-- A list of texts. -/
def strings (items : List String) : String :=
  "[" ++ String.intercalate ", " (items.map quote) ++ "]"

/-- The literal of a value that is no container, or of an empty container. -/
def scalarChars : Json → List Char
  | .null => "None".toList
  | .bool b => (bool b).toList
  | .num n => n.text
  | .str s => quoteChars s.toList
  | .arr _ => "[]".toList
  | .obj _ => ['{', '}']

mutual
/-- The literal of a value on one line. -/
def literalChars : Json → List Char
  | .arr xs => '[' :: List.intercalate [',', ' '] (literalItems xs) ++ [']']
  | .obj ms => '{' :: List.intercalate [',', ' '] (literalMembers ms) ++ ['}']
  | .null => scalarChars .null
  | .bool b => scalarChars (.bool b)
  | .num n => scalarChars (.num n)
  | .str s => scalarChars (.str s)
/-- The literals of the items of an array. -/
def literalItems : List Json → List (List Char)
  | [] => []
  | x :: xs => literalChars x :: literalItems xs
/-- The literals of the members of an object. -/
def literalMembers : List (String × Json) → List (List Char)
  | [] => []
  | (k, v) :: ms => (quoteChars k.toList ++ ':' :: ' ' :: literalChars v) :: literalMembers ms
end

/-- The literal of a value on one line. -/
def literal (j : Json) : String := .ofList (literalChars j)

/-- Four spaces for each level. -/
def padding (level : Nat) : List Char := List.replicate (4 * level) ' '

/-- A container on several lines: each part on a line of its own behind four spaces more than the
brackets have. Without parts the brackets stand together. -/
def bracketed (level : Nat) (left right : Char) (parts : List (List Char)) : List Char :=
  if parts.isEmpty then [left, right]
  else
    left :: '\n' :: parts.flatMap (fun p => padding (level + 1) ++ p ++ [',', '\n']) ++
      padding level ++ [right]

mutual
/-- The literal of a value on several lines, at a level of indentation. -/
def prettyChars (level : Nat) : Json → List Char
  | .arr xs => bracketed level '[' ']' (prettyItems (level + 1) xs)
  | .obj ms => bracketed level '{' '}' (prettyMembers (level + 1) ms)
  | .null => scalarChars .null
  | .bool b => scalarChars (.bool b)
  | .num n => scalarChars (.num n)
  | .str s => scalarChars (.str s)
/-- The literals of the items of an array. -/
def prettyItems (level : Nat) : List Json → List (List Char)
  | [] => []
  | x :: xs => prettyChars level x :: prettyItems level xs
/-- The literals of the members of an object. -/
def prettyMembers (level : Nat) : List (String × Json) → List (List Char)
  | [] => []
  | (k, v) :: ms =>
    (quoteChars k.toList ++ ':' :: ' ' :: prettyChars level v) :: prettyMembers level ms
end

/-- The literal of a value on several lines. -/
def prettyLiteral (j : Json) : String := .ofList (prettyChars 0 j)

end AgentCompiler.Code
