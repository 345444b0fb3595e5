import AgentCompiler.Json.Basic

/-!
# Writing JSON

The compact text of a value on one line, and the canonical text of a document: members in the order of
their keys, two spaces of indentation, and a line feed at the end.
-/

namespace AgentCompiler.Json

/-- A number below sixteen as a hexadecimal digit in lower case. -/
def hexDigit (n : Nat) : Char := Nat.digitChar n

/-- A character inside a string. Quotes, backslashes and the controls below U+0020 are escaped. -/
def escapeChar (c : Char) : List Char :=
  if c = '"' then ['\\', '"']
  else if c = '\\' then ['\\', '\\']
  else if c = '\x08' then ['\\', 'b']
  else if c = '\t' then ['\\', 't']
  else if c = '\n' then ['\\', 'n']
  else if c = '\x0c' then ['\\', 'f']
  else if c = '\r' then ['\\', 'r']
  else if c.toNat < 0x20 then
    ['\\', 'u', '0', '0', hexDigit (c.toNat / 16), hexDigit (c.toNat % 16)]
  else [c]

/-- A string in quotes. -/
def quote (s : String) : List Char := '"' :: s.toList.flatMap escapeChar ++ ['"']

/-- A truth value. -/
def boolText (b : Bool) : List Char := if b then "true".toList else "false".toList

mutual
/-- The text of a value without any white space. -/
def compactChars : Json → List Char
  | null => "null".toList
  | bool b => boolText b
  | num n => n.text
  | str s => quote s
  | arr xs => '[' :: List.intercalate [','] (compactItems xs) ++ [']']
  | obj ms => '{' :: List.intercalate [','] (compactMembers ms) ++ ['}']
/-- The texts of the items of an array. -/
def compactItems : List Json → List (List Char)
  | [] => []
  | x :: xs => compactChars x :: compactItems xs
/-- The texts of the members of an object. -/
def compactMembers : List (String × Json) → List (List Char)
  | [] => []
  | (k, v) :: ms => (quote k ++ ':' :: compactChars v) :: compactMembers ms
end

/-- The text of a value without any white space. -/
def compact (j : Json) : String := .ofList (compactChars j)

mutual
/-- The value with the members of every object in the order of their keys, which is the same by code
points and by bytes of UTF-8. -/
def sorted : Json → Json
  | arr xs => arr (sortedItems xs)
  | obj ms => obj ((sortedMembers ms).mergeSort fun m n => decide (m.1 ≤ n.1))
  | j => j
/-- The items of an array, each sorted inside. -/
def sortedItems : List Json → List Json
  | [] => []
  | x :: xs => sorted x :: sortedItems xs
/-- The members of an object, each sorted inside. -/
def sortedMembers : List (String × Json) → List (String × Json)
  | [] => []
  | (k, v) :: ms => (k, sorted v) :: sortedMembers ms
end

/-- A line feed and two spaces for each level. -/
def lineBreak (level : Nat) : List Char := '\n' :: List.replicate (2 * level) ' '

/-- A container on several lines: each part on a line of its own, one level deeper than the brackets.
Without parts the brackets stand together. -/
def bracketed (level : Nat) (left right : Char) (parts : List (List Char)) : List Char :=
  if parts.isEmpty then [left, right]
  else
    left :: List.intercalate [','] (parts.map fun p => lineBreak (level + 1) ++ p) ++
      lineBreak level ++ [right]

mutual
/-- The text of a value on several lines, at a level of indentation. -/
def prettyChars (level : Nat) : Json → List Char
  | arr xs => bracketed level '[' ']' (prettyItems (level + 1) xs)
  | obj ms => bracketed level '{' '}' (prettyMembers (level + 1) ms)
  | null => "null".toList
  | bool b => boolText b
  | num n => n.text
  | str s => quote s
/-- The texts of the items of an array. -/
def prettyItems (level : Nat) : List Json → List (List Char)
  | [] => []
  | x :: xs => prettyChars level x :: prettyItems level xs
/-- The texts of the members of an object. -/
def prettyMembers (level : Nat) : List (String × Json) → List (List Char)
  | [] => []
  | (k, v) :: ms => (quote k ++ ':' :: ' ' :: prettyChars level v) :: prettyMembers level ms
end

/-- The canonical text of a value. -/
def canonical (j : Json) : String := .ofList (prettyChars 0 j.sorted ++ ['\n'])

end AgentCompiler.Json
