/-!
# Tokens of a template

A token is a dollar sign, one or more lower-case ASCII letters or underscores, and a dollar sign. Tokens
do not overlap; a dollar sign that closes no token may open one.
-/

namespace AgentCompiler.Prompt

/-- A character of a token's name. -/
def isNameChar (c : Char) : Bool := c.isLower || c = '_'

/-- The names of the tokens in a text, where `name` holds what has been read since a dollar sign that
may open a token. -/
def tokensFrom : (name : Option (List Char)) → List Char → List (List Char)
  | _, [] => []
  | none, c :: cs => tokensFrom (if c = '$' then some [] else none) cs
  | some name, c :: cs =>
    if c = '$' then
      if name.isEmpty then tokensFrom (some []) cs else name :: tokensFrom none cs
    else tokensFrom (if isNameChar c then some (name ++ [c]) else none) cs

/-- The names of the tokens in a text, in order. -/
def tokens (s : String) : List String := (tokensFrom none s.toList).map String.ofList

end AgentCompiler.Prompt
