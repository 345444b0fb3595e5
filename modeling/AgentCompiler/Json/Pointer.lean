import AgentCompiler.Json.Basic

/-!
# JSON pointers

A pointer (RFC 6901) is empty, or a sequence of reference tokens each behind a slash. In a token `~1`
stands for a slash and `~0` for a tilde.
-/

namespace AgentCompiler.Json

/-- A token with its escapes undone; a tilde that opens no escape stands for itself. -/
def unescapeToken : List Char → List Char
  | '~' :: '1' :: cs => '/' :: unescapeToken cs
  | '~' :: '0' :: cs => '~' :: unescapeToken cs
  | c :: cs => c :: unescapeToken cs
  | [] => []

/-- The index that a token stands for: digits without a needless zero in front. -/
def indexOf? (token : List Char) : Option Nat :=
  match token with
  | [] => none
  | ['0'] => some 0
  | c :: cs =>
    if c ≠ '0' ∧ (c :: cs).all Char.isDigit then
      some ((c :: cs).foldl (fun n d => n * 10 + (d.toNat - '0'.toNat)) 0)
    else none

/-- One step into an object or an array. -/
def child? (j : Json) (token : List Char) : Option Json :=
  match j with
  | obj ms => ms.lookup (String.ofList token)
  | arr xs => (indexOf? token).bind fun i => xs[i]?
  | _ => none

/-- The value that a pointer leads to. -/
def pointer? (j : Json) (pointer : String) : Option Json :=
  match pointer.toList.splitOn '/' with
  | [] :: tokens => (tokens.map unescapeToken).foldlM child? j
  | _ => none

end AgentCompiler.Json
