import AgentCompiler.Text.Blank
import AgentCompiler.Text.Lines

/-!
# The left margin of a block of lines

`dedent` takes away the margin that all lines which are not blank share, `indent` puts one of four
spaces a level there, and `block` does both. A margin is measured in bytes of UTF-8, since blanks of
several widths may open a line.
-/

namespace AgentCompiler.Text

/-- The bytes of UTF-8 that the blanks at the start of a line take. -/
def marginOf (line : List Char) : Nat :=
  (line.takeWhile isBlank).foldl (fun n c => n + c.utf8Size) 0

/-- A line without its first `n` bytes; none when that cut falls inside a character. -/
def dropBytes : Nat → List Char → Option (List Char)
  | 0, cs => some cs
  | _ + 1, [] => none
  | n + 1, c :: cs =>
    if c.utf8Size ≤ n + 1 then dropBytes (n + 1 - c.utf8Size) cs else none

/-- The margin that all lines share which are not blank; zero when there is no such line. -/
def sharedMargin (ls : List (List Char)) : Nat :=
  ((ls.filter fun l => !l.all isBlank).map marginOf).min?.getD 0

/-- The lines without the margin they share; a blank line becomes empty. None when the shared
margin ends inside a wide blank of one of the lines. -/
def dedentLines (ls : List (List Char)) : Option (List (List Char)) :=
  ls.mapM fun l => if l.all isBlank then some [] else dropBytes (sharedMargin ls) l

/-- The lines moved right by four spaces for each level; a blank line becomes empty. -/
def indentLines (levels : Nat) (ls : List (List Char)) : List (List Char) :=
  ls.map fun l => if l.all isBlank then [] else List.replicate (4 * levels) ' ' ++ l

/-- The text without the margin that its lines share. -/
def dedent (s : String) : Option String :=
  (dedentLines (lines s.toList)).map fun ls => .ofList (joinLines ls)

/-- The text with each line that is not blank moved right. -/
def indent (s : String) (levels : Nat) : String :=
  .ofList (joinLines (indentLines levels (lines s.toList)))

/-- The text with its shared margin replaced by one of the given levels. -/
def block (s : String) (levels : Nat) : Option String :=
  (dedent s).map fun t => indent t levels

end AgentCompiler.Text
