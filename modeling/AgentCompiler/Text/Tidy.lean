import AgentCompiler.Text.Blank
import AgentCompiler.Text.Lines

/-!
# Tidy text

A tidy text has no blanks at the ends of its lines, no blank line at its start or end, at most two
blank lines in a row, and a line feed after its last line.
-/

namespace AgentCompiler.Text

/-- The lines that follow a line of text, where `gap` empty lines have been held back: a gap is kept
up to two lines, and only when a line of text follows it. -/
def closeGaps (gap : Nat) : List (List Char) → List (List Char)
  | [] => []
  | l :: ls =>
    if l.isEmpty then closeGaps (gap + 1) ls
    else List.replicate (min gap 2) [] ++ l :: closeGaps 0 ls

/-- The tidy form of a list of lines that have no blanks at their ends. -/
def tidyLines (ls : List (List Char)) : List (List Char) :=
  match ls.dropWhile List.isEmpty with
  | [] => []
  | l :: rest => l :: closeGaps 0 rest

/-- The tidy form of a text. -/
def tidyChars (s : List Char) : List Char :=
  (tidyLines ((lines s).map dropBlanksEnd)).flatMap (· ++ ['\n'])

/-- The tidy form of a text. -/
def tidy (s : String) : String := .ofList (tidyChars s.toList)

end AgentCompiler.Text
