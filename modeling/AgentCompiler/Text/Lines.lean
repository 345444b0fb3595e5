/-!
# Lines

A line ends with a line feed, and a carriage return right before that line feed belongs to the
line's end. What follows the last line feed is a line of its own when it is not empty.
-/

namespace AgentCompiler.Text

/-- A line without the carriage return that stands before its line feed. -/
def dropReturn (line : List Char) : List Char :=
  if line.getLast? = some '\r' then line.dropLast else line

/-- The lines of a text, without their ends. -/
def lines (s : List Char) : List (List Char) :=
  let pieces := s.splitOn '\n'
  let ended := pieces.dropLast.map dropReturn
  match pieces.getLast? with
  | none | some [] => ended
  | some last => ended ++ [last]

/-- Lines as one text, with a line feed between neighbours. -/
def joinLines (ls : List (List Char)) : List Char := List.intercalate ['\n'] ls

/-- A text that is given line by line. -/
def ofLines (ls : List String) : String := String.intercalate "\n" ls

end AgentCompiler.Text
