/-!
# Wrapping long lines

A line that is wider than the limit is filled greedily with its words. Words are what stands between
single spaces, so a run of spaces holds empty words; no word is ever split.
-/

namespace AgentCompiler.Text

/-- Fills lines with words, given the words that the open line holds so far. An empty open line takes
the next word without a space in front. -/
def fillLines (width : Nat) (open_ : List Char) : List (List Char) → List (List Char)
  | [] => [open_]
  | w :: ws =>
    if open_.isEmpty then fillLines width w ws
    else if open_.length + 1 + w.length ≤ width then fillLines width (open_ ++ ' ' :: w) ws
    else open_ :: fillLines width w ws

/-- One line as lines of at most `width` characters, as far as its words allow. -/
def wrapLine (width : Nat) (line : List Char) : List (List Char) :=
  if line.length ≤ width then [line] else fillLines width [] (line.splitOn ' ')

/-- A text with every line wrapped. -/
def wrapChars (width : Nat) (s : List Char) : List Char :=
  List.intercalate ['\n'] ((s.splitOn '\n').flatMap (wrapLine width))

/-- A text with every line wrapped to at most `width` characters. -/
def wrap (s : String) (width : Nat) : String := .ofList (wrapChars width s.toList)

end AgentCompiler.Text
