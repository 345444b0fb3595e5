/-!
# White space

White space is the Unicode property `White_Space`: twenty-five characters. Trimming takes them from
the ends of a text and leaves everything else alone, control characters such as U+001C included.
-/

namespace AgentCompiler.Text

/-- The characters with the Unicode property `White_Space`, in code point order. -/
def blanks : List Char :=
  ['\t', '\n', '\x0b', '\x0c', '\r', ' ', '\x85', '\xa0', '\u1680', '\u2000', '\u2001', '\u2002',
    '\u2003', '\u2004', '\u2005', '\u2006', '\u2007', '\u2008', '\u2009', '\u200a', '\u2028',
    '\u2029', '\u202f', '\u205f', '\u3000']

/-- A character is blank when it has the property `White_Space`. -/
def isBlank (c : Char) : Bool := blanks.contains c

example : blanks.length = 25 := rfl

/-- The text without the blanks at its end. -/
def dropBlanksEnd (s : List Char) : List Char := (s.reverse.dropWhile isBlank).reverse

/-- The text without the blanks at its start. -/
def trimStart (s : String) : String := .ofList (s.toList.dropWhile isBlank)

/-- The text without the blanks at its end. -/
def trimEnd (s : String) : String := .ofList (dropBlanksEnd s.toList)

/-- The text without the blanks at both ends. -/
def trim (s : String) : String := trimEnd (trimStart s)

/-- A text is blank when every character of it is; the empty text is. -/
def blank (s : String) : Bool := s.toList.all isBlank

end AgentCompiler.Text
