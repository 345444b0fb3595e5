/-!
# Identifiers of the generated code

Names of a definition are free text. In generated code a name of a variable is made of lower-case
words joined by underscores, and a name of a class of capitalised words. Both are ASCII.
-/

namespace AgentCompiler.Name

/-- The runs of ASCII letters and digits in a text, in lower case. -/
def words (s : List Char) : List (List Char) :=
  ((s.splitOnP fun c => !c.isAlphanum).filter fun w => !w.isEmpty).map fun w => w.map Char.toLower

/-- The words of a text joined by underscores, behind one more underscore where a digit comes first;
a text without words is called `variable`. -/
def variableChars (s : List Char) : List Char :=
  match List.intercalate ['_'] (words s) with
  | [] => "variable".toList
  | c :: cs => if c.isDigit then '_' :: c :: cs else c :: cs

/-- The name of a variable, module or tool that stands for a free text. -/
def snake (s : String) : String := .ofList (variableChars s.toList)

/-- A word with its first letter in upper case and the others in lower case. -/
def capitalize : List Char → List Char
  | [] => []
  | c :: cs => c.toUpper :: cs.map Char.toLower

/-- Every character other than an ASCII letter or digit becomes an underscore, and a text that does
not start with a letter is put behind `Model_`. -/
def classStem (s : List Char) : List Char :=
  let t := s.map fun c => if c.isAlphanum then c else '_'
  match t with
  | c :: _ => if c.isAlpha then t else "Model_".toList ++ t
  | [] => "Model_".toList

/-- The capitalised words of a text, joined. -/
def camel (s : List Char) : List Char :=
  ((classStem s).splitOn '_').flatMap capitalize

/-- The reserved words of the generated language. -/
def keywords : List String :=
  ["False", "None", "True", "and", "as", "assert", "async", "await", "break", "class", "continue",
    "def", "del", "elif", "else", "except", "finally", "for", "from", "global", "if", "import",
    "in", "is", "lambda", "nonlocal", "not", "or", "pass", "raise", "return", "try", "while",
    "with", "yield"]

/-- A word that the generated language reserves. -/
def isKeyword (word : String) : Bool := keywords.contains word

/-- An ASCII letter or an underscore. -/
def isInitial (c : Char) : Bool := c.isAlpha || c = '_'

/-- An ASCII letter, a digit or an underscore. -/
def isInner (c : Char) : Bool := c.isAlphanum || c = '_'

/-- A text that can stand as an identifier in the generated code. -/
def isIdentifier (word : String) : Bool :=
  match word.toList with
  | [] => false
  | c :: cs => isInitial c && cs.all isInner && !isKeyword word

end AgentCompiler.Name
