import AgentCompiler.Document.Node
import AgentCompiler.Text.Unprintable

/-!
# Faults of documents

What can be wrong with a document: its text is not well formed, or it does not hold what it should.
-/

namespace AgentCompiler.Document

/-- A fault of a document. -/
inductive Fault
  /-- The text is not well formed. -/
  | malformed
  | wrongKind (found expected : String)
  | wrongValue (found expected : String)
  | wrongLength (found : Nat) (expected : String)
  | unknownVariant (name : String) (known : List String)
  | missingField (name : String)
  | duplicateField (name : String)
deriving DecidableEq

/-- A character inside a quoted text of a message: one that could not be seen is shown by its code
point. -/
def escapeQuoted (c : Char) : List Char :=
  match c with
  | '"' => ['\\', '"']
  | '\\' => ['\\', '\\']
  | '\n' => ['\\', 'n']
  | '\r' => ['\\', 'r']
  | '\t' => ['\\', 't']
  | '\x00' => ['\\', '0']
  | c =>
    if Text.isUnprintable c then '\\' :: 'u' :: '{' :: Nat.toDigits 16 c.toNat ++ ['}'] else [c]

/-- A text in quotes, as messages show it. -/
def quoted (s : String) : String := "\"" ++ .ofList (s.toList.flatMap escapeQuoted) ++ "\""

/-- Something between backticks. -/
def ticked (s : String) : String := "`" ++ s ++ "`"

/-- A number as messages show it. -/
def Number.shown : Number → String
  | .integer n => "integer " ++ ticked (.ofList (Number.integer n).text)
  | .real x => "floating point " ++ ticked (.ofList x.documentText)

/-- A node as messages show it. -/
def Node.shown : Node → String
  | .null => "null"
  | .bool b => "boolean " ++ ticked (if b then "true" else "false")
  | .num (some n) => Number.shown n
  | .num none => "number"
  | .str s => "string " ++ quoted (s.getD "")
  | .plain s => "string " ++ quoted s
  | .seq _ _ => "sequence"
  | .map _ _ => "map"
  | .broken => "nothing"

/-- A choice of names, as messages show it. -/
def choice (names : List String) : String :=
  match names.map ticked with
  | [a, b] => a ++ " or " ++ b
  | [a] => a
  | as => "one of " ++ String.intercalate ", " as

/-- The wording of a fault. -/
def Fault.message : Fault → String
  | malformed => "malformed"
  | wrongKind found expected => "invalid type: " ++ found ++ ", expected " ++ expected
  | wrongValue found expected => "invalid value: " ++ found ++ ", expected " ++ expected
  | wrongLength found expected => "invalid length " ++ Decimal.natural found ++ ", expected " ++ expected
  | unknownVariant name known => "unknown variant " ++ ticked name ++ ", expected " ++ choice known
  | missingField name => "missing field " ++ ticked name
  | duplicateField name => "duplicate field " ++ ticked name

end AgentCompiler.Document
