import AgentCompiler.Json.Basic

/-!
# Documents before they are decoded

A `Node` is what a reader finds in a text before it is known what the text should hold. It keeps what
decoding may have to report: keys that are repeated, scalars whose kind depends on what is asked of
them, and the place where the text stopped being well formed. Decoding goes through a node in the order
of the text, so the first fault of the text is the one that is reported.
-/

namespace AgentCompiler.Document

/-- A key of a mapping. -/
inductive Key
  | text (s : String)
  /-- A scalar without quotes. -/
  | plain (s : String)
  /-- A text whose escapes do not make up characters. -/
  | broken
deriving DecidableEq

/-- The key as a text, whether it was written in quotes or not. -/
def Key.asText : Key → Key
  | plain s => text s
  | k => k

/-- The text that a key is written as. -/
def Key.text? : Key → Option String
  | text s => some s
  | plain s => some s
  | broken => none

/-- A part of a document. -/
inductive Node
  | null
  | bool (b : Bool)
  /-- A number; none when its value is out of range. -/
  | num (n : Option Number)
  /-- A text; none when its escapes do not make up characters. -/
  | str (s : Option String)
  /-- A scalar without quotes, which is a text where a text is asked for. -/
  | plain (s : String)
  /-- A sequence, and whether its end was reached. -/
  | seq (items : List Node) (ended : Bool)
  /-- A mapping with its keys as written, and whether its end was reached. -/
  | map (entries : List (Key × Node)) (ended : Bool)
  /-- The place from where on the text is not well formed. -/
  | broken

/-- Containers may be nested this deep, if nothing else is said. -/
def maxDepth : Nat := 127

/-- A text that was read: a node, whether nothing follows it, and how deep its containers may be
nested. -/
structure Parsed where
  root : Node
  ended : Bool
  depth : Nat := maxDepth

/-- The JSON value of a node that nests at most `depth` deep; none when it is not well formed or a key is
no text. A floating-point value that is no number or infinite becomes null. -/
def Node.toJson? : (depth : Nat) → Node → Option Json
  | _, .null => some .null
  | _, .bool b => some (.bool b)
  | _, .num n => n.map fun
    | .integer n => .num (.integer n)
    | .real x => if x.isFinite then .num (.real x) else .null
  | _, .str s => s.map .str
  | _, .plain s => some (.str s)
  | depth + 1, .seq items true => (items.mapM (toJson? depth)).map .arr
  | depth + 1, .map entries true => do
    let members ← entries.mapM fun (key, value) => do
      let value ← toJson? depth value
      match key with
      | .text key => pure (key, value)
      | _ => none
    pure (.obj (Table.ofEntries members))
  | _, _ => none

mutual
/-- A JSON value as a node. -/
def Node.ofJson : Json → Node
  | .null => .null
  | .bool b => .bool b
  | .num n => .num (some n)
  | .str s => .str (some s)
  | .arr xs => .seq (ofItems xs) true
  | .obj ms => .map (ofMembers ms) true
/-- The items of an array as nodes. -/
def Node.ofItems : List Json → List Node
  | [] => []
  | x :: xs => ofJson x :: ofItems xs
/-- The members of an object as entries. -/
def Node.ofMembers : List (String × Json) → List (Key × Node)
  | [] => []
  | (k, v) :: ms => (.text k, ofJson v) :: ofMembers ms
end

end AgentCompiler.Document
