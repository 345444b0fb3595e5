/-!
# Markers

A template holds markers, a name between two pairs of braces. `fill` replaces the markers of one name
after the other, so a marker inside a value that was put in early is replaced by a later step.
-/

namespace AgentCompiler.Text

/-- Replaces `pattern` from left to right, where the next `skip` characters belong to an occurrence
that has been replaced already. -/
def replaceFrom (pattern value : List Char) : (skip : Nat) → List Char → List Char
  | _, [] => []
  | skip + 1, _ :: cs => replaceFrom pattern value skip cs
  | 0, c :: cs =>
    if pattern.isPrefixOf (c :: cs) then
      value ++ replaceFrom pattern value (pattern.length - 1) cs
    else
      c :: replaceFrom pattern value 0 cs

/-- Every occurrence of a pattern replaced, left to right and without overlap. The pattern is not
empty. -/
def replaceAll (pattern value s : List Char) : List Char := replaceFrom pattern value 0 s

/-- Every occurrence of a pattern replaced, left to right and without overlap. -/
def replace (s pattern value : String) : String :=
  .ofList (replaceAll pattern.toList value.toList s.toList)

/-- The marker of a name. -/
def marker (name : List Char) : List Char := '{' :: '{' :: name ++ ['}', '}']

/-- Puts values in the place of their markers, one name after the other; a marker without a value
stays. -/
def fillChars (template : List Char) (values : List (List Char × List Char)) : List Char :=
  values.foldl (fun s (name, value) => replaceAll (marker name) value s) template

/-- Puts values in the place of their markers, one name after the other. -/
def fill (template : String) (values : List (String × String)) : String :=
  .ofList (fillChars template.toList (values.map fun (k, v) => (k.toList, v.toList)))

end AgentCompiler.Text
