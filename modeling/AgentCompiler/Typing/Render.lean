import AgentCompiler.Code.Literal
import AgentCompiler.Text.Blank
import AgentCompiler.Typing.Declaration

/-!
# The code of declarations

A record becomes a class with an annotated attribute for each field, a union an assignment.
-/

namespace AgentCompiler

mutual
/-- A type as an annotation. -/
def TypeExpr.hint : TypeExpr → String
  | .text => "str"
  | .integer => "int"
  | .real => "float"
  | .truth => "bool"
  | .none => "None"
  | .any => "Any"
  | .map => "Dict[str, Any]"
  | .list item => "List[" ++ hint item ++ "]"
  | .literal value => "Literal[" ++ Code.quote value ++ "]"
  | .named name => name
  | .union variants => "Union[" ++ String.intercalate ", " (hints variants) ++ "]"
/-- Types as annotations. -/
def TypeExpr.hints : List TypeExpr → List String
  | [] => []
  | t :: ts => hint t :: hints ts
end

/-- A field as an annotated attribute. -/
def Field.render (f : Field) : String :=
  let arguments :=
    (f.description.map fun d => "description=" ++ Code.quote d).toList ++
      (f.aliasName.map fun a => "alias=" ++ Code.quote a).toList
  let list := String.intercalate ", " arguments
  if f.required then
    f.name ++ ": " ++ f.type.hint ++
      if arguments.isEmpty then "" else " = Field(" ++ list ++ ")"
  else
    f.name ++ ": Optional[" ++ f.type.hint ++ "] = " ++
      if arguments.isEmpty then "None" else "Field(None, " ++ list ++ ")"

/-- A declaration. -/
def Declaration.render (d : Declaration) : String :=
  match d.shape with
  | .union variants => d.name ++ " = " ++ (TypeExpr.union variants).hint
  | .record fields =>
    let body := (d.description.map Code.tripleQuote).toList ++
      (if fields.isEmpty then ["pass"] else []) ++ fields.map Field.render
    "class " ++ d.name ++ "(BaseModel):\n" ++ String.join (body.map fun l => "    " ++ l ++ "\n")

/-- Declarations with two blank lines between neighbours. -/
def Declaration.renderAll (ds : List Declaration) : String :=
  String.intercalate "\n\n\n" (ds.map fun d => Text.trimEnd d.render)

end AgentCompiler
