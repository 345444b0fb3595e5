import AgentCompiler.Document.JsonText
import AgentCompiler.Json.Writer
import AgentCompiler.Text.Blank

/-!
# Configured templates

A template is configured as a text or as a chat template, whose system text counts, or else the content
of its first message. A text may hold a chat template in its turn.
-/

namespace AgentCompiler.Prompt

/-- The text of one part of a message. -/
def partText? (part : Json) : Option String := part.getString? "text" <|> part.string?

/-- The text of a message's content: a text, or parts on lines of their own. -/
def contentText (content : Option Json) : String :=
  match content with
  | some (.str text) => text
  | some (.arr parts) => String.intercalate "\n" (parts.filterMap partText?)
  | _ => ""

/-- The text of a chat template. -/
def chatText (chat : Members) : String :=
  match ((chat.lookup "system").bind Json.string?).filter fun s => !Text.blank s with
  | some system => system
  | none =>
    match (chat.lookup "messages").bind Json.items? with
    | some (first :: _) => contentText (first.get? "content")
    | _ => ""

/-- The chat template in a text. -/
def chatIn? (text : String) : Option Members := do
  if (Text.trimStart text).toList.head? ≠ some '{' then none
  let chat ← (Json.read? text).bind Json.members?
  if (chat.lookup "system").isSome || (chat.lookup "messages").isSome then some chat else none

/-- The text of a configured template. -/
def templateText : Json → String
  | .null => ""
  | .str text => ((chatIn? text).map chatText).getD text
  | .obj chat => chatText chat
  | other => other.compact

end AgentCompiler.Prompt
