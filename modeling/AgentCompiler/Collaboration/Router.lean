import AgentCompiler.Collaboration.Link
import AgentCompiler.Text.Lines
import AgentCompiler.Text.Marker

/-!
# Routing to collaborators

A router asks a model which collaborator a question is for, and hands the question over as a whole when
the answer names one.
-/

namespace AgentCompiler

/-- The entry of a collaborator in the table of a router. -/
def Link.route (l : Link) : String :=
  "    " ++ Code.quote l.name ++ ": (" ++ l.invokeAlias ++ ", " ++ Code.bool l.delegation.relayHistory ++
    "),"

/-- The table of a router. -/
def routeTable (links : List Link) : String :=
  Text.ofLines [r"collaborator_routes = {", Text.ofLines (links.map (·.route)), r"}"]

/-- The code that asks for a collaborator and calls it. -/
def routerText : String :=
  Text.ofLines [
    r#"routing_template = ROUTING_TEMPLATE.replace("$last_user_request$", question).replace("$conversation$", messages).replace("$last_most_specialized_agent$", last_agent)"#,
    "{{classify}}",
    r#"choice = str(re.findall(r"<a.*?>(.*?)</a>", routing_choice)[0]).strip().removeprefix("invoke_")"#,
    r#"if choice == "keep_previous_agent":"#,
    "    choice = last_agent",
    "if choice in collaborator_routes:",
    "    last_agent = choice",
    "    target, relay = collaborator_routes[choice]",
    "    return target(question, {{history}}) if relay else target(question)"]

/-- The code that asks for a collaborator and calls it. `classify` sets the answer of the model, and
`history` stands for the conversation that is handed on. -/
def routerDispatch (classify history : String) : String :=
  Text.fill routerText [("classify", classify), ("history", history)]

end AgentCompiler
