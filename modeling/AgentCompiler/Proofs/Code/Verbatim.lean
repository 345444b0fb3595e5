import AgentCompiler.Gateway.Dispatch
import AgentCompiler.Proofs.Text.Fill

/-!
# Values in generated code

The code of tools and of dispatch functions is filled one marker after the other. A value reaches the
code as it is for as long as no value before brings in its marker; the markers of these templates have
room around them, so that a marker can only come in as a whole, inside a value.
-/

namespace AgentCompiler.Code

open Text

/-! ## Tools -/

/-- The template of a tool. -/
def toolText (t : Tool) : String :=
  match t.body, t.operation with
  | .ask, _ => Tool.askText
  | .invoke _ _, .request _ _ _ _ => Tool.requestText
  | .invoke _ _, .function _ _ => Tool.functionText

/-- The values of a tool, in the order in which they are filled. -/
def toolValues (t : Tool) (decorator : String) : List (String × String) :=
  t.commonValues decorator ++
    match t.body, t.operation with
    | .ask, _ => [("prompt", t.prompt)]
    | .invoke reference region, .request path method hasParameters mediaType =>
      let (parameters, body) := Tool.split t.input hasParameters mediaType.isSome
      [("params_dump", parameters), ("body_dump", body), ("action_group", quote t.group),
        ("path", quote path), ("method", quote method),
        ("media_type", quote (mediaType.getD "application/json")),
        ("function_ref", quote reference), ("region", quote region)]
    | .invoke reference region, .function name parameterTypes =>
      let types := Table.ofEntries (parameterTypes.map fun (n, tag) => (n, .str tag))
      [("dump", Tool.dump t.input), ("parameter_types", literal (.obj types)),
        ("action_group", quote t.group), ("function", quote name),
        ("function_ref", quote reference), ("region", quote region)]

/-- The code of a tool is its template, filled with its values. -/
theorem render_eq_fill (t : Tool) (decorator : String) :
    t.render decorator = fill (toolText t) (toolValues t decorator) := by
  unfold Tool.render toolText toolValues
  cases t.body with
  | ask => rfl
  | invoke reference region =>
      cases t.operation with
      | request path method hasParameters mediaType => rfl
      | function name parameterTypes => rfl

/-- The markers that are filled in the template of a tool that asks. -/
def askKeys : List String := ["decorator", "name", "signature", "docstring", "prompt"]

/-- The markers that are filled in the template of a tool that sends a request. -/
def requestKeys : List String :=
  ["decorator", "name", "signature", "docstring", "params_dump", "body_dump", "action_group", "path",
    "method", "media_type", "function_ref", "region"]

/-- The markers that are filled in the template of a tool that calls a function. -/
def functionKeys : List String :=
  ["decorator", "name", "signature", "docstring", "dump", "parameter_types", "action_group", "function",
    "function_ref", "region"]

theorem fits_askText : Fits (askKeys.map String.toList) Tool.askText.toList :=
  fits_ofLines (by repeat' constructor) (by repeat' constructor) (by decide) (by decide)
    (by decide +kernel) (by decide +kernel)

theorem fits_requestText : Fits (requestKeys.map String.toList) Tool.requestText.toList :=
  fits_ofLines (by repeat' constructor) (by repeat' constructor) (by decide) (by decide)
    (by decide +kernel) (by decide +kernel)

theorem fits_functionText : Fits (functionKeys.map String.toList) Tool.functionText.toList :=
  fits_ofLines (by repeat' constructor) (by repeat' constructor) (by decide) (by decide)
    (by decide +kernel) (by decide +kernel)

/-- The markers of a tool have room around them. -/
theorem fits_toolText (t : Tool) (decorator : String) :
    Fits (((toolValues t decorator).map Prod.fst).map String.toList) (toolText t).toList := by
  unfold toolValues toolText
  cases t.body with
  | ask => exact fits_askText
  | invoke reference region =>
      cases t.operation with
      | request path method hasParameters mediaType => exact fits_requestText
      | function name parameterTypes => exact fits_functionText

/-! ## Dispatch functions -/

/-- The values of a dispatch function, in the order in which they are filled. -/
def dispatchValues (a : Agent) (rs : List Gateway.Route) : List (String × String) :=
  [("metadata", prettyLiteral (Tool.metadata a)),
    ("mappings", prettyLiteral (Gateway.routingTable rs))]

theorem fits_dispatchText :
    Fits (["metadata", "mappings"].map String.toList) Gateway.dispatchText.toList :=
  fits_ofLines (by repeat' constructor) (by repeat' constructor) (by decide) (by decide)
    (by decide +kernel) (by decide +kernel)

/-- The literal of an object is no marker. -/
theorem prettyLiteral_obj_ne (ms : Members) (key : List Char) :
    (prettyLiteral (.obj ms)).toList ≠ marker key := by
  rw [prettyLiteral, String.toList_ofList, prettyChars, bracketed]
  split
  · intro h
    cases h
  · intro h
    cases h

/-- The code of a dispatch function is filled in one pass exactly when the literal of the agent does not
hold the marker of the routes. -/
theorem source_eq_fillOnce_iff (a : Agent) (rs : List Gateway.Route) :
    (Gateway.Dispatch.ofAgent a rs).source = fillOnce Gateway.dispatchText (dispatchValues a rs) ↔
      ¬marker "mappings".toList <:+: (prettyLiteral (Tool.metadata a)).toList := by
  have hfits : Fits (((dispatchValues a rs).map Prod.fst).map String.toList)
      Gateway.dispatchText.toList := fits_dispatchText
  have hroutes : (prettyLiteral (Gateway.routingTable rs)).toList ≠ marker "mappings".toList :=
    prettyLiteral_obj_ne _ _
  refine verbatim_pair_iff.symm.trans ((verbatim_iff_of_fits hfits).trans ?_)
  rw [dispatchValues, List.pairwise_pair]
  exact or_iff_right hroutes

/-! ## Values that reach the code as they are -/

/-- Values are filled as they are exactly when no value, other than a marker that stands for itself,
belongs to a marker that the values before brought in. So the values of a tool are exactly when none of
them holds the marker of a later one, and the code of a dispatch function is exactly when the literal of
the agent does not hold the marker of the routes. -/
theorem fill_verbatim_iff (template : String) (values : List (String × String))
    (hnodup : (values.map Prod.fst).Nodup) (hbraceless : ∀ e ∈ values, Braceless e.1.toList) :
    (Verbatim template values ↔ ∀ n key value, values[n]? = some (key, value) →
        value.toList = marker key.toList ∨ ¬BringsIn template (values.take n) key) ∧
      (∀ (t : Tool) (decorator : String),
        (Verbatim (toolText t) (toolValues t decorator) →
          t.render decorator = fillOnce (toolText t) (toolValues t decorator)) ∧
        (Verbatim (toolText t) (toolValues t decorator) ↔
          (toolValues t decorator).Pairwise fun e later =>
            later.2.toList = marker later.1.toList ∨ ¬marker later.1.toList <:+: e.2.toList)) ∧
      ∀ (a : Agent) (rs : List Gateway.Route),
        (Gateway.Dispatch.ofAgent a rs).source =
            fillOnce Gateway.dispatchText (dispatchValues a rs) ↔
          ¬marker "mappings".toList <:+: (prettyLiteral (Tool.metadata a)).toList := by
  refine ⟨verbatim_iff hnodup hbraceless, fun t decorator => ⟨fun h => ?_, ?_⟩, source_eq_fillOnce_iff⟩
  · rw [render_eq_fill]
    exact h.fill_eq
  · exact verbatim_iff_of_fits (fits_toolText t decorator)

/-- A tool that asks whoever runs the agent. -/
def askingTool (description : String) : Tool where
  name := "help_ask"
  description := description
  group := "Help"
  input := .none
  body := .ask
  operation := .function "ask" []
  inputSchema := .obj []

/-- Values of which the second one holds the marker that was filled before. -/
def earlierMarker : List (String × String) := [("name", "Ann"), ("topic", "the marker {{name}}")]

theorem fill_verbatim_earlierMarker :
    Verbatim "Ask {{name}} about {{topic}}." earlierMarker ∧
      (askingTool "Ask {{name}}.").render "@tool" =
        fillOnce Tool.askText (toolValues (askingTool "Ask {{name}}.") "@tool") := by
  obtain ⟨hfill, htool, -⟩ := fill_verbatim_iff "Ask {{name}} about {{topic}}." earlierMarker
    (by decide) (by decide +kernel)
  refine ⟨hfill.mpr fun n key value hn => .inr ?_, ?_⟩
  · match n, hn with
    | 0, hn =>
        cases hn
        decide +kernel
    | 1, hn =>
        cases hn
        decide +kernel
    | n + 2, hn => cases hn
  · obtain ⟨hrender, hiff⟩ := htool (askingTool "Ask {{name}}.") "@tool"
    exact hrender (hiff.mpr (by decide +kernel))

theorem fill_not_verbatim :
    fill "{{a}}{{b}}" [("a", "{{b}}"), ("b", "x")] ≠
        fillOnce "{{a}}{{b}}" [("a", "{{b}}"), ("b", "x")] ∧
      (askingTool "Ask with {{prompt}}.").render "@tool" ≠
        fillOnce Tool.askText (toolValues (askingTool "Ask with {{prompt}}.") "@tool") := by
  refine ⟨by decide +kernel, ?_⟩
  rw [render_eq_fill]
  show ¬(fill Tool.askText _ = fillOnce Tool.askText _)
  rw [fill_eq_fillOnce_iff, Tool.askText, toList_ofLines]
  decide +kernel

end AgentCompiler.Code
