import AgentCompiler.Proofs.Gateway.Served
import AgentCompiler.Proofs.Tool.Input

/-!
# What a request requires

A request with parameters and a body takes one record of both, and a gateway advertises one object of
both. The body is required in the one exactly when it is in the other. The parameters are always
required in what is advertised, but in the record only when one of them is: `requirements_agree_iff`.
-/

namespace AgentCompiler.Tool

open Schema Gateway

/-! ## Advertised inputs -/

/-- The schema that is advertised for an operation. -/
def Origin.inputSchema : Origin → Json
  | .request document o => requestSchema (Schema.components document) o
  | .function f => functionSchema f

/-- What is advertised of a tool does not depend on where it stands. -/
theorem inputSchema_build {g : ActionGroup} {proxied : Bool} {name : String} {origin : Origin}
    {t : Tool} {r r' : Registry} (h : Tool.build g proxied name origin r = some (t, r')) :
    t.inputSchema = origin.inputSchema := by
  obtain ⟨⟨input, r₁⟩, -, ht⟩ := Option.bind_eq_some_iff.mp h
  cases origin <;> (cases ht; rfl)

/-- The jobs of groups are their operations, in order. -/
theorem map_origin_jobs (groups : List ActionGroup) (gateway : Bool) :
    (jobs groups gateway).map Job.origin = groups.flatMap origins := by
  have hplan := congrArg (List.flatMap Prod.snd) (map_plan groups)
  rw [List.flatMap_map, List.flatMap_map] at hplan
  rw [← hplan, jobs, List.map_flatMap]
  refine congrArg (List.flatMap · _) (funext fun p => ?_)
  rw [Planned.jobs, List.map_map]
  rfl

/-- The tools of groups have the schemas of their operations, in order. -/
theorem map_inputSchema {groups : List ActionGroup} {gateway : Bool} {gs : List ToolGroup}
    {r r' : Registry} (h : synthesize groups gateway r = some (gs, r')) :
    (gs.flatMap (·.tools)).map (·.inputSchema) = (groups.flatMap origins).map Origin.inputSchema := by
  have hbuilt := mapM_forall₂ (R := fun j t => j.origin.inputSchema = t.inputSchema)
    (fun _ _ _ _ ht => (inputSchema_build ht).symm) (mapM_jobs h)
  rw [← map_origin_jobs groups gateway, List.map_map, ← List.forall₂_eq_eq_eq,
    List.forall₂_map_left_iff, List.forall₂_map_right_iff]
  exact hbuilt.flip.imp fun _ _ => Eq.symm

/-- A gateway advertises all that an object schema requires. -/
theorem required_ofTool {t : Tool} {properties : Members} {required : List String}
    (h : t.inputSchema = objectSchema properties required) :
    (Descriptor.ofTool t).required = required := by
  rw [Descriptor.ofTool, h]
  exact filterMap_strings required

/-- A request requires its parameters whenever it has some, and a body only when there has to be one. -/
theorem required_request {t : Tool} {document : Json} {o : Api.Operation}
    (h : t.inputSchema = (Origin.request document o).inputSchema) :
    ("parameters" ∈ (Descriptor.ofTool t).required ↔ o.parameters ≠ []) ∧
      ("requestBody" ∈ (Descriptor.ofTool t).required ↔ o.requestBody ≠ [] ∧ o.bodyRequired) := by
  rw [required_ofTool h]
  cases o.parameters <;> cases o.requestBody <;> cases o.bodyRequired <;> simp

/-! ## Records of requests -/

/-- What the parameters and the body of a request are mapped to. -/
def requestParts (document : Json) (o : Api.Operation) (name : String) :
    Mapping (Option TypeExpr × Option TypeExpr) := do
  let parameters ← mapParameters (Schema.components document) o.parameters (name ++ "_Params")
  let body ← mapContent (Schema.components document) o.requestBody name
  pure (parameters, body)

/-- Parameters and body are composed to a record of both. -/
theorem compose_apply (tool : String) (parameters body : TypeExpr × Bool) (r : Registry) :
    ∃ d : Declaration, d.name = Name.pascal (tool ++ "_Input") ∧
      d.signature = [("parameters", parameters.2), ("request_body", body.2)] ∧
      compose tool (some parameters) (some body) r = some (some (.named d.name), r.register d) := by
  refine ⟨_, Declaration.name_record _ _ _, ?_, rfl⟩
  rw [Declaration.signature_record, List.map_cons, List.map_cons, List.map_nil,
    Field.signature_ofProperty, Field.signature_ofProperty]

/-- A request with parameters and a body takes a plain mapping when its body has no type, and else the
class of its name. When that is new, a record of both is declared. -/
theorem requestInput_eq_some {document : Json} {o : Api.Operation} {name : String}
    {input : ToolInput} {r r' : Registry} (hps : o.parameters ≠ []) (hbody : o.requestBody ≠ [])
    (h : requestInput document o name r = some (input, r')) :
    ∃ parts r₁, requestParts document o name r = some (parts, r₁) ∧
      input = (if parts.2.isSome then .typed (.named (Name.pascal (name ++ "_Input"))) else .untyped) ∧
      (parts.2.isSome → r₁.contains (Name.pascal (name ++ "_Input")) = false →
        ∃ d, r'.find? (Name.pascal (name ++ "_Input")) = some d ∧
          d.signature = [("parameters", o.parameters.any (·.required)),
            ("request_body", o.bodyRequired)]) := by
  obtain ⟨⟨parameters, r₀⟩, hparameters, h⟩ := Option.bind_eq_some_iff.mp h
  obtain ⟨⟨body, r₁⟩, hcontent, h⟩ := Option.bind_eq_some_iff.mp h
  obtain rfl := class_mapParameters hps hparameters
  refine ⟨_, r₁, Option.bind_eq_some_iff.mpr ⟨_, hparameters,
    Option.bind_eq_some_iff.mpr ⟨_, hcontent, rfl⟩⟩, ?_⟩
  have hempty : o.requestBody.isEmpty = false := by simpa using hbody
  -- The parameters have a class in any case, so only the body decides.
  cases body with
  | none =>
      simp only [hempty, Bool.not_false, Option.isNone_none, Bool.and_self, if_true] at h
      cases h
      exact ⟨rfl, fun hsome => by cases hsome⟩
  | some b =>
      simp only [hempty, Option.isNone_some, Bool.and_false, Bool.false_eq_true, if_false] at h
      obtain ⟨d, hname, hsignature, hcompose⟩ := compose_apply name
        (.named (Name.pascal (name ++ "_Params")), o.parameters.any (·.required))
        (b, o.bodyRequired) r₁
      rw [bind_apply, Option.map_some, Option.map_some, hcompose, Option.bind_some] at h
      cases h
      rw [← hname]
      exact ⟨rfl, fun _ hfresh => ⟨d, Registry.find?_register hfresh, hsignature⟩⟩

/-! ## Both descriptions -/

/-- The tool at the place of a job is built in the registry that the jobs before it leave, and what is
declared then stays declared. -/
theorem build_of_split {groups : List ActionGroup} {gateway : Bool} {gs : List ToolGroup}
    {r : Registry} {before after : List Job} {j : Job}
    (h : synthesize groups gateway {} = some (gs, r))
    (hsplit : jobs groups gateway = before ++ j :: after) :
    ∃ ts r₁ t r₂, before.mapM Job.build {} = some (ts, r₁) ∧ j.build r₁ = some (t, r₂) ∧
      r₂.Within r ∧ (gs.flatMap (·.tools))[before.length]? = some t := by
  have hjobs := mapM_jobs h
  rw [hsplit] at hjobs
  obtain ⟨ts, r₁, ts', hbefore, hrest, htools⟩ := mapM_append_eq_some.mp hjobs
  rw [List.mapM_cons] at hrest
  obtain ⟨⟨t, r₂⟩, ht, hrest⟩ := Option.bind_eq_some_iff.mp hrest
  obtain ⟨⟨ts'', r₃⟩, hafter, hrest⟩ := Option.bind_eq_some_iff.mp hrest
  cases hrest
  obtain ⟨-, hr₁, -⟩ := sound_jobs before {} Registry.ordered_empty ts r₁ hbefore
  obtain ⟨-, hr₂, -⟩ := sound_build _ _ _ _ r₁ hr₁ t r₂ ht
  obtain ⟨hwithin, -, -⟩ := sound_jobs after r₂ hr₂ ts'' r hafter
  have hlength : ts.length = before.length :=
    (mapM_forall₂ (R := fun _ _ => True) (fun _ _ _ _ _ => trivial) hbefore).length_eq.symm
  refine ⟨ts, r₁, t, r₂, hbefore, ht, hwithin, ?_⟩
  rw [htools, ← hlength, List.getElem?_append_right (Nat.le_refl _), Nat.sub_self]
  rfl

/-- A property that is advertised is required exactly when a field of a record is. -/
def RequiredAlike (t : Tool) (property : String) (d : Declaration) (field : String) : Prop :=
  property ∈ (Descriptor.ofTool t).required ↔ (field, true) ∈ d.signature

/-- The record of a request requires the body when that is advertised as required. The parameters are
always advertised as required, which the record agrees with when one of them is. -/
theorem requiredAlike_request {t : Tool} {document : Json} {o : Api.Operation} {d : Declaration}
    (hps : o.parameters ≠ []) (hbody : o.requestBody ≠ [])
    (hschema : t.inputSchema = (Origin.request document o).inputSchema)
    (hsignature : d.signature =
      [("parameters", o.parameters.any (·.required)), ("request_body", o.bodyRequired)]) :
    (RequiredAlike t "parameters" d "parameters" ↔ ∃ p ∈ o.parameters, p.required) ∧
      RequiredAlike t "requestBody" d "request_body" := by
  obtain ⟨hparameters, hrequestBody⟩ := required_request hschema
  constructor
  · rw [RequiredAlike, hparameters, hsignature, ← List.any_eq_true]
    cases o.parameters.any (·.required) <;> simp [hps]
  · rw [RequiredAlike, hrequestBody, hsignature]
    cases o.bodyRequired <;> simp [hbody]

/-- A request with parameters and a body, which no gateway serves, takes the class of its name, or a
plain mapping when its body has no type. Where nothing is declared under the class when its parts are
mapped, its record is found there in the end. What is advertised of the tool, with or without a gateway,
agrees with the record on the body, and agrees on the parameters exactly when one of them is required. -/
theorem requirements_agree_iff {groups : List ActionGroup} {gateway : Bool} {gs : List ToolGroup}
    {r : Registry} (h : synthesize groups gateway {} = some (gs, r)) :
    (∀ before j after document o, jobs groups gateway = before ++ j :: after →
      j.proxied = false → j.origin = .request document o → o.parameters ≠ [] → o.requestBody ≠ [] →
      ∃ ts r₁ parts r₂ t, before.mapM Job.build {} = some (ts, r₁) ∧
        requestParts document o j.name r₁ = some (parts, r₂) ∧
        (gs.flatMap (·.tools))[before.length]? = some t ∧ t.name = j.name ∧
        t.input = (if parts.2.isSome then .typed (.named j.inputClass) else .untyped) ∧
        (parts.2.isSome → r₂.contains j.inputClass = false → ∃ d, r.find? j.inputClass = some d ∧
          d.signature = [("parameters", o.parameters.any (·.required)),
            ("request_body", o.bodyRequired)] ∧
          (RequiredAlike t "parameters" d "parameters" ↔ ∃ p ∈ o.parameters, p.required) ∧
          RequiredAlike t "requestBody" d "request_body")) ∧
    ∀ gateway' gs' r', synthesize groups gateway' {} = some (gs', r') →
      (gs'.flatMap (·.tools)).map (·.inputSchema) = (gs.flatMap (·.tools)).map (·.inputSchema) := by
  constructor
  · intro before j after document o hsplit hlocal horigin hps hbody
    obtain ⟨ts, r₁, t, r₃, hbefore, ht, hwithin, hplace⟩ := build_of_split h hsplit
    have hschema := inputSchema_build ht
    obtain ⟨group, proxied, name, origin⟩ := j
    subst hlocal horigin
    obtain ⟨⟨input, r₄⟩, hinput, hbuilt⟩ := Option.bind_eq_some_iff.mp ht
    cases hbuilt
    obtain ⟨parts, r₂, hparts, htype, hrecord⟩ := requestInput_eq_some hps hbody hinput
    refine ⟨ts, r₁, parts, r₂, _, hbefore, hparts, hplace, rfl, htype, fun hsome hfresh => ?_⟩
    obtain ⟨d, hd, hsignature⟩ := hrecord hsome hfresh
    -- The jobs behind this one do not change what is found under its class.
    exact ⟨d, hwithin.find? hd, hsignature, requiredAlike_request hps hbody hschema hsignature⟩
  · intro gateway' gs' r' h'
    rw [map_inputSchema h, map_inputSchema h']

/-! ## A request with one parameter -/

/-- The schema of an order. -/
def orderSchema : Json := .obj [("type", .str "object")]

/-- The note on an order, which is required or not. -/
def note (required : Bool) : Api.Parameter :=
  { name := "note", required, schema := some (Api.tagSchema "string") }

/-- An interface with one operation, which takes a note and an order. -/
def shopInterface (required : Bool) : Json :=
  .obj [("paths", .obj [("/orders", .obj [("post", .obj [
    ("parameters", .arr [.obj [("name", .str "note"), ("in", .str "query"),
      ("required", .bool required), ("schema", Api.tagSchema "string")]]),
    ("requestBody", .obj [("required", .bool true),
      ("content", .obj [("application/json", .obj [("schema", orderSchema)])])])])])])]

def shop (required : Bool) : ActionGroup :=
  { name := "shop", schema := some (.interface (shopInterface required)) }

/-- The operation of the shop. -/
def placeOrder (required : Bool) : Api.Operation where
  path := "/orders"
  method := "post"
  parameters := [note required]
  requestBody := [⟨"application/json", orderSchema⟩]
  bodyRequired := true

/-- The record of the note. -/
def noteRecord (required : Bool) : Declaration :=
  .record "ShopOrdersPostParams" none [.ofProperty "note" .text required none]

/-- The record of an order. -/
def orderRecord : Declaration :=
  .record "ShopOrdersPostApplicationJson" none
    [.ofProperty "content_type_annotation" (.literal "application/json") true none]

theorem mapParameters_note (required : Bool) :
    mapParameters [] [note required] "shop_orders_post_Params" {} =
      some (some (.named "ShopOrdersPostParams"), ⟨[noteRecord required]⟩) := by
  have htype : mapField [] (Api.tagSchema "string") "shop_orders_post_Params_note" {} =
      some (.text, {}) := mapWithin_below 1 _ _ _ _ _ _ _ rfl
  have htypes : [note required].mapM (parameterType [] "shop_orders_post_Params") {} =
      some ([.text], {}) := by
    rw [List.mapM_cons, bind_apply]
    exact congrArg (Option.bind · _) htype
  have hnew : Registry.contains {} (Name.pascal "shop_orders_post_Params") = false := rfl
  rw [mapParameters_apply [] _ _ (List.cons_ne_nil _ _), hnew, htypes]
  cases required <;> rfl

theorem mapContent_order (required : Bool) :
    mapContent [] [⟨"application/json", orderSchema⟩] "shop_orders_post" ⟨[noteRecord required]⟩ =
      some (some (.named "ShopOrdersPostApplicationJson"), ⟨[noteRecord required, orderRecord]⟩) := by
  have hname : "shop_orders_post" ++ "_" ++ Name.snake "application/json" =
      "shop_orders_post_application_json" := by decide +kernel
  have hbody : Scope.mapNode ⟨[], []⟩ orderSchema "shop_orders_post_application_json" .root
      (some "application/json") ⟨[noteRecord required]⟩ =
        some (.named "ShopOrdersPostApplicationJson", ⟨[noteRecord required, orderRecord]⟩) := by
    cases required <;> exact mapWithin_below 1 _ _ _ _ _ _ _ rfl
  simp only [mapContent, List.mapM_cons, List.mapM_nil, bind_apply, pure_apply, hname, hbody,
    Option.bind_some]
  rfl

/-- The note and the order have a record each. -/
theorem requestParts_shop (required : Bool) :
    requestParts (shopInterface required) (placeOrder required) "shop_orders_post" {} =
      some ((some (.named "ShopOrdersPostParams"), some (.named "ShopOrdersPostApplicationJson")),
        ⟨[noteRecord required, orderRecord]⟩) := by
  refine Option.bind_eq_some_iff.mpr ⟨_, mapParameters_note required, ?_⟩
  exact Option.bind_eq_some_iff.mpr ⟨_, mapContent_order required, rfl⟩

theorem plan_shop (required : Bool) :
    plan [shop required] = [⟨shop required, "shop",
      [("shop_orders_post", .request (shopInterface required) (placeOrder required))]⟩] := by
  cases required <;> rfl

/-- The record of the note and the order. -/
def shopRecord (required : Bool) : Declaration :=
  .record "ShopOrdersPostInput" none
    [.ofProperty "parameters" (.named "ShopOrdersPostParams") required
      (some "Parameters (ie. for a GET method) for this API Call"),
    .ofProperty "request_body" (.named "ShopOrdersPostApplicationJson") true
      (some "Request body (ie. for a POST method) for this API Call")]

/-- The tool of the shop. -/
def shopTool (required : Bool) : Tool where
  name := "shop_orders_post"
  description := describe none (shop required)
  group := "shop"
  input := .typed (.named "ShopOrdersPostInput")
  body := .ask
  operation := .request "/orders" "POST" true (some "application/json")
  inputSchema := requestSchema [] (placeOrder required)

theorem build_shop (required : Bool) :
    Tool.build (shop required) false "shop_orders_post"
        (.request (shopInterface required) (placeOrder required)) {} =
      some (shopTool required, ⟨[noteRecord required, orderRecord, shopRecord required]⟩) := by
  have hinput : requestInput (shopInterface required) (placeOrder required) "shop_orders_post" {} =
      some (.typed (.named "ShopOrdersPostInput"),
        ⟨[noteRecord required, orderRecord, shopRecord required]⟩) := by
    refine Option.bind_eq_some_iff.mpr ⟨_, mapParameters_note required, ?_⟩
    refine Option.bind_eq_some_iff.mpr ⟨_, mapContent_order required, ?_⟩
    cases required <;> rfl
  refine Option.bind_eq_some_iff.mpr ⟨_, hinput, ?_⟩
  cases required <;> rfl

theorem synthesize_shop (required : Bool) :
    synthesize [shop required] false {} = some ([⟨"shop", "shop", none, [shopTool required]⟩],
      ⟨[noteRecord required, orderRecord, shopRecord required]⟩) := by
  have hbuild : (Planned.mk (shop required) "shop"
      [("shop_orders_post", .request (shopInterface required) (placeOrder required))]).build false {} =
      some (⟨"shop", "shop", none, [shopTool required]⟩,
        ⟨[noteRecord required, orderRecord, shopRecord required]⟩) := by
    refine Option.bind_eq_some_iff.mpr ⟨([shopTool required], _), ?_, rfl⟩
    rw [List.mapM_cons]
    exact Option.bind_eq_some_iff.mpr ⟨_, build_shop required, rfl⟩
  rw [synthesize, plan_shop, List.mapM_cons]
  exact Option.bind_eq_some_iff.mpr ⟨_, hbuild, rfl⟩

/-- Where the note has to be there, the record of the shop agrees with what is advertised. -/
theorem requirements_agree_shop :
    ∃ gs r t d, synthesize [shop true] false {} = some (gs, r) ∧
      (gs.flatMap (·.tools))[0]? = some t ∧ t.input = .typed (.named "ShopOrdersPostInput") ∧
      r.find? "ShopOrdersPostInput" = some d ∧ RequiredAlike t "parameters" d "parameters" ∧
      RequiredAlike t "requestBody" d "request_body" := by
  have hjobs : jobs [shop true] false = [] ++ ⟨shop true, false, "shop_orders_post",
      .request (shopInterface true) (placeOrder true)⟩ :: [] := by
    rw [jobs, plan_shop]
    rfl
  obtain ⟨ts, r₁, parts, r₂, t, hbefore, hparts, ht, -, hinput, hrecord⟩ :=
    (requirements_agree_iff (synthesize_shop true)).1 [] _ [] _ _ hjobs rfl rfl
      (List.cons_ne_nil _ _) (List.cons_ne_nil _ _)
  cases hbefore
  cases hparts.symm.trans (requestParts_shop true)
  obtain ⟨d, hd, -, hparameters, hbody⟩ := hrecord rfl rfl
  exact ⟨_, _, t, d, synthesize_shop true, ht, hinput, hd,
    hparameters.mpr ⟨note true, List.mem_cons_self, rfl⟩, hbody⟩

/-- Where the note may be left out, the parameters are advertised as required all the same. -/
theorem requirements_not_agree_shop :
    synthesize [shop false] false {} = some ([⟨"shop", "shop", none, [shopTool false]⟩],
        ⟨[noteRecord false, orderRecord, shopRecord false]⟩) ∧
      (shopTool false).input = .typed (.named (shopRecord false).name) ∧
      ¬RequiredAlike (shopTool false) "parameters" (shopRecord false) "parameters" := by
  refine ⟨synthesize_shop false, rfl, fun hagree => ?_⟩
  have hschema : (shopTool false).inputSchema =
      (Origin.request (shopInterface false) (placeOrder false)).inputSchema := rfl
  have hrequired : "parameters" ∈ (Descriptor.ofTool (shopTool false)).required :=
    (required_request hschema).1.mpr (List.cons_ne_nil _ _)
  have hoptional : ("parameters", true) ∉ (shopRecord false).signature := by decide +kernel
  exact hoptional (hagree.mp hrequired)

end AgentCompiler.Tool
