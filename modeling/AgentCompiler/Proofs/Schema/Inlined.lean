import AgentCompiler.Proofs.Schema.Ending
import AgentCompiler.Schema.Inlining

/-!
# Schemas that stand alone are in normal form

Inlining follows a reference only while its component is not being replaced, so every nesting of
conversions ends, and the bound on its steps is never reached. What comes out has no references, no
choices and no keywords of interface documents at any place of a schema, and inlining changes it no
more: `inline_normal`.
-/

namespace AgentCompiler.Schema

open Relation

/-! ## Places of schemas -/

/-- Keywords whose value is a schema. -/
def schemaKeywords : List String := ["items", "additionalProperties", "not"]

/-- A schema stands directly inside another one. -/
inductive Inside : Json → Json → Prop
  | property {node props : Members} {name : String} {schema : Json}
      (hprops : ("properties", .obj props) ∈ node) (hschema : (name, schema) ∈ props) :
      Inside (.obj node) schema
  | keyword {node : Members} {key : String} {schema : Json} (hkey : key ∈ schemaKeywords)
      (hschema : (key, schema) ∈ node) : Inside (.obj node) schema
  | part {node : Members} {parts : List Json} {schema : Json}
      (hparts : ("allOf", .arr parts) ∈ node) (hschema : schema ∈ parts) :
      Inside (.obj node) schema

/-- An object without a reference, a keyword of interface documents and a choice of branches. -/
structure Clean (node : Members) : Prop where
  reference (reference : String) : node.lookup "$ref" ≠ some (.str reference)
  keywords : ∀ e ∈ node, e.1 ∉ documentOnly
  choices : ∀ key ∈ ["oneOf", "anyOf"], ∀ branch rest, node.lookup key ≠ some (.arr (branch :: rest))

/-- At every place of a schema an object is clean. -/
def Normal (schema : Json) : Prop := ∀ node, ReflTransGen Inside schema (.obj node) → Clean node

/-- A value of an object's member is smaller than the object. -/
theorem sizeOf_lt_of_mem {node : Members} {key : String} {value : Json} (h : (key, value) ∈ node) :
    sizeOf value < sizeOf (Json.obj node) := by
  have hlt := List.sizeOf_lt_of_mem h
  simp only [Prod.mk.sizeOf_spec] at hlt
  simp only [Json.obj.sizeOf_spec]
  omega

theorem Inside.sizeOf_lt {schema schema' : Json} (h : Inside schema schema') :
    sizeOf schema' < sizeOf schema := by
  cases h with
  | property hprops hschema => exact (sizeOf_lt_of_mem hschema).trans (sizeOf_lt_of_mem hprops)
  | keyword _ hschema => exact sizeOf_lt_of_mem hschema
  | part hparts hschema => exact (sizeOf_lt_of_items rfl hschema).trans (sizeOf_lt_of_mem hparts)

theorem normal_obj_iff {node : Members} :
    Normal (.obj node) ↔ Clean node ∧ ∀ schema, Inside (.obj node) schema → Normal schema := by
  constructor
  · exact fun h => ⟨h node .refl, fun schema hinside node' hplace => h node' (.head hinside hplace)⟩
  · rintro ⟨hclean, hinside⟩ node' hplace
    rcases ReflTransGen.cases_head hplace with heq | ⟨schema, hstep, hplace⟩
    · cases heq
      exact hclean
    · exact hinside schema hstep node' hplace

/-- Nothing stands inside a value that is no object. -/
theorem normal_of_ne_obj {schema : Json} (h : ∀ node, schema ≠ .obj node) : Normal schema := by
  intro node hplace
  rcases ReflTransGen.cases_head hplace with heq | ⟨schema', hstep, -⟩
  · exact absurd heq (h node)
  · cases hstep <;> exact absurd rfl (h _)

theorem normal_untyped : Normal untyped := by
  refine normal_obj_iff.mpr ⟨⟨?_, by decide, ?_⟩, fun schema hinside => ?_⟩
  · intro reference h
    cases h
  · intro key hkey branch rest h
    rcases List.mem_pair.mp hkey with rfl | rfl <;> cases h
  · cases hinside with
    | property hprops => simp at hprops
    | keyword hkey hschema =>
        obtain rfl := congrArg Prod.fst (List.mem_singleton.mp hschema)
        exact absurd hkey (by decide)
    | part hparts => simp at hparts

/-! ## What inlining does to an object -/

/-- The first branch of the choice under a key. -/
def firstUnder (node : Members) (key : String) : Option Json :=
  ((node.lookup key).bind Json.items?).bind List.head?

/-- The branch that stands for a choice. -/
def choice? (node : Members) : Option Json := (firstUnder node "oneOf").or (firstUnder node "anyOf")

/-- An object of schemas, each converted by `f`. -/
def convertProperties (f : Json → Json) : Json → Json
  | .obj props => .obj (props.map fun e => (e.1, f e.2))
  | value => value

/-- An array of schemas, each converted by `f`. -/
def convertParts (f : Json → Json) : Json → Json
  | .arr parts => .arr (parts.map f)
  | value => value

/-- The value of a keyword, where `f` converts the schemas in it. -/
def convertValue (f : Json → Json) (key : String) (value : Json) : Json :=
  if key = "properties" then convertProperties f value
  else if key ∈ schemaKeywords then f value
  else if key = "allOf" then convertParts f value
  else value

/-- The members of an object that stay, where `f` converts the schemas in them. -/
def convertMembers (f : Json → Json) (node : Members) : Members :=
  (node.filter (·.1 ∉ documentOnly)).map fun e => (e.1, convertValue f e.1 e.2)

section

variable (resolve : String → Json)

theorem firstBranch_eq (key : String) (node : Members) :
    firstBranch resolve key node = (firstUnder node key).map (inlineWith resolve) := by
  induction node with
  | nil => rw [firstBranch]; rfl
  | cons e node ih =>
      obtain ⟨k, v⟩ := e
      rw [firstBranch, firstUnder, Table.lookup_cons]
      by_cases hk : k = key
      · rw [if_pos hk, if_pos hk.symm]
        match v with
        | .arr (x :: xs) => rw [inlineHead]; rfl
        | .arr [] | .null | .bool _ | .num _ | .str _ | .obj _ => simp [inlineHead, Json.items?]
      · rw [if_neg hk, if_neg (Ne.symm hk), ih, firstUnder]

theorem inlineAll_eq (props : Members) :
    inlineAll resolve props = props.map fun e => (e.1, inlineWith resolve e.2) := by
  induction props with
  | nil => rw [inlineAll]; rfl
  | cons e props ih => rw [inlineAll, ih]; rfl

theorem inlineItems_eq (parts : List Json) :
    inlineItems resolve parts = parts.map (inlineWith resolve) := by
  induction parts with
  | nil => rw [inlineItems]; rfl
  | cons x parts ih => rw [inlineItems, ih]; rfl

theorem inlineProperties_eq (value : Json) :
    inlineProperties resolve value = convertProperties (inlineWith resolve) value := by
  cases value with
  | obj props => rw [inlineProperties, inlineAll_eq]; rfl
  | null | bool _ | num _ | str _ | arr _ => rfl

theorem inlineParts_eq (value : Json) :
    inlineParts resolve value = convertParts (inlineWith resolve) value := by
  cases value with
  | arr parts => rw [inlineParts, inlineItems_eq]; rfl
  | null | bool _ | num _ | str _ | obj _ => rfl

theorem inlineMembers_eq (node : Members) :
    inlineMembers resolve node = convertMembers (inlineWith resolve) node := by
  induction node with
  | nil => rw [inlineMembers]; rfl
  | cons e node ih =>
      obtain ⟨k, v⟩ := e
      have hkeywords : (k = "items" ∨ k = "additionalProperties" ∨ k = "not") ↔ k ∈ schemaKeywords := by
        simp [schemaKeywords]
      rw [inlineMembers, ih, inlineProperties_eq, inlineParts_eq]
      simp only [hkeywords, convertMembers, List.contains_iff_mem]
      split
      · next hdoc => rw [List.filter_cons_of_neg (by simpa using hdoc)]
      · next hdoc =>
          rw [List.filter_cons_of_pos (by simpa using hdoc), List.map_cons, convertValue]
          split_ifs <;> rfl

/-- A reference becomes what stands for it, a choice its first branch, and any other object keeps its
members with the schemas in them converted. -/
theorem inlineWith_obj (node : Members) :
    inlineWith resolve (.obj node) = match reference? node, choice? node with
      | some reference, _ => resolve (segment reference)
      | none, some branch => describe (node.lookup "description") (inlineWith resolve branch)
      | none, none => .obj (convertMembers (inlineWith resolve) node) := by
  rw [inlineWith, firstBranch_eq, firstBranch_eq, inlineMembers_eq, choice?]
  cases reference? node with
  | some reference => rfl
  | none => cases firstUnder node "oneOf" <;> cases firstUnder node "anyOf" <;> rfl

end

/-! ## Normal form -/

/-- A converted member stands for a member. -/
theorem mem_convertMembers {f : Json → Json} {node : Members} {key : String} {value : Json} :
    (key, value) ∈ convertMembers f node ↔
      key ∉ documentOnly ∧ ∃ v, (key, v) ∈ node ∧ value = convertValue f key v := by
  simp only [convertMembers, List.mem_map, List.mem_filter, Prod.exists, Prod.mk.injEq,
    decide_eq_true_eq]
  constructor
  · rintro ⟨k, v, ⟨hmem, hkey⟩, rfl, rfl⟩
    exact ⟨hkey, v, hmem, rfl⟩
  · rintro ⟨hkey, v, hmem, rfl⟩
    exact ⟨key, v, ⟨hmem, hkey⟩, rfl, rfl⟩

/-- A member under a key that holds no schemas stays as it is. -/
theorem lookup_convertMembers (f : Json → Json) (node : Members) {key : String}
    (hkey : key ∉ documentOnly) (hvalue : ∀ v, convertValue f key v = v) :
    (convertMembers f node).lookup key = node.lookup key := by
  induction node with
  | nil => rfl
  | cons e node ih =>
      rw [convertMembers, List.filter_cons, Table.lookup_cons]
      rw [convertMembers] at ih
      by_cases he : e.1 ∈ documentOnly
      · have hne : key ≠ e.1 := fun h => hkey (h ▸ he)
        rw [if_neg (by simpa using he), if_neg hne, ih]
      · rw [if_pos (by simpa using he), List.map_cons, Table.lookup_cons, ih]
        split
        · next h => rw [← h, hvalue]
        · rfl

/-- Converted members depend on the conversion of what stands inside the object only. -/
theorem convertMembers_congr {f g : Json → Json} {node : Members}
    (h : ∀ schema, Inside (.obj node) schema → f schema = g schema) :
    convertMembers f node = convertMembers g node := by
  refine List.map_congr_left fun e he => congrArg (Prod.mk e.1) ?_
  obtain ⟨key, value⟩ := e
  have hmem : (key, value) ∈ node := List.mem_of_mem_filter he
  rw [convertValue, convertValue]
  split
  · next hkey =>
      subst hkey
      cases value with
      | obj props =>
          exact congrArg Json.obj (List.map_congr_left fun e' he' =>
            congrArg (Prod.mk e'.1) (h _ (.property hmem he')))
      | null | bool _ | num _ | str _ | arr _ => rfl
  split
  · next hkey => exact h _ (.keyword hkey hmem)
  split
  · next hkey =>
      subst hkey
      cases value with
      | arr parts =>
          exact congrArg Json.arr (List.map_congr_left fun x hx => h _ (.part hmem hx))
      | null | bool _ | num _ | str _ | obj _ => rfl
  · rfl

namespace Clean

variable {node : Members}

theorem reference?_eq (h : Clean node) : reference? node = none := by
  rw [reference?, Option.bind_eq_none_iff]
  intro value hvalue
  cases value with
  | str reference => exact absurd hvalue (h.reference reference)
  | null | bool _ | num _ | arr _ | obj _ => rfl

theorem choice?_eq (h : Clean node) : choice? node = none := by
  have hnone {key : String} (hkey : key ∈ ["oneOf", "anyOf"]) : firstUnder node key = none := by
    rw [firstUnder, Option.bind_eq_none_iff]
    intro items hitems
    obtain ⟨value, hvalue, hitems⟩ := Option.bind_eq_some_iff.mp hitems
    cases value with
    | arr xs =>
        cases hitems
        cases items with
        | nil => rfl
        | cons branch rest => exact absurd hvalue (h.choices key hkey branch rest)
    | null | bool _ | num _ | str _ | obj _ => cases hitems
  rw [choice?, hnone (by decide), hnone (by decide), Option.or_none]

/-- The members of a clean object all stay. -/
theorem convertMembers_id (h : Clean node) : convertMembers id node = node := by
  have hvalue (key : String) (value : Json) : convertValue id key value = value := by
    cases value <;> simp [convertValue, convertProperties, convertParts]
  have hkept : node.filter (·.1 ∉ documentOnly) = node :=
    List.filter_eq_self.mpr fun e he => by simpa using h.keywords e he
  simp only [convertMembers, hkept, hvalue, Prod.mk.eta, List.map_id']

end Clean

/-- What stands inside converted members is converted. -/
theorem exists_inside_of_convertMembers {f : Json → Json} {node : Members} {schema : Json}
    (h : Inside (.obj (convertMembers f node)) schema) :
    ∃ schema', Inside (.obj node) schema' ∧ schema = f schema' := by
  cases h with
  | @property _ props name _ hprops hschema =>
      obtain ⟨-, v, hv, hvalue⟩ := mem_convertMembers.mp hprops
      rw [convertValue, if_pos rfl] at hvalue
      cases v with
      | obj props' =>
          cases hvalue
          obtain ⟨e, he, heq⟩ := List.mem_map.mp hschema
          cases heq
          exact ⟨e.2, .property hv he, rfl⟩
      | null | bool _ | num _ | str _ | arr _ => cases hvalue
  | @keyword _ key _ hkey hschema =>
      obtain ⟨-, v, hv, hvalue⟩ := mem_convertMembers.mp hschema
      have hne : key ≠ "properties" := by
        rintro rfl
        exact absurd hkey (by decide)
      rw [convertValue, if_neg hne, if_pos hkey] at hvalue
      exact ⟨v, .keyword hkey hv, hvalue⟩
  | @part _ parts _ hparts hschema =>
      obtain ⟨-, v, hv, hvalue⟩ := mem_convertMembers.mp hparts
      rw [convertValue, if_neg (by decide), if_neg (by decide), if_pos rfl] at hvalue
      cases v with
      | arr parts' =>
          cases hvalue
          obtain ⟨x, hx, rfl⟩ := List.mem_map.mp hschema
          exact ⟨x, .part hv hx, rfl⟩
      | null | bool _ | num _ | str _ | obj _ => cases hvalue

/-- An object without a reference and a choice has clean converted members. -/
theorem clean_convertMembers (f : Json → Json) {node : Members} (href : reference? node = none)
    (hchoice : choice? node = none) : Clean (convertMembers f node) where
  reference reference h := by
    rw [lookup_convertMembers f node (by decide) fun v => rfl] at h
    rw [reference?, h] at href
    cases href
  keywords e he := (mem_convertMembers.mp he).1
  choices key hkey branch rest h := by
    obtain ⟨hone, hany⟩ := Option.or_eq_none_iff.mp hchoice
    rcases List.mem_pair.mp hkey with rfl | rfl
    · rw [lookup_convertMembers f node (by decide) fun v => rfl] at h
      rw [firstUnder, h] at hone
      cases hone
    · rw [lookup_convertMembers f node (by decide) fun v => rfl] at h
      rw [firstUnder, h] at hany
      cases hany

/-- A description is no place of a schema. -/
theorem Normal.describe {description : Option Json} {schema : Json} (h : Normal schema) :
    Normal (describe description schema) := by
  unfold Schema.describe
  split
  · next d ms =>
      split
      · exact h
      obtain ⟨hclean, hinside⟩ := normal_obj_iff.mp h
      have hlookup {key : String} (hkey : key ≠ "description") :
          List.lookup key (ms ++ [("description", d)]) = ms.lookup key := by
        rw [List.lookup_append, Table.lookup_cons, if_neg hkey, List.lookup_nil, Option.or_none]
      have hmem {key : String} {v : Json} (hkey : key ≠ "description")
          (hv : (key, v) ∈ ms ++ [("description", d)]) : (key, v) ∈ ms := by
        rcases List.mem_append.mp hv with hv | hv
        · exact hv
        · exact absurd (congrArg Prod.fst (List.mem_singleton.mp hv)) hkey
      refine normal_obj_iff.mpr ⟨⟨fun reference => ?_, fun e he => ?_, fun key hkey => ?_⟩, ?_⟩
      · rw [hlookup (by decide)]
        exact hclean.reference reference
      · rcases List.mem_append.mp he with he | he
        · exact hclean.keywords e he
        · obtain rfl := List.mem_singleton.mp he
          exact (by decide : "description" ∉ documentOnly)
      · rw [hlookup (by rintro rfl; exact absurd hkey (by decide))]
        exact hclean.choices key hkey
      · intro schema hschema
        cases hschema with
        | property hprops hschema => exact hinside _ (.property (hmem (by decide) hprops) hschema)
        | keyword hkey hschema =>
            exact hinside _ (.keyword hkey (hmem (by rintro rfl; exact absurd hkey (by decide)) hschema))
        | part hparts hschema => exact hinside _ (.part (hmem (by decide) hparts) hschema)
  · exact h

/-- The branch of a choice is smaller than the choice. -/
theorem sizeOf_choice_lt {node : Members} {branch : Json} (h : choice? node = some branch) :
    sizeOf branch < sizeOf (Json.obj node) := by
  have hfirst {key : String} (h : firstUnder node key = some branch) :
      sizeOf branch < sizeOf (Json.obj node) := by
    obtain ⟨items, hitems, hhead⟩ := Option.bind_eq_some_iff.mp h
    exact sizeOf_lt_of_lookup_items hitems (List.mem_of_mem_head? hhead)
  rcases Option.or_eq_some_iff.mp h with hone | ⟨-, hany⟩
  · exact hfirst hone
  · exact hfirst hany

/-- Inlining gives normal forms when what stands for references is one. -/
theorem normal_inlineWith {resolve : String → Json} (hresolve : ∀ key, Normal (resolve key))
    (schema : Json) : Normal (inlineWith resolve schema) := by
  induction hsize : sizeOf schema using Nat.strong_induction_on generalizing schema with
  | _ n ih =>
      subst hsize
      cases schema with
      | null | bool _ | num _ | str _ | arr _ => exact normal_of_ne_obj fun node h => by cases h
      | obj node =>
          rw [inlineWith_obj]
          split
          · exact hresolve _
          · next branch _ hbranch => exact (ih _ (sizeOf_choice_lt hbranch) branch rfl).describe
          · next href hchoice =>
              refine normal_obj_iff.mpr ⟨clean_convertMembers _ href hchoice, fun schema' hinside => ?_⟩
              obtain ⟨schema, hschema, rfl⟩ := exists_inside_of_convertMembers hinside
              exact ih _ hschema.sizeOf_lt schema rfl

/-- Inlining does not change a normal form, whatever stands for references. -/
theorem Normal.inlineWith_eq {schema : Json} (h : Normal schema) (resolve : String → Json) :
    inlineWith resolve schema = schema := by
  induction hsize : sizeOf schema using Nat.strong_induction_on generalizing schema with
  | _ n ih =>
      subst hsize
      cases schema with
      | null | bool _ | num _ | str _ | arr _ => rfl
      | obj node =>
          obtain ⟨hclean, hinside⟩ := normal_obj_iff.mp h
          have hsame {schema : Json} (hschema : Inside (.obj node) schema) :
              inlineWith resolve schema = schema :=
            ih _ hschema.sizeOf_lt (hinside schema hschema) rfl
          rw [inlineWith_obj, hclean.reference?_eq, hclean.choice?_eq]
          exact congrArg Json.obj ((convertMembers_congr fun schema => hsame).trans hclean.convertMembers_id)

/-! ## Conversions without a bound -/

/-- The components that are not being replaced. -/
def unvisited (components : Members) (pending : List String) : List String :=
  (components.map Prod.fst).filter (· ∉ pending)

/-- Replacing a component uses one up. -/
theorem length_unvisited_lt {components : Members} {pending : List String} {key : String}
    {target : Json} (htarget : components.lookup key = some target) (hnew : key ∉ pending) :
    (unvisited components (key :: pending)).length < (unvisited components pending).length :=
  length_filter_notMem_lt (List.mem_map_of_mem (Table.mem_of_lookup htarget)) hnew

/-- A conversion: the components that are being replaced, and the schema. -/
abbrev Conversion := List String × Json

/-- A conversion needs another one: that of the component that a reference leads to, of the branch of a
choice, or of a schema inside the one that it converts. -/
inductive Opens (components : Members) : Conversion → Conversion → Prop
  | follow {pending : List String} {node : Members} {reference : String} {target : Json}
      (href : reference? node = some reference)
      (htarget : components.lookup (segment reference) = some target)
      (hnew : segment reference ∉ pending) :
      Opens components (pending, .obj node) (segment reference :: pending, target)
  | branch {pending : List String} {node : Members} {branch : Json}
      (href : reference? node = none) (hchoice : choice? node = some branch) :
      Opens components (pending, .obj node) (pending, branch)
  | inside {pending : List String} {node : Members} {schema : Json}
      (href : reference? node = none) (hchoice : choice? node = none)
      (hinside : Inside (.obj node) schema) : Opens components (pending, .obj node) (pending, schema)

/-- No chain of conversions is endless: each one leaves fewer components unvisited, or as many and
converts a smaller schema. -/
theorem wellFounded_opens (components : Members) :
    WellFounded fun c' c : Conversion => Opens components c c' := by
  let measure (c : Conversion) : ℕ × ℕ := ((unvisited components c.1).length, sizeOf c.2)
  have hwf : WellFounded (InvImage (Prod.Lex (· < ·) (· < ·)) measure) :=
    InvImage.wf measure (WellFounded.prod_lex wellFounded_lt wellFounded_lt)
  refine Subrelation.wf (fun {c' c} h => ?_) hwf
  cases h with
  | follow _ htarget hnew => exact .left _ _ (length_unvisited_lt htarget hnew)
  | branch _ hchoice => exact .right _ (sizeOf_choice_lt hchoice)
  | inside _ _ hinside => exact .right _ hinside.sizeOf_lt

/-- One step of a conversion, where `convert` makes the conversions that it needs. -/
def convertStep (components : Members) (convert : Conversion → Json) : Conversion → Json
  | (pending, .obj node) =>
    match reference? node, choice? node with
    | some reference, _ =>
      match components.lookup (segment reference) with
      | some target =>
        if segment reference ∈ pending then untyped
        else convert (segment reference :: pending, target)
      | none => untyped
    | none, some branch => describe (node.lookup "description") (convert (pending, branch))
    | none, none => .obj (convertMembers (fun schema => convert (pending, schema)) node)
  | (_, schema) => schema

/-- One step makes no conversions but those that it needs. -/
theorem convertStep_congr {components : Members} {convert convert' : Conversion → Json}
    {c : Conversion} (h : ∀ c', Opens components c c' → convert c' = convert' c') :
    convertStep components convert c = convertStep components convert' c := by
  obtain ⟨pending, schema⟩ := c
  cases schema with
  | null | bool _ | num _ | str _ | arr _ => rfl
  | obj node =>
      simp only [convertStep]
      split
      · next href =>
          split
          · next target htarget =>
              split
              · rfl
              · next hnew => exact h _ (.follow href htarget hnew)
          · rfl
      · next href hchoice => rw [h _ (.branch href hchoice)]
      · next href hchoice =>
          exact congrArg Json.obj (convertMembers_congr fun schema hinside =>
            h _ (.inside href hchoice hinside))

/-- Where every component is being replaced, nothing but untyped objects stand in for references. -/
theorem resolve_of_visited {components : Members} {pending : List String}
    (h : unvisited components pending = []) (steps : ℕ) (key : String) :
    resolve components steps pending key = untyped := by
  cases steps with
  | zero => rfl
  | succ steps =>
      rw [resolve]
      split
      · next target htarget =>
          split
          · rfl
          · next hnew =>
              have hlt := length_unvisited_lt htarget (by simpa using hnew)
              rw [h] at hlt
              exact absurd hlt (Nat.not_lt_zero _)
      · rfl

/-- What stands in for a reference does not depend on the steps, when there is one for every component
that is not being replaced. -/
theorem resolve_eq {components : Members} {pending : List String} {steps steps' : ℕ}
    (h : (unvisited components pending).length ≤ steps)
    (h' : (unvisited components pending).length ≤ steps') (key : String) :
    resolve components steps pending key = resolve components steps' pending key := by
  induction steps generalizing pending steps' key with
  | zero =>
      have hnil := List.length_eq_zero_iff.mp (Nat.le_zero.mp h)
      rw [resolve_of_visited hnil, resolve_of_visited hnil]
  | succ steps ih =>
      cases steps' with
      | zero =>
          have hnil := List.length_eq_zero_iff.mp (Nat.le_zero.mp h')
          rw [resolve_of_visited hnil, resolve_of_visited hnil]
      | succ steps' =>
          rw [resolve, resolve]
          split
          · next target htarget =>
              split
              · rfl
              · next hnew =>
                  have hlt := length_unvisited_lt htarget (by simpa using hnew)
                  exact congrArg (inlineWith · target) (funext fun key' =>
                    ih (by omega) (by omega) key')
          · rfl

/-- What a conversion gives: a step for every component that is not being replaced is enough. -/
def converted (components : Members) (c : Conversion) : Json :=
  inlineWith (resolve components (unvisited components c.1).length c.1) c.2

theorem converted_eq (components : Members) (c : Conversion) :
    converted components c = convertStep components (converted components) c := by
  obtain ⟨pending, schema⟩ := c
  cases schema with
  | null | bool _ | num _ | str _ | arr _ => rfl
  | obj node =>
      simp only [converted, convertStep, inlineWith_obj]
      split
      · next reference href =>
          have hsteps := resolve_eq (Nat.le_refl (unvisited components pending).length)
            (Nat.le_succ _) (segment reference)
          rw [hsteps, resolve]
          cases htarget : components.lookup (segment reference) with
          | none => rfl
          | some target =>
              by_cases hnew : segment reference ∈ pending
              · simp [hnew]
              · have hlt := length_unvisited_lt htarget hnew
                simp only [List.contains_iff_mem, hnew, if_false]
                exact congrArg (inlineWith · target) (funext fun key' =>
                  resolve_eq (by omega) (Nat.le_refl _) key')
      · rfl
      · rfl

theorem inline_eq_converted (components : Members) (schema : Json) :
    inline components schema = converted components ([], schema) := by
  have hle : (unvisited components []).length ≤ components.length :=
    (List.length_filter_le _ _).trans (List.length_map _).le
  exact congrArg (inlineWith · schema) (funext fun key => resolve_eq hle (Nat.le_refl _) key)

theorem normal_resolve (components : Members) (steps : ℕ) (pending : List String) (key : String) :
    Normal (resolve components steps pending key) := by
  induction steps generalizing pending key with
  | zero => exact normal_untyped
  | succ steps ih =>
      rw [resolve]
      split
      · split
        · exact normal_untyped
        · exact normal_inlineWith (fun key' => ih _ key') _
      · exact normal_untyped

/-- Inlining is the recursion by `convertStep`, which makes no conversions but those that it needs, and no
chain of these is endless. The schema that it gives is in normal form: at every place of a schema an
object has no reference, no choice and no keyword of interface documents. So with any components
inlining gives that schema again. -/
theorem inline_normal (components : Members) :
    (WellFounded fun c' c : Conversion => Opens components c c') ∧
    (∀ convert convert' c, (∀ c', Opens components c c' → convert c' = convert' c') →
      convertStep components convert c = convertStep components convert' c) ∧
    (∀ c, converted components c = convertStep components (converted components) c) ∧
    ∀ schema, inline components schema = converted components ([], schema) ∧
      Normal (inline components schema) ∧
      ∀ components', inline components' (inline components schema) = inline components schema := by
  refine ⟨wellFounded_opens components, fun convert convert' c => convertStep_congr,
    converted_eq components, fun schema => ?_⟩
  have hnormal : Normal (inline components schema) :=
    normal_inlineWith (fun key => normal_resolve components _ _ key) schema
  exact ⟨inline_eq_converted components schema, hnormal, fun components' => hnormal.inlineWith_eq _⟩

end AgentCompiler.Schema
