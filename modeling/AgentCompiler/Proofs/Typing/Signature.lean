import AgentCompiler.Proofs.Name.Distinct
import AgentCompiler.Proofs.Typing.Order

/-!
# What records read and write

The fields of a record are renamed until their names are distinct. What they are read and written under
stays, and so does what is required: this is the signature of the record. A declaration that is found
under a name stays what is found there.
-/

namespace AgentCompiler

namespace Field

/-- What a field is read and written under, and whether it has to be there. -/
def signature (f : Field) : String × Bool := (f.wireName, f.required)

theorem signature_ofProperty (property : String) (type : TypeExpr) (required : Bool)
    (description : Option String) :
    (ofProperty property type required description).signature = (property, required) := by
  unfold ofProperty
  dsimp only
  split
  · rfl
  · rfl

/-- A field that is renamed keeps its signature. -/
theorem signature_rename (f : Field) (name : String) : (f.rename name).signature = f.signature := by
  unfold rename
  split
  · rfl
  · rfl

/-- The fields of properties have the properties for signature. -/
theorem map_signature_zipWith {α : Type} {as : List α} {types : List TypeExpr}
    (h : types.length = as.length) (property : α → String) (required : α → Bool)
    (description : α → Option String) :
    (List.zipWith (fun a type => ofProperty (property a) type (required a) (description a)) as
      types).map signature = as.map fun a => (property a, required a) := by
  refine List.ext_getElem ?_ fun i hi hi' => ?_
  · simp [h]
  · rw [List.getElem_map, List.getElem_map, List.getElem_zipWith, signature_ofProperty]

end Field

namespace Declaration

/-- The signatures of the fields of a record, in order. -/
def signature (d : Declaration) : List (String × Bool) := d.fields.map Field.signature

theorem name_record (name : String) (description : Option String) (fields : List Field) :
    (record name description fields).name = name := rfl

theorem name_union (name : String) (variants : List TypeExpr) : (union name variants).name = name :=
  rfl

/-- What does not depend on the names of fields stays, in order, when they are renamed for a record. -/
theorem map_fields_record {β : Type} {g : Field → β} (hg : ∀ f name, g (f.rename name) = g f)
    (name : String) (description : Option String) (fields : List Field) :
    (record name description fields).fields.map g = fields.map g := by
  have hkept (names : List String) (hlength : names.length = fields.length) :
      (List.zipWith Field.rename fields names).map g = fields.map g := by
    refine List.ext_getElem ?_ fun i hi hi' => ?_
    · simp [hlength]
    · rw [List.getElem_map, List.getElem_map, List.getElem_zipWith, hg]
  refine hkept _ ?_
  rw [Name.length_distinct, List.length_map]

/-- A record has the signature of the fields that it is made from. -/
theorem signature_record (name : String) (description : Option String) (fields : List Field) :
    (record name description fields).signature = fields.map Field.signature :=
  map_fields_record Field.signature_rename name description fields

/-- The field that comes first in a record keeps its name. -/
theorem head?_fields_record (name : String) (description : Option String) (f : Field)
    (fields : List Field) : (record name description (f :: fields)).fields.head? = some f := by
  have hrename : f.rename f.name = f := if_pos rfl
  exact congrArg some hrename

end Declaration

namespace Registry

variable {r r' : Registry} {name : String} {d : Declaration}

/-- A name is declared exactly when a declaration is found under it. -/
theorem contains_iff_find? : r.contains name ↔ ∃ d, r.find? name = some d := by
  rw [← Option.isSome_iff_exists, find?, List.find?_isSome, contains, List.any_eq_true]

/-- What is found under a name stays what is found there. -/
theorem Within.find? (h : r.Within r') (hd : r.find? name = some d) : r'.find? name = some d := by
  obtain ⟨more, hmore⟩ := h
  rw [Registry.find?, ← hmore, List.find?_append]
  rw [Registry.find?] at hd
  rw [hd]
  rfl

/-- A declaration is found under its name when that was not declared before. -/
theorem find?_register (h : r.contains d.name = false) : (r.register d).find? d.name = some d := by
  have hnone : r.declarations.find? (fun e => e.name = d.name) = none := by
    rw [List.find?_eq_none]
    intro e he hname
    rw [contains, List.any_eq_false] at h
    exact h e he hname
  rw [register, if_neg (by rw [h]; exact Bool.false_ne_true), find?, List.find?_append, hnone]
  simp

/-- Under the name of a declaration that is added stands the first declaration of that name. -/
theorem find?_register_eq (r : Registry) (d : Declaration) :
    (r.register d).find? d.name = some ((r.find? d.name).getD d) := by
  cases hfind : r.find? d.name with
  | none =>
      refine find?_register (Bool.eq_false_iff.mpr fun hcontains => ?_)
      obtain ⟨e, he⟩ := contains_iff_find?.mp hcontains
      cases he.symm.trans hfind
  | some e => exact (r.within_register d).find? hfind

end Registry

end AgentCompiler
