import AgentCompiler.Proofs.Name.Identifier
import AgentCompiler.Proofs.Typing.Signature

/-!
# Records of properties

A property has any text for its name. Its field is named by an identifier, which is cleaned when the text
is none, and gets a counter when other fields of the record have it already. Each of these steps keeps
the property under which the field is read and written, as its name or as its alias.
-/

namespace AgentCompiler

/-- What a field is made from. -/
structure Property where
  name : String
  type : TypeExpr
  required : Bool
  description : Option String
deriving DecidableEq

namespace Property

/-- The field of a property. -/
def field (p : Property) : Field := .ofProperty p.name p.type p.required p.description

/-- The property without a description that is empty. -/
def described (p : Property) : Property :=
  { p with description := p.description.filter (!·.isEmpty) }

end Property

namespace Field

/-- The property that a field stands for: what it is read and written under, and all but its name. -/
def property (f : Field) : Property := ⟨f.wireName, f.type, f.required, f.description⟩

theorem property_field (p : Property) : p.field.property = p.described := by
  unfold Property.field ofProperty
  dsimp only
  split
  · rfl
  · rfl

/-- A field that is renamed stands for the same property. -/
theorem property_rename (f : Field) (name : String) : (f.rename name).property = f.property := by
  unfold rename
  split
  · rfl
  · rfl

/-- The name that is made for a property is an identifier. -/
theorem isIdentifier_attributeName (property : String) :
    Name.isIdentifier (attributeName property) := by
  unfold attributeName
  dsimp only
  split
  · assumption
  · have htail : "_".toList = ['_'] := rfl
    refine (Name.isWord_snake property).isIdentifier_append ?_ ?_
    · rw [htail]
      exact List.forall_mem_singleton.mpr rfl
    · rw [htail]
      exact List.mem_singleton_self _

theorem isIdentifier_field (p : Property) : Name.isIdentifier p.field.name := by
  unfold Property.field ofProperty
  dsimp only
  split
  · assumption
  · dsimp only
    exact isIdentifier_attributeName p.name

/-- A field that is renamed has the name that it is given. -/
theorem name_rename (f : Field) (name : String) : (f.rename name).name = name := by
  unfold rename
  split
  · assumption
  · rfl

end Field

namespace Declaration

/-- The fields of a record have the names of the fields that it is made from, with counters. -/
theorem map_name_record (name : String) (description : Option String) (fields : List Field) :
    (record name description fields).fields.map Field.name =
      Name.distinct (fields.map Field.name) := by
  have hnames (names : List String) (hlength : names.length = fields.length) :
      (List.zipWith Field.rename fields names).map Field.name = names := by
    refine List.ext_getElem ?_ fun i hi hi' => ?_
    · simp [hlength]
    · rw [List.getElem_map, List.getElem_zipWith, Field.name_rename]
  refine hnames _ ?_
  rw [Name.length_distinct, List.length_map]

/-- A record of properties has one field for each property, in their order. Read back by what they are
read and written under, the fields are the properties; their names are distinct identifiers. -/
theorem record_properties (name : String) (description : Option String) (ps : List Property) :
    let fields := (record name description (ps.map Property.field)).fields
    fields.map Field.property = ps.map Property.described ∧ (fields.map Field.name).Nodup ∧
      ∀ f ∈ fields, Name.isIdentifier f.name := by
  intro fields
  have hnames : fields.map Field.name = Name.distinct ((ps.map Property.field).map Field.name) :=
    map_name_record name description _
  refine ⟨?_, ?_, fun f hf => ?_⟩
  · calc fields.map Field.property
        = (ps.map Property.field).map Field.property :=
          map_fields_record Field.property_rename name description _
      _ = ps.map Property.described := by
          rw [List.map_map]
          exact List.map_congr_left fun p _ => Field.property_field p
  · rw [hnames]
    exact Name.nodup_distinct _
  · refine Name.isIdentifier_of_mem_distinct (fun n hn => ?_) (hnames ▸ List.mem_map_of_mem hf)
    obtain ⟨g, hg, rfl⟩ := List.mem_map.mp hn
    obtain ⟨p, -, rfl⟩ := List.mem_map.mp hg
    exact Field.isIdentifier_field p

/-- Two properties that are cleaned alike, one that looks like a numbered name, and a reserved word. -/
def clashingProperties : List Property :=
  [⟨"user-id", .text, true, some "Who asks"⟩, ⟨"user id", .integer, false, some ""⟩,
    ⟨"user_id_2", .truth, true, none⟩, ⟨"from", .text, false, none⟩]

theorem record_properties_clashing :
    ∃ f ∈ (record "Query" none (clashingProperties.map Property.field)).fields,
      f.name = "user_id_3" ∧ f.property = ⟨"user id", .integer, false, none⟩ ∧
        Name.isIdentifier f.name := by
  have hmem : (⟨"user_id_3", some "user id", .integer, false, none⟩ : Field) ∈
      (record "Query" none (clashingProperties.map Property.field)).fields := by
    decide +kernel
  exact ⟨_, hmem, rfl, rfl, (record_properties "Query" none clashingProperties).2.2 _ hmem⟩

end Declaration

end AgentCompiler
