import Mathlib.Data.List.Induction
import AgentCompiler.Model.CatalogFile

/-!
# The order of a file's aliases

The aliases of a file stand in a table, whose entries may be taken in any order. Short names and known
families do not depend on it. An alias does where the file has it twice, in letters of different case:
`extend_anyOrder_iff` says that the catalog is the same in every order exactly when such twins stand for
one family.
-/

namespace AgentCompiler.Model.Catalog

variable {c c' : Catalog} {aliases order : List (String × String)}

/-! ## Catalogs that know the same -/

/-- Two catalogs have the same short names, the same aliases and the same known families. -/
structure SameKnowledge (c c' : Catalog) : Prop where
  tokens : ∀ name, c.tokens.lookup name = c'.tokens.lookup name
  aliases : ∀ name, c.aliases.lookup name = c'.aliases.lookup name
  providers : ∀ family, family ∈ c.providers ↔ family ∈ c'.providers

namespace SameKnowledge

theorem provider?_eq (h : SameKnowledge c c') (name : String) :
    c.provider? name = c'.provider? name := by
  have hknown (family : String) : c.providers.contains family = c'.providers.contains family := by
    rw [Bool.eq_iff_iff, List.contains_iff_mem, List.contains_iff_mem]
    exact h.providers family
  unfold provider?
  simp only [h.aliases, hknown]

/-- Catalogs that know the same resolve every model alike. -/
theorem resolve_eq (h : SameKnowledge c c') (modelId : String) (provider : Option String) :
    c.resolve modelId provider = c'.resolve modelId provider := by
  have hprovider : c.provider? = c'.provider? := funext h.provider?_eq
  unfold resolve named? providerOfId?
  rw [h.tokens, hprovider]

end SameKnowledge

/-! ## Adding aliases -/

/-- Adding aliases leaves the short names alone. -/
theorem tokens_addAliases (c : Catalog) (aliases : List (String × String)) :
    (aliases.foldl addAlias c).tokens = c.tokens := by
  induction aliases generalizing c with
  | nil => rfl
  | cons a aliases ih => rw [List.foldl_cons, ih, addAlias]

theorem mem_providers_addAlias (c : Catalog) (a : String × String) (family : String) :
    family ∈ (c.addAlias a).providers ↔ family ∈ c.providers ∨ lower a.2 = family := by
  unfold addAlias
  dsimp only
  split
  · next hknown =>
      rw [List.contains_iff_mem] at hknown
      exact ⟨.inl, fun h => h.elim id fun heq => heq ▸ hknown⟩
  · rw [List.mem_append, List.mem_singleton, eq_comm (a := family)]

/-- The families that are known are those from before and those of the aliases. -/
theorem mem_providers_addAliases (c : Catalog) (aliases : List (String × String)) (family : String) :
    family ∈ (aliases.foldl addAlias c).providers ↔
      family ∈ c.providers ∨ ∃ a ∈ aliases, lower a.2 = family := by
  induction aliases generalizing c with
  | nil => simp
  | cons a aliases ih =>
      rw [List.foldl_cons, ih, mem_providers_addAlias, or_assoc]
      simp

/-- The alias that is added last is found. -/
theorem lookup_aliases_concat (c : Catalog) (aliases : List (String × String)) (a : String × String)
    (name : String) :
    ((aliases ++ [a]).foldl addAlias c).aliases.lookup name =
      if name = lower a.1 then some (lower a.2)
      else (aliases.foldl addAlias c).aliases.lookup name := by
  rw [List.foldl_append, List.foldl_cons, List.foldl_nil, addAlias]
  exact Table.lookup_insert _ _ _ _

/-- A name that is no alias of the file is looked up as before. -/
theorem lookup_aliases_of_ne {name : String} (h : ∀ a ∈ aliases, lower a.1 ≠ name) :
    (aliases.foldl addAlias c).aliases.lookup name = c.aliases.lookup name := by
  induction aliases using List.reverseRecOn with
  | nil => rfl
  | append_singleton aliases a ih =>
      rw [lookup_aliases_concat, if_neg (h a (by simp)).symm]
      exact ih fun b hb => h b (List.mem_append_left _ hb)

/-- Aliases that differ in the case of their letters alone stand for one family. -/
def OneFamily (aliases : List (String × String)) : Prop :=
  ∀ a ∈ aliases, ∀ b ∈ aliases, lower a.1 = lower b.1 → lower a.2 = lower b.2

instance (aliases : List (String × String)) : Decidable (OneFamily aliases) :=
  inferInstanceAs (Decidable (∀ a ∈ aliases, ∀ b ∈ aliases, lower a.1 = lower b.1 → lower a.2 = lower b.2))

theorem OneFamily.of_perm (h : OneFamily aliases) (horder : order.Perm aliases) : OneFamily order :=
  fun a ha b hb => h a (horder.subset ha) b (horder.subset hb)

/-- Wherever it stands, an alias is found with its family. -/
theorem OneFamily.lookup_aliases (h : OneFamily aliases) {a : String × String} (ha : a ∈ aliases) :
    (aliases.foldl addAlias c).aliases.lookup (lower a.1) = some (lower a.2) := by
  induction aliases using List.reverseRecOn with
  | nil => cases ha
  | append_singleton aliases b ih =>
      rw [lookup_aliases_concat]
      split
      · next htwin => rw [h a ha b (by simp) htwin]
      · next hapart =>
          have hmem : a ∈ aliases := by
            refine (List.mem_append.mp ha).resolve_right fun hlast => hapart ?_
            rw [List.mem_singleton.mp hlast]
          exact ih (fun a ha b hb => h a (List.mem_append_left _ ha) b (List.mem_append_left _ hb)) hmem

/-- The order of aliases without clashes makes no difference. -/
theorem OneFamily.sameKnowledge (h : OneFamily aliases) (horder : order.Perm aliases) :
    SameKnowledge (order.foldl addAlias c) (aliases.foldl addAlias c) := by
  refine ⟨fun name => ?_, fun name => ?_, fun family => ?_⟩
  · rw [tokens_addAliases, tokens_addAliases]
  · by_cases hname : ∃ a ∈ aliases, lower a.1 = name
    · obtain ⟨a, ha, rfl⟩ := hname
      rw [h.lookup_aliases ha, (h.of_perm horder).lookup_aliases (horder.mem_iff.mpr ha)]
    · have hne : ∀ a ∈ aliases, lower a.1 ≠ name := fun a ha heq => hname ⟨a, ha, heq⟩
      rw [lookup_aliases_of_ne hne, lookup_aliases_of_ne fun a ha => hne a (horder.subset ha)]
  · simp only [mem_providers_addAliases, horder.mem_iff]

/-- An order in which a given alias comes last. -/
theorem perm_erase_concat {a : String × String} (ha : a ∈ aliases) :
    (aliases.erase a ++ [a]).Perm aliases :=
  (List.perm_append_singleton a _).trans (List.perm_cons_erase ha).symm

/-! ## Main result -/

/-- A catalog that is extended by a file is the same in every order in which the aliases of the file are
taken, exactly when aliases that differ in case alone stand for one family; every model is then resolved
alike. -/
theorem extend_anyOrder_iff (c : Catalog) (mappings : List Mapping) (aliases : List (String × String)) :
    ((∀ order order', order.Perm aliases → order'.Perm aliases →
        SameKnowledge (c.extend ⟨mappings, order⟩) (c.extend ⟨mappings, order'⟩)) ↔
      OneFamily aliases) ∧
      (OneFamily aliases → ∀ order order', order.Perm aliases → order'.Perm aliases →
        ∀ modelId provider, (c.extend ⟨mappings, order⟩).resolve modelId provider =
          (c.extend ⟨mappings, order'⟩).resolve modelId provider) := by
  have hsame (h : OneFamily aliases) (order order' : List (String × String))
      (horder : order.Perm aliases) (horder' : order'.Perm aliases) :
      SameKnowledge (c.extend ⟨mappings, order⟩) (c.extend ⟨mappings, order'⟩) :=
    (h.of_perm horder').sameKnowledge (horder.trans horder'.symm)
  refine ⟨⟨fun h a ha b hb htwins => ?_, hsame⟩, fun h order order' horder horder' => ?_⟩
  · -- Of twins the one that is taken last is found.
    have hfound := (h _ _ (perm_erase_concat ha) (perm_erase_concat hb)).aliases (lower a.1)
    unfold extend at hfound
    rw [lookup_aliases_concat, lookup_aliases_concat, if_pos rfl, if_pos htwins] at hfound
    exact Option.some.inj hfound
  · exact (hsame h order order' horder horder').resolve_eq

/-- An alias that a file has twice, for one family both times. -/
def twins : List (String × String) := [("Acme", "Meta"), ("Claude", "anthropic"), ("ACME", "META")]

theorem extend_anyOrder_twins : OneFamily twins ∧
    (builtIn.extend ⟨[], twins⟩).resolve "house" (some "acme") =
      (builtIn.extend ⟨[], twins.reverse⟩).resolve "house" (some "acme") := by
  have hone : OneFamily twins := by decide +kernel
  exact ⟨hone, (extend_anyOrder_iff builtIn [] twins).2 hone _ _ .rfl (List.reverse_perm twins) _ _⟩

/-- An alias that a file has twice, for two families. -/
def namesakes : List (String × String) := [("Acme", "Amazon"), ("ACME", "Meta")]

/-- The keys of the file are distinct, and yet the model of one agent has a family of its own in each of
the two orders. -/
theorem extend_namesakes_not_anyOrder :
    (namesakes.map Prod.fst).Nodup ∧ namesakes.reverse.Perm namesakes ∧
      (builtIn.extend ⟨[], namesakes⟩).resolve "house" (some "acme") = ⟨"house", "meta"⟩ ∧
      (builtIn.extend ⟨[], namesakes.reverse⟩).resolve "house" (some "acme") = ⟨"house", "amazon"⟩ :=
  ⟨by decide, List.reverse_perm namesakes, by decide +kernel, by decide +kernel⟩

end AgentCompiler.Model.Catalog
