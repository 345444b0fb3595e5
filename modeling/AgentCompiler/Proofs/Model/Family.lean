import Mathlib.Algebra.Order.BigOperators.Group.List
import Mathlib.Algebra.Order.Group.Nat
import Mathlib.Data.Option.Basic
import AgentCompiler.Model.CatalogFile
import AgentCompiler.Proofs.Name.Identifier
import AgentCompiler.Proofs.Name.Joined
import AgentCompiler.Proofs.Text.Tidy

/-!
# Families by their own names

The family of a resolved model should be known by its own name: it is not empty, and no other family is
found under it. What a definition names goes through the aliases of the catalog, but what a short name
or an alias stands for is taken as it was written, and so is the family that is used when nothing else
tells one. `resolve_settled_iff` says which entries of an extended catalog lead to another name.
-/

namespace AgentCompiler

/-! ## Names as they are looked up -/

/-- What holds of the characters without a lower case of their own, and of the capitals, holds of all. -/
theorem Name.of_toLower {p : Char → Prop} (hsame : ∀ c, c.toLower = c → p c)
    (hcapital : ∀ n < 128, (Char.ofNat n).isAlphanum → p (Char.ofNat n)) (c : Char) : p c := by
  by_cases hc : c.isUpper
  · exact of_isAlphanum hcapital (isAlphanum_of_isAlpha (isAlpha_of_isUpper hc))
  · refine hsame c ?_
    unfold Char.toLower
    exact dif_neg fun hrange => hc (decide_eq_true hrange)

theorem Text.isBlank_toLower : ∀ c : Char, isBlank c.toLower = isBlank c :=
  Name.of_toLower (fun c h => by rw [h]) (by decide)

theorem Model.toLower_toLower : ∀ c : Char, c.toLower.toLower = c.toLower :=
  Name.of_toLower (fun _ h => congrArg Char.toLower h) (by decide)

theorem Text.dropBlanksEnd_map_toLower (s : List Char) :
    dropBlanksEnd (s.map Char.toLower) = (dropBlanksEnd s).map Char.toLower := by
  have hblank : isBlank ∘ Char.toLower = isBlank := funext isBlank_toLower
  rw [dropBlanksEnd, dropBlanksEnd, ← List.map_reverse, List.dropWhile_map, hblank, List.map_reverse]

theorem Text.trim_trim (s : String) : trim (trim s) = trim s := by
  rcases trim_cases s with hnil | ⟨hstart, hend⟩
  · have hempty : trim s = "" := String.toList_inj.mp hnil
    rw [hempty]
    rfl
  · have htrim := trim_ofList (t := []) hstart hend (List.forall_mem_nil _)
    rwa [List.append_nil, String.ofList_toList] at htrim

namespace Model

theorem lower_lower (s : String) : lower (lower s) = lower s := by
  rw [lower, lower, String.toList_ofList, List.map_map]
  exact congrArg String.ofList (List.map_congr_left fun c _ => toLower_toLower c)

theorem trim_lower (s : String) : Text.trim (lower s) = lower (Text.trim s) := by
  have hblank : Text.isBlank ∘ Char.toLower = Text.isBlank := funext Text.isBlank_toLower
  simp only [Text.trim, Text.trimEnd, Text.trimStart, lower, String.toList_ofList, List.dropWhile_map,
    hblank, Text.dropBlanksEnd_map_toLower]

namespace Catalog

variable {c : Catalog} {name family key modelId : String}

/-- A name as it is looked up: not empty, in lower case and without blanks at its ends. -/
structure IsKey (key : String) : Prop where
  ne_empty : key ≠ ""
  lowered : lower key = key
  trimmed : Text.trim key = key

instance (key : String) : Decidable (IsKey key) :=
  decidable_of_iff (key ≠ "" ∧ lower key = key ∧ Text.trim key = key)
    ⟨fun h => ⟨h.1, h.2.1, h.2.2⟩, fun h => ⟨h.ne_empty, h.lowered, h.trimmed⟩⟩

theorem isKey_lower_trim (h : lower (Text.trim name) ≠ "") : IsKey (lower (Text.trim name)) :=
  ⟨h, lower_lower _, by rw [trim_lower, Text.trim_trim]⟩

/-- A name is looked up as its key. -/
theorem provider?_lower_trim (c : Catalog) (name : String) :
    c.provider? (lower (Text.trim name)) = c.provider? name := by
  unfold provider?
  rw [trim_lower, Text.trim_trim, lower_lower]

/-- What a key is an alias of comes first, and then the family of that name. -/
theorem provider?_of_isKey (h : IsKey key) : c.provider? key =
    (c.aliases.lookup key).or (if c.providers.contains key then some key else none) := by
  have hempty : key.isEmpty = false := by simpa using h.ne_empty
  unfold provider?
  rw [h.trimmed, h.lowered]
  simp [hempty]

/-- A family is settled when it is not empty, and nothing else is found under its name. -/
structure Settled (c : Catalog) (family : String) : Prop where
  ne_empty : family ≠ ""
  eq_of_provider? : ∀ found, c.provider? family = some found → found = family

instance (c : Catalog) (family : String) : Decidable (c.Settled family) :=
  decidable_of_iff (family ≠ "" ∧ ∀ found ∈ c.provider? family, found = family)
    ⟨fun h => ⟨h.1, h.2⟩, fun h => ⟨h.ne_empty, h.eq_of_provider?⟩⟩

/-- What is found under a name stands for it in the table of aliases, or is settled. -/
theorem provider?_cases (h : c.provider? name = some family) :
    IsKey (lower (Text.trim name)) ∧
      ((lower (Text.trim name), family) ∈ c.aliases ∨ c.Settled family) := by
  have hkey : IsKey (lower (Text.trim name)) := by
    refine isKey_lower_trim fun hempty => ?_
    unfold provider? at h
    simp [hempty] at h
  refine ⟨hkey, ?_⟩
  rw [← provider?_lower_trim, provider?_of_isKey hkey, Option.or_eq_some_iff] at h
  rcases h with halias | ⟨hnone, hknown⟩
  · exact .inl (Table.mem_of_lookup halias)
  · split at hknown
    · next hmem =>
        obtain rfl := Option.some.inj hknown
        refine .inr ⟨hkey.ne_empty, fun found hfound => ?_⟩
        rw [provider?_of_isKey hkey, hnone, Option.none_or, if_pos hmem] at hfound
        exact (Option.some.inj hfound).symm
    · cases hknown

/-! ## Where a family comes from -/

/-- A name with a point or a slash in it is no part of the id of a model. -/
def Divided (name : String) : Prop := '.' ∈ name.toList ∨ '/' ∈ name.toList

instance (name : String) : Decidable (Divided name) :=
  inferInstanceAs (Decidable ('.' ∈ name.toList ∨ '/' ∈ name.toList))

theorem of_divided_lower_trim (h : Divided (lower (Text.trim name))) : Divided name := by
  have hmem {d : Char} (hd : ∀ c : Char, c.toLower = d → c = d)
      (h : d ∈ (lower (Text.trim name)).toList) : d ∈ name.toList := by
    rw [lower, String.toList_ofList] at h
    obtain ⟨c, hc, hlower⟩ := List.mem_map.mp h
    rw [hd c hlower] at hc
    simp only [Text.trim, Text.trimEnd, Text.trimStart, String.toList_ofList, Text.dropBlanksEnd,
      List.mem_reverse] at hc
    have hstart := (List.dropWhile_sublist _).subset hc
    exact (List.dropWhile_sublist _).subset (List.mem_reverse.mp hstart)
  have hpoint : ∀ c : Char, c.toLower = '.' → c = '.' :=
    Name.of_toLower (fun c h heq => h.symm.trans heq) (by decide)
  have hslash : ∀ c : Char, c.toLower = '/' → c = '/' :=
    Name.of_toLower (fun c h heq => h.symm.trans heq) (by decide)
  exact h.imp (hmem hpoint) (hmem hslash)

/-- What the id of a model tells is found under a part of it. -/
theorem exists_of_providerOfId? (h : c.providerOfId? modelId = some family) :
    ∃ part, ¬Divided part ∧ c.provider? part = some family := by
  unfold providerOfId? at h
  obtain ⟨part, hfind, hfound⟩ := Option.bind_eq_some_iff.mp h
  refine ⟨part, ?_, hfound⟩
  obtain ⟨piece, hpiece, rfl⟩ := List.mem_map.mp (List.mem_of_find?_eq_some hfind)
  have htail : '/' ∉ ((modelId.toList.splitOn '/').getLast?).getD [] := by
    cases hlast : (modelId.toList.splitOn '/').getLast? with
    | none => exact List.not_mem_nil
    | some tail =>
        intro hmem
        have hfree := Text.eq_false_of_mem_splitOnP (List.mem_of_getLast? hlast) '/' hmem
        exact absurd hfree (by decide)
  rw [Divided, String.toList_ofList]
  rintro (hpoint | hslash)
  · exact absurd (Text.eq_false_of_mem_splitOnP hpiece '.' hpoint) (by decide)
  · exact htail (Text.mem_of_mem_splitOnP hpiece '/' hslash)

/-- The first part of an id tells the family, when it is no region. -/
theorem providerOfId?_of_part {rest : List Char} (hpart : ¬Divided name)
    (hregion : name ∉ regionPrefixes) (hrest : '/' ∉ rest) :
    c.providerOfId? (.ofList (name.toList ++ '.' :: rest)) = c.provider? name := by
  rw [Divided, not_or] at hpart
  have htail : '/' ∉ name.toList ++ '.' :: rest := by simp [hpart.2, hrest]
  unfold providerOfId?
  rw [String.toList_ofList, List.splitOn_eq_singleton htail, List.getLast?_singleton, Option.getD_some]
  dsimp only
  rw [List.splitOn_append_cons_self, List.splitOn_eq_singleton hpart.1]
  simp [hregion]

/-- What a definition names is not empty, and stands for its key in the table of aliases or is
settled. -/
theorem named?_cases (h : c.named? name = some family) :
    family ≠ "" ∧ ((∃ a ∈ c.aliases, IsKey a.1 ∧ a.2 = family) ∨ c.Settled family) := by
  obtain ⟨hfound, hempty⟩ := Option.filter_eq_some_iff.mp h
  have hne : family ≠ "" := by simpa using hempty
  refine ⟨hne, ?_⟩
  rcases (Option.orElse_eq_some _ _ _).mp hfound with hfound | ⟨hnone, hown⟩
  · obtain ⟨hkey, halias | hsettled⟩ := provider?_cases hfound
    · exact .inl ⟨_, halias, hkey, rfl⟩
    · exact .inr hsettled
  · obtain rfl := Option.some.inj hown
    refine .inr ⟨hne, fun found hfound => ?_⟩
    rw [provider?_lower_trim, hnone] at hfound
    cases hfound

/-- The families that the tables of a catalog lead to are known by their own names. An alias of nothing
does no harm when it can be no part of an id: a definition that names it names no family. -/
structure Consistent (c : Catalog) : Prop where
  tokens : ∀ e ∈ c.tokens, ∀ family ∈ e.2.provider, c.Settled family
  aliases : ∀ a ∈ c.aliases, IsKey a.1 → c.Settled a.2 ∨ a.2 = "" ∧ Divided a.1
  fallback : c.Settled fallbackProvider

instance (c : Catalog) : Decidable c.Consistent :=
  decidable_of_iff
    ((∀ e ∈ c.tokens, ∀ family ∈ e.2.provider, c.Settled family) ∧
      (∀ a ∈ c.aliases, IsKey a.1 → c.Settled a.2 ∨ a.2 = "" ∧ Divided a.1) ∧
      c.Settled fallbackProvider)
    ⟨fun h => ⟨h.1, h.2.1, h.2.2⟩, fun h => ⟨h.tokens, h.aliases, h.fallback⟩⟩

theorem Consistent.settled_resolve (h : c.Consistent) (modelId : String) (provider : Option String) :
    c.Settled (c.resolve modelId provider).provider := by
  unfold resolve
  dsimp only
  cases hfound : (provider.bind c.named? <|> (c.tokens.lookup (lower modelId)).bind (·.provider) <|>
      c.providerOfId? (((c.tokens.lookup (lower modelId)).bind (·.model)).getD modelId)) with
  | none => exact h.fallback
  | some family =>
      rw [Option.getD_some]
      rcases (Option.orElse_eq_some _ _ _).mp hfound with hnamed | ⟨-, hrest⟩
      · -- The definition names the family.
        obtain ⟨name, -, hname⟩ := Option.bind_eq_some_iff.mp hnamed
        obtain ⟨hne, ⟨a, ha, hkey, rfl⟩ | hsettled⟩ := named?_cases hname
        · exact (h.aliases a ha hkey).resolve_right fun hempty => hne hempty.1
        · exact hsettled
      rcases (Option.orElse_eq_some _ _ _).mp hrest with htoken | ⟨-, hid⟩
      · -- The short name stands for a model of the family.
        obtain ⟨entry, hentry, hprovider⟩ := Option.bind_eq_some_iff.mp htoken
        exact h.tokens _ (Table.mem_of_lookup hentry) family hprovider
      · -- The id tells the family.
        obtain ⟨part, hpart, hfound⟩ := exists_of_providerOfId? hid
        obtain ⟨hkey, halias | hsettled⟩ := provider?_cases hfound
        · exact (h.aliases _ halias hkey).resolve_right fun hempty =>
            hpart (of_divided_lower_trim hempty.2)
        · exact hsettled

/-! ## Tables of an extended catalog -/

/-- The short names and the aliases of a catalog are distinct, and the short names are in lower case. -/
structure Keyed (c : Catalog) : Prop where
  tokens : (c.tokens.map Prod.fst).Nodup
  lowered : ∀ key ∈ c.tokens.map Prod.fst, lower key = key
  aliases : (c.aliases.map Prod.fst).Nodup

theorem nodup_insert {α : Type} {t : Table α} (h : (t.map Prod.fst).Nodup) (key : String) (value : α) :
    ((t.insert key value).map Prod.fst).Nodup := by
  rw [Table.keys_insert]
  split
  · exact h
  · next hnew => exact List.concat_eq_append ▸ h.concat hnew

theorem Keyed.addAlias (h : c.Keyed) (a : String × String) : (c.addAlias a).Keyed :=
  ⟨h.tokens, h.lowered, nodup_insert h.aliases _ _⟩

theorem Keyed.addMapping (h : c.Keyed) (m : Mapping) : (c.addMapping m).Keyed := by
  have hnames (names : List String) (t : Table Entry) (hnodup : (t.map Prod.fst).Nodup)
      (hlowered : ∀ key ∈ t.map Prod.fst, lower key = key) :
      ((names.foldl (fun t name => t.insert (lower name) m.entry) t).map Prod.fst).Nodup ∧
        ∀ key ∈ (names.foldl (fun t name => t.insert (lower name) m.entry) t).map Prod.fst,
          lower key = key := by
    induction names generalizing t with
    | nil => exact ⟨hnodup, hlowered⟩
    | cons name names ih =>
        refine ih _ (nodup_insert hnodup _ _) fun key hkey => ?_
        rw [Table.keys_insert] at hkey
        split at hkey
        · exact hlowered key hkey
        · rcases List.mem_append.mp hkey with hkey | hkey
          · exact hlowered key hkey
          · rw [List.mem_singleton.mp hkey, lower_lower]
  obtain ⟨hnodup, hlowered⟩ := hnames (m.token :: m.aliases) c.tokens h.tokens h.lowered
  exact ⟨hnodup, hlowered, h.aliases⟩

/-- A file keeps the tables of a catalog in order. -/
theorem Keyed.extend (h : c.Keyed) (e : Extension) : (c.extend e).Keyed := by
  have hmappings : (e.mappings.foldl Catalog.addMapping c).Keyed := by
    induction e.mappings generalizing c with
    | nil => exact h
    | cons m mappings ih => exact ih (h.addMapping m)
  unfold Catalog.extend
  revert hmappings
  generalize e.mappings.foldl Catalog.addMapping c = c'
  intro hc'
  induction e.providerAliases generalizing c' with
  | nil => exact hc'
  | cons a aliases ih => exact ih _ (hc'.addAlias a)

theorem keyed_builtIn : builtIn.Keyed := ⟨by decide, by decide +kernel, by decide⟩

/-! ## Models of every family -/

/-- An id that starts with a given part and is no short name. -/
theorem exists_unknown (c : Catalog) (part : List Char) :
    ∃ rest, '/' ∉ rest ∧ c.tokens.lookup (lower (.ofList (part ++ '.' :: rest))) = none := by
  let size := (c.tokens.map fun e => e.1.length).sum
  refine ⟨List.replicate size 'x', by simp, ?_⟩
  rw [← Option.not_isSome_iff_eq_none, Table.lookup_isSome_iff]
  intro hmem
  obtain ⟨e, he, hkey⟩ := List.mem_map.mp hmem
  -- The id is longer than every short name.
  have hle : e.1.length ≤ size := List.le_sum_of_mem (List.mem_map_of_mem he)
  have hlength : size < e.1.length := by
    rw [hkey, ← String.length_toList, lower, String.toList_ofList, String.toList_ofList]
    simp
    omega
  omega

theorem resolve_unknown (h : c.tokens.lookup (lower modelId) = none) :
    (c.resolve modelId none).provider = (c.providerOfId? modelId).getD fallbackProvider := by
  unfold resolve
  rw [h]
  rfl

/-- A model whose id tells nothing has the family that is used then. -/
theorem exists_fallback (c : Catalog) :
    ∃ modelId, (c.resolve modelId none).provider = fallbackProvider := by
  obtain ⟨rest, hrest, hunknown⟩ := exists_unknown c []
  refine ⟨_, (resolve_unknown hunknown).trans ?_⟩
  have hnone : c.provider? "" = none := rfl
  have hpart : c.providerOfId? (.ofList ("".toList ++ '.' :: rest)) = c.provider? "" :=
    providerOfId?_of_part (by decide) (by decide) hrest
  rw [String.toList_empty] at hpart
  rw [hpart, hnone, Option.getD_none]

/-- A key that can be part of an id is the family of a model of it. -/
theorem exists_resolve_of_not_divided (hkey : IsKey name) (hdivided : ¬Divided name)
    (h : c.provider? name = some family) :
    ∃ modelId, (c.resolve modelId none).provider = family := by
  -- With a blank in front the part is no region, and is looked up as before.
  let part : String := .ofList (' ' :: name.toList)
  have htoList : part.toList = ' ' :: name.toList := String.toList_ofList
  have htrim : Text.trim part = name := by
    have hstart : Text.trimStart part = Text.trimStart name := by
      rw [Text.trimStart, Text.trimStart, htoList, List.dropWhile_cons_of_pos rfl]
    rw [Text.trim, hstart]
    exact hkey.trimmed
  have hfound : c.provider? part = some family := by
    rw [← provider?_lower_trim, htrim, hkey.lowered, h]
  have hpart : ¬Divided part := by
    rw [Divided, htoList]
    simpa [Divided] using hdivided
  have hregion : part ∉ regionPrefixes := by
    have hblank : ∀ region ∈ regionPrefixes, region.toList.head? ≠ some ' ' := by decide
    exact fun hmem => hblank part hmem (by rw [htoList]; rfl)
  obtain ⟨rest, hrest, hunknown⟩ := exists_unknown c part.toList
  refine ⟨_, (resolve_unknown hunknown).trans ?_⟩
  rw [providerOfId?_of_part hpart hregion hrest, hfound, Option.getD_some]

theorem Keyed.consistent (hc : c.Keyed)
    (h : ∀ modelId provider, c.Settled (c.resolve modelId provider).provider) : c.Consistent := by
  refine ⟨fun e he family hfamily => ?_, fun a ha hkey => ?_, ?_⟩
  · have hentry : c.tokens.lookup (lower e.1) = some e.2 := by
      rw [hc.lowered e.1 (List.mem_map_of_mem he)]
      exact Table.lookup_of_mem hc.tokens he
    have hresolve : (c.resolve e.1 none).provider = family := by
      unfold resolve
      simp [hentry, Option.mem_def.mp hfamily]
    exact hresolve ▸ h e.1 none
  · have hfound : c.provider? a.1 = some a.2 := by
      rw [provider?_of_isKey hkey, Table.lookup_of_mem hc.aliases ha, Option.some_or]
    by_cases hempty : a.2 = ""
    · refine .inr ⟨hempty, by_contra fun hdivided => ?_⟩
      obtain ⟨modelId, hresolve⟩ := exists_resolve_of_not_divided hkey hdivided hfound
      exact (h modelId none).ne_empty (hresolve.trans hempty)
    · have hnamed : c.named? a.1 = some a.2 := by
        rw [named?, hfound]
        exact Option.filter_eq_some_iff.mpr ⟨rfl, by simpa using hempty⟩
      have hresolve : (c.resolve "" (some a.1)).provider = a.2 := by
        unfold resolve
        rw [Option.bind_some, hnamed]
        rfl
      exact .inl (hresolve ▸ h "" (some a.1))
  · obtain ⟨modelId, hresolve⟩ := exists_fallback c
    exact hresolve ▸ h modelId none

/-! ## Main result -/

/-- Under a catalog that is extended by a file, the family of every model is settled, whatever tells it,
exactly when the tables of the catalog are consistent. -/
theorem resolve_settled_iff (e : Extension) :
    (∀ modelId provider, (builtIn.extend e).Settled
        ((builtIn.extend e).resolve modelId provider).provider) ↔
      (builtIn.extend e).Consistent :=
  ⟨(keyed_builtIn.extend e).consistent, Consistent.settled_resolve⟩

example : builtIn.Consistent := by decide +kernel

/-- A file with a short name for a model of a family, which it calls by an alias. -/
def house : Extension := { mappings := [{ token := "House", entry := { provider := "claude" } }] }

/-- The family of the short name is an alias of another one, and is not replaced by it. -/
theorem resolve_house_not_settled :
    (builtIn.extend house).resolve "House" none = ⟨"House", "claude"⟩ ∧
      (builtIn.extend house).provider? "claude" = some "anthropic" ∧
      ¬(builtIn.extend house).Settled ((builtIn.extend house).resolve "House" none).provider :=
  ⟨by decide +kernel, by decide +kernel, by decide +kernel⟩

end Catalog

end Model

end AgentCompiler
