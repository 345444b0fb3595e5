import AgentCompiler.Document.Decode
import AgentCompiler.Document.TomlText
import AgentCompiler.Files.Host
import AgentCompiler.Model.Catalog

/-!
# Files that extend the catalog

A file may add short names and aliases to the built-in catalog. A later entry replaces an earlier one of
the same name.
-/

namespace AgentCompiler.Model

/-- A short name of a file, with further names for the same. -/
structure Mapping where
  token : String
  entry : Entry := {}
  aliases : List String := []

/-- The contents of a file. -/
structure Extension where
  mappings : List Mapping := []
  providerAliases : List (String × String) := []

open Document Document.Decode in
/-- A short name. -/
def mapping : Decoder Mapping :=
  record "mapping"
    [required "token" text fun s v => { s with token := v },
      defaulted "to_model" (optional text) fun s v => { s with entry.model := v },
      defaulted "to_provider" (optional text) fun s v => { s with entry.provider := v.map lower },
      defaulted "aliases" (optional (list text)) fun s v => { s with aliases := v.getD [] }]
    { token := "" }

open Document Document.Decode in
/-- The contents of a file. -/
def extension : Decoder Extension :=
  record "mappings"
    [defaulted "mappings" (list mapping) fun s v => { s with mappings := v },
      defaulted "provider_aliases" (optional textMap) fun s v =>
        { s with providerAliases := v.getD [] }]
    {}

namespace Catalog

/-- Adds a short name with its further names. -/
def addMapping (c : Catalog) (m : Mapping) : Catalog :=
  { c with
    tokens := (m.token :: m.aliases).foldl (fun t name => Table.insert (lower name) m.entry t) c.tokens }

/-- Adds an alias of a family, which is known from then on. -/
def addAlias (c : Catalog) (entry : String × String) : Catalog :=
  let family := lower entry.2
  { c with
    aliases := Table.insert (lower entry.1) family c.aliases
    providers := if c.providers.contains family then c.providers else c.providers ++ [family] }

/-- The catalog with what a file adds. -/
def extend (c : Catalog) (e : Extension) : Catalog :=
  e.providerAliases.foldl addAlias (e.mappings.foldl addMapping c)

/-- The built-in catalog with what a text adds. -/
def ofText? (text : String) : Option Catalog := do
  let n ← Document.TomlText.read? text
  let e ← (extension .table Document.maxDepth n).toOption
  pure (builtIn.extend e)

end Catalog

/-- Why a file does not extend the catalog. -/
inductive CatalogFault
  | unreadable (path : String)
  | malformed (path : String)
deriving DecidableEq

/-- The wording of a fault. -/
def CatalogFault.message : CatalogFault → String
  | unreadable path => "reading model map " ++ path
  | malformed path => "parsing model map " ++ path

/-- The built-in catalog with what a file adds. -/
def Catalog.ofFile (path : String) (text : Except Files.ReadFault String) :
    Except CatalogFault Catalog := do
  let text ← text.mapError fun _ => .unreadable path
  match ofText? text with
  | some c => .ok c
  | none => .error (.malformed path)

end AgentCompiler.Model
