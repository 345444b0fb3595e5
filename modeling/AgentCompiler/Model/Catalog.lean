import AgentCompiler.Table
import AgentCompiler.Text.Blank

/-!
# The model catalog

The catalog knows models by short names and families of models by their aliases. Short names and aliases
are looked up in lower case.
-/

namespace AgentCompiler.Model

/-- ASCII letters in lower case. -/
def lower (s : String) : String := .ofList (s.toList.map Char.toLower)

/-- What a short name stands for. -/
structure Entry where
  /-- The model, when the name is not a model itself. -/
  model : Option String := none
  /-- The family of the model. -/
  provider : Option String := none
deriving DecidableEq

/-- The catalog. -/
structure Catalog where
  /-- Short names of models. -/
  tokens : Table Entry := []
  /-- Aliases of families. -/
  aliases : Table String := []
  /-- The families that a model's id may name. -/
  providers : List String := []

/-- A model together with its family. -/
structure Resolved where
  modelId : String
  provider : String
deriving DecidableEq

/-- Whether the models of a family take a number of candidates and stop sequences. -/
def Resolved.samplingExtras (r : Resolved) : Bool :=
  r.provider == "anthropic" || r.provider == "amazon"

namespace Catalog

/-- The short names that are built in. -/
def builtInTokens : Table Entry :=
  [("claude 3 haiku", ⟨"anthropic.claude-3-haiku-20240307-v1:0", "anthropic"⟩),
    ("claude 3 sonnet", ⟨"anthropic.claude-3-sonnet-20240229-v1:0", "anthropic"⟩),
    ("claude 3.5 sonnet", ⟨"anthropic.claude-3-5-sonnet-20240620-v1:0", "anthropic"⟩),
    ("claude 3.5 haiku", ⟨"anthropic.claude-3-5-haiku-20241022-v1:0", "anthropic"⟩),
    ("nova pro", ⟨"amazon.nova-pro-v1:0", "amazon"⟩),
    ("nova lite", ⟨"amazon.nova-lite-v1:0", "amazon"⟩),
    ("nova micro", ⟨"amazon.nova-micro-v1:0", "amazon"⟩)]

/-- The aliases that are built in. -/
def builtInAliases : Table String :=
  [("anthropic", "anthropic"), ("claude", "anthropic"), ("amazon", "amazon"), ("nova", "amazon"),
    ("titan", "amazon"), ("meta", "meta"), ("llama", "meta"), ("mistral", "mistral"),
    ("mistralai", "mistral"), ("cohere", "cohere"), ("ai21", "ai21"), ("deepseek", "deepseek")]

/-- The families that are built in. -/
def builtInProviders : List String :=
  ["anthropic", "amazon", "meta", "mistral", "cohere", "ai21", "deepseek", "writer"]

/-- The built-in catalog. -/
def builtIn : Catalog := ⟨builtInTokens, builtInAliases, builtInProviders⟩

/-- The family of a name: by its alias, or else the name itself when it is a known family. -/
def provider? (c : Catalog) (name : String) : Option String :=
  let key := lower (Text.trim name)
  if key.isEmpty then none
  else (c.aliases.lookup key) <|> (if c.providers.contains key then some key else none)

/-- What may stand before the family in the id of a model. -/
def regionPrefixes : List String := ["us", "eu", "apac", "global"]

/-- The family that the id of a model names: the first part between points, after the last slash, that
is no region. -/
def providerOfId? (c : Catalog) (modelId : String) : Option String :=
  let tail := ((modelId.toList.splitOn '/').getLast?).getD []
  let parts := (tail.splitOn '.').map String.ofList
  (parts.find? fun p => !regionPrefixes.contains p).bind c.provider?

/-- The family of a model that nothing else tells. -/
def fallbackProvider : String := "anthropic"

/-- The family that a definition names itself; a blank name is none. -/
def named? (c : Catalog) (name : String) : Option String :=
  (c.provider? name <|> some (lower (Text.trim name))).filter fun p => !p.isEmpty

/-- The model of a definition. The family that the definition names wins over the one of the short name,
and that one over what the id tells. -/
def resolve (c : Catalog) (modelId : String) (provider : Option String) : Resolved :=
  let entry := c.tokens.lookup (lower modelId)
  let id := (entry.bind (·.model)).getD modelId
  let found := provider.bind c.named? <|> entry.bind (·.provider) <|> c.providerOfId? id
  ⟨id, found.getD fallbackProvider⟩

end Catalog

end AgentCompiler.Model
