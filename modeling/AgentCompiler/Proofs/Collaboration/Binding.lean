import Mathlib.Data.List.Forall2
import Mathlib.Data.List.Nodup
import AgentCompiler.Proofs.Compilation.ModuleName

/-!
# What a caller binds for its collaborators

A module imports the entry points of its collaborators under names of its own, and then defines a tool
for each of them, all in one scope. `nodup_boundNames_iff` says when these names are distinct.
`Apart.reached` and `apart_of_reached` say that each collaborator is reached in its own module exactly
then.
-/

namespace AgentCompiler

namespace Link

/-! ## Names -/

section

variable {l l' : Link}

/-- The functions that are imported from the collaborator's module, each with the caller's name for
it. -/
def imports (l : Link) : List (String × String) :=
  ("invoke_agent", l.invokeAlias) ::
    if l.bindsCoordinator then [("bind_session_coordinator", l.bindAlias)] else []

/-- The import line lists the imported functions. -/
theorem importLine_eq (l : Link) : l.importLine = "from " ++ l.moduleName ++ " import " ++
    String.intercalate ", " (l.imports.map fun (function, name) => function ++ " as " ++ name) := by
  refine String.toList_injective ?_
  unfold importLine imports
  split
  · simp
  · simp

theorem toolName_inj : l.toolName = l'.toolName ↔ l.name = l'.name := by
  simp [toolName]

theorem invokeAlias_inj : l.invokeAlias = l'.invokeAlias ↔ l.name = l'.name := by
  simp [invokeAlias, toolName]

theorem bindAlias_inj : l.bindAlias = l'.bindAlias ↔ l.name = l'.name := by
  simp [bindAlias]

/-- The alias of one collaborator is the tool of another when their names differ by its ending. -/
theorem invokeAlias_eq_toolName :
    l.invokeAlias = l'.toolName ↔ l'.name = l.name ++ "_collaborator" := by
  simp [invokeAlias, toolName, String.append_assoc, eq_comm]

/-- A function that binds a coordinator is not named like one that calls a collaborator. -/
theorem bindAlias_ne_invoke (name : String) : l.bindAlias ≠ "invoke_" ++ name := by
  intro h
  have hchars := congrArg (fun s : String => s.toList.head?) h
  simp [bindAlias] at hchars

/-- What calls a collaborator is not named like what binds one. -/
theorem invokeAlias_ne_bindAlias : l.invokeAlias ≠ l'.bindAlias := by
  intro h
  refine bindAlias_ne_invoke (l.name ++ "_collaborator") (h.symm.trans ?_)
  rw [invokeAlias, toolName, String.append_assoc]

end

/-! ## Bindings -/

/-- What a name of the caller's module stands for. -/
inductive Referent
  /-- A function that is imported from a module. -/
  | imported (moduleName function : String)
  /-- A tool, which calls what a name stands for. -/
  | delegate (callee : String)
deriving DecidableEq

variable {links : List Link} {l : Link}

/-- What the caller's module binds for its collaborators, in the order of its text: the imports stand
before the tools. -/
def bindings (links : List Link) : List (String × Referent) :=
  (links.flatMap fun l => l.imports.map fun (function, name) =>
    (name, .imported l.moduleName function)) ++
    links.map fun l => (l.toolName, .delegate l.invokeAlias)

/-- The names that the caller's module binds for its collaborators. -/
def boundNames (links : List Link) : List String := (bindings links).map Prod.fst

/-- What the names stand for once the module is loaded. A name that is bound again stands for what it is
bound to last. -/
def scope (links : List Link) : Table Referent := Table.ofEntries (bindings links)

/-- The table of a router: what the entry of a name calls. A later entry replaces one of its name. -/
def routes (links : List Link) : Table String :=
  Table.ofEntries (links.map fun l => (l.name, l.invokeAlias))

/-- The tool, the route and the binding of a collaborator lead to its own module. -/
structure Reached (links : List Link) (l : Link) : Prop where
  tool : (scope links).lookup l.toolName = some (.delegate l.invokeAlias)
  route : (routes links).lookup l.name = some l.invokeAlias
  callee : (scope links).lookup l.invokeAlias = some (.imported l.moduleName "invoke_agent")
  binding : l.bindsCoordinator → (scope links).lookup l.bindAlias =
    some (.imported l.moduleName "bind_session_coordinator")

/-- Names of collaborators whose derived names do not meet. -/
structure Apart (names : List String) : Prop where
  nodup : names.Nodup
  unended : ∀ m ∈ names, ∀ n ∈ names, n ≠ m ++ "_collaborator"

theorem mem_imports {function name : String} :
    (function, name) ∈ l.imports ↔ function = "invoke_agent" ∧ name = l.invokeAlias ∨
      l.bindsCoordinator ∧ function = "bind_session_coordinator" ∧ name = l.bindAlias := by
  unfold imports
  split
  · next hbinds => simp [hbinds]
  · next hbinds => simp [hbinds]

theorem boundNames_eq (links : List Link) : boundNames links =
    (links.flatMap fun l => l.imports.map Prod.snd) ++ links.map toolName := by
  simp [boundNames, bindings, List.map_flatMap, Function.comp_def]

/-- A name that is imported for a collaborator calls it or binds it. -/
theorem eq_of_mem_imports {name : String} (h : name ∈ l.imports.map Prod.snd) :
    name = l.invokeAlias ∨ name = l.bindAlias := by
  obtain ⟨⟨function, name⟩, hmem, rfl⟩ := List.mem_map.mp h
  rcases mem_imports.mp hmem with ⟨-, h⟩ | ⟨-, -, h⟩
  · exact .inl h
  · exact .inr h

theorem nodup_imports (l : Link) : (l.imports.map Prod.snd).Nodup := by
  unfold imports
  split
  · simp [invokeAlias_ne_bindAlias]
  · simp

/-- Collaborators of different names have nothing imported under one name. -/
theorem disjoint_imports {l' : Link} (h : l.name ≠ l'.name) :
    List.Disjoint (l.imports.map Prod.snd) (l'.imports.map Prod.snd) := by
  intro name hl hl'
  rcases eq_of_mem_imports hl with rfl | rfl
  · rcases eq_of_mem_imports hl' with heq | heq
    · exact h (invokeAlias_inj.mp heq)
    · exact invokeAlias_ne_bindAlias heq
  · rcases eq_of_mem_imports hl' with heq | heq
    · exact invokeAlias_ne_bindAlias heq.symm
    · exact h (bindAlias_inj.mp heq)

/-- The bound names are distinct exactly when the names of the collaborators are, and none of them is
another one with the ending of an alias. -/
theorem nodup_boundNames_iff : (boundNames links).Nodup ↔ Apart (links.map name) := by
  rw [boundNames_eq, List.nodup_append]
  constructor
  · rintro ⟨-, htools, hdisjoint⟩
    constructor
    · rw [List.Nodup, List.pairwise_map] at htools ⊢
      exact htools.imp fun h heq => h (toolName_inj.mpr heq)
    · intro m hm n hn h
      obtain ⟨l, hl, rfl⟩ := List.mem_map.mp hm
      obtain ⟨l', hl', rfl⟩ := List.mem_map.mp hn
      have hcall : l.invokeAlias ∈ links.flatMap fun l => l.imports.map Prod.snd :=
        List.mem_flatMap.mpr ⟨l, hl, List.mem_map_of_mem (mem_imports.mpr (.inl ⟨rfl, rfl⟩))⟩
      exact hdisjoint _ hcall _ (List.mem_map_of_mem hl') (invokeAlias_eq_toolName.mpr h)
  · rintro ⟨hnodup, hunended⟩
    rw [List.Nodup, List.pairwise_map] at hnodup
    refine ⟨?_, ?_, ?_⟩
    · rw [List.nodup_flatMap]
      exact ⟨fun l _ => nodup_imports l, hnodup.imp disjoint_imports⟩
    · rw [List.Nodup, List.pairwise_map]
      exact hnodup.imp fun h heq => h (toolName_inj.mp heq)
    · intro name hname tool htool heq
      obtain ⟨l, hl, hmem⟩ := List.mem_flatMap.mp hname
      obtain ⟨l', hl', rfl⟩ := List.mem_map.mp htool
      subst heq
      rcases eq_of_mem_imports hmem with heq | heq
      · exact hunended _ (List.mem_map_of_mem hl) _ (List.mem_map_of_mem hl')
          (invokeAlias_eq_toolName.mp heq.symm)
      · exact bindAlias_ne_invoke l'.name heq.symm

/-- A router has one key for each collaborator exactly when their names are distinct. -/
theorem length_routes_iff :
    (routes links).length = links.length ↔ (links.map name).Nodup := by
  have h : (routes links).length = (links.map fun l => (l.name, l.invokeAlias)).length ↔
      ((links.map fun l => (l.name, l.invokeAlias)).map Prod.fst).Nodup :=
    Table.length_ofEntries_eq_iff
  rw [List.length_map, List.map_map] at h
  exact h

/-- Where the names are apart, each collaborator is reached in its own module. -/
theorem Apart.reached (h : Apart (links.map name)) (hl : l ∈ links) : Reached links l := by
  have hnodup : (boundNames links).Nodup := nodup_boundNames_iff.mpr h
  have hscope {name : String} {referent : Referent} (hmem : (name, referent) ∈ bindings links) :
      (scope links).lookup name = some referent := by
    rw [scope, Table.ofEntries_of_nodup hnodup]
    exact Table.lookup_of_mem hnodup hmem
  have himport {function name : String} (hmem : (function, name) ∈ l.imports) :
      (scope links).lookup name = some (.imported l.moduleName function) :=
    hscope (List.mem_append_left _ (List.mem_flatMap.mpr ⟨l, hl, List.mem_map.mpr ⟨_, hmem, rfl⟩⟩))
  have hkeys : ((links.map fun l => (l.name, l.invokeAlias)).map Prod.fst).Nodup := by
    rw [List.map_map]
    exact h.nodup
  constructor
  · exact hscope (List.mem_append_right _ (List.mem_map.mpr ⟨l, hl, rfl⟩))
  · rw [routes, Table.ofEntries_of_nodup hkeys]
    exact Table.lookup_of_mem hkeys (List.mem_map.mpr ⟨l, hl, rfl⟩)
  · exact himport (mem_imports.mpr (.inl ⟨rfl, rfl⟩))
  · exact fun hbinds => himport (mem_imports.mpr (.inr ⟨hbinds, rfl, rfl⟩))

/-- Collaborators in different modules that are all reached have names that are apart. -/
theorem apart_of_reached (hmodules : (links.map moduleName).Nodup)
    (h : ∀ l ∈ links, Reached links l) : Apart (links.map name) := by
  constructor
  · rw [List.Nodup, List.pairwise_map] at hmodules ⊢
    refine hmodules.imp_of_mem fun {l l'} hl hl' hne hname => hne ?_
    -- Both aliases are one name, which stands for one function only.
    have hcallee := (h l hl).callee
    rw [invokeAlias_inj.mpr hname, (h l' hl').callee] at hcallee
    exact (Referent.imported.inj (Option.some.inj hcallee)).1.symm
  · intro m hm n hn heq
    obtain ⟨l, hl, rfl⟩ := List.mem_map.mp hm
    obtain ⟨l', hl', rfl⟩ := List.mem_map.mp hn
    have hcallee := (h l hl).callee
    rw [invokeAlias_eq_toolName.mpr heq, (h l' hl').tool] at hcallee
    cases hcallee

end Link

end AgentCompiler
