import AgentCompiler.Assembly.ModulePlan
import AgentCompiler.Proofs.Collaboration.Binding

/-!
# What a module's calls of its collaborators reach

The functions that bind collaborators to a session coordinator are imported under names of the caller's
own, and the tools of its action groups are defined behind the imports. `reached_iff_bindingsApart` says
when every call of such a function reaches the collaborator that it stands for.
-/

namespace AgentCompiler

/-- What is found in a table of entries is the last entry with the key. -/
theorem Table.lookup_ofEntries {α : Type} (es : List (String × α)) (k : String) :
    (ofEntries es).lookup k = es.reverse.lookup k := by
  have hfold (t : Table α) :
      (es.foldl (fun t e => insert e.1 e.2 t) t).lookup k = (es.reverse.lookup k).or (t.lookup k) := by
    induction es generalizing t with
    | nil => rfl
    | cons e es ih =>
        rw [List.foldl_cons, ih, List.reverse_cons, List.lookup_append, Option.or_assoc, lookup_insert,
          lookup_cons]
        congr 1
        split
        · rfl
        · rfl
  exact (hfold []).trans Option.or_none

theorem Table.lookup_ofEntries_isSome {α : Type} {es : List (String × α)} {k : String} :
    ((ofEntries es).lookup k).isSome ↔ k ∈ es.map Prod.fst := by
  rw [lookup_ofEntries, lookup_isSome_iff, List.map_reverse, List.mem_reverse]

namespace ModulePlan

open Link

/-- What the names of a module stand for that are bound for collaborators, and then for its own tools. A
tool takes the name that it is given. -/
def bound (p : ModulePlan) : List (String × Option Referent) :=
  (bindings p.links).map (fun e => (e.1, some e.2)) ++ p.tools.map fun tool => (tool.name, none)

/-- What the names stand for once the module is loaded. -/
def scope (p : ModulePlan) : Table (Option Referent) := Table.ofEntries p.bound

/-- A call that binds a collaborator reaches the function of the collaborator's own module. -/
def Reaches (p : ModulePlan) (l : Link) : Prop :=
  p.scope.lookup l.bindAlias = some (some (.imported l.moduleName "bind_session_coordinator"))

/-- Collaborators that are bound under one name are one module, and no tool has such a name. -/
structure BindingsApart (p : ModulePlan) : Prop where
  modules : ∀ l ∈ p.links, ∀ l' ∈ p.links, l.bindsCoordinator → l'.bindsCoordinator →
    l.name = l'.name → l.moduleName = l'.moduleName
  tools : ∀ l ∈ p.links, l.bindsCoordinator → ∀ tool ∈ p.tools, tool.name ≠ l.bindAlias

variable {p : ModulePlan} {l : Link}

/-- A name that binds a collaborator stands for the function of a collaborator of that name, or for a
tool. -/
theorem mem_bound_bindAlias {referent : Option Referent} (h : (l.bindAlias, referent) ∈ p.bound) :
    (∃ l' ∈ p.links, l'.bindsCoordinator ∧ l'.name = l.name ∧
      referent = some (.imported l'.moduleName "bind_session_coordinator")) ∨
    ∃ tool ∈ p.tools, tool.name = l.bindAlias := by
  rcases List.mem_append.mp h with h | h
  · obtain ⟨⟨name, bound⟩, hbound, heq⟩ := List.mem_map.mp h
    obtain ⟨rfl, rfl⟩ := Prod.mk.inj heq
    rcases List.mem_append.mp hbound with hbound | hbound
    · obtain ⟨l', hl', himport⟩ := List.mem_flatMap.mp hbound
      obtain ⟨⟨function, name⟩, himports, heq⟩ := List.mem_map.mp himport
      obtain ⟨rfl, rfl⟩ := Prod.mk.inj heq
      rcases mem_imports.mp himports with ⟨-, halias⟩ | ⟨hbinds, rfl, halias⟩
      · exact absurd halias.symm invokeAlias_ne_bindAlias
      · exact .inl ⟨l', hl', hbinds, (bindAlias_inj.mp halias).symm, rfl⟩
    · obtain ⟨l', -, heq⟩ := List.mem_map.mp hbound
      exact absurd (Prod.mk.inj heq).1.symm (bindAlias_ne_invoke l'.name)
  · obtain ⟨tool, htool, heq⟩ := List.mem_map.mp h
    exact .inr ⟨tool, htool, (Prod.mk.inj heq).1⟩

/-- A collaborator that is bound has a name in the module. -/
theorem bindAlias_mem_bound (hl : l ∈ p.links) (hbinds : l.bindsCoordinator) :
    l.bindAlias ∈ p.bound.map Prod.fst := by
  have himport : ("bind_session_coordinator", l.bindAlias) ∈ l.imports :=
    mem_imports.mpr (.inr ⟨hbinds, rfl, rfl⟩)
  have hbinding : (l.bindAlias, .imported l.moduleName "bind_session_coordinator") ∈
      bindings p.links :=
    List.mem_append_left _ (List.mem_flatMap.mpr ⟨l, hl, List.mem_map.mpr ⟨_, himport, rfl⟩⟩)
  exact List.mem_map.mpr ⟨_, List.mem_append_left _ (List.mem_map_of_mem hbinding), rfl⟩

/-- A tool takes its name over from a collaborator. -/
theorem not_reaches_of_tool {tool : Tool} (htool : tool ∈ p.tools) (hname : tool.name = l.bindAlias) :
    ¬p.Reaches l := by
  intro h
  rw [Reaches, scope, Table.lookup_ofEntries, bound, List.reverse_append, List.lookup_append] at h
  have hsome : (((p.tools.map fun tool => (tool.name, (none : Option Referent))).reverse).lookup
      l.bindAlias).isSome := by
    rw [Table.lookup_isSome_iff, List.map_reverse, List.mem_reverse, List.map_map]
    exact List.mem_map.mpr ⟨tool, htool, hname⟩
  obtain ⟨referent, hreferent⟩ := Option.isSome_iff_exists.mp hsome
  obtain ⟨tool', -, heq⟩ := List.mem_map.mp (List.mem_reverse.mp (Table.mem_of_lookup hreferent))
  rw [hreferent, Option.some_or, ← (Prod.mk.inj heq).2] at h
  cases h

/-- All calls reach the collaborators that they stand for exactly when no two of them are bound under one
name, and no tool has such a name. -/
theorem reached_iff_bindingsApart :
    (∀ l ∈ p.links, l.bindsCoordinator → p.Reaches l) ↔ p.BindingsApart := by
  constructor
  · intro h
    constructor
    · intro l hl l' hl' hbinds hbinds' hname
      have heq : some (some (Referent.imported l.moduleName "bind_session_coordinator")) =
          some (some (Referent.imported l'.moduleName "bind_session_coordinator")) := by
        rw [← h l hl hbinds, ← h l' hl' hbinds', bindAlias_inj.mpr hname]
      exact (Referent.imported.inj (Option.some.inj (Option.some.inj heq))).1
    · exact fun l hl hbinds tool htool hname => not_reaches_of_tool htool hname (h l hl hbinds)
  · intro h l hl hbinds
    obtain ⟨referent, hreferent⟩ := Option.isSome_iff_exists.mp
      (Table.lookup_ofEntries_isSome.mpr (bindAlias_mem_bound hl hbinds))
    have hmem := Table.mem_of_mem_ofEntries (Table.mem_of_lookup hreferent)
    rcases mem_bound_bindAlias hmem with ⟨l', hl', hbinds', hname, rfl⟩ | ⟨tool, htool, hname⟩
    · rw [Reaches, scope, hreferent, h.modules l' hl' l hl hbinds' hbinds hname]
    · exact absurd hname (h.tools l hl hbinds tool htool)

end ModulePlan

end AgentCompiler
