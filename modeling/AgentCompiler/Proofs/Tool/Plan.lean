import AgentCompiler.Proofs.Name.Namespace
import AgentCompiler.Tool.Synthesis

/-!
# Planned tools

Every planned group is a group of the agent, and its tools are made from its own operations. All
groups, namespaces, operations and distinct names are handed out, in order.
-/

namespace AgentCompiler.Tool

/-- A group that gets names handed out is one of the groups, and each of its tools is made from one of
its operations. -/
theorem mem_handOut {gs : List (ActionGroup × String)} {names : List String} {p : Planned}
    (h : p ∈ handOut gs names) :
    (p.group, p.space) ∈ gs ∧ ∀ tool ∈ p.tools, tool.2 ∈ origins p.group := by
  induction gs generalizing names with
  | nil => cases h
  | cons g gs ih =>
      obtain ⟨g, space⟩ := g
      rw [handOut, List.mem_cons] at h
      rcases h with rfl | h
      · exact ⟨List.mem_cons_self, fun tool htool => (List.of_mem_zip htool).2⟩
      · obtain ⟨hmem, htools⟩ := ih h
        exact ⟨List.mem_cons_of_mem _ hmem, htools⟩

/-- A planned group is one of the groups, and each of its tools is made from one of its operations. -/
theorem mem_plan {groups : List ActionGroup} {p : Planned} (h : p ∈ plan groups) :
    p.group ∈ groups ∧ ∀ tool ∈ p.tools, tool.2 ∈ origins p.group := by
  obtain ⟨hmem, htools⟩ := mem_handOut h
  exact ⟨(List.of_mem_zip hmem).1, htools⟩

/-- A request is an operation of the interface of its group. -/
theorem request_mem_origins {g : ActionGroup} {document : Json} {o : Api.Operation}
    (h : .request document o ∈ origins g) :
    g.schema = some (.interface document) ∧ o ∈ Api.operations document := by
  unfold origins at h
  split at h
  · next document' hschema =>
      obtain ⟨o', ho', ho⟩ := List.mem_map.mp h
      cases ho
      exact ⟨hschema, ho'⟩
  · obtain ⟨f, -, hf⟩ := List.mem_map.mp h
    cases hf
  · cases h

/-! ## What is handed out -/

/-- Every group gets all of its operations, when there is a name for each. -/
theorem map_handOut {gs : List (ActionGroup × String)} {names : List String}
    (h : names.length = (gs.flatMap fun e => origins e.1).length) :
    (handOut gs names).map (fun p => (p.group, p.space, p.tools.map Prod.snd)) =
      gs.map fun e => (e.1, e.2, origins e.1) := by
  induction gs generalizing names with
  | nil => rfl
  | cons e gs ih =>
      obtain ⟨g, space⟩ := e
      simp only [List.flatMap_cons, List.length_append] at h
      have hzip : (names.zip (origins g)).map Prod.snd = origins g :=
        List.map_snd_zip (by omega)
      rw [handOut, List.map_cons, List.map_cons, hzip, ih (by rw [List.length_drop]; omega)]

/-- Every name is handed out, when there is an operation for each. -/
theorem flatMap_handOut {gs : List (ActionGroup × String)} {names : List String}
    (h : names.length = (gs.flatMap fun e => origins e.1).length) :
    (handOut gs names).flatMap (fun p => p.tools.map Prod.fst) = names := by
  induction gs generalizing names with
  | nil => exact (List.length_eq_zero_iff.mp h).symm
  | cons e gs ih =>
      obtain ⟨g, space⟩ := e
      simp only [List.flatMap_cons, List.length_append] at h
      have hzip : (names.zip (origins g)).map Prod.fst = names.take (origins g).length := by
        have hmin : min names.length (origins g).length = (origins g).length := by omega
        rw [List.zip_eq_zip_take_min, hmin, List.map_fst_zip]
        rw [List.length_take, List.length_take]
        omega
      rw [handOut, List.flatMap_cons, hzip, ih (by rw [List.length_drop]; omega),
        List.take_append_drop]

section

variable (groups : List ActionGroup)

/-- The names of the tools of all groups before they are made distinct. -/
def rawNames : List String := groups.flatMap fun g => (origins g).map (Origin.rawName g.name)

theorem zip_namespaces_fst :
    (groups.zip (Name.namespaces (groups.map (·.name)))).map Prod.fst = groups :=
  List.map_fst_zip (by rw [Name.length_namespaces, List.length_map])

theorem length_distinct_rawNames :
    (Name.distinct (rawNames groups)).length =
      ((groups.zip (Name.namespaces (groups.map (·.name)))).flatMap fun e => origins e.1).length := by
  have horigins : ((groups.zip (Name.namespaces (groups.map (·.name)))).flatMap fun e =>
      origins e.1) = groups.flatMap origins := by
    rw [← List.flatMap_map Prod.fst, zip_namespaces_fst]
  rw [horigins, Name.length_distinct, rawNames, List.length_flatMap, List.length_flatMap]
  simp only [List.length_map]

/-- The planned groups are the groups with all of their operations, in order. -/
theorem map_plan :
    (plan groups).map (fun p => (p.group, p.tools.map Prod.snd)) =
      groups.map fun g => (g, origins g) := by
  have hmap := congrArg (List.map fun e : ActionGroup × String × List Origin => (e.1, e.2.2))
    (map_handOut (length_distinct_rawNames groups))
  rw [List.map_map, List.map_map] at hmap
  calc (plan groups).map (fun p => (p.group, p.tools.map Prod.snd))
      = (groups.zip (Name.namespaces (groups.map (·.name)))).map
          ((fun g => (g, origins g)) ∘ Prod.fst) := hmap
    _ = groups.map fun g => (g, origins g) := by rw [← List.map_map, zip_namespaces_fst]

/-- The planned groups have the namespaces, in order. -/
theorem map_space_plan :
    (plan groups).map Planned.space = Name.namespaces (groups.map (·.name)) := by
  have hmap := congrArg (List.map fun e : ActionGroup × String × List Origin => e.2.1)
    (map_handOut (length_distinct_rawNames groups))
  rw [List.map_map, List.map_map] at hmap
  calc (plan groups).map Planned.space
      = (groups.zip (Name.namespaces (groups.map (·.name)))).map Prod.snd := hmap
    _ = Name.namespaces (groups.map (·.name)) :=
        List.map_snd_zip (by rw [Name.length_namespaces, List.length_map])

/-- The planned tools have the distinct names, in order. -/
theorem flatMap_names_plan :
    (plan groups).flatMap (fun p => p.tools.map Prod.fst) = Name.distinct (rawNames groups) :=
  flatMap_handOut (length_distinct_rawNames groups)

end

end AgentCompiler.Tool
