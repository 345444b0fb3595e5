import Mathlib.Data.List.Flatten
import AgentCompiler.Proofs.Gateway.Keys

/-!
# Names of the tools in a module

The tools that no gateway serves stand in the module of their agent. Their names are made distinct
together with all others and are then cut, so two of them meet only when they are cut alike.
-/

namespace AgentCompiler

namespace Name

/-- Two names that are both cut to a budget, with the same beginning and the same digest. -/
structure CutAlike (budget : Nat) (m n : String) : Prop where
  left : budget < m.length
  right : budget < n.length
  take : m.toList.take budget = n.toList.take budget
  digest : digest m = digest n

theorem prune_eq_prune_iff {m n : String} {budget : Nat} :
    prune m budget = prune n budget ↔ m = n ∨ CutAlike budget m n := by
  constructor
  · intro heq
    by_cases hne : m = n
    · exact .inl hne
    right
    -- Names that are not both cut stay different.
    have hcut : budget < m.length ∧ budget < n.length := by
      by_contra hshort
      exact prune_ne hne (fun hm hn => absurd ⟨hm, hn⟩ hshort) heq
    have hchars := congrArg String.toList heq
    rw [toList_prune_of_lt hcut.1, toList_prune_of_lt hcut.2] at hchars
    have hdigits : ('_' :: (Name.digest m).toList).length = ('_' :: (Name.digest n).toList).length := by
      rw [List.length_cons, List.length_cons, String.length_toList, String.length_toList,
        (digest_spec m).1, (digest_spec n).1]
    obtain ⟨htake, hdigest⟩ := List.append_inj' hchars hdigits
    exact ⟨hcut.1, hcut.2, htake, String.toList_injective (List.cons_eq_cons.mp hdigest).2⟩
  · rintro (rfl | ⟨hm, hn, htake, hdigest⟩)
    · rfl
    · refine String.toList_injective ?_
      rw [toList_prune_of_lt hm, toList_prune_of_lt hn, htake, hdigest]

/-- A short name is what a name is cut to only when it is that name. -/
theorem prune_eq_iff_of_length_le {m n : String} {budget : Nat} (h : n.length ≤ budget) :
    prune m budget = n ↔ m = n := by
  have hn : prune n budget = n := by rw [prune, if_pos h]
  constructor
  · intro heq
    rcases prune_eq_prune_iff.mp (heq.trans hn.symm) with heq | hcut
    · exact heq
    · exact absurd hcut.right (by omega)
  · rintro rfl
    exact hn

end Name

namespace Tool

/-- The names, not yet cut, of the tools that no gateway serves. -/
def standingNames (groups : List ActionGroup) (gateway : Bool) : List String :=
  ((plan groups).filter fun p => !p.isProxied gateway).flatMap fun p => p.tools.map Prod.fst

theorem nodup_standingNames (groups : List ActionGroup) (gateway : Bool) :
    (standingNames groups gateway).Nodup := by
  have hall := Name.nodup_distinct (rawNames groups)
  rw [← flatMap_names_plan] at hall
  exact hall.sublist (List.filter_sublist.flatMap _)

/-- The names of the tools of a group, and whether a gateway serves them, are planned. -/
theorem names_build {gateway : Bool} {p : Planned} {g : ToolGroup} {r r' : Registry}
    (h : p.build gateway r = some (g, r')) :
    (!g.isProxied gateway, g.tools.map (·.name)) =
      (!p.isProxied gateway, p.tools.map fun e => Name.prune e.1 (p.budget gateway)) := by
  obtain ⟨⟨tools, r₁⟩, htools, hg⟩ := Option.bind_eq_some_iff.mp h
  cases hg
  refine Prod.ext rfl ?_
  exact Gateway.mapM_map_eq (fun e r t r' ht => (Gateway.build_spec ht).1) htools

/-- The tools that stand in a module have the names that are handed out, cut. -/
theorem names_synthesize {groups : List ActionGroup} {gateway : Bool} {gs : List ToolGroup}
    {r r' : Registry} (h : synthesize groups gateway r = some (gs, r')) :
    ((gs.filter fun g => !g.isProxied gateway).flatMap (·.tools)).map (·.name) =
      (standingNames groups gateway).map fun n => Name.prune n Name.toolBudget := by
  have hmap := Gateway.mapM_map_eq (fun p r g r' hp => names_build hp) h
  -- Both sides keep the names of the groups that no gateway serves.
  have hkept := congrArg (fun es => (es.filter Prod.fst).flatMap Prod.snd) hmap
  simp only [List.filter_map, List.flatMap_map] at hkept
  rw [List.map_flatMap, standingNames, List.map_flatMap]
  refine Eq.trans hkept (List.flatMap_congr fun p hp => ?_)
  have hlocal : p.isProxied gateway = false := by simpa using (List.mem_filter.mp hp).2
  rw [List.map_map, Planned.budget, hlocal]
  rfl

end Tool

end AgentCompiler
