import Mathlib.Order.Bounds.Basic
import AgentCompiler.Proofs.Name.Distinct
import AgentCompiler.Table

/-!
# The counters of repeated names

The search for a counter goes on from the last counter of the same name. The names that it has passed
over stay in use, so this is a shortcut only: a repeated name gets the least counter from two on whose
name neither stands in the list nor was handed out before. Names of the list that look like numbered
ones are kept from the counters, and so are the first to get themselves.
-/

namespace AgentCompiler.Name

variable {names done out : List String} {name : String} {h : Handed} {k : Nat}

/-! ## The search -/

/-- The counters that a name may get when the names `out` have been handed out for a list. -/
def freeCounters (names out : List String) (name : String) : Set Nat :=
  {k | 2 ≤ k ∧ numbered name k ∉ names ∧ numbered name k ∉ out}

/-- A counter makes another name. -/
theorem numbered_ne (name : String) (k : Nat) : numbered name k ≠ name := by
  intro heq
  have hlength := congrArg String.length heq
  have hseparator : "_".length = 1 := rfl
  simp only [numbered, String.length_append, hseparator] at hlength
  omega

/-- The search only passes over counters that make a name to avoid. -/
theorem freeCounter_passes (avoid : List String) (name : String) (tries k : Nat) :
    k < freeCounter avoid name tries k ∧
      ∀ j, k < j → j < freeCounter avoid name tries k → numbered name j ∈ avoid := by
  induction tries generalizing k with
  | zero =>
      rw [freeCounter]
      exact ⟨Nat.lt_succ_self k, fun j hj hj' => by omega⟩
  | succ tries ih =>
      rw [freeCounter]
      split
      · next hc =>
          obtain ⟨hlt, hpassed⟩ := ih (k + 1)
          refine ⟨by omega, fun j hj hj' => ?_⟩
          rcases Nat.eq_or_lt_of_le hj with rfl | hj
          · exact List.contains_iff_mem.mp hc
          · exact hpassed j hj hj'
      · exact ⟨Nat.lt_succ_self k, fun j hj hj' => by omega⟩

namespace Handed

/-- The last counter of a name; names that were not repeated start from one. -/
def last (h : Handed) (name : String) : Nat := (h.counters.lookup name).getD 1

/-- A name that is new stays as it is. -/
theorem next_of_notMem (names : List String) (hname : name ∉ h.taken) :
    h.next names name = (name, { h with taken := name :: h.taken }) := by
  rw [next, if_neg (by simpa using hname)]

/-- A name that was handed out gets the first counter above its last one that makes a free name. -/
theorem next_of_mem (names : List String) (hname : name ∈ h.taken) :
    ∃ k, h.next names name = (numbered name k, ⟨numbered name k :: h.taken, (name, k) :: h.counters⟩) ∧
      IsLeast {k | h.last name < k ∧ numbered name k ∉ names ++ h.taken} k := by
  refine ⟨freeCounter (names ++ h.taken) name (names ++ h.taken).length (h.last name), ?_, ?_⟩
  · rw [next, if_pos (by simpa using hname)]
    rfl
  · obtain ⟨hlt, hpassed⟩ :=
      freeCounter_passes (names ++ h.taken) name (names ++ h.taken).length (h.last name)
    have hfree := freeCounter_notMem (names ++ h.taken) name (names ++ h.taken).length (h.last name)
      (names ++ h.taken) (fun _ _ hmem => hmem) Nat.le.refl
    refine ⟨⟨hlt, hfree⟩, fun j ⟨hj, hnot⟩ => ?_⟩
    by_contra hless
    exact hnot (hpassed j hj (by omega))

/-- A repeated name has its new counter for the last one; other names keep theirs. -/
theorem last_cons (h : Handed) (taken : List String) (name n : String) (k : Nat) :
    (Handed.mk taken ((name, k) :: h.counters)).last n = if n = name then k else h.last n := by
  rw [last, Table.lookup_cons]
  split <;> rfl

/-- The state when the names `done` of a list have got the names `out`. -/
structure After (names done out : List String) (h : Handed) : Prop where
  taken : ∀ n, n ∈ h.taken ↔ n ∈ out
  /-- No counter makes a name of the list, so such a name is handed out when it occurs. -/
  occurred : ∀ n ∈ names, n ∈ out ↔ n ∈ done
  one_le : ∀ n, 1 ≤ h.last n
  /-- Up to its last counter a name has no free one. -/
  passed : ∀ n, ∀ k ∈ freeCounters names out n, h.last n < k

/-- What a name of a list gets behind the names `done` that got the names `out`: itself when it is new,
and else its least free counter. -/
def Receives (names done out : List String) (name fresh : String) : Prop :=
  if name ∈ done then
    ∃ k, fresh = numbered name k ∧ IsLeast (freeCounters names out name) k
  else fresh = name

/-- Fewer counters are free when more names have been handed out. -/
theorem freeCounters_anti {out' : List String} (hsub : out ⊆ out') :
    freeCounters names out' name ⊆ freeCounters names out name :=
  fun _ hk => ⟨hk.1, hk.2.1, fun hmem => hk.2.2 (hsub hmem)⟩

namespace After

theorem start (names : List String) : After names [] [] {} where
  taken _ := Iff.rfl
  occurred _ _ := Iff.rfl
  one_le _ := Nat.le_refl 1
  passed _ _ hk := hk.1

/-- The first counter that is found is the least one from two on. -/
theorem isLeast (hafter : h.After names done out)
    (hk : IsLeast {k | h.last name < k ∧ numbered name k ∉ names ++ h.taken} k) :
    IsLeast (freeCounters names out name) k := by
  have havoid (j : Nat) :
      numbered name j ∉ names ++ h.taken ↔ numbered name j ∉ names ∧ numbered name j ∉ out := by
    rw [List.mem_append, not_or, hafter.taken]
  obtain ⟨⟨hlt, hnot⟩, hleast⟩ := hk
  have hone := hafter.one_le name
  refine ⟨⟨by omega, (havoid k).mp hnot⟩, fun j hj => hleast ⟨hafter.passed name j hj, ?_⟩⟩
  exact (havoid j).mpr hj.2

/-- One more name of the list gets its name. -/
theorem next (hafter : h.After names done out) (hname : name ∈ names) :
    Receives names done out name (h.next names name).1 ∧
      (h.next names name).2.After names (done ++ [name]) (out ++ [(h.next names name).1]) := by
  have hseen : name ∈ h.taken ↔ name ∈ done :=
    (hafter.taken name).trans (hafter.occurred name hname)
  have hpassed (fresh n : String) (k : Nat) (hk : k ∈ freeCounters names (out ++ [fresh]) n) :
      h.last n < k := hafter.passed n k (freeCounters_anti (List.subset_append_left out [fresh]) hk)
  by_cases hmem : name ∈ h.taken
  · obtain ⟨k, hnext, hk⟩ := next_of_mem names hmem
    have hleast := hafter.isLeast hk
    have htwo := hleast.1.1
    rw [hnext]
    refine ⟨?_, ?_, ?_, ?_, ?_⟩
    · rw [Receives, if_pos (hseen.mp hmem)]
      exact ⟨k, rfl, hleast⟩
    · intro n
      rw [List.mem_cons, hafter.taken, List.mem_append, List.mem_singleton, or_comm]
    · intro n hn
      have hne : n ≠ numbered name k := fun heq => hleast.1.2.1 (heq ▸ hn)
      rw [List.mem_append, List.mem_singleton, or_iff_left hne, hafter.occurred n hn,
        List.mem_append, List.mem_singleton, or_iff_left_of_imp]
      rintro rfl
      exact hseen.mp hmem
    · intro n
      rw [last_cons]
      split
      · omega
      · exact hafter.one_le n
    · intro n j hj
      rw [last_cons]
      split
      · next heq =>
          -- The counter that was found is not free any more, and no smaller one was.
          subst heq
          have hle := hleast.2 (freeCounters_anti (List.subset_append_left out _) hj)
          refine Nat.lt_of_le_of_ne hle fun hkj => hj.2.2 ?_
          rw [hkj]
          exact List.mem_append_right _ (List.mem_singleton_self _)
      · exact hpassed _ n j hj
  · rw [next_of_notMem names hmem]
    refine ⟨?_, ?_, ?_, hafter.one_le, hpassed name⟩
    · rw [Receives, if_neg (mt hseen.mpr hmem)]
    · intro n
      rw [List.mem_cons, hafter.taken, List.mem_append, List.mem_singleton, or_comm]
    · intro n hn
      rw [List.mem_append, hafter.occurred n hn, List.mem_append]

end After

end Handed

open Handed

/-! ## The list -/

/-- Every name gets what it should, from a state on. -/
theorem receives_distinctFrom (hafter : h.After names done out) {ns : List String}
    (hns : ns ⊆ names) {i : Nat} (hi : ns[i]? = some name) :
    ∃ fresh, (distinctFrom names h ns)[i]? = some fresh ∧
      Receives names (done ++ ns.take i) (out ++ (distinctFrom names h ns).take i) name fresh := by
  induction ns generalizing h done out i with
  | nil => cases hi
  | cons n ns ih =>
      obtain ⟨hn, hrest⟩ := List.cons_subset.mp hns
      obtain ⟨hreceives, hnext⟩ := hafter.next hn
      cases i with
      | zero =>
          obtain rfl := Option.some.inj hi
          refine ⟨(h.next names n).1, rfl, ?_⟩
          rwa [List.take_zero, List.take_zero, List.append_nil, List.append_nil]
      | succ i =>
          obtain ⟨fresh, hfresh, hlater⟩ := ih hnext hrest hi
          refine ⟨fresh, hfresh, ?_⟩
          simpa [distinctFrom] using hlater

/-- The names of a list with counters. They are as many as before and pairwise distinct; the first
occurrence of a name keeps it, a later one gets the least counter that is free, and the counters of one
name increase along the list. -/
theorem distinct_counters (names : List String) :
    (distinct names).length = names.length ∧ (distinct names).Nodup ∧
      (∀ i name, names[i]? = some name → ∃ fresh, (distinct names)[i]? = some fresh ∧
        Receives names (names.take i) ((distinct names).take i) name fresh) ∧
      ∀ (i j : Nat) (name : String) (a b : Nat), i < j → names[i]? = some name → names[j]? = some name →
        (distinct names)[i]? = some (numbered name a) →
        (distinct names)[j]? = some (numbered name b) → a < b := by
  have hreceives (i : Nat) (name : String) (hi : names[i]? = some name) :=
    receives_distinctFrom (After.start names) (List.Subset.refl names) hi
  simp only [List.nil_append] at hreceives
  refine ⟨length_distinct names, nodup_distinct names, hreceives, ?_⟩
  intro i j name a b hij hi hj ha hb
  -- A numbered name is that of a later occurrence, so it has the least counter that was free.
  have hcounter {i a : Nat} (hi : names[i]? = some name)
      (ha : (distinct names)[i]? = some (numbered name a)) :
      IsLeast (freeCounters names ((distinct names).take i) name) a := by
    obtain ⟨fresh, hfresh, hgets⟩ := hreceives i name hi
    obtain rfl := Option.some.inj (hfresh.symm.trans ha)
    rw [Receives] at hgets
    split at hgets
    · obtain ⟨k, hk, hleast⟩ := hgets
      rwa [numbered_injective name hk]
    · exact absurd hgets (numbered_ne name a)
  have hsub : (distinct names).take i ⊆ (distinct names).take j :=
    (List.take_prefix_take_left hij.le).subset
  have hb := hcounter hj hb
  refine Nat.lt_of_le_of_ne ((hcounter hi ha).2 (freeCounters_anti hsub hb.1)) fun hab => ?_
  have htaken : numbered name a ∈ (distinct names).take j :=
    List.mem_of_getElem? ((List.getElem?_take_of_lt hij).trans ha)
  exact hb.1.2.2 (hab ▸ htaken)

/-- A name of the list that looks like a numbered one is passed over, and comes later itself. -/
theorem distinct_counters_passedOver :
    ["x", "x", "x_2", "x"][1]? = some "x" ∧ ["x", "x", "x_2", "x"][3]? = some "x" ∧
      distinct ["x", "x", "x_2", "x"] = ["x", "x_3", "x_2", "x_4"] ∧
      Receives ["x", "x", "x_2", "x"] ["x"] ["x"] "x" "x_3" ∧ 3 < 4 := by
  have hdistinct : distinct ["x", "x", "x_2", "x"] = ["x", "x_3", "x_2", "x_4"] := by
    decide +kernel
  obtain ⟨-, -, hreceives, hincrease⟩ := distinct_counters ["x", "x", "x_2", "x"]
  rw [hdistinct] at hreceives hincrease
  obtain ⟨fresh, hfresh, hsecond⟩ := hreceives 1 "x" rfl
  obtain rfl := Option.some.inj hfresh
  have hnumbered : "x_3" = numbered "x" 3 ∧ "x_4" = numbered "x" 4 := by decide +kernel
  refine ⟨rfl, rfl, hdistinct, hsecond, hincrease 1 3 "x" 3 4 (by decide) rfl rfl ?_ ?_⟩
  · rw [← hnumbered.1]
    rfl
  · rw [← hnumbered.2]
    rfl

end AgentCompiler.Name
