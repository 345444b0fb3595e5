/-!
# Tables

A table keeps values under keys, in the order in which the keys came first. A key that is set again
keeps its place and takes the new value: `lookup_insert` says what is found afterwards.
-/

namespace AgentCompiler

/-- Values under keys. -/
abbrev Table (α : Type) := List (String × α)

namespace Table

variable {α : Type}

/-- Sets the value of a key, in place when the key is there and else at the end. -/
def insert (key : String) (value : α) : Table α → Table α
  | [] => [(key, value)]
  | e :: es => if e.1 = key then (key, value) :: es else e :: insert key value es

/-- The table of entries that are set one after the other. -/
def ofEntries (es : List (String × α)) : Table α := es.foldl (fun t e => insert e.1 e.2 t) []

/-- A look-up stops at the first entry with its key. -/
theorem lookup_cons (k : String) (e : String × α) (t : Table α) :
    List.lookup k (e :: t) = if k = e.1 then some e.2 else t.lookup k := by
  obtain ⟨key, v⟩ := e
  by_cases h : k = key
  · subst h
    simp
  · have hb : (k == key) = false := by simpa using h
    rw [List.lookup_cons, hb, if_neg h]

/-- What is found under a key is an entry. -/
theorem mem_of_lookup {k : String} {v : α} {t : Table α} (h : t.lookup k = some v) : (k, v) ∈ t := by
  obtain ⟨before, after, rfl, -⟩ := List.lookup_eq_some_iff.mp h
  exact List.mem_append_right before List.mem_cons_self

/-- Something is found under the keys of a table. -/
theorem lookup_isSome_iff {k : String} {t : Table α} :
    (t.lookup k).isSome ↔ k ∈ t.map Prod.fst := by
  induction t with
  | nil => simp
  | cons e t ih =>
    rw [lookup_cons, List.map_cons, List.mem_cons, ← ih]
    split
    · next h => simp [h]
    · next h => simp [h]

/-- What is found after a key was set. -/
theorem lookup_insert (key k : String) (value : α) (t : Table α) :
    (insert key value t).lookup k = if k = key then some value else t.lookup k := by
  induction t with
  | nil => simp [insert, lookup_cons]
  | cons e es ih =>
    by_cases he : e.1 = key
    · simp only [insert, he, if_true, lookup_cons]
      split <;> rfl
    · simp only [insert, he, if_false, lookup_cons, ih]
      split
      · next h => simp [h, he]
      · rfl

/-- Setting a key adds it at the end unless it is there. -/
theorem keys_insert (key : String) (value : α) (t : Table α) :
    (insert key value t).map Prod.fst =
      if key ∈ t.map Prod.fst then t.map Prod.fst else t.map Prod.fst ++ [key] := by
  induction t with
  | nil => simp [insert]
  | cons e es ih =>
    by_cases h : e.1 = key
    · simp [insert, h]
    · have h' : key ≠ e.1 := fun g => h g.symm
      simp only [insert, h, if_false, List.map_cons, ih, List.mem_cons, h', false_or]
      split <;> simp

/-- A key that is not there is set at the end. -/
theorem insert_of_notMem {key : String} (value : α) {t : Table α} (h : key ∉ t.map Prod.fst) :
    insert key value t = t ++ [(key, value)] := by
  induction t with
  | nil => rfl
  | cons e es ih =>
    rw [List.map_cons, List.mem_cons, not_or] at h
    rw [insert, if_neg (Ne.symm h.1), ih h.2, List.cons_append]

theorem mem_of_mem_insert {key : String} {value : α} {t : Table α} {e : String × α}
    (h : e ∈ insert key value t) : e = (key, value) ∨ e ∈ t := by
  induction t with
  | nil => exact .inl (List.mem_singleton.mp h)
  | cons e' es ih =>
    rw [insert] at h
    split at h
    · exact (List.mem_cons.mp h).imp_right (List.mem_cons_of_mem e')
    · rcases List.mem_cons.mp h with h | h
      · exact .inr (h ▸ List.mem_cons_self)
      · exact (ih h).imp_right (List.mem_cons_of_mem e')

/-- An entry of a table is one of those that were set. -/
theorem mem_of_mem_ofEntries {es : List (String × α)} {e : String × α} (h : e ∈ ofEntries es) :
    e ∈ es := by
  have hfold (es : List (String × α)) (t : Table α)
      (h : e ∈ es.foldl (fun t e => insert e.1 e.2 t) t) : e ∈ t ∨ e ∈ es := by
    induction es generalizing t with
    | nil => exact .inl h
    | cons e' es ih =>
      rcases ih _ h with h | h
      · rcases mem_of_mem_insert h with rfl | h
        · exact .inr List.mem_cons_self
        · exact .inl h
      · exact .inr (List.mem_cons_of_mem e' h)
  exact (hfold es [] h).resolve_left List.not_mem_nil

/-- Entries with distinct keys are a table as they stand. -/
theorem ofEntries_of_nodup {es : List (String × α)} (h : (es.map Prod.fst).Nodup) :
    ofEntries es = es := by
  have hfold (t : Table α) (h : ((t ++ es).map Prod.fst).Nodup) :
      es.foldl (fun t e => insert e.1 e.2 t) t = t ++ es := by
    induction es generalizing t with
    | nil => exact (List.append_nil t).symm
    | cons e es ih =>
      have hnew : e.1 ∉ t.map Prod.fst := by
        rw [List.map_append, List.map_cons] at h
        exact fun hmem => (List.nodup_append.mp h).2.2 _ hmem _ List.mem_cons_self rfl
      rw [List.foldl_cons, insert_of_notMem e.2 hnew]
      have hrest : t ++ e :: es = t ++ [(e.1, e.2)] ++ es := by simp
      rw [hrest] at h ⊢
      refine ih ?_ _ h
      rw [List.map_append] at h
      exact (List.nodup_append.mp h).2.1
  exact hfold [] h

/-- An entry of a table with distinct keys is what is found under its key. -/
theorem lookup_of_mem {k : String} {v : α} {t : Table α} (hkeys : (t.map Prod.fst).Nodup)
    (h : (k, v) ∈ t) : t.lookup k = some v := by
  induction t with
  | nil => cases h
  | cons e t ih =>
    rw [List.map_cons, List.nodup_cons] at hkeys
    rw [lookup_cons]
    rcases List.mem_cons.mp h with rfl | h
    · rw [if_pos rfl]
    · have hne : k ≠ e.1 := fun hk => hkeys.1 (hk ▸ List.mem_map_of_mem h)
      rw [if_neg hne, ih hkeys.2 h]

/-- A table of entries has as many keys as there are entries exactly when their keys are distinct. -/
theorem length_ofEntries_eq_iff {es : List (String × α)} :
    (ofEntries es).length = es.length ↔ (es.map Prod.fst).Nodup := by
  have hfold (es : List (String × α)) (t : Table α) (ht : (t.map Prod.fst).Nodup) :
      (es.foldl (fun t e => insert e.1 e.2 t) t).length ≤ t.length + es.length ∧
        ((es.foldl (fun t e => insert e.1 e.2 t) t).length = t.length + es.length ↔
          ((t ++ es).map Prod.fst).Nodup) := by
    induction es generalizing t with
    | nil =>
      rw [List.append_nil]
      exact ⟨Nat.le_refl _, iff_of_true rfl ht⟩
    | cons e es ih =>
      have hkeys := keys_insert e.1 e.2 t
      have hrest : t ++ e :: es = t ++ [(e.1, e.2)] ++ es := by simp
      rw [List.foldl_cons]
      by_cases hmem : e.1 ∈ t.map Prod.fst
      · -- A key that is set again adds nothing, and what is missing never comes back.
        rw [if_pos hmem] at hkeys
        have hlength : (insert e.1 e.2 t).length = t.length := by
          rw [← List.length_map Prod.fst, hkeys, List.length_map]
        have hle := (ih (insert e.1 e.2 t) (hkeys.symm ▸ ht)).1
        rw [hlength] at hle
        refine ⟨by rw [List.length_cons]; omega, iff_of_false ?_ ?_⟩
        · rw [List.length_cons]
          omega
        · rw [List.map_append, List.map_cons]
          exact fun h => (List.nodup_append.mp h).2.2 _ hmem _ List.mem_cons_self rfl
      · rw [insert_of_notMem e.2 hmem, hrest]
        have hnodup : ((t ++ [(e.1, e.2)]).map Prod.fst).Nodup := by
          rw [if_neg hmem, insert_of_notMem e.2 hmem] at hkeys
          rw [hkeys, List.nodup_append]
          refine ⟨ht, by simp, fun a ha b hb => ?_⟩
          rw [List.mem_singleton.mp hb]
          exact fun hab => hmem (hab ▸ ha)
        have hlength : (t ++ [(e.1, e.2)]).length + es.length = t.length + (e :: es).length := by
          simp only [List.length_append, List.length_cons, List.length_nil]
          omega
        rw [← hlength]
        exact ih _ hnodup
  have h := (hfold es [] List.nodup_nil).2
  rw [List.length_nil, Nat.zero_add, List.nil_append] at h
  exact h

end Table

end AgentCompiler
