import Mathlib.Data.List.Find
import Mathlib.Data.List.Nodup
import AgentCompiler.Proofs.Text.Marker
import AgentCompiler.Proofs.Text.Pieces

/-!
# Filling in one pass

Markers are filled one name after the other, and a text that was put in is searched again for the names
that follow. Here the markers of a template are filled together, in one pass from left to right that
does not look into what is put in. The two agree for as long as the marker of the next name occurs as
often as it does in the template.
-/

namespace AgentCompiler.Text

variable {c : Char} {key value s u : List Char} {values : List (List Char × List Char)}

/-! ## One pass -/

/-- The first value whose marker a text starts with. -/
def entryAt? (values : List (List Char × List Char)) (s : List Char) :
    Option (List Char × List Char) :=
  values.find? fun e => (marker e.1).isPrefixOf s

/-- Fills all markers from left to right, where the next `skip` characters belong to a marker that has
been filled already. -/
def fillFrom (values : List (List Char × List Char)) : (skip : Nat) → List Char → List Char
  | _, [] => []
  | skip + 1, _ :: cs => fillFrom values skip cs
  | 0, c :: cs =>
    match entryAt? values (c :: cs) with
    | some (key, value) => value ++ fillFrom values ((marker key).length - 1) cs
    | none => c :: fillFrom values 0 cs

/-- The markers of a template filled in one pass that does not look into what is put in. -/
def fillOnceChars (template : List Char) (values : List (List Char × List Char)) : List Char :=
  fillFrom values 0 template

/-- The markers of a template filled in one pass that does not look into what is put in. -/
def fillOnce (template : String) (values : List (String × String)) : String :=
  .ofList (fillOnceChars template.toList (values.map fun (k, v) => (k.toList, v.toList)))

/-- Values with distinct names, none of which holds a brace. -/
structure Keyed (values : List (List Char × List Char)) : Prop where
  nodup : (values.map Prod.fst).Nodup
  braceless : ∀ e ∈ values, Braceless e.1

theorem entryAt?_eq_none : entryAt? values s = none ↔ ∀ e ∈ values, ¬marker e.1 <+: s := by
  simp [entryAt?, List.find?_eq_none]

theorem entryAt?_eq_some {e : List Char × List Char} (h : entryAt? values s = some e) :
    e ∈ values ∧ marker e.1 <+: s := by
  rw [entryAt?] at h
  have hp := List.find?_some h
  exact ⟨List.mem_of_find?_eq_some h, List.isPrefixOf_iff_prefix.mp hp⟩

/-- At a marker its own value is found. -/
theorem entryAt?_marker (hvalues : Keyed values) (hmem : (key, value) ∈ values) :
    entryAt? values (marker key ++ s) = some (key, value) := by
  cases hfind : entryAt? values (marker key ++ s) with
  | none => exact absurd (List.prefix_append _ s) (entryAt?_eq_none.mp hfind _ hmem)
  | some e =>
      obtain ⟨he, hp⟩ := entryAt?_eq_some hfind
      have hkey := key_eq_of_starts (hvalues.braceless e he) (hvalues.braceless _ hmem) hp
      rw [List.inj_on_of_nodup_map hvalues.nodup he hmem hkey]

/-- What follows does not matter when no marker runs into it. -/
theorem entryAt?_append (hu : u ≠ []) (h : ∀ e ∈ values, Uncrossed (marker e.1) s) :
    entryAt? values (u ++ s) = entryAt? values u := by
  refine List.find?_congr fun e he => ?_
  rw [Bool.eq_iff_iff, List.isPrefixOf_iff_prefix, List.isPrefixOf_iff_prefix]
  exact ⟨h e he u hu, fun hp => hp.trans (List.prefix_append u s)⟩

theorem fillOnceChars_nil_left : fillOnceChars [] values = [] := rfl

/-- A character at which no marker starts is kept. -/
theorem fillOnceChars_cons (h : ∀ e ∈ values, ¬marker e.1 <+: c :: s) :
    fillOnceChars (c :: s) values = c :: fillOnceChars s values := by
  rw [fillOnceChars, fillFrom, entryAt?_eq_none.mpr h]
  rfl

/-- Without values the template stays as it is. -/
theorem fillOnceChars_nil_right (s : List Char) : fillOnceChars s [] = s := by
  induction s with
  | nil => rfl
  | cons c s ih => rw [fillOnceChars_cons (List.forall_mem_nil _), ih]

theorem fillFrom_append (xs s : List Char) :
    fillFrom values xs.length (xs ++ s) = fillOnceChars s values := by
  induction xs with
  | nil => rfl
  | cons x xs ih => exact ih

/-- A marker with a value is filled. -/
theorem fillOnceChars_marker (hvalues : Keyed values) (hmem : (key, value) ∈ values) :
    fillOnceChars (marker key ++ s) values = value ++ fillOnceChars s values := by
  have hentry : entryAt? values ('{' :: ('{' :: key ++ ['}', '}'] ++ s)) = some (key, value) :=
    entryAt?_marker hvalues hmem
  show fillFrom values 0 ('{' :: ('{' :: key ++ ['}', '}'] ++ s)) = _
  rw [fillFrom, hentry]
  exact congrArg (value ++ ·) (fillFrom_append ('{' :: key ++ ['}', '}']) s)

/-- What stands before a text that no marker runs into is filled on its own. -/
theorem fillOnceChars_append (h : ∀ e ∈ values, Uncrossed (marker e.1) s) :
    fillOnceChars (u ++ s) values = fillOnceChars u values ++ fillOnceChars s values := by
  have hskip : ∀ skip ≤ u.length,
      fillFrom values skip (u ++ s) = fillFrom values skip u ++ fillOnceChars s values := by
    induction u with
    | nil =>
        intro skip hskip
        obtain rfl := Nat.le_zero.mp hskip
        rfl
    | cons c u ih =>
        intro skip hskip
        cases skip with
        | succ skip => exact ih skip (by simpa using hskip)
        | zero =>
            have hsame : entryAt? values (c :: (u ++ s)) = entryAt? values (c :: u) :=
              entryAt?_append (List.cons_ne_nil c u) h
            rw [List.cons_append, fillFrom, fillFrom, hsame]
            split
            · next key value hentry =>
                have hlength : (marker key).length ≤ (c :: u).length :=
                  (entryAt?_eq_some hentry).2.length_le
                rw [List.length_cons] at hlength
                rw [ih _ (by omega), List.append_assoc]
            · rw [ih 0 (Nat.zero_le _), List.cons_append]
  exact hskip 0 (Nat.zero_le _)

/-- No marker starts in a text in which no brace opens. -/
theorem fillOnceChars_append_of_notMem (hu : '{' ∉ u) :
    fillOnceChars (u ++ s) values = u ++ fillOnceChars s values := by
  induction u with
  | nil => rfl
  | cons c u ih =>
      rw [List.mem_cons, not_or] at hu
      rw [List.cons_append, fillOnceChars_cons fun e _ => not_marker_prefix_cons (Ne.symm hu.1),
        ih hu.2, List.cons_append]

/-- A marker without a value stays. -/
theorem fillOnceChars_marker_of_notMem (hkey : Braceless key) (hvalues : Keyed values)
    (hmem : key ∉ values.map Prod.fst) :
    fillOnceChars (marker key ++ s) values = marker key ++ fillOnceChars s values := by
  have hname : '{' ∉ key ++ ['}', '}'] := by simpa using hkey.left
  have hfirst : ∀ e ∈ values, ¬marker e.1 <+: '{' :: '{' :: (key ++ ['}', '}'] ++ s) := by
    intro e he hp
    refine hmem (List.mem_map.mpr ⟨e, he, ?_⟩)
    exact key_eq_of_starts (hvalues.braceless e he) hkey hp
  have hsecond : ∀ e ∈ values, ¬marker e.1 <+: '{' :: (key ++ ['}', '}'] ++ s) := by
    intro e _
    simpa using not_marker_prefix_inner hkey
  show fillOnceChars ('{' :: '{' :: (key ++ ['}', '}'] ++ s)) values = _
  rw [fillOnceChars_cons hfirst, fillOnceChars_cons hsecond, fillOnceChars_append_of_notMem hname]
  rfl

/-- One more value makes no difference to a text without its marker. -/
theorem fillOnceChars_concat (h : ¬marker key <:+: s) :
    fillOnceChars s (values ++ [(key, value)]) = fillOnceChars s values := by
  have hskip : ∀ skip, fillFrom (values ++ [(key, value)]) skip s = fillFrom values skip s := by
    induction s with
    | nil =>
        intro skip
        rfl
    | cons c s ih =>
        rw [List.infix_cons_iff, not_or] at h
        intro skip
        cases skip with
        | succ skip => exact ih h.2 skip
        | zero =>
            have hlast : entryAt? [(key, value)] (c :: s) = none := by
              simpa [entryAt?_eq_none] using h.1
            have hsame : entryAt? (values ++ [(key, value)]) (c :: s) = entryAt? values (c :: s) := by
              rw [entryAt?, List.find?_append]
              exact (congrArg _ hlast).trans (Option.or_none)
            rw [fillFrom, fillFrom, hsame]
            simp only [ih h.2]
  exact hskip 0

/-! ## One step of the filling -/

/-- Replacing one marker is a pass with one value. -/
theorem replaceAll_marker (key value s : List Char) :
    replaceAll (marker key) value s = fillOnceChars s [(key, value)] := by
  have hskip : ∀ skip, replaceFrom (marker key) value skip s = fillFrom [(key, value)] skip s := by
    induction s with
    | nil =>
        intro skip
        cases skip <;> rfl
    | cons c s ih =>
        intro skip
        cases skip with
        | succ skip => exact ih skip
        | zero =>
            by_cases hp : (marker key).isPrefixOf (c :: s)
            · have hentry : entryAt? [(key, value)] (c :: s) = some (key, value) := by
                simp only [entryAt?, List.find?_cons, hp]
              rw [replaceFrom, fillFrom, if_pos hp, hentry]
              exact congrArg (value ++ ·) (ih _)
            · have hentry : entryAt? [(key, value)] (c :: s) = none := by
                simp only [entryAt?, List.find?_cons, hp, List.find?_nil]
              rw [replaceFrom, fillFrom, if_neg hp, hentry]
              exact congrArg (c :: ·) (ih 0)
  exact hskip 0

/-- No marker starts in a text in which no brace opens. -/
theorem replaceAll_append_of_notMem (hu : '{' ∉ u) :
    replaceAll (marker key) value (u ++ s) = u ++ replaceAll (marker key) value s := by
  rw [replaceAll_marker, fillOnceChars_append_of_notMem hu, ← replaceAll_marker]

/-- What stands before the first marker stays. -/
theorem fillChars_append_of_notMem (hu : '{' ∉ u) : fillChars (u ++ s) values = u ++ fillChars s values := by
  induction values generalizing s with
  | nil => rfl
  | cons e values ih =>
      show fillChars (replaceAll (marker e.1) e.2 (u ++ s)) values =
        u ++ fillChars (replaceAll (marker e.1) e.2 s) values
      rw [replaceAll_append_of_notMem hu, ih]

theorem replaceAll_append_marker (hkey : Braceless key) (u s : List Char) :
    replaceAll (marker key) value (u ++ (marker key ++ s)) =
      replaceAll (marker key) value u ++ (value ++ replaceAll (marker key) value s) := by
  have happend : fillOnceChars (u ++ (marker key ++ s)) [(key, value)] =
      fillOnceChars u [(key, value)] ++ fillOnceChars (marker key ++ s) [(key, value)] :=
    fillOnceChars_append (by simpa using uncrossed_marker hkey)
  rw [replaceAll_marker, happend, ← replaceAll_marker, ← replaceAll_marker,
    replaceAll_append marker_ne_nil]

/-- A replacement changes the length by the same number at each occurrence. -/
theorem length_replaceAll (hkey : Braceless key) (value s : List Char) :
    (replaceAll (marker key) value s).length + occurrences (marker key) s * (marker key).length =
      s.length + occurrences (marker key) s * value.length := by
  induction split_marker key s with
  | last s h => rw [Text.replaceAll_of_not_infix h, (occurrences_eq_zero marker_ne_nil).mpr h]; simp
  | more u s h _ ih =>
      rw [replaceAll_append_marker hkey, Text.replaceAll_of_not_infix h,
        occurrences_append (uncrossed_marker hkey), occurrences_marker_append hkey,
        (occurrences_eq_zero marker_ne_nil).mpr h]
      simp only [List.length_append, Nat.zero_add, Nat.add_mul, Nat.one_mul]
      omega

/-- Replacing a marker changes a text that holds it, unless it is replaced by itself. -/
theorem replaceAll_eq_self_iff (hkey : Braceless key) :
    replaceAll (marker key) value s = s ↔ value = marker key ∨ occurrences (marker key) s = 0 := by
  constructor
  · intro hself
    rw [or_iff_not_imp_right]
    intro hoccurs
    have hlength := length_replaceAll hkey value s
    rw [hself] at hlength
    have hsame : (marker key).length = value.length :=
      Nat.eq_of_mul_eq_mul_left (Nat.pos_of_ne_zero hoccurs) (Nat.add_left_cancel hlength)
    have hin : marker key <:+: s := by
      by_contra hno
      exact hoccurs ((occurrences_eq_zero marker_ne_nil).mpr hno)
    obtain ⟨before, after, rfl, hbefore, hreplace⟩ := exists_first marker_ne_nil hin
    rw [hreplace, List.append_assoc, List.append_assoc] at hself
    exact (List.append_inj (List.append_cancel_left hself) hsame.symm).1
  · rintro (rfl | hno)
    · induction split_marker key s with
      | last s h => rw [Text.replaceAll_of_not_infix h]
      | more u s h _ ih => rw [replaceAll_append_marker hkey, Text.replaceAll_of_not_infix h, ih]
    · exact Text.replaceAll_of_not_infix ((occurrences_eq_zero marker_ne_nil).mp hno)

section

variable (hvalues : Keyed (values ++ [(key, value)]))
include hvalues

theorem Keyed.init : Keyed values := by
  refine ⟨?_, fun e he => hvalues.braceless e (List.mem_append_left _ he)⟩
  have hnodup := hvalues.nodup
  rw [List.map_append] at hnodup
  exact (List.nodup_append.mp hnodup).1

theorem Keyed.braceless_last : Braceless key :=
  hvalues.braceless (key, value) (List.mem_append_right _ List.mem_cons_self)

theorem Keyed.last_notMem : key ∉ values.map Prod.fst := by
  have hnodup := hvalues.nodup
  rw [List.map_append, List.map_singleton, List.nodup_append] at hnodup
  intro hmem
  exact hnodup.2.2 key hmem key (List.mem_singleton_self key) rfl

/-- The pass without the value, on a text that is split at a marker. -/
theorem fillOnceChars_more (u s : List Char) :
    fillOnceChars (u ++ (marker key ++ s)) values =
      fillOnceChars u values ++ (marker key ++ fillOnceChars s values) := by
  rw [fillOnceChars_append fun e he => uncrossed_marker (hvalues.init.braceless e he),
    fillOnceChars_marker_of_notMem hvalues.braceless_last hvalues.init hvalues.last_notMem]

/-- The pass with the value, on a text that is split at a marker. -/
theorem fillOnceChars_concat_more (h : ¬marker key <:+: u) (s : List Char) :
    fillOnceChars (u ++ (marker key ++ s)) (values ++ [(key, value)]) =
      fillOnceChars u values ++ (value ++ fillOnceChars s (values ++ [(key, value)])) := by
  rw [fillOnceChars_append fun e he => uncrossed_marker (hvalues.braceless e he),
    fillOnceChars_marker hvalues (List.mem_append_right _ (List.mem_singleton_self _)),
    fillOnceChars_concat h]

theorem occurrences_fillOnceChars_more (h : ¬marker key <:+: u) (s : List Char) :
    occurrences (marker key) (fillOnceChars (u ++ (marker key ++ s)) values) =
        occurrences (marker key) (fillOnceChars u values) +
          (1 + occurrences (marker key) (fillOnceChars s values)) ∧
      occurrences (marker key) (u ++ (marker key ++ s)) = 1 + occurrences (marker key) s := by
  have hkey := hvalues.braceless_last
  rw [fillOnceChars_more hvalues, occurrences_append (uncrossed_marker hkey),
    occurrences_marker_append hkey, occurrences_append (uncrossed_marker hkey),
    occurrences_marker_append hkey, (occurrences_eq_zero marker_ne_nil).mpr h, Nat.zero_add]
  exact ⟨rfl, rfl⟩

/-- What is put in for other names leaves the markers of a name. -/
theorem occurrences_le_fillOnceChars (s : List Char) :
    occurrences (marker key) s ≤ occurrences (marker key) (fillOnceChars s values) := by
  induction split_marker key s with
  | last s h =>
      rw [(occurrences_eq_zero marker_ne_nil).mpr h]
      exact Nat.zero_le _
  | more u s h _ ih =>
      obtain ⟨hfilled, htemplate⟩ := occurrences_fillOnceChars_more hvalues h s
      omega

/-- A value that takes the place of a marker brings in the markers that it holds. -/
theorem not_infix_of_occurrences_eq {e : List Char × List Char} (he : e ∈ values)
    (hin : marker e.1 <:+: s)
    (h : occurrences (marker key) (fillOnceChars s values) = occurrences (marker key) s) :
    ¬marker key <:+: e.2 := by
  obtain ⟨before, after, rfl⟩ := hin
  have hbraceless := hvalues.init.braceless e he
  have hne : key ≠ e.1 := by
    rintro rfl
    exact hvalues.last_notMem (List.mem_map.mpr ⟨e, he, rfl⟩)
  rw [List.append_assoc, occurrences_append (uncrossed_marker hvalues.braceless_last),
    occurrences_marker_append_of_ne hvalues.braceless_last hbraceless hne,
    fillOnceChars_append fun e' he' => uncrossed_marker (hvalues.init.braceless e' he'),
    fillOnceChars_marker hvalues.init he] at h
  have hbefore := occurrences_le_fillOnceChars hvalues before
  have hafter := occurrences_le_fillOnceChars hvalues after
  have hparts := add_occurrences_le (marker key) (fillOnceChars before values)
    (e.2 ++ fillOnceChars after values)
  have hparts' := add_occurrences_le (marker key) e.2 (fillOnceChars after values)
  rw [← occurrences_eq_zero marker_ne_nil]
  omega

/-- One more value changes the length of a filled text at each marker of the template. -/
theorem length_fillOnceChars_concat (s : List Char) :
    (fillOnceChars s (values ++ [(key, value)])).length +
        occurrences (marker key) s * (marker key).length =
      (fillOnceChars s values).length + occurrences (marker key) s * value.length := by
  induction split_marker key s with
  | last s h => rw [fillOnceChars_concat h, (occurrences_eq_zero marker_ne_nil).mpr h]; simp
  | more u s h _ ih =>
      rw [fillOnceChars_concat_more hvalues h, fillOnceChars_more hvalues,
        (occurrences_fillOnceChars_more hvalues h s).2]
      simp only [List.length_append, Nat.add_mul, Nat.one_mul]
      omega

/-- After a pass with some values, replacing one more marker is a pass with one more value exactly when
the marker is replaced by itself, or occurs as often as in the template. -/
theorem replaceAll_fillOnceChars_iff (s : List Char) :
    replaceAll (marker key) value (fillOnceChars s values) =
        fillOnceChars s (values ++ [(key, value)]) ↔
      value = marker key ∨
        occurrences (marker key) (fillOnceChars s values) = occurrences (marker key) s := by
  have hkey := hvalues.braceless_last
  induction split_marker key s with
  | last s h =>
      rw [fillOnceChars_concat h, (occurrences_eq_zero marker_ne_nil).mpr h,
        replaceAll_eq_self_iff hkey]
  | more u s h _ ih =>
      obtain ⟨hfilled, htemplate⟩ := occurrences_fillOnceChars_more hvalues h s
      have hmore := occurrences_le_fillOnceChars hvalues s
      have hlast : replaceAll (marker key) value (fillOnceChars u values) = fillOnceChars u values ↔ _ :=
        replaceAll_eq_self_iff hkey
      rw [hfilled, htemplate, fillOnceChars_more hvalues, fillOnceChars_concat_more hvalues h,
        replaceAll_append_marker hkey]
      constructor
      · intro heq
        by_cases hsame : value.length = (marker key).length
        · -- The parts of both texts have the same lengths.
          have hlength := length_replaceAll hkey value (fillOnceChars u values)
          rw [hsame] at hlength
          obtain ⟨hbefore, hafter⟩ := List.append_inj heq (Nat.add_right_cancel hlength)
          have hbefore := hlast.mp hbefore
          have hafter := ih.mp (List.append_cancel_left hafter)
          rcases hbefore with hvalue | hbefore
          · exact .inl hvalue
          rcases hafter with hvalue | hafter
          · exact .inl hvalue
          · exact .inr (by omega)
        · -- Each further occurrence would change the length.
          have hlength := congrArg List.length heq
          have hbefore := length_replaceAll hkey value (fillOnceChars u values)
          have hafter := length_replaceAll hkey value (fillOnceChars s values)
          have htotal := length_fillOnceChars_concat hvalues s
          obtain ⟨further, hfurther⟩ := Nat.le.dest hmore
          rw [← hfurther] at hafter ⊢
          simp only [List.length_append, Nat.add_mul] at hlength hafter
          have hnone : (occurrences (marker key) (fillOnceChars u values) + further) *
              (marker key).length =
                (occurrences (marker key) (fillOnceChars u values) + further) * value.length := by
            simp only [Nat.add_mul]
            omega
          rcases Nat.eq_zero_or_pos (occurrences (marker key) (fillOnceChars u values) + further) with
            hzero | hpos
          · exact .inr (by omega)
          · exact absurd (Nat.eq_of_mul_eq_mul_left hpos hnone).symm hsame
      · rintro (hvalue | hoccurs)
        · rw [hlast.mpr (.inl hvalue), ih.mpr (.inl hvalue)]
        · rw [hlast.mpr (.inr (by omega)), ih.mpr (.inr (by omega))]

end

/-! ## The whole filling -/

/-- Filling some values changes how often the marker of a further name occurs. -/
def BringsIn (template : String) (values : List (String × String)) (key : String) : Prop :=
  occurrences (marker key.toList) (fillOnce template values).toList ≠
    occurrences (marker key.toList) template.toList

instance (template : String) (values : List (String × String)) (key : String) :
    Decidable (BringsIn template values key) :=
  inferInstanceAs (Decidable (_ ≠ _))

theorem fillChars_take_succ {n : Nat} (hn : values[n]? = some (key, value)) (template : List Char) :
    fillChars template (values.take (n + 1)) =
      replaceAll (marker key) value (fillChars template (values.take n)) := by
  rw [List.take_add_one, hn]
  exact List.foldl_concat ..

theorem Keyed.take (hvalues : Keyed values) (n : Nat) : Keyed (values.take n) := by
  refine ⟨?_, fun e he => hvalues.braceless e (List.mem_of_mem_take he)⟩
  rw [List.map_take]
  exact hvalues.nodup.sublist (List.take_sublist n _)

/-- Filling one name after the other is the same as one pass, for every number of names, exactly when no
marker that is still to be filled is brought in. -/
theorem fillChars_eq_fillOnceChars_iff (hvalues : Keyed values) (template : List Char) :
    (∀ n, fillChars template (values.take n) = fillOnceChars template (values.take n)) ↔
      ∀ n key value, values[n]? = some (key, value) → value = marker key ∨
        occurrences (marker key) (fillOnceChars template (values.take n)) =
          occurrences (marker key) template := by
  have hnext {n : Nat} {key value : List Char} (hn : values[n]? = some (key, value)) :
      values.take (n + 1) = values.take n ++ [(key, value)] := by
    rw [List.take_add_one, hn, Option.toList_some]
  have hkeyed {n : Nat} {key value : List Char} (hn : values[n]? = some (key, value)) :
      Keyed (values.take n ++ [(key, value)]) := by
    rw [← hnext hn]
    exact hvalues.take (n + 1)
  constructor
  · intro hsame n key value hn
    refine (replaceAll_fillOnceChars_iff (hkeyed hn) template).mp ?_
    rw [← hsame n, ← fillChars_take_succ hn, ← hnext hn]
    exact hsame (n + 1)
  · intro hstep n
    induction n with
    | zero =>
        rw [List.take_zero, fillOnceChars_nil_right]
        rfl
    | succ n ih =>
        cases hn : values[n]? with
        | none =>
            rw [List.take_add_one, hn]
            simpa using ih
        | some e =>
            rw [fillChars_take_succ hn, hnext hn, ih]
            exact (replaceAll_fillOnceChars_iff (hkeyed hn) template).mpr (hstep n e.1 e.2 hn)

/-! ## Templates with room around their markers -/

/-- A character of a plain name. -/
def isPlainChar (c : Char) : Bool := c.isLower || c == '_'

/-- A character that markers with plain names are made of. -/
def isMarkerChar (c : Char) : Bool := isPlainChar c || c == '{' || c == '}'

/-- Every word of a template between other characters is a marker, or has no two braces that open side by
side. -/
def Spaced (keys : List (List Char)) (template : List Char) : Prop :=
  ∀ word ∈ template.splitOnP (!isMarkerChar ·), ¬['{', '{'] <:+: word ∨ word ∈ keys.map marker

instance (keys : List (List Char)) (template : List Char) : Decidable (Spaced keys template) :=
  inferInstanceAs (Decidable (∀ word ∈ template.splitOnP (!isMarkerChar ·),
    ¬['{', '{'] <:+: word ∨ word ∈ keys.map marker))

/-- A text in which no brace opens has no markers that would need room. -/
theorem spaced_of_notMem {keys : List (List Char)} (h : '{' ∉ s) : Spaced keys s := by
  intro word hword
  refine .inl fun hin => h ?_
  exact mem_of_mem_splitOnP hword _ (hin.subset List.mem_cons_self)

/-- A template is checked line by line. -/
theorem spaced_joinLines {keys ls : List (List Char)} (h : ∀ l ∈ ls, Spaced keys l) :
    Spaced keys (joinLines ls) := by
  induction ls with
  | nil => exact spaced_of_notMem List.not_mem_nil
  | cons l ls ih =>
      rw [List.forall_mem_cons] at h
      cases ls with
      | nil =>
          rw [joinLines, List.intercalate_singleton]
          exact h.1
      | cons l' ls =>
          intro word hword
          rw [joinLines_cons_cons, List.splitOnP_append_cons _ _ rfl, List.mem_append] at hword
          rcases hword with hword | hword
          · exact h.1 word hword
          · exact ih h.2 word hword

/-- Distinct plain names, whose markers stand in a template and have room around them. -/
structure Fits (keys : List (List Char)) (template : List Char) : Prop where
  nodup : keys.Nodup
  plain : ∀ key ∈ keys, key.all isPlainChar
  used : ∀ key ∈ keys, marker key <:+: template
  spaced : Spaced keys template

/-- Names and lines that are given as literals fit when their characters do. -/
theorem fits_ofLines {ks ls : List String} {keys lines : List (List Char)}
    (hkeys : List.Forall₂ (fun s c => s = .ofList c) ks keys)
    (hlines : List.Forall₂ (fun s c => s = .ofList c) ls lines) (hnodup : keys.Nodup)
    (hplain : ∀ key ∈ keys, key.all isPlainChar)
    (hused : ∀ key ∈ keys, ∃ l ∈ lines, marker key <:+: l)
    (hspaced : ∀ l ∈ lines, l.all (· != '{') ∨ Spaced keys l) :
    Fits (ks.map String.toList) (ofLines ls).toList := by
  rw [map_toList_of_forall₂ hkeys, toList_ofLines, map_toList_of_forall₂ hlines]
  refine ⟨hnodup, hplain, fun key hkey => ?_, spaced_joinLines fun l hl => ?_⟩
  · obtain ⟨l, hl, hin⟩ := hused key hkey
    exact hin.trans (infix_joinLines hl)
  · rcases hspaced l hl with hnone | hline
    · exact spaced_of_notMem fun hmem => absurd (List.all_eq_true.mp hnone _ hmem) (by decide)
    · exact hline

namespace Fits

variable {keys : List (List Char)} {template : List Char} (h : Fits keys template)
include h

theorem isPlainChar_of_mem (hkey : key ∈ keys) (hc : c ∈ key) : isPlainChar c = true :=
  List.all_eq_true.mp (h.plain key hkey) c hc

theorem braceless (hkey : key ∈ keys) : Braceless key :=
  ⟨fun hmem => absurd (h.isPlainChar_of_mem hkey hmem) (by decide),
    fun hmem => absurd (h.isPlainChar_of_mem hkey hmem) (by decide)⟩

theorem isMarkerChar_of_mem (hkey : key ∈ keys) : ∀ c ∈ marker key, isMarkerChar c := by
  intro c hc
  simp only [marker, List.cons_append, List.mem_cons, List.mem_append, List.not_mem_nil,
    or_false] at hc
  rcases hc with rfl | rfl | hc | rfl | rfl
  · rfl
  · rfl
  · rw [isMarkerChar, h.isPlainChar_of_mem hkey hc]
    rfl
  · rfl
  · rfl

end Fits

/-- A text without markers stays as it is. -/
theorem fillOnceChars_of_absent (h : ∀ e ∈ values, ¬marker e.1 <:+: s) :
    fillOnceChars s values = s := by
  induction s with
  | nil => rfl
  | cons c s ih =>
      have hfirst (e) (he : e ∈ values) : ¬marker e.1 <+: c :: s := fun hp => h e he hp.isInfix
      rw [fillOnceChars_cons hfirst, ih fun e he hin => h e he (List.infix_cons hin)]

section

variable {keys : List (List Char)} (hvalues : Keyed (values ++ [(key, value)]))
  (hno : ∀ e ∈ values, ¬marker key <:+: e.2)
include hvalues hno

/-- A value that takes the place of a word brings in no marker that it does not hold. -/
theorem occurrences_fillOnceChars_word {word : List Char} (hkeys : ∀ key ∈ keys, Braceless key)
    (hword : ¬['{', '{'] <:+: word ∨ word ∈ keys.map marker) :
    occurrences (marker key) (fillOnceChars word values) = occurrences (marker key) word := by
  rcases hword with hword | hword
  · rw [fillOnceChars_of_absent fun e _ => not_marker_infix hword]
  · obtain ⟨key', hkey', rfl⟩ := List.mem_map.mp hword
    by_cases hin : key' ∈ values.map Prod.fst
    · obtain ⟨e, he, rfl⟩ := List.mem_map.mp hin
      have hle := occurrences_le_fillOnceChars hvalues (marker e.1)
      have hfill := fillOnceChars_marker (s := []) hvalues.init he
      rw [List.append_nil, fillOnceChars_nil_left, List.append_nil] at hfill
      rw [hfill, (occurrences_eq_zero marker_ne_nil).mpr (hno e he)] at hle ⊢
      omega
    · have hstay := fillOnceChars_marker_of_notMem (s := []) (hkeys key' hkey') hvalues.init hin
      rw [List.append_nil, fillOnceChars_nil_left, List.append_nil] at hstay
      rw [hstay]

/-- With room around the markers no value brings in a marker that it does not hold. -/
theorem occurrences_fillOnceChars_of_spaced (hmem : ∀ e ∈ values ++ [(key, value)], e.1 ∈ keys)
    (hkeys : ∀ key ∈ keys, Braceless key)
    (hchars : ∀ key ∈ keys, ∀ c ∈ marker key, isMarkerChar c) (hspaced : Spaced keys s) :
    occurrences (marker key) (fillOnceChars s values) = occurrences (marker key) s := by
  induction hlength : s.length using Nat.strong_induction_on generalizing s with
  | _ n ih =>
      have hword {word : List Char} (h : ¬['{', '{'] <:+: word ∨ word ∈ keys.map marker) :=
        occurrences_fillOnceChars_word hvalues hno hkeys h
      rcases splitOnP_cases (!isMarkerChar ·) s with hone | ⟨word, b, rest, rfl, hb, hsplit⟩
      · exact hword (hspaced s (by rw [hone]; exact List.mem_singleton_self s))
      rw [Spaced, hsplit, List.forall_mem_cons] at hspaced
      have hbrace : b ≠ '{' := by
        rintro rfl
        exact absurd hb (by decide)
      have hout (k : List Char) (hk : k ∈ keys) : b ∉ marker k := by
        intro hin
        rw [hchars k hk b hin] at hb
        cases hb
      have hkey := hout key (hmem _ (List.mem_append_right _ (List.mem_singleton_self _)))
      have hpass (t : List Char) : occurrences (marker key) (b :: t) = occurrences (marker key) t := by
        rw [occurrences, if_neg (not_marker_prefix_cons hbrace), Nat.zero_add]
      have hrest := ih rest.length (by simp at hlength; omega) hspaced.2 rfl
      rw [fillOnceChars_append fun e he =>
          uncrossed_cons (hout e.1 (hmem e (List.mem_append_left _ he))),
        fillOnceChars_cons fun e _ => not_marker_prefix_cons hbrace,
        occurrences_append (uncrossed_cons hkey), occurrences_append (uncrossed_cons hkey),
        hpass, hpass, hword hspaced.1, hrest]

end

/-- Into a template that the names fit, values bring in just the markers that they hold. -/
theorem Fits.occurrences_fillOnceChars_iff {keys : List (List Char)} {template : List Char}
    (hfits : Fits keys template) (hvalues : Keyed (values ++ [(key, value)]))
    (hmem : ∀ e ∈ values ++ [(key, value)], e.1 ∈ keys) :
    occurrences (marker key) (fillOnceChars template values) = occurrences (marker key) template ↔
      ∀ e ∈ values, ¬marker key <:+: e.2 := by
  constructor
  · intro hsame e he
    have hin := hfits.used e.1 (hmem e (List.mem_append_left _ he))
    exact not_infix_of_occurrences_eq hvalues he hin hsame
  · intro hno
    exact occurrences_fillOnceChars_of_spaced hvalues hno hmem (fun k hk => hfits.braceless hk)
      (fun k hk => hfits.isMarkerChar_of_mem hk) hfits.spaced

/-- Pairs of elements, by the position of the later one. -/
theorem pairwise_iff_take {α : Type} {R : α → α → Prop} {l : List α} :
    l.Pairwise R ↔ ∀ n b, l[n]? = some b → ∀ a ∈ l.take n, R a b := by
  rw [List.pairwise_iff_getElem]
  constructor
  · intro h n b hb a ha
    obtain ⟨hn, rfl⟩ := List.getElem?_eq_some_iff.mp hb
    obtain ⟨i, hi, rfl⟩ := List.mem_take_iff_getElem.mp ha
    exact h i n (by omega) hn (by omega)
  · intro h i j hi hj hij
    refine h j l[j] (List.getElem?_eq_getElem hj) l[i] ?_
    exact List.mem_take_iff_getElem.mpr ⟨i, by omega, rfl⟩

/-- Into a template that the names fit, filling one name after the other is one pass for every number of
names exactly when no value holds the marker of a later one. -/
theorem fillChars_iff_of_fits {template : List Char} (hfits : Fits (values.map Prod.fst) template) :
    (∀ n, fillChars template (values.take n) = fillOnceChars template (values.take n)) ↔
      values.Pairwise fun e later => later.2 = marker later.1 ∨ ¬marker later.1 <:+: e.2 := by
  have hvalues : Keyed values :=
    ⟨hfits.nodup, fun e he => hfits.braceless (List.mem_map.mpr ⟨e, he, rfl⟩)⟩
  rw [fillChars_eq_fillOnceChars_iff hvalues, pairwise_iff_take]
  refine forall_congr' fun n => ?_
  rw [Prod.forall]
  refine forall₃_congr fun key value hn => ?_
  have hnext : values.take (n + 1) = values.take n ++ [(key, value)] := by
    rw [List.take_add_one, hn, Option.toList_some]
  have hkeyed := hvalues.take (n + 1)
  rw [hnext] at hkeyed
  have hmem : ∀ e ∈ values.take n ++ [(key, value)], e.1 ∈ values.map Prod.fst := by
    intro e he
    rw [← hnext] at he
    exact List.mem_map.mpr ⟨e, List.mem_of_mem_take he, rfl⟩
  rw [hfits.occurrences_fillOnceChars_iff hkeyed hmem]
  constructor
  · intro h e he
    exact h.imp_right fun hno => hno e he
  · intro h
    by_cases hself : value = marker key
    · exact .inl hself
    · exact .inr fun e he => (h e he).resolve_left hself

/-! ## Texts -/

section

variable {template : String} {values : List (String × String)}

/-- Values as lists of characters. -/
def toChars (values : List (String × String)) : List (List Char × List Char) :=
  values.map fun (k, v) => (k.toList, v.toList)

theorem toList_fill : (fill template values).toList = fillChars template.toList (toChars values) := by
  rw [fill, String.toList_ofList]
  rfl

/-- The last value takes the place of its marker in what the others make of the template. -/
theorem fillChars_concat (s : List Char) (values : List (String × String)) (key value : String) :
    fillChars s (toChars (values ++ [(key, value)])) =
      replaceAll (marker key.toList) value.toList (fillChars s (toChars values)) := by
  rw [toChars, List.map_append, fillChars, List.foldl_append]
  rfl

/-- The first value takes the place of its marker in the template. -/
theorem fillChars_cons (s : List Char) (values : List (String × String)) (key value : String) :
    fillChars s (toChars ((key, value) :: values)) =
      fillChars (replaceAll (marker key.toList) value.toList s) (toChars values) := rfl

theorem fillChars_nil (s : List Char) : fillChars s (toChars []) = s := rfl

theorem fill_eq_fillOnce_iff : fill template values = fillOnce template values ↔
    fillChars template.toList (toChars values) = fillOnceChars template.toList (toChars values) :=
  String.ofList_inj

/-- Every value that is filled reaches the text as it is: after any number of values, filling one name
after the other is one pass. -/
def Verbatim (template : String) (values : List (String × String)) : Prop :=
  ∀ n, fill template (values.take n) = fillOnce template (values.take n)

theorem Verbatim.fill_eq (h : Verbatim template values) :
    fill template values = fillOnce template values := by
  have hall := h values.length
  rwa [List.take_length] at hall

theorem verbatim_iff_fillChars : Verbatim template values ↔ ∀ n,
    fillChars template.toList ((toChars values).take n) =
      fillOnceChars template.toList ((toChars values).take n) := by
  have htake (n : Nat) : toChars (values.take n) = (toChars values).take n := List.map_take
  simp only [Verbatim, fill_eq_fillOnce_iff, htake]

theorem map_fst_toChars : (toChars values).map Prod.fst = (values.map Prod.fst).map String.toList := by
  rw [toChars, List.map_map, List.map_map]
  rfl

/-- One value is always filled as it is, so that two are when both together are. -/
theorem verbatim_pair_iff {e e' : String × String} :
    Verbatim template [e, e'] ↔ fill template [e, e'] = fillOnce template [e, e'] := by
  refine ⟨Verbatim.fill_eq, fun h n => ?_⟩
  match n with
  | 0 => exact fill_eq_fillOnce_iff.mpr (fillOnceChars_nil_right _).symm
  | 1 => exact fill_eq_fillOnce_iff.mpr (replaceAll_marker ..)
  | n + 2 => rwa [List.take_of_length_le (Nat.le_add_left 2 n)]

/-- Filling one name after the other is the same as one pass, for every number of names, exactly when no
marker that is still to be filled is brought in. -/
theorem verbatim_iff (hnodup : (values.map Prod.fst).Nodup)
    (hbraceless : ∀ e ∈ values, Braceless e.1.toList) :
    Verbatim template values ↔ ∀ n key value, values[n]? = some (key, value) →
      value.toList = marker key.toList ∨ ¬BringsIn template (values.take n) key := by
  have hvalues : Keyed (toChars values) := by
    refine ⟨?_, fun e he => ?_⟩
    · rw [map_fst_toChars]
      exact hnodup.map fun _ _ => String.toList_injective
    · obtain ⟨e, hmem, rfl⟩ := List.mem_map.mp he
      exact hbraceless e hmem
  have hget (n : Nat) : (toChars values)[n]? = values[n]?.map fun (k, v) => (k.toList, v.toList) :=
    List.getElem?_map
  rw [verbatim_iff_fillChars, fillChars_eq_fillOnceChars_iff hvalues]
  simp only [hget]
  have hbrings (n : Nat) (key : String) : ¬BringsIn template (values.take n) key ↔
      occurrences (marker key.toList) (fillOnceChars template.toList ((toChars values).take n)) =
        occurrences (marker key.toList) template.toList := by
    rw [BringsIn, not_not, fillOnce, String.toList_ofList, List.map_take]
    rfl
  simp only [hbrings]
  constructor
  · intro h n key value hn
    exact h n key.toList value.toList (by rw [hn]; rfl)
  · intro h n key value hn
    obtain ⟨⟨k, v⟩, hkv, heq⟩ := Option.map_eq_some_iff.mp hn
    cases heq
    exact h n k v hkv

/-- Into a template that the names fit, values are filled as they are exactly when none of them holds the
marker of a later one. -/
theorem verbatim_iff_of_fits
    (hfits : Fits ((values.map Prod.fst).map String.toList) template.toList) :
    Verbatim template values ↔ values.Pairwise fun e later =>
      later.2.toList = marker later.1.toList ∨ ¬marker later.1.toList <:+: e.2.toList := by
  rw [← map_fst_toChars] at hfits
  rw [verbatim_iff_fillChars, fillChars_iff_of_fits hfits, toChars, List.pairwise_map]

end

end AgentCompiler.Text
