import Mathlib.Data.List.Forall2
import AgentCompiler.Proofs.Json.Reader
import AgentCompiler.Proofs.Text.Utf8

/-!
# Canonical JSON

The canonical text of a value is the text of the one value like it that has its keys in order. Sorting
takes two values to one exactly when they differ in nothing but the order of their keys
(`sorted_eq_iff_alike`), and the text of a sorted value is read as this value; so the text tells two values
apart exactly when they are not alike, and what is read from it is like the value and in order.
-/

namespace AgentCompiler.Json

/-! ## Values up to the order of their keys -/

/-- Two values are equal up to the order of the keys at every depth, with their numbers compared by
text. -/
inductive Alike : Json → Json → Prop
  | null : Alike .null .null
  | bool (b : Bool) : Alike (.bool b) (.bool b)
  | num {m n : Number} (h : m.text = n.text) : Alike (.num m) (.num n)
  | str (s : String) : Alike (.str s) (.str s)
  | arr {xs ys : List Json} (hlength : xs.length = ys.length)
      (h : ∀ v w, (v, w) ∈ xs.zip ys → Alike v w) : Alike (.arr xs) (.arr ys)
  | obj {ms ns : Members} (hkeys : (ms.map Prod.fst).Perm (ns.map Prod.fst))
      (h : ∀ key v w, (key, v) ∈ ms → (key, w) ∈ ns → Alike v w) : Alike (.obj ms) (.obj ns)

/-- The keys of every object stand in the order of their bytes, at every depth, and none stands
twice. -/
inductive Ordered : Json → Prop
  | null : Ordered .null
  | bool (b : Bool) : Ordered (.bool b)
  | num (n : Number) : Ordered (.num n)
  | str (s : String) : Ordered (.str s)
  | arr {items : List Json} (h : ∀ v ∈ items, Ordered v) : Ordered (.arr items)
  | obj {members : Members} (hkeys : (members.map fun m => Text.utf8 m.1).Pairwise (· < ·))
      (h : ∀ m ∈ members, Ordered m.2) : Ordered (.obj members)

variable {v w : Json} {xs ys items : List Json} {ms ns members : Members}

/-! ## Sorting members -/

theorem sortedItems_eq_map (items : List Json) : sortedItems items = items.map sorted := by
  induction items with
  | nil => rfl
  | cons v items ih => rw [sortedItems, ih, List.map_cons]

/-- A member whose value is sorted inside. -/
def sortMember (m : String × Json) : String × Json := (m.1, m.2.sorted)

theorem sortedMembers_eq_map (ms : Members) : sortedMembers ms = ms.map sortMember := by
  induction ms with
  | nil => rfl
  | cons m ms ih => rw [sortedMembers, ih, List.map_cons, sortMember]

/-- The members of an object in the order of their keys, each sorted inside. -/
def sortMembers (ms : Members) : Members :=
  (ms.map sortMember).mergeSort fun m n => decide (m.1 ≤ n.1)

theorem sorted_arr (items : List Json) : (Json.arr items).sorted = .arr (items.map sorted) := by
  rw [sorted, sortedItems_eq_map]

theorem sorted_obj (ms : Members) : (Json.obj ms).sorted = .obj (sortMembers ms) := by
  rw [sorted, sortedMembers_eq_map, sortMembers]

theorem perm_sortMembers (ms : Members) : (sortMembers ms).Perm (ms.map sortMember) :=
  List.mergeSort_perm _ _

theorem keys_sortMembers (ms : Members) :
    ((sortMembers ms).map Prod.fst).Perm (ms.map Prod.fst) := by
  have hkeys : (ms.map sortMember).map Prod.fst = ms.map Prod.fst := by
    rw [List.map_map]
    rfl
  exact hkeys ▸ (perm_sortMembers ms).map Prod.fst

theorem mem_sortMembers {key : String} : (key, v) ∈ sortMembers ms ↔
    ∃ w, (key, w) ∈ ms ∧ w.sorted = v := by
  rw [(perm_sortMembers ms).mem_iff, List.mem_map]
  simp [sortMember]

theorem pairwise_sortMembers (ms : Members) : (sortMembers ms).Pairwise fun m n => m.1 ≤ n.1 := by
  have hsorted : (sortMembers ms).Pairwise fun m n => decide (m.1 ≤ n.1) = true :=
    List.pairwise_mergeSort
      (fun a b c hab hbc => by simpa using le_trans (of_decide_eq_true hab) (of_decide_eq_true hbc))
      (fun a b => by simpa using le_total a.1 b.1) (ms.map sortMember)
  exact hsorted.imp of_decide_eq_true

/-- Two entries of one table have one value when its keys are distinct. -/
theorem eq_of_mem {key : String} (hkeys : (ms.map Prod.fst).Nodup) (hv : (key, v) ∈ ms)
    (hw : (key, w) ∈ ms) : v = w :=
  Option.some.inj ((Table.lookup_of_mem hkeys hv).symm.trans (Table.lookup_of_mem hkeys hw))

theorem mem_sortMembers_of_perm (hkeys : (ms.map Prod.fst).Perm (ns.map Prod.fst))
    (h : ∀ key v w, (key, v) ∈ ms → (key, w) ∈ ns → v.sorted = w.sorted) {m : String × Json}
    (hm : m ∈ sortMembers ms) : m ∈ sortMembers ns := by
  obtain ⟨v, hv, heq⟩ := mem_sortMembers.mp hm
  obtain ⟨⟨key, w⟩, hw, hkey⟩ := List.mem_map.mp (hkeys.mem_iff.mp (List.mem_map_of_mem hv))
  obtain rfl : key = m.1 := hkey
  exact mem_sortMembers.mpr ⟨w, hw, (h _ v w hv hw).symm.trans heq⟩

/-- Objects with distinct keys are sorted to one list exactly when they have the same keys and, under each
of them, values that are sorted to one value. -/
theorem sortMembers_eq_iff (hms : (ms.map Prod.fst).Nodup) (hns : (ns.map Prod.fst).Nodup) :
    sortMembers ms = sortMembers ns ↔ (ms.map Prod.fst).Perm (ns.map Prod.fst) ∧
      ∀ key v w, (key, v) ∈ ms → (key, w) ∈ ns → v.sorted = w.sorted := by
  have hms' := (keys_sortMembers ms).nodup_iff.mpr hms
  have hns' := (keys_sortMembers ns).nodup_iff.mpr hns
  constructor
  · intro heq
    refine ⟨(keys_sortMembers ms).symm.trans (heq ▸ keys_sortMembers ns), fun key v w hv hw => ?_⟩
    have hmem : (key, v.sorted) ∈ sortMembers ns := heq ▸ mem_sortMembers.mpr ⟨v, hv, rfl⟩
    exact eq_of_mem hns' hmem (mem_sortMembers.mpr ⟨w, hw, rfl⟩)
  · rintro ⟨hkeys, h⟩
    have hperm : (sortMembers ms).Perm (sortMembers ns) :=
      (List.perm_ext_iff_of_nodup hms'.of_map hns'.of_map).mpr fun m =>
        ⟨mem_sortMembers_of_perm hkeys h, mem_sortMembers_of_perm hkeys.symm fun key v w hv hw =>
          (h key w v hw hv).symm⟩
    refine hperm.eq_of_pairwise (fun m n hm hn hmn hnm => ?_) (pairwise_sortMembers ms)
      (pairwise_sortMembers ns)
    exact List.inj_on_of_nodup_map hms' hm (hperm.mem_iff.mpr hn) (le_antisymm hmn hnm)

/-- Arrays are sorted to one array item by item. -/
theorem map_sorted_eq_iff : xs.map sorted = ys.map sorted ↔
    xs.length = ys.length ∧ ∀ v w, (v, w) ∈ xs.zip ys → v.sorted = w.sorted := by
  have hpairs : List.Forall₂ (fun v w => v.sorted = w.sorted) xs ys ↔ xs.map sorted = ys.map sorted := by
    rw [← List.forall₂_eq_eq_eq, List.forall₂_map_left_iff, List.forall₂_map_right_iff]
  rw [← hpairs, List.forall₂_iff_zip]

/-! ## Sorting values -/

theorem Valid.item (h : Valid (.arr items)) (hv : v ∈ items) : v.Valid := by
  cases h with
  | arr h => exact h v hv

theorem Valid.nodup (h : Valid (.obj ms)) : (ms.map Prod.fst).Nodup := by
  cases h with
  | obj hkeys _ => exact hkeys

theorem Valid.member {key : String} (h : Valid (.obj ms)) (hv : (key, v) ∈ ms) : v.Valid := by
  cases h with
  | obj _ h => exact h _ hv

theorem Valid.sorted (h : v.Valid) : v.sorted.Valid := by
  induction h with
  | null => exact .null
  | bool b => exact .bool b
  | integer n => exact .integer n
  | real h => exact .real h
  | str s => exact .str s
  | arr _ ih =>
      rw [sorted_arr]
      exact .arr (by simpa using ih)
  | obj hkeys _ ih =>
      rw [sorted_obj]
      refine .obj ((keys_sortMembers _).nodup_iff.mpr hkeys) fun m hm => ?_
      obtain ⟨w, hw, heq⟩ := mem_sortMembers.mp hm
      exact heq ▸ ih _ hw

/-- A sorted value is in order. -/
theorem Valid.ordered_sorted (h : v.Valid) : Ordered v.sorted := by
  induction h with
  | null => exact .null
  | bool b => exact .bool b
  | integer n => exact .num _
  | real h => exact .num _
  | str s => exact .str s
  | arr _ ih =>
      rw [sorted_arr]
      exact .arr (by simpa using ih)
  | @obj members hkeys _ ih =>
      rw [sorted_obj]
      refine .obj ?_ fun m hm => ?_
      · have hnodup := List.pairwise_map.mp ((keys_sortMembers members).nodup_iff.mpr hkeys)
        refine List.pairwise_map.mpr (((pairwise_sortMembers members).and hnodup).imp fun h => ?_)
        exact Text.utf8_lt_iff.mpr (lt_of_le_of_ne h.1 h.2)
      · obtain ⟨w, hw, heq⟩ := mem_sortMembers.mp hm
        exact heq ▸ ih _ hw

/-- A value is like itself sorted. -/
theorem Valid.alike_sorted (h : v.Valid) : Alike v v.sorted := by
  induction h with
  | null => exact .null
  | bool b => exact .bool b
  | integer n => exact .num rfl
  | real h => exact .num rfl
  | str s => exact .str s
  | arr _ ih =>
      rw [sorted_arr]
      have hitems := List.forall₂_iff_zip.mp
        (List.forall₂_map_right_iff.mpr (List.forall₂_same.mpr ih))
      exact .arr hitems.1 fun v w => hitems.2
  | obj hkeys _ ih =>
      rw [sorted_obj]
      refine .obj (keys_sortMembers _).symm fun key v w hv hw => ?_
      obtain ⟨u, hu, rfl⟩ := mem_sortMembers.mp hw
      rw [eq_of_mem hkeys hu hv]
      exact ih _ hv

/-- Two numbers of one text are one number. -/
theorem Valid.eq_of_text {m n : Number} (hm : (Json.num m).Valid) (hn : (Json.num n).Valid)
    (h : m.text = n.text) : m = n := by
  have hend : ∀ c ∈ ([] : List Char).head?, Grammar.isNumeralChar c = false := by simp
  have hread := Grammar.number?_text hm hend
  rw [h, Grammar.number?_text hn hend] at hread
  simpa using hread.symm

/-- Values that are alike are sorted to one value. -/
theorem sorted_eq_of_alike (h : Alike v w) (hv : v.Valid) (hw : w.Valid) : v.sorted = w.sorted := by
  induction h with
  | null => rfl
  | bool b => rfl
  | num h => rw [hv.eq_of_text hw h]
  | str s => rfl
  | arr hlength _ ih =>
      have hitems (v w : Json) (h : (v, w) ∈ _) : v.sorted = w.sorted :=
        ih v w h (hv.item (List.of_mem_zip h).1) (hw.item (List.of_mem_zip h).2)
      rw [sorted_arr, sorted_arr, map_sorted_eq_iff.mpr ⟨hlength, hitems⟩]
  | obj hkeys _ ih =>
      have hvalues (key : String) (v w : Json) (hm : (key, v) ∈ _) (hn : (key, w) ∈ _) :
          v.sorted = w.sorted := ih key v w hm hn (hv.member hm) (hw.member hn)
      rw [sorted_obj, sorted_obj, (sortMembers_eq_iff hv.nodup hw.nodup).mpr ⟨hkeys, hvalues⟩]

/-- Values that are sorted to one value are alike. -/
theorem alike_of_sorted_eq (hv : v.Valid) (hw : w.Valid) (h : v.sorted = w.sorted) : Alike v w := by
  induction hv generalizing w with
  | null =>
      cases w <;> cases h
      exact .null
  | bool b =>
      cases w <;> cases h
      exact .bool b
  | integer n =>
      cases w <;> cases h
      exact .num rfl
  | real hx =>
      cases w <;> cases h
      exact .num rfl
  | str s =>
      cases w <;> cases h
      exact .str s
  | arr _ ih =>
      cases w with
      | arr ys =>
          rw [sorted_arr, sorted_arr, Json.arr.injEq, map_sorted_eq_iff] at h
          refine .arr h.1 fun v w hmem => ?_
          obtain ⟨hleft, hright⟩ := List.of_mem_zip hmem
          exact ih v hleft (hw.item hright) (h.2 v w hmem)
      | _ => cases h
  | obj hkeys _ ih =>
      cases w with
      | obj ns =>
          rw [sorted_obj, sorted_obj, Json.obj.injEq, sortMembers_eq_iff hkeys hw.nodup] at h
          exact .obj h.1 fun key v w hm hn => ih (key, v) hm (hw.member hn) (h.2 key v w hm hn)
      | _ => cases h

/-- Sorting takes two values to one exactly when they are equal up to the order of their keys. -/
theorem sorted_eq_iff_alike (hv : v.Valid) (hw : w.Valid) : v.sorted = w.sorted ↔ Alike v w :=
  ⟨alike_of_sorted_eq hv hw, fun h => sorted_eq_of_alike h hv hw⟩

/-- An object is like the one with its members in another order. -/
theorem Valid.alike_of_perm (h : Valid (.obj ms)) (hperm : ms.Perm ns) : Alike (.obj ms) (.obj ns) := by
  refine .obj (hperm.map Prod.fst) fun key v w hv hw => ?_
  rw [← eq_of_mem h.nodup hv (hperm.mem_iff.mpr hw)]
  exact alike_of_sorted_eq (h.member hv) (h.member hv) rfl

/-! ## Canonical texts -/

/-- The canonical text of a value is read as the value sorted. -/
theorem read_canonical (h : v.Valid) : Grammar.read v.canonical = some v.sorted :=
  Grammar.read_prettyChars h.sorted

/-- Two values have one canonical text exactly when they are equal up to the order of their keys, and
what is read from the text of a value is equal to it up to this order and has its keys in order. -/
theorem canonical_faithful (hv : v.Valid) (hw : w.Valid) :
    (v.canonical = w.canonical ↔ Alike v w) ∧
      ∃ u, Grammar.read v.canonical = some u ∧ Alike v u ∧ Ordered u := by
  have htext : v.canonical = w.canonical ↔ v.sorted = w.sorted := by
    constructor
    · intro h
      have hread := read_canonical hv
      rw [h, read_canonical hw] at hread
      exact (Option.some.inj hread).symm
    · intro h
      rw [canonical, canonical, h]
  exact ⟨htext.trans (sorted_eq_iff_alike hv hw),
    v.sorted, read_canonical hv, hv.alike_sorted, hv.ordered_sorted⟩

/-- A number with a fraction. -/
def half : Number := .real ⟨false, ⟨4602678819172646912, by decide⟩⟩

/-- The members of a nested object, whose keys are not in order. -/
def ticket : Members := [("é", .num half), ("z", .str "1\n\"2\"")]

theorem canonical_ticket :
    (Json.arr [.obj ticket]).Valid ∧ (Json.arr [.obj ticket.reverse]).Valid ∧
      (Json.arr [.obj ticket]).canonical = (Json.arr [.obj ticket.reverse]).canonical ∧
      ∃ u, Grammar.read (Json.arr [.obj ticket]).canonical = some u ∧
        Alike (.arr [.obj ticket]) u ∧ Ordered u := by
  have hhalf : (Json.num half).Valid := .real (by decide)
  have hticket : (Json.obj ticket).Valid := .obj (by decide) (by simp [ticket, hhalf, Valid.str])
  have hreverse : (Json.obj ticket.reverse).Valid :=
    .obj (by decide) (by simp [ticket, hhalf, Valid.str])
  have hleft : (Json.arr [.obj ticket]).Valid := .arr (by simpa using hticket)
  have hright : (Json.arr [.obj ticket.reverse]).Valid := .arr (by simpa using hreverse)
  have hinner := hticket.alike_of_perm (List.reverse_perm ticket).symm
  have halike : Alike (.arr [.obj ticket]) (.arr [.obj ticket.reverse]) :=
    .arr rfl (by simpa using hinner)
  obtain ⟨hiff, hread⟩ := canonical_faithful hleft hright
  exact ⟨hleft, hright, hiff.mpr halike, hread⟩

end AgentCompiler.Json
