import Mathlib.Data.List.Basic
import AgentCompiler.Files.Disk

/-!
# What changes on a disk

Making directories leaves all files as they are. Writing a file changes the one place that its path
leads to, and no directory. So a path leads to the same place before and after files were written.
-/

namespace AgentCompiler.Files

/-- What a file holds; a directory is none. -/
def Kind.content? : Kind → Option (Option String)
  | .file text => some text
  | .directory => none

namespace Disk

variable {d d₁ d' : Disk} {p q : Place} {k : Kind} {path text : String}

/-! ## Places -/

theorem lookup_filter_ne (entries : List (Place × Kind)) (hne : q ≠ p) :
    (entries.filter fun e => e.1 != p).lookup q = entries.lookup q := by
  induction entries with
  | nil => rfl
  | cons e es ih =>
      obtain ⟨r, k⟩ := e
      by_cases hr : r = p
      · subst hr
        rw [List.filter_cons_of_neg (by simp), ih, List.lookup_cons, beq_eq_false_iff_ne.mpr hne]
      · rw [List.filter_cons_of_pos (by simpa using hr), List.lookup_cons, List.lookup_cons, ih]

/-- What was put at a place is there. The root stays a directory. -/
theorem kind?_put (hp : p ≠ []) : (d.put p k).kind? q = if q = p then some k else d.kind? q := by
  unfold kind? put
  split
  · next hroot =>
      have hq : q = [] := List.isEmpty_iff.mp hroot
      subst hq
      rw [if_neg (Ne.symm hp)]
  · by_cases hq : q = p
    · subst hq
      rw [if_pos rfl, List.lookup_cons, beq_self_eq_true]
    · rw [if_neg hq, List.lookup_cons, beq_eq_false_iff_ne.mpr hq]
      exact lookup_filter_ne d.entries hq

theorem ne_nil_of_kind? (h : d.kind? p ≠ some .directory) : p ≠ [] := by
  rintro rfl
  exact h rfl

/-- What the file at a place holds; none when there is no file. -/
def file? (d : Disk) (p : Place) : Option (Option String) := (d.kind? p).bind Kind.content?

theorem file?_put (hp : p ≠ []) : (d.put p k).file? q = if q = p then k.content? else d.file? q := by
  rw [file?, kind?_put hp]
  split
  · rfl
  · rfl

theorem file?_eq_some {content : Option String} :
    d.file? p = some content ↔ d.kind? p = some (.file content) := by
  rw [file?, Option.bind_eq_some_iff]
  constructor
  · rintro ⟨k, hk, hcontent⟩
    cases k with
    | directory => cases hcontent
    | file content' =>
        cases hcontent
        exact hk
  · exact fun h => ⟨_, h, rfl⟩

/-! ## Paths -/

/-- Only a directory can be gone on from. -/
theorem follow_eq_ok {c : String} : d.follow p c = .ok q ↔
    d.kind? p = some .directory ∧ q =
      if c.isEmpty || c == "." then p else if c == ".." then p.dropLast else p ++ [c] := by
  unfold follow
  split
  · next h => simp [h]
  · next h => simp [h]
  · next h =>
      rw [h]
      split
      · simp [eq_comm]
      split
      · simp [eq_comm]
      · simp [eq_comm]

theorem foldlM_follow_of_directories
    (h : ∀ p, d.kind? p = some .directory → d'.kind? p = some .directory) {cs : List String}
    (hcs : cs.foldlM d.follow p = .ok q) : cs.foldlM d'.follow p = .ok q := by
  induction cs generalizing p with
  | nil => exact hcs
  | cons c cs ih =>
      rw [List.foldlM_cons] at hcs ⊢
      cases hfollow : d.follow p c with
      | error fault =>
          rw [hfollow] at hcs
          cases hcs
      | ok r =>
          rw [hfollow] at hcs
          obtain ⟨hdirectory, hr⟩ := follow_eq_ok.mp hfollow
          rw [follow_eq_ok.mpr ⟨h p hdirectory, hr⟩]
          exact ih hcs

/-- A path leads to the same place when no directory is taken away. -/
theorem resolve_of_directories (hstart : d'.start = d.start)
    (h : ∀ p, d.kind? p = some .directory → d'.kind? p = some .directory)
    (hp : d.resolve path = .ok p) : d'.resolve path = .ok p := by
  unfold resolve at hp ⊢
  split at hp
  · cases hp
  · next hpath =>
      rw [if_neg hpath]
      unfold origin at hp ⊢
      rw [hstart]
      exact foldlM_follow_of_directories h hp

/-- The two disks have the same directories, and paths start in the same one. -/
structure SameRooms (d d' : Disk) : Prop where
  start : d'.start = d.start
  directories : ∀ p, d'.kind? p = some .directory ↔ d.kind? p = some .directory

namespace SameRooms

theorem refl (d : Disk) : SameRooms d d := ⟨rfl, fun _ => .rfl⟩

theorem trans (h : SameRooms d d₁) (h' : SameRooms d₁ d') : SameRooms d d' :=
  ⟨h'.start.trans h.start, fun p => (h'.directories p).trans (h.directories p)⟩

theorem put {text : Option String} (h : d.kind? p ≠ some .directory) :
    SameRooms d (d.put p (.file text)) := by
  refine ⟨rfl, fun q => ?_⟩
  rw [kind?_put (ne_nil_of_kind? h)]
  split
  · next hq =>
      subst hq
      exact iff_of_false (by simp) h
  · rfl

/-- A path leads to the same place on disks with the same directories. -/
theorem resolve_eq_ok (h : SameRooms d d') : d'.resolve path = .ok p ↔ d.resolve path = .ok p :=
  ⟨resolve_of_directories h.start.symm fun q => (h.directories q).mp,
    resolve_of_directories h.start fun q => (h.directories q).mpr⟩

end SameRooms

/-! ## Directories that come in -/

/-- The path, if there is one, does not lead to the place. -/
def Misses (d : Disk) (path? : Option String) (p : Place) : Prop := ∀ path ∈ path?, d.resolve path ≠ .ok p

theorem misses_none (d : Disk) (p : Place) : d.Misses none p := by
  intro path hpath
  cases hpath

/-- All files are as they were, but for the one to which a path leads that is spared. All directories are still
there. -/
structure Furnished (spared : Option String) (d d' : Disk) : Prop where
  start : d'.start = d.start
  directories : ∀ p, d.kind? p = some .directory → d'.kind? p = some .directory
  files : ∀ p, d'.Misses spared p → d'.file? p = d.file? p

namespace Furnished

variable {spared : Option String}

theorem refl (d : Disk) : Furnished spared d d := ⟨rfl, fun _ h => h, fun _ _ => rfl⟩

/-- What misses a place in the end has missed it before. -/
theorem misses (h : Furnished spared d d') (hp : d'.Misses spared p) : d.Misses spared p :=
  fun path hpath hresolve => hp path hpath (resolve_of_directories h.start h.directories hresolve)

theorem of_none (h : Furnished none d d') : Furnished spared d d' :=
  ⟨h.start, h.directories, fun p _ => h.files p (d'.misses_none p)⟩

theorem trans (h : Furnished spared d d₁) (h' : Furnished spared d₁ d') : Furnished spared d d' :=
  ⟨h'.start.trans h.start, fun p hp => h'.directories p (h.directories p hp),
    fun p hp => (h'.files p hp).trans (h.files p (h'.misses hp))⟩

/-- A directory comes in where nothing was. -/
theorem put (h : d.kind? p = none) : Furnished spared d (d.put p .directory) := by
  have hp : p ≠ [] := ne_nil_of_kind? (d := d) (by simp [h])
  refine ⟨rfl, fun q hq => ?_, fun q _ => ?_⟩
  · rw [kind?_put hp]
    split
    · rfl
    · exact hq
  · rw [file?_put hp]
    split
    · next hq =>
        rw [hq, file?, h]
        rfl
    · rfl

theorem makeAlong (here : Place) (cs : List String) : Furnished spared d (d.makeAlong here cs).2 := by
  induction cs generalizing d here with
  | nil => exact refl d
  | cons c cs ih =>
      rw [Disk.makeAlong]
      split
      · exact refl d
      split
      · exact ih _
      · exact refl d
      · next hnone => exact (put hnone).trans (ih _)

theorem makeDirectory (d : Disk) (path : String) : Furnished spared d (d.makeDirectory path).2 := by
  unfold Disk.makeDirectory
  split
  · exact refl d
  · exact makeAlong _ _

/-- A file that is opened is the only one that can come in. -/
theorem of_open? (h : d.open? path = some d') : Furnished (some path) d d' := by
  unfold open? at h
  split at h
  · cases h
  next p hresolve =>
  split at h
  · cases h
  · cases h
    exact refl d
  next hnone =>
  cases h
  have hkind : d.kind? p ≠ some .directory := by simp [hnone]
  have hrooms : SameRooms d (d.put p (.file (some ""))) := .put hkind
  refine ⟨hrooms.start, fun q => (hrooms.directories q).mpr, fun q hq => ?_⟩
  have hne : q ≠ p := by
    rintro rfl
    exact hq path rfl (hrooms.resolve_eq_ok.mpr hresolve)
  rw [file?_put (ne_nil_of_kind? hkind), if_neg hne]

end Furnished

/-! ## Files that are written -/

theorem write?_eq_some :
    d.write? path text = some d' ↔ ∃ p, d.resolve path = .ok p ∧ d.kind? p ≠ some .directory ∧
      d' = d.put p (.file (some text)) := by
  unfold write?
  split
  · next fault hfault => simp [hfault]
  · next p hp =>
      rw [hp]
      by_cases hdirectory : d.kind? p = some .directory
      · simp [hdirectory]
      · simp [hdirectory, eq_comm (a := d')]

theorem SameRooms.of_write? (h : d.write? path text = some d') : SameRooms d d' := by
  obtain ⟨p, -, hp, rfl⟩ := write?_eq_some.mp h
  exact put hp

theorem read_eq_ok : d.read path = .ok text ↔
    ∃ p, d.resolve path = .ok p ∧ d.file? p = some (some text) := by
  unfold read
  cases hresolve : d.resolve path with
  | error fault =>
      constructor
      · intro h
        cases h
      · rintro ⟨p, hp, -⟩
        cases hp
  | ok p =>
      simp only [bind, Except.bind]
      constructor
      · intro h
        refine ⟨p, rfl, file?_eq_some.mpr ?_⟩
        split at h
        · cases h
        · cases h
        · cases h
        · next hkind =>
            cases h
            exact hkind
      · rintro ⟨q, hq, hfile⟩
        cases hq
        rw [file?_eq_some.mp hfile]

end Disk

/-! ## Names below a directory -/

/-- A name of a file that stands for itself in a path. -/
structure IsPlainName (name : String) : Prop where
  noSlash : '/' ∉ name.toList
  noDots : name ≠ "" ∧ name ≠ "." ∧ name ≠ ".."

theorem parts_of_noSlash {name : String} (h : '/' ∉ name.toList) : Path.parts name = [name] := by
  rw [Path.parts, List.splitOn_eq_singleton h, List.map_singleton, String.ofList_toList]

theorem parts_append_slash (base name : String) :
    Path.parts (base ++ "/" ++ name) = Path.parts base ++ Path.parts name := by
  have hchars : (base ++ "/" ++ name).toList = base.toList ++ '/' :: name.toList := by simp
  rw [Path.parts, hchars, List.splitOn_append_cons_self, List.map_append]
  rfl

theorem not_isAbsolute {name : String} (h : '/' ∉ name.toList) : Path.isAbsolute name = false := by
  rw [Path.isAbsolute, decide_eq_false_iff_not]
  exact fun hhead => h (List.mem_of_head? hhead)

/-- A plain name is the last part of the path below a directory. The parts before it, and where the path
starts, do not depend on it. -/
theorem exists_parts_join (base : String) :
    ∃ before absolute, ∀ name, IsPlainName name → Path.parts (Path.join base name) = before ++ [name] ∧
      Path.isAbsolute (Path.join base name) = absolute ∧ Path.join base name ≠ "" := by
  by_cases hempty : base = ""
  · subst hempty
    refine ⟨[], false, fun name hname => ?_⟩
    have hjoin : Path.join "" name = name := by
      rw [Path.join, if_pos (by rw [String.isEmpty_iff.mpr rfl, Bool.or_true])]
    rw [hjoin]
    exact ⟨parts_of_noSlash hname.noSlash, not_isAbsolute hname.noSlash, hname.noDots.1⟩
  have hhead (rest : String) : Path.isAbsolute (base ++ rest) = Path.isAbsolute base := by
    have hchars : base.toList ≠ [] := mt String.toList_eq_nil_iff.mp hempty
    rw [Path.isAbsolute, Path.isAbsolute, String.toList_append, List.head?_append_of_ne_nil _ hchars]
  have hjoin (name : String) (hname : IsPlainName name) : Path.join base name =
      if base.toList.getLast? = some '/' then base ++ name else base ++ "/" ++ name := by
    have hbase : base.isEmpty = false := Bool.eq_false_iff.mpr (mt String.isEmpty_iff.mp hempty)
    rw [Path.join, not_isAbsolute hname.noSlash, hbase, if_neg (by decide)]
  by_cases hlast : base.toList.getLast? = some '/'
  · -- The directory is written with a slash at its end.
    obtain ⟨start, hstart⟩ := List.getLast?_eq_some_iff.mp hlast
    have hbase : base = String.ofList start ++ "/" := by
      refine String.toList_injective ?_
      rw [hstart]
      simp
    refine ⟨Path.parts (.ofList start), Path.isAbsolute base, fun name hname => ?_⟩
    rw [hjoin name hname, if_pos hlast]
    refine ⟨?_, hhead name, by simp [hempty]⟩
    rw [hbase, parts_append_slash, parts_of_noSlash hname.noSlash]
  · refine ⟨Path.parts base, Path.isAbsolute base, fun name hname => ?_⟩
    rw [hjoin name hname, if_neg hlast]
    refine ⟨?_, ?_, by simp⟩
    · rw [parts_append_slash, parts_of_noSlash hname.noSlash]
    · rw [String.append_assoc, hhead]

/-- A plain name leads to a place right in the directory. -/
theorem Disk.exists_place_join (d : Disk) (base : String) :
    ∃ here : Except ReadFault Place, ∀ name p, IsPlainName name →
      d.resolve (Path.join base name) = .ok p → ∃ place, here = .ok place ∧ p = place ++ [name] := by
  obtain ⟨before, absolute, hparts⟩ := exists_parts_join base
  refine ⟨before.foldlM d.follow (if absolute then [] else d.start), fun name p hname h => ?_⟩
  obtain ⟨hsplit, habsolute, hne⟩ := hparts name hname
  have hempty : (Path.join base name).isEmpty = false :=
    Bool.eq_false_iff.mpr (mt String.isEmpty_iff.mp hne)
  rw [resolve, hempty, if_neg Bool.false_ne_true, hsplit, origin, habsolute, List.foldlM_append] at h
  cases hbefore : before.foldlM d.follow (if absolute then [] else d.start) with
  | error fault =>
      rw [hbefore] at h
      cases h
  | ok here =>
      rw [hbefore] at h
      have hlast : (d.follow here name >>= pure) = .ok p := h
      rw [bind_pure] at hlast
      refine ⟨here, rfl, ?_⟩
      obtain ⟨-, hp⟩ := follow_eq_ok.mp hlast
      rw [hp, if_neg (by simp [hname.noDots]), if_neg (by simp [hname.noDots])]

/-- A plain name leads to a place of its own in a directory. -/
theorem Disk.resolve_join_inj {d : Disk} {base m n : String} {p : Place} (hm : IsPlainName m)
    (hn : IsPlainName n) (h : d.resolve (Path.join base m) = .ok p)
    (h' : d.resolve (Path.join base n) = .ok p) : m = n := by
  obtain ⟨here, hplace⟩ := d.exists_place_join base
  obtain ⟨place, hhere, rfl⟩ := hplace m p hm h
  obtain ⟨place', hhere', heq⟩ := hplace n _ hn h'
  cases hhere.symm.trans hhere'
  exact List.singleton_inj.mp (List.append_cancel_left heq)

/-- The place of a file with a plain name ends in that name. -/
theorem Disk.getLast?_of_resolve_join {d : Disk} {base name : String} {p : Place}
    (hname : IsPlainName name) (h : d.resolve (Path.join base name) = .ok p) : p.getLast? = some name := by
  obtain ⟨here, hplace⟩ := d.exists_place_join base
  obtain ⟨place, -, rfl⟩ := hplace name p hname h
  rw [List.getLast?_concat]

theorem Day.toList_fileName (day : Day) (log : String) : (day.fileName log).toList =
    log.toList ++ '.' :: padded 4 day.year ++ '-' :: padded 2 day.month ++ '-' :: padded 2 day.day := by
  simp [fileName, text]

theorem Day.dash_mem_fileName (day : Day) (log : String) : '-' ∈ (day.fileName log).toList := by
  rw [toList_fileName]
  simp

/-- The name of a log's file is plain when that of the log is. -/
theorem Day.isPlainName_fileName (day : Day) {log : String} (h : '/' ∉ log.toList) :
    IsPlainName (day.fileName log) := by
  have hpadded (width n : ℕ) : '/' ∉ padded width n := by
    intro hslash
    rcases List.mem_append.mp hslash with hzero | hdigit
    · cases List.eq_of_mem_replicate hzero
    · have hdigit' : '/'.isDigit = true := Nat.isDigit_of_mem_toDigits (by decide) (by decide) hdigit
      cases hdigit'
  have hother {other : String} (h : '-' ∉ other.toList) : day.fileName log ≠ other := by
    rintro rfl
    exact h (day.dash_mem_fileName log)
  refine ⟨?_, hother (by decide), hother (by decide), hother (by decide)⟩
  rw [toList_fileName]
  simp [h, hpadded]

end AgentCompiler.Files
