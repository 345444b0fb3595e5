import AgentCompiler.Proofs.Name.Joined

/-!
# Namespaces and dispatch keys

A namespace is short, has no three underscores in a row and does not end in one. So the three
underscores of a dispatch key can be found again, and different namespaces never make the same key.
-/

namespace AgentCompiler.Name

/-- The shape of a namespace. -/
structure IsSpace (space : String) : Prop where
  length_le : space.length ≤ 31
  chars : ∀ c ∈ space.toList, isKeyChar c
  noTriple : ¬['_', '_', '_'] <:+: space.toList
  last : ∀ c ∈ space.toList.getLast?, c ≠ '_'

/-- No two underscores stand next to each other. -/
theorem Joined.noDouble {s : List Char} (h : Joined s) : ¬['_', '_'] <:+: s := by
  intro hdouble
  have hpair := h.apart.infix hdouble
  rw [List.isChain_pair] at hpair
  exact hpair rfl rfl

/-- A name without two underscores in a row, behind which an underscore and a word stand, has no
three. -/
theorem noTriple_append {s word : List Char} (hs : ¬['_', '_'] <:+: s)
    (hword : ∀ c ∈ word, isWordChar c) : ¬['_', '_', '_'] <:+: s ++ '_' :: word := by
  rintro ⟨before, after, heq⟩
  have hsplit : (before ++ ['_', '_']) ++ '_' :: after = s ++ '_' :: word := by
    rw [← heq]
    simp
  -- The first two underscores stand in `s`, or the third one stands in the word.
  rcases List.append_eq_append_iff.mp hsplit with ⟨more, hs', -⟩ | ⟨more, hbefore, hrest⟩
  · exact hs ⟨before, more, by rw [hs', List.append_assoc]⟩
  · cases more with
    | nil => exact hs ⟨before, [], by simpa using hbefore⟩
    | cons c more =>
        obtain ⟨-, hword'⟩ := List.cons_eq_cons.mp hrest
        have hmem : '_' ∈ word := by
          rw [hword']
          exact List.mem_append_right more List.mem_cons_self
        exact ne_underscore_of_isWordChar (hword '_' hmem) rfl

/-- A cleaned name makes a namespace, cut or not. -/
theorem isSpace_prune {name : String} (h : Joined name.toList) :
    IsSpace (prune name namespaceLength) where
  length_le := length_prune_le name namespaceLength
  chars := isKeyChar_of_mem_prune h.chars
  noTriple := by
    by_cases hle : name.length ≤ namespaceLength
    · rw [prune, if_pos hle]
      exact fun htriple => h.noDouble (List.IsInfix.trans ⟨[], ['_'], rfl⟩ htriple)
    · rw [toList_prune_of_lt (by omega)]
      refine noTriple_append (fun hdouble => ?_) (digest_spec name).2
      exact h.noDouble (hdouble.trans (List.take_prefix _ _).isInfix)
  last := by
    by_cases hle : name.length ≤ namespaceLength
    · rw [prune, if_pos hle]
      exact h.last
    · have hne : (digest name).toList ≠ [] := by
        rw [← List.length_pos_iff, String.length_toList, (digest_spec name).1]
        decide
      rw [toList_prune_of_lt (by omega),
        List.getLast?_append_of_ne_nil _ (List.cons_ne_nil _ _), List.getLast?_cons_of_ne_nil hne]
      intro c hc
      exact ne_underscore_of_isWordChar ((digest_spec name).2 c (List.mem_of_getLast? hc))

/-- Every namespace of a gateway has the shape of one. -/
theorem isSpace_of_mem_namespaces {groups : List String} {space : String}
    (h : space ∈ namespaces groups) : IsSpace space := by
  obtain ⟨name, hname, rfl⟩ := List.mem_map.mp h
  refine isSpace_prune (joined_of_mem_distinct (fun m hm => ?_) hname)
  obtain ⟨group, -, rfl⟩ := List.mem_map.mp hm
  exact (joined_snake group).1

theorem length_namespaces (groups : List String) : (namespaces groups).length = groups.length := by
  rw [namespaces, List.length_map, length_distinct, List.length_map]

/-- The namespaces are pairwise distinct when no two cut names have one digest. -/
theorem nodup_namespaces {groups : List String}
    (h : ∀ m ∈ distinct (groups.map snake), ∀ n ∈ distinct (groups.map snake),
      namespaceLength < m.length → namespaceLength < n.length → digest m = digest n → m = n) :
    (namespaces groups).Nodup := by
  refine List.Nodup.map_on (fun m hm n hn heq => ?_) (nodup_distinct _)
  by_contra hne
  exact prune_ne hne (fun hlong hlong' hdigest => hne (h m hm n hn hlong hlong' hdigest)) heq

/-! ## Dispatch keys -/

/-- What stands before the three underscores of a key, when it is no longer than a namespace that
makes the same key, is the namespace. -/
theorem eq_nil_of_dispatch {space more tool tool' : List Char}
    (htriple : ¬['_', '_', '_'] <:+: space ++ more)
    (hlast : ∀ c ∈ (space ++ more).getLast?, c ≠ '_')
    (heq : ['_', '_', '_'] ++ tool = more ++ (['_', '_', '_'] ++ tool')) : more = [] := by
  rcases List.append_eq_append_iff.mp heq with ⟨rest, rfl, -⟩ | ⟨rest, hmore, -⟩
  · exact absurd ⟨space, rest, by simp⟩ htriple
  · cases hend : more.getLast? with
    | none => exact List.getLast?_eq_none_iff.mp hend
    | some c =>
        have hc : c = '_' := by
          have hmem : c ∈ ['_', '_', '_'] := by
            rw [hmore]
            exact List.mem_append_left rest (List.mem_of_getLast? hend)
          simpa using hmem
        exact absurd hc (hlast c (by rw [List.getLast?_append, hend]; rfl))

/-- The namespace and the tool can be read back from a key. -/
theorem dispatchKey_injective {space space' tool tool' : String} (h : IsSpace space)
    (h' : IsSpace space') (heq : dispatchKey space tool = dispatchKey space' tool') :
    space = space' ∧ tool = tool' := by
  have hchars : space.toList ++ (['_', '_', '_'] ++ tool.toList) =
      space'.toList ++ (['_', '_', '_'] ++ tool'.toList) := by
    have hlist := congrArg String.toList heq
    simpa [dispatchKey] using hlist
  have hspace : space.toList = space'.toList := by
    rcases List.append_eq_append_iff.mp hchars with ⟨more, hmore, hrest⟩ | ⟨more, hmore, hrest⟩
    · have hnil := eq_nil_of_dispatch (hmore ▸ h'.noTriple) (hmore ▸ h'.last) hrest
      rw [hmore, hnil, List.append_nil]
    · have hnil := eq_nil_of_dispatch (hmore ▸ h.noTriple) (hmore ▸ h.last) hrest
      rw [hmore, hnil, List.append_nil]
  rw [hspace, List.append_right_inj, List.append_right_inj] at hchars
  exact ⟨String.toList_injective hspace, String.toList_injective hchars⟩

/-- Every character takes a byte or more. -/
theorem length_le_utf8ByteSize (s : String) : s.length ≤ s.utf8ByteSize := by
  obtain ⟨l, rfl⟩ : ∃ l, s = String.ofList l := ⟨s.toList, String.ofList_toList.symm⟩
  rw [String.length_ofList]
  induction l with
  | nil => exact Nat.zero_le _
  | cons c l ih =>
      have hsplit : String.ofList (c :: l) = String.singleton c ++ String.ofList l :=
        String.toList_injective (by simp)
      have hpos := c.utf8Size_pos
      rw [hsplit, String.utf8ByteSize_append, String.utf8ByteSize_singleton, List.length_cons]
      omega

/-- A key has at most 64 characters when the name of the tool is cut to what its namespace leaves. -/
theorem length_dispatchKey_le {space : String} (h : IsSpace space) (name : String) :
    (dispatchKey space (prune name (namespaceBudget space))).length ≤ maxLength := by
  have hspace := h.length_le
  have hbytes := length_le_utf8ByteSize space
  have hname := length_prune_le name (namespaceBudget space)
  have hunder : ("___" : String).length = 3 := by decide
  rw [namespaceBudget, namespaceShare] at hname
  rw [dispatchKey, String.length_append, String.length_append, hunder, maxLength, namespaceBudget,
    namespaceShare]
  omega

/-- A key consists of lower-case letters, digits and underscores. -/
theorem isKeyChar_of_mem_dispatchKey {space tool : String} (h : IsSpace space)
    (htool : ∀ c ∈ tool.toList, isKeyChar c) :
    ∀ c ∈ (dispatchKey space tool).toList, isKeyChar c := by
  intro c hc
  have hunder : ∀ c ∈ ("___" : String).toList, isKeyChar c := List.all_eq_true.mp (by decide)
  rw [dispatchKey, String.toList_append, String.toList_append] at hc
  rcases List.mem_append.mp hc with hc | hc
  · rcases List.mem_append.mp hc with hc | hc
    · exact h.chars c hc
    · exact hunder c hc
  · exact htool c hc

end AgentCompiler.Name
