import AgentCompiler.Proofs.Prompt.Token
import AgentCompiler.Proofs.Text.Utf8

/-!
# The tokens of a text are its leftmost matches

A reading of tokens passes over a place at which no token stands, and takes the token at any other place
as a whole. So the names that it gives are those of the leftmost matches that do not overlap:
`matches_iff`. The same names are found byte by byte, since the characters of a token have one byte each
and no other character has a byte like them: a scan of the bytes cuts a text between characters.
-/

namespace AgentCompiler.Prompt

variable {s before after name : List Char} {names : List (List Char)}

/-! ## Leftmost matches -/

/-- Reading `before` and `s` one after the other, no token starts in `before`. -/
def Passes (before s : List Char) : Prop :=
  ∀ before' name after', IsName name → before ++ s = before' ++ tokenChars name ++ after' →
    before.length ≤ before'.length

/-- The names of the leftmost tokens of a text that do not overlap: that of the first token, and those
behind it. -/
inductive Matches : List Char → List (List Char) → Prop
  | none {s : List Char} (h : ∀ name, IsName name → ¬tokenChars name <:+: s) : Matches s []
  | first {before name after : List Char} {names : List (List Char)} (hname : IsName name)
      (hfirst : Passes before (tokenChars name ++ after)) (hrest : Matches after names) :
      Matches (before ++ tokenChars name ++ after) (name :: names)

theorem Passes.tail {c : Char} (h : Passes (c :: before) s) : Passes before s := by
  intro before' name after' hname heq
  have hle := h (c :: before') name after' hname (by rw [List.cons_append, heq]; rfl)
  simpa using hle

theorem Passes.cons {c : Char} (hstart : ∀ name, IsName name → ¬tokenChars name <+: c :: before ++ s)
    (h : Passes before s) : Passes (c :: before) s := by
  intro before' name after' hname heq
  cases before' with
  | nil => exact absurd ⟨after', heq.symm⟩ (hstart name hname)
  | cons d before' =>
      have hle := h before' name after' hname (List.cons_eq_cons.mp heq).2
      simpa using hle

/-- A text has no token, or a first one. -/
theorem exists_first_token (s : List Char) : (∀ name, IsName name → ¬tokenChars name <:+: s) ∨
    ∃ before name after, s = before ++ tokenChars name ++ after ∧ IsName name ∧
      Passes before (tokenChars name ++ after) := by
  induction s with
  | nil => exact .inl fun name _ h => absurd (List.infix_nil.mp h) (List.cons_ne_nil _ _)
  | cons c s ih =>
      by_cases hstart : ∃ name, IsName name ∧ tokenChars name <+: c :: s
      · obtain ⟨name, hname, after, hafter⟩ := hstart
        exact .inr ⟨[], name, after, hafter.symm, hname, fun _ _ _ _ _ => Nat.zero_le _⟩
      have hstart' : ∀ name, IsName name → ¬tokenChars name <+: c :: s := fun name hname hp =>
        hstart ⟨name, hname, hp⟩
      rcases ih with hnone | ⟨before, name, after, rfl, hname, hfirst⟩
      · refine .inl fun name hname hin => ?_
        rcases List.infix_cons_iff.mp hin with hp | hin
        · exact hstart' name hname hp
        · exact hnone name hname hin
      · rw [List.append_assoc] at hstart'
        exact .inr ⟨c :: before, name, after, rfl, hname, hfirst.cons hstart'⟩

/-! ## Reading from place to place -/

/-- A place at which no token stands is passed over: whatever was opened there closes nothing. -/
theorem tokensFrom_cons {c : Char} (h : ∀ name, IsName name → ¬tokenChars name <+: c :: s) :
    tokensFrom none (c :: s) = tokensFrom none s := by
  rw [tokensFrom]
  split
  · next hc =>
      subst hc
      rcases blocks_or_name s with hblocks | ⟨u, w, rfl, hu⟩
      · exact hblocks.tokensFrom_eq (some [])
      cases u with
      | nil => rfl
      | cons d u =>
          refine absurd ⟨w, ?_⟩ (h (d :: u) ⟨List.cons_ne_nil d u, hu⟩)
          simp [tokenChars]
  · rfl

/-- A text in which no token starts is passed over. -/
theorem Passes.tokensFrom_append (h : Passes before s) :
    tokensFrom none (before ++ s) = tokensFrom none s := by
  induction before with
  | nil => rfl
  | cons c before ih =>
      rw [List.cons_append, tokensFrom_cons, ih h.tail]
      rintro name hname ⟨after, hafter⟩
      have hle := h [] name after hname hafter.symm
      simp at hle

/-- The names that are read are those of the leftmost tokens, and no other names are. -/
theorem matches_iff : Matches s names ↔ tokensFrom none s = names := by
  constructor
  · intro h
    induction h with
    | none hnone =>
        refine List.eq_nil_iff_forall_not_mem.mpr fun name hmem => ?_
        obtain ⟨hname, hin⟩ := infix_of_mem_tokens hmem
        exact hnone name hname hin
    | first hname hfirst _ ih =>
        rw [List.append_assoc, hfirst.tokensFrom_append, tokensFrom_token hname, ih]
  · rintro rfl
    induction hlength : s.length using Nat.strong_induction_on generalizing s with
    | _ length ih =>
    rcases exists_first_token s with hnone | ⟨before, name, after, rfl, hname, hfirst⟩
    · have hempty : tokensFrom none s = [] :=
        List.eq_nil_iff_forall_not_mem.mpr fun name hmem =>
          hnone name (infix_of_mem_tokens hmem).1 (infix_of_mem_tokens hmem).2
      rw [hempty]
      exact .none hnone
    · -- What stands behind the first token is shorter.
      have hshort : after.length < length := by
        rw [← hlength]
        simp [tokenChars]
        omega
      rw [List.append_assoc, hfirst.tokensFrom_append, tokensFrom_token hname, ← List.append_assoc]
      exact .first hname hfirst (ih after.length hshort rfl)

/-- A token is read wherever its first dollar sign does not close another one. -/
theorem tokensFrom_of_not_closing (hname : IsName name)
    (h : tokensFrom none (before ++ ['$']) = tokensFrom none before) :
    tokensFrom none (before ++ tokenChars name ++ after) =
      tokensFrom none before ++ name :: tokensFrom none after := by
  -- Nothing that the dollar sign could close is open in front of it.
  have hopen : ∀ open_ ∈ openAfter none before, open_ = [] := by
    intro open_ hopen
    rw [tokensFrom_append, Option.mem_def.mp hopen, List.append_right_eq_self, tokensFrom, if_pos rfl]
      at h
    by_contra hne
    rw [if_neg (by simpa using hne)] at h
    cases h
  have hstart : tokensFrom (openAfter none before) (tokenChars name ++ after) =
      tokensFrom none (tokenChars name ++ after) := by
    cases hafter : openAfter none before with
    | none => rfl
    | some open_ =>
        obtain rfl := hopen open_ hafter
        rfl
  rw [List.append_assoc, Prompt.tokensFrom_append, hstart, tokensFrom_token hname]

/-! ## Scanning bytes -/

/-- The byte of a dollar sign. -/
def dollarByte : UInt8 := 0x24

/-- The byte of a lower-case ASCII letter or of an underscore. -/
def isNameByte (b : UInt8) : Bool := (0x61 ≤ b && b ≤ 0x7a) || b == 0x5f

/-- Where the names of the tokens in a sequence of bytes start and end, where `place` bytes stand in front
of it. Behind a token the scan goes on after its last byte, and else after the byte at which it was. -/
def spansFrom (place : Nat) : List UInt8 → List (Nat × Nat)
  | [] => []
  | b :: bs =>
    let length := (bs.takeWhile isNameByte).length
    if b = dollarByte ∧ 0 < length ∧ bs[length]? = some dollarByte then
      (place + 1, place + 1 + length) :: spansFrom (place + length + 2) (bs.drop (length + 1))
    else spansFrom (place + 1) bs
termination_by bs => bs.length
decreasing_by
  · rw [List.length_drop, List.length_cons]
    omega
  · exact Nat.lt_succ_self _

/-- Where the names of the tokens in a sequence of bytes start and end. -/
def spans (bytes : List UInt8) : List (Nat × Nat) := spansFrom 0 bytes

/-- A span cuts a name out of a text: it starts behind the bytes of the text in front of the name, and ends
behind those of the name. -/
def Cuts (text : String) (span : Nat × Nat) (name : String) : Prop :=
  ∃ before after : String, text = before ++ name ++ after ∧
    span = ((Text.utf8 before).length, (Text.utf8 (before ++ name)).length)

/-- The bytes of characters. -/
def bytesOf (s : List Char) : List UInt8 := s.flatMap String.utf8EncodeChar

theorem bytesOf_append (s t : List Char) : bytesOf (s ++ t) = bytesOf s ++ bytesOf t :=
  List.flatMap_append

theorem isNameByte_iff {b : UInt8} :
    isNameByte b ↔ 97 ≤ b.toNat ∧ b.toNat ≤ 122 ∨ b.toNat = 95 := by
  rw [isNameByte, Bool.or_eq_true, Bool.and_eq_true, decide_eq_true_iff, decide_eq_true_iff,
    beq_iff_eq, UInt8.le_iff_toNat_le, UInt8.le_iff_toNat_le, ← UInt8.toNat_inj]
  rfl

theorem isNameChar_iff {c : Char} :
    isNameChar c ↔ 97 ≤ c.toNat ∧ c.toNat ≤ 122 ∨ c.toNat = 95 := by
  rw [isNameChar, Bool.or_eq_true, decide_eq_true_iff, ← Char.toNat_inj]
  delta Char.isLower
  rw [Bool.and_eq_true, decide_eq_true_iff, decide_eq_true_iff]
  rfl

/-- A byte of a character stands in a name, or is a dollar sign, exactly when the character does or
is. -/
theorem byte_spec {c : Char} {b : UInt8} (hb : b ∈ String.utf8EncodeChar c) :
    isNameByte b = isNameChar c ∧ (b = dollarByte ↔ c = '$') := by
  have hcode : b.toNat = c.toNat ∨ 128 ≤ b.toNat ∧ 128 ≤ c.toNat := by
    by_cases hascii : c.toNat < 128
    · exact .inl (Text.toNat_of_mem_utf8EncodeChar hascii hb)
    · have hlarge := Nat.le_of_not_lt hascii
      exact .inr ⟨Text.le_of_mem_utf8EncodeChar hlarge hb, hlarge⟩
  constructor
  · rw [Bool.eq_iff_iff, isNameByte_iff, isNameChar_iff]
    omega
  · rw [← UInt8.toNat_inj, ← Char.toNat_inj]
    change b.toNat = 36 ↔ c.toNat = 36
    omega

/-- The bytes of names at the start of a text are those of its characters of names. -/
theorem takeWhile_bytesOf (s : List Char) :
    (bytesOf s).takeWhile isNameByte = bytesOf (s.takeWhile isNameChar) := by
  induction s with
  | nil => rfl
  | cons c s ih =>
      have hcons : bytesOf (c :: s) = String.utf8EncodeChar c ++ bytesOf s := List.flatMap_cons
      rw [hcons]
      by_cases hc : isNameChar c
      · have hbytes : ∀ b ∈ String.utf8EncodeChar c, isNameByte b := fun b hb =>
          (byte_spec hb).1.trans hc
        rw [List.takeWhile_append_of_pos hbytes, ih, List.takeWhile_cons_of_pos hc]
        exact List.flatMap_cons.symm
      · obtain ⟨b, bs, hb⟩ := List.exists_cons_of_ne_nil (String.utf8EncodeChar_ne_nil (c := c))
        have hbyte : ¬isNameByte b := by
          rw [(byte_spec (hb ▸ List.mem_cons_self : b ∈ String.utf8EncodeChar c)).1]
          exact hc
        rw [hb, List.cons_append, List.takeWhile_cons_of_neg hbyte, List.takeWhile_cons_of_neg hc]
        rfl

/-- The bytes of a text start with that of a dollar sign when the text starts with one. -/
theorem head?_bytesOf {s : List Char} (h : (bytesOf s).head? = some dollarByte) :
    ∃ t, s = '$' :: t := by
  cases s with
  | nil => cases h
  | cons c s =>
      obtain ⟨b, bs, hb⟩ := List.exists_cons_of_ne_nil (String.utf8EncodeChar_ne_nil (c := c))
      rw [bytesOf, List.flatMap_cons, hb] at h
      have hdollar : b = dollarByte := Option.some.inj h
      have hc := (byte_spec (hb ▸ List.mem_cons_self : b ∈ String.utf8EncodeChar c)).2.mp hdollar
      exact ⟨s, by rw [hc]⟩

/-- Bytes other than that of a dollar sign are passed over. -/
theorem spansFrom_append (place : Nat) {bs : List UInt8} (h : dollarByte ∉ bs) (cs : List UInt8) :
    spansFrom place (bs ++ cs) = spansFrom (place + bs.length) cs := by
  induction bs generalizing place with
  | nil => rfl
  | cons b bs ih =>
      rw [List.mem_cons, not_or] at h
      rw [List.cons_append, spansFrom, if_neg fun hif => h.1 hif.1.symm, ih _ h.2, List.length_cons]
      congr 1
      omega

/-- A run of characters of names with a dollar sign behind it ends where its bytes end. -/
theorem exists_of_closed {length : Nat} (hlength : length = (bytesOf (s.takeWhile isNameChar)).length)
    (hclosed : (bytesOf s)[length]? = some dollarByte) :
    ∃ after, s = s.takeWhile isNameChar ++ '$' :: after := by
  have hsplit : s.takeWhile isNameChar ++ s.dropWhile isNameChar = s :=
    List.takeWhile_append_dropWhile
  have hrest : (bytesOf (s.dropWhile isNameChar)).head? = some dollarByte := by
    rw [← hclosed, ← hsplit, bytesOf_append, hsplit, List.getElem?_append_right hlength.ge,
      hlength, Nat.sub_self, List.head?_eq_getElem?]
  obtain ⟨after, hafter⟩ := head?_bytesOf hrest
  exact ⟨after, by rw [← hafter, hsplit]⟩

/-- A place at which no token stands is passed over. -/
theorem spansFrom_cons (place : Nat) {c : Char}
    (h : ∀ name, IsName name → ¬tokenChars name <+: c :: s) :
    spansFrom place (bytesOf (c :: s)) = spansFrom (place + (bytesOf [c]).length) (bytesOf s) := by
  have hcons : bytesOf (c :: s) = bytesOf [c] ++ bytesOf s := bytesOf_append [c] s
  rw [hcons]
  by_cases hc : c = '$'
  · subst hc
    show spansFrom place (dollarByte :: bytesOf s) = spansFrom (place + 1) (bytesOf s)
    rw [spansFrom, if_neg]
    rintro ⟨-, hlength, hclosed⟩
    rw [takeWhile_bytesOf] at hlength hclosed
    obtain ⟨after, hafter⟩ := exists_of_closed rfl hclosed
    refine h (s.takeWhile isNameChar) ⟨?_, List.all_eq_true.mp List.all_takeWhile⟩ ⟨after, ?_⟩
    · intro hnil
      rw [hnil] at hlength
      exact absurd hlength (by decide)
    · conv_rhs => rw [hafter]
      simp [tokenChars]
  · refine spansFrom_append place (fun hmem => hc ?_) _
    obtain ⟨d, hd, hmem⟩ := List.mem_flatMap.mp hmem
    rw [List.mem_singleton.mp hd] at hmem
    exact (byte_spec hmem).2.mp rfl

/-- A token is cut out as a whole, and then what follows it is scanned. -/
theorem spansFrom_token (place : Nat) (hname : IsName name) (after : List Char) :
    spansFrom place (bytesOf (tokenChars name ++ after)) =
      (place + (bytesOf ['$']).length, place + (bytesOf ('$' :: name)).length) ::
        spansFrom (place + (bytesOf (tokenChars name)).length) (bytesOf after) := by
  have hbytes : bytesOf (tokenChars name ++ after) =
      dollarByte :: bytesOf (name ++ '$' :: after) := by
    rw [tokenChars, List.append_assoc]
    rfl
  have hrun : (name ++ '$' :: after).takeWhile isNameChar = name := by
    rw [List.takeWhile_append_of_pos hname.2, List.takeWhile_cons_of_neg (by decide), List.append_nil]
  have hrest : bytesOf (name ++ '$' :: after) = bytesOf name ++ dollarByte :: bytesOf after :=
    bytesOf_append _ _
  have hpos : 0 < (bytesOf name).length := by
    obtain ⟨c, cs, rfl⟩ := List.exists_cons_of_ne_nil hname.1
    rw [bytesOf, List.flatMap_cons, List.length_append, String.length_utf8EncodeChar]
    exact Nat.add_pos_left c.utf8Size_pos _
  have hplace : (bytesOf (tokenChars name)).length = (bytesOf name).length + 2 := by
    rw [tokenChars, bytesOf_append, List.length_append]
    rfl
  have hdrop : (bytesOf name ++ dollarByte :: bytesOf after).drop ((bytesOf name).length + 1) =
      bytesOf after := by
    rw [← List.drop_drop, List.drop_left]
    rfl
  rw [hbytes, spansFrom, takeWhile_bytesOf, hrun, hrest, if_pos ⟨rfl, hpos, by simp⟩, hdrop, hplace]
  congr 2
  rw [Nat.add_assoc, Nat.add_comm 1]
  rfl

/-- The spans of a text, of which `before` has been scanned, cut out the names of its tokens in order. -/
theorem cuts_spansFrom (before s : List Char) :
    List.Forall₂ (fun span name => Cuts (.ofList (before ++ s)) span (.ofList name))
      (spansFrom (bytesOf before).length (bytesOf s)) (tokensFrom none s) := by
  have hutf8 (t : List Char) : Text.utf8 (.ofList t) = bytesOf t := by
    rw [Text.utf8_eq_flatMap, String.toList_ofList]
    rfl
  induction hlength : s.length using Nat.strong_induction_on generalizing before s with
  | _ length ih =>
  cases s with
  | nil =>
      have hnil : bytesOf [] = [] := rfl
      rw [hnil, spansFrom]
      exact .nil
  | cons c s =>
      by_cases hstart : ∃ name, IsName name ∧ tokenChars name <+: c :: s
      · -- The name stands behind the dollar sign, and the scan goes on behind the token.
        obtain ⟨name, hname, after, hafter⟩ := hstart
        have hshort : after.length < length := by
          rw [← hlength, ← hafter]
          simp [tokenChars]
          omega
        rw [← hafter, spansFrom_token _ hname, tokensFrom_token hname]
        refine .cons ⟨.ofList (before ++ ['$']), .ofList ('$' :: after), ?_, ?_⟩ ?_
        · rw [← String.ofList_append, ← String.ofList_append]
          simp [tokenChars]
        · rw [← String.ofList_append, hutf8, hutf8, List.append_assoc, bytesOf_append, bytesOf_append,
            List.length_append, List.length_append]
          rfl
        · have hrest := ih after.length hshort (before ++ tokenChars name) after rfl
          rwa [bytesOf_append, List.length_append, List.append_assoc] at hrest
      · rw [spansFrom_cons _ fun name hname hp => hstart ⟨name, hname, hp⟩,
          tokensFrom_cons fun name hname hp => hstart ⟨name, hname, hp⟩]
        have hrest := ih s.length (by rw [← hlength]; exact Nat.lt_succ_self _) (before ++ [c]) s rfl
        rwa [bytesOf_append, List.length_append, List.append_assoc] at hrest

/-! ## Tokens of a text -/

/-- The tokens of a text are the names of its leftmost matches. A scan of its bytes cuts the same names
out of the text, between characters; and a token is among them wherever the dollar sign that opens it does
not close another one, whatever stands in front of it. -/
theorem tokens_leftmost (text : String) :
    (∀ names : List String, Matches text.toList (names.map String.toList) ↔ tokens text = names) ∧
      List.Forall₂ (Cuts text) (spans (Text.utf8 text)) (tokens text) ∧
      ∀ before name after : String, text = before ++ "$" ++ name ++ "$" ++ after → IsName name.toList →
        tokens (before ++ "$") = tokens before → tokens text = tokens before ++ name :: tokens after := by
  refine ⟨fun names => ?_, ?_, ?_⟩
  · rw [matches_iff, tokens]
    constructor
    · intro h
      rw [h]
      simp
    · rintro rfl
      simp
  · have hcuts := cuts_spansFrom [] text.toList
    rw [List.nil_append, String.ofList_toList] at hcuts
    rw [tokens, List.forall₂_map_right_iff, spans, Text.utf8_eq_flatMap]
    exact hcuts
  · rintro before name after rfl hname hclosing
    have hchars : (before ++ "$" ++ name ++ "$" ++ after).toList =
        before.toList ++ tokenChars name.toList ++ after.toList := by
      simp [tokenChars]
    rw [tokens, tokens, String.toList_append,
      (List.map_injective_iff.mpr fun _ _ => String.ofList_inj.mp).eq_iff] at hclosing
    rw [tokens, hchars, tokensFrom_of_not_closing hname hclosing, List.map_append, List.map_cons,
      String.ofList_toList]
    rfl

/-- A price opens no token, and hides none. -/
theorem tokens_leftmost_price :
    IsName "a".toList ∧ tokens "ü$5 $" = tokens "ü$5 " ∧ tokens "ü$5 $a$b$c$" = ["a", "c"] ∧
      spans (Text.utf8 "ü$5 $a$b$c$") = [(6, 7), (10, 11)] := by
  have hname : IsName "a".toList := ⟨by decide, List.all_eq_true.mp (by decide)⟩
  have hclosing : tokens "ü$5 $" = tokens "ü$5 " := by decide +kernel
  have happly := (tokens_leftmost "ü$5 $a$b$c$").2.2 "ü$5 " "a" "b$c$" rfl hname hclosing
  refine ⟨hname, hclosing, happly.trans (by decide +kernel), by decide +kernel⟩

end AgentCompiler.Prompt
