import AgentCompiler.Document.CoreScalar
import AgentCompiler.Document.Fault

/-!
# Decoding documents

A decoder takes what it needs out of a node, going through it in the order of the text, and reports the
first fault that it meets. Unknown members of a record are skipped, and so only have to be well formed.
-/

namespace AgentCompiler.Document

/-- Where a node comes from; some faults are told apart by it. -/
inductive Source
  /-- A value that was read as a whole before. -/
  | value
  /-- A text that is decoded while it is read. -/
  | text
  /-- A part that was put aside until its kind was known. -/
  | aside
  /-- A table, whose arrays may hold more than is asked for. -/
  | table
deriving DecidableEq

/-- A decoder, given how deep the node may nest. -/
abbrev Decoder (α : Type) := Source → (depth : Nat) → Node → Except Fault α

mutual
/-- Whether the text of a node is well formed. -/
def Node.wellFormed : Node → Bool
  | .seq items ended => wellFormedItems items && ended
  | .map entries ended => wellFormedEntries entries && ended
  | .broken => false
  | _ => true
/-- Whether the texts of all items are well formed. -/
def Node.wellFormedItems : List Node → Bool
  | [] => true
  | n :: ns => wellFormed n && wellFormedItems ns
/-- Whether the texts of all entries are well formed. -/
def Node.wellFormedEntries : List (Key × Node) → Bool
  | [] => true
  | (_, n) :: es => wellFormed n && wellFormedEntries es
end

/-- A scalar that is in range and made of characters. -/
def Node.scalar? : Node → Option Node
  | .num none => none
  | .str none => none
  | .broken => none
  | n => some n

/-- A key put aside: a key without quotes is a text only where a value would be one. -/
def Key.settle : Key → Key
  | plain s =>
    match CoreScalar.settle s with
    | .str (some t) => text t
    | .num none => broken
    | _ => plain s
  | k => k

/-- A node put aside: its scalars without quotes stand for what they would anywhere, and it is well
formed and nests at most `depth` deep. `settleKey` tells what becomes of its keys. -/
def Node.settle? (settleKey : Key → Key) : (depth : Nat) → Node → Option Node
  | depth + 1, .seq items true => (items.mapM (settle? settleKey depth)).map (.seq · true)
  | depth + 1, .map entries true =>
    (entries.mapM fun (e : Key × Node) => do
      let value ← settle? settleKey depth e.2
      if settleKey e.1 = Key.broken then none else pure (settleKey e.1, value)).map (.map · true)
  | _, .seq _ _ => none
  | _, .map _ _ => none
  | _, .plain s => (CoreScalar.settle s).scalar?
  | _, n => n.scalar?

namespace Decode

/-- The node is not of the kind that is asked for. -/
def mismatch {α : Type} (n : Node) (expected : String) : Except Fault α :=
  match n with
  | .broken | .str none | .num none => .error .malformed
  | n => .error (.wrongKind n.shown expected)

/-- A text. A scalar without quotes is the text it is written as. -/
def text : Decoder String := fun _ _ n =>
  match n with
  | .str (some s) => .ok s
  | .plain s => .ok s
  | n => mismatch n "a string"

/-- A truth value. -/
def bool : Decoder Bool := fun _ _ n =>
  match n with
  | .bool b => .ok b
  | .plain s =>
    match CoreScalar.bool? s with
    | some b => .ok b
    | none => mismatch n "a boolean"
  | n => mismatch n "a boolean"

/-- A natural number of a number of bits. -/
def word (bits : Nat) : Decoder Nat := fun _ _ n =>
  let expected := "u" ++ Decimal.natural bits
  let check (k : Int) : Except Fault Nat :=
    if 0 ≤ k ∧ k < Nat.pow 2 bits then .ok k.toNat
    else .error (.wrongValue (Number.shown (.integer k)) expected)
  match n with
  | .num (some (.integer k)) => check k
  | .plain s =>
    match CoreScalar.nat? s with
    | some k => check k
    | none => mismatch n expected
  | n => mismatch n expected

/-- A floating-point number; an integer is one too. -/
def real : Decoder Binary64 := fun _ _ n =>
  match n with
  | .num (some k) => .ok k.toReal
  | .plain s =>
    match CoreScalar.real? s with
    | some x => .ok x
    | none => mismatch n "f64"
  | n => mismatch n "f64"

/-- Any value. Every key without quotes is a text, unless the value was put aside before. -/
def json : Decoder Json := fun source depth n =>
  match n.settle? (if source = .aside then Key.settle else Key.asText) depth with
  | some m =>
    match m.toJson? depth with
    | some j => .ok j
    | none => .error .malformed
  | none => .error .malformed

/-- A value that may be null. -/
def optional {α : Type} (d : Decoder α) : Decoder (Option α) := fun source depth n =>
  match n with
  | .null => .ok none
  | .plain s => if CoreScalar.isNull s then .ok none else some <$> d source depth n
  | n => some <$> d source depth n

/-- Checks that the end of a container was reached. -/
def close {α : Type} (ended : Bool) (a : α) : Except Fault α :=
  if ended then .ok a else .error .malformed

/-- A sequence. A scalar without quotes and without text is an empty one. -/
def list {α : Type} (d : Decoder α) : Decoder (List α) := fun source depth n =>
  match depth, n with
  | 0, .seq _ _ => .error .malformed
  | depth + 1, .seq items ended => do close ended (← items.mapM (d source depth))
  | _, .plain "" => .ok []
  | _, n => mismatch n "a sequence"

/-- The value of a name. -/
def variant {α : Type} (known : List (String × α)) (name : String) : Except Fault α :=
  match known.lookup name with
  | some a => .ok a
  | none => .error (.unknownVariant name (known.map Prod.fst))

/-- A part that holds nothing. -/
def nothing (n : Node) : Except Fault Unit :=
  match n with
  | .null => .ok ()
  | n => mismatch n "unit"

/-- The name that a key is. -/
def nameOf (key : Key) : Except Fault String :=
  match key.text? with
  | some name => .ok name
  | none => .error .malformed

/-- One of several names, as a text or as the only key of a mapping to null. -/
def name {α : Type} (known : List (String × α)) : Decoder α := fun source _ n =>
  match n with
  | .str (some s) => variant known s
  | .plain s => variant known s
  | .map entries ended =>
    match source, entries with
    | .text, (key, value) :: rest => do
      let a ← variant known (← nameOf key)
      nothing value
      close (ended && rest.isEmpty) a
    | .text, _ => .error .malformed
    | _, [(key, value)] => do
      let a ← variant known (← nameOf key)
      nothing value
      .ok a
    | _, _ => .error (.wrongValue "map" "map with a single key")
  | n => if source = .text then .error .malformed else mismatch n "string or map"

/-- Texts under names. -/
def textMap : Decoder (List (String × String)) := fun source depth n =>
  match depth, n with
  | depth + 1, .map es ended => do
    close ended (← es.mapM fun (k, v) => do pure (← nameOf k, ← text source depth v))
  | _, n => mismatch n "a map"

/-! ## Records -/

/-- A field of a record: its value is set in a draft of the record. -/
structure Slot (σ : Type) where
  name : String
  /-- Whether a mapping has to hold it. -/
  required : Bool
  /-- Whether a sequence has to hold it. -/
  placed : Bool
  read : Decoder (σ → σ)

/-- A field that has to be there. -/
def required {σ α : Type} (name : String) (d : Decoder α) (set : σ → α → σ) : Slot σ :=
  ⟨name, true, true, fun source depth n => (fun a s => set s a) <$> d source depth n⟩

/-- A field that keeps its default when it is not there. -/
def defaulted {σ α : Type} (name : String) (d : Decoder α) (set : σ → α → σ) : Slot σ :=
  { required name d set with required := false, placed := false }

/-- A field that may be missing in a mapping, but has its place in a sequence. -/
def positional {σ α : Type} (name : String) (d : Decoder α) (set : σ → α → σ) : Slot σ :=
  { required name d set with required := false }

/-- The field that a key stands for, if any. A key put aside that is no text may be the place of a
field. -/
def fieldOf {σ : Type} (fields : List (Slot σ)) (source : Source) (key : Key) :
    Except Fault (Option (Slot σ)) :=
  match source, key with
  | .aside, .plain s =>
    match CoreScalar.settle s with
    | .num (some (.integer (.ofNat place))) => .ok fields[place]?
    | _ => .error .malformed
  | _, key => do
    let name ← nameOf key
    .ok (fields.find? fun f => f.name = name)

/-- Reads the entries of a record: the draft, and the names of the fields that were set. -/
def entries {σ : Type} (fields : List (Slot σ)) (source : Source) (depth : Nat) :
    List (Key × Node) → (σ × List String) → Except Fault (σ × List String)
  | [], draft => .ok draft
  | (key, n) :: es, (s, seen) => do
    match ← fieldOf fields source key with
    | none => if n.wellFormed then entries fields source depth es (s, seen) else .error .malformed
    | some f =>
      if seen.contains f.name then .error (.duplicateField f.name)
      else
        let set ← f.read source depth n
        entries fields source depth es (set s, f.name :: seen)

/-- A count with its noun. -/
def elements (n : Nat) : String := Decimal.natural n ++ if n = 1 then " element" else " elements"

/-- Reads the items of a record that is given as a sequence of its fields in order. -/
def fieldItems {σ : Type} (expected : String) (total : Nat) (source : Source) (depth : Nat) :
    (index : Nat) → List (Slot σ) → List Node → σ → Except Fault (σ × List Node)
  | _, [], rest, s => .ok (s, rest)
  | index, f :: fs, [], s =>
    if f.placed then .error (.wrongLength index (expected ++ " with " ++ elements total))
    else fieldItems expected total source depth (index + 1) fs [] s
  | index, f :: fs, n :: ns, s => do
    let set ← f.read source depth n
    fieldItems expected total source depth (index + 1) fs ns (set s)

/-- Items that are left over when a record is given as a sequence. -/
def leftOver (source : Source) (count left : Nat) : Fault :=
  match source with
  | .value => .wrongLength (count + left) "fewer elements in array"
  | .text | .table => .malformed
  | .aside => .wrongLength (count + left) (elements count ++ " in sequence")

/-- A record: its fields in declaration order, and the draft that holds their defaults. It is given as
a mapping, or as a sequence of its fields. -/
def record {σ : Type} (expected : String) (fields : List (Slot σ)) (start : σ) : Decoder σ :=
  fun source depth n =>
    match depth, n with
    | 0, .map _ _ | 0, .seq _ _ => .error .malformed
    | depth + 1, .map es ended => do
      let (s, seen) ← entries fields source depth es (start, [])
      let s ← close ended s
      match fields.find? fun f => f.required && !seen.contains f.name with
      | some f => .error (.missingField f.name)
      | none => .ok s
    | depth + 1, .seq items ended => do
      let (s, rest) ← fieldItems expected fields.length source depth 0 fields items start
      if rest.isEmpty || source = .table then close ended s
      else .error (leftOver source fields.length rest.length)
    | _, .plain "" =>
      match fields.find? (·.required) with
      | some f => .error (.missingField f.name)
      | none => .ok start
    | _, n => mismatch n expected

/-! ## Variants -/

/-- Reads the entries of a tagged value: the tag, and the other entries put aside. -/
def taggedEntries {τ : Type} (tags : List (String × τ)) (depth : Nat) :
    List (Key × Node) → Option τ → Except Fault (Option τ × List (Key × Node))
  | [], tag => .ok (tag, [])
  | (key, n) :: es, tag =>
    if key.text? = some "kind" then
      if tag.isSome then .error (.duplicateField "kind")
      else
        match n with
        | .str (some s) | .plain s => do
          let t ← variant tags s
          taggedEntries tags depth es (some t)
        | n => mismatch n "variant identifier"
    else
      match key.settle, n.settle? Key.settle depth with
      | .broken, _ | _, none => .error .malformed
      | key, some m => do
        let (tag, rest) ← taggedEntries tags depth es tag
        .ok (tag, (key, m) :: rest)

/-- A value whose member `kind` tells which variant it is; the variant is decoded from the other
members. It may also be given as a sequence that starts with the tag. -/
def tagged {τ α : Type} (expected : String) (tags : List (String × τ)) (body : τ → Decoder α) :
    Decoder α := fun _ depth n =>
  match depth, n with
  | 0, .map _ _ | 0, .seq _ _ => .error .malformed
  | depth + 1, .map es ended => do
    let (tag, rest) ← taggedEntries tags depth es none
    let rest ← close ended rest
    match tag with
    | none => .error (.missingField "kind")
    | some t => body t .aside (depth + 1) (.map rest true)
  | depth + 1, .seq items ended =>
    match items with
    | [] => do close ended (← .error (.missingField "kind"))
    | first :: rest =>
      match first with
      | .str (some s) | .plain s => do
        let t ← variant tags s
        match rest.mapM (Node.settle? Key.settle depth) with
        | none => .error .malformed
        | some rest => do close ended (← body t .aside (depth + 1) (.seq rest true))
      | first => mismatch first "variant identifier"
  | _, n => mismatch n expected

/-- A variant that holds nothing; what else is there is skipped. -/
def unitVariant {α : Type} (a : α) : Decoder α := fun _ _ _ => .ok a

end Decode

end AgentCompiler.Document
