import AgentCompiler.Document.Node
import AgentCompiler.Table

/-!
# Building TOML tables

A TOML text defines tables in pieces: by headers, by dotted keys and by values. No table may be defined
twice, and nothing may be added to a value. A `Part` remembers how it came to be, which decides what may
still be added to it.
-/

namespace AgentCompiler.Document.Toml

/-- How a table came to be. -/
inductive Origin
  /-- By a longer header that passes through it. -/
  | passed
  /-- By a header of its own. -/
  | header
  /-- By a dotted key. -/
  | dotted
deriving DecidableEq

/-- A part of the document that is being built. -/
inductive Part
  | value (n : Node)
  | table (origin : Origin) (members : List (String × Part))
  /-- An array of tables that headers add to, the last one first. -/
  | tables (last : List (String × Part)) (before : List (List (String × Part)))

/-- Changes the table that a path of headers leads to; missing tables on the way are made. -/
def atHeader : (path : List String) → (f : Table Part → Option (Table Part)) → Table Part →
    Option (Table Part)
  | [], f, t => f t
  | key :: path, f, t =>
    match t.lookup key with
    | none => (atHeader path f []).map fun inner => Table.insert key (.table .passed inner) t
    | some (.table origin inner) =>
      (atHeader path f inner).map fun inner => Table.insert key (.table origin inner) t
    | some (.tables last before) =>
      (atHeader path f last).map fun inner => Table.insert key (.tables inner before) t
    | some (.value _) => none

/-- Defines a table by its header. -/
def defineTable (key : String) (t : Table Part) : Option (Table Part) :=
  match t.lookup key with
  | none => some (Table.insert key (.table .header []) t)
  | some (.table .passed inner) => some (Table.insert key (.table .header inner) t)
  | _ => none

/-- Adds a table to an array of tables. -/
def appendTable (key : String) (t : Table Part) : Option (Table Part) :=
  match t.lookup key with
  | none => some (Table.insert key (.tables [] []) t)
  | some (.tables last before) => some (Table.insert key (.tables [] (last :: before)) t)
  | _ => none

/-- Adds a value under a dotted key, whose last component comes last. -/
def define (value : Node) : (path : List String) → Table Part → Option (Table Part)
  | [], _ => none
  | [key], t => if (t.lookup key).isSome then none else some (Table.insert key (.value value) t)
  | key :: path, t =>
    match t.lookup key with
    | none => (define value path []).map fun inner => Table.insert key (.table .dotted inner) t
    | some (.table .dotted inner) =>
      (define value path inner).map fun inner => Table.insert key (.table .dotted inner) t
    | _ => none

mutual
/-- A part as a node. -/
def Part.toNode : Part → Node
  | .value n => n
  | .table _ members => .map (entries members) true
  | .tables last before => .seq (nodes before ++ [.map (entries last) true]) true
/-- The members of a table as entries. -/
def Part.entries : List (String × Part) → List (Key × Node)
  | [] => []
  | (k, p) :: ps => (.text k, toNode p) :: entries ps
/-- Tables as nodes, the last one first. -/
def Part.nodes : List (List (String × Part)) → List Node
  | [] => []
  | t :: ts => nodes ts ++ [.map (entries t) true]
end

end AgentCompiler.Document.Toml
