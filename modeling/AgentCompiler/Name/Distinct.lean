import AgentCompiler.Decimal.Layout

/-!
# Distinct names

Repeated names get a counter, `_2`, `_3` and so on. The first occurrence of a name keeps it, and a
counter is passed over when the name it would make stands anywhere in the list or was made before.
-/

namespace AgentCompiler.Name

/-- A name with a counter. -/
def numbered (name : String) (k : Nat) : String := name ++ "_" ++ Decimal.natural k

/-- The least counter above `k` whose name is not to be avoided, looking at `tries` of them. -/
def freeCounter (avoid : List String) (name : String) : (tries k : Nat) → Nat
  | 0, k => k + 1
  | tries + 1, k =>
    if avoid.contains (numbered name (k + 1)) then freeCounter avoid name tries (k + 1) else k + 1

/-- What has been handed out so far. -/
structure Handed where
  /-- The names handed out. -/
  taken : List String := []
  /-- The last counter of each name that was repeated. -/
  counters : List (String × Nat) := []

/-- Hands out one name, `names` being the whole list. Of the counters above the last one, one more
than there are names to avoid is enough to find a free one. -/
def Handed.next (names : List String) (h : Handed) (name : String) : String × Handed :=
  if h.taken.contains name then
    let avoid := names ++ h.taken
    let k := freeCounter avoid name avoid.length ((h.counters.lookup name).getD 1)
    let fresh := numbered name k
    (fresh, ⟨fresh :: h.taken, (name, k) :: h.counters⟩)
  else
    (name, { h with taken := name :: h.taken })

/-- The names from here on, `names` being the whole list. -/
def distinctFrom (names : List String) : Handed → List String → List String
  | _, [] => []
  | h, n :: ns => let (fresh, h) := h.next names n; fresh :: distinctFrom names h ns

/-- The names with counters on the repeated ones. -/
def distinct (names : List String) : List String := distinctFrom names {} names

end AgentCompiler.Name
