import AgentCompiler.Decimal.Layout

/-!
# Days

A log has a file for each day, named after the day by the calendar.
-/

namespace AgentCompiler.Files

/-- A day of the calendar. -/
structure Day where
  year : Nat
  month : Nat
  day : Nat
deriving DecidableEq

namespace Day

/-- Whether February has a twenty-ninth day. -/
def isLeap (year : Nat) : Bool := year % 4 = 0 && (year % 100 != 0 || year % 400 = 0)

/-- The last day of a month. -/
def lastOf (year month : Nat) : Nat :=
  if month = 2 then if isLeap year then 29 else 28
  else if [4, 6, 9, 11].contains month then 30
  else 31

/-- The next day. -/
def next (d : Day) : Day :=
  if d.day < lastOf d.year d.month then { d with day := d.day + 1 }
  else if d.month < 12 then { d with month := d.month + 1, day := 1 }
  else ⟨d.year + 1, 1, 1⟩

/-- The day that comes a number of days after the first one of 1970. -/
def ofCount (n : Nat) : Day := n.repeat next ⟨1970, 1, 1⟩

/-- A number with zeros in front of it, up to a width. -/
def padded (width n : Nat) : List Char :=
  let digits := Decimal.digitChars n
  List.replicate (width - digits.length) '0' ++ digits

/-- The year, the month and the day, in digits. -/
def text (d : Day) : String :=
  .ofList (padded 4 d.year ++ '-' :: padded 2 d.month ++ '-' :: padded 2 d.day)

/-- The name of a log's file of a day. -/
def fileName (d : Day) (log : String) : String := log ++ "." ++ d.text

example : (ofCount 789).fileName "log" = "log.1972-02-29" := by decide +kernel

end Day

end AgentCompiler.Files
