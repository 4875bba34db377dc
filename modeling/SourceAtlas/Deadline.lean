import SourceAtlas.Pattern.Match

/-!
# Time budgets for pattern matching

The patterns of one file are matched under a deadline.  The clock is no part of this
library: a deadline says how much of its budget is spent, and the time that the patterns
themselves take is not counted.  So a budget of no time at all has run out from the
beginning, and one that is not spent yet is taken to last.
-/

namespace SourceAtlas

/-- How long the patterns of a file may take. -/
inductive Deadline where
  | unbounded
  /-- A budget, of which some time is spent. -/
  | after (milliseconds : Nat) (elapsed : Nat := 0)
  deriving DecidableEq, Repr, Inhabited

/-- A budget that has run out. -/
structure Timeout where
  /-- The budget that was given. -/
  milliseconds : Nat
  deriving DecidableEq, Repr, Inhabited

def Timeout.message (timeout : Timeout) : String :=
  "pattern matching exceeded its " ++ toString timeout.milliseconds ++ "ms budget"

namespace Deadline

/-- Whether the budget has run out. -/
def expired : Deadline → Bool
  | unbounded => false
  | after milliseconds elapsed => milliseconds ≤ elapsed

/-- Fails when the budget has run out. -/
def check : Deadline → Except Timeout Unit
  | unbounded => .ok ()
  | after milliseconds elapsed =>
      if milliseconds ≤ elapsed then .error ⟨milliseconds⟩ else .ok ()

end Deadline

/-- The matches of a pattern in a text, unless the budget has run out. -/
def Pattern.matchesWithin (pattern : Pattern) (deadline : Deadline) (text : Text) :
    Except Timeout (List Match) := do
  deadline.check
  return pattern.matchesIn text

/-- The leftmost match of a pattern in a text, unless the budget has run out. -/
def Pattern.firstWithin (pattern : Pattern) (deadline : Deadline) (text : Text) :
    Except Timeout (Option Match) := do
  deadline.check
  return pattern.firstMatch? text

end SourceAtlas
