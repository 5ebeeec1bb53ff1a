import SharedRadio.Station

/-!
# Results of steps

A step that is an operation has an outcome. A step that repeats others has the results of all of
them, in order, with equal neighbours counted together. The run under way is kept at the front while
such a list grows, so that `Result.push` looks at one entry only.
-/

namespace SharedRadio.Scenario

/-- The result of a step. -/
inductive Result where
  /-- The outcome of an operation. -/
  | single (outcome : Outcome)
  /-- The results of repeated steps, each with the length of its run. -/
  | runs (results : List (Result × Nat))

namespace Result

mutual

/-- Whether two results are equal. -/
def same : Result → Result → Bool
  | .single a, .single b => a = b
  | .runs a, .runs b => sameRuns a b
  | _, _ => false

/-- Whether two lists of runs are equal. -/
def sameRuns : List (Result × Nat) → List (Result × Nat) → Bool
  | [], [] => true
  | (a, m) :: rest, (b, n) :: others => a.same b && m = n && sameRuns rest others
  | _, _ => false

end

/-- Whether a result tells of a failure. -/
def isFailure : Result → Bool
  | single outcome => outcome.isFailure
  | runs _ => false

/-- One more result in front of the runs that were before it, newest first. -/
def push (r : Result) : List (Result × Nat) → List (Result × Nat)
  | [] => [(r, 1)]
  | (last, n) :: rest => if r.same last then (last, n + 1) :: rest else (r, 1) :: (last, n) :: rest

end Result

end SharedRadio.Scenario
