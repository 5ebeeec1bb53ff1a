import SharedRadio.Scenario.Stage

/-!
# Reports of scenarios

A scenario is played from its first step to its last, and every step is reported by itself: its
result, what was seen of it, and the station after it. In what is seen, neighbouring writes of the
request line stand together as one item. Log lines are left out of a report, and of what counts as a
neighbour, unless they were asked for.

The number of transitions allowed for a step is the weight of the whole scenario. No step can need
more: whatever it leads to was brought by it or by a step before it.
-/

namespace SharedRadio.Scenario

open Coexistence

/-- A write of the request line. -/
structure Write where
  /-- The level that was to be driven. -/
  level : Bool
  /-- Whether the line took it. -/
  landed : Bool
  /-- The tick at which it was driven. -/
  tick : UInt32

/-- An item of a report. -/
inductive Item where
  /-- Some writes of the request line with nothing in between. -/
  | line (writes : List Write)
  /-- Anything else. -/
  | other (happening : Happening)

namespace Item

/-- Put one more happening before the items that follow it. -/
def cons : Happening → List Item → List Item
  | .seen (.wrote level landed tick), .line writes :: items =>
    .line (⟨level, landed, tick⟩ :: writes) :: items
  | .seen (.wrote level landed tick), items => .line [⟨level, landed, tick⟩] :: items
  | happening, items => .other happening :: items

/-- Whether a happening is a log line. -/
def isLog : Happening → Bool
  | .seen (.logged _) => true
  | _ => false

/-- The items of some happenings, which are given newest first. -/
def ofHappenings (logging : Bool) (happened : List Happening) : List Item :=
  happened.foldl (fun items h => if isLog h && !logging then items else cons h items) []

end Item

/-- What is reported of a step. -/
structure Report where
  /-- The result of the step. -/
  result : Result
  /-- What was seen of it. -/
  items : List Item
  /-- The station after it. -/
  station : Station Nat DualClock

end Scenario

/-- A station that is played with, step by step. -/
structure Scenario where
  /-- Whether the arbiter lets priorities displace the owner at the beginning. -/
  preemption : Bool
  /-- Whether log lines are reported. -/
  logging : Bool
  /-- The steps. -/
  steps : List Scenario.Step

namespace Scenario

/-- Perform some steps with a number of transitions allowed for each, and report each. -/
def reportAll (logging : Bool) (transitions : Nat) : World → List Step → List Report
  | _, [] => []
  | w, step :: rest =>
    -- The step itself is no part of the stack: its result ends the performance.
    let (result, after) :=
      ((Stage.mk w (.perform step) []).run transitions).getD (.single .endless, w)
    { result, items := Item.ofHappenings logging after.happened, station := after.station } ::
      reportAll logging transitions { after with happened := [] } rest

/-- Play a scenario. -/
def play (s : Scenario) : List Report :=
  reportAll s.logging (totalWeight s.steps) { station := { arbiter := .idle s.preemption } } s.steps

end Scenario

end SharedRadio
