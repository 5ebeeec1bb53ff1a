import SharedRadio.Signal.Message

/-!
# Counting what happened

Six counts for each direction. A count that has reached the largest word stays there, which
`toNat_saturatingSucc` says of one step.
-/

namespace SharedRadio.Coexistence

/-- Something that is counted for a direction. -/
inductive Occurrence where
  /-- A request was signalled. -/
  | request
  /-- A receive request of low priority was granted without signalling. -/
  | immediateGrant
  /-- A request was granted after its sample window. -/
  | grant
  /-- A request was still denied when its sample window had passed. -/
  | timeout
  /-- Access was released while the direction's deny line was the monitored one. -/
  | release
  /-- The direction's deny line withdrew access. -/
  | abort
  deriving DecidableEq

/-- The counts of one direction. -/
structure Tally where
  /-- The count of `Occurrence.request`. -/
  requests : UInt32 := 0
  /-- The count of `Occurrence.immediateGrant`. -/
  immediateGrants : UInt32 := 0
  /-- The count of `Occurrence.grant`. -/
  grants : UInt32 := 0
  /-- The count of `Occurrence.timeout`. -/
  timeouts : UInt32 := 0
  /-- The count of `Occurrence.release`. -/
  releases : UInt32 := 0
  /-- The count of `Occurrence.abort`. -/
  aborts : UInt32 := 0
  deriving DecidableEq

/-- One more, unless the count is as large as a word can be. -/
def saturatingSucc (n : UInt32) : UInt32 := if n = 0xFFFFFFFF then n else n + 1

theorem toNat_saturatingSucc (n : UInt32) :
    (saturatingSucc n).toNat = min (n.toNat + 1) (UInt32.size - 1) := by
  have hsize : UInt32.size = 4294967296 := rfl
  have hlt := n.toNat_lt
  unfold saturatingSucc
  split
  · next h => subst h; rfl
  · next h =>
    have hne : n.toNat ≠ 4294967295 := fun e => h (UInt32.toNat_inj.1 e)
    rw [UInt32.toNat_add, UInt32.toNat_one, Nat.mod_eq_of_lt (by omega)]
    omega

namespace Tally

/-- The counts with one more occurrence. -/
def bump (t : Tally) : Occurrence → Tally
  | .request => { t with requests := saturatingSucc t.requests }
  | .immediateGrant => { t with immediateGrants := saturatingSucc t.immediateGrants }
  | .grant => { t with grants := saturatingSucc t.grants }
  | .timeout => { t with timeouts := saturatingSucc t.timeouts }
  | .release => { t with releases := saturatingSucc t.releases }
  | .abort => { t with aborts := saturatingSucc t.aborts }

end Tally

/-- The counts of both directions. -/
structure Statistics where
  /-- The counts of `Direction.rx`. -/
  rx : Tally := {}
  /-- The counts of `Direction.tx`. -/
  tx : Tally := {}
  deriving DecidableEq

namespace Statistics

/-- The counts of a direction. -/
def tally (s : Statistics) : Direction → Tally
  | .rx => s.rx
  | .tx => s.tx

/-- The counts with one more occurrence for a direction. -/
def bump (s : Statistics) (d : Direction) (o : Occurrence) : Statistics :=
  match d with
  | .rx => { s with rx := s.rx.bump o }
  | .tx => { s with tx := s.tx.bump o }

@[simp] theorem tally_bump_self (s : Statistics) (d : Direction) (o : Occurrence) :
    (s.bump d o).tally d = (s.tally d).bump o := by cases d <;> rfl

theorem tally_bump_of_ne (s : Statistics) {d e : Direction} (h : e ≠ d) (o : Occurrence) :
    (s.bump d o).tally e = s.tally e := by
  cases d <;> cases e <;> first | rfl | exact absurd rfl h

end Statistics

end SharedRadio.Coexistence
