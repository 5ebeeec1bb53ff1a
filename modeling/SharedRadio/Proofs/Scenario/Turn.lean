import Mathlib.Algebra.GroupWithZero.Nat
import SharedRadio.Proofs.Arbiter.Run
import SharedRadio.Proofs.Station.Arbitration
import SharedRadio.Scenario.Stage

/-!
# One transition of a scenario

A scenario is played by a machine with a stack of frames, which knows the scripts of its sinks and
the engine beside the arbiter. As far as the arbiter is concerned, every state of that machine is
one of a run: the operations that wait in the run are the notification that is to be delivered and
the replies that are under way, in the same order.

`Turn` says all that a transition can do. It is one move of the run, or none. Beside that it says
what becomes of the `burden` of a stage, which counts all that the steps and replies in sight can
still lead to; and whether a reply is used up. `goes_advance` opens the code of the machine, and
nothing after it does.
-/

namespace SharedRadio.Scenario

open Arbiter Coexistence

/-! ## Stages and runs -/

/-- The operation that goes on when a notification has been answered which is to be delivered. -/
def Control.waiting? : Control → Option (Waiting Nat)
  | .deliver _ waiting => some waiting
  | _ => none

/-- The operation that goes on when a reply is closed. -/
def Frame.waiting? : Frame → Option (Waiting Nat)
  | .reply _ waiting _ _ _ => some waiting
  | .repetition .. => none

/-- A stage shows a run: the arbiter is the same, and so are the operations that wait. -/
structure Stage.Shows (s : Stage) (r : Run Nat) : Prop where
  arbiter : s.world.station.arbiter = r.arbiter
  pending : r.pending.map Pending.waiting =
    s.control.waiting?.toList ++ s.frames.filterMap Frame.waiting?

/-! ## The move that a transition is -/

/-- The operation of the station with which a step begins, if it is one. -/
def World.operation? (w : World) : Step → Option (Station.Call Nat DualClock)
  | .register slot p priority _ => some (.arbiter (.register slot p priority w.sinks.size))
  | .registerThroughEngine p priority _ =>
    some (.throughEngine (.register .coexistence p priority w.sinks.size))
  | .arbiter c => some (.arbiter (c.map Empty.elim))
  | .install config rig => some (.install config rig)
  | .engine operation => some (.engine operation)
  | .interrupt line => some (.interrupt line)
  | .adjust adjustment => some (.disturb fun rig => adjustment.apply rig)
  | .ask _ | .repeated _ _ => none

/-- The word with which a sink closes a reply, whose last step failed or not. -/
def Closing.answer (closing : Closing) (failed : Bool) : Answer :=
  match closing with
  | .word answer => answer
  | .asLastStep => Answer.ofBool !failed

namespace Stage

/-- The reply that a transition uses up, if it delivers a notification for which one is left. -/
def reply? (s : Stage) : Option (Reply Step) :=
  match s.control with
  | .deliver n _ => ((s.world.script n.sink).take? n.event).map Prod.fst
  | _ => none

/-- The move of the run that a transition is, if it is one. -/
def move? (s : Stage) : Option (Move Nat) :=
  match s.control, s.frames with
  | .perform step, _ =>
    ((s.world.operation? step).bind s.world.station.arbiterCall?).map .call
  | .deliver n _, _ =>
    match s.reply? with
    | none => some (.answer ((s.world.script n.sink).answer n.event))
    | some ⟨_, [], closing⟩ => some (.answer (closing.answer false))
    | some ⟨_, _ :: _, _⟩ => none
  | .settled result, .reply _ _ _ [] closing :: _ =>
    some (.answer (closing.answer result.isFailure))
  | .settled _, _ => none

end Stage

/-! ## The burden of a stage -/

/-- The weight of all that the sinks have left. -/
def World.weight (w : World) : Nat := (w.sinks.toList.map Script.weight).sum

/-- The weight of what comes next. -/
def Control.weight : Control → Nat
  | .perform step => step.weight
  | .deliver .. | .settled _ => 1

/-- The weight of the steps that something under way has left. -/
def Frame.weight : Frame → Nat
  | .reply _ _ _ rest _ => 1 + totalWeight rest
  | .repetition left body rest _ => 1 + totalWeight rest + left * totalWeight body

/-- The weight of all that is in sight, without the operations that are under way. -/
def Stage.burden (s : Stage) : Nat :=
  s.world.weight + (s.control.weight + (s.frames.map Frame.weight).sum)

/-- What comes next after a leg of the arbiter. -/
def Control.ofLeg (l : Leg Nat) : Control :=
  match l.progress with
  | .finished result => .settled (.single (.ofResult result))
  | .notifies n w => .deliver n w

/-- What a transition can do: the stage and the run before it, the stage and the run after it, and
whether it uses up a reply. -/
inductive Turn (s : Stage) (r : Run Nat) (s' : Stage) : Run Nat → Bool → Prop where
  /-- It does nothing to the arbiter, and no notification is to be delivered before it or after it.
  -/
  | rests (before : s.control.waiting? = none) (after : s'.control.waiting? = none)
      (burden : s'.burden < s.burden) : Turn s r s' r false
  /-- A sink that is notified begins with the steps of a reply. -/
  | replies {n : Notification Nat} {waiting : Waiting Nat} (before : s.control = .deliver n waiting)
      (after : s'.control.waiting? = none) (burden : s'.burden < s.burden) : Turn s r s' r true
  /-- An operation of the arbiter begins. -/
  | calls (c : Call Nat) (before : s.control.waiting? = none)
      (after : s'.control = .ofLeg (r.arbiter.call c))
      (burden : s'.burden + (Protocol.count + 3) = s.burden) : Turn s r s' (r.step (.call c)) false
  /-- A sink that is notified answers, and has no reply left. -/
  | answers {f : Pending Nat} {others : List (Pending Nat)} {n : Notification Nat} (b : Answer)
      (waits : r.pending = f :: others) (before : s.control = .deliver n f.waiting)
      (after : s'.control = .ofLeg (r.arbiter.resume f.waiting b))
      (burden : s'.burden = s.burden) : Turn s r s' (r.step (.answer b)) false
  /-- A sink that is notified answers with a reply that has no steps. -/
  | answersAtOnce {f : Pending Nat} {others : List (Pending Nat)} {n : Notification Nat}
      (b : Answer) (waits : r.pending = f :: others) (before : s.control = .deliver n f.waiting)
      (after : s'.control = .ofLeg (r.arbiter.resume f.waiting b))
      (burden : s'.burden < s.burden) : Turn s r s' (r.step (.answer b)) true
  /-- A sink that has taken the steps of a reply answers. -/
  | closes {f : Pending Nat} {others : List (Pending Nat)} (b : Answer)
      (waits : r.pending = f :: others) (before : s.control.waiting? = none)
      (after : s'.control = .ofLeg (r.arbiter.resume f.waiting b))
      (burden : s'.burden < s.burden) : Turn s r s' (r.step (.answer b)) false

/-- A transition takes a stage that shows a run to one that shows a run, in one of these ways. -/
structure Goes (s : Stage) (r : Run Nat) (s' : Stage) (r' : Run Nat) (used : Bool) : Prop where
  shows : s'.Shows r'
  turn : Turn s r s' r' used

namespace Stage

variable {w : World} {frames : List Frame} {r : Run Nat}

/-! ## Reactions of the station -/

/-- A reaction to a leg of the arbiter shows the run after the moment of that leg. -/
theorem react_ofLeg (w : World) (station : Station Nat DualClock) (sightings : List Sighting)
    {m : Moment Nat} {others : List (Pending Nat)}
    (hothers : others.map Pending.waiting = frames.filterMap Frame.waiting?) :
    (react w frames (station.ofLeg sightings m.leg)).Shows (r.after m others) ∧
      (react w frames (station.ofLeg sightings m.leg)).control = .ofLeg m.leg := by
  unfold react Station.ofLeg World.absorb Run.after Control.ofLeg
  cases m.leg.progress with
  | finished result => exact ⟨⟨rfl, hothers⟩, rfl⟩
  | notifies n waiting => exact ⟨⟨rfl, congrArg (waiting :: ·) hothers⟩, rfl⟩

theorem burden_react (w : World) (frames : List Frame) (reaction : Station.Reaction Nat DualClock) :
    (react w frames reaction).burden = w.weight + (1 + (frames.map Frame.weight).sum) := by
  unfold react burden
  cases reaction.progress <;> rfl

/-- An operation of the station is a call in the run, or no move of it. -/
theorem goes_call {step : Step} (h : (⟨w, .perform step, frames⟩ : Stage).Shows r) (w' : World)
    (hstation : w'.station = w.station) (hweight : w'.weight + callWeight = w.weight + step.weight)
    (c : Station.Call Nat DualClock) :
    Goes ⟨w, .perform step, frames⟩ r (call w' frames c)
      (((w.station.arbiterCall? c).map Move.call).elim r r.step) false := by
  obtain ⟨harbiter, hpending⟩ := h
  have hburden : (call w' frames c).burden + (Protocol.count + 3) =
      (⟨w, .perform step, frames⟩ : Stage).burden := by
    rw [call, burden_react, burden]
    simp only [Control.weight, callWeight] at hweight ⊢
    omega
  unfold call at hburden ⊢
  rw [hstation] at hburden ⊢
  cases hc : w.station.arbiterCall? c with
  | some c' =>
    obtain ⟨station, sightings, hcall⟩ := Station.call_of_arbiterCall?_eq_some hc
    rw [hcall] at hburden ⊢
    rw [show w.station.arbiter = r.arbiter from harbiter] at hburden ⊢
    have hreact := react_ofLeg (r := r) (m := ⟨r.past.length, c', none, r.arbiter⟩) w' station
      sightings hpending
    exact ⟨hreact.1, .calls c' rfl hreact.2 hburden⟩
  | none =>
    obtain ⟨hsame, outcome, hover⟩ := Station.call_of_arbiterCall?_eq_none hc
    unfold react at hburden ⊢
    rw [hover] at hburden ⊢
    exact ⟨⟨hsame.trans harbiter, hpending⟩, .rests rfl rfl (by omega)⟩

/-! ## Performing a step -/

theorem weight_enlist (w : World) (script : Script Step) :
    (w.enlist script).2.weight = w.weight + script.weight := by
  simp [World.weight, World.enlist]

theorem goes_perform {step : Step} (h : (⟨w, .perform step, frames⟩ : Stage).Shows r) :
    Goes ⟨w, .perform step, frames⟩ r (perform w frames step)
      ((move? ⟨w, .perform step, frames⟩).elim r r.step) false := by
  cases step with
  | ask query =>
    refine ⟨⟨h.arbiter, h.pending⟩, .rests rfl rfl ?_⟩
    simp only [burden, perform, Control.weight, Step.weight, callWeight]
    omega
  | repeated times body =>
    simp only [perform]
    split
    · next left first rest =>
      refine ⟨⟨h.arbiter, h.pending⟩, .rests rfl rfl ?_⟩
      simp only [burden, Control.weight, Step.weight, List.map_cons, List.sum_cons, Frame.weight,
        totalWeight, Nat.succ_mul]
      omega
    · refine ⟨⟨h.arbiter, h.pending⟩, .rests rfl rfl ?_⟩
      simp only [burden, Control.weight, Step.weight]
      omega
  | register slot p v script =>
    refine goes_call h (w.enlist script).2 rfl ?_ _
    rw [weight_enlist, Step.weight]
    omega
  | registerThroughEngine p v script =>
    refine goes_call h (w.enlist script).2 rfl ?_ _
    rw [weight_enlist, Step.weight]
    omega
  | _ => exact goes_call h w rfl (by rw [Step.weight]) _

/-! ## Answering -/

theorem close_eq (w : World) (frames : List Frame) (tag : String) (waiting : Waiting Nat)
    (closing : Closing) (failed : Bool) :
    close w frames tag waiting closing failed =
      react (w.record (.answered tag (closing.answer failed))) frames
        (w.station.resume waiting (closing.answer failed)) := rfl

/-- The answer of a sink is an answer in the run. -/
theorem react_resume (harbiter : w.station.arbiter = r.arbiter) {waiting : Waiting Nat}
    (hpending : r.pending.map Pending.waiting = waiting :: frames.filterMap Frame.waiting?)
    (w' : World) (b : Answer) :
    ∃ f others, r.pending = f :: others ∧ f.waiting = waiting ∧
      (react w' frames (w.station.resume waiting b)).Shows (r.step (.answer b)) ∧
      (react w' frames (w.station.resume waiting b)).control =
        .ofLeg (r.arbiter.resume f.waiting b) := by
  obtain ⟨f, others, hr, rfl, hothers⟩ := List.map_eq_cons_iff.mp hpending
  refine ⟨f, others, hr, rfl, ?_⟩
  rw [Station.resume, harbiter, Run.step, hr]
  exact react_ofLeg (m := ⟨f.number, f.call, some (f.waiting, b), r.arbiter⟩) w' w.station []
    hothers

end Stage

/-! ## Using up a reply -/

theorem repliesWeight_eraseP {replies : List (Reply Step)} {q : Reply Step → Bool}
    {reply : Reply Step} (h : replies.find? q = some reply) :
    reply.weight + repliesWeight (replies.eraseP q) = repliesWeight replies := by
  induction replies with
  | nil => cases h
  | cons first rest ih =>
    rw [List.find?_cons] at h
    cases hq : q first with
    | true =>
      rw [hq] at h
      cases h
      rw [List.eraseP_cons_of_pos hq, repliesWeight]
    | false =>
      rw [hq] at h
      rw [List.eraseP_cons_of_neg (by simp [hq]), repliesWeight, repliesWeight, ← ih h]
      omega

theorem weight_take? {script left : Script Step} {event : Event} {reply : Reply Step}
    (h : script.take? event = some (reply, left)) : reply.weight + left.weight = script.weight := by
  obtain ⟨found, hfind, heq⟩ := Option.map_eq_some_iff.mp h
  cases heq
  obtain ⟨tag, answer, replies⟩ := script
  simp only [Script.weight]
  exact repliesWeight_eraseP hfind

@[simp] theorem World.weight_record (w : World) (h : Happening) : (w.record h).weight = w.weight :=
  rfl

/-- A sink that has a reply left is one of the world. -/
theorem World.lt_of_take? {w : World} {sink : Nat} {event : Event}
    {taken : Reply Step × Script Step} (h : (w.script sink).take? event = some taken) :
    sink < w.sinks.size := by
  by_contra hge
  rw [World.script, Array.getD_eq_getD_getElem?, Array.getElem?_eq_none (by omega)] at h
  cases h

/-- What the sinks have left becomes less by a reply that is used up. -/
theorem World.weight_take? {w : World} {sink : Nat} {event : Event} {reply : Reply Step}
    {left : Script Step} (h : (w.script sink).take? event = some (reply, left)) (w' : World)
    (hsinks : w'.sinks = w.sinks.setIfInBounds sink left) :
    reply.weight + w'.weight = w.weight := by
  have hlt := World.lt_of_take? h
  have htaken := Scenario.weight_take? h
  have hscript : w.script sink = w.sinks.toList[sink] := by
    rw [World.script, Array.getD_eq_getD_getElem?, Array.getElem?_eq_getElem hlt]
    rfl
  have hsplit : w.sinks.toList = w.sinks.toList.take sink ++
      w.script sink :: w.sinks.toList.drop (sink + 1) := by
    rw [hscript, ← List.drop_eq_getElem_cons, List.take_append_drop]
  unfold World.weight
  rw [hsinks, Array.toList_setIfInBounds, List.set_eq_take_append_cons_drop,
    if_pos (by simpa using hlt)]
  conv_rhs => rw [hsplit]
  simp only [List.map_append, List.map_cons, List.sum_append, List.sum_cons]
  omega

namespace Stage

variable {w : World} {frames : List Frame} {r : Run Nat}

theorem goes_deliver {n : Notification Nat} {waiting : Waiting Nat}
    (h : (⟨w, .deliver n waiting, frames⟩ : Stage).Shows r) :
    Goes ⟨w, .deliver n waiting, frames⟩ r (deliver w frames n waiting)
      ((move? ⟨w, .deliver n waiting, frames⟩).elim r r.step)
      (reply? ⟨w, .deliver n waiting, frames⟩).isSome := by
  obtain ⟨harbiter, hpending⟩ := h
  unfold deliver move? reply?
  cases htake : (w.script n.sink).take? n.event with
  | none =>
    obtain ⟨f, others, hr, rfl, shows, control⟩ := react_resume (w := w) harbiter hpending
      (w.record (.notified (w.script n.sink).tag n.event)) ((w.script n.sink).answer n.event)
    simp only [htake]
    exact ⟨shows, .answers _ hr rfl control (burden_react _ _ _)⟩
  | some taken =>
    obtain ⟨⟨event, steps, closing⟩, left⟩ := taken
    simp only [htake]
    cases steps with
    | nil =>
      let w' := ({ w with sinks := w.sinks.setIfInBounds n.sink left }.record
        (.notified (w.script n.sink).tag n.event)).record
          (.answered (w.script n.sink).tag (closing.answer false))
      obtain ⟨f, others, hr, rfl, shows, control⟩ :=
        react_resume (w := w) harbiter hpending w' (closing.answer false)
      refine ⟨shows, .answersAtOnce _ hr rfl control ?_⟩
      have hweight := World.weight_take? htake w' rfl
      rw [Reply.weight] at hweight
      show (react w' frames _).burden < w.weight + (1 + (frames.map Frame.weight).sum)
      rw [burden_react]
      omega
    | cons step rest =>
      refine ⟨⟨harbiter, hpending⟩, .replies rfl rfl ?_⟩
      let w' := ({ w with sinks := w.sinks.setIfInBounds n.sink left }.record
        (.notified (w.script n.sink).tag n.event)).record (.began step)
      have hweight := World.weight_take? htake w' rfl
      rw [Reply.weight, totalWeight] at hweight
      show w'.weight + (step.weight + (1 + totalWeight rest + (frames.map Frame.weight).sum)) <
        w.weight + (1 + (frames.map Frame.weight).sum)
      omega

theorem goes_settle {result : Result} (h : (⟨w, .settled result, frames⟩ : Stage).Shows r)
    (hgoing : frames ≠ []) :
    Goes ⟨w, .settled result, frames⟩ r (settle w result frames)
      ((move? ⟨w, .settled result, frames⟩).elim r r.step) false := by
  obtain ⟨harbiter, hpending⟩ := h
  match frames with
  | .reply tag waiting step [] closing :: frames =>
    obtain ⟨f, others, hr, rfl, shows, control⟩ := react_resume (w := w) harbiter hpending
      ((w.record (.ended step result)).record
        (.answered tag (closing.answer result.isFailure))) (closing.answer result.isFailure)
    refine ⟨shows, .closes _ hr rfl control ?_⟩
    rw [settle, close_eq, burden_react]
    simp only [burden, Control.weight, World.weight_record, List.map_cons, List.sum_cons,
      Frame.weight]
    omega
  | .reply tag waiting step (next :: rest) closing :: frames =>
    refine ⟨⟨harbiter, hpending⟩, .rests rfl rfl ?_⟩
    simp only [settle, beginStep, burden, Control.weight, World.weight_record, List.map_cons,
      List.sum_cons, Frame.weight, totalWeight]
    omega
  | .repetition left body (next :: rest) runs :: frames =>
    refine ⟨⟨harbiter, hpending⟩, .rests rfl rfl ?_⟩
    simp only [settle, burden, Control.weight, List.map_cons, List.sum_cons, Frame.weight,
      totalWeight]
    omega
  | .repetition (left + 1) (first :: rest) [] runs :: frames =>
    refine ⟨⟨harbiter, hpending⟩, .rests rfl rfl ?_⟩
    simp only [settle, burden, Control.weight, List.map_cons, List.sum_cons, Frame.weight,
      totalWeight, Nat.succ_mul]
    omega
  | .repetition (left + 1) [] [] runs :: frames
  | .repetition 0 body [] runs :: frames =>
    refine ⟨⟨harbiter, hpending⟩, .rests rfl rfl ?_⟩
    simp only [settle, burden, Control.weight, List.map_cons, List.sum_cons, Frame.weight]
    omega

/-- **A transition is one move of the run, or none**, and the burden changes with it. -/
theorem goes_advance {s : Stage} (h : s.Shows r) (hgoing : s.result? = none) :
    Goes s r s.advance (s.move?.elim r r.step) s.reply?.isSome := by
  obtain ⟨w, control, frames⟩ := s
  cases control with
  | perform step => exact goes_perform h
  | deliver n waiting => exact goes_deliver h
  | settled result =>
    cases frames with
    | nil => cases hgoing
    | cons => exact goes_settle h (List.cons_ne_nil _ _)

end Stage

end SharedRadio.Scenario
