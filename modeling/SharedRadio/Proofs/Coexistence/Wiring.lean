import SharedRadio.Proofs.Coexistence.Course

/-!
# What the actions on the rig can do

Of a rig one sees which interrupts are enabled, and what is noticed of its lines and of its clock.
Each action on it has a course, down to `Transmits`, which has one case for each way in which a
frame can go: every level is held in turn, unless a write fails or a level is held for ever.

Nothing is said here about the levels of the deny lines and the times that are read off the clock.
They are whatever the rig and the clock make of them.
-/

namespace SharedRadio.Coexistence.Rig

variable {κ : Type}

/-- Of a rig one sees which interrupts are enabled. -/
instance : Watched (Rig κ) (Direction → Bool) where
  stance r d := (r.denyLine d).armed
  sightings r := r.sightings

theorem sightings_notice_setDenyLine (r : Rig κ) (d : Direction) (l : DenyLine) (s : Sighting) :
    ((r.setDenyLine d l).notice s).sightings = r.sightings ++ [s] := by
  cases d <;> rfl

theorem armed_setDenyLine (r : Rig κ) (d : Direction) (l : DenyLine) :
    (fun e => ((r.setDenyLine d l).denyLine e).armed) =
      Function.update (fun e => (r.denyLine e).armed) d l.armed := by
  funext e
  by_cases h : e = d
  · subst h
    simp
  · rw [denyLine_setDenyLine_of_ne r h, Function.update_of_ne h]

theorem armed_setDenyLine_of_eq (r : Rig κ) (d : Direction) {l : DenyLine}
    (h : l.armed = (r.denyLine d).armed) :
    (fun e => ((r.setDenyLine d l).denyLine e).armed) = fun e => (r.denyLine e).armed := by
  rw [armed_setDenyLine, h]
  exact Function.update_eq_self d fun e => (r.denyLine e).armed

/-! ## Deny lines -/

theorem follows_arm (d : Direction) :
    Follows (Action.arm d : Action κ Unit)
      (Course.does () [.armed d] fun armed => Function.update armed d true) :=
  follows_modify (fun r => sightings_notice_setDenyLine r d _ _) fun r => armed_setDenyLine r d _

theorem follows_disarm (d : Direction) :
    Follows (Action.disarm d : Action κ Unit)
      (Course.does () [.disarmed d] fun armed => Function.update armed d false) :=
  follows_modify (fun r => sightings_notice_setDenyLine r d _ _) fun r => armed_setDenyLine r d _

theorem follows_clear (d : Direction) :
    Follows (Action.clear d : Action κ Unit) (Course.does () [.cleared d] id) :=
  follows_modify (fun r => sightings_notice_setDenyLine r d _ _)
    fun r => armed_setDenyLine_of_eq r d rfl

/-- A deny line is read. -/
inductive Samples (d : Direction) : Course (Direction → Bool) Halt Bool
  | reads {v : Direction → Bool} (high : Bool) :
      Samples d v (.ok high) [.sampled d (some high)] v
  | fails {v : Direction → Bool} : Samples d v (.error .lineFault) [.sampled d none] v

theorem armed_read (l : DenyLine) : l.read.2.armed = l.armed := by
  unfold DenyLine.read
  split <;> rfl

theorem run_sample (d : Direction) (r : Rig κ) :
    (Action.sample d : Action κ Bool).run r =
      ((r.denyLine d).read.1.elim (.error .lineFault) .ok,
        (r.setDenyLine d (r.denyLine d).read.2).notice (.sampled d (r.denyLine d).read.1)) := by
  unfold Action.sample
  simp only [run_get_bind, run_set_bind]
  cases (r.denyLine d).read.1 <;> rfl

theorem follows_sample (d : Direction) :
    Follows (Action.sample d : Action κ Bool) (Samples d) := by
  intro r
  rw [run_sample]
  refine ⟨[.sampled d (r.denyLine d).read.1], sightings_notice_setDenyLine r d _ _, ?_⟩
  show Samples d _ _ _ fun e => ((r.setDenyLine d _).denyLine e).armed
  rw [armed_setDenyLine_of_eq r d (armed_read _)]
  cases (r.denyLine d).read.1 with
  | none => exact .fails
  | some high => exact .reads high

/-! ## The clock -/

/-- A timestamp is taken. -/
inductive Stamps {υ ε : Type} : Course υ ε UInt32
  | intro {v : υ} (now : UInt32) : Stamps v (.ok now) [.stamped now] v

/-- Microseconds pass, or they never do. -/
inductive Awaits {υ ε : Type} (endless : ε) (since : UInt32) : Course υ ε Unit
  | ends {v : υ} (reads : Nat) (last : UInt32) :
      Awaits endless since v (.ok ()) [.waited since reads last] v
  | endless {v : υ} : Awaits endless since v (.error endless) [] v

/-- A timestamp is taken, and microseconds pass, or they never do. -/
inductive Pauses {υ ε : Type} (endless : ε) : Course υ ε Unit
  | ends {v : υ} (since : UInt32) (reads : Nat) (last : UInt32) :
      Pauses endless v (.ok ()) [.stamped since, .waited since reads last] v
  | endless {v : υ} (since : UInt32) : Pauses endless v (.error endless) [.stamped since] v

theorem Pauses.of_stamps {υ ε : Type} {endless : ε} {v w : υ} {x : Except ε Unit}
    {t : List Sighting} (h : (Stamps.andThen fun since => Awaits endless since) v x t w) :
    Pauses endless v x t w := by
  cases h with
  | goesOn first second =>
    cases first
    cases second with
    | ends reads last => exact .ends _ reads last
    | endless => exact .endless _
  | stops first => cases first

variable [Clock κ]

theorem follows_startClock :
    Follows (Action.startClock : Action κ Unit) (Course.does () [.clockStarted] id) :=
  follows_modify (fun _ => rfl) fun _ => rfl

theorem follows_timestamp : Follows (Action.timestamp : Action κ UInt32) Stamps :=
  fun _ => ⟨_, rfl, .intro _⟩

theorem run_awaitMicros (since duration : UInt32) (r : Rig κ) :
    (Action.awaitMicros since duration : Action κ Unit).run r =
      let after := { r with clock := (Clock.awaitMicros since duration r.clock).2 }
      (Clock.awaitMicros since duration r.clock).1.elim (.error .endless, after)
        fun p => (.ok (), after.notice (.waited since p.reads p.last)) := by
  unfold Action.awaitMicros
  simp only [run_get_bind]
  cases (Clock.awaitMicros since duration r.clock).1 <;> rfl

theorem follows_awaitMicros (since duration : UInt32) :
    Follows (Action.awaitMicros since duration : Action κ Unit) (Awaits .endless since) := by
  intro r
  rw [run_awaitMicros]
  cases (Clock.awaitMicros since duration r.clock).1 with
  | none => exact ⟨[], (List.append_nil _).symm, .endless⟩
  | some p => exact ⟨_, rfl, .ends _ _⟩

theorem follows_pause (duration : UInt32) :
    Follows (Action.pause duration : Action κ Unit) (Pauses .endless) :=
  (follows_timestamp.bind fun since => follows_awaitMicros since duration).mono
    fun _ _ _ _ h => .of_stamps h

/-! ## The request line -/

/-- A level is written to the request line. -/
inductive Drives (level : Bool) : Course (Direction → Bool) Halt Unit
  | lands {v : Direction → Bool} (tick : UInt32) :
      Drives level v (.ok ()) [.wrote level true tick] v
  | fails {v : Direction → Bool} (tick : UInt32) :
      Drives level v (.error .lineFault) [.wrote level false tick] v

theorem run_drive (level : Bool) (r : Rig κ) :
    (Action.drive level : Action κ Unit).run r =
      let landed := !r.request.failing.contains r.request.writes
      (if landed then .ok () else .error .lineFault,
        { r with request.writes := r.request.writes + 1 }.notice
          (.wrote level landed (Clock.ticks r.clock).1)) := by
  unfold Action.drive
  simp only [run_get_bind, run_set_bind]
  cases r.request.failing.contains r.request.writes <;> rfl

theorem follows_drive (level : Bool) :
    Follows (Action.drive level : Action κ Unit) (Drives level) := by
  intro r
  rw [run_drive]
  refine ⟨_, rfl, ?_⟩
  cases r.request.failing.contains r.request.writes with
  | false => exact .lands _
  | true => exact .fails _

theorem follows_ticks :
    Follows (Action.ticks : Action κ UInt32)
      fun v x t w => (∃ now, x = .ok now) ∧ t = [] ∧ w = v :=
  fun _ => ⟨[], (List.append_nil _).symm, ⟨_, rfl⟩, rfl, rfl⟩

theorem run_awaitTicks (start duration : UInt32) (r : Rig κ) :
    (Action.awaitTicks start duration : Action κ Unit).run r =
      ((Clock.awaitTicks start duration r.clock).1.elim (.error .endless) fun _ => .ok (),
        { r with clock := (Clock.awaitTicks start duration r.clock).2 }) := by
  unfold Action.awaitTicks
  simp only [run_get_bind, run_set_bind]
  cases (Clock.awaitTicks start duration r.clock).1 <;> rfl

theorem follows_awaitTicks (start duration : UInt32) :
    Follows (Action.awaitTicks start duration : Action κ Unit)
      fun v x t w => (x = .ok () ∨ x = .error .endless) ∧ t = [] ∧ w = v := by
  intro r
  rw [run_awaitTicks]
  cases (Clock.awaitTicks start duration r.clock).1 with
  | none => exact ⟨[], (List.append_nil _).symm, .inr rfl, rfl, rfl⟩
  | some p => exact ⟨[], (List.append_nil _).symm, .inl rfl, rfl, rfl⟩

/-- A level is held on the request line for one bit. -/
inductive Holds (level : Bool) : Course (Direction → Bool) Halt Unit
  | ends {v : Direction → Bool} (tick : UInt32) :
      Holds level v (.ok ()) [.wrote level true tick] v
  | fails {v : Direction → Bool} (tick : UInt32) :
      Holds level v (.error .lineFault) [.wrote level false tick] v
  | endless {v : Direction → Bool} (tick : UInt32) :
      Holds level v (.error .endless) [.wrote level true tick] v

theorem follows_sendLevel (bitTicks : UInt32) (level : Bool) :
    Follows (Action.sendLevel bitTicks level : Action κ Unit) (Holds level) := by
  refine (follows_ticks.bind fun start =>
    (follows_drive level).bind fun _ => follows_awaitTicks start bitTicks).mono ?_
  rintro v x t w (⟨⟨-, rfl, rfl⟩, h⟩ | ⟨⟨_, h⟩, -⟩)
  · rcases h with ⟨⟨_⟩, rfl | rfl, rfl, rfl⟩ | ⟨⟨_⟩⟩
    · exact .ends _
    · exact .endless _
    · exact .fails _
  · cases h

/-- Levels are held on the request line, one after the other. -/
inductive Transmits : List Bool → Course (Direction → Bool) Halt Unit
  /-- All levels have been held. -/
  | done {v : Direction → Bool} : Transmits [] v (.ok ()) [] v
  /-- A level is held, and the others follow. -/
  | held {v w : Direction → Bool} {level : Bool} {rest : List Bool} {x : Except Halt Unit}
      {t : List Sighting} (tick : UInt32) (more : Transmits rest v x t w) :
      Transmits (level :: rest) v x (.wrote level true tick :: t) w
  /-- A level cannot be driven, and no other follows. -/
  | cut {v : Direction → Bool} {level : Bool} {rest : List Bool} (tick : UInt32) :
      Transmits (level :: rest) v (.error .lineFault) [.wrote level false tick] v
  /-- A level is held for ever. -/
  | endless {v : Direction → Bool} {level : Bool} {rest : List Bool} (tick : UInt32) :
      Transmits (level :: rest) v (.error .endless) [.wrote level true tick] v

theorem follows_sendLevels (bitTicks : UInt32) (levels : List Bool) :
    Follows (levels.forM (Action.sendLevel bitTicks) : Action κ Unit) (Transmits levels) := by
  induction levels with
  | nil =>
    refine (follows_pure ()).mono ?_
    rintro v x t w ⟨rfl, rfl, rfl⟩
    exact .done
  | cons level rest ih =>
    refine ((follows_sendLevel bitTicks level).bind fun _ => ih).mono ?_
    rintro v x t w (⟨⟨tick⟩, more⟩ | h)
    · exact .held tick more
    · cases h with
      | fails tick => exact .cut tick
      | endless tick => exact .endless tick

theorem follows_sendByte (bitTicks : UInt32) (byte : UInt8) :
    Follows (Action.sendByte bitTicks byte : Action κ Unit) (Transmits (Frame.levels byte)) :=
  follows_sendLevels bitTicks (Frame.levels byte)

end SharedRadio.Coexistence.Rig
