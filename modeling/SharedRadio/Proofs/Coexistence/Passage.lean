import SharedRadio.Proofs.Clock.Liveness
import SharedRadio.Proofs.Coexistence.Period
import SharedRadio.Proofs.Coexistence.Stance

/-!
# How time passes in an operation

The engine spends time in two ways. It holds levels on the request line, which is timed by ticks,
and it makes pauses, which are timed by microseconds. `Elapses` says how the clock is read for that,
whatever clock it is: between the pauses, which come in a fixed order, there are any number of bits
and of single reads of the tick counter.

`Takes` says of an action which pauses it makes. It follows the code of the engine step by step, and
ends with `elapses_request`: a request that is signalled makes two pauses.
-/

namespace SharedRadio.Coexistence

/-! ## Pauses and bits -/

/-- A timestamp, or a wait that was measured from one. -/
def Sighting.isTiming : Sighting → Bool
  | .stamped _ | .waited _ _ _ => true
  | _ => false

/-- What is noticed of the pauses. -/
def timings (t : List Sighting) : List Sighting := t.filter Sighting.isTiming

@[simp] theorem timings_append (t u : List Sighting) :
    timings (t ++ u) = timings t ++ timings u := List.filter_append t u

/-- How something ends. -/
inductive Ending where
  /-- It is done to the end. -/
  | done
  /-- It fails. -/
  | failed
  /-- It does not end. -/
  | endless
  deriving DecidableEq

/-- How an action on the rig ends. -/
def Rig.ending {α : Type} : Except Rig.Halt α → Ending
  | .ok _ => .done
  | .error .lineFault => .failed
  | .error .endless => .endless

/-- How an action of the engine ends. -/
def Engine.ending {α : Type} : Except Engine.Halt α → Ending
  | .ok _ => .done
  | .error (.fault _) => .failed
  | .error .endless => .endless

variable {κ : Type} [Clock κ] {bitTicks : UInt32}

/-- How time passes while some pauses are made and levels are held between them: the pauses that are
due, the clock before, the ending, what is noticed of the pauses, and the clock after. -/
inductive Elapses (bitTicks : UInt32) : List UInt32 → κ → Ending → List Sighting → κ → Prop
  /-- No pause is due any more. -/
  | done {c : κ} : Elapses bitTicks [] c .done [] c
  /-- Something fails, and the pauses that are due are not made. -/
  | fails {pauses : List UInt32} {c : κ} : Elapses bitTicks pauses c .failed [] c
  /-- The tick counter is read. -/
  | tick {pauses : List UInt32} {c c' : κ} {x : Ending} {t : List Sighting}
      (rest : Elapses bitTicks pauses (Clock.ticks c).2 x t c') : Elapses bitTicks pauses c x t c'
  /-- A level is held for a bit. -/
  | bit {pauses : List UInt32} {c c₁ c' : κ} {p : Clock.Polled} {x : Ending} {t : List Sighting}
      (waits : Clock.awaitTicks (Clock.ticks c).1 bitTicks (Clock.ticks c).2 = (some p, c₁))
      (rest : Elapses bitTicks pauses c₁ x t c') : Elapses bitTicks pauses c x t c'
  /-- A level is held for ever. -/
  | held {pauses : List UInt32} {c c' : κ}
      (waits : Clock.awaitTicks (Clock.ticks c).1 bitTicks (Clock.ticks c).2 = (none, c')) :
      Elapses bitTicks pauses c .endless [] c'
  /-- A pause is made. -/
  | pause {micros : UInt32} {pauses : List UInt32} {c c₁ c' : κ} {p : Clock.Polled} {x : Ending}
      {t : List Sighting}
      (waits : Clock.awaitMicros (Clock.timestamp c).1 micros (Clock.timestamp c).2 = (some p, c₁))
      (rest : Elapses bitTicks pauses c₁ x t c') :
      Elapses bitTicks (micros :: pauses) c x
        (.stamped (Clock.timestamp c).1 :: .waited (Clock.timestamp c).1 p.reads p.last :: t) c'
  /-- A pause never ends. -/
  | paused {micros : UInt32} {pauses : List UInt32} {c c' : κ}
      (waits : Clock.awaitMicros (Clock.timestamp c).1 micros (Clock.timestamp c).2 = (none, c')) :
      Elapses bitTicks (micros :: pauses) c .endless [.stamped (Clock.timestamp c).1] c'

namespace Elapses

variable {pauses more : List UInt32} {c c' c'' : κ} {x : Ending} {t u : List Sighting}

/-- Some pauses, and then others. -/
theorem append (h : Elapses bitTicks pauses c .done t c') (h' : Elapses bitTicks more c' x u c'') :
    Elapses bitTicks (pauses ++ more) c x (t ++ u) c'' := by
  generalize hx : Ending.done = y at h
  induction h with
  | done => exact h'
  | fails | held | paused => cases hx
  | tick rest ih => exact .tick (ih h' hx)
  | bit waits rest ih => exact .bit waits (ih h' hx)
  | pause waits rest ih => exact .pause waits (ih h' hx)

/-- If the first pauses come to no end, the others are not made. -/
theorem stops (h : Elapses bitTicks pauses c x t c') (hx : x ≠ .done) (more : List UInt32) :
    Elapses bitTicks (pauses ++ more) c x t c' := by
  induction h with
  | done => exact absurd rfl hx
  | fails => exact .fails
  | tick rest ih => exact .tick (ih hx)
  | bit waits rest ih => exact .bit waits (ih hx)
  | held waits => exact .held waits
  | pause waits rest ih => exact .pause waits (ih hx)
  | paused waits => exact .paused waits

/-- After a failure something else may be done, without pauses, before it all ends. -/
theorem amends (h : Elapses bitTicks pauses c .failed t c') (h' : Elapses bitTicks [] c' x u c'')
    (hx : x ≠ .done) : Elapses bitTicks pauses c x (t ++ u) c'' := by
  generalize hy : Ending.failed = y at h
  induction h with
  | @fails pauses c => exact h'.stops hx pauses
  | done | held | paused => cases hy
  | tick rest ih => exact .tick (ih h' hy)
  | bit waits rest ih => exact .bit waits (ih h' hy)
  | pause waits rest ih => exact .pause waits (ih h' hy)

/-- What every read of the tick counter keeps is kept while no pause is made. -/
theorem keeps {I : κ → Prop} (hticks : ∀ c, I c → I (Clock.ticks c).2)
    (h : Elapses bitTicks [] c x t c') (hc : I c) : I c' := by
  generalize hpauses : ([] : List UInt32) = pauses at h
  induction h with
  | done | fails => exact hc
  | tick rest ih => exact ih (hticks _ hc) hpauses
  | bit waits rest ih => exact ih (Clock.awaitTicks_keeps hticks waits (hticks _ hc)) hpauses
  | held waits => exact Clock.awaitTicks_keeps hticks waits (hticks _ hc)
  | pause | paused => cases hpauses

/-- A pause that is noticed is one that was due, and up to then the tick counter was read at most.
-/
theorem exists_of_waited {I : κ → Prop} (hticks : ∀ c, I c → I (Clock.ticks c).2) {micros : UInt32}
    {stamp since last : UInt32} {reads : Nat}
    (h : Elapses bitTicks (micros :: pauses) c x
      (.stamped stamp :: .waited since reads last :: t) c')
    (hc : I c) :
    ∃ c₁ c₂, I c₁ ∧ stamp = (Clock.timestamp c₁).1 ∧ since = stamp ∧
      Clock.awaitMicros (Clock.timestamp c₁).1 micros (Clock.timestamp c₁).2 =
        (some ⟨reads, last⟩, c₂) ∧
      Elapses bitTicks pauses c₂ x t c' := by
  generalize hpauses : micros :: pauses = due at h
  generalize hnoticed : Sighting.stamped stamp :: .waited since reads last :: t = noticed at h
  induction h with
  | tick rest ih => exact ih (hticks _ hc) hpauses hnoticed
  | bit waits rest ih =>
    exact ih (Clock.awaitTicks_keeps hticks waits (hticks _ hc)) hpauses hnoticed
  | @pause micros' pauses' c c₁ c' p x t waits rest ih =>
    cases hpauses
    cases hnoticed
    exact ⟨c, c₁, hc, rfl, rfl, waits, rest⟩
  | done | fails | held => cases hnoticed
  | paused => cases hnoticed

/-- On a lively clock everything comes to an end. -/
theorem ne_endless_of_lively (h : Elapses bitTicks pauses c x t c')
    (hlively : Clock.Lively bitTicks pauses c) : x ≠ .endless := by
  obtain ⟨I, hc, hends⟩ := hlively
  suffices hall : ∀ all, Clock.Ends bitTicks all I → (∀ micros ∈ pauses, micros ∈ all) →
      x ≠ .endless from hall pauses hends fun _ hm => hm
  clear hends
  intro all hends hpauses
  induction h with
  | done | fails => exact nofun
  | tick rest ih => exact ih (hends.ticks _ hc) hpauses
  | bit waits rest ih =>
    exact ih (Clock.awaitTicks_keeps hends.ticks waits (hends.ticks _ hc)) hpauses
  | held waits =>
    obtain ⟨p, hp⟩ := hends.bit _ hc
    cases hp.symm.trans (congrArg Prod.fst waits)
  | pause waits rest ih =>
    refine ih ?_ fun micros hm => hpauses micros (List.mem_cons_of_mem _ hm)
    exact Clock.awaitMicros_keeps (hends.elapsed _) waits (hends.timestamp _ hc)
  | paused waits =>
    obtain ⟨p, hp⟩ := hends.pause _ (hpauses _ List.mem_cons_self) _ hc
    cases hp.symm.trans (congrArg Prod.fst waits)

end Elapses

/-! ## Actions on the rig -/

namespace Rig

/-- An action on the rig makes some pauses. -/
def Takes {α : Type} (bitTicks : UInt32) (pauses : List UInt32) (action : Action κ α) : Prop :=
  ∀ r, ∃ t, (action.run r).2.sightings = r.sightings ++ t ∧
    Elapses bitTicks pauses r.clock (ending (action.run r).1) (timings t) (action.run r).2.clock

omit [Clock κ] in
theorem clock_notice_setDenyLine (r : Rig κ) (d : Direction) (l : DenyLine) (s : Sighting) :
    ((r.setDenyLine d l).notice s).clock = r.clock := by
  cases d <;> rfl

theorem takes_arm (d : Direction) : Takes bitTicks [] (Action.arm d : Action κ Unit) := by
  intro r
  refine ⟨[.armed d], sightings_notice_setDenyLine r d _ _, ?_⟩
  show Elapses bitTicks [] r.clock .done [] ((r.setDenyLine d _).notice _).clock
  rw [clock_notice_setDenyLine]
  exact .done

theorem takes_disarm (d : Direction) : Takes bitTicks [] (Action.disarm d : Action κ Unit) := by
  intro r
  refine ⟨[.disarmed d], sightings_notice_setDenyLine r d _ _, ?_⟩
  show Elapses bitTicks [] r.clock .done [] ((r.setDenyLine d _).notice _).clock
  rw [clock_notice_setDenyLine]
  exact .done

theorem takes_sample (d : Direction) : Takes bitTicks [] (Action.sample d : Action κ Bool) := by
  intro r
  rw [run_sample]
  refine ⟨[.sampled d (r.denyLine d).read.1], sightings_notice_setDenyLine r d _ _, ?_⟩
  show Elapses bitTicks [] r.clock _ [] ((r.setDenyLine d _).notice _).clock
  rw [clock_notice_setDenyLine]
  cases (r.denyLine d).read.1 with
  | none => exact .fails
  | some high => exact .done

/-- Levels are held without a pause. -/
theorem elapses_sendLevels (bitTicks : UInt32) (levels : List Bool) (r : Rig κ) :
    Elapses bitTicks [] r.clock (ending ((levels.forM (Action.sendLevel bitTicks)).run r).1) []
      ((levels.forM (Action.sendLevel bitTicks)).run r).2.clock := by
  induction levels generalizing r with
  | nil => exact .done
  | cons level rest ih =>
    rw [show ((level :: rest).forM (Action.sendLevel bitTicks)).run r =
      (Action.sendLevel bitTicks level >>= fun _ => rest.forM _).run r from rfl, run_bind]
    by_cases hfails : r.request.writes ∈ r.request.failing
    · rw [run_sendLevel_of_mem hfails]
      exact .tick .fails
    · rw [run_sendLevel_of_notMem hfails, run_awaitTicks]
      have hclock : (r.accessAll [.reads, .writes level]).clock = (Clock.ticks r.clock).2 := rfl
      rw [hclock]
      rcases hwaits : Clock.awaitTicks (Clock.ticks r.clock).1 bitTicks (Clock.ticks r.clock).2 with
        ⟨_ | p, c⟩
      · exact .held hwaits
      · exact .bit hwaits (ih { r.accessAll [.reads, .writes level] with clock := c })

theorem Transmits.timings_eq_nil {levels : List Bool} {v w : Direction → Bool}
    {x : Except Halt Unit} {t : List Sighting} (h : Transmits levels v x t w) : timings t = [] := by
  induction h with
  | done | cut | endless => rfl
  | held tick more ih => exact ih

theorem takes_sendByte (byte : UInt8) :
    Takes bitTicks [] (Action.sendByte bitTicks byte : Action κ Unit) := by
  intro r
  obtain ⟨t, ht, hsent⟩ := follows_sendByte bitTicks byte r
  refine ⟨t, ht, ?_⟩
  rw [hsent.timings_eq_nil]
  exact elapses_sendLevels bitTicks (Frame.levels byte) r

theorem takes_pause (micros : UInt32) :
    Takes bitTicks [micros] (Action.pause micros : Action κ Unit) := by
  intro r
  let stamped := { r with clock := (Clock.timestamp r.clock).2 }.notice
    (.stamped (Clock.timestamp r.clock).1)
  have hrun : (Action.pause micros).run r =
      (Action.awaitMicros (Clock.timestamp r.clock).1 micros).run stamped := rfl
  have hclock : stamped.clock = (Clock.timestamp r.clock).2 := rfl
  rw [hrun, run_awaitMicros, hclock]
  rcases hwaits : Clock.awaitMicros (Clock.timestamp r.clock).1 micros
    (Clock.timestamp r.clock).2 with ⟨_ | p, c⟩
  · exact ⟨[_], rfl, .paused hwaits⟩
  · exact ⟨[_, _], List.append_assoc _ [_] [_], .pause hwaits .done⟩

end Rig

/-! ## Actions of the engine -/

namespace Engine

/-- An action makes some pauses when an engine does it, and the engine keeps its configuration. -/
def TakesAt {α : Type} (e : Engine κ) (pauses : List UInt32) (action : Action κ α) : Prop :=
  (action.run e).2.config = e.config ∧
    ∃ t, (action.run e).2.rig.sightings = e.rig.sightings ++ t ∧
      Elapses e.config.bitTicks pauses e.rig.clock (ending (action.run e).1) (timings t)
        (action.run e).2.rig.clock

/-- An action makes some pauses whenever an engine with some configuration does it. -/
def Takes {α : Type} (config : Config) (pauses : List UInt32) (action : Action κ α) : Prop :=
  ∀ e, e.config = config → TakesAt e pauses action

section

variable {α β : Type} {config : Config} {pauses more : List UInt32} {action : Action κ α}

theorem takes_pure (a : α) : Takes config [] (pure a : Action κ α) :=
  fun _ _ => ⟨rfl, [], (List.append_nil _).symm, .done⟩

theorem takes_throw (f : Fault) : Takes config [] (throw (.fault f) : Action κ α) :=
  fun _ _ => ⟨rfl, [], (List.append_nil _).symm, .fails⟩

theorem TakesAt.of_run_eq {e : Engine κ} {other : Action κ α} (h : action.run e = other.run e)
    (htakes : TakesAt e pauses other) : TakesAt e pauses action := by
  unfold TakesAt
  rw [h]
  exact htakes

/-- An action that is run when some time has passed already adds to that. -/
theorem TakesAt.run_after {e e' : Engine κ} {t : List Sighting} (h : TakesAt e' more action)
    (hconfig : e'.config = e.config) (ht : e'.rig.sightings = e.rig.sightings ++ t)
    (himp : ∀ u, Elapses e.config.bitTicks more e'.rig.clock (ending (action.run e').1) u
        (action.run e').2.rig.clock →
      Elapses e.config.bitTicks pauses e.rig.clock (ending (action.run e').1) (timings t ++ u)
        (action.run e').2.rig.clock) :
    (action.run e').2.config = e.config ∧
      ∃ u, (action.run e').2.rig.sightings = e.rig.sightings ++ u ∧
        Elapses e.config.bitTicks pauses e.rig.clock (ending (action.run e').1) (timings u)
          (action.run e').2.rig.clock := by
  obtain ⟨hconfig', u, hu, helapses⟩ := h
  rw [hconfig] at helapses
  refine ⟨hconfig'.trans hconfig, t ++ u, ?_, ?_⟩
  · rw [hu, ht, List.append_assoc]
  · rw [timings_append]
    exact himp _ helapses

theorem TakesAt.bind {e : Engine κ} {f : α → Action κ β} (h : TakesAt e pauses action)
    (hf : ∀ a, Takes e.config more (f a)) : TakesAt e (pauses ++ more) (action >>= f) := by
  obtain ⟨hconfig, t, ht, hfirst⟩ := h
  unfold TakesAt
  rw [run_bind]
  generalize action.run e = o at hconfig ht hfirst ⊢
  obtain ⟨(g | _) | a, e'⟩ := o
  · exact ⟨hconfig, t, ht, hfirst.stops nofun more⟩
  · exact ⟨hconfig, t, ht, hfirst.stops nofun more⟩
  · exact (hf a e' hconfig).run_after hconfig ht fun _ hsecond => hfirst.append hsecond

theorem Takes.bind {f : α → Action κ β} (h : Takes config pauses action)
    (hf : ∀ a, Takes config more (f a)) : Takes config (pauses ++ more) (action >>= f) :=
  fun e he => (h e he).bind fun a => he ▸ hf a

theorem TakesAt.get_bind {e : Engine κ} {f : Engine κ → Action κ α} (h : TakesAt e pauses (f e)) :
    TakesAt e pauses (get >>= f) := h

theorem Takes.get_bind {f : Engine κ → Action κ α}
    (hf : ∀ e, e.config = config → Takes config pauses (f e)) : Takes config pauses (get >>= f) :=
  fun e he => hf e he e he

/-- If an action fails, something else may be done before it all ends. -/
theorem Takes.attempt_bind {f : Except Fault α → Action κ β} (h : Takes config pauses action)
    (hok : ∀ a, Takes config [] (f (.ok a))) (hfault : ∀ g, Takes config [] (f (.error g)))
    (hends : ∀ g e, ending ((f (.error g)).run e).1 ≠ .done) :
    Takes config pauses (Action.attempt action >>= f) := by
  rintro e rfl
  obtain ⟨hconfig, t, ht, hfirst⟩ := h e rfl
  unfold TakesAt
  rw [run_bind, run_attempt]
  generalize action.run e = o at hconfig ht hfirst ⊢
  obtain ⟨(g | _) | a, e'⟩ := o
  · exact (hfault g e' hconfig).run_after hconfig ht fun _ hsecond =>
      hfirst.amends hsecond (hends g e')
  · exact ⟨hconfig, t, ht, hfirst⟩
  · refine (hok a e' hconfig).run_after hconfig ht fun _ hsecond => ?_
    rw [← List.append_nil pauses]
    exact hfirst.append hsecond

omit [Clock κ] in
/-- What is attempted before a failure does not undo it. -/
theorem ending_attempt_throw (action : Action κ α) (f : Fault) (e : Engine κ) :
    ending ((Action.attempt action >>= fun _ => (throw (.fault f) : Action κ β)).run e).1 ≠
      .done := by
  rw [run_bind, run_attempt]
  rcases action.run e with ⟨(g | _) | a, e'⟩ <;> exact nofun

/-- What is done to fields of the engine takes no time. -/
theorem takes_modify {g : Engine κ → Engine κ} (hrig : ∀ e, (g e).rig = e.rig)
    (hconfig : ∀ e, (g e).config = e.config) :
    Takes config [] (modify g : Action κ Unit) := by
  intro e _
  refine ⟨hconfig e, [], ?_, ?_⟩
  · show (g e).rig.sightings = _
    rw [hrig, List.append_nil]
  · show Elapses _ [] e.rig.clock .done [] (g e).rig.clock
    rw [hrig]
    exact .done

theorem takes_record (r : Record) : Takes config [] (Action.record r : Action κ Unit) :=
  fun _ _ => ⟨rfl, [.logged r.logLine], rfl, .done⟩

theorem takes_count (d : Direction) (o : Occurrence) :
    Takes config [] (Action.count d o : Action κ Unit) :=
  takes_modify (fun _ => rfl) fun _ => rfl

theorem takes_withRig {action : Rig.Action κ α} (h : Rig.Takes config.bitTicks pauses action) :
    Takes config pauses (Action.withRig action) := by
  rintro e rfl
  obtain ⟨t, ht, helapses⟩ := h e.rig
  unfold TakesAt Action.withRig
  simp only [run_get_bind]
  generalize action.run e.rig = o at ht helapses ⊢
  obtain ⟨(_ | _) | a, rig⟩ := o
  · refine ⟨rfl, t ++ [.logged Record.lineFault.logLine], ?_, ?_⟩
    · rw [← List.append_assoc]
      exact congrArg (· ++ [_]) ht
    · rw [timings_append, show timings [.logged Record.lineFault.logLine] = [] from rfl,
        List.append_nil]
      exact helapses
  · exact ⟨rfl, t, ht, helapses⟩
  · exact ⟨rfl, t, ht, helapses⟩

/-- A timestamp and a wait that follows it are a pause. -/
theorem Takes.pause_bind (h : Takes config pauses action) :
    Takes config (config.sampleMicros :: pauses) (do
      let since ← Action.withRig .timestamp
      Action.linger since
      action) := by
  rintro e rfl
  have hpause : (do
      let since ← Action.withRig .timestamp
      Action.linger since
      action).run e =
        (Action.withRig (.pause e.config.sampleMicros) >>= fun _ => action).run e := by
    -- A timestamp cannot fail, so the engine has the same configuration in between.
    rfl
  exact .of_run_eq hpause
    (((takes_withRig (Rig.takes_pause e.config.sampleMicros)).bind fun _ => h) e rfl)

end

variable {config : Config}

theorem takes_arm (d : Direction) : Takes config [] (Action.arm d : Action κ Unit) :=
  takes_withRig (Rig.takes_arm d)

theorem takes_disarm (d : Direction) : Takes config [] (Action.disarm d : Action κ Unit) :=
  takes_withRig (Rig.takes_disarm d)

theorem takes_setHeld (held : Option Direction) :
    Takes config [] (modify fun e => { e with held } : Action κ Unit) :=
  takes_modify (fun _ => rfl) fun _ => rfl

theorem takes_monitor (d : Direction) : Takes config [] (Action.monitor d : Action κ Unit) := by
  unfold Action.monitor
  refine .get_bind fun e _ => ?_
  split
  · exact takes_pure ()
  · exact (takes_disarm e.monitored).bind fun _ => takes_modify (fun _ => rfl) fun _ => rfl

theorem takes_isDenied (d : Direction) : Takes config [] (Action.isDenied d : Action κ Bool) := by
  unfold Action.isDenied
  exact (takes_withRig (Rig.takes_sample d)).bind fun high => .get_bind fun e _ =>
    takes_pure (e.config.denyLevel.denies high)

theorem takes_send (byte : UInt8) : Takes config [] (Action.send byte : Action κ Unit) := by
  unfold Action.send
  refine .get_bind fun e he => takes_withRig ?_
  rw [he]
  exact Rig.takes_sendByte byte

/-- A request is signalled in two messages with a pause between them. -/
theorem takes_signalRequest (d : Direction) :
    Takes config [config.guardMicros] (Action.signalRequest d : Action κ Unit) := by
  unfold Action.signalRequest
  refine .get_bind fun e he => ?_
  rw [he]
  exact (takes_send _).bind fun _ =>
    (takes_withRig (Rig.takes_pause config.guardMicros)).bind fun _ => takes_send _

theorem takes_release : Takes config [] (Action.release : Action κ Unit) := by
  unfold Action.release
  refine .get_bind fun e _ => ?_
  split
  · exact (takes_disarm e.monitored).bind fun _ => (takes_setHeld none).bind fun _ =>
      (takes_count e.monitored .release).bind fun _ => takes_send Message.release
  · exact takes_pure ()

/-- A release after a signal that failed makes no pause. -/
theorem takes_signalOrRelease (d : Direction) :
    Takes config [config.guardMicros] (Action.signalOrRelease d : Action κ Unit) :=
  (takes_signalRequest d).attempt_bind (fun _ => takes_pure ())
    (fun f => takes_release.attempt_bind (fun _ => takes_throw f) (fun _ => takes_throw f)
      fun _ _ => nofun)
    fun f e => ending_attempt_throw Action.release f e

theorem takes_settle (d : Direction) : Takes config [] (Action.settle d : Action κ Unit) := by
  unfold Action.settle
  refine (takes_isDenied d).bind fun denied => ?_
  split
  · exact (takes_record _).bind fun _ => (takes_count d .timeout).bind fun _ =>
      takes_release.bind fun _ => takes_throw .denied
  · exact (takes_record _).bind fun _ => (takes_arm d).bind fun _ =>
      (takes_setHeld (some d)).bind fun _ => takes_count d .grant

theorem takes_solicit (d : Direction) :
    Takes config [config.guardMicros] (Action.solicit d : Action κ Unit) :=
  (takes_count d .request).bind fun _ => (takes_monitor d).bind fun _ => takes_signalOrRelease d

/-- A request that is signalled is not over before its answer. -/
theorem run_request_eq (e : Engine κ) {d : Direction} (henabled : e.enabled = true)
    (hmatters : ¬ (d = .rx ∧ e.flags.rx = false)) :
    (Action.request d).run e = (do
      Action.solicit d
      let since ← Action.withRig .timestamp
      Action.linger since
      Action.settle d).run e := by
  have hask : (Action.ask d).run e = (do
      Action.solicit d
      let since ← Action.withRig .timestamp
      pure (some { direction := d, since }) : Action κ (Option Standing)).run e := by
    unfold Action.ask
    rw [run_get_bind, if_neg hmatters, if_pos henabled]
  unfold Action.request
  rw [run_bind, hask, ← run_bind]
  simp only [bind_assoc, pure_bind]

/-- **A request that is signalled makes two pauses**: one between its messages and one before its
answer is read. -/
theorem elapses_request (e : Engine κ) {d : Direction} (henabled : e.enabled = true)
    (hmatters : ¬ (d = .rx ∧ e.flags.rx = false)) :
    Elapses e.config.bitTicks [e.config.guardMicros, e.config.sampleMicros] e.rig.clock
      (ending (e.act (.perform (.request d))).1) (timings (e.act (.perform (.request d))).2.1)
      (e.act (.perform (.request d))).2.2.rig.clock := by
  have htakes : TakesAt { e with rig.sightings := [] }
      [e.config.guardMicros, e.config.sampleMicros] (Action.request d) :=
    .of_run_eq (run_request_eq _ henabled hmatters)
      (((takes_solicit d).bind fun _ => (takes_settle d).pause_bind) _ rfl)
  obtain ⟨-, t, ht, helapses⟩ := htakes.bind fun _ => takes_pure (none : Option DenyState)
  obtain rfl : (e.act (.perform (.request d))).2.1 = t := ht
  exact helapses

end Engine

end SharedRadio.Coexistence
