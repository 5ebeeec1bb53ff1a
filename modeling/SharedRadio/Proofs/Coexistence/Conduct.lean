import SharedRadio.Proofs.Coexistence.Stance

/-!
# What the engine can do

For every operation of the engine there is a course, with one case for each way in which the
operation can go, the ways in which it fails included. The course says all that can be told without
the clock and the levels of the lines: what the operation comes to, every sighting in its order, and
where the engine stands afterwards. `follows_perform`, `follows_interrupt` and `follows_prepare`
open the code of the engine; what is proved of it elsewhere is proved of the courses.
-/

namespace SharedRadio.Coexistence.Engine

open Course

variable {κ : Type}

/-! ## Deny lines -/

/-- Both deny lines are read. -/
def ReadsBoth : Course Stance Halt DenyState :=
  (Reads .tx).andThen fun tx => (Reads .rx).map fun rx => if tx || rx then .denied else .granted

theorem follows_denyState : Follows (Action.denyState : Action κ DenyState) ReadsBoth :=
  (follows_isDenied .tx).bind fun _ => (follows_isDenied .rx).bind_pure _

/-- The edge interrupt of a deny line is handled. -/
inductive Interrupts (d : Direction) : Course Stance Halt (Option Event)
  | passes {v : Stance} (disabled : v.enabled = false) :
      Interrupts d v (.ok none) [.cleared d] v
  | aborts {v : Stance} (high : Bool) (enabled : v.enabled = true)
      (denies : v.config.denyLevel.denies high = true) :
      Interrupts d v (.ok (some .abort))
        [.cleared d, .sampled d (some high), .logged (Record.lineChanged d .abort).logLine]
        (v.count d .abort)
  | idles {v : Stance} (high : Bool) (enabled : v.enabled = true)
      (passes : v.config.denyLevel.denies high = false) :
      Interrupts d v (.ok (some .idle))
        [.cleared d, .sampled d (some high), .logged (Record.lineChanged d .idle).logLine] v
  | unread {v : Stance} (enabled : v.enabled = true) :
      Interrupts d v (.error (.fault .gpio))
        [.cleared d, .sampled d none, .logged Record.lineFault.logLine] v

theorem follows_interrupt (d : Direction) :
    Follows (Action.interrupt d : Action κ (Option Event)) (Interrupts d) := by
  unfold Action.interrupt
  refine ((follows_clear d).bind (d := fun _ v x t w => Interrupts d v x (.cleared d :: t) w)
    fun _ => Follows.get_bind fun e => ?_).mono ?_
  · refine follows_if_enabled e .passes fun henabled => ?_
    refine ((follows_isDenied d).bind (d := fun denied =>
      (does () [] fun v => if denied then v.count d .abort else v).andThen fun _ =>
        (does (if denied then .abort else .idle) [] id).andThen fun event =>
          (does () [.logged (Record.lineChanged d event).logLine] id).andThen fun _ =>
            does (some event) [] id) fun denied => ?_).mono ?_
    · cases denied with
      | true =>
        exact (follows_count d .abort).bind fun _ => (follows_pure Event.abort).bind fun event =>
          (follows_record (.lineChanged d event)).bind fun _ => follows_pure (some event)
      | false =>
        exact (follows_pure ()).bind fun _ => (follows_pure Event.idle).bind fun event =>
          (follows_record (.lineChanged d event)).bind fun _ => follows_pure (some event)
    · intro v x t w h hv
      have henabled : v.enabled = true := hv ▸ henabled
      rcases h with ⟨⟨high⟩, second⟩ | ⟨⟨⟩⟩
      · simp only [does_andThen, List.nil_append, exists_eq_left'] at second
        obtain ⟨u, rfl, rfl, rfl, rfl⟩ := second
        cases hdenied : v.config.denyLevel.denies high with
        | true => exact .aborts high henabled hdenied
        | false => exact .idles high henabled hdenied
      · exact .unread henabled
  · intro v x t w h
    rw [does_andThen] at h
    obtain ⟨u, rfl, h⟩ := h
    exact h

variable [Clock κ]

/-! ## Signalling -/

/-- A byte is sent on the request line. -/
def Sends (byte : UInt8) : Course Stance Halt Unit := (Rig.Transmits (Frame.levels byte)).lifted

theorem follows_send (byte : UInt8) : Follows (Action.send byte : Action κ Unit) (Sends byte) :=
  Follows.get_bind fun e =>
    (Rig.follows_sendByte e.config.bitTicks byte).withRig.mono fun _ _ _ _ h _ => h

theorem follows_timestamp :
    Follows (Action.withRig .timestamp : Action κ UInt32) Rig.Stamps := by
  refine Rig.follows_timestamp.withRig.mono ?_
  intro v x t w h
  cases h with
  | ok h => cases h; exact .intro _
  | fault h => cases h
  | endless h => cases h

theorem follows_awaitMicros (since duration : UInt32) :
    Follows (Action.withRig (.awaitMicros since duration) : Action κ Unit)
      (Rig.Awaits .endless since) := by
  refine (Rig.follows_awaitMicros since duration).withRig.mono ?_
  intro v x t w h
  cases h with
  | ok h => obtain ⟨reads, last⟩ := h; exact .ends reads last
  | fault h => cases h
  | endless h => cases h; exact .endless

theorem follows_pause (duration : UInt32) :
    Follows (Action.withRig (.pause duration) : Action κ Unit) (Rig.Pauses .endless) := by
  refine (Rig.follows_pause duration).withRig.mono ?_
  intro v x t w h
  cases h with
  | ok h => obtain ⟨since, reads, last⟩ := h; exact .ends since reads last
  | fault h => cases h
  | endless h => cases h with | endless since => exact .endless since

/-- A request is signalled: first the priority flags and then, after a pause, the direction. -/
def Signals (d : Direction) : Course Stance Halt Unit := fun v =>
  ((Sends (Message.priority v.flags)).andThen fun _ =>
    (Rig.Pauses .endless).andThen fun _ => Sends (Message.request d)) v

theorem follows_signalRequest (d : Direction) :
    Follows (Action.signalRequest d : Action κ Unit) (Signals d) := by
  refine Follows.get_bind fun e => ?_
  refine ((follows_send (Message.priority e.flags)).bind fun _ =>
    (follows_pause e.config.guardMicros).bind fun _ => follows_send (Message.request d)).mono ?_
  rintro v x t w h rfl
  exact h

/-- Any access is given up, and that is signalled. -/
inductive Releases : Course Stance Halt Unit
  | passes {v : Stance} (disabled : v.enabled = false) : Releases v (.ok ()) [] v
  | signals {v w : Stance} {x : Except Halt Unit} {t : List Sighting} (enabled : v.enabled = true)
      (sends : Sends Message.release v.vacate x t w) :
      Releases v x (.disarmed v.monitored :: t) w

theorem follows_release : Follows (Action.release : Action κ Unit) Releases := by
  unfold Action.release
  refine Follows.get_bind fun e => ?_
  refine follows_if_enabled e .passes fun henabled => ?_
  refine ((follows_disarm e.monitored).bind fun _ =>
    (follows_setHeld none).bind fun _ => (follows_count e.monitored .release).bind fun _ =>
      follows_send Message.release).mono ?_
  rintro v x t w h rfl
  simp only [does_andThen, List.nil_append, exists_eq_left'] at h
  obtain ⟨u, rfl, sends⟩ := h
  exact .signals henabled sends

/-- A request is signalled, or else a release is attempted. -/
inductive SignalsOrReleases (d : Direction) : Course Stance Halt Unit
  | signalled {v w : Stance} {t : List Sighting} (signals : Signals d v (.ok ()) t w) :
      SignalsOrReleases d v (.ok ()) t w
  | endless {v w : Stance} {t : List Sighting} (signals : Signals d v (.error .endless) t w) :
      SignalsOrReleases d v (.error .endless) t w
  /-- The release may fail, too. -/
  | released {v v' w : Stance} {f : Fault} {x : Except Halt Unit} {t u : List Sighting}
      (signals : Signals d v (.error (.fault f)) t v') (releases : Releases v' x u w)
      (ends : x ≠ .error .endless) :
      SignalsOrReleases d v (.error (.fault f)) (t ++ u) w
  | releasesForever {v v' w : Stance} {f : Fault} {t u : List Sighting}
      (signals : Signals d v (.error (.fault f)) t v')
      (releases : Releases v' (.error .endless) u w) :
      SignalsOrReleases d v (.error .endless) (t ++ u) w

theorem follows_signalOrRelease (d : Direction) :
    Follows (Action.signalOrRelease d : Action κ Unit) (SignalsOrReleases d) := by
  unfold Action.signalOrRelease
  refine ((follows_signalRequest d).attempt_bind (fun _ => follows_pure ()) fun f =>
    follows_release.attempt_bind (fun _ => follows_throw (Halt.fault f)) fun _ =>
      follows_throw (Halt.fault f)).mono ?_
  intro v x t w h
  cases h with
  | ok signals rest =>
    obtain ⟨rfl, rfl, rfl⟩ := rest
    rw [List.append_nil]
    exact .signalled signals
  | fault signals rest =>
    cases rest with
    | ok releases rest | fault releases rest =>
      obtain ⟨rfl, rfl, rfl⟩ := rest
      rw [List.append_nil]
      exact .released signals releases nofun
    | endless releases => exact .releasesForever signals releases
  | endless signals => exact .endless signals

/-! ## Asking for access -/

/-- The answer to a request is read off the deny line, and followed. -/
inductive Settles (d : Direction) : Course Stance Halt Unit
  | grants {v : Stance} (high : Bool) (passes : v.config.denyLevel.denies high = false) :
      Settles d v (.ok ())
        [.sampled d (some high), .logged (Record.granted d).logLine, .armed d]
        ({ v.arm d with held := some d }.count d .grant)
  | refuses {v w : Stance} {x : Except Halt Unit} {t : List Sighting} (high : Bool)
      (denies : v.config.denyLevel.denies high = true)
      (releases : Releases (v.count d .timeout) x t w) :
      Settles d v (x.bind fun _ => .error (.fault .denied))
        (.sampled d (some high) :: .logged (Record.denied d).logLine :: t) w
  | unread {v : Stance} :
      Settles d v (.error (.fault .gpio))
        [.sampled d none, .logged Record.lineFault.logLine] v

theorem follows_settle (d : Direction) :
    Follows (Action.settle d : Action κ Unit) (Settles d) := by
  unfold Action.settle
  refine ((follows_isDenied d).bind (d := fun denied => if denied then
      (does () [.logged (Record.denied d).logLine] id).andThen fun _ =>
        (does () [] fun v => v.count d .timeout).andThen fun _ =>
          Releases.andThen fun _ => fails (.fault .denied)
    else
      (does () [.logged (Record.granted d).logLine] id).andThen fun _ =>
        (does () [.armed d] fun v => v.arm d).andThen fun _ =>
          (does () [] fun v => { v with held := some d }).andThen fun _ =>
            does () [] fun v => v.count d .grant) fun denied => ?_).mono ?_
  · cases denied with
    | true =>
      exact (follows_record (.denied d)).bind fun _ => (follows_count d .timeout).bind fun _ =>
        follows_release.bind fun _ => follows_throw _
    | false =>
      exact (follows_record (.granted d)).bind fun _ => (follows_arm d).bind fun _ =>
        (follows_setHeld (some d)).bind fun _ => follows_count d .grant
  · rintro v x t w (⟨⟨high⟩, second⟩ | first)
    · cases hdenied : v.config.denyLevel.denies high with
      | true =>
        rw [hdenied, if_pos rfl] at second
        simp only [does_andThen, List.nil_append, exists_eq_left'] at second
        obtain ⟨u, rfl, ⟨releases, rfl, rfl, rfl⟩ | releases⟩ := second
        · rw [List.append_nil]
          exact .refuses high hdenied releases
        · exact .refuses high hdenied releases
      | false =>
        rw [hdenied, if_neg Bool.false_ne_true] at second
        simp only [does_andThen, List.nil_append, exists_eq_left'] at second
        obtain ⟨u, rfl, u', rfl, rfl, rfl, rfl⟩ := second
        exact .grants high hdenied
    · cases first
      exact .unread

/-- A request is signalled and, after a pause, answered. -/
def Negotiates (d : Direction) : Course Stance Halt Unit :=
  (SignalsOrReleases d).andThen fun _ => (Rig.Pauses .endless).andThen fun _ => Settles d

/-- Access is asked for. -/
inductive Requests (d : Direction) : Course Stance Halt Unit
  /-- A receive request without receive priority is granted at once. -/
  | grants {v : Stance} (low : d = .rx ∧ v.flags.rx = false) :
      Requests d v (.ok ()) [] (v.count d .immediateGrant)
  | passes {v : Stance} (matters : ¬ (d = .rx ∧ v.flags.rx = false))
      (disabled : v.enabled = false) : Requests d v (.ok ()) [] v
  | negotiates {v w : Stance} {x : Except Halt Unit} {t u : List Sighting}
      (matters : ¬ (d = .rx ∧ v.flags.rx = false)) (enabled : v.enabled = true)
      (turns : t = if v.monitored = d then [] else [.disarmed v.monitored])
      (negotiates : Negotiates d ((v.count d .request).turn d) x u w) :
      Requests d v x (t ++ u) w

/-- A request is signalled to begin with, after a turn to its deny line. -/
inductive Solicits (d : Direction) : Course Stance Halt Unit
  | intro {v w : Stance} {x : Except Halt Unit} {t u : List Sighting}
      (turns : t = if v.monitored = d then [] else [.disarmed v.monitored])
      (signals : SignalsOrReleases d ((v.count d .request).turn d) x u w) :
      Solicits d v x (t ++ u) w

theorem follows_solicit (d : Direction) :
    Follows (Action.solicit d : Action κ Unit) (Solicits d) := by
  refine ((follows_count d .request).bind fun _ => (follows_monitor d).bind fun _ =>
    follows_signalOrRelease d).mono ?_
  rintro v x t w h
  rw [does_andThen] at h
  obtain ⟨u, rfl, h⟩ := h
  rcases h with ⟨⟨-, rfl, rfl⟩, signals⟩ | ⟨hx, -, -⟩
  · exact .intro rfl signals
  · cases hx

/-- A request begins. -/
inductive Asks (d : Direction) : Course Stance Halt (Option Standing)
  /-- A receive request without receive priority is granted at once. -/
  | grants {v : Stance} (low : d = .rx ∧ v.flags.rx = false) :
      Asks d v (.ok none) [] (v.count d .immediateGrant)
  | passes {v : Stance} (matters : ¬ (d = .rx ∧ v.flags.rx = false))
      (disabled : v.enabled = false) : Asks d v (.ok none) [] v
  | stands {v w : Stance} {t : List Sighting} (matters : ¬ (d = .rx ∧ v.flags.rx = false))
      (enabled : v.enabled = true) (solicits : Solicits d v (.ok ()) t w) (since : UInt32) :
      Asks d v (.ok (some { direction := d, since })) (t ++ [.stamped since]) w
  | stops {v w : Stance} {h : Halt} {t : List Sighting}
      (matters : ¬ (d = .rx ∧ v.flags.rx = false)) (enabled : v.enabled = true)
      (solicits : Solicits d v (.error h) t w) : Asks d v (.error h) t w

theorem follows_ask (d : Direction) :
    Follows (Action.ask d : Action κ (Option Standing)) (Asks d) := by
  unfold Action.ask
  refine Follows.get_bind fun e => ?_
  by_cases hlow : d = .rx ∧ e.flags.rx = false
  · rw [if_pos hlow]
    refine ((follows_count d .immediateGrant).bind fun _ => follows_pure none).mono ?_
    rintro v x t w h rfl
    rw [does_andThen] at h
    obtain ⟨u, rfl, rfl, rfl, rfl⟩ := h
    exact .grants hlow
  · rw [if_neg hlow]
    refine follows_if_enabled e (.passes hlow) fun henabled => ?_
    refine ((follows_solicit d).bind fun _ => follows_timestamp.bind fun since =>
      follows_pure (some ({ direction := d, since } : Standing))).mono ?_
    rintro v x t w (⟨solicits, rest⟩ | solicits) rfl
    · rcases rest with ⟨⟨_⟩, rfl, rfl, rfl⟩ | ⟨⟨⟩⟩
      exact .stands hlow henabled solicits _
    · exact .stops hlow henabled solicits

theorem follows_linger (since : UInt32) :
    Follows (Action.linger since : Action κ Unit) (Rig.Awaits .endless since) :=
  Follows.get_bind fun e => (follows_awaitMicros since e.config.sampleMicros).mono
    fun _ _ _ _ h _ => h

/-- What is left of a request that has begun: nothing if it was granted at once, and otherwise the
wait for its answer and the answer. -/
def AwaitsAnswer (d : Direction) : Option Standing → Course Stance Halt Unit
  | none => does () [] id
  | some standing => (Rig.Awaits .endless standing.since).andThen fun _ => Settles d

theorem follows_request (d : Direction) :
    Follows (Action.request d : Action κ Unit) (Requests d) := by
  unfold Action.request
  refine ((follows_ask d).bind (d := AwaitsAnswer d) fun standing => ?_).mono ?_
  · cases standing with
    | none => exact follows_pure ()
    | some standing => exact (follows_linger standing.since).bind fun _ => follows_settle d
  · rintro v x t w (⟨first, rest⟩ | first)
    · cases first with
      | grants low =>
        obtain ⟨rfl, rfl, rfl⟩ := rest
        exact .grants low
      | passes matters disabled =>
        obtain ⟨rfl, rfl, rfl⟩ := rest
        exact .passes matters disabled
      | stands matters enabled solicits since =>
        obtain ⟨turns, signals⟩ := solicits
        rw [List.append_assoc, List.append_assoc]
        refine .negotiates matters enabled turns (.goesOn signals ?_)
        -- The timestamp is taken in one step and waited for in another: together they are a pause.
        exact (andThen.assoc (.goesOn (.intro since) rest)).mono fun _ _ _ _ h => .of_stamps h
    · cases first with
      | stops matters enabled solicits =>
        obtain ⟨turns, signals⟩ := solicits
        exact .negotiates matters enabled turns (.stops signals)

/-- Another direction is asked for within the access that is held. -/
inductive Changes (d : Direction) : Course Stance Halt Unit
  | passes {v : Stance} (disabled : v.enabled = false) : Changes d v (.ok ()) [] v
  | refuses {v : Stance} (enabled : v.enabled = true) (idle : v.held = none) :
      Changes d v (.error (.fault .denied)) [.logged (Record.nothingToChange d).logLine] v
  | signals {v w : Stance} {x : Except Halt Unit} {t : List Sighting} (enabled : v.enabled = true)
      (holds : v.held ≠ none) (signals : Signals d { v with held := some d } x t w) :
      Changes d v x t w

theorem follows_change (d : Direction) :
    Follows (Action.change d : Action κ Unit) (Changes d) := by
  unfold Action.change
  refine Follows.get_bind fun e => ?_
  refine follows_if_enabled e .passes fun henabled => ?_
  by_cases hidle : e.held = none
  · rw [if_pos hidle]
    refine ((follows_record (.nothingToChange d)).bind fun _ => follows_throw _).mono ?_
    rintro v x t w h rfl
    rw [does_andThen] at h
    obtain ⟨u, rfl, rfl, rfl, rfl⟩ := h
    exact .refuses henabled hidle
  · rw [if_neg hidle]
    refine ((follows_setHeld (some d)).bind fun _ => follows_signalRequest d).mono ?_
    rintro v x t w h rfl
    rw [does_andThen] at h
    obtain ⟨u, rfl, signals⟩ := h
    exact .signals henabled hidle signals

/-- Any access is given up, and nothing is signalled from then on. -/
inductive Disables : Course Stance Halt Unit
  | releases {v w : Stance} {x : Except Halt Unit} {t : List Sighting} (releases : Releases v x t w)
      (ends : x ≠ .error .endless) : Disables v x t { w with enabled := false }
  | endless {v w : Stance} {t : List Sighting} (releases : Releases v (.error .endless) t w) :
      Disables v (.error .endless) t w

theorem follows_disable : Follows (Action.disable : Action κ Unit) Disables := by
  unfold Action.disable
  refine (follows_release.attempt_bind
    (fun _ => (follows_setEnabled false).bind fun _ => follows_pure ()) fun f =>
      (follows_setEnabled false).bind fun _ => follows_throw (.fault f)).mono ?_
  intro v x t w h
  cases h with
  | ok releases rest | fault releases rest =>
    rw [does_andThen] at rest
    obtain ⟨u, rfl, rfl, rfl, rfl⟩ := rest
    exact List.append_nil _ ▸ .releases releases nofun
  | endless releases => exact .endless releases

/-! ## Whole operations -/

/-- An operation of the engine. -/
def Performs : Operation → Course Stance Halt (Option DenyState)
  | .enable => does none [] fun v => { v with enabled := true }
  | .disable => Disables.map fun _ => none
  | .setPriority d high => does none [] fun v => { v with flags := v.flags.set d high }
  | .request d => (Requests d).map fun _ => none
  | .change d => (Changes d).map fun _ => none
  | .release => Releases.map fun _ => none
  | .denyState => ReadsBoth.map some
  | .resetStatistics => does none [] fun v => { v with statistics := {} }

theorem follows_perform (operation : Operation) :
    Follows (Action.perform operation : Action κ (Option DenyState)) (Performs operation) := by
  have hsets {g : Engine κ → Engine κ} {g' : Stance → Stance} (hrig : ∀ e, (g e).rig = e.rig)
      (hstance : ∀ e, (g e).stance = g' e.stance) :
      Follows (do modify g; pure none : Action κ (Option DenyState)) (does none [] g') :=
    fun e => ⟨[], by rw [List.append_nil]; exact congrArg Rig.sightings (hrig e), rfl, rfl,
      hstance e⟩
  cases operation with
  | enable => exact hsets (fun _ => rfl) fun _ => rfl
  | disable => exact follows_disable.bind_pure _
  | setPriority d high => exact hsets (fun _ => rfl) fun _ => rfl
  | request d => exact (follows_request d).bind_pure _
  | change d => exact (follows_change d).bind_pure _
  | release => exact follows_release.bind_pure _
  | denyState => exact follows_denyState.map some
  | resetStatistics => exact hsets (fun _ => rfl) fun _ => rfl

/-- An engine is made ready. -/
inductive Prepares : Course Stance Halt Unit
  | rejects {v : Stance} (invalid : v.config.bitTicks = 0) :
      Prepares v (.error (.fault .invalidParameter)) [] v
  | undriven {v : Stance} (valid : v.config.bitTicks ≠ 0) (tick : UInt32) :
      Prepares v (.error (.fault .gpio))
        [.wrote true false tick, .logged Record.lineFault.logLine] v
  | unreleased {v w : Stance} {h : Halt} {t : List Sighting} (valid : v.config.bitTicks ≠ 0)
      (tick : UInt32) (releases : Releases { v with enabled := true } (.error h) t w) :
      Prepares v (.error h) (.wrote true true tick :: .clockStarted :: t) w
  | readies {v w : Stance} {t : List Sighting} (valid : v.config.bitTicks ≠ 0) (tick : UInt32)
      (releases : Releases { v with enabled := true } (.ok ()) t w) :
      Prepares v (.ok ())
        (.wrote true true tick :: .clockStarted :: t ++ [.disarmed .tx, .cleared .tx,
          .disarmed .rx, .cleared .rx, .logged (Record.initialized v.flags).logLine])
        ((w.disarm .tx).disarm .rx)

theorem follows_prepare : Follows (Action.prepare : Action κ Unit) Prepares := by
  unfold Action.prepare
  refine Follows.get_bind fun e => ?_
  unfold Config.validate
  by_cases hvalid : e.config.bitTicks = 0
  · rw [if_pos hvalid]
    refine (follows_throw _).mono ?_
    rintro v x t w ⟨rfl, rfl, rfl⟩ rfl
    exact .rejects hvalid
  · rw [if_neg hvalid]
    refine ((Rig.follows_drive true).withRig.bind fun _ => (follows_setEnabled true).bind fun _ =>
      Rig.follows_startClock.withRig_does.bind fun _ => follows_release.bind fun _ =>
        (follows_disarm .tx).bind fun _ => (follows_clear .tx).bind fun _ =>
          (follows_disarm .rx).bind fun _ => (follows_clear .rx).bind fun _ =>
            follows_record (.initialized e.flags)).mono ?_
    rintro v x t w (⟨first, second⟩ | first) rfl
    · obtain ⟨⟨tick⟩⟩ := first
      simp only [does_andThen, List.nil_append, exists_eq_left'] at second
      obtain ⟨u, rfl, second⟩ := second
      rcases second with ⟨releases, rest⟩ | releases
      · -- Nothing can go wrong any more.
        simp only [does_andThen] at rest
        obtain ⟨_, rfl, _, rfl, _, rfl, _, rfl, rfl, rfl, rfl⟩ := rest
        exact .readies hvalid _ releases
      · exact .unreleased hvalid _ releases
    · rcases first with _ | ⟨⟨tick⟩⟩ | ⟨⟨⟩⟩
      exact .undriven hvalid _

end SharedRadio.Coexistence.Engine
