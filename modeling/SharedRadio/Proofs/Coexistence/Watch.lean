import SharedRadio.Proofs.Coexistence.Transcript

/-!
# Which deny line is watched

While access is held, the edge interrupt of the monitored deny line is enabled, and no other one is;
without access none is. `Watchful` says so of where an engine stands, and every operation keeps it
(`Performs.watchful`), whichever writes of the request line fail in its course.

A request is where this could break. It turns to another deny line before it signals, and until it
has its answer the access that was held before is held without being watched. All that is left in
between is `Faces`: no line but the one asked for is watched. A grant and a release both restore the
rest. A request whose deny line cannot be read ends in between, and so does one that waits for ever;
these two are excluded.
-/

namespace SharedRadio.Coexistence

/-! ## Where signalling leaves an engine -/

/-- Something was written to the request line, with success or not. -/
def Sighting.isWrite : Sighting → Bool
  | .wrote .. => true
  | _ => false

/-- The request line was written. -/
def Writes (t : List Sighting) : Bool := t.any Sighting.isWrite

theorem writes_append (t u : List Sighting) : Writes (t ++ u) = (Writes t || Writes u) :=
  List.any_append

theorem Rig.Transmits.stance_eq {levels : List Bool} {v w : Direction → Bool}
    {x : Except Rig.Halt Unit} {t : List Sighting} (h : Rig.Transmits levels v x t w) : w = v := by
  induction h with
  | held tick more ih => exact ih
  | _ => rfl

theorem Rig.Transmits.writes {levels : List Bool} {v w : Direction → Bool}
    {x : Except Rig.Halt Unit} {t : List Sighting} (h : Rig.Transmits levels v x t w)
    (hlevels : levels ≠ []) : Writes t = true := by
  cases h with
  | done => exact absurd rfl hlevels
  | _ => rfl

/-- The engine gives up any access, if it is enabled. -/
def Stance.released (v : Stance) : Stance := if v.enabled then v.vacate else v

namespace Engine

variable {v w : Stance} {t : List Sighting} {x : Except Halt Unit}

theorem Sends.stance_eq {byte : UInt8} (h : Sends byte v x t w) : w = v := by
  cases h with
  | ok h | fault h | endless h => rw [h.stance_eq]

theorem Sends.writes {byte : UInt8} (h : Sends byte v x t w) : Writes t = true := by
  have hlevels : Frame.levels byte ≠ [] := List.cons_ne_nil _ _
  cases h with
  | ok h | endless h => exact h.writes hlevels
  | fault h => rw [writes_append, h.writes hlevels, Bool.true_or]

theorem Pauses.stance_eq (h : Rig.Pauses Halt.endless v x t w) : w = v := by
  cases h <;> rfl

theorem Signals.stance_eq {d : Direction} (h : Signals d v x t w) : w = v := by
  rcases h with ⟨first, rest⟩ | first
  · obtain rfl := Sends.stance_eq first
    rcases rest with ⟨pause, second⟩ | pause
    · obtain rfl := Pauses.stance_eq pause
      exact Sends.stance_eq second
    · exact Pauses.stance_eq pause
  · exact Sends.stance_eq first

theorem Signals.writes {d : Direction} (h : Signals d v x t w) : Writes t = true := by
  rcases h with ⟨first, rest⟩ | first
  · rw [writes_append, Sends.writes first, Bool.true_or]
  · exact Sends.writes first

/-- Access is given up even if that cannot be signalled. -/
theorem Releases.stance_eq (h : Releases v x t w) : w = v.released := by
  cases h with
  | passes disabled => simp [Stance.released, disabled]
  | signals enabled sends =>
    rw [Sends.stance_eq sends, Stance.released, if_pos enabled]

/-- A request that cannot be signalled ends in a release, however that goes. -/
theorem SignalsOrReleases.stance_eq {d : Direction} (h : SignalsOrReleases d v x t w)
    (hends : x ≠ .error .endless) : w = if x = .ok () then v else v.released := by
  cases h with
  | signalled signals =>
    rw [signals.stance_eq]
    rfl
  | endless => exact absurd rfl hends
  | released signals releases =>
    rw [releases.stance_eq, signals.stance_eq]
    rfl
  | releasesForever => exact absurd rfl hends

theorem SignalsOrReleases.writes {d : Direction} (h : SignalsOrReleases d v x t w) :
    Writes t = true := by
  cases h with
  | signalled signals | endless signals => exact signals.writes
  | released signals | releasesForever signals =>
    rw [writes_append, signals.writes, Bool.true_or]

end Engine

/-! ## Watching -/

/-- The edge interrupt of a deny line is enabled exactly if it is the monitored one and access is
held, and a disabled engine holds no access. -/
structure Watchful (v : Stance) : Prop where
  armed_eq : ∀ d, v.armed d = (v.held.isSome && decide (d = v.monitored))
  idle : v.enabled = false → v.held = none

/-- A deny line is the monitored one, and no other is watched. -/
structure Faces (v : Stance) (d : Direction) : Prop where
  monitored : v.monitored = d
  other : ∀ e, e ≠ d → v.armed e = false

variable {v : Stance} {d : Direction}

theorem Watchful.faces (h : Watchful v) : Faces v v.monitored where
  monitored := rfl
  other e he := by rw [h.armed_eq, decide_eq_false he, Bool.and_false]

theorem Faces.count (h : Faces v d) (e : Direction) (o : Occurrence) : Faces (v.count e o) d :=
  ⟨h.monitored, h.other⟩

/-- Turning to a deny line leaves no other one watched. -/
theorem Faces.turn (h : Faces v v.monitored) (d : Direction) : Faces (v.turn d) d := by
  unfold Stance.turn
  split
  · next hsame => exact hsame ▸ h
  · refine ⟨rfl, fun e he => ?_⟩
    show Function.update v.armed v.monitored false e = false
    by_cases hm : e = v.monitored
    · rw [hm, Function.update_self]
    · rw [Function.update_of_ne hm, h.other e hm]

/-- After a release no line is watched. -/
theorem Faces.vacate (h : Faces v d) : Watchful v.vacate where
  armed_eq e := by
    show Function.update v.armed v.monitored false e = false
    by_cases hm : e = v.monitored
    · rw [hm, Function.update_self]
    · rw [Function.update_of_ne hm, h.other e (h.monitored ▸ hm)]
  idle _ := rfl

/-- After a grant the line that was asked for is watched. -/
theorem Faces.grant (h : Faces v d) (henabled : v.enabled = true) :
    Watchful ({ v.arm d with held := some d }.count d .grant) where
  armed_eq e := by
    show Function.update v.armed d true e = (true && decide (e = v.monitored))
    rw [h.monitored, Bool.true_and]
    by_cases he : e = d
    · rw [he, Function.update_self, decide_eq_true rfl]
    · rw [Function.update_of_ne he, h.other e he, decide_eq_false he]
  idle hdisabled := Bool.noConfusion (henabled.symm.trans hdisabled)

/-- No deny line is watched but the monitored one, and a disabled engine holds no access and watches
no line. -/
structure Contained (v : Stance) : Prop where
  faces : Faces v v.monitored
  disabled : v.enabled = false → Watchful v

theorem Watchful.contained (h : Watchful v) : Contained v := ⟨h.faces, fun _ => h⟩

/-- Giving up access restores whatever else was lost. -/
theorem Contained.released (h : Contained v) : Watchful v.released := by
  unfold Stance.released
  split
  · exact h.faces.vacate
  · next hdisabled => exact h.disabled (Bool.eq_false_of_not_eq_true hdisabled)

theorem Stance.released_monitored (v : Stance) : v.released.monitored = v.monitored := by
  unfold Stance.released
  split <;> rfl

/-- After a release that could be signalled, or not, a disabled engine holds no access. -/
theorem Contained.disable (h : Contained v) : Watchful { v.released with enabled := false } where
  armed_eq := h.released.armed_eq
  idle _ := by
    cases henabled : v.enabled with
    | true =>
      simp only [Stance.released, henabled, if_true]
      rfl
    | false =>
      simp only [Stance.released, henabled, Bool.false_eq_true, if_false]
      exact (h.disabled henabled).idle henabled

namespace Engine

variable {w : Stance} {t : List Sighting}

/-! ## What the operations keep -/

theorem Settles.watchful {x : Except Halt Unit} (h : Settles d v x t w) (hfaces : Faces v d)
    (henabled : v.enabled = true) (hlegible : Legible t) : Watchful w ∧ w.monitored = d := by
  cases h with
  | grants high passes => exact ⟨hfaces.grant henabled, hfaces.monitored⟩
  | refuses high denies releases =>
    have henabled : (v.count d .timeout).enabled = true := henabled
    rw [releases.stance_eq, Stance.released, if_pos henabled]
    exact ⟨(hfaces.count d .timeout).vacate, hfaces.monitored⟩
  | unread => exact nomatch (legible_cons.mp hlegible).1

/-- A request that is answered, or cannot be signalled, leaves the line watched that it asked for,
or none. -/
theorem Negotiates.watchful {x : Except Halt Unit} (h : Negotiates d v x t w) (hfaces : Faces v d)
    (henabled : v.enabled = true) (hlegible : Legible t) (hends : x ≠ .error .endless) :
    Watchful w ∧ w.monitored = d ∧ Writes t = true := by
  rcases h with ⟨first, rest⟩ | first
  · obtain rfl : _ = v := first.stance_eq nofun
    rw [writes_append, first.writes]
    rcases rest with ⟨pause, settles⟩ | pause
    · obtain rfl := Pauses.stance_eq pause
      obtain ⟨hwatchful, hmonitored⟩ := settles.watchful hfaces henabled
        (legible_append.mp (legible_append.mp hlegible).2).2
      exact ⟨hwatchful, hmonitored, rfl⟩
    · cases pause
      exact absurd rfl hends
  · have hw := first.stance_eq hends
    rw [if_neg nofun, Stance.released, if_pos henabled] at hw
    rw [hw]
    exact ⟨hfaces.vacate, hfaces.monitored, first.writes⟩

/-- The direction that an operation asks for, if it gets as far as to signal that. -/
def Operation.signalled? (operation : Operation) (t : List Sighting) : Option Direction :=
  match operation with
  | .request d => if Writes t then some d else none
  | _ => none

theorem Requests.watchful {x : Except Halt Unit} (h : Requests d v x t w) (hv : Watchful v)
    (hlegible : Legible t) (hends : x ≠ .error .endless) :
    Watchful w ∧ w.monitored = ((Operation.request d).signalled? t).getD v.monitored := by
  cases h with
  | grants low => exact ⟨⟨hv.armed_eq, hv.idle⟩, rfl⟩
  | passes matters disabled => exact ⟨hv, rfl⟩
  | negotiates matters enabled turns negotiates =>
    have hcount : Watchful (v.count d .request) := ⟨hv.armed_eq, hv.idle⟩
    obtain ⟨hwatchful, hmonitored, hwrites⟩ := negotiates.watchful (hcount.faces.turn d)
      ((Stance.turn_enabled _ d).trans enabled) (legible_append.mp hlegible).2 hends
    refine ⟨hwatchful, ?_⟩
    simp only [Operation.signalled?, writes_append, hwrites, Bool.or_true, if_true]
    exact hmonitored

/-- **Every operation keeps the right deny line watched**, whichever writes of the request line
fail. Only a request that is not answered is an exception. -/
theorem Performs.watchful {operation : Operation} {x : Except Halt (Option DenyState)}
    (h : Performs operation v x t w) (hv : Watchful v)
    (hanswered : ∀ d, operation = .request d → Legible t ∧ x ≠ .error .endless) :
    Watchful w ∧ w.monitored = (operation.signalled? t).getD v.monitored := by
  cases operation with
  | enable =>
    obtain ⟨-, -, rfl⟩ := h
    exact ⟨⟨hv.armed_eq, nofun⟩, rfl⟩
  | setPriority | resetStatistics =>
    obtain ⟨-, -, rfl⟩ := h
    exact ⟨⟨hv.armed_eq, hv.idle⟩, rfl⟩
  | disable =>
    obtain ⟨y, disables, -⟩ := h
    cases disables with
    | releases releases =>
      rw [releases.stance_eq]
      exact ⟨hv.contained.disable, Stance.released_monitored v⟩
    | endless releases =>
      rw [releases.stance_eq]
      exact ⟨hv.contained.released, Stance.released_monitored v⟩
  | request d =>
    obtain ⟨y, requests, rfl⟩ := h
    obtain ⟨hlegible, hends⟩ := hanswered d rfl
    exact requests.watchful hv hlegible (ne_endless_of_map rfl hends)
  | change d =>
    obtain ⟨y, changes, -⟩ := h
    cases changes with
    | passes | refuses => exact ⟨hv, rfl⟩
    | signals enabled holds signals =>
      rw [signals.stance_eq]
      have hheld : v.held.isSome = true := Option.isSome_iff_ne_none.mpr holds
      refine ⟨⟨fun e => ?_, fun hdisabled => ?_⟩, rfl⟩
      · rw [hv.armed_eq, hheld]
        rfl
      · exact Bool.noConfusion (enabled.symm.trans hdisabled)
  | release =>
    obtain ⟨y, releases, -⟩ := h
    rw [releases.stance_eq]
    exact ⟨hv.contained.released, Stance.released_monitored v⟩
  | denyState =>
    obtain ⟨y, reads, -⟩ := h
    rcases reads with ⟨tx, z, rx, -⟩ | tx
    · rw [rx.quiet.2, tx.quiet.2]
      exact ⟨hv, rfl⟩
    · rw [tx.quiet.2]
      exact ⟨hv, rfl⟩

/-- An interrupt leaves every line watched as it was. -/
theorem Interrupts.watchful {x : Except Halt (Option Event)} (h : Interrupts d v x t w)
    (hv : Watchful v) : Watchful w ∧ w.monitored = v.monitored := by
  cases h with
  | aborts => exact ⟨⟨hv.armed_eq, hv.idle⟩, rfl⟩
  | _ => exact ⟨hv, rfl⟩

/-- An engine that is ready watches no line. -/
theorem Prepares.watchful (h : Prepares v (.ok ()) t w) :
    Watchful w ∧ w.monitored = v.monitored := by
  cases h with
  | readies valid tick releases =>
    rw [releases.stance_eq]
    refine ⟨⟨fun e => ?_, nofun⟩, rfl⟩
    show Function.update (Function.update (Stance.released _).armed .tx false) .rx false e = false
    cases e with
    | rx => rw [Function.update_self]
    | tx => rw [Function.update_of_ne (by decide), Function.update_self]

end Engine

end SharedRadio.Coexistence
