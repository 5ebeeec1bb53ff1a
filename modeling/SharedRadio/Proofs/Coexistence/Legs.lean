import SharedRadio.Proofs.Coexistence.Failure
import SharedRadio.Proofs.Coexistence.Rest

/-!
# The legs of a request

A request that is cut into legs begins, looks at the clock some times, and follows its answer. Each
leg has a course. Between two of them the engine may have been disabled, access may have been given
up, and another request may have turned to the other deny line; the answer is followed all the same.

What survives that is that the engine is `Contained`: no deny line is watched but the monitored one,
and none once the engine is disabled. An answer restores the rest, unless it is a grant and finds
the engine disabled, or finds another deny line monitored than its own (`Settles.watchful_iff`).
-/

namespace SharedRadio.Coexistence

/-! ## Courses -/

namespace Rig

variable {κ : Type} [Clock κ]

theorem follows_elapsed (since : UInt32) :
    Follows (Action.elapsed since : Action κ UInt32)
      fun v x t w => (∃ micros, x = .ok micros) ∧ t = [] ∧ w = v :=
  fun _ => ⟨[], (List.append_nil _).symm, ⟨_, rfl⟩, rfl, rfl⟩

end Rig

namespace Engine

open Course

variable {κ : Type} [Clock κ]

/-- The clock is looked at once more, and the answer is due then or it is not. -/
inductive Looks (s : Standing) : Course Stance Halt Standing
  | waits {v : Stance} : Looks s v (.ok { s with reads := s.reads + 1 }) [] v
  | ends {v : Stance} (micros : UInt32) :
      Looks s v (.ok { s with reads := s.reads + 1, due := true })
        [.waited s.since (s.reads + 1) micros] v

/-- A look at the clock leaves the engine where it stands, and so the request. -/
theorem Looks.stays {s : Standing} {v w : Stance} {x : Except Halt Standing} {t : List Sighting}
    (h : Looks s v x t w) : (∃ s', x = .ok s') ∧ w = v := by
  cases h <;> exact ⟨⟨_, rfl⟩, rfl⟩

theorem follows_look (s : Standing) : Follows (Action.look s : Action κ Standing) (Looks s) := by
  have helapsed : Follows (Action.withRig (.elapsed s.since) : Action κ UInt32)
      fun v x t w => (∃ micros, x = .ok micros) ∧ t = [] ∧ w = v := by
    refine (Rig.follows_elapsed s.since).withRig.mono ?_
    rintro v x t w (⟨⟨micros, hx⟩, rfl, rfl⟩ | ⟨⟨_, hx⟩, -⟩ | ⟨⟨_, hx⟩, -⟩)
    · exact ⟨⟨micros, congrArg _ (Except.ok.inj hx)⟩, rfl, rfl⟩
    · cases hx
    · cases hx
  have hwaited (micros : UInt32) :
      Follows (modify fun e => { e with
        rig := e.rig.notice (.waited s.since (s.reads + 1) micros) } : Action κ Unit)
        (does () [.waited s.since (s.reads + 1) micros] id) :=
    follows_modify (fun _ => rfl) fun _ => rfl
  unfold Action.look
  refine Follows.get_bind fun e => ?_
  refine (helapsed.bind (d := fun micros v x t w => Looks s v x t w) fun micros => ?_).mono ?_
  · split
    · refine ((hwaited micros).bind fun _ => follows_pure _).mono ?_
      rintro v x t w h
      rw [does_andThen] at h
      obtain ⟨u, rfl, rfl, rfl, rfl⟩ := h
      exact .ends micros
    · refine (follows_pure _).mono ?_
      rintro v x t w ⟨rfl, rfl, rfl⟩
      exact .waits
  · rintro v x t w (⟨⟨-, rfl, rfl⟩, looks⟩ | ⟨⟨_, hx⟩, -⟩) -
    · exact looks
    · cases hx

/-- A request that stands goes on. -/
inductive Advances (s : Standing) : Course Stance Halt (Option Standing)
  | looks {v w : Stance} {x : Except Halt Standing} {t : List Sighting} (waits : s.due = false)
      (looks : Looks s v x t w) : Advances s v (x.map some) t w
  | settles {v w : Stance} {x : Except Halt Unit} {t : List Sighting} (due : s.due = true)
      (settles : Settles s.direction v x t w) : Advances s v (x.map fun _ => none) t w

theorem follows_advance (s : Standing) :
    Follows (Action.advance s : Action κ (Option Standing)) (Advances s) := by
  unfold Action.advance
  cases hdue : s.due with
  | true =>
    refine ((follows_settle s.direction).bind_pure fun _ => none).mono ?_
    rintro v x t w ⟨y, settles, rfl⟩
    exact .settles hdue settles
  | false =>
    refine ((follows_look s).map some).mono ?_
    rintro v x t w ⟨y, looks, rfl⟩
    exact .looks hdue looks

end Engine

/-! ## What survives between the legs -/

theorem Faces.contained {v : Stance} {d : Direction} (h : Faces v d) (henabled : v.enabled = true) :
    Contained v where
  faces := h.monitored.symm ▸ h
  disabled hdisabled := Bool.noConfusion (henabled.symm.trans hdisabled)

namespace Contained

variable {v : Stance}

theorem count (h : Contained v) (d : Direction) (o : Occurrence) : Contained (v.count d o) :=
  ⟨h.faces.count d o, fun hdisabled =>
    ⟨(h.disabled hdisabled).armed_eq, (h.disabled hdisabled).idle⟩⟩

theorem rests (h : Contained v) : v.Rests := fun hdisabled => (h.disabled hdisabled).idle hdisabled

end Contained

namespace Engine

variable {v w : Stance} {t : List Sighting} {d : Direction}

/-- Whatever is done between the legs of a request, that much survives it. -/
theorem Performs.contained {operation : Operation} {x : Except Halt (Option DenyState)}
    (h : Performs operation v x t w) (hother : ∀ d, operation ≠ .request d) (hv : Contained v) :
    Contained w := by
  cases operation with
  | request d => exact absurd rfl (hother d)
  | enable =>
    obtain ⟨-, -, rfl⟩ := h
    exact ⟨⟨rfl, hv.faces.other⟩, nofun⟩
  | setPriority | resetStatistics =>
    obtain ⟨-, -, rfl⟩ := h
    exact ⟨⟨rfl, hv.faces.other⟩, fun hdisabled =>
      ⟨(hv.disabled hdisabled).armed_eq, (hv.disabled hdisabled).idle⟩⟩
  | disable =>
    obtain ⟨y, disables, -⟩ := h
    cases disables with
    | releases releases =>
      rw [releases.stance_eq]
      exact hv.disable.contained
    | endless releases =>
      rw [releases.stance_eq]
      exact hv.released.contained
  | change d =>
    obtain ⟨y, changes, -⟩ := h
    cases changes with
    | passes | refuses => exact hv
    | signals enabled holds signals =>
      rw [signals.stance_eq]
      exact Faces.contained ⟨rfl, hv.faces.other⟩ enabled
  | release =>
    obtain ⟨y, releases, -⟩ := h
    rw [releases.stance_eq]
    exact hv.released.contained
  | denyState =>
    obtain ⟨y, reads, -⟩ := h
    rcases reads with ⟨tx, z, rx, -⟩ | tx
    · rw [rx.quiet.2, tx.quiet.2]
      exact hv
    · rw [tx.quiet.2]
      exact hv

theorem Interrupts.contained {x : Except Halt (Option Event)} (h : Interrupts d v x t w)
    (hv : Contained v) : Contained w := by
  cases h with
  | aborts => exact hv.count d .abort
  | _ => exact hv

/-- A request that cannot be signalled is released. -/
theorem Solicits.watchful_of_error {h : Halt} (solicits : Solicits d v (.error h) t w)
    (hfaces : Faces v v.monitored) (henabled : v.enabled = true) (hends : h ≠ .endless) :
    Watchful w := by
  obtain ⟨turns, signals⟩ := solicits
  have hturned : ((v.count d .request).turn d).enabled = true :=
    (Stance.turn_enabled _ d).trans henabled
  have hw := signals.stance_eq fun hx => hends (Except.error.inj hx)
  rw [if_neg nofun, Stance.released, if_pos hturned] at hw
  exact hw ▸ ((hfaces.count d .request).turn d).vacate

/-- A request that stands has turned to its deny line. -/
theorem Solicits.faces_of_ok (solicits : Solicits d v (.ok ()) t w)
    (hfaces : Faces v v.monitored) : Faces w d ∧ w.enabled = v.enabled := by
  obtain ⟨turns, signals⟩ := solicits
  obtain rfl : w = _ := signals.stance_eq nofun
  exact ⟨(hfaces.count d .request).turn d, Stance.turn_enabled _ d⟩

theorem Asks.contained {x : Except Halt (Option Standing)} (h : Asks d v x t w)
    (hv : Contained v) (hends : x ≠ .error .endless) : Contained w := by
  cases h with
  | grants => exact hv.count d .immediateGrant
  | passes => exact hv
  | stands matters enabled solicits since =>
    obtain ⟨hfaces, henabled⟩ := solicits.faces_of_ok hv.faces
    exact hfaces.contained (henabled.trans enabled)
  | stops matters enabled solicits =>
    exact (solicits.watchful_of_error hv.faces enabled fun h => hends (congrArg _ h)).contained

/-- A request that is over at once keeps the right deny line watched. -/
theorem Asks.watchful {x : Except Halt (Option Standing)} (h : Asks d v x t w)
    (hv : Watchful v) (hends : x ≠ .error .endless) (hover : ∀ s, x ≠ .ok (some s)) :
    Watchful w := by
  cases h with
  | grants => exact ⟨hv.armed_eq, hv.idle⟩
  | passes => exact hv
  | stands => exact absurd rfl (hover _)
  | stops matters enabled solicits =>
    exact solicits.watchful_of_error hv.faces enabled fun h => hends (congrArg _ h)

/-- **An answer restores what was lost**, unless it is a grant and the engine is disabled, or turned
to another deny line, by then. -/
theorem Settles.watchful_iff {x : Except Halt Unit} (h : Settles d v x t w) (hv : Contained v)
    (hlegible : Legible t) :
    Watchful w ↔ (x = .ok () → v.enabled = true ∧ v.monitored = d) := by
  cases h with
  | unread => exact nomatch (legible_cons.mp hlegible).1
  | @refuses _ _ y _ high denies releases =>
    refine iff_of_true ?_ fun hx => ?_
    · rw [releases.stance_eq]
      exact (hv.count d .timeout).released
    · -- Whatever comes of the release, a request that is denied does not succeed.
      cases y <;> cases hx
  | grants high passes =>
    constructor
    · intro hw _
      have harmed : Function.update v.armed d true d = (true && decide (d = v.monitored)) :=
        hw.armed_eq d
      rw [Function.update_self, Bool.true_and] at harmed
      refine ⟨Bool.eq_true_of_not_eq_false fun hdisabled => ?_,
        (of_decide_eq_true harmed.symm).symm⟩
      cases hw.idle hdisabled
    · intro h
      obtain ⟨henabled, rfl⟩ := h rfl
      exact hv.faces.grant henabled

/-- Access that is denied is not held, whatever has come in between. -/
theorem Settles.vacant_of_denied (h : Settles d v (.error (.fault .denied)) t w)
    (hv : Contained v) : Watchful w ∧ w.held = none := by
  generalize hx : (Except.error (Halt.fault .denied) : Except Halt Unit) = x at h
  cases h with
  | grants | unread => cases hx
  | refuses high denies releases =>
    rw [releases.stance_eq]
    exact ⟨(hv.count d .timeout).released, (hv.count d .timeout).rests.held_released⟩

end Engine

end SharedRadio.Coexistence
