import SharedRadio.Proofs.Coexistence.Counting

/-!
# An engine at rest

A disabled engine holds no access. Every operation keeps this, however it ends: access is gained
only by an engine that is enabled, and it is given up before anything is signalled, so that a
release that fails leaves none behind (`Performs.rests`).

At rest an engine passes over whatever it is asked for. `Performs.untouched` says so of every
operation but the one that enables it, and `Performs.passed` of those that have to do with access:
they succeed, and nothing at all is noticed of the lines.
-/

namespace SharedRadio.Coexistence

/-- A disabled engine holds no access. -/
def Stance.Rests (v : Stance) : Prop := v.enabled = false → v.held = none

theorem Stance.released_enabled (v : Stance) : v.released.enabled = v.enabled := by
  unfold released
  split <;> rfl

/-- Access that is held is given up by a release. -/
theorem Stance.Rests.held_released {v : Stance} (h : v.Rests) : v.released.held = none := by
  unfold released
  split
  · rfl
  · next hdisabled => exact h (Bool.eq_false_of_not_eq_true hdisabled)

/-- A level is written to the request line, or an interrupt is enabled or disabled. -/
def Sighting.isTouch : Sighting → Bool
  | .wrote .. | .armed _ | .disarmed _ => true
  | _ => false

namespace Engine

variable {v w : Stance} {t : List Sighting} {d : Direction}

/-! ## Access and the lack of it -/

theorem Settles.enabled_eq {x : Except Halt Unit} (h : Settles d v x t w) :
    w.enabled = v.enabled := by
  cases h with
  | grants | unread => rfl
  | refuses high denies releases =>
    rw [releases.stance_eq]
    exact Stance.released_enabled _

theorem Negotiates.enabled_eq {x : Except Halt Unit} (h : Negotiates d v x t w) :
    w.enabled = v.enabled := by
  rcases h with ⟨first, rest⟩ | first
  · obtain rfl := first.stance_eq nofun
    rcases rest with ⟨pause, settles⟩ | pause
    · obtain rfl := Pauses.stance_eq pause
      exact settles.enabled_eq
    · cases pause
      rfl
  · obtain ⟨-, ⟨-, rfl, -⟩ | ⟨-, rfl, -⟩⟩ := first.landed_or_released
    · rfl
    · exact Stance.released_enabled v

/-- Access is asked for by an enabled engine, and the engine stays enabled. -/
theorem Requests.rests {x : Except Halt Unit} (h : Requests d v x t w) (hv : v.Rests) :
    w.Rests := by
  cases h with
  | grants | passes => exact hv
  | negotiates matters enabled turns negotiates =>
    have hw : w.enabled = true :=
      negotiates.enabled_eq.trans ((Stance.turn_enabled _ d).trans enabled)
    exact fun hdisabled => Bool.noConfusion (hw.symm.trans hdisabled)

/-- **A disabled engine holds no access**, after every operation. -/
theorem Performs.rests {operation : Operation} {x : Except Halt (Option DenyState)}
    (h : Performs operation v x t w) (hv : v.Rests) : w.Rests := by
  cases operation with
  | enable =>
    obtain ⟨-, -, rfl⟩ := h
    exact nofun
  | setPriority | resetStatistics =>
    obtain ⟨-, -, rfl⟩ := h
    exact hv
  | disable =>
    obtain ⟨y, disables, -⟩ := h
    cases disables with
    | releases releases | endless releases =>
      rw [releases.stance_eq]
      exact fun _ => hv.held_released
  | request d =>
    obtain ⟨y, requests, -⟩ := h
    exact requests.rests hv
  | change d =>
    obtain ⟨y, changes, -⟩ := h
    cases changes with
    | passes | refuses => exact hv
    | signals enabled holds signals =>
      rw [signals.stance_eq]
      exact fun hdisabled => Bool.noConfusion (enabled.symm.trans hdisabled)
  | release =>
    obtain ⟨y, releases, -⟩ := h
    rw [releases.stance_eq]
    exact fun _ => hv.held_released
  | denyState =>
    obtain ⟨y, reads, -⟩ := h
    rcases reads with ⟨tx, z, rx, -⟩ | tx
    · rw [rx.quiet.2, tx.quiet.2]
      exact hv
    · rw [tx.quiet.2]
      exact hv

theorem Interrupts.rests {x : Except Halt (Option Event)} (h : Interrupts d v x t w)
    (hv : v.Rests) : w.Rests := by
  cases h <;> exact hv

theorem Prepares.rests (h : Prepares v (.ok ()) t w) : w.Rests := by
  cases h with
  | readies valid tick releases =>
    rw [releases.stance_eq]
    exact nofun

/-! ## Passing over operations -/

/-- A disabled engine stays as it is, but for its flags and its counters, and the lines are not
touched. -/
structure Untouched (v w : Stance) (t : List Sighting) : Prop where
  enabled : w.enabled = false
  held : w.held = v.held
  monitored : w.monitored = v.monitored
  armed : w.armed = v.armed
  silent : ∀ s ∈ t, s.isTouch = false

theorem Untouched.refl (hdisabled : v.enabled = false) (hsilent : ∀ s ∈ t, s.isTouch = false) :
    Untouched v v t :=
  ⟨hdisabled, rfl, rfl, rfl, hsilent⟩

theorem Reads.silent {x : Except Halt Bool} (h : Reads d v x t w) :
    ∀ s ∈ t, s.isTouch = false := by
  cases h <;> simp [Sighting.isTouch]

theorem ReadsBoth.untouched {x : Except Halt DenyState} (h : ReadsBoth v x t w)
    (hdisabled : v.enabled = false) : Untouched v w t := by
  rcases h with ⟨tx, y, rx, -⟩ | tx
  · obtain rfl := rx.quiet.2.trans tx.quiet.2
    exact .refl hdisabled (List.forall_mem_append.mpr ⟨tx.silent, rx.silent⟩)
  · obtain rfl := tx.quiet.2
    exact .refl hdisabled tx.silent

/-- An operation that asks for access, or gives it up. -/
def Operation.concernsAccess : Operation → Bool
  | .request _ | .change _ | .release | .disable => true
  | _ => false

/-- A disabled engine grants whatever it is asked for, and does nothing with the lines. -/
theorem Performs.passed {operation : Operation} {x : Except Halt (Option DenyState)}
    (h : Performs operation v x t w) (hdisabled : v.enabled = false)
    (haccess : operation.concernsAccess = true) :
    x = .ok none ∧ t = [] ∧ Untouched v w t := by
  have hnot : ∀ {p : Prop}, v.enabled = true → p := fun henabled =>
    Bool.noConfusion (hdisabled.symm.trans henabled)
  cases operation with
  | enable | setPriority | denyState | resetStatistics => cases haccess
  | request d =>
    obtain ⟨y, requests, rfl⟩ := h
    cases requests with
    | grants | passes => exact ⟨rfl, rfl, hdisabled, rfl, rfl, rfl, nofun⟩
    | negotiates matters enabled => exact hnot enabled
  | change d =>
    obtain ⟨y, changes, rfl⟩ := h
    cases changes with
    | passes => exact ⟨rfl, rfl, .refl hdisabled nofun⟩
    | refuses enabled | signals enabled => exact hnot enabled
  | release =>
    obtain ⟨y, releases, rfl⟩ := h
    cases releases with
    | passes => exact ⟨rfl, rfl, .refl hdisabled nofun⟩
    | signals enabled => exact hnot enabled
  | disable =>
    obtain ⟨y, disables, rfl⟩ := h
    cases disables with
    | releases releases =>
      cases releases with
      | passes => exact ⟨rfl, rfl, rfl, rfl, rfl, rfl, nofun⟩
      | signals enabled => exact hnot enabled
    | endless releases =>
      cases releases with
      | signals enabled => exact hnot enabled

/-- **A disabled engine touches nothing**, as long as it is not enabled. -/
theorem Performs.untouched {operation : Operation} {x : Except Halt (Option DenyState)}
    (h : Performs operation v x t w) (hdisabled : v.enabled = false)
    (hkeeps : operation ≠ .enable) : Untouched v w t := by
  cases operation with
  | enable => exact absurd rfl hkeeps
  | request | change | release | disable => exact (h.passed hdisabled rfl).2.2
  | setPriority | resetStatistics =>
    obtain ⟨-, rfl, rfl⟩ := h
    exact ⟨hdisabled, rfl, rfl, rfl, nofun⟩
  | denyState =>
    obtain ⟨y, reads, -⟩ := h
    exact reads.untouched hdisabled

end Engine

end SharedRadio.Coexistence
