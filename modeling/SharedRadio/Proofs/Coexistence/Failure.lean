import SharedRadio.Proofs.Coexistence.Counting

/-!
# How a request fails

A request whose messages all get onto the line fails in two ways. Its deny line denies access: then
a release follows, no access is held any more and no deny line is watched. Or its deny line cannot
be read, and then nothing is taken back. `Requests.failed` tells where the engine stands in each
case, and what it has said on the request line.

For the first case no other deny line may be watched than the monitored one. That is `Faces`, which
is less than `Watchful`: it survives the second case too, and every operation keeps it
(`Performs.faces`), whatever fails.
-/

namespace SharedRadio.Coexistence

/-! ## What was said last -/

/-- Some messages were said on the request line, one after the other, and this is the last of them.
-/
def SaidLast (message : UInt8) (t : List Sighting) : Prop :=
  ∃ earlier, drivenLevels t = (earlier ++ [message]).flatMap Frame.levels

/-- Frames can be read in one way only. -/
theorem SaidLast.eq {message message' : UInt8} {t : List Sighting} (h : SaidLast message t)
    (h' : SaidLast message' t) : message = message' := by
  obtain ⟨earlier, hlevels⟩ := h
  obtain ⟨earlier', hlevels'⟩ := h'
  have hheard := fun messages => Receiver.bytes_hearAll_frames (r := {}) rfl messages
  have hbytes : earlier ++ [message] = earlier' ++ [message'] :=
    calc earlier ++ [message]
        = (({} : Receiver).hearAll (drivenLevels t)).bytes := by rw [hlevels, hheard]; rfl
      _ = earlier' ++ [message'] := by rw [hlevels', hheard]; rfl
  exact List.singleton_inj.mp (List.append_inj' hbytes rfl).2

/-! ## The line that is faced -/

variable {v : Stance} {d : Direction}

/-- After a release no other line is watched than before. -/
theorem Faces.released (h : Faces v d) : Faces v.released d := by
  unfold Stance.released
  split
  · exact h.monitored ▸ h.vacate.faces
  · exact h

/-- No deny line is watched after a release, if only the monitored one was watched before. -/
theorem Faces.armed_vacate (h : Faces v d) (c : Direction) : v.vacate.armed c = false :=
  h.vacate.armed_eq c

/-- Turning away from the monitored deny line leaves no line watched. -/
theorem Faces.armed_turn (h : Faces v v.monitored) (hother : v.monitored ≠ d) (c : Direction) :
    (v.turn d).armed c = false := by
  by_cases hc : c = d
  · rw [hc, Stance.turn, if_neg hother]
    show Function.update v.armed v.monitored false d = false
    rw [Function.update_of_ne hother.symm, h.other d hother.symm]
  · exact (h.turn d).other c hc

theorem Stance.turn_eq_self (h : v.monitored = d) : v.turn d = v := if_pos h

theorem Stance.turn_held (v : Stance) (d : Direction) : (v.turn d).held = v.held := by
  unfold turn
  split <;> rfl

namespace Engine

variable {w : Stance} {t : List Sighting}

theorem Settles.faces {x : Except Halt Unit} (h : Settles d v x t w) (hfaces : Faces v d)
    (henabled : v.enabled = true) : Faces w d := by
  cases h with
  | grants high passes =>
    have hw := (hfaces.grant henabled).faces
    exact hfaces.monitored ▸ hw
  | refuses high denies releases =>
    rw [releases.stance_eq]
    exact (hfaces.count d .timeout).released
  | unread => exact hfaces

theorem Negotiates.faces {x : Except Halt Unit} (h : Negotiates d v x t w) (hfaces : Faces v d)
    (henabled : v.enabled = true) : Faces w d := by
  rcases h with ⟨first, rest⟩ | first
  · obtain rfl := first.stance_eq nofun
    rcases rest with ⟨pause, settles⟩ | pause
    · obtain rfl := Pauses.stance_eq pause
      exact settles.faces hfaces henabled
    · cases pause
      exact hfaces
  · obtain ⟨-, ⟨-, rfl, -⟩ | ⟨-, rfl, -⟩⟩ := first.landed_or_released
    · exact hfaces
    · exact hfaces.released

theorem Requests.faces {x : Except Halt Unit} (h : Requests d v x t w)
    (hv : Faces v v.monitored) : Faces w w.monitored := by
  cases h with
  | grants | passes => exact ⟨rfl, hv.other⟩
  | negotiates matters enabled turns negotiates =>
    have hcount : Faces (v.count d .request) v.monitored := hv.count d .request
    have hw := negotiates.faces (hcount.turn d) ((Stance.turn_enabled _ d).trans enabled)
    exact hw.monitored.symm ▸ hw

/-- **No operation leaves another deny line watched than the monitored one**, however it ends. -/
theorem Performs.faces {operation : Operation} {x : Except Halt (Option DenyState)}
    (h : Performs operation v x t w) (hv : Faces v v.monitored) : Faces w w.monitored := by
  cases operation with
  | enable | setPriority | resetStatistics =>
    obtain ⟨-, -, rfl⟩ := h
    exact ⟨rfl, hv.other⟩
  | disable =>
    obtain ⟨y, disables, -⟩ := h
    cases disables with
    | releases releases | endless releases =>
      rw [releases.stance_eq]
      exact ⟨rfl, Stance.released_monitored v ▸ hv.released.other⟩
  | request d =>
    obtain ⟨y, requests, -⟩ := h
    exact requests.faces hv
  | change d =>
    obtain ⟨y, changes, -⟩ := h
    cases changes with
    | passes | refuses => exact hv
    | signals enabled holds signals =>
      rw [signals.stance_eq]
      exact ⟨rfl, hv.other⟩
  | release =>
    obtain ⟨y, releases, -⟩ := h
    rw [releases.stance_eq, Stance.released_monitored]
    exact hv.released
  | denyState =>
    obtain ⟨y, reads, -⟩ := h
    rcases reads with ⟨tx, z, rx, -⟩ | tx
    · rw [rx.quiet.2, tx.quiet.2]
      exact hv
    · rw [tx.quiet.2]
      exact hv

/-- An interrupt leaves every deny line watched as it was. -/
theorem Interrupts.faces {x : Except Halt (Option Event)} (h : Interrupts d v x t w)
    (hv : Faces v v.monitored) : Faces w w.monitored := by
  cases h with
  | aborts => exact ⟨rfl, hv.other⟩
  | passes | idles | unread => exact hv

/-! ## Requests that fail -/

/-- What an answer comes to if it is not a grant: it is a refusal, or there is none. -/
theorem Settles.failed {f : Fault} (h : Settles d v (.error (.fault f)) t w)
    (henabled : v.enabled = true) (hlands : Lands t) :
    f = .denied ∧ w = (v.count d .timeout).vacate ∨
      f = .gpio ∧ w = v ∧ .sampled d none ∈ t := by
  generalize hx : (.error (.fault f) : Except Halt Unit) = x at h
  cases h with
  | grants => cases hx
  | @refuses _ _ y u high denies releases =>
    -- The release lands as everything else does, so that the denial is what the request comes to.
    have hu : Lands u := (lands_cons.mp (lands_cons.mp hlands).2).2
    have hends : y ≠ .error .endless := by
      rintro rfl
      cases hx
    obtain ⟨rfl, rfl, -⟩ := releases.eq_of_lands hu hends
    have henabled : (v.count d .timeout).enabled = true := henabled
    cases hx
    exact .inl ⟨rfl, if_pos henabled⟩
  | unread =>
    cases hx
    exact .inr ⟨rfl, rfl, List.mem_cons_self⟩

theorem Negotiates.failed {f : Fault} (h : Negotiates d v (.error (.fault f)) t w)
    (henabled : v.enabled = true) (hlands : Lands t) :
    f = .denied ∧ w = (v.count d .timeout).vacate ∨
      f = .gpio ∧ w = v ∧ .sampled d none ∈ t := by
  rcases h with ⟨first, rest⟩ | first
  · obtain rfl := first.stance_eq nofun
    have hrest := (lands_append.mp hlands).2
    rcases rest with ⟨pause, settles⟩ | pause
    · obtain rfl := Pauses.stance_eq pause
      rcases settles.failed henabled (lands_append.mp hrest).2 with hdenied | ⟨hf, hw, hmem⟩
      · exact .inl hdenied
      · exact .inr ⟨hf, hw, List.mem_append_right _ (List.mem_append_right _ hmem)⟩
    · cases pause
  · obtain ⟨hx, -⟩ := first.eq_of_lands hlands nofun
    cases hx

/-- **A request fails by a denial or by a deny line that cannot be read**, if everything it says
gets onto the line. A denial takes the request back, and a failed read does not. -/
theorem Requests.failed {f : Fault} (h : Requests d v (.error (.fault f)) t w)
    (hlands : Lands t) :
    f = .denied ∧ w = (((v.count d .request).turn d).count d .timeout).vacate ∧
        SaidLast Message.release t ∨
      f = .gpio ∧ w = (v.count d .request).turn d ∧ .sampled d none ∈ t ∧
        SaidLast (Message.request d) t := by
  have hlevels := (h.tells hlands nofun).levels
  cases h with
  -- A request that is not signalled succeeds.
  | negotiates matters enabled turns negotiates =>
    have hsent : ¬ ((d = .rx ∧ v.flags.rx = false) ∨ v.enabled = false) := by
      rw [enabled]
      simpa using matters
    rw [Operation.messages, if_neg hsent] at hlevels
    rcases negotiates.failed ((Stance.turn_enabled _ d).trans enabled) (lands_append.mp hlands).2
      with ⟨rfl, rfl⟩ | ⟨rfl, rfl, hmem⟩
    · exact .inl ⟨rfl, rfl, [Message.priority v.flags, Message.request d], hlevels⟩
    · exact .inr ⟨rfl, rfl, List.mem_append_right _ hmem, [Message.priority v.flags], hlevels⟩

end Engine

end SharedRadio.Coexistence
