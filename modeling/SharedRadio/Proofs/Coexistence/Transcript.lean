import SharedRadio.Proofs.Coexistence.Conduct
import SharedRadio.Proofs.Signal.Receiver

/-!
# What the engine says on the request line

As long as every write of the request line lands and every wait ends, an operation puts whole frames
on the line. `Operation.messages` lists the messages in them: they depend on where the engine stood
before the operation and on what it came to.

Whoever goes by these messages knows which access is held afterwards, provided that the deny lines
could be read. A request whose deny line cannot be read breaks this: the request has been signalled
by then and is not taken back. `Tells` says both, and `tells_of_performs` reads it off the courses,
one lemma for each course.
-/

namespace SharedRadio.Coexistence

/-! ## Levels on the request line -/

namespace Sighting

/-- The level that a write brought to the request line. -/
def level? : Sighting → Option Bool
  | .wrote level true _ => some level
  | _ => none

/-- A write of the request line that failed. -/
def isFailedWrite : Sighting → Bool
  | .wrote _ false _ => true
  | _ => false

/-- A read of a deny line that failed. -/
def isFailedRead : Sighting → Bool
  | .sampled _ none => true
  | _ => false

end Sighting

/-- The levels that the request line was driven to. -/
def drivenLevels (t : List Sighting) : List Bool := t.filterMap Sighting.level?

@[simp] theorem drivenLevels_nil : drivenLevels [] = [] := rfl

theorem drivenLevels_cons (s : Sighting) (t : List Sighting) :
    drivenLevels (s :: t) = s.level?.toList ++ drivenLevels t := by
  cases h : s.level? <;> simp [drivenLevels, h]

@[simp] theorem drivenLevels_append (t u : List Sighting) :
    drivenLevels (t ++ u) = drivenLevels t ++ drivenLevels u :=
  List.filterMap_append

/-- Every write of the request line landed. -/
def Lands (t : List Sighting) : Prop := ∀ s ∈ t, s.isFailedWrite = false

instance (t : List Sighting) : Decidable (Lands t) :=
  inferInstanceAs (Decidable (∀ s ∈ t, s.isFailedWrite = false))

theorem lands_append {t u : List Sighting} : Lands (t ++ u) ↔ Lands t ∧ Lands u :=
  List.forall_mem_append

theorem lands_cons {s : Sighting} {t : List Sighting} :
    Lands (s :: t) ↔ s.isFailedWrite = false ∧ Lands t :=
  List.forall_mem_cons

/-- Every read of a deny line told its level. -/
def Legible (t : List Sighting) : Prop := ∀ s ∈ t, s.isFailedRead = false

instance (t : List Sighting) : Decidable (Legible t) :=
  inferInstanceAs (Decidable (∀ s ∈ t, s.isFailedRead = false))

theorem legible_append {t u : List Sighting} : Legible (t ++ u) ↔ Legible t ∧ Legible u :=
  List.forall_mem_append

theorem legible_cons {s : Sighting} {t : List Sighting} :
    Legible (s :: t) ↔ s.isFailedRead = false ∧ Legible t :=
  List.forall_mem_cons

theorem Rig.Transmits.eq_of_lands {levels : List Bool} {v w : Direction → Bool}
    {x : Except Rig.Halt Unit} {t : List Sighting} (h : Rig.Transmits levels v x t w)
    (hlands : Lands t) (hends : x ≠ .error .endless) :
    x = .ok () ∧ w = v ∧ drivenLevels t = levels := by
  induction h with
  | done => exact ⟨rfl, rfl, rfl⟩
  | held tick more ih =>
    obtain ⟨hx, hw, hlevels⟩ := ih (lands_cons.mp hlands).2 hends
    exact ⟨hx, hw, by rw [drivenLevels_cons, hlevels]; rfl⟩
  | cut tick => exact nomatch (lands_cons.mp hlands).1
  | endless tick => exact absurd rfl hends

namespace Engine

variable {v w : Stance} {t : List Sighting}

/-! ## Signalling -/

theorem Sends.eq_of_lands {byte : UInt8} {x : Except Halt Unit} (h : Sends byte v x t w)
    (hlands : Lands t) (hends : x ≠ .error .endless) :
    x = .ok () ∧ w = v ∧ drivenLevels t = Frame.levels byte := by
  cases h with
  | ok h =>
    obtain ⟨-, rfl, hlevels⟩ := h.eq_of_lands hlands nofun
    exact ⟨rfl, rfl, hlevels⟩
  | fault h =>
    obtain ⟨hx, -⟩ := h.eq_of_lands (lands_append.mp hlands).1 nofun
    cases hx
  | endless h => exact absurd rfl hends

theorem Signals.eq_of_lands {d : Direction} {x : Except Halt Unit} (h : Signals d v x t w)
    (hlands : Lands t) (hends : x ≠ .error .endless) :
    x = .ok () ∧ w = v ∧ drivenLevels t =
      [Message.priority v.flags, Message.request d].flatMap Frame.levels := by
  rcases h with ⟨first, rest⟩ | first
  · obtain ⟨hfirst, hrest⟩ := lands_append.mp hlands
    obtain ⟨-, rfl, hpriority⟩ := Sends.eq_of_lands first hfirst nofun
    rcases rest with ⟨⟨since, reads, last⟩, second⟩ | ⟨⟨since⟩⟩
    · obtain ⟨-, hsecond⟩ := lands_append.mp hrest
      obtain ⟨hx, hw, hrequest⟩ := Sends.eq_of_lands second hsecond hends
      refine ⟨hx, hw, ?_⟩
      simp [hpriority, hrequest, drivenLevels_cons, Sighting.level?]
    · exact absurd rfl hends
  · obtain ⟨hx, -⟩ := Sends.eq_of_lands first hlands hends
    cases hx

theorem Releases.eq_of_lands {x : Except Halt Unit} (h : Releases v x t w) (hlands : Lands t)
    (hends : x ≠ .error .endless) :
    x = .ok () ∧ w = (if v.enabled then v.vacate else v) ∧
      drivenLevels t = (if v.enabled then [Message.release] else []).flatMap Frame.levels := by
  cases h with
  | passes disabled => simp [disabled]
  | signals enabled sends =>
    obtain ⟨hx, hw, hlevels⟩ := Sends.eq_of_lands sends (lands_cons.mp hlands).2 hends
    simp [hx, hw, hlevels, enabled, drivenLevels_cons, Sighting.level?]

theorem SignalsOrReleases.eq_of_lands {d : Direction} {x : Except Halt Unit}
    (h : SignalsOrReleases d v x t w) (hlands : Lands t) (hends : x ≠ .error .endless) :
    x = .ok () ∧ w = v ∧ drivenLevels t =
      [Message.priority v.flags, Message.request d].flatMap Frame.levels := by
  cases h with
  | signalled signals => exact signals.eq_of_lands hlands nofun
  | endless signals => exact absurd rfl hends
  | released signals releases ends =>
    obtain ⟨hx, -⟩ := signals.eq_of_lands (lands_append.mp hlands).1 nofun
    cases hx
  | releasesForever signals releases => exact absurd rfl hends

/-! ## Messages and the access they tell of -/

/-- The levels in `t` are the frames of some messages. If the deny lines could be read, these
messages turn the access that was held before into the one that is held at `w`. -/
structure Tells (messages : List UInt8) (held : Option Direction) (t : List Sighting) (w : Stance) :
    Prop where
  levels : drivenLevels t = messages.flatMap Frame.levels
  access : Legible t → messages.foldl Message.access held = w.held

/-- Nothing is said, and the access stays. -/
theorem Tells.quiet {held : Option Direction} (hlevels : drivenLevels t = [])
    (hheld : w.held = held) : Tells [] held t w :=
  ⟨hlevels, fun _ => hheld.symm⟩

theorem Releases.tells {x : Except Halt Unit} (h : Releases v x t w) (hlands : Lands t)
    (hends : x ≠ .error .endless) :
    Tells (if v.enabled then [Message.release] else []) v.held t w := by
  obtain ⟨-, rfl, hlevels⟩ := h.eq_of_lands hlands hends
  refine ⟨hlevels, fun _ => ?_⟩
  cases v.enabled with
  | true => exact Message.access_release v.held
  | false => rfl

theorem Settles.tells {d : Direction} {x : Except Halt Unit} (h : Settles d v x t w)
    (henabled : v.enabled = true) (hlands : Lands t) (hends : x ≠ .error .endless) :
    Tells (if x = .error (.fault .denied) then [Message.release] else []) (some d) t w := by
  cases h with
  | grants high passes => exact ⟨rfl, fun _ => rfl⟩
  | @refuses v' w' y u high denies releases =>
    obtain ⟨rfl, rfl, hlevels⟩ := releases.eq_of_lands (lands_cons.mp (lands_cons.mp hlands).2).2
      (fun hy => hends (by rw [hy]; rfl))
    have henabled : (v.count d .timeout).enabled = true := henabled
    simp only [henabled, if_true] at hlevels ⊢
    exact ⟨hlevels, fun _ => rfl⟩
  -- Here the request stands, and no access is held: the deny line could not be read.
  | unread => exact ⟨rfl, fun hlegible => nomatch (legible_cons.mp hlegible).1⟩

/-- A request tells of an access whatever was held before, and a denial takes it back. -/
theorem Negotiates.tells {d : Direction} {x : Except Halt Unit} (h : Negotiates d v x t w)
    (henabled : v.enabled = true) (hlands : Lands t) (hends : x ≠ .error .endless)
    (held : Option Direction) :
    Tells ([Message.priority v.flags, Message.request d] ++
      if x = .error (.fault .denied) then [Message.release] else []) held t w := by
  rcases h with ⟨first, rest⟩ | first
  · obtain ⟨hfirst, hrest⟩ := lands_append.mp hlands
    obtain ⟨-, rfl, hrequest⟩ := first.eq_of_lands hfirst nofun
    rcases rest with ⟨⟨since, reads, last⟩, settles⟩ | ⟨⟨since⟩⟩
    · have htells := settles.tells henabled (lands_append.mp hrest).2 hends
      constructor
      · rw [List.flatMap_append, drivenLevels_append, hrequest, ← htells.levels]
        rfl
      · intro hlegible
        -- Without any flag the first message is a release; the second one makes up for that.
        rw [List.foldl_append, Message.foldl_access_request]
        exact htells.access (legible_append.mp (legible_append.mp hlegible).2).2
    · exact absurd rfl hends
  · obtain ⟨hx, -⟩ := first.eq_of_lands hlands hends
    cases hx

/-! ## Whole operations -/

/-- The messages that an operation sends: they depend on where the engine stood before it and on
what it came to. -/
def Operation.messages (operation : Operation) (v : Stance)
    (x : Except Halt (Option DenyState)) : List UInt8 :=
  match operation with
  | .request d =>
    if (d = .rx ∧ v.flags.rx = false) ∨ v.enabled = false then []
    else [Message.priority v.flags, Message.request d] ++
      if x = .error (.fault .denied) then [Message.release] else []
  | .change d =>
    if v.enabled = true ∧ v.held ≠ none then [Message.priority v.flags, Message.request d] else []
  | .release | .disable => if v.enabled then [Message.release] else []
  | _ => []

theorem ne_endless_of_map {α β : Type} {x : Except Halt α} {y : Except Halt β} {f : β → α}
    (hx : x = y.map f) (hends : x ≠ .error .endless) : y ≠ .error .endless := by
  rintro rfl
  exact hends hx

theorem map_eq_denied {x : Except Halt Unit} :
    x.map (fun _ => (none : Option DenyState)) = .error (.fault .denied) ↔
      x = .error (.fault .denied) := by
  cases x <;> simp [Except.map]

theorem Requests.tells {d : Direction} {x : Except Halt Unit} (h : Requests d v x t w)
    (hlands : Lands t) (hends : x ≠ .error .endless) :
    Tells ((Operation.request d).messages v (x.map fun _ => none)) v.held t w := by
  cases h with
  | grants low =>
    rw [Operation.messages, if_pos (.inl low)]
    exact .quiet rfl rfl
  | passes matters disabled =>
    rw [Operation.messages, if_pos (.inr disabled)]
    exact .quiet rfl rfl
  | @negotiates v w x t u matters enabled turns negotiates =>
    have hsent : ¬ ((d = .rx ∧ v.flags.rx = false) ∨ v.enabled = false) := by
      rw [enabled]
      simpa using matters
    have hquiet : drivenLevels t = [] := by
      rw [turns]
      split <;> rfl
    have htells := negotiates.tells ((Stance.turn_enabled _ d).trans enabled)
      (lands_append.mp hlands).2 hends v.held
    rw [Stance.turn_flags] at htells
    rw [Operation.messages, if_neg hsent]
    simp only [map_eq_denied]
    constructor
    · rw [drivenLevels_append, hquiet]
      exact htells.levels
    · exact fun hlegible => htells.access (legible_append.mp hlegible).2

theorem Changes.tells {d : Direction} {x : Except Halt Unit} (h : Changes d v x t w)
    (hlands : Lands t) (hends : x ≠ .error .endless) :
    Tells ((Operation.change d).messages v (x.map fun _ => none)) v.held t w := by
  cases h with
  | passes disabled =>
    rw [Operation.messages, if_neg fun h => Bool.false_ne_true (disabled.symm.trans h.1)]
    exact .quiet rfl rfl
  | refuses enabled idle =>
    rw [Operation.messages, if_neg fun h => h.2 idle]
    exact .quiet rfl rfl
  | signals enabled holds signals =>
    obtain ⟨-, rfl, hlevels⟩ := signals.eq_of_lands hlands hends
    rw [Operation.messages, if_pos ⟨enabled, holds⟩]
    exact ⟨hlevels, fun _ => Message.foldl_access_request ..⟩

theorem Disables.tells {x : Except Halt Unit} (h : Disables v x t w) (hlands : Lands t)
    (hends : x ≠ .error .endless) :
    Tells (if v.enabled then [Message.release] else []) v.held t w := by
  cases h with
  | releases releases ends =>
    obtain ⟨levels, access⟩ := releases.tells hlands hends
    exact ⟨levels, access⟩
  | endless releases => exact absurd rfl hends

theorem Reads.quiet {d : Direction} {x : Except Halt Bool} (h : Reads d v x t w) :
    drivenLevels t = [] ∧ w = v := by
  cases h <;> exact ⟨rfl, rfl⟩

theorem ReadsBoth.tells {x : Except Halt DenyState} (h : ReadsBoth v x t w) :
    Tells [] v.held t w := by
  rcases h with ⟨tx, y, rx, -⟩ | tx
  · obtain ⟨htx, rfl⟩ := tx.quiet
    obtain ⟨hrx, rfl⟩ := rx.quiet
    exact .quiet (by rw [drivenLevels_append, htx, hrx]; rfl) rfl
  · obtain ⟨htx, rfl⟩ := tx.quiet
    exact .quiet htx rfl

/-- **What an operation puts on the request line are the frames of its messages, and they tell which
access is held after it.** -/
theorem tells_of_performs {operation : Operation} {x : Except Halt (Option DenyState)}
    (h : Performs operation v x t w) (hlands : Lands t) (hends : x ≠ .error .endless) :
    Tells (operation.messages v x) v.held t w := by
  cases operation with
  | enable | setPriority | resetStatistics =>
    obtain ⟨-, rfl, rfl⟩ := h
    exact .quiet rfl rfl
  | disable =>
    obtain ⟨y, disables, hx⟩ := h
    exact disables.tells hlands (ne_endless_of_map hx hends)
  | request d =>
    obtain ⟨y, requests, hx⟩ := h
    rw [hx]
    exact requests.tells hlands (ne_endless_of_map hx hends)
  | change d =>
    obtain ⟨y, changes, hx⟩ := h
    rw [hx]
    exact changes.tells hlands (ne_endless_of_map hx hends)
  | release =>
    obtain ⟨y, releases, hx⟩ := h
    exact releases.tells hlands (ne_endless_of_map hx hends)
  | denyState =>
    obtain ⟨y, reads, -⟩ := h
    exact reads.tells

/-! ## Interrupts, and the beginning -/

theorem Interrupts.tells {d : Direction} {x : Except Halt (Option Event)}
    (h : Interrupts d v x t w) : Tells [] v.held t w := by
  cases h <;> exact .quiet rfl rfl

/-- An engine is ready when the line is at its idle level and a release was signalled. -/
theorem Prepares.of_ok (h : Prepares v (.ok ()) t w) (hlands : Lands t) :
    drivenLevels t = true :: Frame.levels Message.release ∧ w.held = none := by
  cases h with
  | @readies v w u valid tick releases =>
    have hu : Lands u := (lands_append.mp (lands_cons.mp (lands_cons.mp hlands).2).2).1
    obtain ⟨-, rfl, hlevels⟩ := releases.eq_of_lands hu nofun
    refine ⟨?_, rfl⟩
    simp [drivenLevels_cons, Sighting.level?, hlevels]

end Engine

end SharedRadio.Coexistence
