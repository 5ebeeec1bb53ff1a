import SharedRadio.Proofs.Arbiter.Run
import SharedRadio.Proofs.Station.Run

/-!
# The arbiter's part in a run of a station

What goes on at a station concerns its arbiter in part. `arbitration` picks that part out of a
history: it is a run of the arbiter, with a move for every moment of the station at which an
operation of the arbiter begins or goes on. A handled interrupt is such a moment if it brings an
event to broadcast.

`accords_play` says that the picture is right. The arbiter of the run is that of the station, and
the same operations wait. So what holds in every run of the arbiter holds at a station, whatever its
engine does, and `part_of_past` carries over what it says of single moments.
-/

namespace SharedRadio.Station

open Coexistence

variable {σ κ : Type}

/-! ## Moments that concern the arbiter -/

/-- The event that an engine wants to be broadcast when it handles an interrupt. -/
def brought? (e : Engine κ) (line : Direction) : Option Event :=
  match (e.act (Engine.Action.interrupt line)).1 with
  | .ok event => event
  | .error _ => none

/-- What the arbiter is asked to do by an operation of a station, if anything. -/
def arbiterCall? (s : Station σ κ) : Call σ κ → Option (Arbiter.Call σ)
  | .arbiter call => some call
  | .throughEngine call => s.engine.map fun _ => call
  | .interrupt line => (s.engine.bind (brought? · line)).map .broadcast
  | .install .. | .engine _ | .disturb _ => none

/-- The move that a moment is for the arbiter. -/
def Moment.move? (m : Moment σ κ) : Option (Arbiter.Move σ) :=
  match m.cue with
  | .call c => (m.before.arbiterCall? c).map .call
  | .answer _ b => some (.answer b)

/-- The run of the arbiter within a history of a station. -/
def arbitration (preemption : Bool) (past : List (Moment σ κ)) : Arbiter.Run σ :=
  .play preemption (past.filterMap Moment.move?)

/-- The moment of the arbiter that a moment of a station is, in a run of the arbiter that precedes
it. -/
def Moment.part? (m : Moment σ κ) (r : Arbiter.Run σ) : Option (Arbiter.Moment σ) :=
  m.move?.bind fun move => (r.step move).past.getLast?

theorem arbitration_append_singleton (preemption : Bool) (past : List (Moment σ κ))
    (m : Moment σ κ) :
    arbitration preemption (past ++ [m]) =
      m.move?.elim (arbitration preemption past) (arbitration preemption past).step := by
  unfold arbitration Arbiter.Run.play
  rw [List.filterMap_append, List.foldl_append]
  cases h : m.move? <;> simp [h]

/-- The run of the arbiter goes on as the station does. -/
theorem past_arbitration_prefix (preemption : Bool) (past newer : List (Moment σ κ)) :
    (arbitration preemption past).past <+: (arbitration preemption (past ++ newer)).past := by
  unfold arbitration Arbiter.Run.play
  rw [List.filterMap_append, List.foldl_append]
  exact Arbiter.Run.past_prefix_foldl _ _

/-- How a reaction ends that is a leg of the arbiter. -/
def Progress.ofArbiter : Arbiter.Progress σ → Progress σ
  | .finished result => .finished (.ofResult result)
  | .notifies notification waiting => .notifies notification waiting

@[simp] theorem arbiter_ofLeg (s : Station σ κ) (t : List Sighting) (leg : Arbiter.Leg σ) :
    (s.ofLeg t leg).station.arbiter = leg.arbiter := rfl

@[simp] theorem progress_ofLeg (s : Station σ κ) (t : List Sighting) (leg : Arbiter.Leg σ) :
    (s.ofLeg t leg).progress = .ofArbiter leg.progress := by
  unfold ofLeg
  cases leg.progress <;> rfl

/-- An interrupt is handled as a broadcast of the event that it brings, or it is over at once. -/
theorem interrupt_cases (s : Station σ κ) (line : Direction) :
    (∃ event s' t, s.engine.bind (brought? · line) = some event ∧
      s.interrupt line = ofLeg s' t (s.arbiter.call (.broadcast event))) ∨
    s.engine.bind (brought? · line) = none ∧ (s.interrupt line).station.arbiter = s.arbiter ∧
      ∃ outcome, (s.interrupt line).progress = .finished outcome := by
  obtain ⟨arbiter, engine⟩ := s
  unfold interrupt withEngine brought?
  cases engine with
  | none => exact .inr ⟨rfl, rfl, _, rfl⟩
  | some e =>
    dsimp only [Option.bind_some]
    generalize e.act (Engine.Action.interrupt line) = o
    obtain ⟨h | _ | event, t, e'⟩ := o
    · exact .inr ⟨rfl, rfl, _, rfl⟩
    · exact .inr ⟨rfl, rfl, _, rfl⟩
    · exact .inl ⟨event, _, _, rfl, rfl⟩

variable [Clock κ]

/-- An operation that asks the arbiter for something begins with a leg of the arbiter. -/
theorem call_of_arbiterCall?_eq_some {s : Station σ κ} {c : Call σ κ} {c' : Arbiter.Call σ}
    (h : s.arbiterCall? c = some c') :
    ∃ s' : Station σ κ, ∃ t, s.call c = s'.ofLeg t (s.arbiter.call c') := by
  cases c with
  | arbiter c => cases h; exact ⟨s, [], rfl⟩
  | throughEngine c =>
    obtain ⟨e, he, rfl⟩ := Option.map_eq_some_iff.mp h
    exact ⟨s, [], by simp only [call, withEngine, he]⟩
  | interrupt line =>
    obtain ⟨event, hevent, rfl⟩ := Option.map_eq_some_iff.mp h
    rcases s.interrupt_cases line with ⟨event', s', t, hevent', hcall⟩ | ⟨hnone, -⟩
    · obtain rfl := Option.some.inj (hevent.symm.trans hevent')
      exact ⟨s', t, hcall⟩
    · cases hnone.symm.trans hevent
  | install | engine | disturb => cases h

/-- Any other operation is over at once and leaves the arbiter alone. -/
theorem call_of_arbiterCall?_eq_none {s : Station σ κ} {c : Call σ κ}
    (h : s.arbiterCall? c = none) :
    (s.call c).station.arbiter = s.arbiter ∧
      ∃ outcome, (s.call c).progress = .finished outcome := by
  cases c with
  | arbiter c => cases h
  | throughEngine c =>
    have hnone : s.engine = none := Option.map_eq_none_iff.mp h
    simp only [call, withEngine, hnone]
    exact ⟨rfl, _, rfl⟩
  | interrupt line =>
    rcases s.interrupt_cases line with ⟨event, s', t, hevent, -⟩ | ⟨-, hover⟩
    · cases hevent ▸ Option.map_eq_none_iff.mp h
    · exact hover
  | install config rig =>
    simp only [call, install]
    split <;> exact ⟨rfl, _, rfl⟩
  | engine operation =>
    simp only [call, operate, withEngine]
    split <;> exact ⟨rfl, _, rfl⟩
  | disturb change =>
    simp only [call, withEngine]
    split <;> exact ⟨rfl, _, rfl⟩

/-! ## A history and its part -/

namespace Run

/-- A run of the arbiter accords with a run of a station: the arbiter is the same, and so are the
operations that wait. -/
structure Accords (r : Run σ κ) (ρ : Arbiter.Run σ) : Prop where
  arbiter : ρ.arbiter = r.station.arbiter
  pending : ρ.pending.map Arbiter.Pending.waiting = r.pending

variable {r : Run σ κ} {ρ : Arbiter.Run σ} {m : Moment σ κ} {others : List (Arbiter.Waiting σ)}

/-- A moment that concerns the arbiter is a leg of the arbiter. -/
theorem Accords.exists_part (h : r.Accords ρ) (next : r.Next m others) {move : Arbiter.Move σ}
    (hmove : m.move? = some move) :
    ∃ μ others', ρ.Next μ others' ∧ ρ.step move = ρ.after μ others' ∧
      others'.map Arbiter.Pending.waiting = others ∧
      ∃ s : Station σ κ, ∃ t, m.reaction = s.ofLeg t μ.leg := by
  cases next with
  | begins c =>
    obtain ⟨c', hc', rfl⟩ := Option.map_eq_some_iff.mp hmove
    refine ⟨_, _, .begins c', rfl, h.pending, ?_⟩
    obtain ⟨s, t, hcall⟩ := call_of_arbiterCall?_eq_some hc'
    exact ⟨s, t, hcall.trans (by rw [← h.arbiter]; rfl)⟩
  | resumes waits b =>
    cases hmove
    obtain ⟨f, others', hρ, rfl, hothers⟩ := List.map_eq_cons_iff.mp (h.pending.trans waits)
    refine ⟨_, _, .resumes hρ b, by rw [Arbiter.Run.step, hρ], hothers, r.station, [], ?_⟩
    show r.station.resume f.waiting b = _
    rw [resume, ← h.arbiter]
    rfl

/-- A moment keeps the accord. -/
theorem Accords.after (h : r.Accords ρ) (next : r.Next m others) :
    (r.after m others).Accords (m.move?.elim ρ ρ.step) := by
  cases hmove : m.move? with
  | some move =>
    obtain ⟨μ, others', -, hstep, hothers, s, t, hreaction⟩ := h.exists_part next hmove
    rw [Option.elim_some, hstep]
    refine ⟨congrArg (Station.arbiter ∘ Reaction.station) hreaction.symm, ?_⟩
    unfold Run.after Arbiter.Run.after
    rw [hreaction, progress_ofLeg]
    cases μ.leg.progress with
    | finished result => exact hothers
    | notifies n w => exact congrArg (w :: ·) hothers
  | none =>
    cases next with
    | begins c =>
      obtain ⟨harbiter, outcome, hprogress⟩ :=
        call_of_arbiterCall?_eq_none (Option.map_eq_none_iff.mp hmove)
      refine ⟨h.arbiter.trans harbiter.symm, ?_⟩
      have hreaction : Moment.reaction ⟨.call c, r.station⟩ = r.station.call c := rfl
      unfold Run.after
      rw [hreaction, hprogress]
      exact h.pending
    | resumes => cases hmove

/-- The history only grows. -/
theorem past_prefix_play (preemption : Bool) (moves newer : List (Move σ κ)) :
    (play preemption moves).past <+: (play preemption (moves ++ newer)).past := by
  induction newer using List.reverseRecOn with
  | nil => exact (List.append_nil moves).symm ▸ List.prefix_rfl
  | append_singleton newer move ih =>
    rw [← List.append_assoc, play_append_singleton]
    rcases step_eq_or_next (play preemption (moves ++ newer)) move with hsame | ⟨m, _, -, hafter⟩
    · rwa [hsame]
    · rw [hafter]
      exact ih.trans (List.prefix_append _ [m])

/-- An operation that is called is called at a moment of the history. -/
theorem exists_past_of_call (preemption : Bool) (moves newer : List (Move σ κ)) (c : Call σ κ) :
    ∃ later, (play preemption (moves ++ .call c :: newer)).past =
      (play preemption moves).past ++ ⟨.call c, (play preemption moves).station⟩ :: later := by
  obtain ⟨later, hlater⟩ := past_prefix_play preemption (moves ++ [.call c]) newer
  refine ⟨later, ?_⟩
  rw [List.append_assoc, List.singleton_append, play_append_singleton] at hlater
  rw [← hlater]
  exact List.append_assoc _ _ _

/-- **What goes on at a station is a run of its arbiter**, as far as the arbiter is concerned. -/
theorem accords_play (preemption : Bool) (moves : List (Move σ κ)) :
    (play preemption moves).Accords (arbitration preemption (play preemption moves).past) := by
  induction moves using List.reverseRecOn with
  | nil => exact ⟨rfl, rfl⟩
  | append_singleton moves move ih =>
    rw [play_append_singleton]
    rcases step_eq_or_next (play preemption moves) move with hsame | ⟨m, others, next, hafter⟩
    · rwa [hsame]
    · rw [hafter]
      have hpast : arbitration preemption ((play preemption moves).after m others).past = _ :=
        arbitration_append_singleton preemption _ m
      rw [hpast]
      exact ih.after next

/-- What preceded a moment was a run, in which that moment came next. -/
theorem exists_play_of_past {preemption : Bool} {moves : List (Move σ κ)}
    {older newer : List (Moment σ κ)} (hpast : (play preemption moves).past = older ++ m :: newer) :
    ∃ moves' others, (play preemption moves').past = older ∧
      (play preemption moves').Next m others := by
  induction moves using List.reverseRecOn generalizing newer with
  | nil => simp [play, start] at hpast
  | append_singleton moves move ih =>
    rw [play_append_singleton] at hpast
    rcases step_eq_or_next (play preemption moves) move with hsame | ⟨m', others, next, hafter⟩
    · exact ih (hsame ▸ hpast)
    · rw [hafter] at hpast
      rcases List.eq_nil_or_concat newer with rfl | ⟨newer', last, rfl⟩
      · obtain ⟨holder, hlast⟩ := List.append_inj' hpast rfl
        obtain rfl : m' = m := by simpa using hlast
        exact ⟨moves, others, holder, next⟩
      · have hsplit : (play preemption moves).past ++ [m'] = (older ++ m :: newer') ++ [last] := by
          simpa [Run.after] using hpast
        exact ih (List.append_inj' hsplit rfl).1

/-- A moment adds its part to the run of the arbiter, and goes as that part goes. -/
theorem part_of_past {preemption : Bool} {moves : List (Move σ κ)} {older newer : List (Moment σ κ)}
    (hpast : (play preemption moves).past = older ++ m :: newer) {μ : Arbiter.Moment σ}
    (hμ : m.part? (arbitration preemption older) = some μ) :
    (arbitration preemption (older ++ [m])).past = (arbitration preemption older).past ++ [μ] ∧
      ∃ s : Station σ κ, ∃ t, m.reaction = s.ofLeg t μ.leg := by
  obtain ⟨moves', others, rfl, next⟩ := exists_play_of_past hpast
  obtain ⟨move, hmove, hlast⟩ := Option.bind_eq_some_iff.mp hμ
  obtain ⟨μ', others', -, hstep, -, hreaction⟩ :=
    (accords_play preemption moves').exists_part next hmove
  rw [hstep, Arbiter.Run.after, List.getLast?_concat] at hlast
  obtain rfl := Option.some.inj hlast
  rw [arbitration_append_singleton, hmove, Option.elim_some, hstep]
  exact ⟨rfl, hreaction⟩

/-- An operation that is called at a station begins at its arbiter then. -/
theorem getElem?_arbitration {preemption : Bool} {moves : List (Move σ κ)}
    {older newer : List (Moment σ κ)} (hpast : (play preemption moves).past = older ++ m :: newer)
    {c : Arbiter.Call σ} (hmove : m.move? = some (.call c)) :
    (arbitration preemption
        (older ++ m :: newer)).past[(arbitration preemption older).past.length]? =
      some ⟨(arbitration preemption older).past.length, c, none, m.before.arbiter⟩ := by
  obtain ⟨moves', others, rfl, next⟩ := exists_play_of_past hpast
  have hprefix := past_arbitration_prefix preemption ((play preemption moves').past ++ [m]) newer
  rw [arbitration_append_singleton, hmove, List.append_assoc, List.singleton_append] at hprefix
  obtain ⟨rest, hrest⟩ := hprefix
  rw [← hrest, next.before_eq, ← (accords_play preemption moves').arbiter]
  exact Arbiter.Run.getElem?_append_of_eq_some (by simp [Arbiter.Run.step, Arbiter.Run.after]) rest

end Run

end SharedRadio.Station
