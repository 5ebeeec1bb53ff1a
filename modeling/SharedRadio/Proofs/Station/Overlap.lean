import SharedRadio.Proofs.Coexistence.Legs
import SharedRadio.Proofs.Coexistence.Resumption
import SharedRadio.Proofs.Station.Failure

/-!
# Requests that other operations overlap with

A request for access lets go of the engine while it waits for its answer, and a `Run` lets nobody
take advantage of that. An `Overlap` is cut at every look at the clock. In between, a deny line may
change, its interrupt may be handled, the sinks that are told may give access up or disable the
engine, and further requests may be made. Which of the requests that stand goes on next is left
open: inside an interrupt handler it is the one that was made last, among threads it may be any.

A run is an overlap in which nothing comes between the legs of a request (`exists_agrees_play`). In
an overlap no line but the monitored one is watched, a disabled engine holds no access, and access
that is held is watched once no request stands (`guarded_play`). For this a grant has to find the
engine enabled and turned to the deny line that was asked for. A grant that finds it otherwise is
followed all the same, and then access is held that nobody watches, or that a disabled engine will
not give up (`watchful_advance_iff`). A denial leaves no access held, whatever it finds
(`vacant_of_denied`).
-/

namespace SharedRadio.Station

open Coexistence

variable {σ κ : Type}

/-! ## Legs, overlaps and moves -/

/-- How far a request for access has got before one of its legs. -/
inductive Phase where
  /-- It begins. -/
  | begins (d : Direction)
  /-- It stands. -/
  | stands (s : Engine.Standing)

namespace Overlap

/-- A leg, as it took place in an overlap. -/
inductive Leg (σ κ : Type) where
  /-- It is one of a request for access. -/
  | request (phase : Phase) (before : Station σ κ)
  /-- It is one of another operation. -/
  | other (m : Moment σ κ)

/-- A move in an overlap. -/
inductive Move (σ κ : Type) where
  /-- Somebody calls an operation. -/
  | call (c : Call σ κ)
  /-- The sink that was notified last answers. -/
  | answer (b : Answer)
  /-- One of the requests that stand goes on. -/
  | advance (i : Nat)

end Overlap

/-- What goes on at a station at which operations overlap with requests, and what has gone on. -/
structure Overlap (σ κ : Type) where
  /-- The station. -/
  station : Station σ κ
  /-- The operations that wait for an answer of a sink, innermost first. -/
  pending : List (Arbiter.Waiting σ) := []
  /-- The requests that wait for their answer, the one that got on last first. -/
  standing : List Engine.Standing := []
  /-- The legs that have taken place, in order. -/
  past : List (Overlap.Leg σ κ) := []

/-- The direction in which an operation asks for access. -/
def Call.requested? : Call σ κ → Option Direction
  | .engine (.request d) => some d
  | _ => none

theorem Call.requested?_eq_some {c : Call σ κ} {d : Direction} (h : c.requested? = some d) :
    c = .engine (.request d) := by
  cases c with
  | engine operation =>
    cases operation with
    | request d' =>
      obtain rfl := Option.some.inj h
      rfl
    | _ => cases h
  | _ => cases h

variable [Clock κ]

/-- What the engine does in the next leg of a request. -/
def Phase.leg : Phase → Engine.Action κ (Option Engine.Standing)
  | .begins d => .ask d
  | .stands s => .advance s

namespace Overlap

/-- The station after a leg. -/
def Leg.station : Leg σ κ → Station σ κ
  | .request phase before => (before.negotiate phase.leg).station
  | .other m => m.reaction.station

/-- What was noticed in the course of a leg. -/
def Leg.sightings : Leg σ κ → List Sighting
  | .request phase before => (before.negotiate phase.leg).sightings
  | .other m => m.reaction.sightings

/-- What an operation has come to, if the leg was its last one. -/
def Leg.outcome? : Leg σ κ → Option Outcome
  | .request phase before => (before.negotiate phase.leg).progress.getLeft?
  | .other m => m.reaction.progress.outcome?

/-- Whether a leg replaces the engine. -/
def Leg.installs : Leg σ κ → Bool
  | .request .. => false
  | .other m => m.cue.installs

/-- The overlap in which nothing has happened yet. -/
def start (preemption : Bool) : Overlap σ κ := { station := { arbiter := .idle preemption } }

/-- The overlap after a leg of a request, beside which some others stand. -/
def afterRequest (o : Overlap σ κ) (phase : Phase) (others : List Engine.Standing) :
    Overlap σ κ where
  station := (o.station.negotiate phase.leg).station
  pending := o.pending
  standing := (o.station.negotiate phase.leg).progress.getRight?.toList ++ others
  past := o.past ++ [.request phase o.station]

/-- The overlap after a leg of another operation, beside which some others wait. A request that was
made of an engine ends with that engine. -/
def afterMoment (o : Overlap σ κ) (m : Moment σ κ) (others : List (Arbiter.Waiting σ)) :
    Overlap σ κ where
  station := m.reaction.station
  pending :=
    match m.reaction.progress with
    | .finished _ => others
    | .notifies _ w => w :: others
  standing := if m.cue.installs then [] else o.standing
  past := o.past ++ [.other m]

/-- Make a move. It counts only if somebody was asked, or a request stands. -/
def step (o : Overlap σ κ) : Move σ κ → Overlap σ κ
  | .call c =>
    match c.requested? with
    | some d => o.afterRequest (.begins d) o.standing
    | none => o.afterMoment ⟨.call c, o.station⟩ o.pending
  | .answer b =>
    match o.pending with
    | [] => o
    | w :: others => o.afterMoment ⟨.answer w b, o.station⟩ others
  | .advance i =>
    match o.standing[i]? with
    | none => o
    | some s => o.afterRequest (.stands s) (o.standing.eraseIdx i)

/-- The overlap that some moves lead to, from a station that was just made. -/
def play (preemption : Bool) (moves : List (Move σ κ)) : Overlap σ κ :=
  moves.foldl step (start preemption)

/-- The legs of the present engine: its installation, and all that came after it. -/
def session (o : Overlap σ κ) : List (Leg σ κ) :=
  o.past.foldl (fun since leg => if leg.installs then [leg] else since ++ [leg]) []

/-- A leg that can come next, and the overlap after it. -/
inductive Next (o : Overlap σ κ) : Leg σ κ → Overlap σ κ → Prop
  /-- A request begins. -/
  | begins (d : Direction) :
      Next o (.request (.begins d) o.station) (o.afterRequest (.begins d) o.standing)
  /-- A request that stands goes on. -/
  | goesOn {i : Nat} {s : Engine.Standing} (stands : o.standing[i]? = some s) :
      Next o (.request (.stands s) o.station) (o.afterRequest (.stands s) (o.standing.eraseIdx i))
  /-- Another operation begins, or goes on. -/
  | others (m : Moment σ κ) (waiting : List (Arbiter.Waiting σ)) (before : m.before = o.station)
      (other : ∀ d, m.cue ≠ .call (.engine (.request d))) :
      Next o (.other m) (o.afterMoment m waiting)

theorem step_eq_or_next (o : Overlap σ κ) (move : Move σ κ) :
    o.step move = o ∨ ∃ leg o', o.Next leg o' ∧ o.step move = o' := by
  cases move with
  | call c =>
    cases hasked : c.requested? with
    | some d => exact .inr ⟨_, _, .begins d, by rw [step, hasked]⟩
    | none =>
      refine .inr ⟨_, _, .others ⟨.call c, o.station⟩ o.pending rfl fun d hcue => ?_,
        by rw [step, hasked]⟩
      obtain rfl : c = .engine (.request d) := Cue.call.inj hcue
      cases hasked
  | answer b =>
    cases waits : o.pending with
    | nil => exact .inl (by rw [step, waits])
    | cons w others =>
      exact .inr ⟨_, _, .others ⟨.answer w b, o.station⟩ others rfl nofun, by rw [step, waits]⟩
  | advance i =>
    cases stands : o.standing[i]? with
    | none => exact .inl (by rw [step, stands])
    | some s =>
      exact .inr ⟨_, _, .goesOn stands, by rw [step, stands]⟩

theorem play_append (preemption : Bool) (moves more : List (Move σ κ)) :
    play preemption (moves ++ more) = more.foldl step (play preemption moves) :=
  List.foldl_append

theorem play_append_singleton (preemption : Bool) (moves : List (Move σ κ)) (move : Move σ κ) :
    play preemption (moves ++ [move]) = (play preemption moves).step move :=
  play_append preemption moves [move]

/-- What every leg keeps holds in every overlap. -/
theorem play_induction {P : Overlap σ κ → Prop} (start : ∀ preemption, P (start preemption))
    (next : ∀ o leg o', P o → o.Next leg o' → P o') (preemption : Bool)
    (moves : List (Move σ κ)) : P (play preemption moves) := by
  induction moves using List.reverseRecOn with
  | nil => exact start preemption
  | append_singleton moves move ih =>
    rw [play_append_singleton]
    rcases step_eq_or_next (play preemption moves) move with hsame | ⟨leg, o', hnext, hafter⟩
    · rwa [hsame]
    · rw [hafter]
      exact next _ leg o' ih hnext

theorem session_of_next {o o' : Overlap σ κ} {leg : Leg σ κ} (h : o.Next leg o') :
    o'.session = if leg.installs then [leg] else o.session ++ [leg] := by
  have hpast : o'.past = o.past ++ [leg] := by cases h <;> rfl
  rw [session, hpast, List.foldl_append]
  rfl

end Overlap

/-! ## What the legs keep -/

omit [Clock κ] in
/-- A leg of a request goes as its course says, and the engine is there afterwards. -/
theorem course_negotiate {s : Station σ κ} {e : Engine κ} (he : s.engine = some e)
    {action : Engine.Action κ (Option Engine.Standing)}
    {c : Course Stance Engine.Halt (Option Engine.Standing)} (h : Follows action c) :
    ∃ x e', c e.stance x (s.negotiate action).sightings e'.stance ∧
      (s.negotiate action).station.engine = some e' ∧
      (s.negotiate action).progress = Headway.progressOf x := by
  unfold negotiate
  rw [he]
  exact ⟨_, _, Engine.course_act h e, rfl, rfl⟩

omit [Clock κ] in
theorem negotiate_of_no_engine {s : Station σ κ} (h : s.engine = none)
    (action : Engine.Action κ (Option Engine.Standing)) :
    s.negotiate action = ⟨s, [], .inl .noEngine⟩ := by
  unfold negotiate
  rw [h]

/-- An engine that is contained stays so through every operation that is no request. -/
theorem contained_of_stays {m : Moment σ κ} (hm : m.Spares) (hstays : m.cue.installs = false)
    (hother : ∀ d, m.cue ≠ .call (.engine (.request d))) {e₀ e : Engine κ}
    (he₀ : m.before.engine = some e₀) (he : m.reaction.station.engine = some e)
    (h : Contained e₀.stance) : Contained e.stance := by
  refine stance_of_stays hstays he₀ he
    (fun hcue performs => performs.contained (fun d hd => hother d (hd ▸ hcue)) h)
    (·.contained h) (fun change hcue => ?_) h
  have harmed := hm change (by rw [hcue]; rfl) e₀ he₀
  exact ⟨⟨rfl, fun d hd => (harmed d).trans (h.faces.other d hd)⟩, fun hdisabled =>
    ⟨fun d => (harmed d).trans ((h.disabled hdisabled).armed_eq d), (h.disabled hdisabled).idle⟩⟩

/-- An operation that is no request has no answer that could fail to come. -/
theorem Moment.Spares.orderly {m : Moment σ κ} (h : m.Spares)
    (hother : ∀ d, m.cue ≠ .call (.engine (.request d))) : m.Orderly := by
  unfold Moment.Orderly
  split
  · next d hcue => exact absurd hcue (hother d)
  · next change hcue =>
    exact h change (by rw [hcue]; rfl)
  · trivial

namespace Overlap

/-- A leg goes as it should: a request comes to an end of its own, its answer can be read, and a
grant finds the engine enabled and turned to the deny line that was asked for. What happens to the
rig from outside leaves the interrupts alone. -/
def Leg.Orderly : Leg σ κ → Prop
  | .request (.begins d) before => (before.negotiate (.ask d)).progress ≠ .inl .endless
  | .request (.stands s) before =>
    Legible (before.negotiate (.advance s)).sightings ∧
      ((before.negotiate (.advance s)).progress = .inl .done →
        ∀ e ∈ before.engine, e.enabled = true ∧ e.monitored = s.direction)
  | .other m => m.Spares

instance (leg : Leg σ κ) : Decidable leg.Orderly := by
  unfold Leg.Orderly
  split <;> infer_instance

/-- An engine is contained, and the right deny line is watched once no request stands. -/
structure Guards (o : Overlap σ κ) (e : Engine κ) : Prop where
  contained : Contained e.stance
  watchful : o.standing = [] → Watchful e.stance

variable {o : Overlap σ κ} {e₀ e : Engine κ}

theorem exists_engine_before_request {phase : Phase} {others : List Engine.Standing}
    (he : (o.afterRequest phase others).station.engine = some e) :
    ∃ e₀, o.station.engine = some e₀ := by
  cases h : o.station.engine with
  | some e₀ => exact ⟨e₀, rfl⟩
  | none =>
    rw [afterRequest, negotiate_of_no_engine h] at he
    cases h.symm.trans he

theorem guards_of_begins {d : Direction}
    (horderly : (Leg.request (.begins d) o.station : Leg σ κ).Orderly)
    (he₀ : o.station.engine = some e₀)
    (he : (o.afterRequest (.begins d) o.standing).station.engine = some e) (h : o.Guards e₀) :
    (o.afterRequest (.begins d) o.standing).Guards e := by
  obtain ⟨x, e', asks, engine, progress⟩ := course_negotiate he₀ (Engine.follows_ask d)
  obtain rfl : e' = e := Option.some.inj (engine.symm.trans he)
  have hends : x ≠ .error .endless := by
    rintro rfl
    exact horderly progress
  refine ⟨asks.contained h.contained hends, fun hover => ?_⟩
  -- The request is over at once, and no other one stands.
  obtain ⟨hthis, hothers⟩ := List.append_eq_nil_iff.mp hover
  refine asks.watchful (h.watchful hothers) hends ?_
  rintro s rfl
  rw [Phase.leg, progress] at hthis
  cases hthis

theorem guards_of_goesOn {s : Engine.Standing} {others : List Engine.Standing}
    (horderly : (Leg.request (.stands s) o.station : Leg σ κ).Orderly)
    (he₀ : o.station.engine = some e₀)
    (he : (o.afterRequest (.stands s) others).station.engine = some e) (h : o.Guards e₀) :
    (o.afterRequest (.stands s) others).Guards e := by
  obtain ⟨x, e', advances, engine, progress⟩ := course_negotiate he₀ (Engine.follows_advance s)
  obtain rfl : e' = e := Option.some.inj (engine.symm.trans he)
  obtain ⟨hlegible, hgrant⟩ := horderly
  cases advances with
  | looks waits looks =>
    obtain ⟨⟨s', rfl⟩, hstance⟩ := looks.stays
    refine ⟨hstance ▸ h.contained, fun hover => ?_⟩
    obtain ⟨hthis, -⟩ := List.append_eq_nil_iff.mp hover
    rw [Phase.leg, progress] at hthis
    cases hthis
  | settles due settles =>
    have hwatchful : Watchful e'.stance := by
      refine (settles.watchful_iff h.contained hlegible).mpr ?_
      rintro rfl
      exact hgrant progress e₀ he₀
    exact ⟨hwatchful.contained, fun _ => hwatchful⟩

theorem guards_of_other {m : Moment σ κ} {waiting : List (Arbiter.Waiting σ)} (hm : m.Spares)
    (hother : ∀ d, m.cue ≠ .call (.engine (.request d))) (hstays : m.cue.installs = false)
    (he₀ : m.before.engine = some e₀) (he : m.reaction.station.engine = some e)
    (h : o.Guards e₀) : (o.afterMoment m waiting).Guards e := by
  refine ⟨contained_of_stays hm hstays hother he₀ he h.contained, fun hover => ?_⟩
  rw [afterMoment, if_neg (ne_true_of_eq_false hstays)] at hover
  exact (watchful_of_touches (hm.orderly hother) hstays he₀ he (h.watchful hover)).1

/-- **The deny lines are guarded, whatever comes between the legs of a request.** No line is ever
watched but the monitored one, an engine that is disabled holds no access and watches no line, and
when no request stands any more access that is held is watched. -/
theorem guarded_play (preemption : Bool) (moves : List (Move σ κ)) {e : Engine κ}
    (horderly : ∀ leg ∈ (play preemption moves).session, leg.Orderly)
    (he : (play preemption moves).station.engine = some e) : (play preemption moves).Guards e := by
  suffices h : ∀ e, (play preemption moves).station.engine = some e →
      (play preemption moves).Guards e from h e he
  refine play_induction (P := fun o => (∀ leg ∈ o.session, leg.Orderly) →
    ∀ e, o.station.engine = some e → o.Guards e) (fun _ _ e he => nomatch he) ?_ preemption moves
    horderly
  intro o leg o' ih hnext horderly e he
  rw [session_of_next hnext] at horderly
  cases hnext with
  | begins d =>
    obtain ⟨e₀, he₀⟩ := exists_engine_before_request he
    have h := ih (fun leg hleg => horderly leg (List.mem_append_left _ hleg)) e₀ he₀
    exact guards_of_begins (horderly _ (by simp [Leg.installs])) he₀ he h
  | goesOn stands =>
    obtain ⟨e₀, he₀⟩ := exists_engine_before_request he
    have h := ih (fun leg hleg => horderly leg (List.mem_append_left _ hleg)) e₀ he₀
    exact guards_of_goesOn (horderly _ (by simp [Leg.installs])) he₀ he h
  | others m waiting before other =>
    cases hinstalls : m.cue.installs with
    | true =>
      obtain ⟨config, rig, -, prepares⟩ := prepares_of_installs hinstalls he
      exact ⟨prepares.watchful.1.contained, fun _ => prepares.watchful.1⟩
    | false =>
      rw [Leg.installs, hinstalls, if_neg Bool.false_ne_true] at horderly
      obtain ⟨e₀, he₀⟩ := exists_engine_before hinstalls he
      have h := ih (fun leg hleg => horderly leg (List.mem_append_left _ hleg)) e₀ (before ▸ he₀)
      have hm : (Leg.other m).Orderly := horderly _ (by simp)
      exact guards_of_other hm other hinstalls he₀ he h

/-- A request to transmit stands when its deny line goes up. The interrupt is told to a sink, and
while the request stands the sink asks something of the engine, too. The line goes down again, and
the request goes on to its answer. -/
def interrupted (asked : Engine.Operation) : List (Move Unit DualClock) :=
  [.call (.install { bitTicks := 1, guardMicros := 1, sampleMicros := 2 }
      { clock := { patience := 3 } }),
    .call (.arbiter (.register .coexistence .ble 1 ())), .answer .success,
    .call (.engine (.request .tx)), .advance 0,
    .call (.disturb fun rig => { rig with txDeny.high := true }), .call (.interrupt .tx),
    .call (.engine asked), .answer .success,
    .call (.disturb fun rig => { rig with txDeny.high := false }), .advance 0, .advance 0]

/-- The sink gives access up, and is granted it all the same. -/
theorem guarded_play_interrupted :
    (∀ leg ∈ (play true (interrupted .release)).session, leg.Orderly) ∧
      (play true (interrupted .release)).standing = [] ∧
      ∃ e, (play true (interrupted .release)).station.engine = some e ∧ e.held = some .tx ∧
        (play true (interrupted .release)).Guards e := by
  have horderly : ∀ leg ∈ (play true (interrupted .release)).session, leg.Orderly := by
    decide +kernel
  have hheld : (play true (interrupted .release)).station.engine.map Engine.held =
      some (some .tx) := by
    decide +kernel
  obtain ⟨e, he, hheld⟩ := Option.map_eq_some_iff.mp hheld
  exact ⟨horderly, by decide +kernel, e, he, hheld, guarded_play true _ horderly he⟩

end Overlap

/-! ## What an answer finds -/

section

variable {s : Station σ κ} {e e' : Engine κ} {standing : Engine.Standing}

/-- **All is well after an answer** unless it is a grant, and finds the engine disabled or turned to
another deny line. -/
theorem watchful_advance_iff (he : s.engine = some e) (hdue : standing.due = true)
    (hlegible : Legible (s.negotiate (.advance standing)).sightings)
    (he' : (s.negotiate (.advance standing)).station.engine = some e') (h : Contained e.stance) :
    Watchful e'.stance ↔ ((s.negotiate (.advance standing)).progress = .inl .done →
      e.enabled = true ∧ e.monitored = standing.direction) := by
  obtain ⟨x, e₁, advances, engine, progress⟩ :=
    course_negotiate he (Engine.follows_advance standing)
  obtain rfl : e₁ = e' := Option.some.inj (engine.symm.trans he')
  rw [progress]
  cases advances with
  | looks waits => cases hdue.symm.trans waits
  | @settles _ _ y _ due settles =>
    have hgrants : Headway.progressOf (y.map fun _ => none) = .inl .done ↔ y = .ok () := by
      rcases y with (f | _) | _ <;> simp [Headway.progressOf, Except.map, Outcome.ofHalt]
    rw [hgrants]
    exact settles.watchful_iff h hlegible

/-- A sink disables the engine while a request stands. The grant is followed all the same, and a
release of the access passes the disabled engine by. -/
example :
    (Overlap.play true
        (Overlap.interrupted .disable ++ [.call (.engine .release)])).station.engine.map
      (fun e => (e.enabled, e.held, (e.rig.denyLine .tx).armed)) =
        some (false, some .tx, true) := by
  decide +kernel

/-- **A request that is denied leaves no access and no line watched**, whatever it finds. -/
theorem vacant_of_denied (he : s.engine = some e)
    (hdenied : (s.negotiate (.advance standing)).progress = .inl (.failed .denied))
    (he' : (s.negotiate (.advance standing)).station.engine = some e') (h : Contained e.stance) :
    e'.held = none ∧ ∀ d, (e'.rig.denyLine d).armed = false := by
  obtain ⟨x, e₁, advances, engine, progress⟩ :=
    course_negotiate he (Engine.follows_advance standing)
  obtain rfl : e₁ = e' := Option.some.inj (engine.symm.trans he')
  rw [hdenied] at progress
  cases advances with
  | looks waits looks =>
    obtain ⟨⟨s', rfl⟩, -⟩ := looks.stays
    cases progress
  | @settles _ _ y _ due settles =>
    have hy : y = .error (.fault .denied) := by
      rcases y with (f | _) | _
      · simpa [Headway.progressOf, Except.map, Outcome.ofHalt] using progress.symm
      · cases progress
      · cases progress
    subst hy
    obtain ⟨hwatchful, hheld⟩ := settles.vacant_of_denied h
    have hidle : e₁.held = none := hheld
    refine ⟨hidle, fun d => ?_⟩
    have harmed : (e₁.rig.denyLine d).armed = (e₁.held.isSome && decide (d = e₁.monitored)) :=
      hwatchful.armed_eq d
    rw [harmed, hidle]
    rfl

end

/-! ## Runs are overlaps -/

omit [Clock κ] in
theorem negotiate_eq {s : Station σ κ} {e e' : Engine κ} (he : s.engine = some e)
    {leg : Engine.Action κ (Option Engine.Standing)}
    {x : Except Engine.Halt (Option Engine.Standing)} {t : List Sighting}
    (hact : e.act leg = (x, t, e')) :
    s.negotiate leg = ⟨{ s with engine := some e' }, t, Headway.progressOf x⟩ := by
  unfold negotiate
  rw [he]
  dsimp only
  rw [hact]

namespace Overlap

/-- What was noticed in the course of some legs, in order. -/
def sightings (legs : List (Leg σ κ)) : List Sighting := legs.flatMap Leg.sightings

/-- What became of the operations that were over with one of some legs, in order. -/
def outcomes (legs : List (Leg σ κ)) : List Outcome := legs.filterMap Leg.outcome?

theorem sightings_append_singleton (legs : List (Leg σ κ)) (leg : Leg σ κ) :
    sightings (legs ++ [leg]) = sightings legs ++ leg.sightings := by
  simp [sightings]

theorem outcomes_append_singleton (legs : List (Leg σ κ)) (leg : Leg σ κ) :
    outcomes (legs ++ [leg]) = outcomes legs ++ leg.outcome?.toList := by
  rw [outcomes, List.filterMap_append]
  cases h : leg.outcome? <;> simp [outcomes, h]

/-- A request has been completed, in some legs that nothing came between: they have led to a
station, some more was noticed, and the other requests stand as before. -/
structure Completes (o : Overlap σ κ) (others : List Engine.Standing) (s : Station σ κ)
    (t : List Sighting) (outcome : Outcome) (o' : Overlap σ κ) : Prop where
  station : o'.station = s
  pending : o'.pending = o.pending
  standing : o'.standing = others
  sightings : sightings o'.past = sightings o.past ++ t
  outcomes : outcomes o'.past = outcomes o.past ++ [outcome]

section

variable {o : Overlap σ κ} {phase : Phase} {e e' : Engine κ} {t : List Sighting}

/-- A request may be over with the next leg. -/
theorem completes_of_negotiate {s : Station σ κ} {outcome : Outcome}
    (hleg : o.station.negotiate phase.leg = ⟨s, t, .inl outcome⟩)
    (others : List Engine.Standing) :
    o.Completes others s t outcome (o.afterRequest phase others) := by
  constructor
  case station => rw [afterRequest, hleg]
  case pending => rfl
  case standing =>
    rw [afterRequest, hleg]
    rfl
  case sightings => rw [afterRequest, sightings_append_singleton, Leg.sightings, hleg]
  case outcomes =>
    rw [afterRequest, outcomes_append_singleton, Leg.outcome?, hleg]
    rfl

/-- A request that nobody interrupts goes from leg to leg until it is over. -/
theorem exists_completes {action : Engine.Action κ (Option Engine.Standing)}
    {x : Except Engine.Halt Unit} (h : Engine.Unfolds action e x t e') (phase : Phase)
    (hphase : phase.leg = action) (he : o.station.engine = some e)
    (others : List Engine.Standing) :
    ∃ n, o.Completes others { o.station with engine := some e' } t
      (outcomeOf (x.map fun _ => none))
      ((List.replicate n (.advance 0)).foldl step (o.afterRequest phase others)) := by
  induction h generalizing phase o with
  | ends last | stops last =>
    subst hphase
    exact ⟨0, completes_of_negotiate (negotiate_eq he last) others⟩
  | @goesOn _ _ e₁ _ s _ t₁ _ first rest ih =>
    subst hphase
    have hleg := negotiate_eq he first
    have hstation :
        (o.afterRequest phase others).station = { o.station with engine := some e₁ } := by
      rw [afterRequest, hleg]
    have hstanding : (o.afterRequest phase others).standing = s :: others := by
      rw [afterRequest, hleg]
      rfl
    have hstep : (o.afterRequest phase others).step (.advance 0) =
        (o.afterRequest phase others).afterRequest (.stands s) others := by
      simp [step, hstanding]
    obtain ⟨n, completes⟩ := ih (o := o.afterRequest phase others) (.stands s) rfl
      (by rw [hstation])
    refine ⟨n + 1, ?_⟩
    rw [List.replicate_succ, List.foldl_cons, hstep]
    constructor
    case station => rw [completes.station, hstation]
    case pending => exact completes.pending
    case standing => exact completes.standing
    case sightings =>
      rw [completes.sightings, afterRequest, sightings_append_singleton, Leg.sightings, hleg,
        List.append_assoc]
    case outcomes =>
      rw [completes.outcomes, afterRequest, outcomes_append_singleton, Leg.outcome?, hleg]
      simp [Headway.progressOf]

/-- **A request that nobody interrupts is what it is in one go**, if it ends. -/
theorem exists_completes_operate (o : Overlap σ κ) (d : Direction)
    (hends : (o.station.operate (.request d)).progress.isEndless = false) :
    ∃ n s t outcome, o.station.operate (.request d) = s.finish t outcome ∧
      o.Completes o.standing s t outcome ((List.replicate n (.advance 0)).foldl step
        (o.step (.call (.engine (.request d))))) := by
  have hstep : o.step (.call (.engine (.request d))) = o.afterRequest (.begins d) o.standing := rfl
  rw [hstep]
  cases hengine : o.station.engine with
  | none =>
    refine ⟨0, o.station, [], .noEngine, ?_, ?_⟩
    · unfold operate withEngine
      rw [hengine]
    · exact completes_of_negotiate (negotiate_of_no_engine hengine _) o.standing
  | some e =>
    rcases hact : e.act (.request d) with ⟨x, t, e'⟩
    have hperform : e.act (.perform (.request d)) = (x.map fun _ => none, t, e') := by
      rw [show Engine.Action.perform (.request d) = (fun _ => none) <$> Engine.Action.request d
        from (map_eq_pure_bind _ _).symm, Engine.act_map, hact]
    rw [operate_eq hengine, hperform] at hends ⊢
    have hx : x ≠ .error .endless := by
      rintro rfl
      cases hends
    obtain ⟨n, completes⟩ :=
      exists_completes (Engine.unfolds_request hact hx) (.begins d) rfl hengine o.standing
    exact ⟨n, _, _, _, rfl, completes⟩

end

/-- An overlap and a run have come to the same point, with the same noticed on the way, and the same
come of every operation. -/
structure Agrees (o : Overlap σ κ) (r : Run σ κ) : Prop where
  station : o.station = r.station
  pending : o.pending = r.pending
  standing : o.standing = []
  sightings : sightings o.past = sightings (r.past.map .other)
  outcomes : outcomes o.past = outcomes (r.past.map .other)

namespace Agrees

variable {o o' : Overlap σ κ} {r : Run σ κ}

/-- An operation that is no request is the same in both. -/
theorem afterMoment (h : o.Agrees r) (m : Moment σ κ) (others : List (Arbiter.Waiting σ)) :
    (o.afterMoment m others).Agrees (r.after m others) where
  station := rfl
  pending := rfl
  standing := by rw [Overlap.afterMoment, h.standing, ite_self]
  sightings := by
    rw [Overlap.afterMoment, Run.after, List.map_append, sightings_append_singleton, h.sightings]
    exact (sightings_append_singleton _ _).symm
  outcomes := by
    rw [Overlap.afterMoment, Run.after, List.map_append, outcomes_append_singleton, h.outcomes]
    exact (outcomes_append_singleton _ _).symm

/-- A request is the same in both once it is completed. -/
theorem of_completes (h : o.Agrees r) {d : Direction} {s : Station σ κ} {t : List Sighting}
    {outcome : Outcome} (hcall : r.station.operate (.request d) = s.finish t outcome)
    (completes : o.Completes o.standing s t outcome o') :
    o'.Agrees (r.step (.call (.engine (.request d)))) := by
  have hreaction : Moment.reaction ⟨.call (.engine (.request d)), r.station⟩ =
    s.finish t outcome := hcall
  constructor
  case station =>
    rw [completes.station, Run.step, Run.after, hreaction]
    rfl
  case pending =>
    rw [completes.pending, h.pending, Run.step, Run.after, hreaction]
    rfl
  case standing => rw [completes.standing, h.standing]
  case sightings =>
    rw [completes.sightings, h.sightings, Run.step, Run.after, List.map_append]
    rw [List.map_singleton, sightings_append_singleton, Leg.sightings, hreaction]
    rfl
  case outcomes =>
    rw [completes.outcomes, h.outcomes, Run.step, Run.after, List.map_append]
    rw [List.map_singleton, outcomes_append_singleton, Leg.outcome?, hreaction]
    rfl

end Agrees

/-- **Every run in which requests end is an overlap in which nobody interrupts them.** -/
theorem exists_agrees_play (preemption : Bool) (moves : List (Station.Move σ κ))
    (hends : ∀ m ∈ (Run.play preemption moves).past, ∀ d, m.cue = .call (.engine (.request d)) →
      m.reaction.progress.isEndless = false) :
    ∃ cut : List (Move σ κ), (play preemption cut).Agrees (Run.play preemption moves) := by
  induction moves using List.reverseRecOn with
  | nil => exact ⟨[], rfl, rfl, rfl, rfl, rfl⟩
  | append_singleton moves move ih =>
    rw [Run.play_append_singleton] at hends ⊢
    rcases Run.step_eq_or_next (Run.play preemption moves) move with
      hsame | ⟨m, others, hnext, hafter⟩
    · rw [hsame] at hends ⊢
      exact ih hends
    · rw [hafter] at hends ⊢
      obtain ⟨cut, h⟩ := ih fun m' hm' => hends m' (List.mem_append_left _ hm')
      have hlast := hends m (by simp [Run.after])
      cases hnext with
      | begins c =>
        cases hasked : c.requested? with
        | some d =>
          obtain rfl := Call.requested?_eq_some hasked
          obtain ⟨n, s, t, outcome, hcall, completes⟩ :=
            (play preemption cut).exists_completes_operate d (h.station ▸ hlast d rfl)
          refine ⟨cut ++ .call (.engine (.request d)) :: List.replicate n (.advance 0), ?_⟩
          rw [play_append, List.foldl_cons]
          exact h.of_completes (h.station ▸ hcall) completes
        | none =>
          refine ⟨cut ++ [.call c], ?_⟩
          rw [play_append_singleton, step, hasked, h.station, h.pending]
          exact h.afterMoment _ _
      | resumes waits b =>
        refine ⟨cut ++ [.answer b], ?_⟩
        rw [play_append_singleton, step, h.pending.trans waits, h.station]
        exact h.afterMoment _ _

end Overlap

end SharedRadio.Station
