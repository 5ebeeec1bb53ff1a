import Mathlib.Data.List.Induction
import SharedRadio.Proofs.Coexistence.Conduct
import SharedRadio.Station

/-!
# Runs of a station

A `Run` of a station is played by the same two moves as a run of the arbiter: somebody calls an
operation, or the sink that was notified last answers. So the sinks may ask anything of the engine
and of the arbiter before they answer, nested to any depth. An operation of the engine is over in
one leg, except that the sinks may be notified of an interrupt. A run in which other operations come
between the legs of a request is an `Overlap`.

`touches_reaction` says how a leg touches the engine, in terms of the courses of the engine. An
invariant of the engine is proved for the cases of `Touches`, and carried along a run by
`Run.play_induction`.

`Run.session` is the part of the history that belongs to the present engine: it begins with the
installation of that engine.
-/

namespace SharedRadio.Station

open Coexistence

variable {σ κ : Type}

/-! ## Moments, runs and moves -/

/-- What sets off a leg. -/
inductive Cue (σ κ : Type) where
  /-- An operation is called. -/
  | call (c : Call σ κ)
  /-- An operation that waits is answered. -/
  | answer (waiting : Arbiter.Waiting σ) (b : Answer)

/-- Whether a new engine is to be installed. -/
def Cue.installs : Cue σ κ → Bool
  | .call (.install ..) => true
  | _ => false

/-- One leg, as it took place in a run. -/
structure Moment (σ κ : Type) where
  /-- What set it off. -/
  cue : Cue σ κ
  /-- The station before the leg. -/
  before : Station σ κ

/-- What goes on at a station, and what has gone on. -/
structure Run (σ κ : Type) where
  /-- The station. -/
  station : Station σ κ
  /-- The operations that wait for an answer, innermost first. -/
  pending : List (Arbiter.Waiting σ) := []
  /-- The legs that have taken place, in order. -/
  past : List (Moment σ κ) := []

/-- A move in a run. -/
inductive Move (σ κ : Type) where
  /-- Somebody calls an operation; if a sink has been notified, then from inside it. -/
  | call (c : Call σ κ)
  /-- The sink that was notified last answers. -/
  | answer (b : Answer)

namespace Run

/-- The run in which nothing has happened yet: there is no engine. -/
def start (preemption : Bool) : Run σ κ := { station := { arbiter := .idle preemption } }

/-- The moments of the present engine: the last installation, and all that came after it. -/
def session (r : Run σ κ) : List (Moment σ κ) :=
  r.past.foldl (fun since m => if m.cue.installs then [m] else since ++ [m]) []

/-- A moment that can come next, and the operations that wait beside its own. -/
inductive Next (r : Run σ κ) : Moment σ κ → List (Arbiter.Waiting σ) → Prop where
  /-- An operation begins. -/
  | begins (c : Call σ κ) : Next r ⟨.call c, r.station⟩ r.pending
  /-- The innermost operation goes on. -/
  | resumes {w : Arbiter.Waiting σ} {others : List (Arbiter.Waiting σ)}
      (waits : r.pending = w :: others) (b : Answer) : Next r ⟨.answer w b, r.station⟩ others

theorem Next.before_eq {r : Run σ κ} {m : Moment σ κ} {others : List (Arbiter.Waiting σ)}
    (h : r.Next m others) : m.before = r.station := by
  cases h <;> rfl

end Run

/-! ## How a leg touches the engine -/

/-- Whether an operation came upon a wait that does not end. -/
def Progress.isEndless : Progress σ → Bool
  | .finished .endless => true
  | _ => false

theorem Progress.isEndless_finished {outcome : Outcome} :
    (Progress.finished outcome : Progress σ).isEndless = true ↔ outcome = .endless := by
  cases outcome <;> simp [isEndless]

/-- How a leg touches the engine: what set it off, the engine before it, and the reaction. -/
inductive Touches : Cue σ κ → Option (Engine κ) → Reaction σ κ → Prop
  /-- It concerns the arbiter alone, or finds no engine. -/
  | leaves {k : Cue σ κ} {e : Option (Engine κ)} {r : Reaction σ κ} (others : k.installs = false)
      (engine : r.station.engine = e) (logged : ∀ s ∈ r.sightings, ∃ line, s = .logged line) :
      Touches k e r
  /-- The engine is replaced by a new one. -/
  | installs {config : Config} {rig : Rig κ} {e : Option (Engine κ)} {e' : Engine κ}
      {r : Reaction σ κ}
      (prepares : Engine.Prepares (Engine.stance { config, rig }) (.ok ()) r.sightings e'.stance)
      (engine : r.station.engine = some e') : Touches (.call (.install config rig)) e r
  /-- The engine is taken away, and the new one cannot be made ready. -/
  | removes {config : Config} {rig : Rig κ} {e : Option (Engine κ)} {e' : Engine κ}
      {h : Engine.Halt} {r : Reaction σ κ}
      (prepares : Engine.Prepares (Engine.stance { config, rig }) (.error h) r.sightings e'.stance)
      (engine : r.station.engine = none) : Touches (.call (.install config rig)) e r
  /-- The engine performs an operation. -/
  | operates {operation : Engine.Operation} {e e' : Engine κ}
      {x : Except Engine.Halt (Option DenyState)} {r : Reaction σ κ}
      (performs : Engine.Performs operation e.stance x r.sightings e'.stance)
      (engine : r.station.engine = some e')
      (progress : x = .error .endless → r.progress.isEndless = true) :
      Touches (.call (.engine operation)) (some e) r
  /-- The engine handles an interrupt, and the sinks may be notified of it. -/
  | interrupts {line : Direction} {e e' : Engine κ} {x : Except Engine.Halt (Option Event)}
      {t u : List Sighting} {r : Reaction σ κ}
      (interrupts : Engine.Interrupts line e.stance x t e'.stance)
      (sightings : r.sightings = t ++ u) (logged : ∀ s ∈ u, ∃ line, s = .logged line)
      (engine : r.station.engine = some e') :
      Touches (.call (.interrupt line)) (some e) r
  /-- Something happens to the rig. -/
  | disturbs {change : Rig κ → Rig κ} {e : Engine κ} {r : Reaction σ κ} (silent : r.sightings = [])
      (engine : r.station.engine = some { e with rig := change e.rig }) :
      Touches (.call (.disturb change)) (some e) r

theorem logged_of_mem_map {records : List Arbiter.Record} :
    ∀ s ∈ records.map fun r => Sighting.logged r.logLine, ∃ line, s = .logged line := by
  intro s hs
  obtain ⟨r, -, rfl⟩ := List.mem_map.mp hs
  exact ⟨_, rfl⟩

theorem touches_ofLeg {k : Cue σ κ} (hk : k.installs = false) (s : Station σ κ)
    (leg : Arbiter.Leg σ) : Touches k s.engine (s.ofLeg [] leg) :=
  .leaves hk rfl logged_of_mem_map

theorem touches_interrupt {s : Station σ κ} {e : Engine κ} (he : s.engine = some e)
    (line : Direction) : Touches (.call (.interrupt line)) (some e) (s.interrupt line) := by
  have interrupts := Engine.course_act (Engine.follows_interrupt line) e
  unfold interrupt withEngine
  rw [he]
  dsimp only
  generalize e.act (.interrupt line) = o at interrupts ⊢
  obtain ⟨h | _ | event, t, e'⟩ := o
  · exact .interrupts interrupts (List.append_nil t).symm nofun rfl
  · exact .interrupts interrupts (List.append_nil t).symm nofun rfl
  · exact .interrupts interrupts rfl logged_of_mem_map rfl

variable [Clock κ]

theorem touches_install (s : Station σ κ) (config : Config) (rig : Rig κ) :
    Touches (.call (.install config rig)) s.engine (s.install config rig) := by
  have prepares := Engine.course_act Engine.follows_prepare { config, rig }
  unfold install
  generalize Engine.act { config, rig } Engine.Action.prepare = o at prepares ⊢
  obtain ⟨h | _, t, e'⟩ := o
  · exact .removes prepares rfl
  · exact .installs prepares rfl

/-- What an operation of the engine comes to, for whoever has called it. -/
def outcomeOf : Except Engine.Halt (Option DenyState) → Outcome
  | .ok none => .done
  | .ok (some state) => .denyState state
  | .error halt => .ofHalt halt

theorem outcomeOf_map_eq_failed {y : Except Engine.Halt Unit} {f : Fault} :
    outcomeOf (y.map fun _ => none) = .failed f ↔ y = .error (.fault f) := by
  rcases y with (f' | _) | _ <;> simp [outcomeOf, Except.map, Outcome.ofHalt]

theorem outcomeOf_map_eq_endless {y : Except Engine.Halt Unit} :
    outcomeOf (y.map fun _ => none) = .endless ↔ y = .error .endless := by
  rcases y with (f' | _) | _ <;> simp [outcomeOf, Except.map, Outcome.ofHalt]

/-- An operation of the engine is over in one leg, and it is what the engine does on its own. -/
theorem operate_eq {s : Station σ κ} {e : Engine κ} (he : s.engine = some e)
    (operation : Engine.Operation) :
    s.operate operation =
      { s with engine := some (e.act (.perform operation)).2.2 }.finish
        (e.act (.perform operation)).2.1 (outcomeOf (e.act (.perform operation)).1) := by
  unfold operate withEngine
  rw [he]
  dsimp only
  rcases (e.act (.perform operation)).1 with h | _ | state <;> rfl

/-- An operation of the engine goes as its course says, and the engine is there afterwards. -/
theorem performs_operate {s : Station σ κ} {e : Engine κ} (he : s.engine = some e)
    (operation : Engine.Operation) :
    ∃ x e', Engine.Performs operation e.stance x (s.operate operation).sightings e'.stance ∧
      (s.operate operation).station.engine = some e' ∧
      (s.operate operation).progress = .finished (outcomeOf x) := by
  rw [operate_eq he]
  exact ⟨_, _, Engine.course_act (Engine.follows_perform operation) e, rfl, rfl⟩

theorem touches_operate {s : Station σ κ} {e : Engine κ} (he : s.engine = some e)
    (operation : Engine.Operation) :
    Touches (.call (.engine operation)) (some e) (s.operate operation) := by
  obtain ⟨x, e', performs, engine, progress⟩ := performs_operate he operation
  refine .operates performs engine ?_
  rintro rfl
  rw [progress]
  rfl

theorem touches_call (s : Station σ κ) (c : Call σ κ) :
    Touches (.call c) s.engine (s.call c) := by
  obtain ⟨arbiter, engine⟩ := s
  cases c with
  | arbiter c => exact touches_ofLeg rfl _ _
  | throughEngine c =>
    cases engine with
    | none => exact .leaves rfl rfl nofun
    | some e => exact touches_ofLeg rfl _ _
  | install config rig => exact touches_install _ config rig
  | engine operation =>
    cases engine with
    | none => exact .leaves rfl rfl nofun
    | some e => exact touches_operate rfl operation
  | interrupt line =>
    cases engine with
    | none => exact .leaves rfl rfl nofun
    | some e => exact touches_interrupt rfl line
  | disturb change =>
    cases engine with
    | none => exact .leaves rfl rfl nofun
    | some e => exact .disturbs rfl rfl

/-- The leg that took place. -/
def Moment.reaction (m : Moment σ κ) : Reaction σ κ :=
  match m.cue with
  | .call c => m.before.call c
  | .answer w b => m.before.resume w b

/-- Every moment touches the engine in one of the ways above. -/
theorem touches_reaction (m : Moment σ κ) : Touches m.cue m.before.engine m.reaction := by
  obtain ⟨cue, before⟩ := m
  cases cue with
  | call c => exact touches_call before c
  | answer w b => exact touches_ofLeg rfl before _

/-- An engine that is there after an installation was made ready by it. -/
theorem prepares_of_installs {m : Moment σ κ} (hinstalls : m.cue.installs = true) {e : Engine κ}
    (he : m.reaction.station.engine = some e) :
    ∃ config rig, m.cue = .call (.install config rig) ∧
      Engine.Prepares (Engine.stance { config, rig }) (.ok ()) m.reaction.sightings e.stance := by
  have touches := touches_reaction m
  generalize m.cue = k, m.before.engine = e₀ at touches hinstalls ⊢
  cases touches with
  | installs prepares engine =>
    obtain rfl := Option.some.inj (engine.symm.trans he)
    exact ⟨_, _, rfl, prepares⟩
  | removes prepares engine => cases engine.symm.trans he
  | leaves others engine logged => cases others.symm.trans hinstalls
  | operates | interrupts | disturbs => cases hinstalls

/-- An engine that is there after any other moment was there before it. -/
theorem exists_engine_before {m : Moment σ κ} (hstays : m.cue.installs = false) {e : Engine κ}
    (he : m.reaction.station.engine = some e) : ∃ e₀, m.before.engine = some e₀ := by
  have touches := touches_reaction m
  generalize m.cue = k, m.before.engine = e₀ at touches hstays ⊢
  cases touches with
  | leaves others engine logged => exact ⟨e, engine ▸ he⟩
  | installs | removes => cases hstays
  | operates | interrupts | disturbs => exact ⟨_, rfl⟩

/-- What every course of the engine keeps is so after a moment at which the engine stays, if it is
kept by what happens to the rig from outside, too. -/
theorem stance_of_stays {m : Moment σ κ} (hstays : m.cue.installs = false) {e₀ e : Engine κ}
    (he₀ : m.before.engine = some e₀) (he : m.reaction.station.engine = some e)
    {P : Stance → Prop}
    (performs : ∀ {operation x t w}, m.cue = .call (.engine operation) →
      Engine.Performs operation e₀.stance x t w → P w)
    (interrupts : ∀ {line x t w}, Engine.Interrupts line e₀.stance x t w → P w)
    (disturbs : ∀ change, m.cue = .call (.disturb change) →
      P (Engine.stance { e₀ with rig := change e₀.rig }))
    (h : P e₀.stance) : P e.stance := by
  have touches := touches_reaction m
  rw [he₀] at touches
  generalize m.cue = k at touches hstays performs disturbs
  generalize hengine : some e₀ = before at touches
  cases touches with
  | leaves others engine logged =>
    obtain rfl : e₀ = e := Option.some.inj (hengine.trans (engine.symm.trans he))
    exact h
  | installs | removes => cases hstays
  | operates operates engine progress =>
    obtain rfl := Option.some.inj hengine
    obtain rfl := Option.some.inj (engine.symm.trans he)
    exact performs rfl operates
  | interrupts handles sightings logged engine =>
    obtain rfl := Option.some.inj hengine
    obtain rfl := Option.some.inj (engine.symm.trans he)
    exact interrupts handles
  | disturbs silent engine =>
    obtain rfl := Option.some.inj hengine
    obtain rfl := Option.some.inj (engine.symm.trans he)
    exact disturbs _ rfl

/-! ## Playing a run -/

namespace Run

/-- The run after one more moment, which leaves some operations waiting that it does not belong to.
-/
def after (r : Run σ κ) (m : Moment σ κ) (others : List (Arbiter.Waiting σ)) : Run σ κ where
  station := m.reaction.station
  pending :=
    match m.reaction.progress with
    | .finished _ => others
    | .notifies _ w => w :: others
  past := r.past ++ [m]

/-- Make a move. An answer counts only if somebody was asked. -/
def step (r : Run σ κ) : Move σ κ → Run σ κ
  | .call c => r.after ⟨.call c, r.station⟩ r.pending
  | .answer b =>
    match r.pending with
    | [] => r
    | w :: others => r.after ⟨.answer w b, r.station⟩ others

/-- The run that some moves lead to, from a station that was just made. -/
def play (preemption : Bool) (moves : List (Move σ κ)) : Run σ κ :=
  moves.foldl step (start preemption)

/-- A move adds one moment to a run that could come next, or it changes nothing. -/
theorem step_eq_or_next (r : Run σ κ) (move : Move σ κ) :
    r.step move = r ∨ ∃ m others, r.Next m others ∧ r.step move = r.after m others := by
  cases move with
  | call c => exact .inr ⟨_, _, .begins c, rfl⟩
  | answer b =>
    cases waits : r.pending with
    | nil => exact .inl (by rw [step, waits])
    | cons w others => exact .inr ⟨_, _, .resumes waits b, by rw [step, waits]⟩

theorem play_append_singleton (preemption : Bool) (moves : List (Move σ κ)) (move : Move σ κ) :
    play preemption (moves ++ [move]) = (play preemption moves).step move := by
  rw [play, List.foldl_append]
  rfl

/-- What happens to the rig from outside is all that happens to the engine then. -/
theorem engine_play_disturb (preemption : Bool) (moves : List (Move σ κ))
    (change : Rig κ → Rig κ) :
    (play preemption (moves ++ [.call (.disturb change)])).station.engine =
      (play preemption moves).station.engine.map fun e => { e with rig := change e.rig } := by
  rw [play_append_singleton]
  generalize play preemption moves = r
  obtain ⟨⟨arbiter, _ | e⟩, pending, past⟩ := r <;> rfl

/-- What every moment keeps holds in every run. -/
theorem play_induction {P : Run σ κ → Prop} (start : ∀ preemption, P (start preemption))
    (after : ∀ r m others, P r → m.before = r.station → P (r.after m others)) (preemption : Bool)
    (moves : List (Move σ κ)) : P (play preemption moves) := by
  induction moves using List.reverseRecOn with
  | nil => exact start preemption
  | append_singleton moves move ih =>
    rw [play_append_singleton]
    rcases step_eq_or_next (play preemption moves) move with hsame | ⟨m, others, next, hafter⟩
    · rwa [hsame]
    · rw [hafter]
      exact after _ m others ih next.before_eq

theorem session_after (r : Run σ κ) (m : Moment σ κ) (others : List (Arbiter.Waiting σ)) :
    (r.after m others).session = if m.cue.installs then [m] else r.session ++ [m] := by
  rw [session, after, List.foldl_append]
  rfl

/-- What an installation begins and every later moment of the session keeps holds of the present
engine. -/
theorem session_induction {P : List (Moment σ κ) → Engine κ → Prop}
    (begins : ∀ m e, m.cue.installs = true → m.reaction.station.engine = some e → P [m] e)
    (goesOn : ∀ session m e₀ e, P session e₀ → m.cue.installs = false →
      m.before.engine = some e₀ → m.reaction.station.engine = some e → P (session ++ [m]) e)
    (preemption : Bool) (moves : List (Move σ κ)) {e : Engine κ}
    (he : (play preemption moves).station.engine = some e) :
    P (play preemption moves).session e := by
  suffices h : ∀ e, (play preemption moves).station.engine = some e →
      P (play preemption moves).session e from h e he
  refine play_induction (P := fun r => ∀ e, r.station.engine = some e → P r.session e)
    (fun _ e he => nomatch he) (fun r m others ih hbefore e he => ?_) preemption moves
  rw [session_after]
  cases hinstalls : m.cue.installs with
  | true => exact begins m e hinstalls he
  | false =>
    obtain ⟨e₀, he₀⟩ := exists_engine_before hinstalls he
    exact goesOn r.session m e₀ e (ih e₀ (hbefore ▸ he₀)) hinstalls he₀ he

end Run

end SharedRadio.Station
