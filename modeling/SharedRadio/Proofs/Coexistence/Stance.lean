import SharedRadio.Proofs.Coexistence.Wiring

/-!
# Where the engine stands

Of an engine one sees its `Stance`: the configuration, every field of its own, and which interrupts
are enabled. What one does not see are the levels of its lines and its clock.

The courses of the rig become courses of the engine by `Course.lifted`. From these come the courses
of the single steps of which the operations of the engine are made.
-/

namespace SharedRadio.Coexistence

/-! ## Where an engine stands -/

/-- An engine without the levels of its lines and without its clock. -/
structure Stance where
  config : Config
  enabled : Bool
  flags : PriorityFlags
  held : Option Direction
  monitored : Direction
  statistics : Statistics
  /-- The interrupts that are enabled. -/
  armed : Direction → Bool

namespace Stance

/-- The interrupt of a deny line is enabled. -/
def arm (v : Stance) (d : Direction) : Stance := { v with armed := Function.update v.armed d true }

/-- The interrupt of a deny line is disabled. -/
def disarm (v : Stance) (d : Direction) : Stance :=
  { v with armed := Function.update v.armed d false }

/-- An occurrence is counted. -/
def count (v : Stance) (d : Direction) (o : Occurrence) : Stance :=
  { v with statistics := v.statistics.bump d o }

/-- The monitored line is no longer watched, and no access is held. -/
def vacate (v : Stance) : Stance :=
  { v.disarm v.monitored with held := none }.count v.monitored .release

/-- A deny line takes the place of the monitored one. -/
def turn (v : Stance) (d : Direction) : Stance :=
  if v.monitored = d then v else { v.disarm v.monitored with monitored := d }

theorem turn_enabled (v : Stance) (d : Direction) : (v.turn d).enabled = v.enabled := by
  unfold turn
  split <;> rfl

theorem turn_flags (v : Stance) (d : Direction) : (v.turn d).flags = v.flags := by
  unfold turn
  split <;> rfl

end Stance

namespace Engine

variable {κ : Type}

/-- Where an engine stands. -/
def stance (e : Engine κ) : Stance where
  config := e.config
  enabled := e.enabled
  flags := e.flags
  held := e.held
  monitored := e.monitored
  statistics := e.statistics
  armed d := (e.rig.denyLine d).armed

instance : Watched (Engine κ) Stance where
  stance := stance
  sightings e := e.rig.sightings

end Engine

/-! ## Single steps -/

namespace Course

/-- The course of an action on the rig, as an action of the engine. -/
inductive lifted {α : Type} (c : Course (Direction → Bool) Rig.Halt α) :
    Course Stance Engine.Halt α
  | ok {v : Stance} {a : α} {t : List Sighting} {armed : Direction → Bool}
      (h : c v.armed (.ok a) t armed) : lifted c v (.ok a) t { v with armed }
  /-- A line that fails is logged. -/
  | fault {v : Stance} {t : List Sighting} {armed : Direction → Bool}
      (h : c v.armed (.error .lineFault) t armed) :
      lifted c v (.error (.fault .gpio)) (t ++ [.logged Record.lineFault.logLine]) { v with armed }
  | endless {v : Stance} {t : List Sighting} {armed : Direction → Bool}
      (h : c v.armed (.error .endless) t armed) :
      lifted c v (.error .endless) t { v with armed }

/-- The course of an action that may fail: one course follows if it does not, another if it does. -/
inductive attempted {α β : Type} (c : Course Stance Engine.Halt α)
    (ok : α → Course Stance Engine.Halt β) (fault : Fault → Course Stance Engine.Halt β) :
    Course Stance Engine.Halt β
  | ok {v v' w : Stance} {a : α} {x : Except Engine.Halt β} {t u : List Sighting}
      (first : c v (.ok a) t v') (second : ok a v' x u w) : attempted c ok fault v x (t ++ u) w
  | fault {v v' w : Stance} {f : Fault} {x : Except Engine.Halt β} {t u : List Sighting}
      (first : c v (.error (.fault f)) t v') (second : fault f v' x u w) :
      attempted c ok fault v x (t ++ u) w
  | endless {v w : Stance} {t : List Sighting} (first : c v (.error .endless) t w) :
      attempted c ok fault v (.error .endless) t w

end Course

section

variable {κ α β : Type}

theorem Follows.withRig {action : Rig.Action κ α} {c : Course (Direction → Bool) Rig.Halt α}
    (h : Follows action c) : Follows (Engine.Action.withRig action) c.lifted := by
  intro e
  obtain ⟨t, ht, hc⟩ := h e.rig
  unfold Engine.Action.withRig
  simp only [run_get_bind]
  generalize action.run e.rig = o at ht hc ⊢
  obtain ⟨(_ | _) | a, rig⟩ := o
  · refine ⟨t ++ [.logged Record.lineFault.logLine], ?_, .fault hc⟩
    rw [← List.append_assoc]
    exact congrArg (· ++ [_]) ht
  · exact ⟨t, ht, .endless hc⟩
  · exact ⟨t, ht, .ok hc⟩

theorem Follows.withRig_does {action : Rig.Action κ α} {a : α} {t : List Sighting}
    {g : (Direction → Bool) → Direction → Bool} (h : Follows action (Course.does a t g)) :
    Follows (Engine.Action.withRig action)
      (Course.does a t fun v => { v with armed := g v.armed }) := by
  refine h.withRig.mono ?_
  rintro v x u w (⟨hx, rfl, rfl⟩ | ⟨hx, -, -⟩ | ⟨hx, -, -⟩)
  · exact ⟨congrArg _ (Except.ok.inj hx), rfl, rfl⟩
  · cases hx
  · cases hx

theorem run_attempt (action : Engine.Action κ α) (e : Engine κ) :
    (Engine.Action.attempt action).run e =
      match action.run e with
      | (.ok a, e') => (.ok (.ok a), e')
      | (.error (.fault f), e') => (.ok (.error f), e')
      | (.error .endless, e') => (.error .endless, e') := by
  unfold Engine.Action.attempt
  simp only [tryCatch, tryCatchThe, MonadExceptOf.tryCatch, ExceptT.tryCatch, Functor.map,
    ExceptT.map, ExceptT.run, ExceptT.mk, bind, StateT.bind]
  rcases action e with ⟨(f | _) | a, e'⟩ <;> rfl

theorem Follows.attempt_bind {action : Engine.Action κ α} {c : Course Stance Engine.Halt α}
    {f : Except Fault α → Engine.Action κ β} {ok : α → Course Stance Engine.Halt β}
    {fault : Fault → Course Stance Engine.Halt β} (h : Follows action c)
    (hok : ∀ a, Follows (f (.ok a)) (ok a)) (hfault : ∀ g, Follows (f (.error g)) (fault g)) :
    Follows (Engine.Action.attempt action >>= f) (c.attempted ok fault) := by
  intro e
  obtain ⟨t, ht, hc⟩ := h e
  rw [run_bind, run_attempt]
  generalize action.run e = o at ht hc ⊢
  obtain ⟨(g | _) | a, e'⟩ := o
  · exact (hfault g).run_after ht fun _ _ _ hd => .fault hc hd
  · exact ⟨t, ht, .endless hc⟩
  · exact (hok a).run_after ht fun _ _ _ hd => .ok hc hd

end

namespace Engine

open Course

variable {κ : Type}

/-- An action that is run on its own goes as its course says. -/
theorem course_act {α : Type} {action : Action κ α} {c : Course Stance Halt α}
    (h : Follows action c) (e : Engine κ) :
    c e.stance (e.act action).1 (e.act action).2.1 (e.act action).2.2.stance := by
  obtain ⟨t, ht, hc⟩ := h { e with rig.sightings := [] }
  rw [show t = (e.act action).2.1 from ht.symm] at hc
  exact hc

theorem follows_record (r : Record) :
    Follows (Action.record r : Action κ Unit) (does () [.logged r.logLine] id) :=
  follows_modify (fun _ => rfl) fun _ => rfl

theorem follows_count (d : Direction) (o : Occurrence) :
    Follows (Action.count d o : Action κ Unit) (does () [] fun v => v.count d o) :=
  follows_modify (fun _ => (List.append_nil _).symm) fun _ => rfl

theorem follows_arm (d : Direction) :
    Follows (Action.arm d : Action κ Unit) (does () [.armed d] fun v => v.arm d) :=
  (Rig.follows_arm d).withRig_does

theorem follows_disarm (d : Direction) :
    Follows (Action.disarm d : Action κ Unit) (does () [.disarmed d] fun v => v.disarm d) :=
  (Rig.follows_disarm d).withRig_does

theorem follows_clear (d : Direction) :
    Follows (Action.clear d : Action κ Unit) (does () [.cleared d] id) :=
  (Rig.follows_clear d).withRig_does

theorem follows_setHeld (held : Option Direction) :
    Follows (modify fun e => { e with held } : Action κ Unit)
      (does () [] fun v => { v with held }) :=
  follows_modify (fun _ => (List.append_nil _).symm) fun _ => rfl

theorem follows_setEnabled (enabled : Bool) :
    Follows (modify fun e => { e with enabled } : Action κ Unit)
      (does () [] fun v => { v with enabled }) :=
  follows_modify (fun _ => (List.append_nil _).symm) fun _ => rfl

/-- A disabled engine passes over what an enabled one does. -/
theorem follows_if_enabled {α : Type} {body : Action κ α} {a : α} {c : Course Stance Halt α}
    (e : Engine κ) (disabled : e.stance.enabled = false → c e.stance (.ok a) [] e.stance)
    (enabled : e.enabled = true → Follows body fun v x t w => v = e.stance → c v x t w) :
    Follows (if e.enabled then body else pure a) fun v x t w => v = e.stance → c v x t w := by
  cases henabled : e.enabled with
  | true => exact enabled henabled
  | false =>
    refine (follows_pure a).mono ?_
    rintro v x t w ⟨rfl, rfl, rfl⟩ rfl
    exact disabled henabled

/-- The deny line of a direction is read. -/
inductive Reads (d : Direction) : Course Stance Halt Bool
  | reads {v : Stance} (high : Bool) :
      Reads d v (.ok (v.config.denyLevel.denies high)) [.sampled d (some high)] v
  | fails {v : Stance} :
      Reads d v (.error (.fault .gpio)) [.sampled d none, .logged Record.lineFault.logLine] v

theorem follows_isDenied (d : Direction) :
    Follows (Action.isDenied d : Action κ Bool) (Reads d) := by
  have hlevel (high : Bool) :
      Follows (do let e ← get; pure (e.config.denyLevel.denies high) : Action κ Bool)
        fun v x t w => x = .ok (v.config.denyLevel.denies high) ∧ t = [] ∧ w = v :=
    fun e => ⟨[], (List.append_nil _).symm, rfl, rfl, rfl⟩
  refine ((Rig.follows_sample d).withRig.bind hlevel).mono ?_
  rintro v x t w (⟨first, rfl, rfl, rfl⟩ | first)
  · obtain ⟨⟨⟩⟩ := first
    exact .reads _
  · obtain _ | ⟨⟨⟩⟩ | ⟨⟨⟩⟩ := first
    exact .fails

theorem follows_monitor (d : Direction) :
    Follows (Action.monitor d : Action κ Unit) fun v x t w => x = .ok () ∧
      t = (if v.monitored = d then [] else [.disarmed v.monitored]) ∧ w = v.turn d := by
  unfold Action.monitor
  refine Follows.get_bind fun e => ?_
  split
  · next hsame =>
    refine (follows_pure ()).mono ?_
    rintro v x t w ⟨rfl, rfl, rfl⟩ rfl
    exact ⟨rfl, (if_pos hsame).symm, (if_pos hsame).symm⟩
  · next hother =>
    have hturn : Follows (modify fun e => { e with monitored := d } : Action κ Unit)
        (does () [] fun v => { v with monitored := d }) :=
      follows_modify (fun _ => (List.append_nil _).symm) fun _ => rfl
    refine ((follows_disarm e.monitored).bind fun _ => hturn).mono ?_
    rintro v x t w h rfl
    simp only [does_andThen] at h
    obtain ⟨u, rfl, rfl, rfl, rfl⟩ := h
    exact ⟨rfl, (if_neg hother).symm, (if_neg hother).symm⟩

end Engine

end SharedRadio.Coexistence
