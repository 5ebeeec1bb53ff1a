import SharedRadio.Proofs.Coexistence.Conduct

/-!
# A request that nothing comes between

`Action.ask` and `Action.advance` cut a request for access into legs. Here it is shown that they
leave nothing out and add nothing: a request that is left alone goes through its legs, one after the
other, to the same end (`unfolds_request`).

Two things are behind that. A wait is one look at the clock after another (`unfolds_of_poll`). And
what is noticed in the course of the legs is what is noticed in the course of the request, because
no leg depends on what was noticed before it: `Commutes` says so of an action, and `act_bind_of_ok`
puts two actions together that were run on their own.
-/

namespace SharedRadio.Coexistence

/-! ## Actions that take no notice of a change -/

/-- It makes no difference to an action whether a change is made to the state before it or after it.
-/
def Commutes {σ ε α : Type} (g : σ → σ) (action : ExceptT ε (StateM σ) α) : Prop :=
  ∀ s, action.run (g s) = ((action.run s).1, g (action.run s).2)

section Commutes

variable {σ ε α β : Type} {g : σ → σ} {action : ExceptT ε (StateM σ) α}

theorem commutes_pure (a : α) : Commutes g (pure a : ExceptT ε (StateM σ) α) := fun _ => rfl

theorem commutes_throw (e : ε) : Commutes g (throw e : ExceptT ε (StateM σ) α) := fun _ => rfl

theorem commutes_modify {k : σ → σ} (h : ∀ s, k (g s) = g (k s)) :
    Commutes g (modify k : ExceptT ε (StateM σ) Unit) :=
  fun s => congrArg (Prod.mk _) (h s)

theorem Commutes.bind {f : α → ExceptT ε (StateM σ) β} (h : Commutes g action)
    (hf : ∀ a, Commutes g (f a)) : Commutes g (action >>= f) := by
  intro s
  rw [run_bind, run_bind, h s]
  rcases action.run s with ⟨_ | a, s'⟩
  · rfl
  · exact hf a s'

/-- An action may look at the state, if it does not see the change. -/
theorem Commutes.get_bind {f : σ → ExceptT ε (StateM σ) α} (h : ∀ s, Commutes g (f s))
    (hblind : ∀ s, f (g s) = f s) : Commutes g (get >>= f) := by
  intro s
  rw [run_get_bind, run_get_bind, hblind]
  exact h s s

end Commutes

/-! ## What was noticed before -/

namespace Rig

variable {κ : Type}

/-- A rig of which something has been noticed before. -/
def recalling (t : List Sighting) (r : Rig κ) : Rig κ := { r with sightings := t ++ r.sightings }

theorem notice_recalling (t : List Sighting) (r : Rig κ) (s : Sighting) :
    (r.recalling t).notice s = (r.notice s).recalling t := by
  simp [notice, recalling]

theorem setDenyLine_recalling (t : List Sighting) (r : Rig κ) (d : Direction) (l : DenyLine) :
    (r.recalling t).setDenyLine d l = (r.setDenyLine d l).recalling t := by
  cases d <;> rfl

theorem denyLine_recalling (t : List Sighting) (r : Rig κ) (d : Direction) :
    (r.recalling t).denyLine d = r.denyLine d := by
  cases d <;> rfl

variable (t : List Sighting)

theorem commutes_arm (d : Direction) : Commutes (recalling t) (Action.arm d : Action κ Unit) :=
  commutes_modify fun r => by rw [denyLine_recalling, setDenyLine_recalling, notice_recalling]

theorem commutes_disarm (d : Direction) :
    Commutes (recalling t) (Action.disarm d : Action κ Unit) :=
  commutes_modify fun r => by rw [denyLine_recalling, setDenyLine_recalling, notice_recalling]

theorem commutes_sample (d : Direction) :
    Commutes (recalling t) (Action.sample d : Action κ Bool) := by
  intro r
  rw [run_sample, run_sample, denyLine_recalling, setDenyLine_recalling, notice_recalling]

variable [Clock κ]

theorem commutes_ticks : Commutes (recalling t) (Action.ticks : Action κ UInt32) := fun _ => rfl

theorem commutes_drive (level : Bool) :
    Commutes (recalling t) (Action.drive level : Action κ Unit) := by
  intro r
  rw [run_drive, run_drive]
  exact congrArg (Prod.mk _)
    (notice_recalling t { r with request.writes := r.request.writes + 1 } _)

theorem commutes_awaitTicks (start duration : UInt32) :
    Commutes (recalling t) (Action.awaitTicks start duration : Action κ Unit) := by
  intro r
  rw [run_awaitTicks, run_awaitTicks]
  rfl

theorem commutes_awaitMicros (since duration : UInt32) :
    Commutes (recalling t) (Action.awaitMicros since duration : Action κ Unit) := by
  intro r
  rw [run_awaitMicros, run_awaitMicros]
  show Option.elim (Clock.awaitMicros since duration r.clock).1 _ _ = _
  cases (Clock.awaitMicros since duration r.clock).1 with
  | none => rfl
  | some p =>
    exact congrArg (Prod.mk _)
      (notice_recalling t { r with clock := (Clock.awaitMicros since duration r.clock).2 } _)

theorem commutes_sendByte (bitTicks : UInt32) (byte : UInt8) :
    Commutes (recalling t) (Action.sendByte bitTicks byte : Action κ Unit) := by
  have hlevel (level : Bool) :
      Commutes (recalling t) (Action.sendLevel bitTicks level : Action κ Unit) :=
    (commutes_ticks t).bind fun start => (commutes_drive t level).bind fun _ =>
      commutes_awaitTicks t start bitTicks
  have hlevels (levels : List Bool) :
      Commutes (recalling t) (levels.forM (Action.sendLevel bitTicks) : Action κ Unit) := by
    induction levels with
    | nil => exact commutes_pure ()
    | cons level rest ih => exact (hlevel level).bind fun _ => ih
  exact hlevels (Frame.levels byte)

end Rig

namespace Engine

variable {κ α β : Type}

/-- An engine of whose rig something has been noticed before. -/
def recalling (t : List Sighting) (e : Engine κ) : Engine κ := { e with rig := e.rig.recalling t }

section

variable (t : List Sighting)

theorem commutes_count (d : Direction) (o : Occurrence) :
    Commutes (recalling t) (Action.count d o : Action κ Unit) :=
  commutes_modify fun _ => rfl

theorem commutes_setHeld (held : Option Direction) :
    Commutes (recalling t) (modify fun e => { e with held } : Action κ Unit) :=
  commutes_modify fun _ => rfl

theorem commutes_record (r : Record) :
    Commutes (recalling t) (Action.record r : Action κ Unit) :=
  commutes_modify fun e => congrArg (fun rig => { e with rig }) (e.rig.notice_recalling t _)

theorem commutes_withRig {action : Rig.Action κ α} (h : Commutes (Rig.recalling t) action) :
    Commutes (recalling t) (Action.withRig action) := by
  intro e
  unfold Action.withRig
  simp only [run_get_bind]
  rw [show (e.recalling t).rig = e.rig.recalling t from rfl, h e.rig]
  rcases action.run e.rig with ⟨(_ | _) | a, rig⟩
  · exact congrArg (fun rig => (_, { e with rig })) (rig.notice_recalling t _)
  · rfl
  · rfl

theorem commutes_isDenied (d : Direction) :
    Commutes (recalling t) (Action.isDenied d : Action κ Bool) :=
  (commutes_withRig t (Rig.commutes_sample t d)).bind fun _ =>
    .get_bind (fun _ => commutes_pure _) fun _ => rfl

variable [Clock κ]

theorem commutes_send (byte : UInt8) : Commutes (recalling t) (Action.send byte : Action κ Unit) :=
  .get_bind (fun e => commutes_withRig t (Rig.commutes_sendByte t e.config.bitTicks byte))
    fun _ => rfl

theorem commutes_release : Commutes (recalling t) (Action.release : Action κ Unit) := by
  refine .get_bind (fun e => ?_) fun _ => rfl
  split
  · exact (commutes_withRig t (Rig.commutes_disarm t e.monitored)).bind fun _ =>
      (commutes_setHeld t none).bind fun _ => (commutes_count t e.monitored .release).bind fun _ =>
        commutes_send t Message.release
  · exact commutes_pure ()

theorem commutes_settle (d : Direction) :
    Commutes (recalling t) (Action.settle d : Action κ Unit) := by
  unfold Action.settle
  refine (commutes_isDenied t d).bind fun denied => ?_
  split
  · exact (commutes_record t _).bind fun _ => (commutes_count t d .timeout).bind fun _ =>
      (commutes_release t).bind fun _ => commutes_throw _
  · exact (commutes_record t _).bind fun _ =>
      (commutes_withRig t (Rig.commutes_arm t d)).bind fun _ =>
        (commutes_setHeld t (some d)).bind fun _ => commutes_count t d .grant

theorem commutes_linger (since : UInt32) :
    Commutes (recalling t) (Action.linger since : Action κ Unit) :=
  .get_bind (fun e => commutes_withRig t (Rig.commutes_awaitMicros t since e.config.sampleMicros))
    fun _ => rfl

end

/-! ## Actions that are run on their own -/

theorem recalling_recalling (t u : List Sighting) (e : Engine κ) :
    (e.recalling u).recalling t = e.recalling (t ++ u) := by
  simp [recalling, Rig.recalling]

variable {action : Action κ α} {f : α → Action κ β} {e e' e'' : Engine κ} {t u : List Sighting}

/-- An engine forgets what was noticed before an action that is run on its own, and after it. -/
theorem act_eq_iff {x : Except Halt α} :
    e.act action = (x, t, e') ↔
      e'.rig.sightings = [] ∧ action.run { e with rig.sightings := [] } = (x, e'.recalling t) := by
  have hact : e.act action = ((action.run { e with rig.sightings := [] }).1,
      (action.run { e with rig.sightings := [] }).2.rig.sightings,
      { (action.run { e with rig.sightings := [] }).2 with rig.sightings := [] }) := rfl
  rw [hact]
  generalize action.run { e with rig.sightings := [] } = o
  obtain ⟨y, after⟩ := o
  constructor
  · rintro ⟨rfl, rfl, rfl⟩
    exact ⟨rfl, by simp [recalling, Rig.recalling]⟩
  · rintro ⟨hforgets, ⟨rfl, rfl⟩⟩
    obtain ⟨_, _, _, _, _, _, ⟨_, _, _, _, sightings⟩⟩ := e'
    obtain rfl : sightings = [] := hforgets
    simp [recalling, Rig.recalling]

theorem forgets_of_act {x : Except Halt α} (h : e.act action = (x, t, e')) :
    ({ e' with rig.sightings := [] } : Engine κ) = e' := by
  cases h
  rfl

theorem act_bind_of_error {h : Halt} (first : e.act action = (.error h, t, e')) :
    e.act (action >>= f) = (.error h, t, e') := by
  rw [act_eq_iff] at first ⊢
  exact ⟨first.1, run_bind_of_error first.2⟩

/-- One action after the other is the same as each of them on its own. -/
theorem act_bind_of_ok {a : α} {x : Except Halt β} (first : e.act action = (.ok a, t, e'))
    (second : e'.act (f a) = (x, u, e'')) (hf : Commutes (recalling t) (f a)) :
    e.act (action >>= f) = (x, t ++ u, e'') := by
  have hforgets := forgets_of_act first
  rw [act_eq_iff] at first second ⊢
  rw [hforgets] at second
  refine ⟨second.1, ?_⟩
  rw [run_bind_of_ok first.2, hf e', second.2, recalling_recalling]

/-- What an action comes to may be read in another way. -/
theorem act_map (f : α → β) (e : Engine κ) (action : Action κ α) :
    e.act (f <$> action) = ((e.act action).1.map f, (e.act action).2) := by
  unfold act
  rw [run_map]
  rfl

/-! ## Legs to the end -/

variable [Clock κ]

/-- A request that is left alone goes from one leg to its end. -/
inductive Unfolds : Action κ (Option Standing) → Engine κ → Except Halt Unit → List Sighting →
    Engine κ → Prop
  | ends {leg : Action κ (Option Standing)} {e e' : Engine κ} {t : List Sighting}
      (last : e.act leg = (.ok none, t, e')) : Unfolds leg e (.ok ()) t e'
  | stops {leg : Action κ (Option Standing)} {e e' : Engine κ} {t : List Sighting} {h : Halt}
      (last : e.act leg = (.error h, t, e')) : Unfolds leg e (.error h) t e'
  | goesOn {leg : Action κ (Option Standing)} {e e' e'' : Engine κ} {s : Standing}
      {x : Except Halt Unit} {t u : List Sighting} (first : e.act leg = (.ok (some s), t, e'))
      (rest : Unfolds (.advance s) e' x u e'') : Unfolds leg e x (t ++ u) e''

/-- When the answer is due, one leg is left. -/
theorem unfolds_of_due {s : Standing} {e e' : Engine κ} {x : Except Halt Unit}
    {t : List Sighting} (hdue : s.due = true)
    (hsettles : e.act (.settle s.direction) = (x, t, e')) :
    Unfolds (.advance s) e x t e' := by
  have hleg : e.act (.advance s) = (x.map fun _ => none, t, e') := by
    unfold Action.advance
    rw [if_pos hdue, ← map_eq_pure_bind, act_map, hsettles]
  cases x with
  | error h => exact .stops hleg
  | ok _ => exact .ends hleg

/-- One look at the clock takes nothing but a moment. -/
theorem act_advance_of_waits {s : Standing} (hwaits : s.due = false) (e : Engine κ) :
    let micros := (Clock.elapsed s.since e.rig.clock).1
    let clock := (Clock.elapsed s.since e.rig.clock).2
    let after : Engine κ := { e with rig := { e.rig with clock, sightings := [] } }
    e.act (.advance s) =
      if e.config.sampleMicros ≤ micros then
        (.ok (some { s with reads := s.reads + 1, due := true }),
          [.waited s.since (s.reads + 1) micros], after)
      else (.ok (some { s with reads := s.reads + 1 }), [], after) := by
  intro micros clock after
  have hread : (Action.withRig (.elapsed s.since) : Action κ UInt32).run
      { e with rig.sightings := [] } = (.ok micros, after) := rfl
  unfold Action.advance
  rw [if_neg (ne_true_of_eq_false hwaits), act_map]
  unfold act Action.look
  rw [run_get_bind, run_bind_of_ok hread]
  by_cases h : e.config.sampleMicros ≤ micros
  · rw [if_pos h, if_pos h]
    rfl
  · rw [if_neg h, if_neg h]
    rfl

/-- **A wait is one look after another.** A request whose wait ends goes from look to look until its
answer is due, and then to its end. -/
theorem unfolds_of_poll {limit : Nat} {s : Standing} {e e' : Engine κ} {p : Clock.Polled} {c : κ}
    {x : Except Halt Unit} {t : List Sighting} (hwaits : s.due = false)
    (hpoll : Clock.poll (Clock.elapsed s.since) e.config.sampleMicros limit s.reads e.rig.clock =
      (some p, c))
    (hsettles : ({ e with rig.clock := c } : Engine κ).act (.settle s.direction) = (x, t, e')) :
    Unfolds (.advance s) e x (.waited s.since p.reads p.last :: t) e' := by
  induction limit generalizing s e with
  | zero => cases hpoll
  | succ limit ih =>
    have hleg := act_advance_of_waits hwaits e
    unfold Clock.poll at hpoll
    by_cases hdue : e.config.sampleMicros ≤ (Clock.elapsed s.since e.rig.clock).1
    · simp only [if_pos hdue] at hleg hpoll
      obtain ⟨⟨⟩, rfl⟩ := Prod.mk.inj hpoll
      exact .goesOn (t := [_]) hleg (unfolds_of_due rfl hsettles)
    · simp only [if_neg hdue] at hleg hpoll
      refine .goesOn (t := []) hleg (ih ?_ hpoll hsettles)
      exact hwaits

theorem act_linger (since : UInt32) (e : Engine κ) :
    e.act (.linger since) =
      let polled := Clock.awaitMicros since e.config.sampleMicros e.rig.clock
      (polled.1.elim (.error .endless) fun _ => .ok (),
        polled.1.elim [] fun p => [.waited since p.reads p.last],
        { e with rig := { e.rig with clock := polled.2, sightings := [] } }) := by
  unfold act Action.linger Action.withRig
  rw [run_get_bind, run_get_bind, Rig.run_awaitMicros]
  dsimp only
  cases (Clock.awaitMicros since e.config.sampleMicros e.rig.clock).1 <;> rfl

/-- What is left of a request that stands is a wait and an answer. -/
theorem unfolds_of_linger {d : Direction} {since : UInt32} {e e' : Engine κ} {x : Except Halt Unit}
    {t : List Sighting} (h : e.act (do Action.linger since; Action.settle d) = (x, t, e'))
    (hends : x ≠ .error .endless) :
    Unfolds (.advance { direction := d, since }) e x t e' := by
  have hlinger := act_linger since e
  rcases hpoll : Clock.awaitMicros since e.config.sampleMicros e.rig.clock with ⟨_ | p, c⟩
  · rw [hpoll] at hlinger
    cases h.symm.trans (act_bind_of_error hlinger)
    exact absurd rfl hends
  · rw [hpoll] at hlinger
    rcases hsettles : ({ e with rig.clock := c } : Engine κ).act (.settle d) with ⟨y, u, e₂⟩
    cases h.symm.trans (act_bind_of_ok (f := fun _ => Action.settle d) hlinger hsettles
      (commutes_settle _ d))
    exact unfolds_of_poll rfl hpoll hsettles

/-- **A request that ends may be cut into legs.** If nothing comes between them, they come to the
same, with the same noticed on the way, and leave the engine the same. -/
theorem unfolds_request {d : Direction} {e e' : Engine κ} {x : Except Halt Unit}
    {t : List Sighting} (h : e.act (.request d) = (x, t, e')) (hends : x ≠ .error .endless) :
    Unfolds (.ask d) e x t e' := by
  rcases hask : e.act (.ask d) with ⟨halt | _ | s, t₁, e₁⟩
  · cases h.symm.trans (act_bind_of_error hask)
    exact .stops hask
  · have hover : e₁.act (pure () : Action κ Unit) = (.ok (), [], e₁) :=
      congrArg (fun after => ((.ok () : Except Halt Unit), ([] : List Sighting), after))
        (forgets_of_act hask)
    cases h.symm.trans (act_bind_of_ok hask hover (commutes_pure ()))
    rw [List.append_nil]
    exact .ends hask
  · obtain ⟨since, rfl⟩ : ∃ since, s = { direction := d, since } := by
      have asks := course_act (follows_ask d) e
      rw [hask] at asks
      cases asks with
      | stands _ _ _ since => exact ⟨since, rfl⟩
    have hcommutes : Commutes (recalling t₁)
        (do Action.linger since; Action.settle d : Action κ Unit) :=
      (commutes_linger t₁ since).bind fun _ => commutes_settle t₁ d
    rcases hrest : e₁.act (do Action.linger since; Action.settle d) with ⟨y, u, e₂⟩
    cases h.symm.trans (act_bind_of_ok hask hrest hcommutes)
    exact .goesOn hask (unfolds_of_linger hrest hends)

end Engine

end SharedRadio.Coexistence
