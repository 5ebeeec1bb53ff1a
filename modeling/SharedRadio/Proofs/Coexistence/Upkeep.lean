import SharedRadio.Proofs.Coexistence.Transcript

/-!
# What the steps of an operation keep

An operation of the engine does few kinds of things with its rig: it writes the request line, reads
a deny line, enables and disables interrupts, and reads the clock. A property of rigs that all of
these keep is `Upheld`, and then every operation keeps it, however it ends (`keeps_perform`).
`Keeps` says that an action keeps a property, and is put together as actions are.
-/

namespace SharedRadio.Coexistence

/-- An action keeps a property of states, however it ends. -/
def Keeps {σ ε α : Type} (I : σ → Prop) (action : ExceptT ε (StateM σ) α) : Prop :=
  ∀ s, I s → I (action.run s).2

section Keeps

variable {σ ε α β : Type} {I : σ → Prop}

theorem Keeps.bind {action : ExceptT ε (StateM σ) α} {f : α → ExceptT ε (StateM σ) β}
    (h : Keeps I action) (hf : ∀ a, Keeps I (f a)) : Keeps I (action >>= f) := by
  intro s hs
  have hs' := h s hs
  rw [run_bind]
  generalize action.run s = o at hs' ⊢
  obtain ⟨_ | a, s'⟩ := o
  · exact hs'
  · exact hf a s' hs'

theorem Keeps.get_bind {f : σ → ExceptT ε (StateM σ) α} (h : ∀ s, Keeps I (f s)) :
    Keeps I (get >>= f) :=
  fun s hs => h s s hs

theorem keeps_pure (a : α) : Keeps I (pure a : ExceptT ε (StateM σ) α) := fun _ hs => hs

theorem keeps_throw (e : ε) : Keeps I (throw e : ExceptT ε (StateM σ) α) := fun _ hs => hs

theorem keeps_modify {g : σ → σ} (h : ∀ s, I s → I (g s)) :
    Keeps I (modify g : ExceptT ε (StateM σ) Unit) := h

end Keeps

/-- Something that is neither a write of the request line nor a reading of a deny line. -/
def Sighting.isAside : Sighting → Bool
  | .wrote .. | .sampled .. => false
  | _ => true

/-! ## Actions on the rig -/

namespace Rig

variable {κ : Type} [Clock κ]

/-- A property of rigs that is kept by everything an operation of the engine does with one. -/
structure Upheld (I : Rig κ → Prop) : Prop where
  notice : ∀ {r} {s : Sighting}, s.isAside = true → I r → I (r.notice s)
  setArmed : ∀ {r} (d : Direction) (armed : Bool), I r →
    I (r.setDenyLine d { r.denyLine d with armed })
  setClock : ∀ {r} (clock : κ), I r → I { r with clock }
  drive : ∀ level, Keeps I (Action.drive level : Action κ Unit)
  sample : ∀ d, Keeps I (Action.sample d : Action κ Bool)

variable {I : Rig κ → Prop} (hI : Upheld I)
include hI

theorem keeps_arm (d : Direction) : Keeps I (Action.arm d : Action κ Unit) :=
  keeps_modify fun _ h => hI.notice rfl (hI.setArmed d true h)

theorem keeps_disarm (d : Direction) : Keeps I (Action.disarm d : Action κ Unit) :=
  keeps_modify fun _ h => hI.notice rfl (hI.setArmed d false h)

theorem keeps_timestamp : Keeps I (Action.timestamp : Action κ UInt32) :=
  fun r h => hI.notice rfl (hI.setClock (Clock.timestamp r.clock).2 h)

theorem keeps_awaitMicros (since duration : UInt32) :
    Keeps I (Action.awaitMicros since duration : Action κ Unit) := by
  intro r h
  rw [run_awaitMicros]
  cases (Clock.awaitMicros since duration r.clock).1 with
  | none => exact hI.setClock _ h
  | some p => exact hI.notice rfl (hI.setClock _ h)

theorem keeps_pause (duration : UInt32) : Keeps I (Action.pause duration : Action κ Unit) :=
  (keeps_timestamp hI).bind fun since => keeps_awaitMicros hI since duration

theorem keeps_ticks : Keeps I (Action.ticks : Action κ UInt32) :=
  fun r h => hI.setClock (Clock.ticks r.clock).2 h

theorem keeps_awaitTicks (start duration : UInt32) :
    Keeps I (Action.awaitTicks start duration : Action κ Unit) := by
  intro r h
  rw [run_awaitTicks]
  exact hI.setClock _ h

theorem keeps_sendByte (bitTicks : UInt32) (byte : UInt8) :
    Keeps I (Action.sendByte bitTicks byte : Action κ Unit) := by
  have hlevel (level : Bool) : Keeps I (Action.sendLevel bitTicks level : Action κ Unit) :=
    (keeps_ticks hI).bind fun start => (hI.drive level).bind fun _ =>
      keeps_awaitTicks hI start bitTicks
  have hlevels (levels : List Bool) :
      Keeps I (levels.forM (Action.sendLevel bitTicks) : Action κ Unit) := by
    induction levels with
    | nil => exact keeps_pure ()
    | cons level rest ih => exact (hlevel level).bind fun _ => ih
  exact hlevels (Frame.levels byte)

end Rig

/-! ## Actions of the engine -/

namespace Engine

variable {κ α β : Type}

theorem keeps_withRig {I : Rig κ → Prop} [Clock κ] (hI : Rig.Upheld I) {action : Rig.Action κ α}
    (h : Keeps I action) : Keeps (fun e => I e.rig) (Action.withRig action) := by
  intro e he
  have hrig := h e.rig he
  unfold Action.withRig
  simp only [run_get_bind]
  generalize action.run e.rig = o at hrig ⊢
  obtain ⟨(_ | _) | a, rig⟩ := o
  · exact hI.notice rfl hrig
  · exact hrig
  · exact hrig

theorem Keeps.attempt_bind {I : Engine κ → Prop} {action : Action κ α}
    {f : Except Fault α → Action κ β} (h : Keeps I action) (hf : ∀ a, Keeps I (f a)) :
    Keeps I (Action.attempt action >>= f) := by
  intro e he
  have he' := h e he
  rw [run_bind, run_attempt]
  generalize action.run e = o at he' ⊢
  obtain ⟨(g | _) | a, e'⟩ := o
  · exact hf (.error g) e' he'
  · exact he'
  · exact hf (.ok a) e' he'

/-- What is done to fields of the engine alone keeps any property of its rig. -/
theorem keeps_fields {I : Rig κ → Prop} {g : Engine κ → Engine κ} (hrig : ∀ e, (g e).rig = e.rig) :
    Keeps (fun e => I e.rig) (modify g : Action κ Unit) :=
  keeps_modify fun e h => (hrig e).symm ▸ h

section

variable {I : Rig κ → Prop}

theorem keeps_count (d : Direction) (o : Occurrence) :
    Keeps (fun e => I e.rig) (Action.count d o : Action κ Unit) :=
  keeps_fields fun _ => rfl

theorem keeps_setHeld (held : Option Direction) :
    Keeps (fun e => I e.rig) (modify fun e => { e with held } : Action κ Unit) :=
  keeps_fields fun _ => rfl

theorem keeps_setEnabled (enabled : Bool) :
    Keeps (fun e => I e.rig) (modify fun e => { e with enabled } : Action κ Unit) :=
  keeps_fields fun _ => rfl

end

variable [Clock κ] {I : Rig κ → Prop} (hI : Rig.Upheld I)
include hI

theorem keeps_record (r : Record) :
    Keeps (fun e => I e.rig) (Action.record r : Action κ Unit) :=
  keeps_modify fun _ h => hI.notice rfl h

theorem keeps_arm (d : Direction) : Keeps (fun e => I e.rig) (Action.arm d : Action κ Unit) :=
  keeps_withRig hI (Rig.keeps_arm hI d)

theorem keeps_disarm (d : Direction) :
    Keeps (fun e => I e.rig) (Action.disarm d : Action κ Unit) :=
  keeps_withRig hI (Rig.keeps_disarm hI d)

theorem keeps_monitor (d : Direction) :
    Keeps (fun e => I e.rig) (Action.monitor d : Action κ Unit) := by
  unfold Action.monitor
  refine .get_bind fun e => ?_
  split
  · exact keeps_pure ()
  · exact (keeps_disarm hI e.monitored).bind fun _ => keeps_fields fun _ => rfl

theorem keeps_isDenied (d : Direction) :
    Keeps (fun e => I e.rig) (Action.isDenied d : Action κ Bool) :=
  (keeps_withRig hI (hI.sample d)).bind fun _ => .get_bind fun _ => keeps_pure _

theorem keeps_send (byte : UInt8) :
    Keeps (fun e => I e.rig) (Action.send byte : Action κ Unit) :=
  .get_bind fun e => keeps_withRig hI (Rig.keeps_sendByte hI e.config.bitTicks byte)

theorem keeps_signalRequest (d : Direction) :
    Keeps (fun e => I e.rig) (Action.signalRequest d : Action κ Unit) :=
  .get_bind fun e => (keeps_send hI _).bind fun _ =>
    (keeps_withRig hI (Rig.keeps_pause hI e.config.guardMicros)).bind fun _ => keeps_send hI _

theorem keeps_release : Keeps (fun e => I e.rig) (Action.release : Action κ Unit) := by
  unfold Action.release
  refine .get_bind fun e => ?_
  split
  · exact (keeps_disarm hI e.monitored).bind fun _ => (keeps_setHeld none).bind fun _ =>
      (keeps_count e.monitored .release).bind fun _ => keeps_send hI Message.release
  · exact keeps_pure ()

theorem keeps_signalOrRelease (d : Direction) :
    Keeps (fun e => I e.rig) (Action.signalOrRelease d : Action κ Unit) := by
  refine Keeps.attempt_bind (keeps_signalRequest hI d) fun signalled => ?_
  cases signalled with
  | ok _ => exact keeps_pure ()
  | error f => exact Keeps.attempt_bind (keeps_release hI) fun _ => keeps_throw _

theorem keeps_settle (d : Direction) :
    Keeps (fun e => I e.rig) (Action.settle d : Action κ Unit) := by
  unfold Action.settle
  refine (keeps_isDenied hI d).bind fun denied => ?_
  split
  · exact (keeps_record hI _).bind fun _ => (keeps_count d .timeout).bind fun _ =>
      (keeps_release hI).bind fun _ => keeps_throw _
  · exact (keeps_record hI _).bind fun _ => (keeps_arm hI d).bind fun _ =>
      (keeps_setHeld (some d)).bind fun _ => keeps_count d .grant

theorem keeps_solicit (d : Direction) :
    Keeps (fun e => I e.rig) (Action.solicit d : Action κ Unit) :=
  (keeps_count d .request).bind fun _ => (keeps_monitor hI d).bind fun _ =>
    keeps_signalOrRelease hI d

theorem keeps_ask (d : Direction) :
    Keeps (fun e => I e.rig) (Action.ask d : Action κ (Option Standing)) := by
  unfold Action.ask
  refine .get_bind fun e => ?_
  split
  · exact (keeps_count d .immediateGrant).bind fun _ => keeps_pure none
  · split
    · exact (keeps_solicit hI d).bind fun _ =>
        (keeps_withRig hI (Rig.keeps_timestamp hI)).bind fun _ => keeps_pure _
    · exact keeps_pure none

theorem keeps_linger (since : UInt32) :
    Keeps (fun e => I e.rig) (Action.linger since : Action κ Unit) :=
  .get_bind fun e => keeps_withRig hI (Rig.keeps_awaitMicros hI since e.config.sampleMicros)

theorem keeps_request (d : Direction) :
    Keeps (fun e => I e.rig) (Action.request d : Action κ Unit) := by
  refine (keeps_ask hI d).bind fun standing => ?_
  cases standing with
  | none => exact keeps_pure ()
  | some standing => exact (keeps_linger hI standing.since).bind fun _ => keeps_settle hI d

theorem keeps_change (d : Direction) :
    Keeps (fun e => I e.rig) (Action.change d : Action κ Unit) := by
  unfold Action.change
  refine .get_bind fun e => ?_
  split
  · split
    · exact (keeps_record hI _).bind fun _ => keeps_throw _
    · exact (keeps_setHeld (some d)).bind fun _ => keeps_signalRequest hI d
  · exact keeps_pure ()

theorem keeps_disable : Keeps (fun e => I e.rig) (Action.disable : Action κ Unit) := by
  refine Keeps.attempt_bind (keeps_release hI) fun released => ?_
  refine (keeps_setEnabled false).bind fun _ => ?_
  cases released with
  | ok _ => exact keeps_pure ()
  | error f => exact keeps_throw _

theorem keeps_denyState : Keeps (fun e => I e.rig) (Action.denyState : Action κ DenyState) :=
  (keeps_isDenied hI .tx).bind fun _ => (keeps_isDenied hI .rx).bind fun _ => keeps_pure _

/-- **What every step keeps is kept by every operation.** -/
theorem keeps_perform (operation : Operation) :
    Keeps (fun e => I e.rig) (Action.perform operation : Action κ (Option DenyState)) := by
  have hsets {g : Engine κ → Engine κ} (hrig : ∀ e, (g e).rig = e.rig) :
      Keeps (fun e => I e.rig) (do modify g; pure none : Action κ (Option DenyState)) :=
    (keeps_fields hrig).bind fun _ => keeps_pure none
  cases operation with
  | enable | setPriority | resetStatistics => exact hsets fun _ => rfl
  | disable => exact (keeps_disable hI).bind fun _ => keeps_pure none
  | request d => exact (keeps_request hI d).bind fun _ => keeps_pure none
  | change d => exact (keeps_change hI d).bind fun _ => keeps_pure none
  | release => exact (keeps_release hI).bind fun _ => keeps_pure none
  | denyState =>
    rw [show Action.perform .denyState = (some <$> Action.denyState : Action κ _) from rfl,
      map_eq_pure_bind]
    exact (keeps_denyState hI).bind fun _ => keeps_pure _

end Engine

end SharedRadio.Coexistence
