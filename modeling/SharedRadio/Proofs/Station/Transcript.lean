import Mathlib.Tactic.IntervalCases
import SharedRadio.Proofs.Coexistence.Watch
import SharedRadio.Proofs.Station.Agreement

/-!
# Everything that is said on the request line

`transcribed_play` gives the whole history of the request line, as long as every write lands and
every wait ends: one high level, and then the frames of the messages of all moments, in order.
`Moment.messages` lists the messages of one moment, from where the engine stood before it and
whether it ended in a denial. The flags that they report are those of the configuration as they were
changed since, which `flagsAfter` reads off the history.

Nothing is assumed of the deny lines. A read that fails ends a request as it is, without a release.
-/

namespace SharedRadio

/-! ## The bits of the messages -/

namespace Message

/-- A message of type 7 has its top three bits set, and of the others those of the flags. -/
theorem testBit_priority (f : PriorityFlags) (i : Nat) :
    (priority f).toNat.testBit i =
      decide (i = 0 ∧ f.rx = true ∨ i = 2 ∧ f.tx = true ∨ 5 ≤ i ∧ i < 8) := by
  rcases Nat.lt_or_ge i 8 with hlt | hge
  · obtain ⟨rx, tx⟩ := f
    interval_cases i <;> cases rx <;> cases tx <;> rfl
  · have hbits : (priority f).toNat < 2 ^ i :=
      (priority f).toNat_lt.trans_le (Nat.pow_le_pow_right Nat.two_pos hge)
    rw [Nat.testBit_eq_false_of_lt hbits]
    simp only [Bool.false_eq, decide_eq_false_iff_not]
    omega

/-- A message of type 0 has one bit set, which tells the direction. -/
theorem testBit_request (d : Direction) (i : Nat) :
    (request d).toNat.testBit i = decide (i = match d with | .tx => 2 | .rx => 3) := by
  cases d with
  | rx => exact (Nat.testBit_two_pow (n := 3)).trans (decide_eq_decide.mpr eq_comm)
  | tx => exact (Nat.testBit_two_pow (n := 2)).trans (decide_eq_decide.mpr eq_comm)

end Message

namespace Coexistence

/-! ## The flags in force -/

/-- The flags in force after an operation. -/
def Engine.Operation.flagsAfter (operation : Operation) (f : PriorityFlags) : PriorityFlags :=
  match operation with
  | .setPriority d high => f.set d high
  | _ => f

theorem Stance.released_flags (v : Stance) : v.released.flags = v.flags := by
  unfold Stance.released
  split <;> rfl

namespace Engine

variable {v w : Stance} {t : List Sighting} {d : Direction}

theorem Negotiates.flags_eq {x : Except Halt Unit} (h : Negotiates d v x t w)
    (hends : x ≠ .error .endless) : w.flags = v.flags := by
  rcases h with ⟨first, rest⟩ | first
  · obtain rfl : _ = v := first.stance_eq nofun
    rcases rest with ⟨pause, settles⟩ | pause
    · obtain rfl := Pauses.stance_eq pause
      cases settles with
      | grants | unread => rfl
      | refuses high denies releases =>
        rw [releases.stance_eq, Stance.released_flags]
        rfl
    · cases pause
      exact absurd rfl hends
  · rw [first.stance_eq hends]
    split
    · rfl
    · exact Stance.released_flags v

/-- No operation changes the flags but the one that sets them. -/
theorem Performs.flags_eq {operation : Operation} {x : Except Halt (Option DenyState)}
    (h : Performs operation v x t w) (hends : x ≠ .error .endless) :
    w.flags = operation.flagsAfter v.flags := by
  cases operation with
  | enable | setPriority | resetStatistics =>
    obtain ⟨-, -, rfl⟩ := h
    rfl
  | disable =>
    obtain ⟨y, disables, -⟩ := h
    cases disables with
    | releases releases | endless releases =>
      rw [releases.stance_eq]
      exact Stance.released_flags v
  | request d =>
    obtain ⟨y, requests, rfl⟩ := h
    cases requests with
    | grants | passes => rfl
    | negotiates matters enabled turns negotiates =>
      exact (negotiates.flags_eq (ne_endless_of_map rfl hends)).trans (Stance.turn_flags _ d)
  | change d =>
    obtain ⟨y, changes, -⟩ := h
    cases changes with
    | passes | refuses => rfl
    | signals enabled holds signals =>
      rw [signals.stance_eq]
      rfl
  | release =>
    obtain ⟨y, releases, -⟩ := h
    rw [releases.stance_eq]
    exact Stance.released_flags v
  | denyState =>
    obtain ⟨y, reads, -⟩ := h
    rcases reads with ⟨tx, z, rx, -⟩ | tx
    · rw [rx.quiet.2, tx.quiet.2]
      rfl
    · rw [tx.quiet.2]
      rfl

theorem Interrupts.flags_eq {x : Except Halt (Option Event)} (h : Interrupts d v x t w) :
    w.flags = v.flags := by
  cases h <;> rfl

theorem Prepares.flags_eq (h : Prepares v (.ok ()) t w) : w.flags = v.flags := by
  cases h with
  | readies valid tick releases =>
    rw [releases.stance_eq]
    exact Stance.released_flags _

/-- A change of direction is refused only if no access is held. -/
theorem Changes.idle_of_denied (h : Changes d v (.error (.fault .denied)) t w) (hlands : Lands t) :
    v.held = none := by
  cases h with
  | refuses enabled idle => exact idle
  | signals enabled holds signals => cases (signals.eq_of_lands hlands nofun).1

/-- The messages of an operation depend on its result only as far as that is a denial. -/
theorem Operation.messages_congr (operation : Operation) (v : Stance)
    {x y : Except Halt (Option DenyState)}
    (h : x = .error (.fault .denied) ↔ y = .error (.fault .denied)) :
    operation.messages v x = operation.messages v y := by
  cases operation with
  | request d => simp only [messages, h]
  | _ => rfl

end Engine

end Coexistence

namespace Station

open Coexistence

variable {σ κ : Type}

/-- The flags in force after a moment. -/
def Cue.flagsAfter (k : Cue σ κ) (f : PriorityFlags) : PriorityFlags :=
  match k with
  | .call (.install config _) => config.defaultPriority
  | .call (.engine operation) => operation.flagsAfter f
  | _ => f

/-- The flags in force after some moments of a session, which begins with an installation. -/
def flagsAfter (session : List (Moment σ κ)) : PriorityFlags :=
  session.foldl (fun f m => m.cue.flagsAfter f) .none

theorem flagsAfter_append_singleton (session : List (Moment σ κ)) (m : Moment σ κ) :
    flagsAfter (session ++ [m]) = m.cue.flagsAfter (flagsAfter session) := by
  rw [flagsAfter, List.foldl_append]
  rfl

/-! ## The messages of a moment -/

/-- An operation ended in a denial. -/
def Progress.isDenied : Progress σ → Bool
  | .finished (.failed .denied) => true
  | _ => false

variable [Clock κ]

/-- The messages that are sent at a moment: they depend on where the engine stood before it, and on
whether it ended in a denial. -/
def Moment.messages (m : Moment σ κ) : List UInt8 :=
  match m.cue, m.before.engine with
  | .call (.install ..), _ => [Message.release]
  | .call (.engine operation), some e => operation.messages e.stance
      (if m.reaction.progress.isDenied then .error (.fault .denied) else .ok none)
  | _, _ => []

/-- A call of an operation is a performance of the engine, which ends as the leg does. -/
theorem performs_of_cue {m : Moment σ κ} {operation : Engine.Operation}
    (hcue : m.cue = .call (.engine operation)) {e₀ e : Engine κ}
    (he₀ : m.before.engine = some e₀) (he : m.reaction.station.engine = some e) :
    ∃ x, Engine.Performs operation e₀.stance x m.reaction.sightings e.stance ∧
      (x = .error .endless → m.reaction.progress.isEndless = true) ∧
      (x = .error (.fault .denied) ↔ m.reaction.progress.isDenied = true) := by
  obtain ⟨cue, before⟩ := m
  obtain rfl : cue = _ := hcue
  obtain ⟨x, e', performs, engine, progress⟩ := performs_operate he₀ operation
  change (before.operate operation).station.engine = some e at he
  obtain rfl := Option.some.inj (engine.symm.trans he)
  refine ⟨x, performs, ?_, ?_⟩
  · rintro rfl
    change (before.operate operation).progress.isEndless = true
    rw [progress]
    rfl
  · change _ ↔ (before.operate operation).progress.isDenied = true
    rw [progress]
    rcases x with ((_ | _ | _ | _) | _) | _ | _ <;>
      simp [outcomeOf, Progress.isDenied, Outcome.ofHalt]

/-- Nothing is said at a moment but by an installation or an operation of the engine, and the flags
stay. -/
theorem messages_of_other {m : Moment σ κ} (hstays : m.cue.installs = false)
    (hother : ∀ operation, m.cue ≠ .call (.engine operation)) (f : PriorityFlags) :
    m.messages = [] ∧ m.cue.flagsAfter f = f := by
  obtain ⟨cue, before⟩ := m
  cases cue with
  | answer => exact ⟨rfl, rfl⟩
  | call c =>
    cases c with
    | install => cases hstays
    | engine operation => exact absurd rfl (hother operation)
    | arbiter | throughEngine | interrupt | disturb => exact ⟨rfl, rfl⟩

/-- At a moment at which the engine stays it puts the frames of its messages on the line. -/
theorem levels_of_stays {m : Moment σ κ} (hlands : Lands m.reaction.sightings)
    (hends : m.reaction.progress.isEndless = false) (hstays : m.cue.installs = false)
    {e₀ e : Engine κ} (he₀ : m.before.engine = some e₀) (he : m.reaction.station.engine = some e) :
    drivenLevels m.reaction.sightings = m.messages.flatMap Frame.levels ∧
      e.flags = m.cue.flagsAfter e₀.flags := by
  by_cases hoperates : ∃ operation, m.cue = .call (.engine operation)
  · obtain ⟨operation, hcue⟩ := hoperates
    obtain ⟨x, performs, endless, denied⟩ := performs_of_cue hcue he₀ he
    have hended : x ≠ .error .endless := fun hx =>
      Bool.false_ne_true (hends.symm.trans (endless hx))
    have hmessages : m.messages = operation.messages e₀.stance x := by
      unfold Moment.messages
      rw [hcue, he₀]
      refine operation.messages_congr _ ?_
      rw [denied]
      split <;> simp_all
    rw [hmessages, hcue]
    exact ⟨(Engine.tells_of_performs performs hlands hended).levels, performs.flags_eq hended⟩
  · have hother := not_exists.mp hoperates
    obtain ⟨hmessages, hflags⟩ := messages_of_other hstays hother e₀.flags
    rw [hmessages, hflags]
    have touches := touches_reaction m
    rw [he₀] at touches
    generalize m.cue = k, hengine : some e₀ = before at touches hstays hother
    cases touches with
    | leaves others engine logged =>
      obtain rfl := Option.some.inj (hengine.trans (engine.symm.trans he))
      exact ⟨drivenLevels_of_logged logged, rfl⟩
    | installs | removes => cases hstays
    | operates => exact absurd rfl (hother _)
    | @interrupts line e₁ e' x t u r interrupts sightings logged engine =>
      obtain rfl := Option.some.inj hengine
      obtain rfl := Option.some.inj (engine.symm.trans he)
      rw [sightings, drivenLevels_append, drivenLevels_of_logged logged, List.append_nil]
      exact ⟨interrupts.tells.levels, interrupts.flags_eq⟩
    | disturbs silent engine =>
      obtain rfl := Option.some.inj hengine
      obtain rfl := Option.some.inj (engine.symm.trans he)
      rw [silent]
      exact ⟨rfl, rfl⟩

/-- A change of direction that is refused says nothing. -/
theorem messages_of_refused {m : Moment σ κ} (hlands : Lands m.reaction.sightings)
    {d : Direction} (hcue : m.cue = .call (.engine (.change d)))
    (hdenied : m.reaction.progress.isDenied = true) {e₀ e : Engine κ}
    (he₀ : m.before.engine = some e₀) (he : m.reaction.station.engine = some e) :
    m.messages = [] := by
  obtain ⟨x, ⟨y, changes, hx⟩, endless, denied⟩ := performs_of_cue hcue he₀ he
  obtain rfl := Engine.map_eq_denied.mp (hx.symm.trans (denied.mpr hdenied))
  have hidle : e₀.held = none := changes.idle_of_denied hlands
  unfold Moment.messages
  rw [hcue, he₀]
  exact if_neg fun h => h.2 hidle

/-! ## The whole history -/

/-- The history of the request line in a session. -/
structure Transcribed (session : List (Moment σ κ)) (e : Engine κ) : Prop where
  /-- One high level, and then the frames of all messages. -/
  levels : drivenLevels (session.flatMap fun m => m.reaction.sightings) =
    true :: (session.flatMap Moment.messages).flatMap Frame.levels
  /-- The messages of a moment report the flags that were in force when it began. -/
  inForce : ∀ older m, older ++ [m] <+: session → older ≠ [] →
    ∃ e₀, m.before.engine = some e₀ ∧ e₀.flags = flagsAfter older
  /-- A change of direction that is refused says nothing. -/
  refused : ∀ m ∈ session, ∀ d, m.cue = .call (.engine (.change d)) →
    m.reaction.progress.isDenied = true → m.messages = []
  /-- The flags that are in force now. -/
  flags : e.flags = flagsAfter session

/-- No write of the request line failed at a moment, and every wait ended. -/
def Moment.Lands (m : Moment σ κ) : Prop :=
  Coexistence.Lands m.reaction.sightings ∧ m.reaction.progress.isEndless = false

instance (m : Moment σ κ) : Decidable m.Lands :=
  inferInstanceAs (Decidable (Coexistence.Lands _ ∧ _ = _))

/-- The history of the line begins with the release of a new engine. -/
theorem transcribed_of_installs {m : Moment σ κ} (hm : m.Lands) (hinstalls : m.cue.installs = true)
    {e : Engine κ} (he : m.reaction.station.engine = some e) : Transcribed [m] e := by
  obtain ⟨config, rig, hcue, prepares⟩ := prepares_of_installs hinstalls he
  have hmessages : m.messages = [Message.release] := by
    unfold Moment.messages
    rw [hcue]
  constructor
  case levels =>
    rw [List.flatMap_singleton, List.flatMap_singleton, hmessages, List.flatMap_singleton]
    exact (prepares.of_ok hm.1).1
  case inForce =>
    intro older m' hprefix holder
    have hlength := hprefix.length_le
    simp only [List.length_append, List.length_singleton] at hlength
    exact absurd (List.eq_nil_of_length_eq_zero (by omega)) holder
  case refused =>
    intro m' hm' d hchange
    rw [List.mem_singleton.mp hm', hcue] at hchange
    cases hchange
  case flags =>
    rw [flagsAfter, List.foldl_cons, List.foldl_nil, hcue]
    exact prepares.flags_eq

/-- Every later moment adds its messages to the history. -/
theorem Transcribed.append {session : List (Moment σ κ)} {m : Moment σ κ} {e₀ e : Engine κ}
    (h : Transcribed session e₀) (hm : m.Lands) (hstays : m.cue.installs = false)
    (he₀ : m.before.engine = some e₀) (he : m.reaction.station.engine = some e) :
    Transcribed (session ++ [m]) e := by
  obtain ⟨hlands, hends⟩ := hm
  obtain ⟨hlevels, hflags⟩ := levels_of_stays hlands hends hstays he₀ he
  constructor
  case levels =>
    simp only [List.flatMap_append, List.flatMap_singleton, drivenLevels_append]
    rw [h.levels, hlevels]
    rfl
  case inForce =>
    intro older m' hprefix holder
    rcases List.prefix_concat_iff.mp hprefix with heq | hbefore
    · obtain ⟨rfl, hlast⟩ := List.append_inj' heq rfl
      obtain rfl := List.singleton_inj.mp hlast
      exact ⟨e₀, he₀, h.flags⟩
    · exact h.inForce older m' hbefore holder
  case refused =>
    intro m' hm' d hchange hdenied
    rcases List.mem_append.mp hm' with hold | hnew
    · exact h.refused m' hold d hchange hdenied
    · obtain rfl := List.mem_singleton.mp hnew
      exact messages_of_refused hlands hchange hdenied he₀ he
  case flags =>
    rw [flagsAfter_append_singleton, hflags, h.flags]

/-- Whoever hears the line takes these messages off it, and no frame is under way. -/
theorem Transcribed.heard {session : List (Moment σ κ)} {e : Engine κ} (h : Transcribed session e) :
    (Station.heard (session.flatMap fun m => m.reaction.sightings)).bytes =
        session.flatMap Moment.messages ∧
      (Station.heard (session.flatMap fun m => m.reaction.sightings)).started = [] := by
  rw [Station.heard, h.levels, Receiver.hearAll_idle rfl, Receiver.hearAll_frames rfl]
  refine ⟨?_, rfl⟩
  simp [Receiver.bytes, List.map_map, Function.comp_def]

/-- **All that is said on the request line are the messages of the operations, in order.** As long
as every write has landed and every wait has ended since the engine was made, the line was driven to
one high level and then to the frames of the messages, the flags in them being those that were in
force when the operation began. The messages are given bit by bit. -/
theorem transcribed_play (preemption : Bool) (moves : List (Move σ κ)) {e : Engine κ}
    (hlands : ∀ m ∈ (Run.play preemption moves).session, m.Lands)
    (he : (Run.play preemption moves).station.engine = some e) :
    Transcribed (Run.play preemption moves).session e ∧
      ((heard (Run.play preemption moves).sightings).bytes =
          (Run.play preemption moves).session.flatMap Moment.messages ∧
        (heard (Run.play preemption moves).sightings).started = []) ∧
      (∀ (f : PriorityFlags) (i : Nat), (Message.priority f).toNat.testBit i =
        decide (i = 0 ∧ f.rx = true ∨ i = 2 ∧ f.tx = true ∨ 5 ≤ i ∧ i < 8)) ∧
      ∀ (d : Direction) (i : Nat), (Message.request d).toNat.testBit i =
        decide (i = match d with | .tx => 2 | .rx => 3) := by
  suffices h : Transcribed (Run.play preemption moves).session e from
    ⟨h, h.heard, Message.testBit_priority, Message.testBit_request⟩
  refine Run.session_induction (P := fun session e => (∀ m ∈ session, m.Lands) →
    Transcribed session e) ?begins ?goesOn preemption moves he hlands
  case begins =>
    intro m e hinstalls he hlands
    exact transcribed_of_installs (hlands m (List.mem_singleton_self m)) hinstalls he
  case goesOn =>
    intro session m e₀ e ih hstays he₀ he hlands
    have hbefore := ih fun m' hm' => hlands m' (List.mem_append_left _ hm')
    exact hbefore.append (hlands m (by simp)) hstays he₀ he

/-- With both flags set, access to transmit is denied and access to receive is granted. It is
changed to transmitting, then a request cannot read its deny line, and at last the engine is
disabled. Requests to change before any access, and to receive while the engine is disabled, come to
nothing. -/
def contested : List (Move Unit DualClock) :=
  [.call (.install { bitTicks := 1, guardMicros := 1, sampleMicros := 1 }
      { txDeny := { high := true }, clock := { patience := 2 } }),
    .call (.engine (.setPriority .rx true)), .call (.engine (.change .rx)),
    .call (.engine (.request .tx)), .call (.engine (.request .rx)), .call (.engine (.change .tx)),
    .call (.disturb fun rig => { rig with txDeny.queued := [none] }),
    .call (.engine (.request .tx)), .call (.engine .disable), .call (.engine (.request .rx))]

/-- The messages of this history, byte by byte. -/
theorem transcribed_play_contested :
    (∀ m ∈ (Run.play true contested).session, m.Lands) ∧
      ∃ e, (Run.play true contested).station.engine = some e ∧
        Transcribed (Run.play true contested).session e ∧
        (heard (Run.play true contested).sightings).bytes =
          [0xE0, 0xE5, 0x04, 0xE0, 0xE5, 0x08, 0xE5, 0x04, 0xE5, 0x04, 0xE0] := by
  have hlands : ∀ m ∈ (Run.play true contested).session, m.Lands := by decide +kernel
  have hengine : (Run.play true contested).station.engine.isSome = true := by decide +kernel
  have hmessages : (Run.play true contested).session.flatMap Moment.messages =
      [0xE0, 0xE5, 0x04, 0xE0, 0xE5, 0x08, 0xE5, 0x04, 0xE5, 0x04, 0xE0] := by decide +kernel
  obtain ⟨e, he⟩ := Option.isSome_iff_exists.mp hengine
  obtain ⟨htranscribed, ⟨hbytes, -⟩, -⟩ := transcribed_play true contested hlands he
  exact ⟨hlands, e, he, htranscribed, hbytes.trans hmessages⟩

end Station

end SharedRadio
