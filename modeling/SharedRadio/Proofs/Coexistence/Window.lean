import SharedRadio.Proofs.Coexistence.Passage
import SharedRadio.Proofs.Coexistence.Watch

/-!
# The guard pause and the sample window

A request that is signalled makes two pauses: one between its two messages, and one before its
answer is read off the deny line. What is noticed in its course is an `Exchange`, which says in
which order all this happens; it is read off the course of a request. How long the pauses are is
known from `Elapses`. `request_windows` puts the two together for a clock whose microseconds wrap
around.
-/

namespace SharedRadio.Coexistence

open Counter (passed)

/-! ## What is noticed of a request -/

/-- A read of a deny line, with success or not. -/
def Sighting.isSample : Sighting → Bool
  | .sampled _ _ => true
  | _ => false

/-- A sighting that belongs to no pause, and is no read of a deny line. -/
def Sighting.IsSilent (s : Sighting) : Prop := s.isSample = false ∧ s.isTiming = false

/-- Nothing but writes of the request line is noticed, and they are the frame of a byte. -/
structure Carries (byte : UInt8) (t : List Sighting) : Prop where
  writes : ∀ s ∈ t, s.isWrite = true
  levels : drivenLevels t = Frame.levels byte

/-- A pause that ended: the timestamp that it was measured from, how often the time was read off
then, and the last result. -/
structure Pause where
  since : UInt32
  reads : Nat
  last : UInt32
  deriving DecidableEq

/-- What is noticed of a pause. -/
def Pause.sightings (p : Pause) : List Sighting :=
  [.stamped p.since, .waited p.since p.reads p.last]

/-- What is noticed of a request that is signalled and answered, in order. -/
structure Exchange where
  /-- Another deny line may have to be turned to. -/
  turned : List Sighting
  /-- The message of the priority flags. -/
  priority : List Sighting
  /-- The pause after it. -/
  guard : Pause
  /-- The message of the direction. -/
  request : List Sighting
  /-- The pause after it. -/
  window : Pause
  /-- What was read off the deny line, if it could be read. -/
  reading : Option Bool
  /-- What was done then. -/
  settled : List Sighting

namespace Exchange

/-- All that is noticed of a request in a direction. -/
def sightings (x : Exchange) (d : Direction) : List Sighting :=
  x.turned ++ (x.priority ++ (x.guard.sightings ++ (x.request ++ (x.window.sightings ++
    .sampled d x.reading :: x.settled))))

/-- The messages are those of a request, and nothing else is timed or read off a deny line. -/
structure Regular (x : Exchange) (f : PriorityFlags) (d : Direction) : Prop where
  turned : ∀ s ∈ x.turned, s.IsSilent ∧ s.isWrite = false
  priority : Carries (Message.priority f) x.priority
  request : Carries (Message.request d) x.request
  settled : ∀ s ∈ x.settled, s.IsSilent

end Exchange

/-- The last level that was written is held for ever. -/
def HeldForever {α : Type} (x : Except Engine.Halt α) (t : List Sighting) : Prop :=
  x = .error .endless ∧ ∃ earlier level tick, t = earlier ++ [.wrote level true tick]

/-- What is noticed of something that does not end. -/
inductive Stalls : List Sighting → Prop
  /-- A level is held for ever. -/
  | held (t : List Sighting) (level : Bool) (tick : UInt32) : Stalls (t ++ [.wrote level true tick])
  /-- A pause never ends. -/
  | paused (t : List Sighting) (now : UInt32) : Stalls (t ++ [.stamped now])

theorem Stalls.append {u : List Sighting} (h : Stalls u) (t : List Sighting) : Stalls (t ++ u) := by
  cases h with
  | held u level tick =>
    rw [← List.append_assoc]
    exact .held (t ++ u) level tick
  | paused u now =>
    rw [← List.append_assoc]
    exact .paused (t ++ u) now

theorem Stalls.cons {u : List Sighting} (h : Stalls u) (s : Sighting) : Stalls (s :: u) :=
  h.append [s]

/-- Either a level is held, or the last that is noticed of the pauses is a timestamp. -/
theorem Stalls.held_or_paused {t : List Sighting} (h : Stalls t) :
    (∃ earlier level tick, t = earlier ++ [.wrote level true tick]) ∨
      ∃ now, (timings t).getLast? = some (.stamped now) := by
  cases h with
  | held t level tick => exact .inl ⟨t, level, tick, rfl⟩
  | paused t now =>
    right
    use now
    rw [timings_append]
    exact List.getLast?_concat

theorem Sighting.isSilent_of_isWrite {s : Sighting} (h : s.isWrite = true) : s.IsSilent := by
  cases s with
  | wrote level landed tick => exact ⟨rfl, rfl⟩
  | _ => cases h

namespace Rig

variable {levels : List Bool} {v w : Direction → Bool} {x : Except Halt Unit} {t : List Sighting}

theorem Transmits.isWrite_of_mem (h : Transmits levels v x t w) : ∀ s ∈ t, s.isWrite = true := by
  induction h with
  | done => exact nofun
  | held tick more ih => exact List.forall_mem_cons.mpr ⟨rfl, ih⟩
  | cut tick | endless tick => exact List.forall_mem_singleton.mpr rfl

theorem Transmits.stalls (h : Transmits levels v (.error .endless) t w) : Stalls t := by
  generalize hx : Except.error Halt.endless = x at h
  induction h with
  | done | cut => cases hx
  | held tick more ih => exact (ih hx).cons _
  | @endless v level rest tick => exact .held [] level tick

end Rig

namespace Engine

variable {v w : Stance} {d : Direction} {x : Except Halt Unit} {t : List Sighting}

/-! ### Messages -/

theorem Sends.isSilent_of_mem {byte : UInt8} (h : Sends byte v x t w) : ∀ s ∈ t, s.IsSilent := by
  cases h with
  | ok h | endless h =>
    exact fun s hs => Sighting.isSilent_of_isWrite (h.isWrite_of_mem s hs)
  | fault h =>
    refine List.forall_mem_append.mpr ⟨fun s hs => ?_, List.forall_mem_singleton.mpr ⟨rfl, rfl⟩⟩
    exact Sighting.isSilent_of_isWrite (h.isWrite_of_mem s hs)

theorem Sends.carries {byte : UInt8} (h : Sends byte v x t w) (hlands : Lands t)
    (hends : x ≠ .error .endless) : Carries byte t := by
  refine ⟨?_, (Sends.eq_of_lands h hlands hends).2.2⟩
  cases h with
  | ok h | endless h => exact h.isWrite_of_mem
  | fault h =>
    have hx := (h.eq_of_lands (lands_append.mp hlands).1 nofun).1
    cases hx

theorem Sends.stalls {byte : UInt8} (h : Sends byte v (.error .endless) t w) : Stalls t := by
  cases h with
  | endless h => exact h.stalls

theorem Pauses.stalls (h : Rig.Pauses Halt.endless v (.error .endless) t w) : Stalls t := by
  cases h with
  | endless since => exact .paused [] since

theorem Pauses.exists_eq (h : Rig.Pauses Halt.endless v (.ok ()) t w) :
    ∃ p : Pause, t = p.sightings := by
  cases h with
  | ends since reads last => exact ⟨⟨since, reads, last⟩, rfl⟩

/-- A request that is signalled is two messages with a pause between them. -/
theorem Signals.exists_eq (h : Signals d v (.ok ()) t w) (hlands : Lands t) :
    ∃ priority request, ∃ guard : Pause, t = priority ++ (guard.sightings ++ request) ∧
      Carries (Message.priority v.flags) priority ∧ Carries (Message.request d) request := by
  obtain ⟨first, rest⟩ := h
  obtain ⟨pause, second⟩ := rest
  obtain ⟨guard, rfl⟩ := Pauses.exists_eq pause
  have hrest := (lands_append.mp (lands_append.mp hlands).2).2
  exact ⟨_, _, guard, rfl, Sends.carries first (lands_append.mp hlands).1 nofun,
    Sends.carries second hrest nofun⟩

theorem Signals.stalls (h : Signals d v (.error .endless) t w) : Stalls t := by
  rcases h with ⟨first, rest⟩ | first
  · rcases rest with ⟨pause, second⟩ | pause
    · exact ((Sends.stalls second).append _).append _
    · exact (Pauses.stalls pause).append _
  · exact Sends.stalls first

/-! ### Requests -/

/-- If every write lands, no release is attempted instead of a request. -/
theorem SignalsOrReleases.signals (h : SignalsOrReleases d v x t w) (hlands : Lands t) :
    Signals d v x t w := by
  cases h with
  | signalled signals | endless signals => exact signals
  | released signals releases | releasesForever signals releases =>
    have hx := (signals.eq_of_lands (lands_append.mp hlands).1 nofun).1
    cases hx

theorem Releases.isSilent_of_mem (h : Releases v x t w) : ∀ s ∈ t, s.IsSilent := by
  cases h with
  | passes disabled => exact nofun
  | signals enabled sends =>
    exact List.forall_mem_cons.mpr ⟨⟨rfl, rfl⟩, Sends.isSilent_of_mem sends⟩

theorem Releases.stalls (h : Releases v (.error .endless) t w) : Stalls t := by
  cases h with
  | signals enabled sends => exact (Sends.stalls sends).cons _

/-- An answer is read off the deny line first of all, and only once. -/
theorem Settles.exists_eq (h : Settles d v x t w) :
    ∃ reading settled, t = .sampled d reading :: settled ∧ ∀ s ∈ settled, s.IsSilent := by
  cases h with
  | grants high passes =>
    exact ⟨some high, _, rfl, List.forall_mem_cons.mpr
      ⟨⟨rfl, rfl⟩, List.forall_mem_singleton.mpr ⟨rfl, rfl⟩⟩⟩
  | refuses high denies releases =>
    exact ⟨some high, _, rfl, List.forall_mem_cons.mpr ⟨⟨rfl, rfl⟩, releases.isSilent_of_mem⟩⟩
  | unread => exact ⟨none, _, rfl, List.forall_mem_singleton.mpr ⟨rfl, rfl⟩⟩

theorem Settles.stalls (h : Settles d v (.error .endless) t w) : Stalls t := by
  generalize hx : (Except.error Halt.endless : Except Halt Unit) = x at h
  cases h with
  | grants | unread => cases hx
  | @refuses _ _ y _ high denies releases =>
    obtain rfl : y = .error .endless := by
      cases y with
      | ok => cases hx
      | error halt => exact hx.symm
    exact (releases.stalls.cons _).cons _

theorem eq_error_of_map {α β : Type} {x : Except Halt α} {y : Except Halt β} {f : β → α}
    (hx : x = y.map f) {h : Halt} (herror : x = .error h) : y = .error h := by
  rw [herror] at hx
  cases y with
  | ok b => cases hx
  | error halt => exact congrArg _ (Except.error.inj hx).symm

/-- A request that does not end stalls. -/
theorem Requests.stalls (h : Requests d v (.error .endless) t w) (hlands : Lands t) :
    Stalls t := by
  cases h with
  | negotiates matters enabled turns negotiates =>
    have hlands' := (lands_append.mp hlands).2
    refine Stalls.append ?_ _
    rcases negotiates with ⟨first, rest⟩ | first
    · refine Stalls.append ?_ _
      rcases rest with ⟨pause, settles⟩ | pause
      · exact settles.stalls.append _
      · exact Pauses.stalls pause
    · exact (first.signals hlands').stalls

/-- **What is noticed of a request**, if it is signalled, every write lands and it ends. -/
theorem Requests.exists_exchange (h : Requests d v x t w) (henabled : v.enabled = true)
    (hmatters : ¬ (d = .rx ∧ v.flags.rx = false)) (hlands : Lands t)
    (hends : x ≠ .error .endless) :
    ∃ y : Exchange, t = y.sightings d ∧ y.Regular v.flags d := by
  cases h with
  | grants low => exact absurd low hmatters
  | passes matters disabled => exact Bool.noConfusion (henabled.symm.trans disabled)
  | @negotiates _ _ _ turned _ matters enabled turns negotiates =>
    have hturned : ∀ s ∈ turned, s.IsSilent ∧ s.isWrite = false := by
      rw [turns]
      split
      · exact nofun
      · exact List.forall_mem_singleton.mpr ⟨⟨rfl, rfl⟩, rfl⟩
    have hlands' := (lands_append.mp hlands).2
    rcases negotiates with ⟨first, rest⟩ | first
    · have hfirst := (lands_append.mp hlands').1
      obtain ⟨priority, request, guard, rfl, hpriority, hrequest⟩ :=
        (first.signals hfirst).exists_eq hfirst
      rw [Stance.turn_flags] at hpriority
      rcases rest with ⟨pause, settles⟩ | ⟨⟨since⟩⟩
      · obtain ⟨window, rfl⟩ := Pauses.exists_eq pause
        obtain ⟨reading, settled, rfl, hsettled⟩ := settles.exists_eq
        refine ⟨⟨turned, priority, guard, request, window, reading, settled⟩, ?_,
          hturned, hpriority, hrequest, hsettled⟩
        simp [Exchange.sightings]
      · exact absurd rfl hends
    · -- A request that is not signalled has a write that failed.
      have hx := (first.eq_of_lands hlands' hends).1
      cases hx

end Engine

namespace Exchange.Regular

variable {y : Exchange} {f : PriorityFlags} {d : Direction}

/-- Apart from the pauses and the read of the deny line an exchange is silent. -/
theorem filter_eq (h : y.Regular f d) {p : Sighting → Bool}
    (hp : ∀ s : Sighting, s.IsSilent → p s = false) :
    (y.sightings d).filter p =
      y.guard.sightings.filter p ++ (y.window.sightings.filter p ++
        [Sighting.sampled d y.reading].filter p) := by
  have hnone {t : List Sighting} (ht : ∀ s ∈ t, s.IsSilent) : t.filter p = [] :=
    List.filter_eq_nil_iff.mpr fun s hs => by simp [hp s (ht s hs)]
  have hturned := hnone fun s hs => (h.turned s hs).1
  have hpriority := hnone fun s hs => Sighting.isSilent_of_isWrite (h.priority.writes s hs)
  have hrequest := hnone fun s hs => Sighting.isSilent_of_isWrite (h.request.writes s hs)
  have hsettled := hnone h.settled
  simp only [sightings, List.filter_append, hturned, hpriority, hrequest, List.nil_append]
  rw [← List.singleton_append, List.filter_append, hsettled, List.append_nil]

/-- What is noticed of the pauses in an exchange. -/
theorem timings_eq (h : y.Regular f d) :
    timings (y.sightings d) = y.guard.sightings ++ y.window.sightings := by
  rw [timings, h.filter_eq fun s hs => hs.2]
  rfl

/-- The deny line is read once in an exchange. -/
theorem filter_isSample_eq (h : y.Regular f d) :
    (y.sightings d).filter Sighting.isSample = [.sampled d y.reading] := by
  rw [h.filter_eq fun s hs => hs.1]
  rfl

end Exchange.Regular

/-! ## How long the pauses are -/

/-- A pause lasts some microseconds, by a counter that goes on with some pace. The counter is as it
was when the timestamp was taken. -/
structure Pause.Spans (p : Pause) (c : Counter) (pace : Nat → Nat) (most : Nat) (micros : UInt32) :
    Prop where
  /-- The timestamp is a read of the counter. -/
  since_eq : p.since = c.value
  /-- The time is read off at least once. -/
  reads_pos : 0 < p.reads
  /-- The last result is the time that has passed, as far as 32 bits show it. -/
  last_eq : p.last = UInt32.ofNat (passed pace c.reads (c.reads + p.reads))
  /-- From the timestamp to the last read it is not too short. -/
  le_passed : micros.toNat ≤ passed pace c.reads (c.reads + p.reads)
  /-- It is not too long either. -/
  passed_le : passed pace c.reads (c.reads + p.reads) ≤ micros.toNat - 1 + most

namespace Elapses

variable {bitTicks : UInt32} {pauses : List UInt32} {c c' : DualClock} {x : Ending}
  {t : List Sighting} {pace : Nat → Nat} {most : Nat}

/-- No pause is endless as long as its window cannot be jumped over. -/
theorem getLast?_ne (h : Elapses bitTicks pauses c x t c') (hpaced : c.micros.Paced pace most)
    (hwindow : ∀ micros ∈ pauses, most + micros.toNat ≤ 2 ^ 32)
    (hpatience : UInt32.size ≤ c.patience) (now : UInt32) : t.getLast? ≠ some (.stamped now) := by
  let I (c : DualClock) : Prop := c.micros.Paced pace most ∧ UInt32.size ≤ c.patience
  have hticks (c : DualClock) (hc : I c) : I (Clock.ticks c).2 := hc
  have hc : I c := ⟨hpaced, hpatience⟩
  clear hpaced hpatience
  induction h with
  | done | fails | held => exact nofun
  | tick rest ih => exact ih hwindow (hticks _ hc)
  | bit waits rest ih => exact ih hwindow (Clock.awaitTicks_keeps hticks waits (hticks _ hc))
  | @pause micros pauses c c₁ c' p x t waits rest ih =>
    obtain ⟨n, -, hends, -⟩ :=
      DualClock.exists_awaitMicros_eq hc.1 (hwindow micros List.mem_cons_self)
        (Clock.patient_of_size_le hc.2 micros)
    obtain rfl := congrArg Prod.snd (hends.symm.trans waits)
    have hrest := ih (fun m hm => hwindow m (List.mem_cons_of_mem _ hm)) ⟨hc.1.after _, hc.2⟩
    cases t with
    | nil => exact nofun
    | cons s t => exact hrest
  | @paused micros pauses c c' waits =>
    obtain ⟨n, -, hends, -⟩ :=
      DualClock.exists_awaitMicros_eq hc.1 (hwindow micros List.mem_cons_self)
        (Clock.patient_of_size_le hc.2 micros)
    cases congrArg Prod.fst (hends.symm.trans waits)

/-- A pause that is noticed lasts as long as it should. -/
theorem exists_spans {micros : UInt32} {p : Pause}
    (h : Elapses bitTicks (micros :: pauses) c x (p.sightings ++ t) c')
    (hpaced : c.micros.Paced pace most) (hwindow : most + micros.toNat ≤ 2 ^ 32)
    (hpatience : UInt32.size ≤ c.patience) :
    p.Spans c.micros pace most micros ∧
      ∃ c₁, c₁.micros = c.micros.after (p.reads + 1) ∧ c₁.patience = c.patience ∧
        Elapses bitTicks pauses c₁ x t c' := by
  obtain ⟨b, c₁, ⟨hmicros, hkept⟩, hsince, -, hwaits, hrest⟩ :=
    h.exists_of_waited (I := fun b => b.micros = c.micros ∧ b.patience = c.patience)
      (fun _ hb => hb) ⟨rfl, rfl⟩
  rw [← hmicros] at hpaced
  rw [← hkept] at hpatience
  obtain ⟨n, hpos, hends, hle, hsoon⟩ :=
    DualClock.exists_awaitMicros_eq hpaced hwindow (Clock.patient_of_size_le hpatience micros)
  rw [hmicros] at hle hsoon
  obtain ⟨hpolled, rfl⟩ := Prod.mk.inj (hends.symm.trans hwaits)
  obtain ⟨rfl, hlast⟩ := Clock.Polled.mk.inj (Option.some.inj hpolled)
  rw [hmicros] at hlast
  refine ⟨⟨hsince.trans (congrArg Counter.value hmicros), hpos, hlast.symm, hle, hsoon⟩,
    { b with micros := b.micros.after (p.reads + 1) }, ?_, hkept, hrest⟩
  show b.micros.after _ = _
  rw [hmicros]

end Elapses

namespace Engine

/-- **Both pauses of a request last as long as they should**, wherever the counter of microseconds
stands and whether it wraps around or not. If every level is waited out and lands, then both pauses
end. The one after the message of the priority flags is over before the message of the direction
begins, and the one after that is over when the deny line is read, which happens once. -/
theorem request_windows (e : Engine DualClock) (d : Direction) (henabled : e.enabled = true)
    (hmatters : ¬ (d = .rx ∧ e.flags.rx = false)) {pace : Nat → Nat} {most : Nat}
    (hpaced : e.rig.clock.micros.Paced pace most)
    (hwindow : most + max e.config.guardMicros.toNat e.config.sampleMicros.toNat ≤ 2 ^ 32)
    (hpatience : UInt32.size ≤ e.rig.clock.patience)
    (hlands : Lands (e.act (.perform (.request d))).2.1)
    (hbits : ¬ HeldForever (e.act (.perform (.request d))).1
      (e.act (.perform (.request d))).2.1) :
    (e.act (.perform (.request d))).1 ≠ .error .endless ∧
      ∃ y : Exchange, (e.act (.perform (.request d))).2.1 = y.sightings d ∧ y.Regular e.flags d ∧
        (e.act (.perform (.request d))).2.1.filter Sighting.isSample = [.sampled d y.reading] ∧
        y.guard.Spans e.rig.clock.micros pace most e.config.guardMicros ∧
        y.window.Spans (e.rig.clock.micros.after (y.guard.reads + 1)) pace most
          e.config.sampleMicros ∧
        (e.act (.perform (.request d))).2.2.rig.clock.micros =
          e.rig.clock.micros.after (y.guard.reads + 1 + (y.window.reads + 1)) := by
  have hguard : most + e.config.guardMicros.toNat ≤ 2 ^ 32 := by omega
  have hsample : most + e.config.sampleMicros.toNat ≤ 2 ^ 32 := by omega
  have helapses := elapses_request e henabled hmatters
  obtain ⟨x, requests, hx⟩ : Performs (.request d) _ _ _ _ :=
    course_act (follows_perform (.request d)) e
  have hends : (e.act (.perform (.request d))).1 ≠ .error .endless := by
    intro hendless
    obtain rfl : x = .error .endless := eq_error_of_map hx hendless
    -- Either a level is held, which is excluded, or a pause is, which cannot be.
    rcases (requests.stalls hlands).held_or_paused with hheld | ⟨now, hpaused⟩
    · exact hbits ⟨hendless, hheld⟩
    · refine helapses.getLast?_ne hpaced ?_ hpatience now hpaused
      exact List.forall_mem_cons.mpr ⟨hguard, List.forall_mem_singleton.mpr hsample⟩
  refine ⟨hends, ?_⟩
  obtain ⟨y, hsightings, hregular⟩ := requests.exists_exchange henabled hmatters hlands
    (ne_endless_of_map hx hends)
  rw [hsightings, hregular.timings_eq] at helapses
  obtain ⟨hspans, c₁, hmicros, hkept, hrest⟩ := helapses.exists_spans hpaced hguard hpatience
  have hpaced₁ : c₁.micros.Paced pace most := hmicros ▸ hpaced.after _
  rw [← List.append_nil y.window.sightings] at hrest
  obtain ⟨hspans₁, c₂, hmicros₂, -, hrest₂⟩ :=
    hrest.exists_spans hpaced₁ hsample (hkept ▸ hpatience)
  rw [hmicros] at hspans₁
  refine ⟨y, hsightings, hregular, ?_, hspans, hspans₁, ?_⟩
  · rw [hsightings]
    exact hregular.filter_isSample_eq
  · have hlast := hrest₂.keeps (I := fun c => c.micros = c₂.micros) (fun _ hc => hc) rfl
    rw [hlast, hmicros₂, hmicros, ← Counter.after_add]

/-- An engine with a clock whose microseconds go on by one and by two in turn and soon wrap around.
-/
def hurried : Engine DualClock where
  config := { bitTicks := 1, guardMicros := 5, sampleMicros := 9 }
  enabled := true
  rig :=
    { txDeny := { high := true }
      clock :=
        { micros := { value := 0xFFFFFFFE, increment := fun n => if n % 2 = 0 then 1 else 2 } } }

theorem paced_hurried :
    hurried.rig.clock.micros.Paced (fun n => if n % 2 = 0 then 1 else 2) 2 where
  shows n := by
    show (if n % 2 = 0 then 1 else 2 : UInt32) = _
    split <;> rfl
  pos n := by split <;> decide
  le n := by split <;> decide

/-- A request that is denied, with a pause in which the counter wraps around. -/
theorem request_windows_hurried :
    (hurried.act (.perform (.request .tx))).1 = .error (.fault .denied) ∧
      ∃ y : Exchange, (hurried.act (.perform (.request .tx))).2.1 = y.sightings .tx ∧
        y.Regular (.only .tx) .tx ∧ y.guard = ⟨0xFFFFFFFE, 4, 6⟩ ∧ y.window = ⟨5, 6, 9⟩ := by
  have hfault : (hurried.act (.perform (.request .tx))).1 = .error (.fault .denied) := by
    decide +kernel
  have hlands : Lands (hurried.act (.perform (.request .tx))).2.1 := by decide +kernel
  obtain ⟨-, y, hsightings, hregular, -⟩ := request_windows hurried .tx rfl (by decide)
    paced_hurried (by decide) (by decide) hlands fun hheld => by cases hfault.symm.trans hheld.1
  have htimings : timings (hurried.act (.perform (.request .tx))).2.1 =
      [.stamped 0xFFFFFFFE, .waited 0xFFFFFFFE 4 6, .stamped 5, .waited 5 6 9] := by
    decide +kernel
  rw [hsightings, hregular.timings_eq] at htimings
  obtain ⟨turned, priority, ⟨since, reads, last⟩, request, ⟨since', reads', last'⟩, reading,
    settled⟩ := y
  refine ⟨hfault, _, hsightings, hregular, ?_⟩
  simpa [Pause.sightings, and_assoc] using htimings

end Engine

end SharedRadio.Coexistence
