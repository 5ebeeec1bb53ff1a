import SharedRadio.Proofs.Clock.Range

/-!
# Clocks on which waits end

Whether a wait ends is up to the clock. `Clock.Lively` says that all waits of some durations do, now
and after whatever is read off the clock, and this is all that an operation needs in order to end.
Both clocks of the library are lively under the conditions that one expects: a `CycleClock` that is
not asked for more microseconds than it can show, and a `DualClock` whose counters do not jump over
the values that a wait accepts.
-/

namespace SharedRadio

namespace Clock

variable {κ : Type} [Clock κ]

/-- A property of clocks that every read keeps, and with which bits and some pauses end. -/
structure Ends (bitTicks : UInt32) (pauses : List UInt32) (I : κ → Prop) : Prop where
  ticks : ∀ c, I c → I (Clock.ticks c).2
  timestamp : ∀ c, I c → I (Clock.timestamp c).2
  elapsed : ∀ since c, I c → I (Clock.elapsed since c).2
  bit : ∀ c, I c → ∃ p, (awaitTicks (Clock.ticks c).1 bitTicks (Clock.ticks c).2).1 = some p
  pause : ∀ micros ∈ pauses, ∀ c, I c →
    ∃ p, (awaitMicros (Clock.timestamp c).1 micros (Clock.timestamp c).2).1 = some p

/-- Bits and some pauses end on a clock, now and after whatever is read off it. -/
def Lively (bitTicks : UInt32) (pauses : List UInt32) (c : κ) : Prop :=
  ∃ I : κ → Prop, I c ∧ Ends bitTicks pauses I

end Clock

/-- A clock of processor cycles is lively if it is not asked for more than it can show. -/
theorem CycleClock.Steady.lively {c : CycleClock} {cyclesPerMicro : UInt32}
    (h : c.Steady cyclesPerMicro) (hpos : cyclesPerMicro ≠ 0) (bitTicks : UInt32)
    {pauses : List UInt32} (hpauses : ∀ micros ∈ pauses, micros.toNat ≤ longest cyclesPerMicro) :
    Clock.Lively bitTicks pauses c :=
  ⟨fun c => c.Steady cyclesPerMicro, h, {
    ticks := fun _ hc => hc.ticks
    timestamp := fun _ hc => hc.ticks
    elapsed := fun since _ hc => hc.elapsed since
    bit := fun _ hc => hc.exists_awaitTicks_eq bitTicks
    pause := fun micros hmicros _ hc =>
      let ⟨_, hends⟩ := hc.exists_awaitMicros_eq hpos (hpauses micros hmicros)
      ⟨_, hends⟩ }⟩

/-- A clock of two counters is lively if no read jumps over the values that a wait accepts. -/
theorem DualClock.lively {c : DualClock} {tickPace microPace : Nat → Nat}
    {mostTicks mostMicros : Nat} {bitTicks : UInt32} {pauses : List UInt32}
    (hticks : c.ticks.Paced tickPace mostTicks) (hmicros : c.micros.Paced microPace mostMicros)
    (hbit : mostTicks + bitTicks.toNat ≤ 2 ^ 32 ∧ max 1 bitTicks.toNat ≤ c.patience)
    (hpauses : ∀ micros ∈ pauses,
      mostMicros + micros.toNat ≤ 2 ^ 32 ∧ max 1 micros.toNat ≤ c.patience) :
    Clock.Lively bitTicks pauses c := by
  refine ⟨fun b => b.ticks.Paced tickPace mostTicks ∧ b.micros.Paced microPace mostMicros ∧
    b.patience = c.patience, ⟨hticks, hmicros, rfl⟩, ?_⟩
  constructor
  case ticks => exact fun b hb => ⟨hb.1.after 1, hb.2⟩
  case timestamp => exact fun b hb => ⟨hb.1, hb.2.1.after 1, hb.2.2⟩
  case elapsed => exact fun since b hb => ⟨hb.1, hb.2.1.after 1, hb.2.2⟩
  case bit =>
    rintro b ⟨hticks, -, hpatience⟩
    obtain ⟨n, -, hends, -⟩ := exists_awaitTicks_eq hticks hbit.1 (hpatience ▸ hbit.2)
    exact ⟨_, congrArg Prod.fst hends⟩
  case pause =>
    rintro micros hm b ⟨-, hmicros, hpatience⟩
    obtain ⟨n, -, hends, -⟩ :=
      exists_awaitMicros_eq hmicros (hpauses micros hm).1 (hpatience ▸ (hpauses micros hm).2)
    exact ⟨_, congrArg Prod.fst hends⟩

end SharedRadio
