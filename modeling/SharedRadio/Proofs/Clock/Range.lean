import SharedRadio.Clock.Cycle
import SharedRadio.Proofs.Clock.Pace

/-!
# How long a clock of processor cycles can wait

A `CycleClock` divides a span of cycles by the cycles in a microsecond. The span is known up to
multiples of `2^32` only, and it is divided as it is known. So no more than `longest` microseconds
are ever read off the clock, which is a minute or so for a common core, and a wait for more than
that does not end, whatever the pace of the counter and however often it is read. If the counter
goes on by one cycle with every read, all other waits end (`Steady.exists_awaitMicros_eq`).
-/

namespace SharedRadio.CycleClock

open Counter (passed)

/-- The most microseconds that can be read off a clock with some cycles per microsecond. -/
def longest (cyclesPerMicro : UInt32) : Nat := (UInt32.size - 1) / cyclesPerMicro.toNat

theorem microsOf_le_longest (c : CycleClock) (cycles : UInt32) :
    (c.microsOf cycles).toNat ≤ longest c.cyclesPerMicro := by
  rw [microsOf, UInt32.toNat_div]
  exact Nat.div_le_div_right (Nat.le_pred_of_lt cycles.toNat_lt)

theorem cyclesPerMicroOf_ne_zero (coreHz : UInt32) : cyclesPerMicroOf coreHz ≠ 0 := by
  unfold cyclesPerMicroOf
  split
  · decide
  · assumption

/-- A cycle counts as a microsecond on a core below two megahertz. -/
theorem cyclesPerMicroOf_eq_one_iff (coreHz : UInt32) :
    cyclesPerMicroOf coreHz = 1 ↔ coreHz < 2000000 := by
  have hwhole : (coreHz / 1000000).toNat = coreHz.toNat / 1000000 := UInt32.toNat_div ..
  unfold cyclesPerMicroOf
  rw [UInt32.lt_iff_toNat_lt, UInt32.toNat_ofNat]
  split
  · next hzero =>
    rw [hzero, UInt32.toNat_zero] at hwhole
    simp only [true_iff]
    omega
  · next hpos =>
    rw [← UInt32.toNat_inj] at hpos ⊢
    rw [hwhole] at hpos ⊢
    rw [UInt32.toNat_zero] at hpos
    rw [UInt32.toNat_one]
    omega

/-- If a microsecond has more than one cycle, there is a span that cannot be read off. -/
theorem longest_lt {cyclesPerMicro : UInt32} (hone : cyclesPerMicro ≠ 1) :
    longest cyclesPerMicro < UInt32.size - 1 := by
  have hne : cyclesPerMicro.toNat ≠ 1 := fun h => hone (UInt32.toNat_inj.mp h)
  unfold longest
  rcases Nat.eq_zero_or_pos cyclesPerMicro.toNat with hzero | hpos
  · rw [hzero, Nat.div_zero]
    decide
  · exact Nat.div_lt_self (by decide) (by omega)

theorem longest_one : longest 1 = UInt32.size - 1 := rfl

/-- No wait for more than the longest span ends, however often the clock is read. -/
theorem poll_elapsed_eq_none {micros : UInt32} {c : CycleClock}
    (h : longest c.cyclesPerMicro < micros.toNat) (since : UInt32) (limit done : Nat) :
    (Clock.poll (Clock.elapsed since) micros limit done c).1 = none := by
  refine Clock.poll_fst_eq_none (I := fun b => b.cyclesPerMicro = c.cyclesPerMicro)
    (fun b hb => ⟨?_, hb⟩) limit done rfl
  rw [UInt32.lt_iff_toNat_lt]
  exact (microsOf_le_longest b _).trans_lt (hb ▸ h)

/-- The microseconds from a timestamp, read off some reads later, come from the low 32 bits of the
cycles that have passed. -/
theorem elapsed_after {c : CycleClock} {pace : Nat → Nat} {most : Nat}
    (h : c.cycles.Paced pace most) (n : Nat) :
    Clock.elapsed c.cycles.value { c with cycles := c.cycles.after n } =
      (UInt32.ofNat (passed pace c.cycles.reads (c.cycles.reads + n)) / c.cyclesPerMicro,
        { c with cycles := c.cycles.after (n + 1) }) := by
  have hspan : (c.cycles.after n).value - c.cycles.value =
      UInt32.ofNat (passed pace c.cycles.reads (c.cycles.reads + n)) := by
    rw [h.value_after, UInt32.add_comm, UInt32.add_sub_cancel]
  rw [Counter.after_succ, ← hspan]
  rfl

/-- A clock whose counter goes on by one cycle with every read. -/
structure Steady (c : CycleClock) (cyclesPerMicro : UInt32) : Prop where
  increment_eq : ∀ n, c.cycles.increment n = 1
  cyclesPerMicro_eq : c.cyclesPerMicro = cyclesPerMicro

namespace Steady

variable {c : CycleClock} {cyclesPerMicro : UInt32}

theorem paced (h : c.Steady cyclesPerMicro) : c.cycles.Paced (fun _ => 1) 1 :=
  ⟨h.increment_eq, fun _ => Nat.one_pos, fun _ => le_rfl⟩

theorem ticks (h : c.Steady cyclesPerMicro) : (Clock.ticks c).2.Steady cyclesPerMicro :=
  ⟨h.increment_eq, h.cyclesPerMicro_eq⟩

theorem elapsed (h : c.Steady cyclesPerMicro) (since : UInt32) :
    (Clock.elapsed since c).2.Steady cyclesPerMicro :=
  ⟨h.increment_eq, h.cyclesPerMicro_eq⟩

/-- Every wait for a bit ends. -/
theorem exists_awaitTicks_eq (h : c.Steady cyclesPerMicro) (duration : UInt32) :
    ∃ p, (Clock.awaitTicks (Clock.ticks c).1 duration (Clock.ticks c).2).1 = some p := by
  have hwindow : 1 + duration.toNat ≤ 2 ^ 32 := by
    have hlt := duration.toNat_lt
    omega
  have hlimit := Clock.patient_of_size_le le_rfl duration
  obtain ⟨n, -, hpoll, -⟩ := h.paced.exists_poll_eq hwindow hlimit
  have hpart := Clock.poll_part duration (Clock.ticksSince c.cycles.value)
    (Counter.readSince c.cycles.value) (fun cycles => { c with cycles }) (fun _ => rfl)
    UInt32.size 0 c.cycles.read.2
  rw [hpoll] at hpart
  exact ⟨_, congrArg Prod.fst hpart⟩

/-- With one cycle a read, as many cycles have passed as there were reads. -/
theorem passed_eq (first n : Nat) : passed (fun _ => 1) first (first + n) = n := by
  rw [passed, Finset.sum_const_nat fun _ _ => rfl, Nat.card_Ico, Nat.add_sub_cancel_left,
    Nat.mul_one]

/-- A wait for no more than the longest span ends with the read at which its cycles have passed. -/
theorem exists_awaitMicros_eq (h : c.Steady cyclesPerMicro) (hpos : cyclesPerMicro ≠ 0)
    {micros : UInt32} (hmicros : micros.toNat ≤ longest cyclesPerMicro) :
    ∃ v, (Clock.awaitMicros (Clock.timestamp c).1 micros (Clock.timestamp c).2).1 =
      some ⟨max 1 (micros.toNat * cyclesPerMicro.toNat), v⟩ := by
  have hcycles : 0 < cyclesPerMicro.toNat :=
    Nat.pos_of_ne_zero fun hzero => hpos (UInt32.toNat_inj.mp hzero)
  have hspan : micros.toNat * cyclesPerMicro.toNat ≤ UInt32.size - 1 :=
    (Nat.le_div_iff_mul_le hcycles).mp hmicros
  have hsize : 1 < UInt32.size := by decide
  -- The span is reached with this read after the timestamp, or with the first one.
  let last := micros.toNat * cyclesPerMicro.toNat - 1
  have hlimit : last < UInt32.size := by omega
  have hreached : micros.toNat * cyclesPerMicro.toNat ≤ last + 1 := by omega
  have hreads : 0 + last + 1 = max 1 (micros.toNat * cyclesPerMicro.toNat) := by omega
  have hread (j : Nat) : Clock.elapsed c.cycles.value { c with cycles := c.cycles.after (j + 1) } =
      (UInt32.ofNat (j + 1) / cyclesPerMicro, { c with cycles := c.cycles.after (j + 1 + 1) }) := by
    rw [elapsed_after h.paced, passed_eq, h.cyclesPerMicro_eq]
  have hpolled : Clock.poll (Clock.elapsed c.cycles.value) micros UInt32.size 0
      { c with cycles := c.cycles.after 1 } =
        (some ⟨0 + last + 1, UInt32.ofNat (last + 1) / cyclesPerMicro⟩,
          { c with cycles := c.cycles.after (last + 1 + 1) }) := by
    refine Clock.poll_eq_some (s := fun j => { c with cycles := c.cycles.after (j + 1) })
      hread (fun j hj => ?early) ?late hlimit 0
    case early =>
      have hbefore : j + 1 < micros.toNat * cyclesPerMicro.toNat := by omega
      have hlt : j + 1 < UInt32.size := by omega
      rw [UInt32.lt_iff_toNat_lt, UInt32.toNat_div, UInt32.toNat_ofNat_of_lt' hlt]
      exact (Nat.div_lt_iff_lt_mul hcycles).mpr hbefore
    case late =>
      have hlt : last + 1 < UInt32.size := by omega
      rw [UInt32.le_iff_toNat_le, UInt32.toNat_div, UInt32.toNat_ofNat_of_lt' hlt]
      exact (Nat.le_div_iff_mul_le hcycles).mpr hreached
  rw [hreads] at hpolled
  exact ⟨_, congrArg Prod.fst hpolled⟩

end Steady

end SharedRadio.CycleClock
