import SharedRadio.Proofs.Clock.Range

/-!
# How far a clock of processor cycles can be trusted

A `CycleClock` knows the frequency of its core in whole megahertz only, rounded down, and takes a
core below a megahertz for one of a megahertz. So the clock of a slow core lags behind, and the
clock of a core of whole megahertz is exact, up to the cycles that do not fill a microsecond. Any
other core has more cycles in a microsecond than its clock counts for one, and the clock runs ahead:
it shows more microseconds than have passed, and waits are over too early. `neverAhead_iff` says for
which spans, for which cores and for which waits this happens.
-/

namespace SharedRadio.CycleClock

open Counter (passed)

/-- The cores whose clock does not count too few cycles for a microsecond. -/
def Unhurried (coreHz : UInt32) : Prop := coreHz.toNat < 1000000 ∨ 1000000 ∣ coreHz.toNat

instance (coreHz : UInt32) : Decidable (Unhurried coreHz) :=
  inferInstanceAs (Decidable (_ ∨ _))

/-- The clock of a core shows no more microseconds than the whole ones that have passed since a
timestamp, whatever the timestamp. The counter may have wrapped around meanwhile. -/
def NeverAhead (coreHz : UInt32) : Prop :=
  ∀ (c : CycleClock) (since : UInt32) (n : Nat), c.cyclesPerMicro = cyclesPerMicroOf coreHz →
    n < 2 ^ 32 →
    (Clock.elapsed since (c.setCycles (since + UInt32.ofNat n))).1.toNat ≤
      n * 1000000 / coreHz.toNat

/-- A wait on the clock of a core takes its microseconds at least, if it ends, wherever the counter
of cycles stands and at whatever pace it goes on. -/
def Lasts (coreHz micros : UInt32) : Prop :=
  ∀ (c : CycleClock) (pace : Nat → Nat) (most : Nat) (p : Clock.Polled),
    c.cyclesPerMicro = cyclesPerMicroOf coreHz → c.cycles.Paced pace most →
    (Clock.awaitMicros (Clock.timestamp c).1 micros (Clock.timestamp c).2).1 = some p →
    micros.toNat * coreHz.toNat ≤
      passed pace c.cycles.reads (c.cycles.reads + p.reads) * 1000000

/-! ## Cycles that are counted for a microsecond -/

/-- A fast core is counted in whole megahertz. -/
theorem toNat_cyclesPerMicroOf {coreHz : UInt32} (hfast : 1000000 ≤ coreHz.toNat) :
    (cyclesPerMicroOf coreHz).toNat = coreHz.toNat / 1000000 := by
  have hwhole : (coreHz / 1000000).toNat = coreHz.toNat / 1000000 := UInt32.toNat_div ..
  have hne : coreHz / 1000000 ≠ 0 := by
    rw [ne_eq, ← UInt32.toNat_inj, hwhole, UInt32.toNat_zero]
    omega
  rw [cyclesPerMicroOf, if_neg hne, hwhole]

/-- A core below a megahertz has less than a cycle in a microsecond, and one is counted. -/
theorem toNat_cyclesPerMicroOf_of_lt {coreHz : UInt32} (hslow : coreHz.toNat < 1000000) :
    (cyclesPerMicroOf coreHz).toNat = 1 := by
  have hone : cyclesPerMicroOf coreHz = 1 := by
    rw [cyclesPerMicroOf_eq_one_iff, UInt32.lt_iff_toNat_lt]
    exact hslow.trans (by decide)
  rw [hone, UInt32.toNat_one]

theorem cyclesPerMicroOf_pos (coreHz : UInt32) : 0 < (cyclesPerMicroOf coreHz).toNat :=
  Nat.pos_of_ne_zero fun hzero =>
    cyclesPerMicroOf_ne_zero coreHz (UInt32.toNat_inj.mp hzero)

/-- A core is unhurried exactly if the cycles counted for a microsecond take one at least. -/
theorem unhurried_iff (coreHz : UInt32) :
    Unhurried coreHz ↔ coreHz.toNat ≤ (cyclesPerMicroOf coreHz).toNat * 1000000 := by
  unfold Unhurried
  rcases Nat.lt_or_ge coreHz.toNat 1000000 with hslow | hfast
  · rw [toNat_cyclesPerMicroOf_of_lt hslow]
    omega
  · rw [toNat_cyclesPerMicroOf hfast]
    omega

/-! ## What the clock shows -/

theorem elapsed_setCycles (c : CycleClock) (since : UInt32) {n : Nat} (hn : n < 2 ^ 32) :
    (Clock.elapsed since (c.setCycles (since + UInt32.ofNat n))).1.toNat =
      n / c.cyclesPerMicro.toNat := by
  have hspan : since + UInt32.ofNat n - since = UInt32.ofNat n := by
    rw [UInt32.add_comm, UInt32.add_sub_cancel]
  calc (Clock.elapsed since (c.setCycles (since + UInt32.ofNat n))).1.toNat
      = ((since + UInt32.ofNat n - since) / c.cyclesPerMicro).toNat := rfl
    _ = n / c.cyclesPerMicro.toNat := by
      rw [hspan, UInt32.toNat_div, UInt32.toNat_ofNat_of_lt' hn]

/-- The cycles counted for the microseconds shown are made up for by the cycles left over, or they
are not. -/
theorem div_cyclesPerMicroOf_le_iff {coreHz : UInt32} (hpos : 0 < coreHz) (n : Nat) :
    n / (cyclesPerMicroOf coreHz).toNat ≤ n * 1000000 / coreHz.toNat ↔
      coreHz.toNat < 1000000 ∨
        n / (cyclesPerMicroOf coreHz).toNat * (coreHz.toNat % 1000000) ≤
          n % (cyclesPerMicroOf coreHz).toNat * 1000000 := by
  rw [Nat.le_div_iff_mul_le (UInt32.lt_iff_toNat_lt.mp hpos)]
  rcases Nat.lt_or_ge coreHz.toNat 1000000 with hslow | hfast
  · rw [toNat_cyclesPerMicroOf_of_lt hslow, Nat.div_one]
    exact iff_of_true (Nat.mul_le_mul_left n hslow.le) (.inl hslow)
  · rw [toNat_cyclesPerMicroOf hfast, or_iff_right (Nat.not_lt.mpr hfast)]
    -- Both sides have in common what is counted. The core has the rest beyond that.
    generalize hcycles : coreHz.toNat / 1000000 = cycles
    generalize hrest : coreHz.toNat % 1000000 = rest
    have hcore : coreHz.toNat = cycles * 1000000 + rest := by omega
    have hcounted : n / cycles * coreHz.toNat =
        cycles * (n / cycles) * 1000000 + n / cycles * rest := by
      rw [hcore, Nat.mul_add, ← Nat.mul_assoc, Nat.mul_comm (n / cycles) cycles]
    have hspan : n * 1000000 = cycles * (n / cycles) * 1000000 + n % cycles * 1000000 := by
      rw [← Nat.add_mul, Nat.div_add_mod]
    rw [hcounted, hspan, Nat.add_le_add_iff_left]

/-- The clock of a core that is not unhurried is ahead when it shows the first microsecond. -/
theorem unhurried_of_neverAhead {coreHz : UInt32} (hpos : 0 < coreHz) (h : NeverAhead coreHz) :
    Unhurried coreHz := by
  have hcycles := cyclesPerMicroOf_pos coreHz
  -- That is when the cycles counted for it have passed, and they have to take a microsecond then.
  have hshown := h (ofCoreHz coreHz) 0 (cyclesPerMicroOf coreHz).toNat rfl
    (cyclesPerMicroOf coreHz).toNat_lt
  rw [elapsed_setCycles _ _ (cyclesPerMicroOf coreHz).toNat_lt] at hshown
  have hfirst : 1 ≤ (cyclesPerMicroOf coreHz).toNat * 1000000 / coreHz.toNat := by
    rwa [show (ofCoreHz coreHz).cyclesPerMicro = cyclesPerMicroOf coreHz from rfl,
      Nat.div_self hcycles] at hshown
  rw [Nat.le_div_iff_mul_le (UInt32.lt_iff_toNat_lt.mp hpos), Nat.one_mul] at hfirst
  exact (unhurried_iff coreHz).mpr hfirst

theorem neverAhead_of_unhurried {coreHz : UInt32} (hpos : 0 < coreHz) (h : Unhurried coreHz) :
    NeverAhead coreHz := by
  intro c since n hc hn
  rw [elapsed_setCycles _ _ hn, hc, Nat.le_div_iff_mul_le (UInt32.lt_iff_toNat_lt.mp hpos)]
  calc n / (cyclesPerMicroOf coreHz).toNat * coreHz.toNat
      ≤ n / (cyclesPerMicroOf coreHz).toNat * ((cyclesPerMicroOf coreHz).toNat * 1000000) :=
        Nat.mul_le_mul_left _ ((unhurried_iff coreHz).mp h)
    _ = n / (cyclesPerMicroOf coreHz).toNat * (cyclesPerMicroOf coreHz).toNat * 1000000 :=
        (Nat.mul_assoc ..).symm
    _ ≤ n * 1000000 := Nat.mul_le_mul_right _ (Nat.div_mul_le_self ..)

/-! ## How long a wait lasts -/

/-- A wait is not over before the cycles counted for its microseconds have passed, however often the
counter has wrapped around. -/
theorem mul_cyclesPerMicro_le_passed {c : CycleClock} {pace : Nat → Nat} {most : Nat}
    {micros : UInt32} {p : Clock.Polled} (hpaced : c.cycles.Paced pace most)
    (hpos : 0 < c.cyclesPerMicro.toNat)
    (h : (Clock.awaitMicros (Clock.timestamp c).1 micros (Clock.timestamp c).2).1 = some p) :
    micros.toNat * c.cyclesPerMicro.toNat ≤
      passed pace c.cycles.reads (c.cycles.reads + p.reads) := by
  have hstates (n : Nat) :
      (fun b : CycleClock => (Clock.elapsed c.cycles.value b).2)^[n]
          { c with cycles := c.cycles.after 1 } =
        { c with cycles := c.cycles.after (n + 1) } := by
    induction n with
    | zero => rfl
    | succ n ih => rw [Function.iterate_succ_apply', ih, elapsed_after hpaced]
  obtain ⟨n, rfl⟩ := Clock.exists_of_poll_eq_some h
  have hlate := (Clock.target_le_of_poll h).1
  rw [show (Clock.timestamp c).1 = c.cycles.value from rfl,
    show (Clock.timestamp c).2 = { c with cycles := c.cycles.after 1 } from rfl, hstates,
    elapsed_after hpaced, UInt32.le_iff_toNat_le, UInt32.toNat_div,
    Nat.le_div_iff_mul_le hpos] at hlate
  rw [Nat.zero_add]
  -- The low bits of the span have reached the target, and the span is no shorter than those.
  exact hlate.trans (Nat.mod_le _ _)

theorem lasts_of_unhurried {coreHz : UInt32} (h : Unhurried coreHz) (micros : UInt32) :
    Lasts coreHz micros := by
  intro c pace most p hc hpaced hp
  have hcounted := mul_cyclesPerMicro_le_passed hpaced (hc ▸ cyclesPerMicroOf_pos coreHz) hp
  calc micros.toNat * coreHz.toNat
      ≤ micros.toNat * (c.cyclesPerMicro.toNat * 1000000) :=
        Nat.mul_le_mul_left _ (hc ▸ (unhurried_iff coreHz).mp h)
    _ = micros.toNat * c.cyclesPerMicro.toNat * 1000000 := (Nat.mul_assoc ..).symm
    _ ≤ _ := Nat.mul_le_mul_right _ hcounted

/-- A wait on a counter that goes on by one cycle with every read takes exactly the cycles counted
for its microseconds, which are too few unless the core is unhurried. -/
theorem unhurried_of_lasts {coreHz micros : UInt32} (h : Lasts coreHz micros) (hmicros : micros ≠ 0)
    (hshort : micros.toNat ≤ longest (cyclesPerMicroOf coreHz)) : Unhurried coreHz := by
  have hsteady : (ofCoreHz coreHz).Steady (cyclesPerMicroOf coreHz) := ⟨fun _ => rfl, rfl⟩
  have hmicros : 0 < micros.toNat :=
    Nat.pos_of_ne_zero fun hzero => hmicros (UInt32.toNat_inj.mp hzero)
  have hcycles := cyclesPerMicroOf_pos coreHz
  obtain ⟨v, hends⟩ := hsteady.exists_awaitMicros_eq (cyclesPerMicroOf_ne_zero coreHz) hshort
  have hlasts := h _ _ _ _ rfl hsteady.paced hends
  rw [Steady.passed_eq, max_eq_right (Nat.mul_pos hmicros hcycles), Nat.mul_assoc] at hlasts
  exact (unhurried_iff coreHz).mpr (Nat.le_of_mul_le_mul_left hlasts hmicros)

/-- A wait for more microseconds than the clock can show does not end. -/
theorem lasts_of_longest_lt {coreHz micros : UInt32}
    (hlong : longest (cyclesPerMicroOf coreHz) < micros.toNat) : Lasts coreHz micros := by
  intro c pace most p hc _ hp
  have hbeyond : longest (Clock.timestamp c).2.cyclesPerMicro < micros.toNat := by
    rwa [← hc] at hlong
  have hnone := poll_elapsed_eq_none hbeyond (Clock.timestamp c).1 UInt32.size 0
  cases hnone.symm.trans hp

/-- **When a clock of processor cycles runs ahead of the time.** After some cycles it shows no more
than the whole microseconds that have passed if, and only if, the core is slower than a megahertz or
the cycles left over make up for those that a microsecond has more than are counted for it. It never
runs ahead on the cores that are unhurried, and on no other. And a wait that can end at all takes
its microseconds at least on those cores, and on no other. -/
theorem neverAhead_iff (coreHz : UInt32) (hpos : 0 < coreHz) :
    (∀ (c : CycleClock) (since : UInt32) (n : Nat), c.cyclesPerMicro = cyclesPerMicroOf coreHz →
      n < 2 ^ 32 →
      ((Clock.elapsed since (c.setCycles (since + UInt32.ofNat n))).1.toNat ≤
          n * 1000000 / coreHz.toNat ↔
        coreHz.toNat < 1000000 ∨
          n / (cyclesPerMicroOf coreHz).toNat * (coreHz.toNat % 1000000) ≤
            n % (cyclesPerMicroOf coreHz).toNat * 1000000)) ∧
    (NeverAhead coreHz ↔ Unhurried coreHz) ∧
    ∀ micros : UInt32, Lasts coreHz micros ↔
      Unhurried coreHz ∨ micros = 0 ∨ longest (cyclesPerMicroOf coreHz) < micros.toNat := by
  refine ⟨fun c since n hc hn => ?span, ?core, fun micros => ?wait⟩
  case span =>
    rw [elapsed_setCycles c since hn, hc]
    exact div_cyclesPerMicroOf_le_iff hpos n
  case core =>
    exact ⟨unhurried_of_neverAhead hpos, neverAhead_of_unhurried hpos⟩
  case wait =>
    constructor
    · intro hlasts
      by_contra hnot
      rw [not_or, not_or, Nat.not_lt] at hnot
      exact hnot.1 (unhurried_of_lasts hlasts hnot.2.1 hnot.2.2)
    · rintro (hunhurried | rfl | hlong)
      · exact lasts_of_unhurried hunhurried micros
      · intro c pace most p _ _ _
        rw [UInt32.toNat_zero, Nat.zero_mul]
        exact Nat.zero_le _
      · exact lasts_of_longest_lt hlong

/-- The clock of a core that is one hertz short of two megahertz counts a cycle for a microsecond.
After a second it shows two, also if the counter has wrapped around meanwhile, and a wait for a
microsecond is over too early. -/
theorem neverAhead_iff_almostTwoMegahertz :
    (Clock.elapsed 0xFFFFFF00 ((ofCoreHz 1999999).setCycles (0xFFFFFF00 + 1999999))).1 = 1999999 ∧
      1999999 * 1000000 / (1999999 : UInt32).toNat = 1000000 ∧
      ¬ NeverAhead 1999999 ∧ ¬ Lasts 1999999 1 := by
  obtain ⟨-, hcore, hwait⟩ := neverAhead_iff 1999999 (by decide)
  have hhurried : ¬ Unhurried 1999999 := by decide
  refine ⟨by decide +kernel, rfl, hhurried ∘ hcore.mp, fun hlasts => ?_⟩
  rcases (hwait 1).mp hlasts with hunhurried | hzero | hlong
  · exact hhurried hunhurried
  · exact absurd hzero (by decide)
  · exact absurd hlong (by decide +kernel)

end SharedRadio.CycleClock
