import Mathlib.Algebra.BigOperators.Intervals
import SharedRadio.Clock.Dual

/-!
# Waiting on a counter that wraps around

A counter of 32 bits shows the time only up to multiples of `2^32`. The time itself is given by a
`pace`, which says for every read by its number how much time passes until the next one; the counter
advances by the low 32 bits of that. `passed` is the time from one read to another, and nothing
wraps around in it.

A wait compares what the counter shows with a target. As long as no read takes so long that the
window of accepted values could be jumped over, which is `most + target ≤ 2^32`, the counter shows
the time itself until the wait ends. So the wait ends with the first read that comes late enough,
wherever the counter stood and whether it wrapped around or not (`exists_poll_eq`).
-/

namespace SharedRadio

/-! ## When a wait ends -/

namespace Clock

variable {κ κ' : Type} {read : κ → UInt32 × κ} {target : UInt32}

/-- A wait ends with the first read that is late enough. -/
theorem poll_eq_some {s : Nat → κ} {v : Nat → UInt32} (hread : ∀ j, read (s j) = (v j, s (j + 1)))
    {n : Nat} (hearly : ∀ j < n, v j < target) (hlate : target ≤ v n) {limit : Nat}
    (hlimit : n < limit) (done : Nat) :
    poll read target limit done (s 0) = (some ⟨done + n + 1, v n⟩, s (n + 1)) := by
  induction n generalizing s v limit done with
  | zero =>
    obtain ⟨limit, rfl⟩ := Nat.exists_eq_succ_of_ne_zero hlimit.ne'
    simp [poll, hread, hlate]
  | succ n ih =>
    obtain ⟨limit, rfl⟩ := Nat.exists_eq_succ_of_ne_zero (Nat.ne_zero_of_lt hlimit)
    have hfirst : ¬ target ≤ v 0 := UInt32.not_le.mpr (hearly 0 n.succ_pos)
    have hrest := ih (s := fun j => s (j + 1)) (v := fun j => v (j + 1)) (fun j => hread (j + 1))
      (fun j hj => hearly (j + 1) (Nat.succ_lt_succ hj)) hlate (Nat.succ_lt_succ_iff.mp hlimit)
      (done + 1)
    rw [poll, hread]
    simp only [hfirst, if_false]
    rw [hrest, show done + 1 + n + 1 = done + (n + 1) + 1 by omega]

/-- A wait that ends does so with what the last of its reads returned. -/
theorem exists_of_poll_eq_some {limit done : Nat} {c : κ} {p : Polled}
    (h : (poll read target limit done c).1 = some p) :
    ∃ n, p = ⟨done + n + 1, (read ((fun c => (read c).2)^[n] c)).1⟩ := by
  induction limit generalizing done c with
  | zero => cases h
  | succ limit ih =>
    rw [poll] at h
    by_cases hlate : target ≤ (read c).1
    · simp only [hlate, if_true, Option.some.injEq] at h
      exact ⟨0, h.symm⟩
    · simp only [hlate, if_false] at h
      obtain ⟨n, hp⟩ := ih h
      refine ⟨n + 1, ?_⟩
      rw [hp, Function.iterate_succ_apply, show done + 1 + n + 1 = done + (n + 1) + 1 by omega]

/-- Patience for every word is patience for this one. -/
theorem patient_of_size_le {limit : Nat} (h : UInt32.size ≤ limit) (target : UInt32) :
    max 1 target.toNat ≤ limit := by
  have htarget : target.toNat < UInt32.size := target.toNat_lt
  have hone : 1 < UInt32.size := by decide
  omega

/-- A wait all of whose reads are early does not end. -/
theorem poll_fst_eq_none {I : κ → Prop} (hearly : ∀ c, I c → (read c).1 < target ∧ I (read c).2)
    (limit done : Nat) {c : κ} (hc : I c) : (poll read target limit done c).1 = none := by
  induction limit generalizing done c with
  | zero => rfl
  | succ limit ih =>
    have hfirst : ¬ target ≤ (read c).1 := UInt32.not_le.mpr (hearly c hc).1
    rw [poll]
    simp only [hfirst, if_false]
    exact ih (done + 1) (hearly c hc).2

/-- What every read keeps is kept by a wait. -/
theorem poll_keeps {I : κ → Prop} (hread : ∀ c, I c → I (read c).2) (limit done : Nat) {c : κ}
    (hc : I c) : I (poll read target limit done c).2 := by
  induction limit generalizing done c with
  | zero => exact hc
  | succ limit ih =>
    rw [poll]
    by_cases hlate : target ≤ (read c).1
    · simp only [hlate, if_true]
      exact hread c hc
    · simp only [hlate, if_false]
      exact ih (done + 1) (hread c hc)

/-- What every read of the tick counter keeps is kept by a wait for ticks. -/
theorem awaitTicks_keeps [Clock κ] {I : κ → Prop} (hticks : ∀ c, I c → I (ticks c).2)
    {start duration : UInt32} {c c' : κ} {o : Option Polled}
    (h : awaitTicks start duration c = (o, c')) (hc : I c) : I c' := by
  have hread (c : κ) (hc : I c) : I (ticksSince start c).2 := hticks c hc
  have hpolled : I (awaitTicks start duration c).2 := poll_keeps hread (patience c) 0 hc
  rwa [h] at hpolled

/-- What every look at the elapsed time keeps is kept by a wait for microseconds. -/
theorem awaitMicros_keeps [Clock κ] {I : κ → Prop} {since micros : UInt32}
    (helapsed : ∀ c, I c → I (elapsed since c).2) {c c' : κ} {o : Option Polled}
    (h : awaitMicros since micros c = (o, c')) (hc : I c) : I c' := by
  have hpolled : I (awaitMicros since micros c).2 := poll_keeps helapsed (patience c) 0 hc
  rwa [h] at hpolled

/-- A wait on a part of a clock changes that part only. -/
theorem poll_part (target : UInt32) (read : κ → UInt32 × κ) (read' : κ' → UInt32 × κ')
    (put : κ' → κ) (hread : ∀ c, read (put c) = ((read' c).1, put (read' c).2))
    (limit done : Nat) (c : κ') :
    poll read target limit done (put c) =
      ((poll read' target limit done c).1, put (poll read' target limit done c).2) := by
  induction limit generalizing done c with
  | zero => rfl
  | succ limit ih =>
    rw [poll, hread, poll]
    by_cases hlate : target ≤ (read' c).1
    · simp [hlate]
    · simp only [hlate, if_false]
      exact ih (done + 1) (read' c).2

end Clock

namespace Counter

/-! ## The time that passes -/

/-- The time from one read to another, by their numbers. -/
def passed (pace : Nat → Nat) (first last : Nat) : Nat := ∑ i ∈ Finset.Ico first last, pace i

@[simp] theorem passed_self (pace : Nat → Nat) (n : Nat) : passed pace n n = 0 := by
  simp [passed]

theorem passed_succ (pace : Nat → Nat) {first last : Nat} (h : first ≤ last) :
    passed pace first (last + 1) = passed pace first last + pace last :=
  Finset.sum_Ico_succ_top h pace

/-- The counter after some reads. -/
def after (c : Counter) (n : Nat) : Counter := (fun c => c.read.2)^[n] c

theorem after_succ (c : Counter) (n : Nat) : c.after (n + 1) = (c.after n).read.2 :=
  Function.iterate_succ_apply' _ n c

theorem after_add (c : Counter) (m n : Nat) : c.after (m + n) = (c.after m).after n := by
  rw [Nat.add_comm]
  exact Function.iterate_add_apply _ n m c

@[simp] theorem increment_after (c : Counter) (n : Nat) : (c.after n).increment = c.increment := by
  induction n with
  | zero => rfl
  | succ n ih => rw [after_succ, ← ih]; rfl

@[simp] theorem reads_after (c : Counter) (n : Nat) : (c.after n).reads = c.reads + n := by
  induction n with
  | zero => rfl
  | succ n ih => rw [after_succ, ← Nat.add_assoc, ← ih]; rfl

/-- A counter that goes on with every read, by what `pace` says and by `most` at the most. -/
structure Paced (c : Counter) (pace : Nat → Nat) (most : Nat) : Prop where
  /-- The counter shows the low 32 bits of the time. -/
  shows : ∀ n, c.increment n = UInt32.ofNat (pace n)
  pos : ∀ n, 0 < pace n
  le : ∀ n, pace n ≤ most

namespace Paced

variable {c : Counter} {pace : Nat → Nat} {most : Nat}

theorem after (h : c.Paced pace most) (n : Nat) : (c.after n).Paced pace most :=
  ⟨by simpa using h.shows, h.pos, h.le⟩

/-- The value of a counter is the time that has passed, as far as 32 bits show it. -/
theorem value_after (h : c.Paced pace most) (n : Nat) :
    (c.after n).value = c.value + UInt32.ofNat (passed pace c.reads (c.reads + n)) := by
  induction n with
  | zero => simp [Counter.after]
  | succ n ih =>
    calc (c.after (n + 1)).value
        = (c.after n).value + (c.after n).increment (c.after n).reads := by rw [after_succ]; rfl
      _ = c.value + UInt32.ofNat (passed pace c.reads (c.reads + n)) +
            UInt32.ofNat (pace (c.reads + n)) := by
          rw [ih, increment_after, reads_after, h.shows]
      _ = c.value + UInt32.ofNat (passed pace c.reads (c.reads + (n + 1))) := by
          rw [← Nat.add_assoc, passed_succ pace (Nat.le_add_right _ _), UInt32.ofNat_add,
            UInt32.add_assoc]

/-- Every read takes some time. -/
theorem le_passed (h : c.Paced pace most) (first n : Nat) : n ≤ passed pace first (first + n) := by
  induction n with
  | zero => exact Nat.zero_le _
  | succ n ih =>
    have hpos := h.pos (first + n)
    rw [← Nat.add_assoc, passed_succ pace (Nat.le_add_right _ _)]
    omega

/-- There is a first read that comes late enough, and it does not come much too late. -/
theorem exists_first (h : c.Paced pace most) (first target : Nat) :
    ∃ n, 0 < n ∧ n ≤ max 1 target ∧
      (∀ j, 0 < j → j < n → passed pace first (first + j) < target) ∧
      target ≤ passed pace first (first + n) ∧
      passed pace first (first + n) ≤ target - 1 + most := by
  have hexists : ∃ n, 0 < n ∧ target ≤ passed pace first (first + n) :=
    ⟨target + 1, target.succ_pos, (Nat.le_succ target).trans (h.le_passed first (target + 1))⟩
  obtain ⟨hpos, hlate⟩ := Nat.find_spec hexists
  have hearly (j : Nat) (hj : 0 < j) (hlt : j < Nat.find hexists) :
      passed pace first (first + j) < target := by
    have hnot := Nat.find_min hexists hlt
    exact Nat.lt_of_not_le fun hle => hnot ⟨hj, hle⟩
  refine ⟨Nat.find hexists, hpos, ?_, hearly, hlate, ?_⟩
  · refine Nat.find_min' hexists ⟨by omega, ?_⟩
    exact (le_max_right 1 target).trans (h.le_passed first _)
  · -- The read before it came too early, or there was none, and the last step is not too long.
    obtain ⟨n, hn⟩ : ∃ n, Nat.find hexists = n + 1 := Nat.exists_eq_succ_of_ne_zero hpos.ne'
    rw [hn, ← Nat.add_assoc, passed_succ pace (Nat.le_add_right _ _)]
    have hstep := h.le (first + n)
    rcases Nat.eq_zero_or_pos n with rfl | hn'
    · simp only [Nat.add_zero, passed_self] at hstep ⊢
      omega
    · have hbefore := hearly n hn' (by omega)
      omega

/-- **A wait on a counter ends with the first read that comes late enough**, if no read takes so
long that the accepted values could be jumped over. It begins after the read whose value it is
measured from, and takes at least one read. -/
theorem exists_poll_eq (h : c.Paced pace most) {target : UInt32}
    (hwindow : most + target.toNat ≤ 2 ^ 32) {limit : Nat} (hlimit : max 1 target.toNat ≤ limit) :
    ∃ n, 0 < n ∧
      Clock.poll (readSince c.value) target limit 0 c.read.2 =
        (some ⟨n, UInt32.ofNat (passed pace c.reads (c.reads + n))⟩, c.after (n + 1)) ∧
      target.toNat ≤ passed pace c.reads (c.reads + n) ∧
      passed pace c.reads (c.reads + n) ≤ target.toNat - 1 + most := by
  have htarget : target.toNat < 2 ^ 32 := target.toNat_lt
  obtain ⟨n, hpos, hn, hearly, hlate, hsoon⟩ := h.exists_first c.reads target.toNat
  obtain ⟨m, rfl⟩ : ∃ m, n = m + 1 := Nat.exists_eq_succ_of_ne_zero hpos.ne'
  let v (j : Nat) : UInt32 := UInt32.ofNat (passed pace c.reads (c.reads + (j + 1)))
  have hread (j : Nat) : readSince c.value (c.after (j + 1)) = (v j, c.after (j + 1 + 1)) := by
    rw [after_succ c (j + 1), readSince, show (c.after (j + 1)).read.1 = (c.after (j + 1)).value
      from rfl, h.value_after, UInt32.add_comm, UInt32.add_sub_cancel]
  have hpolled : Clock.poll (readSince c.value) target limit 0 (c.after 1) =
      (some ⟨0 + m + 1, v m⟩, c.after (m + 1 + 1)) := by
    refine Clock.poll_eq_some (s := fun j => c.after (j + 1)) hread (fun j hj => ?early) ?late
      (by omega) 0
    case early =>
      have hlt := hearly (j + 1) j.succ_pos (Nat.succ_lt_succ hj)
      rw [UInt32.lt_iff_toNat_lt, UInt32.toNat_ofNat_of_lt' (hlt.trans htarget)]
      exact hlt
    case late =>
      -- Either the counter shows the time, or every value is late enough.
      rcases Nat.eq_zero_or_pos target.toNat with hzero | htpos
      · rw [UInt32.le_iff_toNat_le, hzero]
        exact Nat.zero_le _
      · rw [UInt32.le_iff_toNat_le, UInt32.toNat_ofNat_of_lt' (by show _ < 2 ^ 32; omega)]
        exact hlate
  rw [Nat.zero_add] at hpolled
  exact ⟨m + 1, hpos, hpolled, hlate, hsoon⟩

end Paced

end Counter

/-! ## Clocks of two counters -/

namespace DualClock

variable {c : DualClock} {pace : Nat → Nat} {most : Nat}

/-- A wait for ticks is a wait on the tick counter. -/
theorem awaitTicks_eq (c : DualClock) (start duration : UInt32) :
    Clock.awaitTicks start duration c =
      ((Clock.poll (Counter.readSince start) duration c.patience 0 c.ticks).1,
        { c with
          ticks := (Clock.poll (Counter.readSince start) duration c.patience 0 c.ticks).2 }) := by
  have hpart := Clock.poll_part duration (Clock.ticksSince start) (Counter.readSince start)
    (fun ticks => { c with ticks }) (fun _ => rfl) c.patience 0 c.ticks
  exact hpart

/-- A wait for microseconds is a wait on their counter. -/
theorem awaitMicros_eq (c : DualClock) (since micros : UInt32) :
    Clock.awaitMicros since micros c =
      ((Clock.poll (Counter.readSince since) micros c.patience 0 c.micros).1,
        { c with
          micros := (Clock.poll (Counter.readSince since) micros c.patience 0 c.micros).2 }) := by
  have hpart := Clock.poll_part micros (Clock.elapsed since) (Counter.readSince since)
    (fun micros => { c with micros }) (fun _ => rfl) c.patience 0 c.micros
  exact hpart

/-- A bit ends, neither too early nor too late. -/
theorem exists_awaitTicks_eq (hpaced : c.ticks.Paced pace most) {duration : UInt32}
    (hwindow : most + duration.toNat ≤ 2 ^ 32) (hpatience : max 1 duration.toNat ≤ c.patience) :
    ∃ n, 0 < n ∧
      Clock.awaitTicks (Clock.ticks c).1 duration (Clock.ticks c).2 =
        (some ⟨n, UInt32.ofNat (Counter.passed pace c.ticks.reads (c.ticks.reads + n))⟩,
          { c with ticks := c.ticks.after (n + 1) }) ∧
      duration.toNat ≤ Counter.passed pace c.ticks.reads (c.ticks.reads + n) ∧
      Counter.passed pace c.ticks.reads (c.ticks.reads + n) ≤ duration.toNat - 1 + most := by
  obtain ⟨n, hpos, hpoll, hle, hsoon⟩ := hpaced.exists_poll_eq hwindow hpatience
  have hread : Clock.ticks c = (c.ticks.value, { c with ticks := c.ticks.read.2 }) := rfl
  refine ⟨n, hpos, ?_, hle, hsoon⟩
  rw [hread, awaitTicks_eq]
  simp only [hpoll]

/-- A pause ends, neither too early nor too late. -/
theorem exists_awaitMicros_eq (hpaced : c.micros.Paced pace most) {micros : UInt32}
    (hwindow : most + micros.toNat ≤ 2 ^ 32) (hpatience : max 1 micros.toNat ≤ c.patience) :
    ∃ n, 0 < n ∧
      Clock.awaitMicros (Clock.timestamp c).1 micros (Clock.timestamp c).2 =
        (some ⟨n, UInt32.ofNat (Counter.passed pace c.micros.reads (c.micros.reads + n))⟩,
          { c with micros := c.micros.after (n + 1) }) ∧
      micros.toNat ≤ Counter.passed pace c.micros.reads (c.micros.reads + n) ∧
      Counter.passed pace c.micros.reads (c.micros.reads + n) ≤ micros.toNat - 1 + most := by
  obtain ⟨n, hpos, hpoll, hle, hsoon⟩ := hpaced.exists_poll_eq hwindow hpatience
  have hstamp : Clock.timestamp c = (c.micros.value, { c with micros := c.micros.read.2 }) := rfl
  refine ⟨n, hpos, ?_, hle, hsoon⟩
  rw [hstamp, awaitMicros_eq]
  simp only [hpoll]

end DualClock

end SharedRadio
