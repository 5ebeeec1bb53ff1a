import SharedRadio.Proofs.Clock.Pace
import SharedRadio.Proofs.Coexistence.Wiring

/-!
# The bits of a frame in time

To send a level the tick counter is read, the level is written to the request line, and the counter
is read again until a bit is over. A `Period` is such a stretch of time, given by the numbers of the
reads at which it begins and ends, and `Period.accesses` lists what is done in it.

`sendByte_periods` says that a byte is sent in ten periods, one right after the other, which are
neither too short nor too long, wherever the counter stood and whether it wraps around in between or
not. If a write fails, the levels before it have been sent in this way, and nothing follows.
-/

namespace SharedRadio.Coexistence

open Counter (passed)

/-- A read of the tick counter, or a write of the request line. -/
inductive Access where
  /-- The tick counter is read. -/
  | reads
  /-- A level is written to the request line. -/
  | writes (level : Bool)
  deriving DecidableEq

namespace Rig

variable {κ : Type} [Clock κ]

/-- The rig after an access. -/
def access (r : Rig κ) : Access → Rig κ
  | .reads => { r with clock := (Clock.ticks r.clock).2 }
  | .writes level =>
    { r with request.writes := r.request.writes + 1 }.notice
      (.wrote level (!r.request.failing.contains r.request.writes) (Clock.ticks r.clock).1)

/-- The rig after some accesses, made in order. -/
def accessAll (r : Rig κ) (accesses : List Access) : Rig κ := accesses.foldl access r

@[simp] theorem accessAll_nil (r : Rig κ) : r.accessAll [] = r := rfl

theorem accessAll_cons (r : Rig κ) (a : Access) (accesses : List Access) :
    r.accessAll (a :: accesses) = (r.access a).accessAll accesses := rfl

theorem accessAll_append (r : Rig κ) (first second : List Access) :
    r.accessAll (first ++ second) = (r.accessAll first).accessAll second :=
  List.foldl_append

/-- A level that can be driven is waited out from the read before it. -/
theorem run_sendLevel_of_notMem {r : Rig κ} (h : r.request.writes ∉ r.request.failing)
    (bitTicks : UInt32) (level : Bool) :
    (Action.sendLevel bitTicks level).run r =
      (Action.awaitTicks (Clock.ticks r.clock).1 bitTicks).run
        (r.accessAll [.reads, .writes level]) := by
  have hdriven : (Action.drive level).run (r.access .reads) =
      (.ok (), (r.access .reads).access (.writes level)) := by
    rw [run_drive]
    simp [access, h]
  unfold Action.sendLevel
  show (Action.drive level >>= fun _ => _).run (r.access .reads) = _
  rw [run_bind, hdriven]
  rfl

/-- A level that cannot be driven is written, and not waited out. -/
theorem run_sendLevel_of_mem {r : Rig κ} (h : r.request.writes ∈ r.request.failing)
    (bitTicks : UInt32) (level : Bool) :
    (Action.sendLevel bitTicks level).run r =
      (.error .lineFault, r.accessAll [.reads, .writes level]) := by
  have hdriven : (Action.drive level).run (r.access .reads) =
      (.error .lineFault, (r.access .reads).access (.writes level)) := by
    rw [run_drive]
    simp [access, h]
  unfold Action.sendLevel
  show (Action.drive level >>= fun _ => _).run (r.access .reads) = _
  rw [run_bind, hdriven]
  rfl

/-- A write that fails is seen. -/
theorem exists_sightings_of_mem {r : Rig κ} (h : r.request.writes ∈ r.request.failing)
    (level : Bool) : ∃ tick, (r.accessAll [.reads, .writes level]).sightings =
      r.sightings ++ [.wrote level false tick] := by
  refine ⟨(Clock.ticks (Clock.ticks r.clock).2).1, ?_⟩
  simp [accessAll, access, notice, h]

end Rig

/-! ## Periods -/

/-- The time in which a level is sent. -/
structure Period where
  /-- The level that is sent. -/
  level : Bool
  /-- The number of the read of the tick counter with which it begins. -/
  first : Nat
  /-- The number of the read of the tick counter with which it ends. -/
  last : Nat
  deriving DecidableEq

namespace Period

/-- What is done in a period: the level is written after the read that it begins with, and before
all the reads that wait for its end. -/
def accesses (p : Period) : List Access :=
  .reads :: .writes p.level :: List.replicate (p.last - p.first) .reads

/-- What is noticed of the write in a period: it lands at the tick that the second read of the
period returns. The counter is as it was some reads earlier. -/
def write (c : Counter) (p : Period) : Sighting :=
  .wrote p.level true (c.after (p.first + 1 - c.reads)).value

/-- A write may be told from a later counter, as long as the period has not begun. -/
theorem write_after {c : Counter} {n : Nat} {p : Period} (h : (c.after n).reads ≤ p.first) :
    p.write (c.after n) = p.write c := by
  rw [Counter.reads_after] at h
  have hreads : n + (p.first + 1 - (c.reads + n)) = p.first + 1 - c.reads := by omega
  rw [write, write, Counter.reads_after, ← Counter.after_add, hreads]

/-- The ticks from the first read of a period to its last. -/
def length (pace : Nat → Nat) (p : Period) : Nat := passed pace p.first p.last

end Period

/-- Periods in which some levels are sent, one right after the other, with a pace of the ticks that
is at most `most`. The first one begins with the read number `start`. -/
structure Periods (pace : Nat → Nat) (most bitTicks start : Nat) (levels : List Bool)
    (periods : List Period) : Prop where
  /-- Each level has its period. -/
  levels_eq : periods.map Period.level = levels
  /-- The first period begins at the start. -/
  first_eq : ∀ p ∈ periods.head?, p.first = start
  /-- The level is waited out. -/
  lt : ∀ p ∈ periods, p.first < p.last
  /-- A period is not too short. -/
  le_length : ∀ p ∈ periods, bitTicks ≤ p.length pace
  /-- A period is not too long. -/
  length_le : ∀ p ∈ periods, p.length pace ≤ bitTicks - 1 + most
  /-- With the first read after a period the next one begins, neither too early nor too late. -/
  next : periods.IsChain fun p q => q.first = p.last + 1 ∧
    bitTicks ≤ passed pace p.first q.first ∧ passed pace p.first q.first ≤ bitTicks - 1 + 2 * most

namespace Periods

variable {pace : Nat → Nat} {most bitTicks start : Nat} {levels : List Bool}
  {periods : List Period}

theorem nil : Periods pace most bitTicks start [] [] := by
  constructor <;> simp

theorem start_le (h : Periods pace most bitTicks start levels periods) :
    ∀ p ∈ periods, start ≤ p.first := by
  have hnext : periods.IsChain fun p q => p.first ≤ q.first :=
    h.next.imp_of_mem_imp fun p q hp _ hpq => by
      have hlt := h.lt p hp
      omega
  refine hnext.induction (start ≤ Period.first ·) _ (fun _ _ hle hp => hp.trans hle) fun hne => ?_
  exact (h.first_eq _ (List.head?_eq_some_head hne)).ge

/-- A period before the others. -/
theorem cons {p : Period} (hfirst : p.first = start) (hlt : p.first < p.last)
    (hle : bitTicks ≤ p.length pace) (hlength : p.length pace ≤ bitTicks - 1 + most)
    (hpace : ∀ n, pace n ≤ most) (h : Periods pace most bitTicks (p.last + 1) levels periods) :
    Periods pace most bitTicks start (p.level :: levels) (p :: periods) where
  levels_eq := by rw [List.map_cons, h.levels_eq]
  first_eq := by simpa using hfirst
  lt := List.forall_mem_cons.mpr ⟨hlt, h.lt⟩
  le_length := List.forall_mem_cons.mpr ⟨hle, h.le_length⟩
  length_le := List.forall_mem_cons.mpr ⟨hlength, h.length_le⟩
  next := by
    refine List.isChain_cons.mpr ⟨fun q hq => ?_, h.next⟩
    have hbegins : q.first = p.last + 1 := h.first_eq q hq
    have hlast := hpace p.last
    unfold Period.length at hle hlength
    rw [hbegins, Counter.passed_succ pace hlt.le]
    omega

end Periods

/-! ## Sending -/

namespace Rig

variable {r : Rig DualClock} {pace : Nat → Nat} {most : Nat} {bitTicks : UInt32}

/-- Reads of the tick counter do nothing else. -/
theorem accessAll_replicate_reads (r : Rig DualClock) (n : Nat) :
    r.accessAll (List.replicate n .reads) =
      { r with clock := { r.clock with ticks := r.clock.ticks.after n } } := by
  induction n generalizing r with
  | zero => rfl
  | succ n ih =>
    rw [List.replicate_succ, accessAll_cons, ih]
    rfl

/-- A level that can be driven is sent in a period. -/
theorem exists_run_sendLevel (hpaced : r.clock.ticks.Paced pace most)
    (hwindow : most + bitTicks.toNat ≤ 2 ^ 32) (hpatience : UInt32.size ≤ r.clock.patience)
    (hlands : r.request.writes ∉ r.request.failing) (level : Bool) :
    ∃ p : Period, p.level = level ∧ p.first = r.clock.ticks.reads ∧ p.first < p.last ∧
      bitTicks.toNat ≤ p.length pace ∧ p.length pace ≤ bitTicks.toNat - 1 + most ∧
      (Action.sendLevel bitTicks level).run r = (.ok (), r.accessAll p.accesses) := by
  obtain ⟨n, hpos, hends, hle, hsoon⟩ :=
    DualClock.exists_awaitTicks_eq hpaced hwindow (Clock.patient_of_size_le hpatience bitTicks)
  refine ⟨⟨level, r.clock.ticks.reads, r.clock.ticks.reads + n⟩, rfl, rfl,
    Nat.lt_add_of_pos_right hpos, hle, hsoon, ?_⟩
  have hclock : (r.accessAll [.reads, .writes level]).clock = (Clock.ticks r.clock).2 := rfl
  have hreads := accessAll_replicate_reads (r.accessAll [.reads, .writes level]) n
  rw [run_sendLevel_of_notMem hlands, run_awaitTicks, hclock, hends, Period.accesses,
    Nat.add_sub_cancel_left]
  exact congrArg (Prod.mk (Except.ok ())) hreads.symm

theorem clock_accessAll_accesses (r : Rig DualClock) (p : Period) :
    (r.accessAll p.accesses).clock =
      { r.clock with ticks := r.clock.ticks.after (p.last - p.first + 1) } := by
  show ((r.accessAll [.reads, .writes p.level]).accessAll (List.replicate _ .reads)).clock = _
  rw [accessAll_replicate_reads]
  rfl

theorem request_accessAll_accesses (r : Rig DualClock) (p : Period) :
    (r.accessAll p.accesses).request = { r.request with writes := r.request.writes + 1 } := by
  show ((r.accessAll [.reads, .writes p.level]).accessAll (List.replicate _ .reads)).request = _
  rw [accessAll_replicate_reads]
  rfl

theorem request_accessAll_flatMap (r : Rig DualClock) (periods : List Period) :
    (r.accessAll (periods.flatMap Period.accesses)).request =
      { r.request with writes := r.request.writes + periods.length } := by
  induction periods generalizing r with
  | nil => rfl
  | cons p periods ih =>
    rw [List.flatMap_cons, accessAll_append, ih, request_accessAll_accesses, List.length_cons,
      Nat.add_comm periods.length, Nat.add_assoc]

/-- The write of a period is seen at the tick before the second read. -/
theorem sightings_accessAll_accesses {p : Period} (hfirst : p.first = r.clock.ticks.reads)
    (hlands : r.request.writes ∉ r.request.failing) :
    (r.accessAll p.accesses).sightings = r.sightings ++ [p.write r.clock.ticks] := by
  show ((r.accessAll [.reads, .writes p.level]).accessAll (List.replicate _ .reads)).sightings = _
  have htick : (Clock.ticks (Clock.ticks r.clock).2).1 = (r.clock.ticks.after 1).value := rfl
  rw [accessAll_replicate_reads, Period.write, hfirst, Nat.add_sub_cancel_left]
  simp [accessAll, access, notice, hlands, htick]

/-- Levels that can be driven are sent in periods, one right after the other. -/
theorem exists_run_sendLevels (levels : List Bool) (hpaced : r.clock.ticks.Paced pace most)
    (hwindow : most + bitTicks.toNat ≤ 2 ^ 32) (hpatience : UInt32.size ≤ r.clock.patience)
    (hlands : ∀ k < levels.length, r.request.writes + k ∉ r.request.failing) :
    ∃ periods, Periods pace most bitTicks.toNat r.clock.ticks.reads levels periods ∧
      (levels.forM (Action.sendLevel bitTicks)).run r =
        (.ok (), r.accessAll (periods.flatMap Period.accesses)) ∧
      (r.accessAll (periods.flatMap Period.accesses)).sightings =
        r.sightings ++ periods.map (Period.write r.clock.ticks) := by
  induction levels generalizing r with
  | nil => exact ⟨[], .nil, rfl, (List.append_nil _).symm⟩
  | cons level rest ih =>
    have hfirstLands := hlands 0 (Nat.succ_pos _)
    obtain ⟨p, rfl, hfirst, hlt, hle, hlength, hrun⟩ :=
      exists_run_sendLevel hpaced hwindow hpatience hfirstLands level
    have hclock := clock_accessAll_accesses r p
    have hrequest := request_accessAll_accesses r p
    have hreads : (r.accessAll p.accesses).clock.ticks.reads = p.last + 1 := by
      rw [hclock]
      show (r.clock.ticks.after _).reads = _
      rw [Counter.reads_after]
      omega
    obtain ⟨periods, hperiods, hrest, hwrites⟩ := @ih (r.accessAll p.accesses)
      (by rw [hclock]; exact hpaced.after _) (by rw [hclock]; exact hpatience)
      (fun k hk => by
        rw [hrequest]
        show r.request.writes + 1 + k ∉ r.request.failing
        rw [Nat.add_assoc, Nat.add_comm 1 k]
        exact hlands (k + 1) (Nat.succ_lt_succ hk))
    have hsame (q : Period) (hq : q ∈ periods) :
        q.write (r.accessAll p.accesses).clock.ticks = q.write r.clock.ticks := by
      have hbegins := hperiods.start_le q hq
      rw [hclock] at hbegins ⊢
      exact Period.write_after hbegins
    rw [hreads] at hperiods
    refine ⟨p :: periods, .cons hfirst hlt hle hlength hpaced.le hperiods, ?_, ?_⟩
    · show (Action.sendLevel bitTicks p.level >>= fun _ => rest.forM _).run r = _
      rw [run_bind, hrun, List.flatMap_cons, accessAll_append]
      exact hrest
    · rw [List.flatMap_cons, accessAll_append, hwrites, List.map_congr_left hsame,
        sightings_accessAll_accesses hfirst hfirstLands, List.append_assoc]
      rfl

/-- If a level cannot be driven, the levels before it are sent in periods, and it is the last that
is written. -/
theorem exists_run_sendLevels_of_mem (before after : List Bool) (level : Bool)
    (hpaced : r.clock.ticks.Paced pace most) (hwindow : most + bitTicks.toNat ≤ 2 ^ 32)
    (hpatience : UInt32.size ≤ r.clock.patience)
    (hlands : ∀ k < before.length, r.request.writes + k ∉ r.request.failing)
    (hfails : r.request.writes + before.length ∈ r.request.failing) :
    ∃ periods tick, Periods pace most bitTicks.toNat r.clock.ticks.reads before periods ∧
      ((before ++ level :: after).forM (Action.sendLevel bitTicks)).run r =
        (.error .lineFault,
          r.accessAll (periods.flatMap Period.accesses ++ [.reads, .writes level])) ∧
      (r.accessAll (periods.flatMap Period.accesses ++ [.reads, .writes level])).sightings =
        r.sightings ++ (periods.map (Period.write r.clock.ticks) ++ [.wrote level false tick]) := by
  obtain ⟨periods, hperiods, hrun, hwrites⟩ :=
    exists_run_sendLevels before hpaced hwindow hpatience hlands
  have hlength : periods.length = before.length := by
    rw [← hperiods.levels_eq, List.length_map]
  have hrequest := request_accessAll_flatMap r periods
  rw [hlength] at hrequest
  have hmem : (r.accessAll (periods.flatMap Period.accesses)).request.writes ∈
      (r.accessAll (periods.flatMap Period.accesses)).request.failing := by
    rw [hrequest]
    exact hfails
  obtain ⟨tick, htick⟩ := exists_sightings_of_mem hmem level
  refine ⟨periods, tick, hperiods, ?_, ?_⟩
  · rw [List.forM_eq_forM, List.forM_append, ← List.forM_eq_forM, run_bind, hrun]
    show (Action.sendLevel bitTicks level >>= fun _ => after.forM _).run _ = _
    rw [run_bind, run_sendLevel_of_mem hmem, accessAll_append]
    rfl
  · rw [accessAll_append, htick, hwrites, List.append_assoc]

/-- **A byte is sent in ten periods**, one for each level of its frame, unless a write fails. Then
the levels before it have been sent in periods, and that write is the last thing that happens. -/
theorem sendByte_periods (r : Rig DualClock) (byte : UInt8) (bitTicks : UInt32)
    (hpaced : r.clock.ticks.Paced pace most) (hwindow : most + bitTicks.toNat ≤ 2 ^ 32)
    (hpatience : UInt32.size ≤ r.clock.patience) :
    ((∀ k < 10, r.request.writes + k ∉ r.request.failing) →
      ∃ periods,
        Periods pace most bitTicks.toNat r.clock.ticks.reads (Frame.levels byte) periods ∧
        (Action.sendByte bitTicks byte).run r =
          (.ok (), r.accessAll (periods.flatMap Period.accesses)) ∧
        (r.accessAll (periods.flatMap Period.accesses)).sightings =
          r.sightings ++ periods.map (Period.write r.clock.ticks)) ∧
    ∀ k < 10, (∀ j < k, r.request.writes + j ∉ r.request.failing) →
      r.request.writes + k ∈ r.request.failing →
      ∃ periods level tick,
        Periods pace most bitTicks.toNat r.clock.ticks.reads ((Frame.levels byte).take k) periods ∧
        (Frame.levels byte)[k]? = some level ∧
        (Action.sendByte bitTicks byte).run r =
          (.error .lineFault,
            r.accessAll (periods.flatMap Period.accesses ++ [.reads, .writes level])) ∧
        (r.accessAll (periods.flatMap Period.accesses ++ [.reads, .writes level])).sightings =
          r.sightings ++
            (periods.map (Period.write r.clock.ticks) ++ [.wrote level false tick]) := by
  have hcount : (Frame.levels byte).length = 10 := Frame.length_levels byte
  constructor
  · intro hlands
    exact exists_run_sendLevels (Frame.levels byte) hpaced hwindow hpatience (by rwa [hcount])
  · intro k hk hlands hfails
    have hlt : k < (Frame.levels byte).length := by rwa [hcount]
    have hbefore : ((Frame.levels byte).take k).length = k := by
      rw [List.length_take]
      omega
    obtain ⟨periods, tick, hperiods, hrun, hwrites⟩ :=
      exists_run_sendLevels_of_mem ((Frame.levels byte).take k) ((Frame.levels byte).drop (k + 1))
        (Frame.levels byte)[k] hpaced hwindow hpatience (by rwa [hbefore]) (by rwa [hbefore])
    rw [← List.drop_eq_getElem_cons hlt, List.take_append_drop] at hrun
    exact ⟨periods, _, tick, hperiods, List.getElem?_eq_getElem hlt, hrun, hwrites⟩

/-- A rig whose tick counter goes on by three and by one in turn and soon wraps around, and some of
whose writes fail. -/
def wrapping (failing : List Nat) : Rig DualClock where
  request := { failing }
  clock := { ticks := { value := 0xFFFFFFF8, increment := fun n => if n % 2 = 0 then 3 else 1 } }

theorem paced_wrapping (failing : List Nat) :
    (wrapping failing).clock.ticks.Paced (fun n => if n % 2 = 0 then 3 else 1) 3 where
  shows n := by
    show (if n % 2 = 0 then 3 else 1 : UInt32) = _
    split <;> rfl
  pos n := by split <;> decide
  le n := by split <;> decide

/-- A byte is sent while the counter wraps around. If the fifth write fails, four levels have been
sent in time by then. -/
theorem sendByte_periods_wrapping :
    (∃ periods, Periods (fun n => if n % 2 = 0 then 3 else 1) 3 5 0 (Frame.levels 0xA5) periods ∧
      (Action.sendByte 5 0xA5).run (wrapping []) =
        (.ok (), (wrapping []).accessAll (periods.flatMap Period.accesses))) ∧
    ((Action.sendByte 5 0xA5).run (wrapping [])).2.clock.ticks.value = 72 ∧
    ∃ periods, Periods (fun n => if n % 2 = 0 then 3 else 1) 3 5 0 [false, true, false, true]
        periods ∧
      (Action.sendByte 5 0xA5).run (wrapping [4]) =
        (.error .lineFault, (wrapping [4]).accessAll
          (periods.flatMap Period.accesses ++ [.reads, .writes false])) := by
  obtain ⟨hsent, -⟩ :=
    sendByte_periods (wrapping []) 0xA5 5 (paced_wrapping []) (by decide) (by decide)
  obtain ⟨-, hcut⟩ :=
    sendByte_periods (wrapping [4]) 0xA5 5 (paced_wrapping [4]) (by decide) (by decide)
  obtain ⟨periods, hperiods, hrun, -⟩ := hsent (by decide)
  obtain ⟨periods', level, tick, hperiods', hlevel, hrun', -⟩ :=
    hcut 4 (by decide) (by decide) (by decide)
  obtain rfl : false = level := Option.some.inj hlevel
  exact ⟨⟨periods, hperiods, hrun⟩, by decide +kernel, periods', hperiods', hrun'⟩

end Rig

end SharedRadio.Coexistence
