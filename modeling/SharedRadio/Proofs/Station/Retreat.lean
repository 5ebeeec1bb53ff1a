import SharedRadio.Clock.Cycle
import SharedRadio.Proofs.Coexistence.Return
import SharedRadio.Proofs.Station.Failure

/-!
# What happens when a request cannot be signalled

A request for access is two frames on the request line, and any of their twenty writes may fail. The
engine gives up any access then and signals a release, as far as that can be. `retreats_of_request`
says what is seen on the line, what the request comes to and where the engine stands afterwards, for
every station and whichever writes of the request and of the release fail. After a denial, too, the
engine stands where it should, whether or not its release gets onto the line.

All of this happens if the request returns. For that the bits have to end and the pauses that are
due, and a pause behind the write that fails is not due: a request that is cut comes back to its
caller even if its sample window would never pass.
-/

namespace SharedRadio.Station

open Coexistence

variable {σ κ : Type}

/-- A request for access in direction `d` is taken back after `k` of its writes have landed. -/
structure Retreats (d : Direction) (k : Nat) (before after : Engine κ) (t : List Sighting) :
    Prop where
  /-- The line gets the first levels of the request, and then those of a release up to the first
  one that cannot be driven. -/
  driven : drivenLevels t = (Engine.requestLevels before.flags d).take k ++
    (Frame.levels Message.release).take ((before.rig.request.after (k + 1)).reach 10)
  /-- No deny line is read. -/
  unsampled : ∀ c reading, .sampled c reading ∉ t
  /-- No access is held. -/
  held : after.held = none
  /-- No deny line is watched. -/
  unwatched : ∀ c, (after.rig.denyLine c).armed = false
  monitored : after.monitored = d
  /-- A request and a release are counted, as far as a word can count. -/
  counted : ∀ o ∈ [Occurrence.request, .release],
    after.statistics.count d o = min (before.statistics.count d o + 1) (UInt32.size - 1)
  /-- Nothing else is counted. -/
  uncounted : ∀ c o, (c, o) ∉ [(d, Occurrence.request), (d, .release)] →
    after.statistics.count c o = before.statistics.count c o

/-- Turning to a deny line and then giving up leaves no deny line watched. -/
theorem unwatched_of_vacate {e' : Engine κ} {d : Direction} {v : Stance} (hfaces : Faces v d)
    (hstance : e'.stance = v.vacate) (c : Direction) : (e'.rig.denyLine c).armed = false :=
  calc (e'.rig.denyLine c).armed = e'.stance.armed c := rfl
    _ = false := by rw [hstance, hfaces.armed_vacate c]

theorem retreats_of_cut {e e' : Engine κ} {d : Direction} {t : List Sighting}
    (hfaces : Faces e.stance e.monitored)
    (hstance : e'.stance = ((e.stance.count d .request).turn d).vacate)
    (hdriven : drivenLevels t =
      (Engine.requestLevels e.flags d).take (e.rig.request.reach 20) ++
        (Frame.levels Message.release).take
          ((e.rig.request.after (e.rig.request.reach 20 + 1)).reach 10))
    (hunread : ∀ c, readings c t = []) : Retreats d (e.rig.request.reach 20) e e' t := by
  have hturned : Faces ((e.stance.count d .request).turn d) d := (hfaces.count d .request).turn d
  have hstatistics : e'.statistics = e.statistics.bumpAll [(d, .request), (d, .release)] :=
    calc e'.statistics = e'.stance.statistics := rfl
      _ = ((e.stance.count d .request).turn d).statistics.bump
          ((e.stance.count d .request).turn d).monitored .release := by rw [hstance]; rfl
      _ = (e.statistics.bump d .request).bump d .release := by
          rw [hturned.monitored, Engine.turn_statistics]
          rfl
  have hcount (c : Direction) (o : Occurrence) : e'.statistics.count c o =
      min (e.statistics.count c o + [(d, Occurrence.request), (d, .release)].count (c, o))
        (UInt32.size - 1) := by
    rw [hstatistics, Statistics.count_bumpAll]
  refine ⟨hdriven, fun c reading => notMem_of_readings (hunread c) reading, ?held,
    unwatched_of_vacate hturned hstance, ?monitored, ?counted, ?uncounted⟩
  case held => exact congrArg Stance.held hstance
  case monitored => exact (congrArg Stance.monitored hstance).trans hturned.monitored
  case counted =>
    intro o ho
    rw [hcount]
    simp only [List.mem_cons, List.not_mem_nil, or_false] at ho
    rcases ho with rfl | rfl <;> simp
  case uncounted =>
    intro c o hnot
    have hlt : e.statistics.count c o < UInt32.size := UInt32.toNat_lt _
    rw [hcount, List.count_eq_zero.mpr hnot]
    omega

variable [Clock κ]

/-- An operation of the engine that does not come to an end is endless for whoever has called it. -/
theorem isEndless_operate {s : Station σ κ} {e : Engine κ} (he : s.engine = some e)
    (operation : Engine.Operation) :
    (s.operate operation).progress.isEndless = false ↔
      (e.act (.perform operation)).1 ≠ .error .endless := by
  rw [operate_eq he]
  rcases (e.act (.perform operation)).1 with (f | _) | _ | state <;>
    simp [finish, outcomeOf, Outcome.ofHalt, Progress.isEndless]

/-- **A request that cannot be signalled is taken back**, wherever the line fails, and the release
that follows is signalled as far as that can be. A request that is denied is taken back, too, and a
release that cannot be signalled changes no more than what the request comes to. -/
theorem retreats_of_request (preemption : Bool) (moves : List (Move σ κ)) {e : Engine κ}
    (hspares : ∀ m ∈ (Run.play preemption moves).session, m.Spares)
    (he : (Run.play preemption moves).station.engine = some e) (henabled : e.enabled = true)
    {d : Direction} (hmatters : ¬ (d = .rx ∧ e.flags.rx = false)) {r : Reaction σ κ}
    (hr : (Run.play preemption moves).station.call (.engine (.request d)) = r) :
    ∃ e', r.station.engine = some e' ∧
      (Clock.Lively e.config.bitTicks e.duePauses e.rig.clock → r.progress.isEndless = false) ∧
      (r.progress.isEndless = false →
        ((∃ i < 20, e.rig.request.writes + i ∈ e.rig.request.failing) →
          r.progress = .finished (.failed .gpio) ∧ e.rig.request.reach 20 < 20 ∧
            Retreats d (e.rig.request.reach 20) e e' r.sightings) ∧
        ((∀ i < 20, e.rig.request.writes + i ∉ e.rig.request.failing) →
          ∀ high, (e.rig.denyLine d).read.1 = some high → e.config.denyLevel.denies high = true →
            r.progress = .finished (.failed
              (if (e.rig.request.after 20).reach 10 = 10 then .denied else .gpio)) ∧
            e'.held = none ∧ ∀ c, (e'.rig.denyLine c).armed = false)) := by
  have hfaces : Faces e.stance e.monitored := faces_play preemption moves hspares he
  have hsignalled : e.IsSignalled d := ⟨henabled, hmatters⟩
  have hreturns := isEndless_operate he (.request d)
  rw [show (Run.play preemption moves).station.operate (.request d) = r from hr] at hreturns
  obtain rfl : _ = r := (operate_eq he (.request d)).symm.trans hr
  refine ⟨_, rfl, fun hlively => hreturns.mpr (Engine.request_ne_endless hsignalled hlively), ?_⟩
  intro hends
  obtain ⟨x, hx, proceeds⟩ := Engine.exists_proceeds hsignalled (hreturns.mp hends)
  rw [hx]
  refine ⟨fun hfails => ?cut, fun hlands high hshown hdenies => ?denied⟩
  case cut =>
    -- The line ends the request before anything is read, whatever the deny line shows.
    have hreach := RequestLine.reach_lt_iff.mpr hfails
    obtain ⟨rfl, hstance, hdriven, hunread⟩ := proceeds.of_lt hreach
    exact ⟨rfl, hreach, retreats_of_cut hfaces hstance hdriven hunread⟩
  case denied =>
    obtain ⟨rfl, hstance⟩ := proceeds.of_denies (RequestLine.reach_eq_iff.mpr hlands) hdenies
      fun reading hread => hshown.symm.trans ((e.heeds_perform (.request d)).2 d reading hread)
    have hturned : Faces (((e.stance.count d .request).turn d).count d .timeout) d :=
      ((hfaces.count d .request).turn d).count d .timeout
    exact ⟨rfl, congrArg Stance.held hstance, unwatched_of_vacate hturned hstance⟩

/-- A request for access to transmit is granted. -/
def granted : List (Move Unit DualClock) :=
  [.call (.install
      { bitTicks := 1, guardMicros := 1, sampleMicros := 1, defaultPriority := .both }
      { clock := { patience := 2 } }),
    .call (.engine (.request .tx))]

/-- The clock begins anew, and two writes of the request line will fail. -/
def unsettle (rig : Rig DualClock) : Rig DualClock :=
  { rig with request.failing := [44, 48], clock := { patience := 2 } }

/-- The engine that holds access on an unsettled rig. -/
theorem exists_unsettled : ∃ e,
    (Run.play true (granted ++ [.call (.disturb unsettle)])).station.engine = some e ∧
      (e.enabled = true ∧ e.flags = .both ∧ e.held = some .tx) ∧
      (e.config.bitTicks = 1 ∧ e.config.guardMicros = 1 ∧ e.config.sampleMicros = 1) ∧
      e.rig.clock = { patience := 2 } ∧ e.rig.request = { writes := 31, failing := [44, 48] } := by
  have hstands : (Run.play true granted).station.engine.map
      (fun e => (e.enabled, e.flags, e.held)) = some (true, .both, some .tx) := by
    decide +kernel
  have hconfig : (Run.play true granted).station.engine.map (fun e =>
      (e.config.bitTicks, e.config.guardMicros, e.config.sampleMicros, e.rig.request.writes)) =
        some (1, 1, 1, 31) := by
    decide +kernel
  obtain ⟨e, he, hstands⟩ := Option.map_eq_some_iff.mp hstands
  simp only [he, Option.map_some, Option.some.injEq, Prod.mk.injEq] at hstands hconfig
  obtain ⟨hbit, hguard, hsample, hwrites⟩ := hconfig
  have hafter := (Run.engine_play_disturb true granted unsettle).trans (congrArg (Option.map _) he)
  exact ⟨_, hafter, hstands, ⟨hbit, hguard, hsample⟩, rfl, hwrites ▸ rfl⟩

/-- An engine on a core of 64 megahertz whose sample window is as long as the clock cannot wait. -/
def windowless : List (Move Unit CycleClock) :=
  [.call (.install { bitTicks := 1, sampleMicros := 67108864 } { clock := .ofCoreHz 64000000 })]

/-- The clock begins anew, and the fourth level that is going to be written will not land. -/
def interfere (rig : Rig CycleClock) : Rig CycleClock :=
  { rig with request.failing := [14], clock := .ofCoreHz 64000000 }

theorem exists_windowless : ∃ e,
    (Run.play true (windowless ++ [.call (.disturb interfere)])).station.engine = some e ∧
      (e.enabled = true ∧ e.config.sampleMicros = 67108864) ∧
      e.rig.clock = .ofCoreHz 64000000 ∧ e.rig.request = { writes := 11, failing := [14] } := by
  have hstands : (Run.play true windowless).station.engine.map (fun e =>
      (e.enabled, e.config.sampleMicros, e.rig.request.writes)) = some (true, 67108864, 11) := by
    decide +kernel
  obtain ⟨e, he, hstands⟩ := Option.map_eq_some_iff.mp hstands
  simp only [Prod.mk.injEq] at hstands
  obtain ⟨henabled, hsample, hwrites⟩ := hstands
  have hafter := (Run.engine_play_disturb true windowless interfere).trans
    (congrArg (Option.map _) he)
  exact ⟨_, hafter, ⟨henabled, hsample⟩, rfl, hwrites ▸ rfl⟩

/-- A request for access to receive gets thirteen levels onto the unsettled line, and its release
gets three. No access is held any more, and the deny line for receiving is the monitored one. On the
other engine a request returns after three levels, before its sample window. -/
theorem retreats_of_request_unsettled :
    (∃ e r e', (Run.play true (granted ++ [.call (.disturb unsettle)])).station.engine = some e ∧
      e.held = some .tx ∧
      (Run.play true (granted ++ [.call (.disturb unsettle)])).station.call
        (.engine (.request .rx)) = r ∧
      r.progress = .finished (.failed .gpio) ∧ r.station.engine = some e' ∧
      Retreats .rx 13 e e' r.sightings ∧
      drivenLevels r.sightings = [false, true, false, true, false, false, true, true, true, true,
        false, false, false] ++ [false, false, false]) ∧
    ∃ e r e',
      (Run.play true (windowless ++ [.call (.disturb interfere)])).station.engine = some e ∧
      e.config.sampleMicros = 67108864 ∧
      (Run.play true (windowless ++ [.call (.disturb interfere)])).station.call
        (.engine (.request .tx)) = r ∧
      r.progress = .finished (.failed .gpio) ∧ r.station.engine = some e' ∧
      Retreats .tx 3 e e' r.sightings := by
  constructor
  · have hspares : ∀ m ∈ (Run.play true (granted ++ [.call (.disturb unsettle)])).session,
        m.Spares := by
      decide +kernel
    obtain ⟨e, he, ⟨henabled, hflags, hheld⟩, ⟨hbit, hguard, -⟩, hclock, hrequest⟩ :=
      exists_unsettled
    have hpaced : ({} : Counter).Paced (fun _ => 1) 1 :=
      ⟨fun _ => rfl, fun _ => Nat.one_pos, fun _ => le_rfl⟩
    have hdue : e.duePauses = [e.config.guardMicros] := by
      rw [Engine.duePauses, hrequest]
      rfl
    have hlively : Clock.Lively e.config.bitTicks e.duePauses e.rig.clock := by
      rw [hdue, hbit, hguard, hclock]
      exact DualClock.lively hpaced hpaced (by decide)
        (List.forall_mem_singleton.mpr (by decide))
    obtain ⟨e', hafter, hreturns, hretreats⟩ := retreats_of_request true _ hspares he henabled
      (d := .rx) (by rw [hflags]; decide) rfl
    obtain ⟨hprogress, -, hretreats⟩ :=
      (hretreats (hreturns hlively)).1 (by rw [hrequest]; decide)
    have hdriven := hretreats.driven
    rw [hrequest] at hretreats
    rw [hrequest, hflags] at hdriven
    exact ⟨e, _, e', he, hheld, rfl, hprogress, hafter, hretreats, hdriven.trans (by decide)⟩
  · have hspares : ∀ m ∈ (Run.play true (windowless ++ [.call (.disturb interfere)])).session,
        m.Spares := by
      decide +kernel
    obtain ⟨e, he, ⟨henabled, hsample⟩, hclock, hrequest⟩ := exists_windowless
    have hdue : e.duePauses = [] := by
      rw [Engine.duePauses, hrequest]
      rfl
    have hsteady : e.rig.clock.Steady (CycleClock.cyclesPerMicroOf 64000000) := by
      rw [hclock]
      exact ⟨fun _ => rfl, rfl⟩
    have hlively : Clock.Lively e.config.bitTicks e.duePauses e.rig.clock := by
      rw [hdue]
      exact hsteady.lively (CycleClock.cyclesPerMicroOf_ne_zero _) _ (List.forall_mem_nil _)
    obtain ⟨e', hafter, hreturns, hretreats⟩ := retreats_of_request true _ hspares he henabled
      (d := .tx) (by simp) rfl
    obtain ⟨hprogress, -, hretreats⟩ :=
      (hretreats (hreturns hlively)).1 (by rw [hrequest]; decide)
    rw [hrequest] at hretreats
    exact ⟨e, _, e', he, hsample, rfl, hprogress, hafter, hretreats⟩

end SharedRadio.Station
