import SharedRadio.Proofs.Station.Retreat

/-!
# What a request comes to when nothing fails

A request for access is signalled if the engine is enabled, unless it is one to receive without
receive priority; any other request is granted at once. One that is signalled is denied exactly if
its deny line denies access when it is read. `verdict_of_request` says so of every station, whatever
access its engine holds and whatever has been denied or has failed before, and it says where the
engine stands after each of these.

What is assumed of the request itself is that nothing fails in its course: the writes land, the deny
line can be read, and the request returns, which it does if its waits end.
-/

namespace SharedRadio

namespace Coexistence

variable {κ : Type}

/-- Some occurrences are counted, as far as words can count, and no others. -/
def Statistics.GoesUp (before after : Statistics) (l : List (Direction × Occurrence)) : Prop :=
  ∀ c o, after.count c o = min (before.count c o + l.count (c, o)) (UInt32.size - 1)

theorem Statistics.goesUp_of_eq {before after : Statistics} {l : List (Direction × Occurrence)}
    (h : after = before.bumpAll l) : before.GoesUp after l := fun c o => by
  rw [h, count_bumpAll]

namespace Engine

/-- The engine after a request that is granted at once. -/
def afterPassing (e : Engine κ) (d : Direction) : Engine κ :=
  { e with
    statistics :=
      if d = .rx ∧ e.flags.rx = false then e.statistics.bump d .immediateGrant else e.statistics
    rig := { e.rig with sightings := [] } }

/-- A request that is not signalled is granted, and of the engine nothing changes but a counter. -/
theorem act_request_of_not_isSignalled [Clock κ] {e : Engine κ} {d : Direction}
    (h : ¬ e.IsSignalled d) :
    e.act (.perform (.request d)) = (.ok none, [], e.afterPassing d) := by
  have hask : (Action.ask d).run { e with rig.sightings := [] } =
      (.ok none, e.afterPassing d) := by
    unfold Action.ask afterPassing
    rw [run_get_bind]
    by_cases hlow : d = .rx ∧ e.flags.rx = false
    · rw [if_pos hlow, if_pos hlow]
      rfl
    · have hdisabled : ¬ e.enabled = true := fun henabled => h ⟨henabled, hlow⟩
      rw [if_neg hlow, if_neg hlow, if_neg hdisabled]
      rfl
  unfold act Action.perform Action.request
  rw [run_bind, run_bind, hask]
  rfl

end Engine

end Coexistence

namespace Station

open Coexistence

variable {σ κ : Type}

/-- A request for access in direction `d` has been denied. -/
structure Denied (d : Direction) (before after : Engine κ) : Prop where
  /-- No access is held. -/
  held : after.held = none
  /-- No deny line is watched. -/
  unwatched : ∀ c, (after.rig.denyLine c).armed = false
  monitored : after.monitored = d
  counted : before.statistics.GoesUp after.statistics
    [(d, .request), (d, .timeout), (d, .release)]

/-- A request for access in direction `d` has been granted after it was signalled. -/
structure Granted (d : Direction) (before after : Engine κ) : Prop where
  held : after.held = some d
  /-- The deny line of this direction is watched, and the other one is not. -/
  watched : ∀ c, (after.rig.denyLine c).armed = decide (c = d)
  monitored : after.monitored = d
  counted : before.statistics.GoesUp after.statistics [(d, .request), (d, .grant)]

/-- What a request for access in direction `d` comes to if its deny line shows a level. -/
structure Verdict (d : Direction) (high : Bool) (before after : Engine κ) (r : Reaction σ κ) :
    Prop where
  /-- It is denied exactly if it is signalled and its deny line denies access. -/
  denied_iff : r.progress = .finished (.failed .denied) ↔
    before.IsSignalled d ∧ before.config.denyLevel.denies high = true
  /-- Otherwise it succeeds. -/
  done_iff : r.progress = .finished .done ↔
    ¬ (before.IsSignalled d ∧ before.config.denyLevel.denies high = true)
  /-- If it is signalled, the deny line is read. -/
  sampled : before.IsSignalled d → (readings d r.sightings).head? = some (some high)
  denied : r.progress = .finished (.failed .denied) → Denied d before after
  granted : before.IsSignalled d → r.progress = .finished .done → Granted d before after
  /-- If it is not signalled, nothing is noticed of the lines, and at most a counter changes. -/
  passed : ¬ before.IsSignalled d → r.sightings = [] ∧ after = before.afterPassing d

variable {e e' : Engine κ} {d : Direction}

theorem denied_of_stance (hfaces : Faces e.stance e.monitored)
    (hstance : e'.stance = (((e.stance.count d .request).turn d).count d .timeout).vacate) :
    Denied d e e' := by
  have hturned : Faces (((e.stance.count d .request).turn d).count d .timeout) d :=
    ((hfaces.count d .request).turn d).count d .timeout
  refine ⟨congrArg Stance.held hstance, unwatched_of_vacate hturned hstance,
    (congrArg Stance.monitored hstance).trans hturned.monitored, Statistics.goesUp_of_eq ?_⟩
  calc e'.statistics
      = (((e.stance.count d .request).turn d).count d .timeout).vacate.statistics :=
        congrArg Stance.statistics hstance
    _ = (((e.stance.count d .request).turn d).statistics.bump d .timeout).bump
          (((e.stance.count d .request).turn d).count d .timeout).monitored .release := rfl
    _ = e.statistics.bumpAll [(d, .request), (d, .timeout), (d, .release)] := by
        rw [hturned.monitored, Engine.turn_statistics]
        rfl

theorem granted_of_stance (hfaces : Faces e.stance e.monitored) (henabled : e.enabled = true)
    (hstance : e'.stance =
      { ((e.stance.count d .request).turn d).arm d with held := some d }.count d .grant) :
    Granted d e e' := by
  have hturned : Faces ((e.stance.count d .request).turn d) d := (hfaces.count d .request).turn d
  have hwatchful := hturned.grant ((Stance.turn_enabled _ d).trans henabled)
  have hmonitored : e'.monitored = d :=
    (congrArg Stance.monitored hstance).trans hturned.monitored
  refine ⟨congrArg Stance.held hstance, fun c => ?_, hmonitored, Statistics.goesUp_of_eq ?_⟩
  · rw [← hstance] at hwatchful
    calc (e'.rig.denyLine c).armed
        = (e'.held.isSome && decide (c = e'.monitored)) := hwatchful.armed_eq c
      _ = decide (c = d) := by
          rw [show e'.held = some d from congrArg Stance.held hstance, hmonitored]
          exact Bool.true_and _
  · calc e'.statistics
        = ((e.stance.count d .request).turn d).statistics.bump d .grant :=
          congrArg Stance.statistics hstance
      _ = e.statistics.bumpAll [(d, .request), (d, .grant)] := by
          rw [Engine.turn_statistics]
          rfl

/-- A request that is signalled, and in the course of which nothing fails, is denied or granted. -/
theorem verdict_of_proceeds {high : Bool} {x : Except Engine.Halt Unit} {t : List Sighting}
    {s : Station σ κ} (hsignalled : e.IsSignalled d) (hfaces : Faces e.stance e.monitored)
    (hlands : ∀ i < 30, e.rig.request.writes + i ∉ e.rig.request.failing)
    (hshown : ∀ reading, (readings d t).head? = some reading → some high = reading)
    (proceeds : Engine.Proceeds e.rig.request d e.stance x t e'.stance) :
    Verdict d high e e' (s.finish t (outcomeOf (x.map fun _ => none))) := by
  have hrequest : e.rig.request.reach 20 = 20 :=
    RequestLine.reach_eq_iff.mpr fun i hi => hlands i (by omega)
  have hrelease : (e.rig.request.after 20).reach 10 = 10 :=
    RequestLine.reach_eq_iff.mpr fun i hi => by
      rw [RequestLine.after, Nat.add_assoc]
      exact hlands (20 + i) (by omega)
  generalize hstance : e'.stance = w at proceeds
  cases proceeds with
  | cut fails => exact absurd hrequest fails.ne
  | unread lands read => cases hshown _ read
  | refused lands high' read denies =>
    obtain rfl := Option.some.inj (hshown _ read)
    have hdenied : e.IsSignalled d ∧ e.config.denyLevel.denies high = true :=
      ⟨hsignalled, denies⟩
    rw [if_pos hrelease]
    refine ⟨iff_of_true rfl hdenied, iff_of_false (fun hdone => ?_) fun h => h hdenied,
      fun _ => read, fun _ => denied_of_stance hfaces hstance, fun _ hdone => ?_,
      fun h => absurd hsignalled h⟩
    all_goals cases hdone
  | granted lands high' read passes =>
    obtain rfl := Option.some.inj (hshown _ read)
    have hgranted : ¬ (e.IsSignalled d ∧ e.config.denyLevel.denies high = true) := fun h =>
      Bool.noConfusion (h.2.symm.trans passes)
    refine ⟨iff_of_false (fun hfails => ?_) hgranted, iff_of_true rfl hgranted, fun _ => read,
      fun hfails => ?_, fun _ _ => granted_of_stance hfaces hsignalled.1 hstance,
      fun h => absurd hsignalled h⟩
    all_goals cases hfails

variable [Clock κ]

/-- **A request is denied exactly if its deny line says so**, as long as nothing fails. -/
theorem verdict_of_request (preemption : Bool) (moves : List (Move σ κ))
    (hspares : ∀ m ∈ (Run.play preemption moves).session, m.Spares)
    (he : (Run.play preemption moves).station.engine = some e) {high : Bool}
    (hlands : ∀ i < 30, e.rig.request.writes + i ∉ e.rig.request.failing)
    (hshown : (e.rig.denyLine d).read.1 = some high) {r : Reaction σ κ}
    (hr : (Run.play preemption moves).station.call (.engine (.request d)) = r) :
    ∃ e', r.station.engine = some e' ∧
      ((e.IsSignalled d → Clock.Lively e.config.bitTicks
        [e.config.guardMicros, e.config.sampleMicros] e.rig.clock) →
          r.progress.isEndless = false) ∧
      (r.progress.isEndless = false → Verdict d high e e' r) := by
  have hreturns := isEndless_operate he (.request d)
  rw [show (Run.play preemption moves).station.operate (.request d) = r from hr] at hreturns
  obtain rfl : _ = r := (operate_eq he (.request d)).symm.trans hr
  refine ⟨_, rfl, ?_⟩
  by_cases hsignalled : e.IsSignalled d
  · have hreach : e.rig.request.reach 20 = 20 :=
      RequestLine.reach_eq_iff.mpr fun i hi => hlands i (by omega)
    refine ⟨fun hlively => ?returns, fun hends => ?verdict⟩
    case returns =>
      refine hreturns.mpr (Engine.request_ne_endless hsignalled ?_)
      rw [Engine.duePauses_of_lands hreach]
      exact hlively hsignalled
    case verdict =>
      obtain ⟨x, hx, proceeds⟩ := Engine.exists_proceeds hsignalled (hreturns.mp hends)
      exact hx ▸ verdict_of_proceeds hsignalled (faces_play preemption moves hspares he) hlands
        (fun reading hread => hshown.symm.trans ((e.heeds_perform (.request d)).2 d reading hread))
        proceeds
  · rw [Engine.act_request_of_not_isSignalled hsignalled]
    refine ⟨fun _ => rfl, fun _ => ⟨?_, ?_, fun h => absurd h hsignalled, nofun,
      fun h => absurd h hsignalled, fun _ => ⟨rfl, rfl⟩⟩⟩
    · exact iff_of_false nofun fun h => hsignalled h.1
    · exact iff_of_true rfl fun h => hsignalled h.1

/-- Access to transmit is granted, and then changed to receiving. -/
def changedOver : List (Move Unit DualClock) := granted ++ [.call (.engine (.change .rx))]

/-- The clock begins anew, and the deny line for receiving is going to deny access. -/
def deny (rig : Rig DualClock) : Rig DualClock :=
  { rig with rxDeny.queued := [some true], clock := { patience := 2 } }

/-- The engine holds access to receive then, while the other deny line is the monitored one. -/
theorem exists_changedOver : ∃ e,
    (Run.play true (changedOver ++ [.call (.disturb deny)])).station.engine = some e ∧
      (e.enabled = true ∧ e.flags = .both ∧ e.held = some .rx ∧ e.monitored = .tx) ∧
      (e.config.bitTicks = 1 ∧ e.config.guardMicros = 1 ∧ e.config.sampleMicros = 1 ∧
        e.config.denyLevel = .high) ∧
      e.rig.clock = { patience := 2 } ∧ e.rig.request.failing = [] ∧
      (e.rig.denyLine .rx).read.1 = some true := by
  have hstands : (Run.play true changedOver).station.engine.map
      (fun e => (e.enabled, e.flags, e.held, e.monitored)) =
        some (true, .both, some .rx, .tx) := by
    decide +kernel
  have hconfig : (Run.play true changedOver).station.engine.map (fun e =>
      (e.config.bitTicks, e.config.guardMicros, e.config.sampleMicros, e.config.denyLevel,
        e.rig.request.failing)) = some (1, 1, 1, .high, []) := by
    decide +kernel
  obtain ⟨e, he, hstands⟩ := Option.map_eq_some_iff.mp hstands
  simp only [he, Option.map_some, Option.some.injEq, Prod.mk.injEq] at hstands hconfig
  obtain ⟨hbit, hguard, hsample, hlevel, hfailing⟩ := hconfig
  have hafter := (Run.engine_play_disturb true changedOver deny).trans
    (congrArg (Option.map _) he)
  exact ⟨_, hafter, hstands, ⟨hbit, hguard, hsample, hlevel⟩, rfl, hfailing, rfl⟩

/-- It asks for access to receive once more, is denied, and holds no access any more. -/
theorem verdict_of_request_changedOver :
    ∃ e r e', (Run.play true (changedOver ++ [.call (.disturb deny)])).station.engine = some e ∧
      e.held = some .rx ∧ e.monitored = .tx ∧
      (Run.play true (changedOver ++ [.call (.disturb deny)])).station.call
        (.engine (.request .rx)) = r ∧
      r.station.engine = some e' ∧ Verdict .rx true e e' r ∧
      r.progress = .finished (.failed .denied) ∧ Denied .rx e e' := by
  have hspares : ∀ m ∈ (Run.play true (changedOver ++ [.call (.disturb deny)])).session,
      m.Spares := by
    decide +kernel
  obtain ⟨e, he, ⟨henabled, hflags, hheld, hmonitored⟩, ⟨hbit, hguard, hsample, hlevel⟩, hclock,
    hfailing, hshown⟩ := exists_changedOver
  have hpaced : ({} : Counter).Paced (fun _ => 1) 1 :=
    ⟨fun _ => rfl, fun _ => Nat.one_pos, fun _ => le_rfl⟩
  have hlively : Clock.Lively e.config.bitTicks [e.config.guardMicros, e.config.sampleMicros]
      e.rig.clock := by
    rw [hbit, hguard, hsample, hclock]
    exact DualClock.lively hpaced hpaced (by decide)
      (List.forall_mem_cons.mpr ⟨by decide, List.forall_mem_singleton.mpr (by decide)⟩)
  obtain ⟨e', hafter, hreturns, hverdict⟩ := verdict_of_request true _ hspares he (d := .rx)
    (by simp [hfailing]) hshown rfl
  have hverdict := hverdict (hreturns fun _ => hlively)
  have hdenied := hverdict.denied_iff.mpr
    ⟨⟨henabled, by rw [hflags]; decide⟩, by rw [hlevel]; decide⟩
  exact ⟨e, _, e', he, hheld, hmonitored, rfl, hafter, hverdict, hdenied, hverdict.denied hdenied⟩

end Station

end SharedRadio
