import Mathlib.Data.List.TakeWhile
import SharedRadio.Proofs.Coexistence.Cut
import SharedRadio.Proofs.Coexistence.Failure
import SharedRadio.Proofs.Coexistence.Upkeep

/-!
# What the lines have in store

Which writes of the request line land is settled before an operation begins: it is the line that
knows their numbers. `RequestLine.outlook` tells of the next writes which ones land, and
`RequestLine.reach` how far an attempt to send some levels gets. The same goes for what is read off
a deny line. So all that is noticed of the lines in the course of an operation is what they had in
store before (`Rig.Heeds`).

With that a request can be told beforehand. `Proceeds` lists the four ways in which one that is
signalled can go, and the lines decide which of them it goes (`Requests.proceeds`).
-/

namespace SharedRadio.Coexistence

/-! ## The next writes -/

namespace RequestLine

variable {l : RequestLine}

/-- Which of the next writes land, in order. -/
def outlook (l : RequestLine) (n : Nat) : List Bool :=
  (List.range n).map fun i => !l.failing.contains (l.writes + i)

/-- The line after some more writes. -/
def after (l : RequestLine) (n : Nat) : RequestLine := { l with writes := l.writes + n }

/-- How many of some next writes land before one of them fails. -/
def reach (l : RequestLine) (n : Nat) : Nat := ((l.outlook n).takeWhile id).length

theorem outlook_add (l : RequestLine) (m n : Nat) :
    l.outlook (m + n) = l.outlook m ++ (l.after m).outlook n := by
  rw [outlook, List.range_add, List.map_append, List.map_map]
  simp only [outlook, after, Function.comp_def, Nat.add_assoc]

@[simp] theorem length_outlook (l : RequestLine) (n : Nat) : (l.outlook n).length = n := by
  simp [outlook]

/-- The writes that were noticed first are the next ones, and the others come after them. -/
theorem outlook_of_append {a b : List Bool} (h : a ++ b = l.outlook (a ++ b).length) :
    a = l.outlook a.length ∧ b = (l.after a.length).outlook b.length := by
  rw [List.length_append, outlook_add] at h
  exact List.append_inj h (by simp)

theorem outlook_of_failing_eq_nil (h : l.failing = []) (n : Nat) :
    l.outlook n = List.replicate n true := by
  simp [outlook, h, List.map_const']

/-- All of the next writes land. -/
theorem reach_eq_self {n : Nat} (h : l.outlook n = List.replicate n true) : l.reach n = n := by
  simp [reach, h, List.takeWhile_replicate_eq_filter]

/-- The next writes land up to one that fails. -/
theorem reach_eq_of_cut {k n : Nat} (hk : k < n)
    (h : l.outlook (k + 1) = List.replicate k true ++ [false]) : l.reach n = k := by
  obtain ⟨m, rfl⟩ : ∃ m, n = k + 1 + m := ⟨n - (k + 1), by omega⟩
  rw [reach, outlook_add, h, List.append_assoc, List.takeWhile_append_of_pos]
  · simp
  · intro b hb
    exact List.eq_of_mem_replicate hb

theorem reach_le (l : RequestLine) (n : Nat) : l.reach n ≤ n :=
  ((List.takeWhile_sublist _).length_le).trans (length_outlook l n).le

/-- The line reaches to the end of the next writes exactly if none of them fails. -/
theorem reach_eq_iff {n : Nat} : l.reach n = n ↔ ∀ i < n, l.writes + i ∉ l.failing :=
  calc l.reach n = n
      ↔ (l.outlook n).takeWhile id = l.outlook n :=
        ⟨fun h => (List.takeWhile_prefix id).eq_of_length (h.trans (length_outlook l n).symm),
          fun h => (congrArg List.length h).trans (length_outlook l n)⟩
    _ ↔ ∀ i < n, l.writes + i ∉ l.failing := by
        rw [List.takeWhile_eq_self_iff]
        simp [outlook]

theorem reach_lt_iff {n : Nat} : l.reach n < n ↔ ∃ i < n, l.writes + i ∈ l.failing := by
  rw [lt_iff_le_and_ne, and_iff_right (reach_le l n), ne_eq, reach_eq_iff]
  simp only [not_forall, not_not, exists_prop]

end RequestLine

/-! ## What is noticed of the lines -/

theorem Sighting.isFailedWrite_eq_false_iff {s : Sighting} :
    s.isFailedWrite = false ↔ s.landing? ≠ some false := by
  cases s with
  | wrote level landed tick => cases landed <;> simp [isFailedWrite, landing?]
  | _ => simp [isFailedWrite, landing?]

theorem lands_iff_notMem_landings {t : List Sighting} : Lands t ↔ false ∉ landings t := by
  simp only [Lands, landings, List.mem_filterMap, Sighting.isFailedWrite_eq_false_iff, not_exists,
    not_and, ne_eq]

/-- What was read off a deny line. -/
def Sighting.readingOf? (d : Direction) : Sighting → Option (Option Bool)
  | .sampled c reading => if c = d then some reading else none
  | _ => none

/-- What was read off a deny line, in order; `none` is a read that failed. -/
def readings (d : Direction) (t : List Sighting) : List (Option Bool) :=
  t.filterMap (Sighting.readingOf? d)

@[simp] theorem readings_append (d : Direction) (t u : List Sighting) :
    readings d (t ++ u) = readings d t ++ readings d u :=
  List.filterMap_append

/-- A deny line of which nothing was read was not sampled. -/
theorem notMem_of_readings {t : List Sighting} {d : Direction} (h : readings d t = [])
    (reading : Option Bool) : .sampled d reading ∉ t := by
  intro hmem
  have hread : reading ∈ readings d t :=
    List.mem_filterMap.mpr ⟨_, hmem, by simp [Sighting.readingOf?]⟩
  rw [h] at hread
  cases hread

theorem Sighting.landing?_of_isAside {s : Sighting} (h : s.isAside = true) : s.landing? = none := by
  cases s <;> first | rfl | cases h

theorem Sighting.readingOf?_of_isAside {s : Sighting} (h : s.isAside = true) (d : Direction) :
    s.readingOf? d = none := by
  cases s <;> first | rfl | cases h

namespace Rig

variable {κ : Type}

/-- What a rig says of its lines. -/
theorem sightings_setDenyLine (r : Rig κ) (d : Direction) (l : DenyLine) :
    (r.setDenyLine d l).sightings = r.sightings ∧ (r.setDenyLine d l).request = r.request := by
  cases d <;> exact ⟨rfl, rfl⟩

/-- What has been noticed of the lines of a rig is what they had in store at the origin. -/
structure Heeds (origin r : Rig κ) : Prop where
  request_eq : r.request = origin.request.after (landings r.sightings).length
  landings_eq : landings r.sightings = origin.request.outlook (landings r.sightings).length
  /-- A deny line still has its first reading to show, or has shown it. -/
  readings_eq : ∀ d, readings d r.sightings = [] ∧
      (r.denyLine d).read.1 = (origin.denyLine d).read.1 ∨
    ∃ rest, readings d r.sightings = (origin.denyLine d).read.1 :: rest

namespace Heeds

variable {origin r : Rig κ}

theorem notice (h : Heeds origin r) {s : Sighting} (hs : s.isAside = true) :
    Heeds origin (r.notice s) := by
  have hlandings : landings (r.notice s).sightings = landings r.sightings := by
    simp [Rig.notice, landings, Sighting.landing?_of_isAside hs]
  have hreadings (d : Direction) : readings d (r.notice s).sightings = readings d r.sightings := by
    simp [Rig.notice, readings, Sighting.readingOf?_of_isAside hs]
  refine ⟨?_, ?_, fun d => ?_⟩
  · rw [hlandings]
    exact h.request_eq
  · rw [hlandings]
    exact h.landings_eq
  · rw [hreadings]
    exact h.readings_eq d

theorem setArmed (h : Heeds origin r) (d : Direction) (armed : Bool) :
    Heeds origin (r.setDenyLine d { r.denyLine d with armed }) := by
  obtain ⟨hsightings, hrequest⟩ := sightings_setDenyLine r d { r.denyLine d with armed }
  have hread (c : Direction) : ((r.setDenyLine d { r.denyLine d with armed }).denyLine c).read.1 =
      (r.denyLine c).read.1 := by
    by_cases hc : c = d
    · subst hc
      rw [denyLine_setDenyLine_self]
      unfold DenyLine.read
      cases (r.denyLine c).queued <;> rfl
    · rw [denyLine_setDenyLine_of_ne r hc]
  refine ⟨?_, ?_, fun c => ?_⟩
  · rw [hsightings, hrequest]
    exact h.request_eq
  · rw [hsightings]
    exact h.landings_eq
  · rw [hsightings, hread]
    exact h.readings_eq c

/-- A write lands if that is what the line had in store for it. -/
theorem wrote (h : Heeds origin r) (level : Bool) (tick : UInt32) :
    Heeds origin ({ r with request.writes := r.request.writes + 1 }.notice
      (.wrote level (!r.request.failing.contains r.request.writes) tick)) := by
  have hsightings : ({ r with request.writes := r.request.writes + 1 }.notice
      (.wrote level (!r.request.failing.contains r.request.writes) tick)).sightings =
        r.sightings ++ [.wrote level (!r.request.failing.contains r.request.writes) tick] := rfl
  have hnext : [!r.request.failing.contains r.request.writes] =
      (origin.request.after (landings r.sightings).length).outlook 1 := by
    rw [h.request_eq]
    rfl
  have hlandings : landings
      (r.sightings ++ [.wrote level (!r.request.failing.contains r.request.writes) tick]) =
        landings r.sightings ++ [!r.request.failing.contains r.request.writes] :=
    landings_append _ _
  refine ⟨?_, ?_, fun d => ?_⟩
  · rw [hsightings, hlandings, List.length_append]
    show { r.request with writes := r.request.writes + 1 } = _
    rw [h.request_eq]
    rfl
  · rw [hsightings, hlandings, List.length_append, RequestLine.outlook_add, ← h.landings_eq, hnext]
    rfl
  · rw [hsightings, readings_append]
    exact (List.append_nil (readings d r.sightings)).symm ▸ h.readings_eq d

/-- A deny line is read, and it shows what it had in store. -/
theorem sampled (h : Heeds origin r) (d : Direction) :
    Heeds origin ((r.setDenyLine d (r.denyLine d).read.2).notice
      (.sampled d (r.denyLine d).read.1)) := by
  have hsightings := sightings_notice_setDenyLine r d (r.denyLine d).read.2
    (.sampled d (r.denyLine d).read.1)
  have hlandings : landings (r.sightings ++ [.sampled d (r.denyLine d).read.1]) =
      landings r.sightings :=
    (landings_append _ _).trans (List.append_nil _)
  refine ⟨?_, ?_, fun c => ?_⟩
  · rw [hsightings, hlandings]
    exact (sightings_setDenyLine r d _).2.trans h.request_eq
  · rw [hsightings, hlandings]
    exact h.landings_eq
  · rw [hsightings, readings_append]
    by_cases hc : d = c
    · subst hc
      have hshown : readings d [.sampled d (r.denyLine d).read.1] = [(r.denyLine d).read.1] := by
        simp [readings, Sighting.readingOf?]
      right
      rcases h.readings_eq d with ⟨hnone, hread⟩ | ⟨rest, hrest⟩
      · exact ⟨[], by rw [hnone, hshown, hread]; rfl⟩
      · exact ⟨rest ++ _, by rw [hrest]; rfl⟩
    · have hother : readings c [.sampled d (r.denyLine d).read.1] = [] := by
        simp [readings, Sighting.readingOf?, hc]
      have hline : ((r.setDenyLine d (r.denyLine d).read.2).notice
          (.sampled d (r.denyLine d).read.1)).denyLine c = r.denyLine c := by
        rw [← denyLine_setDenyLine_of_ne r (Ne.symm hc) (r.denyLine d).read.2]
        cases c <;> rfl
      rw [hother, List.append_nil, hline]
      exact h.readings_eq c

end Heeds

variable [Clock κ]

theorem upheld_heeds (origin : Rig κ) : Upheld (Heeds origin) where
  notice hs h := h.notice hs
  setArmed d armed h := h.setArmed d armed
  setClock _ h := ⟨h.request_eq, h.landings_eq, h.readings_eq⟩
  drive level r h := by
    rw [run_drive]
    exact h.wrote level _
  sample d r h := by
    rw [run_sample]
    exact h.sampled d

end Rig

namespace Engine

variable {κ : Type} [Clock κ]

omit [Clock κ] in
/-- What an action comes upon is what the lines had in store, if it keeps what every step keeps. -/
theorem heeds_act {α : Type} {action : Action κ α} (e : Engine κ)
    (hkeeps : Keeps (fun e' => Rig.Heeds e.rig e'.rig) action) :
    landings (e.act action).2.1 =
        e.rig.request.outlook (landings (e.act action).2.1).length ∧
      ∀ d reading, (readings d (e.act action).2.1).head? = some reading →
        (e.rig.denyLine d).read.1 = reading := by
  have hbegins : Rig.Heeds e.rig { e.rig with sightings := [] } :=
    ⟨rfl, rfl, fun d => .inl ⟨rfl, by cases d <;> rfl⟩⟩
  have hends := hkeeps { e with rig.sightings := [] } hbegins
  refine ⟨hends.landings_eq, fun d reading hreading => ?_⟩
  have hreadings := hends.readings_eq d
  rw [show (action.run { e with rig.sightings := [] }).2.rig.sightings =
    (e.act action).2.1 from rfl] at hreadings
  rcases hreadings with ⟨hnone, -⟩ | ⟨rest, hrest⟩
  · rw [hnone] at hreading
    cases hreading
  · rw [hrest] at hreading
    exact Option.some.inj hreading

/-- **What an operation comes upon is what the lines had in store.** The writes that were noticed
are the next ones of the request line, and what was first read off a deny line is its next reading.
-/
theorem heeds_perform (e : Engine κ) (operation : Operation) :
    landings (e.act (.perform operation)).2.1 =
        e.rig.request.outlook (landings (e.act (.perform operation)).2.1).length ∧
      ∀ d reading, (readings d (e.act (.perform operation)).2.1).head? = some reading →
        (e.rig.denyLine d).read.1 = reading :=
  e.heeds_act (keeps_perform (Rig.upheld_heeds e.rig) operation)

/-- **If no write of the request line fails, every write of a request lands.** -/
theorem lands_request (e : Engine κ) (d : Direction) (h : e.rig.request.failing = []) :
    Lands (e.act (.perform (.request d))).2.1 := by
  rw [lands_iff_notMem_landings, (heeds_perform e (.request d)).1,
    RequestLine.outlook_of_failing_eq_nil h]
  exact false_notMem_replicate_true

end Engine

/-! ## How far signalling gets -/

/-- Levels get onto the line as far as it reaches, and they are sent if that is all the way. -/
theorem Spells.of_outlook {levels : List Bool} {x : Except Engine.Halt Unit} {t : List Sighting}
    {l : RequestLine} (h : Spells levels x t) (hends : x ≠ .error .endless)
    (hl : landings t = l.outlook (landings t).length) :
    drivenLevels t = levels.take (l.reach levels.length) ∧
      (l.reach levels.length = levels.length ∧ x = .ok () ∧
          (landings t).length = levels.length ∨
        l.reach levels.length < levels.length ∧ x = .error (.fault .gpio) ∧
          (landings t).length = l.reach levels.length + 1) := by
  cases h with
  | whole driven landed =>
    have hlength : (landings t).length = levels.length := by rw [landed, List.length_replicate]
    have hreach : l.reach levels.length = levels.length := by
      rw [hlength, landed] at hl
      exact RequestLine.reach_eq_self hl.symm
    exact ⟨by rw [hreach, List.take_length, driven], .inl ⟨hreach, rfl, hlength⟩⟩
  | @cut _ k hk driven landed =>
    have hlength : (landings t).length = k + 1 := by simp [landed]
    have hreach : l.reach levels.length = k := by
      rw [hlength, landed] at hl
      exact RequestLine.reach_eq_of_cut hk hl.symm
    exact ⟨by rw [hreach, driven], .inr ⟨hreach ▸ hk, rfl, by rw [hlength, hreach]⟩⟩
  | endless hk driven landed => exact absurd rfl hends

namespace Engine

variable {v w : Stance} {t : List Sighting} {x : Except Halt Unit} {d : Direction}

theorem length_requestLevels (f : PriorityFlags) (d : Direction) :
    (requestLevels f d).length = 20 := rfl

/-! ## Signalling reads no deny line -/

theorem readings_of_transmits {levels : List Bool} {v w : Direction → Bool}
    {x : Except Rig.Halt Unit} (h : Rig.Transmits levels v x t w) (c : Direction) :
    readings c t = [] := by
  induction h with
  | done | cut | endless => rfl
  | held tick more ih => exact ih

theorem Sends.readings_eq_nil {byte : UInt8} (h : Sends byte v x t w) (c : Direction) :
    readings c t = [] := by
  cases h with
  | ok h | endless h => exact readings_of_transmits h c
  | fault h =>
    rw [readings_append, readings_of_transmits h c]
    rfl

theorem Pauses.readings_eq_nil (h : Rig.Pauses Halt.endless v x t w) (c : Direction) :
    readings c t = [] := by
  cases h <;> rfl

theorem Pauses.silent (h : Rig.Pauses Halt.endless v x t w) :
    drivenLevels t = [] ∧ landings t = [] := by
  cases h <;> exact ⟨rfl, rfl⟩

theorem Signals.readings_eq_nil (h : Signals d v x t w) (c : Direction) : readings c t = [] := by
  rcases h with ⟨first, rest⟩ | first
  · rw [readings_append, Sends.readings_eq_nil first]
    rcases rest with ⟨pause, second⟩ | pause
    · rw [readings_append, Pauses.readings_eq_nil pause, Sends.readings_eq_nil second]
      rfl
    · rw [Pauses.readings_eq_nil pause]
      rfl
  · exact Sends.readings_eq_nil first c

theorem Releases.readings_eq_nil (h : Releases v x t w) (c : Direction) : readings c t = [] := by
  cases h with
  | passes => rfl
  | signals enabled sends => exact Sends.readings_eq_nil sends c

/-! ## How a request goes -/

/-- The ways in which a request that is signalled goes, by what the request line has in store: what
it comes to, what is noticed in its course, and where the engine stands afterwards. -/
inductive Proceeds (l : RequestLine) (d : Direction) (v : Stance) :
    Except Halt Unit → List Sighting → Stance → Prop
  /-- It cannot be signalled, and a release is signalled as far as that can be. -/
  | cut {t : List Sighting} (fails : l.reach 20 < 20)
      (driven : drivenLevels t = (requestLevels v.flags d).take (l.reach 20) ++
        (Frame.levels Message.release).take ((l.after (l.reach 20 + 1)).reach 10))
      (unread : ∀ c, readings c t = []) :
      Proceeds l d v (.error (.fault .gpio)) t ((v.count d .request).turn d).vacate
  /-- It is denied, and a release is signalled as far as that can be. -/
  | refused {t : List Sighting} (lands : l.reach 20 = 20) (high : Bool)
      (read : (readings d t).head? = some (some high))
      (denies : v.config.denyLevel.denies high = true)
      (driven : drivenLevels t = requestLevels v.flags d ++
        (Frame.levels Message.release).take ((l.after 20).reach 10)) :
      Proceeds l d v
        (.error (.fault (if (l.after 20).reach 10 = 10 then .denied else .gpio))) t
        (((v.count d .request).turn d).count d .timeout).vacate
  /-- It is granted. -/
  | granted {t : List Sighting} (lands : l.reach 20 = 20) (high : Bool)
      (read : (readings d t).head? = some (some high))
      (passes : v.config.denyLevel.denies high = false)
      (driven : drivenLevels t = requestLevels v.flags d) :
      Proceeds l d v (.ok ()) t
        ({ ((v.count d .request).turn d).arm d with held := some d }.count d .grant)
  /-- Its deny line cannot be read. -/
  | unread {t : List Sighting} (lands : l.reach 20 = 20) (read : (readings d t).head? = some none)
      (driven : drivenLevels t = requestLevels v.flags d) :
      Proceeds l d v (.error (.fault .gpio)) t ((v.count d .request).turn d)

theorem turn_config (v : Stance) (d : Direction) : (v.turn d).config = v.config := by
  unfold Stance.turn
  split <;> rfl

theorem turn_statistics (v : Stance) (d : Direction) :
    (v.turn d).statistics = v.statistics := by
  unfold Stance.turn
  split <;> rfl

theorem released_of_enabled (henabled : v.enabled = true) : v.released = v.vacate := if_pos henabled

/-- What is not seen on any line makes no difference. -/
theorem Proceeds.after_silent {l : RequestLine} {u : List Sighting} (h : Proceeds l d v x u w)
    (hdriven : drivenLevels t = []) (hreadings : ∀ c, readings c t = []) :
    Proceeds l d v x (t ++ u) w := by
  have hd : drivenLevels (t ++ u) = drivenLevels u := by rw [drivenLevels_append, hdriven]; rfl
  have hr (c : Direction) : readings c (t ++ u) = readings c u := by
    rw [readings_append, hreadings]
    rfl
  cases h with
  | cut fails driven unread => exact .cut fails (hd.trans driven) fun c => (hr c).trans (unread c)
  | refused lands high read denies driven =>
    exact .refused lands high (hr d ▸ read) denies (hd.trans driven)
  | granted lands high read passes driven =>
    exact .granted lands high (hr d ▸ read) passes (hd.trans driven)
  | unread lands read driven => exact .unread lands (hr d ▸ read) (hd.trans driven)

/-- A request that the line does not reach to the end of is cut. -/
theorem Proceeds.of_lt {l : RequestLine} (h : Proceeds l d v x t w) (hcut : l.reach 20 < 20) :
    x = .error (.fault .gpio) ∧ w = ((v.count d .request).turn d).vacate ∧
      drivenLevels t = (requestLevels v.flags d).take (l.reach 20) ++
        (Frame.levels Message.release).take ((l.after (l.reach 20 + 1)).reach 10) ∧
      ∀ c, readings c t = [] := by
  cases h with
  | cut fails driven unread => exact ⟨rfl, rfl, driven, unread⟩
  | refused lands | granted lands | unread lands => exact absurd lands hcut.ne

/-- A request that the line reaches to the end of is refused if its deny line denies access. -/
theorem Proceeds.of_denies {l : RequestLine} (h : Proceeds l d v x t w) (hlands : l.reach 20 = 20)
    {high : Bool} (hdenies : v.config.denyLevel.denies high = true)
    (hread : ∀ reading, (readings d t).head? = some reading → some high = reading) :
    x = .error (.fault (if (l.after 20).reach 10 = 10 then .denied else .gpio)) ∧
      w = (((v.count d .request).turn d).count d .timeout).vacate := by
  cases h with
  | cut fails => exact absurd hlands fails.ne
  | refused => exact ⟨rfl, rfl⟩
  | granted lands high' read passes =>
    obtain rfl := Option.some.inj (hread _ read)
    cases hdenies.symm.trans passes
  | unread lands read => cases hread _ read

/-- A request gets as far as the line reaches, and what is left of the line is up to a release. -/
theorem SignalsOrReleases.of_outlook {l : RequestLine} (h : SignalsOrReleases d v x t w)
    (henabled : v.enabled = true) (hends : x ≠ .error .endless)
    (hl : landings t = l.outlook (landings t).length) :
    (∀ c, readings c t = []) ∧
      (l.reach 20 = 20 ∧ x = .ok () ∧ w = v ∧ drivenLevels t = requestLevels v.flags d ∧
          (landings t).length = 20 ∨
        l.reach 20 < 20 ∧ x = .error (.fault .gpio) ∧ w = v.vacate ∧
          drivenLevels t = (requestLevels v.flags d).take (l.reach 20) ++
            (Frame.levels Message.release).take ((l.after (l.reach 20 + 1)).reach 10)) := by
  cases h with
  | endless | releasesForever => exact absurd rfl hends
  | signalled signals =>
    obtain ⟨hdriven, ⟨hreach, -, hlength⟩ | ⟨-, hx, -⟩⟩ := signals.spells.of_outlook nofun hl
    · rw [hreach, List.take_length] at hdriven
      exact ⟨signals.readings_eq_nil, .inl ⟨hreach, rfl, signals.stance_eq, hdriven, hlength⟩⟩
    · cases hx
  | released signals releases hreleases =>
    rw [landings_append] at hl
    obtain ⟨hl₁, hl₂⟩ := RequestLine.outlook_of_append hl
    obtain ⟨hdriven, ⟨-, hx, -⟩ | ⟨hreach, hx, hlength⟩⟩ := signals.spells.of_outlook nofun hl₁
    · cases hx
    · -- The write that failed counts as well: the release sets out behind it.
      obtain rfl := signals.stance_eq
      rw [length_requestLevels] at hdriven hreach hlength
      rw [hlength] at hl₂
      obtain ⟨hrelease, -⟩ := (releases.spells henabled).of_outlook hreleases hl₂
      refine ⟨fun c => ?_, .inr ⟨hreach, hx, ?_, ?_⟩⟩
      · rw [readings_append, signals.readings_eq_nil, releases.readings_eq_nil]
        rfl
      · exact releases.stance_eq.trans (released_of_enabled henabled)
      · rw [drivenLevels_append, hdriven, hrelease]
        rfl

/-- Once a request is signalled, it goes by what is read off the deny line. -/
theorem Settles.proceeds {l : RequestLine} {v₀ : Stance} {t₀ : List Sighting}
    (h : Settles d v x t w) (hends : x ≠ .error .endless)
    (hv : v = (v₀.count d .request).turn d) (henabled : v.enabled = true)
    (hsignalled : l.reach 20 = 20) (hl : landings t = (l.after 20).outlook (landings t).length)
    (hdriven : drivenLevels t₀ = requestLevels v₀.flags d) (hunread : readings d t₀ = []) :
    Proceeds l d v₀ x (t₀ ++ t) w := by
  have hconfig : v.config = v₀.config := by
    rw [hv, turn_config]
    rfl
  have hhead (reading : Option Bool) (u : List Sighting) :
      (readings d (t₀ ++ .sampled d reading :: u)).head? = some reading := by
    rw [readings_append, hunread]
    simp [readings, Sighting.readingOf?]
  have hall (u : List Sighting) :
      drivenLevels (t₀ ++ u) = requestLevels v₀.flags d ++ drivenLevels u := by
    rw [drivenLevels_append, hdriven]
  cases h with
  | grants high passes =>
    subst hv
    exact .granted hsignalled high (hhead _ _) (hconfig ▸ passes)
      ((hall _).trans (List.append_nil _))
  | unread =>
    subst hv
    exact .unread hsignalled (hhead _ _) ((hall _).trans (List.append_nil _))
  | @refuses _ _ y u high denies releases =>
    have hy : y ≠ .error .endless := by
      rintro rfl
      exact hends rfl
    obtain ⟨hrelease, houtcome⟩ := (releases.spells henabled).of_outlook hy hl
    -- A release that cannot be signalled takes the place of the denial.
    have hx : (y.bind fun _ => .error (.fault .denied) : Except Halt Unit) =
        .error (.fault (if (l.after 20).reach 10 = 10 then .denied else .gpio)) := by
      rcases houtcome with ⟨hreach, rfl, -⟩ | ⟨hreach, rfl, -⟩
      · exact (congrArg (Except.error ∘ Halt.fault) (if_pos hreach)).symm
      · exact (congrArg (Except.error ∘ Halt.fault) (if_neg (Nat.ne_of_lt hreach))).symm
    obtain rfl : w = (v.count d .timeout).vacate :=
      releases.stance_eq.trans (released_of_enabled henabled)
    subst hv
    rw [hx]
    exact .refused hsignalled high (hhead _ _) (hconfig ▸ denies)
      ((hall _).trans (congrArg _ hrelease))

theorem Negotiates.proceeds {l : RequestLine} {v₀ : Stance} (h : Negotiates d v x t w)
    (hends : x ≠ .error .endless) (hv : v = (v₀.count d .request).turn d)
    (henabled : v.enabled = true) (hl : landings t = l.outlook (landings t).length) :
    Proceeds l d v₀ x t w := by
  have hflags : v.flags = v₀.flags := by
    rw [hv, Stance.turn_flags]
    rfl
  rcases h with ⟨first, rest⟩ | first
  · rw [landings_append] at hl
    obtain ⟨hl₁, hl₂⟩ := RequestLine.outlook_of_append hl
    obtain ⟨hunread, ⟨hreach, -, rfl, hdriven, hlength⟩ | ⟨-, hx, -⟩⟩ :=
      first.of_outlook henabled nofun hl₁
    · rw [hlength] at hl₂
      rcases rest with ⟨pause, settles⟩ | pause
      · -- The pause does nothing to the lines, so the reading follows upon the request.
        obtain ⟨hpaused, hlanded⟩ : drivenLevels _ = [] ∧ landings _ = [] :=
          Pauses.silent pause
        obtain rfl := Pauses.stance_eq pause
        rw [landings_append, hlanded, List.nil_append] at hl₂
        rw [← List.append_assoc]
        refine settles.proceeds hends hv henabled hreach hl₂ ?_ ?_
        · rw [drivenLevels_append, hdriven, hpaused, List.append_nil, hflags]
        · rw [readings_append, hunread, Pauses.readings_eq_nil pause]
          rfl
      · cases pause
        exact absurd rfl hends
    · cases hx
  · obtain ⟨hunread, ⟨-, hx, -⟩ | ⟨hreach, hx, rfl, hdriven⟩⟩ := first.of_outlook henabled hends hl
    · cases hx
    · cases hx
      subst hv
      exact .cut hreach (hflags ▸ hdriven) hunread

/-- **How a request goes is settled before it begins**, by the writes that the request line will
fail and by the next reading of its deny line. -/
theorem Requests.proceeds {l : RequestLine} (h : Requests d v x t w)
    (henabled : v.enabled = true) (hmatters : ¬ (d = .rx ∧ v.flags.rx = false))
    (hends : x ≠ .error .endless) (hl : landings t = l.outlook (landings t).length) :
    Proceeds l d v x t w := by
  cases h with
  | grants low => exact absurd low hmatters
  | passes matters disabled => cases henabled.symm.trans disabled
  | @negotiates _ _ _ t₀ u matters enabled turns negotiates =>
    -- Turning to the deny line is not seen on any line.
    obtain ⟨hdriven, hlanded, hunread⟩ :
        drivenLevels t₀ = [] ∧ landings t₀ = [] ∧ ∀ c, readings c t₀ = [] := by
      rw [turns]
      split <;> exact ⟨rfl, rfl, fun _ => rfl⟩
    rw [landings_append, hlanded, List.nil_append] at hl
    have proceeds := negotiates.proceeds hends rfl ((Stance.turn_enabled _ d).trans enabled) hl
    exact proceeds.after_silent hdriven hunread

end Engine

end SharedRadio.Coexistence
