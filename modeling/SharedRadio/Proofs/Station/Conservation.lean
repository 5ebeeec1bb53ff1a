import SharedRadio.Clock.Dual
import SharedRadio.Proofs.Coexistence.Counting
import SharedRadio.Proofs.Station.Arbitration

/-!
# What the counters add up to

The counters of an engine show what has been counted since they were last set to zero, or else since
the engine was made. `statistics_play` says so of every run, whatever faults there are and whatever
the sinks do: the counters are those of the list of all `Moment.occurrences` since then.

From there on it is a matter of counting. `Moment.balanced` compares the occurrences of one moment
with what can be told of it from outside: which operation it was, what it came to, and whether its
deny line was read. The sums over a history are those of its moments, so that the counters obey the
same equations (`conserved_play`) as long as none of them has reached the largest word.
-/

namespace SharedRadio.Station

open Coexistence

variable {σ κ : Type}

/-! ## Since the counters were at zero -/

/-- Whether the counters are set to zero. -/
def Cue.resets : Cue σ κ → Bool
  | .call (.engine .resetStatistics) => true
  | _ => false

/-- The moments of a session since the counters were last set to zero; all of them, if they were
not. -/
def sinceReset (session : List (Moment σ κ)) : List (Moment σ κ) :=
  session.foldl (fun since m => if m.cue.resets then [] else since ++ [m]) []

theorem sinceReset_append_singleton (session : List (Moment σ κ)) (m : Moment σ κ) :
    sinceReset (session ++ [m]) = if m.cue.resets then [] else sinceReset session ++ [m] := by
  rw [sinceReset, List.foldl_append]
  rfl

/-- An interrupt is handled by the engine, and what it wants to be broadcast is what comes of that.
-/
theorem interrupts_interrupt {s : Station σ κ} {e : Engine κ} (he : s.engine = some e)
    (line : Direction) :
    ∃ x t e', Engine.Interrupts line e.stance x t e'.stance ∧
      (s.interrupt line).station.engine = some e' ∧
      ∀ event, brought? e line = some event ↔ x = .ok (some event) := by
  have interrupts := Engine.course_act (Engine.follows_interrupt line) e
  unfold interrupt withEngine brought?
  rw [he]
  dsimp only
  generalize e.act (.interrupt line) = o at interrupts ⊢
  obtain ⟨h | _ | event, t, e'⟩ := o
  · exact ⟨_, t, e', interrupts, rfl, by simp⟩
  · exact ⟨_, t, e', interrupts, rfl, by simp⟩
  · exact ⟨_, t, e', interrupts, rfl, by simp⟩

variable [Clock κ]

/-- What is counted at a moment. -/
def Moment.occurrences (m : Moment σ κ) : List (Direction × Occurrence) :=
  match m.cue, m.before.engine with
  | .call (.engine operation), some e => operation.occurrences e.stance m.reaction.sightings
  | .call (.interrupt line), some e =>
    if brought? e line = some .abort then [(line, .abort)] else []
  | .call (.install ..), _ => [(.tx, .release)]
  | _, _ => []

/-- How often something is counted at some moments. -/
def counted (moments : List (Moment σ κ)) (d : Direction) (o : Occurrence) : Nat :=
  (moments.flatMap Moment.occurrences).count (d, o)

/-- At a moment at which the engine stays, the counters go up by what is counted, or they are set to
zero. -/
theorem statistics_of_stays {m : Moment σ κ} (hstays : m.cue.installs = false) {e₀ e : Engine κ}
    (he₀ : m.before.engine = some e₀) (he : m.reaction.station.engine = some e) :
    e.statistics = if m.cue.resets then {} else e₀.statistics.bumpAll m.occurrences := by
  obtain ⟨cue, arbiter, engine⟩ := m
  obtain rfl : engine = some e₀ := he₀
  cases cue with
  | answer => exact congrArg Engine.statistics (Option.some.inj he).symm
  | call c =>
    cases c with
    | arbiter | throughEngine => exact congrArg Engine.statistics (Option.some.inj he).symm
    | disturb change =>
      obtain rfl := Option.some.inj he
      rfl
    | install => cases hstays
    | interrupt line =>
      obtain ⟨x, t, e', interrupts, engine, hbrought⟩ :=
        interrupts_interrupt (s := ⟨arbiter, some e₀⟩) rfl line
      obtain rfl := Option.some.inj (engine.symm.trans he)
      have hcounted := interrupts.statistics_eq
      simp only [← hbrought] at hcounted
      exact hcounted
    | engine operation =>
      obtain ⟨x, e', performs, engine, -⟩ :=
        performs_operate (s := ⟨arbiter, some e₀⟩) rfl operation
      obtain rfl := Option.some.inj (engine.symm.trans he)
      cases operation with
      | resetStatistics =>
        obtain ⟨-, -, hw⟩ := performs
        exact congrArg Stance.statistics hw
      | _ => exact performs.statistics_eq nofun

/-- **The counters show what was counted** since they were last at zero, in every run. -/
theorem statistics_play (preemption : Bool) (moves : List (Move σ κ)) {e : Engine κ}
    (he : (Run.play preemption moves).station.engine = some e) :
    e.statistics = Statistics.bumpAll {}
      ((sinceReset (Run.play preemption moves).session).flatMap Moment.occurrences) := by
  refine Run.session_induction (P := fun session e => e.statistics = Statistics.bumpAll {}
    ((sinceReset session).flatMap Moment.occurrences)) ?begins ?goesOn preemption moves he
  case begins =>
    -- A new engine monitors the deny line for transmitting, and begins with a release.
    intro m e hinstalls he
    obtain ⟨config, rig, hcue, prepares⟩ := prepares_of_installs hinstalls he
    have hoccurrences : m.occurrences = [(.tx, .release)] := by
      unfold Moment.occurrences
      rw [hcue]
    have hstart : sinceReset [m] = [m] := by
      rw [sinceReset, List.foldl_cons, hcue]
      rfl
    rw [hstart, List.flatMap_singleton, hoccurrences]
    exact prepares.statistics_eq.1
  case goesOn =>
    intro session m e₀ e ih hstays he₀ he
    rw [statistics_of_stays hstays he₀ he, sinceReset_append_singleton]
    split
    · rfl
    · rw [List.flatMap_append, List.flatMap_singleton, Statistics.bumpAll_append, ih]

/-- Only setting the counters to zero lowers one of them. -/
theorem count_le_of_stays {m : Moment σ κ} (hstays : m.cue.installs = false)
    (hkeeps : m.cue.resets = false) {e₀ e : Engine κ} (he₀ : m.before.engine = some e₀)
    (he : m.reaction.station.engine = some e) (d : Direction) (o : Occurrence) :
    e₀.statistics.count d o ≤ e.statistics.count d o := by
  have hlt : e₀.statistics.count d o < UInt32.size := UInt32.toNat_lt _
  rw [statistics_of_stays hstays he₀ he, hkeeps, if_neg Bool.false_ne_true,
    Statistics.count_bumpAll]
  omega

/-- A release is counted for the deny line that is monitored then. -/
theorem monitored_of_release {m : Moment σ κ} {e : Engine κ}
    (he : m.reaction.station.engine = some e) {d : Direction}
    (hmem : (d, .release) ∈ m.occurrences) : e.monitored = d := by
  obtain ⟨cue, arbiter, engine⟩ := m
  cases cue with
  | answer => cases hmem
  | call c =>
    cases c with
    | arbiter | throughEngine | disturb => cases hmem
    | install config rig =>
      obtain ⟨config', rig', hcue, prepares⟩ := prepares_of_installs rfl he
      have hd : d = .tx := (Prod.mk.inj (List.mem_singleton.mp hmem)).1
      exact prepares.statistics_eq.2.trans hd.symm
    | interrupt line =>
      cases engine with
      | none => cases hmem
      | some e₀ =>
        unfold Moment.occurrences at hmem
        dsimp only at hmem
        split at hmem <;> simp at hmem
    | engine operation =>
      cases engine with
      | none => cases hmem
      | some e₀ =>
        obtain ⟨x, e', performs, engine, -⟩ :=
          performs_operate (s := ⟨arbiter, some e₀⟩) rfl operation
        obtain rfl := Option.some.inj (engine.symm.trans he)
        exact performs.monitored_of_release hmem

/-- A counter shows how often something was counted, if it has not reached the largest word. -/
theorem count_play (preemption : Bool) (moves : List (Move σ κ)) {e : Engine κ}
    (he : (Run.play preemption moves).station.engine = some e) {d : Direction} {o : Occurrence}
    (hbelow : e.statistics.count d o < UInt32.size - 1) :
    e.statistics.count d o =
      counted (sinceReset (Run.play preemption moves).session) d o := by
  rw [statistics_play preemption moves he, Statistics.count_bumpAll] at hbelow ⊢
  rw [counted]
  have hzero : ({} : Statistics).count d o = 0 := by cases d <;> cases o <;> rfl
  omega

/-! ## What can be told of a moment -/

/-- An operation ended in a fault of a line. -/
def Progress.isGpio : Progress σ → Bool
  | .finished (.failed .gpio) => true
  | _ => false

theorem Progress.isGpio_finished {outcome : Outcome} :
    (Progress.finished outcome : Progress σ).isGpio = true ↔ outcome = .failed .gpio := by
  rcases outcome with _ | (_ | _ | _ | _) | _ | _ | _ | _ | _ | _ <;> simp [isGpio]

namespace Moment

/-- Access is asked for in a direction, and no level is read off its deny line. -/
def unanswered (m : Moment σ κ) (d : Direction) : Bool :=
  match m.cue, m.before.engine with
  | .call (.engine (.request d')), some _ =>
    decide (d' = d) && (reading? m.reaction.sightings).isNone
  | _, _ => false

/-- A request ends in a fault of a line before its deny line tells anything. -/
def faults (m : Moment σ κ) (d : Direction) : Bool :=
  m.unanswered d && m.reaction.progress.isGpio

/-- A request does not end, and its deny line tells nothing. -/
def hangs (m : Moment σ κ) (d : Direction) : Bool :=
  m.unanswered d && m.reaction.progress.isEndless

/-- A request cannot be signalled: a write of the request line fails. -/
def unsignalled (m : Moment σ κ) (d : Direction) : Bool :=
  m.unanswered d && !decide (Coexistence.Lands m.reaction.sightings)

/-- Access is given up, or the engine disabled, while it is enabled and monitors a deny line. -/
def givesUp (m : Moment σ κ) (d : Direction) : Bool :=
  match m.cue, m.before.engine with
  | .call (.engine .release), some e => e.enabled && decide (e.monitored = d)
  | .call (.engine .disable), some e => e.enabled && decide (e.monitored = d)
  | _, _ => false

/-- Access to receive is asked for without receive priority. -/
def asksLow (m : Moment σ κ) : Bool :=
  match m.cue, m.before.engine with
  | .call (.engine (.request d)), some e => decide (d = .rx) && !e.flags.rx
  | _, _ => false

/-- The interrupt of a deny line makes the arbiter broadcast that access is withdrawn. -/
def withdraws (m : Moment σ κ) (d : Direction) : Bool :=
  match m.cue, m.move? with
  | .call (.interrupt d'), some (.call (.broadcast .abort)) => decide (d' = d)
  | _, _ => false

omit [Clock κ] in
/-- Only one deny line is monitored. -/
theorem not_givesUp_both (m : Moment σ κ) : ¬ (m.givesUp .rx = true ∧ m.givesUp .tx = true) := by
  rintro ⟨hrx, htx⟩
  unfold givesUp at hrx htx
  split at hrx <;> simp_all

/-- A request is made in one direction. -/
theorem not_unsignalled_both (m : Moment σ κ) :
    ¬ (m.unsignalled .rx = true ∧ m.unsignalled .tx = true) := by
  rintro ⟨hrx, htx⟩
  unfold unsignalled unanswered at hrx htx
  split at hrx <;> simp_all

/-- What a moment counts for a direction, told by what can be seen of it. -/
structure Balanced (m : Moment σ κ) (d : Direction) : Prop where
  request : m.occurrences.count (d, .request) =
    m.occurrences.count (d, .grant) + m.occurrences.count (d, .timeout) +
      (if m.faults d then 1 else 0) + (if m.hangs d then 1 else 0)
  release : m.occurrences.count (d, .release) =
    (if m.givesUp d then 1 else 0) + m.occurrences.count (d, .timeout) +
      (if m.unsignalled d then 1 else 0) + (if d = .tx ∧ m.cue.installs then 1 else 0)
  immediate : m.occurrences.count (d, .immediateGrant) =
    if d = .rx ∧ m.asksLow then 1 else 0
  abort : m.occurrences.count (d, .abort) = if m.withdraws d then 1 else 0

/-- At a moment at which no request goes unanswered, every request that is counted is granted or
refused. -/
theorem Balanced.of_answered {m : Moment σ κ} {d : Direction} (hanswered : m.unanswered d = false)
    (request : m.occurrences.count (d, .request) =
      m.occurrences.count (d, .grant) + m.occurrences.count (d, .timeout))
    (release : m.occurrences.count (d, .release) =
      (if m.givesUp d then 1 else 0) + m.occurrences.count (d, .timeout) +
        (if d = .tx ∧ m.cue.installs then 1 else 0))
    (immediate : m.occurrences.count (d, .immediateGrant) =
      if d = .rx ∧ m.asksLow then 1 else 0)
    (abort : m.occurrences.count (d, .abort) = if m.withdraws d then 1 else 0) : m.Balanced d where
  request := by simp [request, faults, hangs, hanswered]
  release := by simp [release, unsignalled, hanswered]
  immediate := immediate
  abort := abort

/-- Nothing is counted at a moment that has nothing to do with the counters. -/
theorem balanced_of_quiet {m : Moment σ κ} {d : Direction} (hquiet : m.occurrences = [])
    (hanswered : m.unanswered d = false) (hgives : m.givesUp d = false) (hlow : m.asksLow = false)
    (hwithdraws : m.withdraws d = false) (hstays : m.cue.installs = false) : m.Balanced d := by
  apply Balanced.of_answered hanswered
  all_goals simp [hquiet, hgives, hlow, hwithdraws, hstays]

/-- What a request counts for its own direction can be told by what it comes to and by what is
noticed in its course. -/
theorem balanced_of_request {m : Moment σ κ} {e : Engine κ} {d : Direction}
    (hcue : m.cue = .call (.engine (.request d))) (he : m.before.engine = some e) :
    m.Balanced d := by
  obtain ⟨cue, arbiter, engine⟩ := m
  obtain rfl : cue = _ := hcue
  obtain rfl : engine = some e := he
  obtain ⟨x, e', ⟨y, requests, rfl⟩, -, progress⟩ :=
    performs_operate (s := ⟨arbiter, some e⟩) rfl (.request d)
  set m : Moment σ κ := ⟨.call (.engine (.request d)), arbiter, some e⟩ with hm
  have hrequested : Engine.Requested d e.stance y m.reaction.sightings m.occurrences :=
    requests.requested
  have hprogress : m.reaction.progress = .finished (outcomeOf (y.map fun _ => none)) := progress
  have hunanswered : m.unanswered d = true ↔ reading? m.reaction.sightings = none := by
    simp [unanswered, hm]
  have hfaults : m.faults d = true ↔
      reading? m.reaction.sightings = none ∧ y = .error (.fault .gpio) := by
    rw [faults, Bool.and_eq_true, hunanswered, hprogress, Progress.isGpio_finished,
      outcomeOf_map_eq_failed]
  have hhangs : m.hangs d = true ↔
      reading? m.reaction.sightings = none ∧ y = .error .endless := by
    rw [hangs, Bool.and_eq_true, hunanswered, hprogress, Progress.isEndless_finished,
      outcomeOf_map_eq_endless]
  have hunsignalled : m.unsignalled d = true ↔
      reading? m.reaction.sightings = none ∧ ¬ Coexistence.Lands m.reaction.sightings := by
    simp [unsignalled, hunanswered]
  have hlow : d = .rx ∧ m.asksLow = true ↔ d = .rx ∧ e.stance.flags.rx = false := by
    cases d <;> simp [asksLow, hm, Engine.stance]
  constructor
  · rw [hrequested.count_request]
    simp only [hfaults, hhangs]
  · have hgives : m.givesUp d = false := rfl
    have hinstalls : m.cue.installs = false := rfl
    rw [hrequested.count_release]
    simp [hunsignalled, hgives, hinstalls]
  · rw [hrequested.count_immediateGrant]
    simp only [hlow]
  · rw [hrequested.count_abort]
    rfl

/-- For the other direction a request counts nothing. -/
theorem balanced_of_request_of_ne {m : Moment σ κ} {e : Engine κ} {d c : Direction}
    (hcue : m.cue = .call (.engine (.request d))) (he : m.before.engine = some e) (hc : c ≠ d) :
    m.Balanced c := by
  obtain ⟨cue, arbiter, engine⟩ := m
  obtain rfl : cue = _ := hcue
  obtain rfl : engine = some e := he
  obtain ⟨x, e', ⟨y, requests, -⟩, -⟩ :=
    performs_operate (s := ⟨arbiter, some e⟩) rfl (.request d)
  have hnone : ∀ o, (Moment.mk (.call (.engine (.request d))) ⟨arbiter, some e⟩ :
      Moment σ κ).occurrences.count (c, o) = 0 := requests.requested.count_of_ne hc
  apply Balanced.of_answered
  · simp [unanswered, hc.symm]
  · simp [hnone]
  · simp [hnone, givesUp, Cue.installs]
  · rw [hnone, if_neg]
    rintro ⟨rfl, hlow⟩
    have hother : d ≠ .rx := hc.symm
    simp [asksLow, hother] at hlow
  · exact hnone .abort

/-- An interrupt counts a withdrawal if it makes the arbiter broadcast one. -/
theorem balanced_of_interrupt {m : Moment σ κ} {e : Engine κ} {line : Direction}
    (hcue : m.cue = .call (.interrupt line)) (he : m.before.engine = some e) (d : Direction) :
    m.Balanced d := by
  obtain ⟨cue, arbiter, engine⟩ := m
  obtain rfl : cue = _ := hcue
  obtain rfl : engine = some e := he
  set m : Moment σ κ := ⟨.call (.interrupt line), arbiter, some e⟩ with hm
  have hoccurrences : m.occurrences =
      if brought? e line = some .abort then [(line, .abort)] else [] := rfl
  have hwithdraws : m.withdraws d = decide (brought? e line = some .abort ∧ line = d) := by
    rw [hm]
    unfold withdraws move? arbiterCall?
    dsimp only [Option.bind_some]
    rcases brought? e line with _ | event
    · rfl
    · cases event <;> simp
  have hgives : m.givesUp d = false := rfl
  have hlow : m.asksLow = false := rfl
  have hstays : m.cue.installs = false := rfl
  apply Balanced.of_answered rfl
  all_goals
    by_cases habort : brought? e line = some .abort <;>
      simp [hoccurrences, hwithdraws, habort, hgives, hlow, hstays, List.count_cons]

/-- Giving access up counts a release for the deny line that is monitored, if the engine is enabled.
-/
theorem balanced_of_release {m : Moment σ κ} {e : Engine κ}
    (hcue : m.cue = .call (.engine .release) ∨ m.cue = .call (.engine .disable))
    (he : m.before.engine = some e) (d : Direction) : m.Balanced d := by
  obtain ⟨cue, arbiter, engine⟩ := m
  obtain rfl : engine = some e := he
  set m : Moment σ κ := ⟨cue, arbiter, some e⟩ with hm
  have hoccurrences : m.occurrences = if e.enabled then [(e.monitored, .release)] else [] := by
    rcases hcue with rfl | rfl <;> rfl
  have hgives : m.givesUp d = (e.enabled && decide (e.monitored = d)) := by
    rcases hcue with rfl | rfl <;> rfl
  have hanswered : m.unanswered d = false := by
    rcases hcue with rfl | rfl <;> rfl
  have hlow : m.asksLow = false := by
    rcases hcue with rfl | rfl <;> rfl
  have hwithdraws : m.withdraws d = false := by
    rcases hcue with rfl | rfl <;> rfl
  have hstays : m.cue.installs = false := by
    rcases hcue with rfl | rfl <;> rfl
  apply Balanced.of_answered hanswered
  all_goals
    cases henabled : e.enabled <;>
      simp [hoccurrences, hgives, henabled, hlow, hwithdraws, hstays, List.count_cons]

/-- **What a moment counts can be told by what is seen of it.** -/
theorem balanced (m : Moment σ κ) (d : Direction) : m.Balanced d := by
  obtain ⟨cue, arbiter, engine⟩ := m
  cases cue with
  | answer => exact balanced_of_quiet rfl rfl rfl rfl rfl rfl
  | call c =>
    cases c with
    | arbiter => exact balanced_of_quiet rfl rfl rfl rfl rfl rfl
    | throughEngine | disturb => cases engine <;> exact balanced_of_quiet rfl rfl rfl rfl rfl rfl
    | install => cases d <;> exact ⟨rfl, rfl, rfl, rfl⟩
    | interrupt line =>
      cases engine with
      | none => exact balanced_of_quiet rfl rfl rfl rfl rfl rfl
      | some e => exact balanced_of_interrupt rfl rfl d
    | engine operation =>
      cases engine with
      | some e =>
        cases operation with
        | request d' =>
          by_cases hd : d = d'
          · subst hd
            exact balanced_of_request rfl rfl
          · exact balanced_of_request_of_ne rfl rfl hd
        | release => exact balanced_of_release (.inl rfl) rfl d
        | disable => exact balanced_of_release (.inr rfl) rfl d
        | _ => exact balanced_of_quiet rfl rfl rfl rfl rfl rfl
      | none => cases operation <;> exact balanced_of_quiet rfl rfl rfl rfl rfl rfl

end Moment

/-! ## Sums over a history -/

/-- What has one of two properties is counted once if nothing has both. -/
theorem countP_or {α : Type} {l : List α} {p q : α → Bool}
    (h : ∀ a ∈ l, ¬ (p a = true ∧ q a = true)) :
    l.countP (fun a => p a || q a) = l.countP p + l.countP q := by
  induction l with
  | nil => rfl
  | cons a l ih =>
    have ha := h a List.mem_cons_self
    have hl := ih fun b hb => h b (List.mem_cons_of_mem a hb)
    simp only [List.countP_cons, hl]
    cases hp : p a <;> cases hq : q a <;> simp_all <;> omega

theorem counted_cons (m : Moment σ κ) (moments : List (Moment σ κ)) (d : Direction)
    (o : Occurrence) :
    counted (m :: moments) d o = m.occurrences.count (d, o) + counted moments d o := by
  rw [counted, List.flatMap_cons, List.count_append]
  rfl

theorem counted_request (moments : List (Moment σ κ)) (d : Direction) :
    counted moments d .request = counted moments d .grant + counted moments d .timeout +
      moments.countP (·.faults d) + moments.countP (·.hangs d) := by
  induction moments with
  | nil => rfl
  | cons m moments ih =>
    have hm := (m.balanced d).request
    simp only [counted_cons, List.countP_cons]
    omega

theorem counted_release (moments : List (Moment σ κ)) (d : Direction) :
    counted moments d .release = moments.countP (·.givesUp d) + counted moments d .timeout +
      moments.countP (·.unsignalled d) +
      if d = .tx then moments.countP (·.cue.installs) else 0 := by
  induction moments with
  | nil => cases d <;> rfl
  | cons m moments ih =>
    have hm := (m.balanced d).release
    simp only [counted_cons, List.countP_cons]
    cases d with
    | rx =>
      simp only [reduceCtorEq, if_false, false_and] at hm ih ⊢
      omega
    | tx =>
      simp only [if_true, true_and] at hm ih ⊢
      omega

theorem counted_immediateGrant (moments : List (Moment σ κ)) (d : Direction) :
    counted moments d .immediateGrant =
      if d = .rx then moments.countP (·.asksLow) else 0 := by
  induction moments with
  | nil => cases d <;> rfl
  | cons m moments ih =>
    have hm := (m.balanced d).immediate
    simp only [counted_cons, List.countP_cons]
    cases d with
    | rx =>
      simp only [if_true, true_and] at hm ih ⊢
      omega
    | tx =>
      simp only [reduceCtorEq, if_false, false_and] at hm ih ⊢
      omega

theorem counted_abort (moments : List (Moment σ κ)) (d : Direction) :
    counted moments d .abort = moments.countP (·.withdraws d) := by
  induction moments with
  | nil => rfl
  | cons m moments ih =>
    have hm := (m.balanced d).abort
    simp only [counted_cons, List.countP_cons]
    omega

/-- The engine was made since the counters were last at zero, unless they were set to zero. -/
theorem countP_installs_play (preemption : Bool) (moves : List (Move σ κ)) {e : Engine κ}
    (he : (Run.play preemption moves).station.engine = some e) :
    (sinceReset (Run.play preemption moves).session).countP (·.cue.installs) =
      if (Run.play preemption moves).session.any (·.cue.resets) then 0 else 1 := by
  refine Run.session_induction (P := fun session _ =>
    (sinceReset session).countP (·.cue.installs) = if session.any (·.cue.resets) then 0 else 1)
    ?begins ?goesOn preemption moves he
  case begins =>
    intro m e hinstalls he
    obtain ⟨config, rig, hcue, -⟩ := prepares_of_installs hinstalls he
    have hkeeps : m.cue.resets = false := by rw [hcue]; rfl
    rw [← List.nil_append [m], sinceReset_append_singleton, hkeeps]
    simp [sinceReset, hkeeps, hinstalls]
  case goesOn =>
    intro session m e₀ e ih hstays he₀ he
    rw [sinceReset_append_singleton]
    cases hresets : m.cue.resets <;> simp [ih, hresets, hstays]

/-! ## Conservation -/

/-- What the counters of an engine add up to. -/
structure Conserved (session : List (Moment σ κ)) (e : Engine κ) : Prop where
  /-- A request was granted, or refused, or a line failed before there was an answer, or else it has
  not ended. -/
  requests : ∀ d, e.statistics.count d .request =
    e.statistics.count d .grant + e.statistics.count d .timeout +
      (sinceReset session).countP (·.faults d) + (sinceReset session).countP (·.hangs d)
  /-- If every request has ended, then in one of the first three ways. -/
  requests_of_ended : (∀ m ∈ sinceReset session, m.reaction.progress.isEndless = false) →
    ∀ d, e.statistics.count d .request =
      e.statistics.count d .grant + e.statistics.count d .timeout +
        (sinceReset session).countP (·.faults d)
  /-- Access is given up, or it is refused, or a request cannot be signalled; and the deny line for
  transmitting is the one that a new engine monitors. -/
  releases : ∀ d, e.statistics.count d .release =
    (sinceReset session).countP (·.givesUp d) + e.statistics.count d .timeout +
      (sinceReset session).countP (·.unsignalled d) +
      if d = .tx ∧ session.any (·.cue.resets) = false then 1 else 0
  /-- The same for both deny lines together. -/
  releases_total : e.statistics.count .rx .release + e.statistics.count .tx .release =
    (sinceReset session).countP (fun m => m.givesUp .rx || m.givesUp .tx) +
      (e.statistics.count .rx .timeout + e.statistics.count .tx .timeout) +
      (sinceReset session).countP (fun m => m.unsignalled .rx || m.unsignalled .tx) +
      if session.any (·.cue.resets) then 0 else 1
  /-- A release is counted for the deny line that is monitored then. -/
  attributed : ∀ m ∈ sinceReset session, ∀ d, (d, .release) ∈ m.occurrences →
    ∀ e' ∈ m.reaction.station.engine, e'.monitored = d
  immediateGrants_tx : e.statistics.count .tx .immediateGrant = 0
  immediateGrants_rx :
    e.statistics.count .rx .immediateGrant = (sinceReset session).countP (·.asksLow)
  aborts : ∀ d, e.statistics.count d .abort = (sinceReset session).countP (·.withdraws d)
  /-- Nothing but setting the counters to zero lowers one of them. -/
  grows : ∀ m ∈ session, m.cue.installs = false → m.cue.resets = false →
    ∀ e₀ ∈ m.before.engine, ∀ e₁ ∈ m.reaction.station.engine, ∀ d o,
      e₀.statistics.count d o ≤ e₁.statistics.count d o

/-- **The counters add up**, as long as none of them has reached the largest word: whatever the
engine is asked for, from inside a sink or not, whichever writes and reads fail, and however the
operations come out. -/
theorem conserved_play (preemption : Bool) (moves : List (Move σ κ)) {e : Engine κ}
    (he : (Run.play preemption moves).station.engine = some e)
    (hbelow : ∀ d o, e.statistics.count d o < UInt32.size - 1) :
    Conserved (Run.play preemption moves).session e := by
  set session := (Run.play preemption moves).session with hsession
  have hcount : ∀ d o, e.statistics.count d o = counted (sinceReset session) d o :=
    fun d o => count_play preemption moves he (hbelow d o)
  have hinstalls : (sinceReset session).countP (·.cue.installs) =
      if session.any (·.cue.resets) then 0 else 1 := countP_installs_play preemption moves he
  have hrequests : ∀ d, e.statistics.count d .request =
      e.statistics.count d .grant + e.statistics.count d .timeout +
        (sinceReset session).countP (·.faults d) + (sinceReset session).countP (·.hangs d) := by
    intro d
    simp only [hcount]
    exact counted_request _ d
  have hreleases : ∀ d, e.statistics.count d .release =
      (sinceReset session).countP (·.givesUp d) + e.statistics.count d .timeout +
        (sinceReset session).countP (·.unsignalled d) +
        if d = .tx ∧ session.any (·.cue.resets) = false then 1 else 0 := by
    intro d
    simp only [hcount]
    rw [counted_release, hinstalls]
    cases d <;> cases session.any (·.cue.resets) <;> simp
  refine ⟨hrequests, ?requests_of_ended, hreleases, ?releases_total, ?attributed,
    ?immediateGrants_tx, ?immediateGrants_rx, ?aborts, ?grows⟩
  case requests_of_ended =>
    intro hended d
    have hhangs : (sinceReset session).countP (·.hangs d) = 0 := by
      refine List.countP_eq_zero.mpr fun m hm => ?_
      simp [Moment.hangs, hended m hm]
    rw [hrequests d, hhangs, Nat.add_zero]
  case releases_total =>
    have hgives := countP_or fun m (_ : m ∈ sinceReset session) => m.not_givesUp_both
    have hunsignalled := countP_or fun m (_ : m ∈ sinceReset session) => m.not_unsignalled_both
    have hrx := hreleases .rx
    have htx := hreleases .tx
    rw [hgives, hunsignalled]
    cases hany : session.any (·.cue.resets) with
    | true =>
      simp only [hany, Bool.true_eq_false, and_false, if_false, if_true] at hrx htx ⊢
      omega
    | false =>
      simp only [hany, reduceCtorEq, and_true, if_false, if_true] at hrx htx ⊢
      omega
  case attributed =>
    intro m _ d hmem e' he'
    exact monitored_of_release he' hmem
  case immediateGrants_tx =>
    rw [hcount]
    exact counted_immediateGrant _ .tx
  case immediateGrants_rx =>
    rw [hcount]
    exact counted_immediateGrant _ .rx
  case aborts =>
    intro d
    rw [hcount]
    exact counted_abort _ d
  case grows =>
    intro m _ hstays hkeeps e₀ he₀ e₁ he₁
    exact count_le_of_stays hstays hkeeps he₀ he₁

/-- Access to receive is asked for without receive priority, then with it. It is withdrawn, and the
sink that is told so gives it up. It is refused; a deny line cannot be read, a write fails, and the
engine is disabled. -/
def everyWay : List (Move Unit DualClock) :=
  [.call (.install { bitTicks := 1, guardMicros := 1, sampleMicros := 1 }
      { clock := { patience := 2 } }),
    .call (.arbiter (.register .coexistence .ble 1 ())), .answer .success,
    .call (.engine (.request .rx)), .call (.engine (.setPriority .rx true)),
    .call (.engine (.request .rx)),
    .call (.disturb fun rig => { rig with rxDeny.queued := [some true, some true] }),
    .call (.interrupt .rx), .call (.engine .release), .answer .success,
    .call (.engine (.request .rx)),
    .call (.disturb fun rig => { rig with txDeny.queued := [none] }),
    .call (.engine (.request .tx)),
    .call (.disturb fun rig => { rig with request.failing := [rig.request.writes + 1] }),
    .call (.engine (.request .tx)), .call (.engine .disable)]

/-- Everything has occurred that can occur. -/
theorem conserved_play_everyWay :
    ∃ e, (Run.play true everyWay).station.engine = some e ∧
      e.statistics = ⟨⟨2, 1, 1, 1, 2, 1⟩, ⟨2, 0, 0, 0, 3, 0⟩⟩ ∧
      Conserved (Run.play true everyWay).session e := by
  have hstatistics : (Run.play true everyWay).station.engine.map Engine.statistics =
      some ⟨⟨2, 1, 1, 1, 2, 1⟩, ⟨2, 0, 0, 0, 3, 0⟩⟩ := by decide +kernel
  obtain ⟨e, he, hstatistics⟩ := Option.map_eq_some_iff.mp hstatistics
  have hbelow : ∀ d o, e.statistics.count d o < UInt32.size - 1 := by
    rw [hstatistics]
    intro d o
    cases d <;> cases o <;> decide
  exact ⟨e, he, hstatistics, conserved_play true everyWay he hbelow⟩

end SharedRadio.Station
