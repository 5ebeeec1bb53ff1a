import SharedRadio.Proofs.Coexistence.Rest
import SharedRadio.Proofs.Station.Conservation
import SharedRadio.Proofs.Station.Failure
import SharedRadio.Proofs.Station.Origin

/-!
# A disabled engine is inert

While an engine is disabled, nothing comes of it. It holds no access (`rests_play`), it touches
neither the request line nor an interrupt, it tells the sinks nothing, and whatever has to do with
access succeeds at once. `passes_of_disabled` says so of a single moment, whatever happens then
except that the engine is enabled or replaced, and `inert_play` of everything that follows a time at
which nothing is under way.
-/

namespace SharedRadio.Station

open Coexistence

variable {σ κ : Type}

/-! ## What has no place in the life of a disabled engine -/

/-- An operation that brings an engine into use. -/
def Call.revives : Call σ κ → Bool
  | .engine .enable | .install .. => true
  | _ => false

/-- A move that brings an engine into use. -/
def Move.revives : Move σ κ → Bool
  | .call c => c.revives
  | .answer _ => false

/-- Whether an engine is brought into use. -/
def Cue.revives : Cue σ κ → Bool
  | .call c => c.revives
  | .answer .. => false

theorem Cue.installs_of_not_revives {k : Cue σ κ} (h : k.revives = false) :
    k.installs = false := by
  cases k with
  | answer => rfl
  | call c => cases c <;> first | rfl | cases h

/-- Access is asked for, or given up, or an interrupt is handled. -/
def Cue.concernsAccess : Cue σ κ → Bool
  | .call (.engine operation) => operation.concernsAccess
  | .call (.interrupt _) => true
  | _ => false

/-- What somebody asks of the arbiter, be it directly or by way of the engine. -/
def Cue.asks? : Cue σ κ → Option (Arbiter.Call σ)
  | .call (.arbiter c) | .call (.throughEngine c) => some c
  | _ => none

variable [Clock κ]

/-! ## No access is held -/

/-- **A disabled engine holds no access**, in every run. -/
theorem rests_play (preemption : Bool) (moves : List (Move σ κ)) {e : Engine κ}
    (he : (Run.play preemption moves).station.engine = some e) : e.stance.Rests := by
  refine Run.session_induction (P := fun _ e => e.stance.Rests) ?begins ?goesOn preemption moves he
  case begins =>
    intro m e hinstalls he
    obtain ⟨config, rig, -, prepares⟩ := prepares_of_installs hinstalls he
    exact prepares.rests
  case goesOn =>
    intro session m e₀ e h hstays he₀ he
    exact stance_of_stays hstays he₀ he (fun _ performs => performs.rests h) (·.rests h)
      (fun _ _ => h) h

/-! ## A single moment -/

/-- What is counted at a moment at which the engine is disabled. -/
def Moment.lowGrants (m : Moment σ κ) : List (Direction × Occurrence) :=
  if m.asksLow then [(.rx, .immediateGrant)] else []

/-- A moment passes over a disabled engine: `e` before it, and `e'` after it. -/
structure Passes (m : Moment σ κ) (e e' : Engine κ) : Prop where
  before : m.before.engine = some e
  after : m.reaction.station.engine = some e'
  disabled : e'.enabled = false
  held : e'.held = e.held
  monitored : e'.monitored = e.monitored
  /-- No level is written to the request line, and no interrupt is enabled or disabled. -/
  silent : ∀ s ∈ m.reaction.sightings, s.isTouch = false
  /-- So the interrupts are as they were, unless something happens to the rig from outside. -/
  armed : m.cue.change? = none →
    ∀ d, (e'.rig.denyLine d).armed = (e.rig.denyLine d).armed
  /-- What has to do with access succeeds, and no deny line is read for it. -/
  granted : m.cue.concernsAccess = true → m.reaction.progress = .finished .done ∧
    ∀ d reading, .sampled d reading ∉ m.reaction.sightings
  /-- The engine asks nothing of the arbiter on its own account. -/
  asks : ∀ c, m.move? = some (.call c) → m.cue.asks? = some c
  /-- Nothing is counted but that access to receive is granted at once. -/
  counted : e'.statistics = if m.cue.resets then {} else e.statistics.bumpAll m.lowGrants

section

variable {m : Moment σ κ} {e e' : Engine κ}

omit [Clock κ] in
/-- A disabled engine has nothing broadcast. -/
theorem brought?_of_disabled (hdisabled : e.enabled = false) (line : Direction) :
    brought? e line = none := by
  unfold brought?
  rw [Engine.act_interrupt_of_disabled hdisabled]

theorem occurrences_of_disabled (he : m.before.engine = some e) (hdisabled : e.enabled = false)
    (hstays : m.cue.installs = false) : m.occurrences = m.lowGrants := by
  obtain ⟨cue, arbiter, engine⟩ := m
  obtain rfl : engine = some e := he
  cases cue with
  | answer => rfl
  | call c =>
    cases c with
    | arbiter | throughEngine | disturb => rfl
    | install => cases hstays
    | interrupt line =>
      unfold Moment.occurrences
      dsimp only
      rw [brought?_of_disabled hdisabled]
      rfl
    | engine operation =>
      cases operation with
      | enable | setPriority | change | denyState | resetStatistics => rfl
      | release | disable =>
        show (if e.enabled then _ else _) = _
        rw [if_neg (by simp [hdisabled])]
        rfl
      | request d =>
        show (if d = .rx ∧ e.flags.rx = false then _ else if e.enabled then _ else _) = _
        by_cases hlow : d = .rx ∧ e.flags.rx = false
        · rw [if_pos hlow]
          obtain ⟨rfl, hflag⟩ := hlow
          simp [Moment.lowGrants, Moment.asksLow, hflag]
        · rw [if_neg hlow, if_neg (by simp [hdisabled])]
          have hnot : d = .rx → e.flags.rx = true := by simpa using hlow
          simpa [Moment.lowGrants, Moment.asksLow] using hnot

omit [Clock κ] in
theorem asks?_of_move?_eq_some (he : m.before.engine = some e) (hdisabled : e.enabled = false)
    {c : Arbiter.Call σ} (hmove : m.move? = some (.call c)) : m.cue.asks? = some c := by
  obtain ⟨cue, arbiter, engine⟩ := m
  obtain rfl : engine = some e := he
  cases cue with
  | answer => cases hmove
  | call c' =>
    cases c' with
    | arbiter | throughEngine => cases hmove; rfl
    | interrupt line =>
      unfold Moment.move? arbiterCall? at hmove
      simp [brought?_of_disabled hdisabled] at hmove
    | install | engine | disturb => cases hmove

/-- A moment at which the lines are left alone passes over a disabled engine. -/
theorem Passes.of_untouched (he : m.before.engine = some e) (hdisabled : e.enabled = false)
    (hrevives : m.cue.revives = false) (he' : m.reaction.station.engine = some e')
    (untouched : Engine.Untouched e.stance e'.stance m.reaction.sightings)
    (hgranted : m.cue.concernsAccess = true → m.reaction.progress = .finished .done ∧
      ∀ d reading, .sampled d reading ∉ m.reaction.sightings) : Passes m e e' where
  before := he
  after := he'
  disabled := untouched.enabled
  held := untouched.held
  monitored := untouched.monitored
  silent := untouched.silent
  armed _ := congrFun untouched.armed
  granted := hgranted
  asks _ := asks?_of_move?_eq_some he hdisabled
  counted := by
    have hstays := Cue.installs_of_not_revives hrevives
    rw [← occurrences_of_disabled he hdisabled hstays]
    exact statistics_of_stays hstays he he'

/-- What is done without the engine passes over it. -/
theorem Passes.of_logged (he : m.before.engine = some e) (hdisabled : e.enabled = false)
    (hrevives : m.cue.revives = false) (hother : m.cue.concernsAccess = false)
    (he' : m.reaction.station.engine = some e)
    (hlogged : ∀ s ∈ m.reaction.sightings, ∃ line, s = .logged line) : Passes m e e := by
  refine .of_untouched he hdisabled hrevives he' (.refl hdisabled fun s hs => ?_) fun haccess => ?_
  · obtain ⟨line, rfl⟩ := hlogged s hs
    rfl
  · cases hother.symm.trans haccess

omit [Clock κ] in
/-- A disabled engine clears a pending interrupt, and that is all. -/
theorem interrupt_of_disabled {s : Station σ κ} (he : s.engine = some e)
    (hdisabled : e.enabled = false) (line : Direction) :
    s.interrupt line =
      finish { s with engine := some (e.afterIgnoring line) } [.cleared line] .done := by
  rw [interrupt, withEngine, he]
  dsimp only
  rw [Engine.act_interrupt_of_disabled hdisabled]

/-- **Every moment passes over a disabled engine**, unless the engine is enabled or replaced. -/
theorem passes_of_disabled (he : m.before.engine = some e) (hdisabled : e.enabled = false)
    (hrevives : m.cue.revives = false) : ∃ e', Passes m e e' := by
  obtain ⟨cue, arbiter, engine⟩ := m
  obtain rfl : engine = some e := he
  cases cue with
  | answer w b => exact ⟨e, .of_logged rfl hdisabled rfl rfl rfl logged_of_mem_map⟩
  | call c =>
    cases c with
    | arbiter c => exact ⟨e, .of_logged rfl hdisabled rfl rfl rfl logged_of_mem_map⟩
    | throughEngine c => exact ⟨e, .of_logged rfl hdisabled rfl rfl rfl logged_of_mem_map⟩
    | install => cases hrevives
    | engine operation =>
      obtain ⟨x, e', performs, engine, progress⟩ :=
        performs_operate (s := ⟨arbiter, some e⟩) rfl operation
      have hkeeps : operation ≠ .enable := by
        rintro rfl
        cases hrevives
      refine ⟨e', .of_untouched rfl hdisabled hrevives engine
        (performs.untouched hdisabled hkeeps) fun haccess => ?_⟩
      obtain ⟨rfl, hsilent, -⟩ := performs.passed hdisabled haccess
      exact ⟨progress, fun d reading => List.eq_nil_iff_forall_not_mem.mp hsilent _⟩
    | interrupt line =>
      have hreaction : Moment.reaction ⟨.call (.interrupt line), ⟨arbiter, some e⟩⟩ =
          finish ⟨arbiter, some (e.afterIgnoring line)⟩ [.cleared line] .done :=
        interrupt_of_disabled (s := ⟨arbiter, some e⟩) rfl hdisabled line
      refine ⟨e.afterIgnoring line, .of_untouched rfl hdisabled rfl (by rw [hreaction]; rfl) ?_
        fun _ => ?_⟩
      · have harmed : (e.afterIgnoring line).stance.armed = e.stance.armed := by
          funext d
          cases line <;> cases d <;> rfl
        rw [hreaction]
        exact ⟨hdisabled, rfl, rfl, harmed, by simp [finish, Sighting.isTouch]⟩
      · rw [hreaction]
        exact ⟨rfl, by simp [finish]⟩
    | disturb change =>
      refine ⟨{ e with rig := change e.rig }, rfl, rfl, hdisabled, rfl, rfl, ?silent, ?armed,
        ?granted, ?asks, rfl⟩
      case silent => exact List.forall_mem_nil _
      case armed => intro hnone; cases hnone
      case granted => intro haccess; cases haccess
      case asks => intro c hmove; cases hmove

end

/-! ## A stretch of a run -/

omit [Clock κ] in
theorem flatMap_lowGrants (moments : List (Moment σ κ)) :
    moments.flatMap Moment.lowGrants =
      List.replicate (moments.countP (·.asksLow)) (.rx, .immediateGrant) := by
  induction moments with
  | nil => rfl
  | cons m moments ih =>
    rw [List.flatMap_cons, ih, List.countP_cons, Moment.lowGrants]
    split
    · rw [Nat.add_comm, List.replicate_add]
      rfl
    · rfl

/-- A stretch of a history passes over a disabled engine: `e` before it, and `e'` after it. -/
structure PassesOver (stretch : List (Moment σ κ)) (e e' : Engine κ) : Prop where
  disabled : e'.enabled = false
  held : e'.held = e.held
  monitored : e'.monitored = e.monitored
  /-- All along, the same access is held, or rather none, and the same deny line is monitored. -/
  moments : ∀ m ∈ stretch, ∃ e₀ e₁, Passes m e₀ e₁ ∧ e₁.held = e.held ∧ e₁.monitored = e.monitored
  /-- Unless the counters are set to zero, only that of the receive requests that are granted at
  once goes up. -/
  counted : e'.statistics =
    (if stretch.any (·.cue.resets) then {} else e.statistics).bumpAll
      (List.replicate ((sinceReset stretch).countP (·.asksLow)) (.rx, .immediateGrant))

theorem PassesOver.append {stretch : List (Moment σ κ)} {m : Moment σ κ} {e e' e'' : Engine κ}
    (h : PassesOver stretch e e') (hm : Passes m e' e'') : PassesOver (stretch ++ [m]) e e'' := by
  have hheld := hm.held.trans h.held
  have hmonitored := hm.monitored.trans h.monitored
  refine ⟨hm.disabled, hheld, hmonitored, ?moments, ?counted⟩
  case moments =>
    exact List.forall_mem_append.mpr
      ⟨h.moments, List.forall_mem_singleton.mpr ⟨e', e'', hm, hheld, hmonitored⟩⟩
  case counted =>
    rw [hm.counted, sinceReset_append_singleton]
    cases hresets : m.cue.resets with
    | true => simp [hresets, Statistics.bumpAll]
    | false =>
      simp only [Bool.false_eq_true, if_false, List.any_append, List.any_cons, List.any_nil,
        hresets, Bool.or_false]
      rw [← flatMap_lowGrants, List.flatMap_append, List.flatMap_singleton,
        Statistics.bumpAll_append, flatMap_lowGrants, ← h.counted]

/-- A move that brings no engine into use makes a moment come next that brings none into use, or it
changes nothing. -/
theorem Run.step_of_not_revives {move : Move σ κ} (hrevives : move.revives = false)
    (r : Run σ κ) :
    r.step move = r ∨ ∃ m others, m.before = r.station ∧ m.cue.revives = false ∧
      r.step move = r.after m others := by
  cases move with
  | call c => exact .inr ⟨⟨.call c, r.station⟩, r.pending, rfl, hrevives, rfl⟩
  | answer b =>
    cases waits : r.pending with
    | nil => exact .inl (by rw [step, waits])
    | cons w others => exact .inr ⟨_, _, rfl, rfl, by rw [step, waits]⟩

/-- While an engine is neither enabled nor replaced, every move passes over it. -/
theorem exists_passesOver (preemption : Bool) (moves newer : List (Move σ κ)) {e : Engine κ}
    (he : (Run.play preemption moves).station.engine = some e) (hdisabled : e.enabled = false)
    (hnewer : ∀ move ∈ newer, move.revives = false) :
    ∃ stretch e', (Run.play preemption (moves ++ newer)).past =
        (Run.play preemption moves).past ++ stretch ∧
      (Run.play preemption (moves ++ newer)).station.engine = some e' ∧
        PassesOver stretch e e' := by
  induction newer using List.reverseRecOn with
  | nil =>
    refine ⟨[], e, by simp, by simpa using he, hdisabled, rfl, rfl, by simp, rfl⟩
  | append_singleton newer move ih =>
    obtain ⟨stretch, e', hpast, he', passes⟩ :=
      ih fun move' hmove' => hnewer move' (List.mem_append_left _ hmove')
    rw [← List.append_assoc, Run.play_append_singleton]
    rcases Run.step_of_not_revives (hnewer move (by simp)) (Run.play preemption (moves ++ newer))
      with hsame | ⟨m, others, hbefore, hrevives, hafter⟩
    · rw [hsame]
      exact ⟨stretch, e', hpast, he', passes⟩
    · rw [hafter]
      obtain ⟨e'', hm⟩ := passes_of_disabled (hbefore ▸ he') passes.disabled hrevives
      exact ⟨stretch ++ [m], e'', by simp [Run.after, hpast], hm.after, passes.append hm⟩

/-- A disabled engine is inert in a stretch of a history: `e` before it, and `e'` after it. -/
structure Inert (preemption : Bool) (past stretch : List (Moment σ κ)) (e e' : Engine κ) : Prop
    extends PassesOver stretch e e' where
  /-- No access is held, at first or later on. -/
  idle : e.held = none
  /-- A coexistence sink is told that it has been registered, or it is told of an event that
  somebody has asked the arbiter to broadcast, and that was not the engine. -/
  tells : ∀ older m newer, stretch = older ++ m :: newer →
    ∀ n w, m.reaction.progress = .notifies n w → n.slot = .coexistence →
      ∃ older₀ m₀ newer₀ c, older ++ [m] = older₀ ++ m₀ :: newer₀ ∧ m₀.cue.asks? = some c ∧
        StemsFrom preemption (past ++ older₀) m₀ c (past ++ older) m ∧ c.Informs n

/-- **A disabled engine is inert.** Whatever it is asked for, from inside a sink or not, and
whatever happens to its lines, nothing comes of it until it is enabled or replaced. -/
theorem inert_play (preemption : Bool) (moves newer : List (Move σ κ)) {e : Engine κ}
    (hquiet : (Run.play preemption moves).pending = [])
    (he : (Run.play preemption moves).station.engine = some e) (hdisabled : e.enabled = false)
    (hnewer : ∀ move ∈ newer, move.revives = false) :
    ∃ stretch e', (Run.play preemption (moves ++ newer)).past =
        (Run.play preemption moves).past ++ stretch ∧
      (Run.play preemption (moves ++ newer)).station.engine = some e' ∧
        Inert preemption (Run.play preemption moves).past stretch e e' := by
  obtain ⟨stretch, e', hpast, he', passes⟩ :=
    exists_passesOver preemption moves newer he hdisabled hnewer
  refine ⟨stretch, e', hpast, he', passes, rests_play preemption moves he hdisabled, ?_⟩
  rintro older m newer rfl n w hl hslot
  rw [← List.append_assoc] at hpast
  obtain ⟨older₀, m₀, newer₀, c, hsplit, stems, hinforms⟩ := Run.exists_origin hquiet hpast hl
  -- The engine asked for nothing at the moment at which the operation began.
  have hm₀ : m₀ ∈ older ++ m :: newer := by
    rw [List.append_cons, hsplit]
    simp
  obtain ⟨e₀, e₁, hm₀, -⟩ := passes.moments m₀ hm₀
  exact ⟨older₀, m₀, newer₀, c, hsplit, hm₀.asks c stems.asks, stems, hinforms hslot⟩

/-- Access to transmit is held, and a write of the request line will fail. -/
def aboutToFail : List (Move Unit DualClock) :=
  [.call (.install { bitTicks := 1, guardMicros := 1, sampleMicros := 1 }
      { clock := { patience := 2 } }),
    .call (.arbiter (.register .coexistence .ble 1 ())), .answer .success,
    .call (.engine (.request .tx)),
    .call (.disturb fun rig => { rig with request.failing := [rig.request.writes + 3] })]

/-- The engine is disabled then. -/
def disabledInHaste : List (Move Unit DualClock) := aboutToFail ++ [.call (.engine .disable)]

/-- The deny line for transmitting denies access. There is an interrupt, and access is asked for;
another sink is registered, and there is another interrupt before it answers. In the end a deny line
cannot be read. -/
def askedInVain : List (Move Unit DualClock) :=
  [.call (.disturb fun rig => { rig with txDeny.high := true }), .call (.interrupt .tx),
    .call (.engine (.request .tx)), .call (.engine (.request .rx)),
    .call (.engine (.change .rx)), .call (.throughEngine (.register .coexistence .ant 2 ())),
    .call (.interrupt .tx), .call (.engine .release), .call (.engine .disable), .answer .success,
    .call (.disturb fun rig => { rig with rxDeny.queued := [none] }), .call (.engine .denyState)]

/-- To disable the engine fails, and nothing comes of it any more all the same. -/
theorem inert_play_askedInVain :
    ∃ e stretch e',
      ((Run.play true aboutToFail).station.call (.engine .disable)).progress.outcome? =
        some (.failed .gpio) ∧
      (Run.play true disabledInHaste).station.engine = some e ∧
      (Run.play true (disabledInHaste ++ askedInVain)).past =
        (Run.play true disabledInHaste).past ++ stretch ∧
      (Run.play true (disabledInHaste ++ askedInVain)).station.engine = some e' ∧
      Inert true (Run.play true disabledInHaste).past stretch e e' ∧
      e.statistics = ⟨⟨0, 0, 0, 0, 0, 0⟩, ⟨1, 0, 1, 0, 2, 0⟩⟩ ∧
      e'.statistics = ⟨⟨0, 1, 0, 0, 0, 0⟩, ⟨1, 0, 1, 0, 2, 0⟩⟩ := by
  have hfails : ((Run.play true aboutToFail).station.call
      (.engine .disable)).progress.outcome? = some (.failed .gpio) := by
    decide +kernel
  have hquiet : (Run.play true disabledInHaste).pending.isEmpty = true := by decide +kernel
  have hdisabled : (Run.play true disabledInHaste).station.engine.map
      (fun e => (e.enabled, e.statistics)) =
        some (false, ⟨⟨0, 0, 0, 0, 0, 0⟩, ⟨1, 0, 1, 0, 2, 0⟩⟩) := by
    decide +kernel
  have hstatistics : (Run.play true (disabledInHaste ++ askedInVain)).station.engine.map
      Engine.statistics = some ⟨⟨0, 1, 0, 0, 0, 0⟩, ⟨1, 0, 1, 0, 2, 0⟩⟩ := by
    decide +kernel
  obtain ⟨e, he, hdisabled⟩ := Option.map_eq_some_iff.mp hdisabled
  obtain ⟨hdisabled, hbefore⟩ := Prod.mk.inj hdisabled
  have hnewer : ∀ move ∈ askedInVain, move.revives = false := by
    simp [askedInVain, Move.revives, Call.revives]
  obtain ⟨stretch, e', hpast, he', hinert⟩ :=
    inert_play true disabledInHaste askedInVain (List.isEmpty_iff.mp hquiet) he hdisabled hnewer
  rw [he', Option.map_some, Option.some.injEq] at hstatistics
  exact ⟨e, stretch, e', hfails, he, hpast, he', hinert, hbefore, hstatistics⟩

end SharedRadio.Station
