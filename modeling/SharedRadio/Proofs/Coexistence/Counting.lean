import SharedRadio.Proofs.Coexistence.Watch

/-!
# What an operation counts

`Operation.occurrences` lists what an operation counts: it depends on where the engine stands before
it and on what is noticed in its course. A request is counted when it begins, and then what comes of
it: the level that is read off the deny line decides between a grant and a refusal, and without such
a level a release is counted if a write of the request line failed. `Performs.statistics_eq` says
that the counters go up by that list and by nothing else.

The counters are words that stop at the largest one, so `count_bumpAll` gives what they show as a
minimum.
-/

namespace SharedRadio.Coexistence

/-! ## Counters -/

/-- The counter of an occurrence. -/
def Tally.counter (t : Tally) : Occurrence → UInt32
  | .request => t.requests
  | .immediateGrant => t.immediateGrants
  | .grant => t.grants
  | .timeout => t.timeouts
  | .release => t.releases
  | .abort => t.aborts

@[simp] theorem Tally.counter_bump_self (t : Tally) (o : Occurrence) :
    (t.bump o).counter o = saturatingSucc (t.counter o) := by
  cases o <;> rfl

theorem Tally.counter_bump_of_ne (t : Tally) {o o' : Occurrence} (h : o' ≠ o) :
    (t.bump o).counter o' = t.counter o' := by
  cases o <;> cases o' <;> first | rfl | exact absurd rfl h

namespace Statistics

/-- What the counter of an occurrence shows for a direction. -/
def count (s : Statistics) (d : Direction) (o : Occurrence) : Nat := ((s.tally d).counter o).toNat

/-- The counters after some more occurrences. -/
def bumpAll (s : Statistics) (l : List (Direction × Occurrence)) : Statistics :=
  l.foldl (fun s c => s.bump c.1 c.2) s

theorem bumpAll_append (s : Statistics) (l l' : List (Direction × Occurrence)) :
    s.bumpAll (l ++ l') = (s.bumpAll l).bumpAll l' :=
  List.foldl_append

theorem count_bump (s : Statistics) (c : Direction × Occurrence) (d : Direction) (o : Occurrence) :
    (s.bump c.1 c.2).count d o =
      if c = (d, o) then min (s.count d o + 1) (UInt32.size - 1) else s.count d o := by
  obtain ⟨d', o'⟩ := c
  unfold count
  by_cases hd : d = d'
  · subst hd
    rw [tally_bump_self]
    by_cases ho : o = o'
    · subst ho
      rw [if_pos rfl, Tally.counter_bump_self, toNat_saturatingSucc]
    · rw [if_neg fun h => ho (Prod.mk.inj h).2.symm, Tally.counter_bump_of_ne _ ho]
  · rw [if_neg fun h => hd (Prod.mk.inj h).1.symm, tally_bump_of_ne _ hd]

/-- A counter shows how often something has occurred, or else the largest word. -/
theorem count_bumpAll (s : Statistics) (l : List (Direction × Occurrence)) (d : Direction)
    (o : Occurrence) :
    (s.bumpAll l).count d o = min (s.count d o + l.count (d, o)) (UInt32.size - 1) := by
  induction l generalizing s with
  | nil =>
    have hlt : s.count d o < UInt32.size := UInt32.toNat_lt _
    show s.count d o = _
    rw [List.count_nil]
    omega
  | cons c l ih =>
    show ((s.bump c.1 c.2).bumpAll l).count d o = _
    rw [ih, count_bump, List.count_cons]
    simp only [beq_iff_eq]
    split <;> omega

end Statistics

/-! ## What was read off a deny line -/

/-- The level that was read off a deny line. -/
def Sighting.reading? : Sighting → Option Bool
  | .sampled _ reading => reading
  | _ => none

/-- The first level that was read off a deny line. -/
def reading? (t : List Sighting) : Option Bool := t.findSome? Sighting.reading?

theorem reading?_append (t u : List Sighting) :
    reading? (t ++ u) = (reading? t).or (reading? u) :=
  List.findSome?_append

/-- Nothing was read off a deny line, and a write of the request line failed exactly if there was a
fault. -/
structure Signalled {ε α : Type} (fault : ε) (x : Except ε α) (t : List Sighting) : Prop where
  unread : reading? t = none
  lands_iff : Lands t ↔ x ≠ .error fault

namespace Signalled

variable {ε α β : Type} {fault : ε} {x : Except ε α} {t u : List Sighting}

/-- Something is signalled, and then something else. -/
theorem append {a : β} (h : Signalled fault (.ok a : Except ε β) t) (h' : Signalled fault x u) :
    Signalled fault x (t ++ u) := by
  refine ⟨by rw [reading?_append, h.unread, h'.unread]; rfl, ?_⟩
  rw [lands_append, h'.lands_iff]
  exact and_iff_right (h.lands_iff.mpr nofun)

/-- What follows an error is not done. -/
theorem error {e : ε} (h : Signalled fault (.error e : Except ε β) t) :
    Signalled fault (.error e : Except ε α) t := by
  refine ⟨h.unread, h.lands_iff.trans ?_⟩
  simp

end Signalled

theorem Rig.Transmits.signalled {levels : List Bool} {v w : Direction → Bool}
    {x : Except Rig.Halt Unit} {t : List Sighting} (h : Rig.Transmits levels v x t w) :
    Signalled .lineFault x t := by
  induction h with
  | done => exact ⟨rfl, iff_of_true nofun nofun⟩
  | @held _ _ level _ _ _ tick more ih =>
    refine ⟨ih.unread, ?_⟩
    rw [lands_cons, ih.lands_iff]
    exact and_iff_right rfl
  | cut tick => exact ⟨rfl, iff_of_false (fun h => nomatch (lands_cons.mp h).1) fun h => h rfl⟩
  | endless tick => exact ⟨rfl, iff_of_true (by simp [Lands, Sighting.isFailedWrite]) nofun⟩

namespace Engine

variable {v w : Stance} {t : List Sighting} {x : Except Halt Unit} {d : Direction}

theorem Sends.signalled {byte : UInt8} (h : Sends byte v x t w) :
    Signalled (.fault .gpio) x t := by
  cases h with
  | ok h => exact ⟨h.signalled.unread, iff_of_true (h.signalled.lands_iff.mpr nofun) nofun⟩
  | endless h => exact ⟨h.signalled.unread, iff_of_true (h.signalled.lands_iff.mpr nofun) nofun⟩
  | fault h =>
    refine ⟨by rw [reading?_append, h.signalled.unread]; rfl, iff_of_false ?_ fun h => h rfl⟩
    exact fun hlands => h.signalled.lands_iff.mp (lands_append.mp hlands).1 rfl

theorem Pauses.signalled (h : Rig.Pauses Halt.endless v x t w) :
    Signalled (.fault .gpio) x t := by
  cases h with
  | ends => exact ⟨rfl, iff_of_true (by simp [Lands, Sighting.isFailedWrite]) nofun⟩
  | endless => exact ⟨rfl, iff_of_true (by simp [Lands, Sighting.isFailedWrite]) nofun⟩

theorem Signals.signalled (h : Signals d v x t w) : Signalled (.fault .gpio) x t := by
  rcases h with ⟨first, rest⟩ | first
  · refine (Sends.signalled first).append ?_
    rcases rest with ⟨pause, second⟩ | pause
    · exact (Pauses.signalled pause).append (Sends.signalled second)
    · exact (Pauses.signalled pause).error
  · exact (Sends.signalled first).error

theorem Releases.unread (h : Releases v x t w) : reading? t = none := by
  cases h with
  | passes => rfl
  | signals enabled sends => exact (Sends.signalled sends).unread

/-- Signalling fails only because of a line. -/
theorem Signals.fault_eq {f : Fault} (h : Signals d v (.error (.fault f)) t w) : f = .gpio := by
  by_contra hother
  have hlands : Lands t := h.signalled.lands_iff.mpr (by simpa using hother)
  cases (h.eq_of_lands hlands nofun).1

/-- A request that cannot be signalled is released. -/
theorem Signals.released {f : Fault} {v' : Stance} {u : List Sighting}
    (signals : Signals d v (.error (.fault f)) t v') (releases : Releases v' x u w) :
    reading? (t ++ u) = none ∧ ¬ Lands (t ++ u) ∧ w = v.released := by
  obtain rfl := signals.fault_eq
  refine ⟨?_, ?_, ?_⟩
  · rw [reading?_append, signals.signalled.unread, releases.unread]
    rfl
  · intro hlands
    exact signals.signalled.lands_iff.mp (lands_append.mp hlands).1 rfl
  · rw [releases.stance_eq, signals.stance_eq]

/-- A request is signalled and every write lands, or one fails and the request is released. Nothing
is read off a deny line. -/
theorem SignalsOrReleases.landed_or_released (h : SignalsOrReleases d v x t w) :
    reading? t = none ∧
      (Lands t ∧ w = v ∧ (x = .ok () ∨ x = .error .endless) ∨
        ¬ Lands t ∧ w = v.released ∧ (x = .error (.fault .gpio) ∨ x = .error .endless)) := by
  cases h with
  | signalled signals =>
    have hlands : Lands t := signals.signalled.lands_iff.mpr nofun
    exact ⟨signals.signalled.unread, .inl ⟨hlands, signals.stance_eq, .inl rfl⟩⟩
  | endless signals =>
    have hlands : Lands t := signals.signalled.lands_iff.mpr nofun
    exact ⟨signals.signalled.unread, .inl ⟨hlands, signals.stance_eq, .inr rfl⟩⟩
  | released signals releases ends =>
    obtain ⟨hunread, hcut, hw⟩ := signals.released releases
    exact ⟨hunread, .inr ⟨hcut, hw, .inl (by rw [signals.fault_eq])⟩⟩
  | releasesForever signals releases =>
    obtain ⟨hunread, hcut, hw⟩ := signals.released releases
    exact ⟨hunread, .inr ⟨hcut, hw, .inr rfl⟩⟩

/-! ## What a request counts -/

/-- What comes of a request for access in a direction, for the counters. -/
def concluded (v : Stance) (d : Direction) (t : List Sighting) : List (Direction × Occurrence) :=
  match reading? t with
  | some high =>
    if v.config.denyLevel.denies high then [(d, .timeout), (d, .release)] else [(d, .grant)]
  | none => if Lands t then [] else [(d, .release)]

/-- What an operation counts. -/
def Operation.occurrences (operation : Operation) (v : Stance) (t : List Sighting) :
    List (Direction × Occurrence) :=
  match operation with
  | .request d =>
    if d = .rx ∧ v.flags.rx = false then [(d, .immediateGrant)]
    else if v.enabled then (d, .request) :: concluded v d t
    else []
  | .release | .disable => if v.enabled then [(v.monitored, .release)] else []
  | _ => []

theorem concluded_append {u : List Sighting} (hunread : reading? t = none) (hlands : Lands t) :
    concluded v d (t ++ u) = concluded v d u := by
  simp only [concluded, reading?_append, hunread, Option.none_or, lands_append, hlands, true_and]

/-- How a request that is signalled ends. -/
structure Concludes (d : Direction) (v : Stance) (x : Except Halt Unit) (t : List Sighting)
    (w : Stance) : Prop where
  monitored : w.monitored = v.monitored
  statistics : w.statistics = v.statistics.bumpAll (concluded v d t)
  /-- Without a level read off its deny line it comes to a fault of a line, or to no end. -/
  unanswered : reading? t = none → x = .error (.fault .gpio) ∨ x = .error .endless

theorem Concludes.append {u : List Sighting} (h : Concludes d v x u w)
    (hunread : reading? t = none) (hlands : Lands t) : Concludes d v x (t ++ u) w := by
  refine ⟨h.monitored, ?_, fun hnone => h.unanswered ?_⟩
  · rw [concluded_append hunread hlands]
    exact h.statistics
  · rwa [reading?_append, hunread, Option.none_or] at hnone

theorem Settles.concludes (h : Settles d v x t w) (hmonitored : v.monitored = d)
    (henabled : v.enabled = true) : Concludes d v x t w := by
  cases h with
  | grants high passes =>
    refine ⟨rfl, ?_, fun hnone => by cases hnone⟩
    simp only [concluded, reading?, Sighting.reading?, List.findSome?_cons, passes]
    rfl
  | @refuses v w x t high denies releases =>
    have henabled : (v.count d .timeout).enabled = true := henabled
    have hw := releases.stance_eq
    rw [Stance.released, if_pos henabled] at hw
    subst hw
    refine ⟨rfl, ?_, fun hnone => by cases hnone⟩
    simp only [concluded, reading?, Sighting.reading?, List.findSome?_cons, denies]
    rw [← hmonitored]
    rfl
  | unread =>
    refine ⟨rfl, ?_, fun _ => .inl rfl⟩
    have hlands : Lands [.sampled d none, .logged Record.lineFault.logLine] := by
      simp [Lands, Sighting.isFailedWrite]
    simp only [concluded, reading?, Sighting.reading?, List.findSome?_cons, List.findSome?_nil,
      if_pos hlands]
    rfl

theorem Negotiates.concludes (h : Negotiates d v x t w) (hmonitored : v.monitored = d)
    (henabled : v.enabled = true) : Concludes d v x t w := by
  rcases h with ⟨first, rest⟩ | first
  · obtain ⟨hunread, ⟨hlands, rfl, -⟩ | ⟨-, -, hx⟩⟩ := first.landed_or_released
    · -- What comes of the request is settled after it was signalled, and by that alone.
      refine Concludes.append ?_ hunread hlands
      rcases rest with ⟨pause, settles⟩ | pause
      · obtain rfl := Pauses.stance_eq pause
        have hpause := Pauses.signalled pause
        exact (settles.concludes hmonitored henabled).append hpause.unread
          (hpause.lands_iff.mpr nofun)
      · cases pause
        refine ⟨rfl, ?_, fun _ => .inr rfl⟩
        simp [concluded, reading?, Sighting.reading?, Lands, Sighting.isFailedWrite]
        rfl
    · rcases hx with hx | hx <;> cases hx
  · obtain ⟨hunread, ⟨hlands, rfl, hx⟩ | ⟨hcut, rfl, hx⟩⟩ := first.landed_or_released
    · refine ⟨rfl, ?_, fun _ => ?_⟩
      · simp only [concluded, hunread, if_pos hlands]
        rfl
      · exact .inr (by rcases hx with hx | hx <;> cases hx; rfl)
    · refine ⟨Stance.released_monitored _, ?_, fun _ => ?_⟩
      · simp only [concluded, hunread, if_neg hcut, Stance.released, if_pos henabled]
        rw [← hmonitored]
        rfl
      · rcases hx with hx | hx <;> cases hx <;> simp

/-- A request that is signalled is counted, and then what comes of it. -/
theorem Requests.concludes (h : Requests d v x t w)
    (hmatters : ¬ (d = .rx ∧ v.flags.rx = false)) (henabled : v.enabled = true) :
    w.monitored = d ∧
      w.statistics = v.statistics.bumpAll ((d, .request) :: concluded v d t) ∧
      (reading? t = none → x = .error (.fault .gpio) ∨ x = .error .endless) := by
  cases h with
  | grants low => exact absurd low hmatters
  | passes matters disabled => cases henabled.symm.trans disabled
  | @negotiates v w x t u matters enabled turns negotiates =>
    have hmonitored : ((v.count d .request).turn d).monitored = d := by
      unfold Stance.turn
      split
      · next hsame => exact hsame
      · rfl
    have hsame : ((v.count d .request).turn d).config = v.config ∧
        ((v.count d .request).turn d).statistics = v.statistics.bump d .request := by
      unfold Stance.turn
      split <;> exact ⟨rfl, rfl⟩
    -- Turning to the deny line is not seen on any line.
    have hsilent : reading? t = none ∧ Lands t := by
      rw [turns]
      split <;> simp [reading?, Sighting.reading?, Lands, Sighting.isFailedWrite]
    have hall := (negotiates.concludes hmonitored
      ((Stance.turn_enabled _ d).trans enabled)).append hsilent.1 hsilent.2
    refine ⟨hall.monitored.trans hmonitored, ?_, hall.unanswered⟩
    rw [hall.statistics, hsame.2]
    simp only [concluded, hsame.1]
    rfl

theorem Requests.statistics_eq (h : Requests d v x t w) :
    w.statistics = v.statistics.bumpAll ((Operation.request d).occurrences v t) := by
  by_cases hlow : d = .rx ∧ v.flags.rx = false
  · rw [Operation.occurrences, if_pos hlow]
    cases h with
    | grants => rfl
    | passes matters | negotiates matters => exact absurd hlow matters
  · rw [Operation.occurrences, if_neg hlow]
    cases henabled : v.enabled with
    | true => exact (h.concludes hlow henabled).2.1
    | false =>
      cases h with
      | grants low => exact absurd low hlow
      | passes => rfl
      | negotiates matters enabled => cases enabled.symm.trans henabled

/-- How a request comes out: what it counts, what it comes to, and what is noticed in its course. -/
inductive Requested (d : Direction) (v : Stance) (x : Except Halt Unit) (t : List Sighting) :
    List (Direction × Occurrence) → Prop
  | low (low : d = .rx ∧ v.flags.rx = false) (silent : t = []) (succeeds : x = .ok ()) :
      Requested d v x t [(d, .immediateGrant)]
  | passed (matters : ¬ (d = .rx ∧ v.flags.rx = false)) (silent : t = [])
      (succeeds : x = .ok ()) : Requested d v x t []
  | granted (matters : ¬ (d = .rx ∧ v.flags.rx = false)) (answered : reading? t ≠ none) :
      Requested d v x t [(d, .request), (d, .grant)]
  | refused (matters : ¬ (d = .rx ∧ v.flags.rx = false)) (answered : reading? t ≠ none) :
      Requested d v x t [(d, .request), (d, .timeout), (d, .release)]
  /-- It is signalled, but no answer is read off the deny line. -/
  | unanswered (matters : ¬ (d = .rx ∧ v.flags.rx = false)) (unread : reading? t = none)
      (lands : Lands t) (fails : x = .error (.fault .gpio) ∨ x = .error .endless) :
      Requested d v x t [(d, .request)]
  /-- It cannot be signalled. -/
  | cut (matters : ¬ (d = .rx ∧ v.flags.rx = false)) (unread : reading? t = none)
      (cut : ¬ Lands t) (fails : x = .error (.fault .gpio) ∨ x = .error .endless) :
      Requested d v x t [(d, .request), (d, .release)]

namespace Requested

variable {l : List (Direction × Occurrence)}

/-- A request is granted, or refused, or comes to nothing. -/
theorem count_request (h : Requested d v x t l) : l.count (d, .request) =
    l.count (d, .grant) + l.count (d, .timeout) +
      (if reading? t = none ∧ x = .error (.fault .gpio) then 1 else 0) +
      (if reading? t = none ∧ x = .error .endless then 1 else 0) := by
  cases h with
  | low low silent succeeds | passed matters silent succeeds => simp [succeeds]
  | granted matters answered | refused matters answered => simp [answered]
  | unanswered matters unread lands fails | cut matters unread cut fails =>
    rcases fails with rfl | rfl <;> simp [unread]

/-- A request is released if it is refused, or if it cannot be signalled. -/
theorem count_release (h : Requested d v x t l) : l.count (d, .release) =
    l.count (d, .timeout) + if reading? t = none ∧ ¬ Lands t then 1 else 0 := by
  cases h with
  | low low silent | passed matters silent => simp [silent, Lands]
  | granted matters answered | refused matters answered => simp [answered]
  | unanswered matters unread lands => simp [lands]
  | cut matters unread cut => simp [unread, cut]

theorem count_immediateGrant (h : Requested d v x t l) : l.count (d, .immediateGrant) =
    if d = .rx ∧ v.flags.rx = false then 1 else 0 := by
  cases h with
  | low low => simp [low]
  | _ matters => simp [matters]

theorem count_abort (h : Requested d v x t l) : l.count (d, .abort) = 0 := by
  cases h <;> simp

/-- A request counts for its own direction only. -/
theorem count_of_ne (h : Requested d v x t l) {c : Direction} (hc : c ≠ d) (o : Occurrence) :
    l.count (c, o) = 0 := by
  have hown : ∀ b ∈ l, b.1 = d := by cases h <;> simp
  exact List.count_eq_zero.mpr fun hmem => hc (hown _ hmem)

end Requested

theorem Requests.requested (h : Requests d v x t w) :
    Requested d v x t ((Operation.request d).occurrences v t) := by
  by_cases hlow : d = .rx ∧ v.flags.rx = false
  · rw [Operation.occurrences, if_pos hlow]
    cases h with
    | grants => exact .low hlow rfl rfl
    | passes matters | negotiates matters => exact absurd hlow matters
  · rw [Operation.occurrences, if_neg hlow]
    cases henabled : v.enabled with
    | false =>
      cases h with
      | grants low => exact absurd low hlow
      | passes => exact .passed hlow rfl rfl
      | negotiates matters enabled => cases enabled.symm.trans henabled
    | true =>
      obtain ⟨-, -, hunanswered⟩ := h.concludes hlow henabled
      rw [if_pos rfl, concluded]
      split
      · next high hread =>
        have hanswered : reading? t ≠ none := by simp [hread]
        split
        · exact .refused hlow hanswered
        · exact .granted hlow hanswered
      · next hunread =>
        split
        · next hlands => exact .unanswered hlow hunread hlands (hunanswered hunread)
        · next hcut => exact .cut hlow hunread hcut (hunanswered hunread)

/-! ## What the operations count -/

theorem Stance.statistics_released (v : Stance) : v.released.statistics =
    v.statistics.bumpAll (if v.enabled then [(v.monitored, .release)] else []) := by
  unfold Stance.released
  split <;> rfl

/-- **The counters go up by what an operation counts**, unless it sets them to zero. -/
theorem Performs.statistics_eq {operation : Operation} {x : Except Halt (Option DenyState)}
    (h : Performs operation v x t w) (hcounts : operation ≠ .resetStatistics) :
    w.statistics = v.statistics.bumpAll (operation.occurrences v t) := by
  cases operation with
  | enable | setPriority =>
    obtain ⟨-, -, rfl⟩ := h
    rfl
  | resetStatistics => exact absurd rfl hcounts
  | disable =>
    obtain ⟨y, disables, -⟩ := h
    cases disables with
    | releases releases | endless releases =>
      rw [releases.stance_eq]
      exact Stance.statistics_released v
  | request d =>
    obtain ⟨y, requests, -⟩ := h
    exact requests.statistics_eq
  | change d =>
    obtain ⟨y, changes, -⟩ := h
    cases changes with
    | passes | refuses => rfl
    | signals enabled holds signals =>
      rw [signals.stance_eq]
      rfl
  | release =>
    obtain ⟨y, releases, -⟩ := h
    rw [releases.stance_eq]
    exact Stance.statistics_released v
  | denyState =>
    obtain ⟨y, reads, -⟩ := h
    rcases reads with ⟨tx, z, rx, -⟩ | tx
    · rw [rx.quiet.2, tx.quiet.2]
      rfl
    · rw [tx.quiet.2]
      rfl

/-- A release is counted for the deny line that is monitored then. -/
theorem Performs.monitored_of_release {operation : Operation}
    {x : Except Halt (Option DenyState)} (h : Performs operation v x t w)
    (hmem : (d, .release) ∈ operation.occurrences v t) : w.monitored = d := by
  have given : (d, Occurrence.release) ∈
      (if v.enabled then [(v.monitored, Occurrence.release)] else []) →
      v.released.monitored = d := by
    intro hmem
    split at hmem
    · rw [Stance.released_monitored]
      simpa [eq_comm] using hmem
    · cases hmem
  cases operation with
  | request d' =>
    obtain ⟨y, requests, -⟩ := h
    have requested := requests.requested
    have hd : d = d' := by
      by_contra hother
      exact List.count_eq_zero.mp (requested.count_of_ne hother .release) hmem
    subst hd
    by_cases hlow : d = .rx ∧ v.flags.rx = false
    · rw [Operation.occurrences, if_pos hlow] at hmem
      simp at hmem
    · rw [Operation.occurrences, if_neg hlow] at hmem
      split at hmem
      · next henabled => exact (requests.concludes hlow henabled).1
      · cases hmem
  | release =>
    obtain ⟨y, releases, -⟩ := h
    rw [releases.stance_eq]
    exact given hmem
  | disable =>
    obtain ⟨y, disables, -⟩ := h
    cases disables with
    | releases releases | endless releases =>
      rw [releases.stance_eq]
      exact given hmem
  | enable | setPriority | change | denyState | resetStatistics => cases hmem

/-- An interrupt counts a withdrawal if it brings that news. -/
theorem Interrupts.statistics_eq {x : Except Halt (Option Event)} (h : Interrupts d v x t w) :
    w.statistics = v.statistics.bumpAll
      (if x = .ok (some .abort) then [(d, .abort)] else []) := by
  cases h with
  | aborts => rfl
  | passes | idles | unread => rfl

/-- An engine that is made ready counts a release. -/
theorem Prepares.statistics_eq (h : Prepares v (.ok ()) t w) :
    w.statistics = v.statistics.bump v.monitored .release ∧ w.monitored = v.monitored := by
  cases h with
  | readies valid tick releases =>
    rw [releases.stance_eq]
    exact ⟨rfl, rfl⟩

end Engine

end SharedRadio.Coexistence
