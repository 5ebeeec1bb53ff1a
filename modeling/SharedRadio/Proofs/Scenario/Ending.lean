import SharedRadio.Proofs.Arbiter.Itinerary
import SharedRadio.Proofs.Scenario.Performance

/-!
# Scenarios end

Sinks call the arbiter while they are notified, and what they call notifies sinks in turn, which may
register sinks that do the same. But all of this comes out of scripts, and a script is finite; so
every operation ends, whatever performance it is begun in. `Ends` says this together with how long
each part of it can take: how deep operations are nested, how many rounds a takeover has, and how
many protocols an operation comes by in the chain.

A takeover has one more round only if another protocol has become the owner since the last one was
told to make room. So the sink of that one has called something, and has used up a reply for it.
`Rounds` is the invariant: an operation has at most one round more than there were replies used up
while it was under way, and not even one more if it waits for a sink that is in the midst of a
reply.

It also follows that the number of transitions that `Scenario.play` allows for a step is never the
reason for what it reports (`play_eq`).
-/

namespace SharedRadio.Scenario

open Arbiter

/-! ## Replies and rounds -/

/-- The number of the replies that were used up while an operation waited for an owner to make room.
-/
def usedDuring (k : Nat) (used : List (List (Pending Nat))) : Nat :=
  used.countP fun waited => waited.any fun f => f.number = k && f.waiting.displaced?.isSome

theorem usedDuring_append (k : Nat) (used more : List (List (Pending Nat))) :
    usedDuring k (used ++ more) = usedDuring k used + usedDuring k more :=
  List.countP_append

/-- The operations that wait for a sink that has begun to take the steps of a reply. -/
def Stage.engaged (s : Stage) (r : Run Nat) : List (Pending Nat) :=
  match s.control with
  | .deliver _ _ => r.pending.tail
  | _ => r.pending

theorem Stage.engaged_of_deliver {s : Stage} {r : Run Nat} {n : Notification Nat}
    {w : Waiting Nat} (h : s.control = .deliver n w) : s.engaged r = r.pending.tail := by
  rw [engaged, h]

theorem Stage.engaged_of_waiting?_eq_none {s : Stage} {r : Run Nat}
    (h : s.control.waiting? = none) : s.engaged r = r.pending := by
  unfold engaged
  split
  · next hcontrol => rw [hcontrol] at h; cases h
  · rfl

/-- After a leg, those are the operations that wait beside the one of that leg. -/
theorem Stage.engaged_of_ofLeg {s : Stage} {r : Run Nat} {m : Moment Nat}
    {others : List (Pending Nat)} (h : s.control = .ofLeg m.leg) :
    s.engaged (r.after m others) = others := by
  unfold engaged Run.after
  rw [h, Control.ofLeg]
  cases m.leg.progress <;> rfl

/-- No operation has had too many rounds. -/
structure Rounds (s : Stage) (r : Run Nat) (used : List (List (Pending Nat))) : Prop where
  /-- It has one round, and one more for every reply that was used up. -/
  le : ∀ k, (evicted k r.past).length ≤ 1 + usedDuring k used
  /-- If it waits for a sink that has used up a reply since it was told to make room, it may have
  another one. -/
  spare : ∀ f ∈ s.engaged r, f.waiting.displaced?.isSome →
    (evicted f.number r.past).length ≤ usedDuring f.number used

namespace Rounds

variable {s s' : Stage} {r r' : Run Nat} {used : List (List (Pending Nat))} {m : Moment Nat}
  {others : List (Pending Nat)}

/-- Replies that are used up take no rounds away. -/
theorem append (hr : Rounds s r used) (more : List (List (Pending Nat))) :
    Rounds s r (used ++ more) := by
  refine ⟨fun k => ?_, fun f hf => ?_⟩ <;> rw [usedDuring_append]
  · have hle := hr.le k
    omega
  · exact fun hw => Nat.le_add_right_of_le (hr.spare f hf hw)

/-- A leg keeps the account, if its operation has a round to spare in case that it displaces
another owner. -/
theorem after (hr : Rounds s r used) (h : r.Reached) (next : r.Next m others)
    (hothers : others ⊆ s.engaged r) (hcontrol : s'.control = .ofLeg m.leg)
    (hspare : (∃ told q, m.cue.displaced? = some told ∧ r.arbiter.owner = some q ∧ told ≠ q) →
      (evicted m.number r.past).length ≤ usedDuring m.number used) :
    Rounds s' (r.after m others) used := by
  constructor
  case le =>
    intro k
    rw [Run.after, evicted_append, List.length_append]
    have hle := hr.le k
    rcases evicted_singleton k m with hnone | ⟨q, heq, rfl, ht⟩
    · rw [hnone]
      exact hle
    · rw [heq, List.length_singleton]
      rcases h.fresh_of_abort next ht with hnil | ⟨told, hcue, hne⟩
      · rw [hnil, List.length_nil]
        omega
      · have howner := ((h.sound.deed next).owner_of_abort ht).1
        have hspare := hspare ⟨told, q, hcue, howner, hne⟩
        omega
  case spare =>
    rw [Stage.engaged_of_ofLeg hcontrol]
    intro f hf
    have hother : evicted f.number [m] = [] := by
      simp [evicted, (h.numbered.lt_of_next next hf).ne']
    rw [Run.after, evicted_append, hother, List.append_nil]
    exact hr.spare f (hothers hf)

/-- A transition keeps the account. -/
theorem turn {uses : Bool} (hr : Rounds s r used) (h : r.Reached)
    (fresh : ∀ n w, s.control = .deliver n w → ¬ r.Supplanted w) (t : Turn s r s' r' uses) :
    Rounds s' r' (used ++ if uses then [r.pending] else []) := by
  cases t with
  | rests before after _ =>
    rw [if_neg Bool.false_ne_true, List.append_nil]
    refine ⟨hr.le, ?_⟩
    rw [Stage.engaged_of_waiting?_eq_none after, ← Stage.engaged_of_waiting?_eq_none before]
    exact hr.spare
  | replies before after _ =>
    -- The reply is used up for all operations that wait.
    refine ⟨(hr.append _).le, ?_⟩
    rw [Stage.engaged_of_waiting?_eq_none after]
    intro f hf hw
    have hused : usedDuring f.number [r.pending] = 1 := by
      simpa [usedDuring] using ⟨f, hf, rfl, Option.isSome_iff_ne_none.mp hw⟩
    rw [if_pos rfl, usedDuring_append, hused, Nat.add_comm]
    exact hr.le f.number
  | calls c before after _ =>
    refine (hr.append _).after h (.begins c) ?_ after ?_
    · rw [Stage.engaged_of_waiting?_eq_none before]
      exact List.Subset.refl _
    · rintro ⟨told, q, hcue, -⟩
      cases hcue
  | answers b waits before after _ | answersAtOnce b waits before after _ =>
    -- The notification has not been delivered before, so that nobody is displaced.
    rw [Run.step_answer waits]
    refine (hr.append _).after h (.resumes waits b) ?_ after ?_
    · rw [Stage.engaged_of_deliver before, waits]
      exact List.Subset.refl _
    · rintro ⟨told, q, hcue, hsupplanted⟩
      rw [Cue.displaced?_some] at hcue
      exact absurd ⟨told, q, hcue, hsupplanted⟩ (fresh _ _ before)
  | @closes f others b waits before after _ =>
    have hengaged : s.engaged r = f :: others :=
      (Stage.engaged_of_waiting?_eq_none before).trans waits
    rw [Run.step_answer waits]
    refine (hr.append _).after h (.resumes waits b) ?_ after ?_
    · rw [hengaged]
      exact List.subset_cons_self _ _
    · rintro ⟨told, q, hcue, -⟩
      rw [Cue.displaced?_some] at hcue
      exact (hr.append _).spare f (by simp [hengaged]) (by rw [hcue]; rfl)

end Rounds

namespace Performance

variable {preemption : Bool} {t : Performance}

/-- When a step is begun, no operation waits. -/
theorem rounds_begin {w : World} {step : Step} {r : Run Nat} {used : List (List (Pending Nat))}
    (hpending : r.pending = [])
    (hle : ∀ k, (evicted k r.past).length ≤ 1 + usedDuring k used) :
    Rounds (begin w step r used).stage r used := by
  refine ⟨hle, fun f hf => ?_⟩
  rw [Stage.engaged_of_waiting?_eq_none rfl, hpending] at hf
  cases hf

theorem Reached.rounds (h : Reached preemption t) : Rounds t.stage t.run t.used := by
  induction h with
  | start step => exact rounds_begin rfl fun k => by simp [Run.start]
  | @advance t h ih =>
    cases hend : t.stage.result? with
    | some result => rwa [advance_eq_self hend]
    | none =>
      have turn := (Stage.goes_advance h.sound.shows hend).turn
      exact ih.turn h.sound.reached (fun _ _ => h.sound.fresh) turn
  | next h ended step ih => exact rounds_begin (h.sound.shows.of_result? ended) ih.le

/-! ## The end -/

/-- What has taken place remains. -/
theorem past_prefix_after (t : Performance) (n : Nat) : t.run.past <+: (t.after n).run.past := by
  induction n with
  | zero => exact List.prefix_rfl
  | succ n ih =>
    rw [after_succ']
    refine ih.trans ?_
    unfold advance
    cases (t.after n).stage.move? with
    | none => exact List.prefix_rfl
    | some move => exact Run.past_prefix_step _ move

/-- The machine finds the result at which a performance ends. -/
theorem run_eq_of_result? {n limit : Nat} (hn : n ≤ limit) {result : Result}
    (hend : (t.after n).stage.result? = some result) :
    t.stage.run limit = some (result, (t.after n).stage.world) := by
  induction limit generalizing t n with
  | zero =>
    obtain rfl : n = 0 := Nat.le_zero.mp hn
    rw [Stage.run, show t.stage.result? = some result from hend]
    rfl
  | succ limit ih =>
    rw [Stage.run]
    cases hnow : t.stage.result? with
    | some now =>
      have hstay : t.after n = t := Function.iterate_fixed (advance_eq_self hnow) n
      rw [hstay] at hend ⊢
      rw [Option.some.inj (hnow.symm.trans hend)]
    | none =>
      cases n with
      | zero => cases hnow.symm.trans hend
      | succ n => exact ih (t := t.advance) (Nat.le_of_succ_le_succ hn) hend

/-- A step that is begun when no operation waits comes to its result, and takes it from the weights
of the step and of the sinks. -/
theorem exists_run_perform {w : World} {r : Run Nat} (h : r.Reached)
    (harbiter : w.station.arbiter = r.arbiter) (hpending : r.pending = []) (step : Step) :
    ∃ result after, (∀ n, w.weight + step.weight ≤ n →
        (Stage.mk w (.perform step) []).run n = some (result, after)) ∧
      after.weight ≤ w.weight + step.weight ∧
      ∃ r' : Run Nat, r'.Reached ∧ after.station.arbiter = r'.arbiter ∧ r'.pending = [] := by
  have sound := sound_begin h harbiter hpending step []
  have hweight : (begin w step r []).weight = w.weight + step.weight := by
    simp [weight, begin, Stage.burden, Control.weight, Run.effort, hpending]
  obtain ⟨n, result, hle, hend⟩ := sound.exists_result
  have hafter := sound.after n
  generalize ht : (begin w step r []).after n = t at *
  refine ⟨result, t.stage.world, fun limit hlimit => ?_, ?_, t.run, hafter.reached,
    hafter.shows.arbiter, hafter.shows.of_result? hend⟩
  · rw [← ht] at hend ⊢
    exact run_eq_of_result? (by omega) hend
  · have hburden : t.stage.world.weight ≤ t.weight := by
      unfold weight Stage.burden
      omega
    omega

/-- How long a performance goes on. -/
structure Ends (t : Performance) : Prop where
  /-- The run is that of its arbiter and of the operations that wait. -/
  shows : t.stage.Shows t.run
  /-- The notification that it delivers is the one that the run has just sent. -/
  sent : ∀ n w, t.stage.control = .deliver n w →
    ∃ m, t.run.past.getLast? = some m ∧ m.leg.progress = .notifies n w
  /-- It comes to a result, in no more transitions than its weight. Then every operation is over
  that has begun before or meanwhile. -/
  settles : ∃ n ≤ t.weight, ∃ result,
    t.stage.run n = some (result, (t.after n).stage.world) ∧
      t.run.past <+: (t.after n).run.past ∧ ∀ m ∈ (t.after n).run.past,
        ∃ m' ∈ (t.after n).run.past, m'.number = m.number ∧
          ∃ result, m'.leg.progress = .finished result
  /-- Operations are never nested any deeper than its weight. -/
  nested : ∀ n, (t.after n).run.pending.length ≤ t.weight
  /-- An operation has told at most one more owner to make room than there were replies used up
  while it waited for that. -/
  rounds : ∀ k, (evicted k t.run.past).length ≤ 1 + usedDuring k t.used
  /-- An operation comes by no protocol twice, and so by no more than there are. -/
  visits : ∀ k, (visited k t.run.past).Sublist t.run.arbiter.registry.chain ∧
    (visited k t.run.past).length ≤ Protocol.count
  /-- It is not for a limit on its steps that a walk comes by no more of them. -/
  walks : ∀ m ∈ t.run.past, ∀ start, m.start? = some start → ∀ n, Protocol.count ≤ n →
    m.before.registry.walk n start = m.before.registry.chainFrom start
  /-- Nor is it for a limit on the steps of the search that a newcomer gets its place. -/
  places : ∀ v n, Protocol.count ≤ n →
    t.run.arbiter.registry.place v n none t.run.arbiter.registry.head =
      t.run.arbiter.registry.place v Protocol.count none t.run.arbiter.registry.head

/-- **Every operation ends**, from wherever it is, and whatever the sinks do about it: what they do
comes out of scripts that are finite. -/
theorem ends_of_reached (h : Reached preemption t) : Ends t := by
  have sound := h.sound
  constructor
  case shows => exact sound.shows
  case sent => exact sound.sent
  case settles =>
    obtain ⟨n, result, hle, hend⟩ := sound.exists_result
    refine ⟨n, by omega, result, run_eq_of_result? le_rfl hend, past_prefix_after t n, ?_⟩
    intro m hm
    have hafter := sound.after n
    refine (hafter.reached.pending_or_finished hm).resolve_left ?_
    rw [hafter.shows.of_result? hend]
    rintro ⟨f, hf, -⟩
    cases hf
  case nested =>
    intro n
    have hle := sound.weight_after_le n
    have hpending := (t.after n).run.length_pending_le
    unfold weight at hle ⊢
    omega
  case rounds => exact h.rounds.le
  case visits =>
    exact fun k => ⟨sound.reached.visited_sublist k, sound.reached.length_visited_le k⟩
  case walks => exact fun m hm start hstart n hn => sound.reached.walk_eq hm hstart hn
  case places => exact fun v n hn => sound.reached.place_eq v hn

/-- A sink that gives the transceiver up when it is told to make room, but lets another protocol
have it. -/
def evasive : Script Step where
  tag := "evasive"
  answer _ := .success
  replies := [⟨.abort, [.arbiter (.release .ant), .arbiter (.acquire .genFsk false)], .asLastStep⟩]

/-- A sink that does nothing. -/
def passive : Script Step where
  tag := "passive"
  answer _ := .success
  replies := []

/-- An owner is displaced whose sink lets another protocol have the transceiver. -/
def evasion : Step :=
  .repeated 1 [.register .arbitration .ant 3 evasive, .register .arbitration .genFsk 2 passive,
    .register .arbitration .ble 1 passive, .arbiter (.acquire .ant false),
    .arbiter (.acquire .ble false)]

/-- One reply is used up, and there are two rounds. -/
theorem ends_of_reached_evasion : ∃ t, Reached true t ∧ Ends t ∧
    evicted 8 t.run.past = [.ant, .genFsk] ∧ usedDuring 8 t.used = 1 := by
  have h := (@Reached.start true evasion).after 24
  exact ⟨_, h, ends_of_reached h, by decide +kernel, by decide +kernel⟩

end Performance

/-! ## Scenarios as a whole -/

/-- Steps that are allowed enough transitions are reported as if there were no limit. -/
theorem reportAll_eq_of_le {logging : Bool} {w : World} {r : Run Nat} (h : r.Reached)
    (harbiter : w.station.arbiter = r.arbiter) (hpending : r.pending = []) {steps : List Step}
    {n limit : Nat} (hn : w.weight + totalWeight steps ≤ n) (hlimit : n ≤ limit) :
    reportAll logging limit w steps = reportAll logging n w steps := by
  induction steps generalizing w r with
  | nil => rfl
  | cons step rest ih =>
    obtain ⟨result, after, hrun, hweight, r', h', harbiter', hpending'⟩ :=
      Performance.exists_run_perform h harbiter hpending step
    rw [totalWeight] at hn
    rw [reportAll, reportAll, hrun limit (by omega), hrun n (by omega)]
    refine congrArg (List.cons _) (ih h' harbiter' hpending' ?_)
    change after.weight + totalWeight rest ≤ n
    omega

/-- **Nothing in a scenario is endless.** A step may be allowed any number of transitions that is no
less than the weight of the scenario, and the same is reported. -/
theorem play_eq (s : Scenario) {limit : Nat} (hlimit : totalWeight s.steps ≤ limit) :
    reportAll s.logging limit { station := { arbiter := .idle s.preemption } } s.steps = s.play :=
  reportAll_eq_of_le (.start s.preemption) rfl rfl (by simp [World.weight]) hlimit

end SharedRadio.Scenario
