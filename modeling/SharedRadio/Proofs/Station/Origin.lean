import SharedRadio.Proofs.Station.Interruption

/-!
# Where a notification comes from

Whoever is notified at a station is notified by an operation of its arbiter. That operation was
asked for at a moment of the station, either by a call or by an interrupt, and `exists_origin` finds
this moment. If nothing was under way at some time, then it lies after that time for all that is
told later.
-/

namespace SharedRadio

namespace Arbiter

variable {σ : Type}

/-- What an operation may tell a coexistence sink: that it has been registered, or the event that is
broadcast. -/
def Call.Informs (c : Call σ) (n : Notification σ) : Prop :=
  c = .broadcast n.event ∨
    n.event = .init ∧ ∃ priority, c = .register .coexistence n.protocol priority n.sink

/-- An operation tells a coexistence sink nothing else. -/
theorem Deed.informs {a : Arbiter σ} {c : Call σ} {k : Cue σ} {l : Leg σ} (h : Deed a c k l)
    {n : Notification σ} {w : Waiting σ} (hl : l.progress = .notifies n w)
    (hslot : n.slot = .coexistence) : c.Informs n := by
  cases h with
  | enrols =>
    cases hl
    obtain rfl := hslot
    exact .inr ⟨rfl, _, rfl⟩
  | announces => cases hl; exact .inl rfl
  | seizes | warns | aborts | yields | offers | asks => cases hl; cases hslot
  | _ => cases hl

namespace Run

variable {r : Run σ} {k : Nat} {c : Call σ}

/-- What has begun after a move has begun before it, or the move has called it. -/
theorem begun_step {move : Move σ} (h : Begun (r.step move).past k c) :
    Begun r.past k c ∨ k = r.past.length ∧ move = .call c := by
  obtain ⟨a, ha⟩ := h
  cases move with
  | call c' =>
    rcases getElem?_append_singleton ha with hold | ⟨rfl, hlast⟩
    · exact .inl ⟨a, hold⟩
    · exact .inr ⟨rfl, congrArg Move.call (congrArg Moment.call hlast).symm⟩
  | answer b =>
    cases waits : r.pending with
    | nil =>
      rw [step, waits] at ha
      exact .inl ⟨a, ha⟩
    | cons f others =>
      rw [step, waits] at ha
      rcases getElem?_append_singleton ha with hold | ⟨-, hlast⟩
      · exact .inl ⟨a, hold⟩
      · cases congrArg Moment.cue hlast

/-- Nothing that began before a time at which nothing waits goes on after it. -/
theorem Reached.length_le_number (h : r.Reached) {r' : Run σ} (h' : r'.Reached)
    (hquiet : r'.pending = []) {newer : List (Moment σ)} (hpast : r.past = r'.past ++ newer)
    {m : Moment σ} (hm : m ∈ newer) : r'.past.length ≤ m.number := by
  by_contra hlt
  rw [Nat.not_le] at hlt
  -- The operation of the moment began at the place that is its number.
  obtain ⟨a, ha⟩ := h.numbered.moment m (by simp [hpast, hm])
  rw [hpast, List.getElem?_append_left hlt] at ha
  rcases h'.pending_or_finished (List.mem_of_getElem? ha) with
    ⟨f, hf, -⟩ | ⟨last, hlast, hsame, result, hl⟩
  · rw [hquiet] at hf
    cases hf
  · obtain ⟨front, back, hsplit⟩ := List.append_of_mem hlast
    rw [hsplit, List.append_assoc, List.cons_append] at hpast
    exact h.number_ne_after hpast hl m (by simp [hm]) hsame.symm

end Run

end Arbiter

namespace Station

variable {σ κ : Type} [Clock κ] {preemption : Bool}

/-- A moment after an older history belongs to the operation of the arbiter that was asked for at a
moment after an even older one. -/
structure StemsFrom (preemption : Bool) (older₀ : List (Moment σ κ)) (m₀ : Moment σ κ)
    (c : Arbiter.Call σ) (older : List (Moment σ κ)) (m : Moment σ κ) : Prop where
  asks : m₀.move? = some (.call c)
  belongs : Belongs preemption older m (arbitration preemption older₀).past.length

omit [Clock κ] in
/-- What has begun at the arbiter after one more moment has begun before it, or was asked for then.
-/
theorem begun_arbitration_append {past : List (Moment σ κ)} {m : Moment σ κ} {k : Nat}
    {c : Arbiter.Call σ}
    (h : Arbiter.Run.Begun (arbitration preemption (past ++ [m])).past k c) :
    Arbiter.Run.Begun (arbitration preemption past).past k c ∨
      k = (arbitration preemption past).past.length ∧ m.move? = some (.call c) := by
  rw [arbitration_append_singleton] at h
  cases hmove : m.move? with
  | none =>
    rw [hmove] at h
    exact .inl h
  | some move =>
    rw [hmove] at h
    refine (Arbiter.Run.begun_step h).imp_right fun ⟨hk, hcall⟩ => ⟨hk, ?_⟩
    rw [hcall]

omit [Clock κ] in
/-- An operation of the arbiter that has begun was asked for at a moment of the station. -/
theorem exists_of_begun {past : List (Moment σ κ)} {k : Nat} {c : Arbiter.Call σ}
    (h : Arbiter.Run.Begun (arbitration preemption past).past k c) :
    ∃ older m newer, past = older ++ m :: newer ∧
      (arbitration preemption older).past.length = k ∧ m.move? = some (.call c) := by
  induction past using List.reverseRecOn with
  | nil =>
    obtain ⟨a, ha⟩ := h
    cases ha
  | append_singleton past m ih =>
    rcases begun_arbitration_append h with hold | ⟨rfl, hcall⟩
    · obtain ⟨older, m₀, newer, rfl, hk, hasks⟩ := ih hold
      exact ⟨older, m₀, newer ++ [m], by simp, hk, hasks⟩
    · exact ⟨past, m, [], rfl, rfl, hcall⟩

namespace Run

/-- A moment at which somebody is notified concerns the arbiter. -/
theorem Next.exists_move {r : Run σ κ} {m : Moment σ κ} {others : List (Arbiter.Waiting σ)}
    (next : r.Next m others) {n : Arbiter.Notification σ} {w : Arbiter.Waiting σ}
    (hl : m.reaction.progress = .notifies n w) : ∃ move, m.move? = some move := by
  cases next with
  | begins c =>
    refine Option.ne_none_iff_exists'.mp fun hnone => ?_
    obtain ⟨-, outcome, hover⟩ := call_of_arbiterCall?_eq_none (Option.map_eq_none_iff.mp hnone)
    cases hover.symm.trans hl
  | resumes waits b => exact ⟨_, rfl⟩

/-- Whoever is told something is told it by an operation that was asked for at some moment. -/
theorem Next.exists_origin {moves : List (Move σ κ)} {m : Moment σ κ}
    {others : List (Arbiter.Waiting σ)} (next : (play preemption moves).Next m others)
    {n : Arbiter.Notification σ} {w : Arbiter.Waiting σ}
    (hl : m.reaction.progress = .notifies n w) :
    ∃ older₀ m₀ newer₀ c, (play preemption moves).past ++ [m] = older₀ ++ m₀ :: newer₀ ∧
      StemsFrom preemption older₀ m₀ c (play preemption moves).past m ∧
      (n.slot = .coexistence → c.Informs n) := by
  obtain ⟨move, hmove⟩ := next.exists_move hl
  obtain ⟨μ, others', nextμ, hstep, -, s, t, hreaction⟩ :=
    (accords_play preemption moves).exists_part next hmove
  have h : (arbitration preemption (play preemption moves).past).Reached :=
    Arbiter.Run.reached_play _ _
  have htold : μ.leg.progress = .notifies n w := by
    rw [hreaction, progress_ofLeg] at hl
    cases hμ : μ.leg.progress with
    | finished result => rw [hμ] at hl; cases hl
    | notifies n' w' => rw [hμ] at hl; cases hl; rfl
  have hinforms := (h.sound.deed nextμ).informs htold
  have hbelongs : Belongs preemption (play preemption moves).past m μ.number := by
    refine ⟨μ, ?_, rfl⟩
    rw [Moment.part?, hmove, Option.bind_some, hstep, Arbiter.Run.after, List.getLast?_concat]
  have hbegun : Arbiter.Run.Begun
      (arbitration preemption ((play preemption moves).past ++ [m])).past μ.number μ.call := by
    rw [arbitration_append_singleton, hmove, Option.elim_some, hstep]
    exact h.numbered.begun_of_next nextμ
  obtain ⟨older₀, m₀, newer₀, hsplit, hnumber, hasks⟩ := exists_of_begun hbegun
  exact ⟨older₀, m₀, newer₀, μ.call, hsplit, ⟨hasks, hnumber ▸ hbelongs⟩, hinforms⟩

section

variable {moves moves' : List (Move σ κ)} {older newer : List (Moment σ κ)} {m : Moment σ κ}

/-- An operation that goes on after nothing was under way began after that. -/
theorem length_le_of_belongs (hquiet : (play preemption moves).pending = [])
    (hpast : (play preemption moves').past = ((play preemption moves).past ++ older) ++ m :: newer)
    {k : Nat} (hbelongs : Belongs preemption ((play preemption moves).past ++ older) m k) :
    (arbitration preemption (play preemption moves).past).past.length ≤ k := by
  obtain ⟨μ, hμ, rfl⟩ := hbelongs
  obtain ⟨hpart, -⟩ := part_of_past hpast hμ
  have hpending : (arbitration preemption (play preemption moves).past).pending = [] :=
    List.map_eq_nil_iff.mp ((accords_play preemption moves).pending.trans hquiet)
  obtain ⟨between, hbetween⟩ :=
    past_arbitration_prefix preemption (play preemption moves).past older
  have hnewer : (arbitration preemption (((play preemption moves).past ++ older) ++ [m])).past =
      (arbitration preemption (play preemption moves).past).past ++ (between ++ [μ]) := by
    rw [hpart, ← hbetween, List.append_assoc]
  have h : (arbitration preemption (((play preemption moves).past ++ older) ++ [m])).Reached :=
    Arbiter.Run.reached_play _ _
  have h' : (arbitration preemption (play preemption moves).past).Reached :=
    Arbiter.Run.reached_play _ _
  exact h.length_le_number h' hpending hnewer (by simp)

/-- **Whoever is told something is told it by an operation that somebody has asked for**, and that
was since nothing was under way. -/
theorem exists_origin (hquiet : (play preemption moves).pending = [])
    (hpast : (play preemption moves').past = ((play preemption moves).past ++ older) ++ m :: newer)
    {n : Arbiter.Notification σ} {w : Arbiter.Waiting σ}
    (hl : m.reaction.progress = .notifies n w) :
    ∃ older₀ m₀ newer₀ c, older ++ [m] = older₀ ++ m₀ :: newer₀ ∧
      StemsFrom preemption ((play preemption moves).past ++ older₀) m₀ c
        ((play preemption moves).past ++ older) m ∧
      (n.slot = .coexistence → c.Informs n) := by
  obtain ⟨moves'', others, hpast'', next⟩ := exists_play_of_past hpast
  obtain ⟨older₀, m₀, newer₀, c, hsplit, hstems, hinforms⟩ := next.exists_origin hl
  rw [hpast''] at hsplit hstems
  have hle := length_le_of_belongs hquiet hpast hstems.belongs
  rw [List.append_assoc] at hsplit
  rcases List.append_eq_append_iff.mp hsplit with
    ⟨within, rfl, hwithin⟩ | ⟨between, hbefore, hrest⟩
  · exact ⟨within, m₀, newer₀, c, hwithin, hstems, hinforms⟩
  · cases between with
    | nil =>
      rw [List.append_nil] at hbefore
      obtain rfl := hbefore
      exact ⟨[], m₀, newer₀, c, hrest.symm, by rwa [List.append_nil], hinforms⟩
    | cons m₁ between =>
      -- The operation would have begun before nothing was under way.
      obtain ⟨rfl, -⟩ := List.cons.inj hrest
      have hthere := getElem?_arbitration hbefore hstems.asks
      rw [← hbefore] at hthere
      exact absurd (List.getElem?_eq_some_iff.mp hthere).1 (Nat.not_lt.mpr hle)

end

end Run

end Station

end SharedRadio
