import Mathlib.Data.List.Induction
import SharedRadio.Proofs.Arbiter.Deed

/-!
# Runs of the arbiter

A sink that is notified may call the arbiter any number of times before it answers, and what it
calls may notify sinks in turn. So at every moment there is a stack of operations that wait for an
answer, and only two things can happen next: somebody calls, or the sink that was notified last
answers. A `Run` is played by such moves. Nothing is assumed of the sinks: every way of calling and
answering, nested to any depth, is a list of moves, and every list of moves can be played.

A run keeps its history, one `Moment` for every leg. An operation is known by its number, which is
the position of its first leg in the history; the moments of one operation are told apart from those
of the operations nested in it by their numbers.

An invariant of runs is proved along `Reached`, which has one case for all moves. `Reached.moment`
carries it over to every moment of the past: what preceded a moment was itself a run.
`Reached.exists_change` finds the moment at which something came about that was not so before.
-/

namespace SharedRadio.Arbiter

variable {σ : Type}

/-! ## Moments, runs and moves -/

/-- An operation that waits for the answer to its notification. -/
structure Pending (σ : Type) where
  /-- The number of the operation. -/
  number : Nat
  /-- The operation. -/
  call : Call σ
  /-- What it remembers while it waits. -/
  waiting : Waiting σ

/-- One leg, as it took place in a run. -/
structure Moment (σ : Type) where
  /-- The number of the operation that the leg belongs to. -/
  number : Nat
  /-- That operation. -/
  call : Call σ
  /-- What the leg answers for, if it does not begin the operation. -/
  cue : Cue σ
  /-- The arbiter before the leg. -/
  before : Arbiter σ

namespace Moment

/-- The leg that took place. -/
def leg (m : Moment σ) : Leg σ :=
  match m.cue with
  | none => m.before.call m.call
  | some (w, b) => m.before.resume w b

/-- The arbiter after the leg. -/
def after (m : Moment σ) : Arbiter σ := m.leg.arbiter

/-- A moment at which a protocol's slot is notified of an event. -/
def Tells (m : Moment σ) (p : Protocol) (slot : Slot) (event : Event) : Prop :=
  m.leg.Tells p slot event

instance (m : Moment σ) (p : Protocol) (slot : Slot) (event : Event) :
    Decidable (m.Tells p slot event) :=
  inferInstanceAs (Decidable (m.leg.Tells p slot event))

end Moment

/-- What goes on at the arbiter, and what has gone on. -/
structure Run (σ : Type) where
  /-- The arbiter. -/
  arbiter : Arbiter σ
  /-- The operations that wait for an answer, innermost first. -/
  pending : List (Pending σ) := []
  /-- The legs that have taken place, in order. -/
  past : List (Moment σ) := []

/-- A move in a run. -/
inductive Move (σ : Type) where
  /-- Somebody calls an operation; if a sink has been notified, then from inside it. -/
  | call (c : Call σ)
  /-- The sink that was notified last answers. -/
  | answer (b : Answer)

namespace Run

/-- The run in which nothing has happened yet. -/
def start (preemption : Bool) : Run σ := { arbiter := .idle preemption }

/-- The run after one more moment, which leaves some operations waiting that it does not belong to.
-/
def after (r : Run σ) (m : Moment σ) (others : List (Pending σ)) : Run σ where
  arbiter := m.after
  pending :=
    match m.leg.progress with
    | .finished _ => others
    | .notifies _ w => ⟨m.number, m.call, w⟩ :: others
  past := r.past ++ [m]

/-- Make a move. An answer counts only if somebody was asked. -/
def step (r : Run σ) : Move σ → Run σ
  | .call c => r.after ⟨r.past.length, c, none, r.arbiter⟩ r.pending
  | .answer b =>
    match r.pending with
    | [] => r
    | f :: others => r.after ⟨f.number, f.call, some (f.waiting, b), r.arbiter⟩ others

/-- The run that some moves lead to, from an arbiter that was just made. -/
def play (preemption : Bool) (moves : List (Move σ)) : Run σ := moves.foldl step (start preemption)

/-- What waits after a moment has been waiting before, or is the operation of that moment. -/
theorem mem_pending_after {r : Run σ} {m : Moment σ} {others : List (Pending σ)} {f : Pending σ}
    (hf : f ∈ (r.after m others).pending) :
    f ∈ others ∨ ∃ n w, m.leg.progress = .notifies n w ∧ f = ⟨m.number, m.call, w⟩ := by
  unfold after at hf
  split at hf
  · exact .inl hf
  · next n w hl =>
    rcases List.mem_cons.mp hf with rfl | hf
    · exact .inr ⟨n, w, hl, rfl⟩
    · exact .inl hf

/-! ## Reaching a run -/

/-- A moment that can come next, and the operations that wait beside its own. -/
inductive Next (r : Run σ) : Moment σ → List (Pending σ) → Prop where
  /-- An operation begins. -/
  | begins (c : Call σ) : Next r ⟨r.past.length, c, none, r.arbiter⟩ r.pending
  /-- The innermost operation goes on. -/
  | resumes {f : Pending σ} {others : List (Pending σ)} (waits : r.pending = f :: others)
      (b : Answer) : Next r ⟨f.number, f.call, some (f.waiting, b), r.arbiter⟩ others

theorem Next.before_eq {r : Run σ} {m : Moment σ} {others : List (Pending σ)}
    (h : r.Next m others) : m.before = r.arbiter := by
  cases h <;> rfl

theorem Next.others_subset {r : Run σ} {m : Moment σ} {others : List (Pending σ)}
    (h : r.Next m others) : others ⊆ r.pending := by
  cases h with
  | begins => exact List.Subset.refl _
  | resumes waits => rw [waits]; exact List.subset_cons_self _ _

/-- A run that moves can lead to. -/
inductive Reached : Run σ → Prop where
  | start (preemption : Bool) : Reached (start preemption)
  | after {r : Run σ} {m : Moment σ} {others : List (Pending σ)} (h : Reached r)
      (next : r.Next m others) : Reached (r.after m others)

theorem Reached.step {r : Run σ} (h : r.Reached) (move : Move σ) : (r.step move).Reached := by
  cases move with
  | call c => exact h.after (.begins c)
  | answer b =>
    cases waits : r.pending with
    | nil => simpa only [Run.step, waits] using h
    | cons f others =>
      simp only [Run.step, waits]
      exact h.after (.resumes waits b)

theorem reached_play (preemption : Bool) (moves : List (Move σ)) :
    (play preemption moves).Reached := by
  unfold play
  induction moves using List.reverseRecOn with
  | nil => exact .start preemption
  | append_singleton moves move ih =>
    rw [List.foldl_append]
    exact ih.step move

/-- **The past of a run consists of runs.** What preceded a moment was a run, in which that moment
came next. -/
theorem Reached.moment {r : Run σ} (h : r.Reached) {older newer : List (Moment σ)} {m : Moment σ}
    (hpast : r.past = older ++ m :: newer) :
    ∃ r' others, Reached r' ∧ r'.past = older ∧ r'.Next m others := by
  induction h generalizing newer with
  | start => simp [Run.start] at hpast
  | @after r m' others h next ih =>
    rcases List.eq_nil_or_concat newer with rfl | ⟨newer', last, rfl⟩
    · obtain ⟨rfl, hlast⟩ := List.append_inj' hpast rfl
      obtain rfl : m' = m := by simpa using hlast
      exact ⟨r, others, h, rfl, next⟩
    · have hsplit : r.past ++ [m'] = (older ++ m :: newer') ++ [last] := by
        simpa [Run.after] using hpast
      exact ih (List.append_inj' hsplit rfl).1

theorem Reached.exists_run {r : Run σ} (h : r.Reached) {m : Moment σ} (hm : m ∈ r.past) :
    ∃ r' others, Reached r' ∧ r'.Next m others := by
  obtain ⟨older, newer, hpast⟩ := List.append_of_mem hm
  obtain ⟨r', others, h', -, next⟩ := h.moment hpast
  exact ⟨r', others, h', next⟩

/-! ## What holds in every run -/

/-- The operations under way fit their calls, and whoever owns or wants the transceiver has a sink.
-/
structure Sound (r : Run σ) : Prop where
  /-- The registry is in order. -/
  registry : r.arbiter.registry.Sound
  /-- The owner can be told. -/
  owner : ∀ p, r.arbiter.owner = some p → (r.arbiter.sink? p).isSome
  /-- An operation waits in a way that is its own. -/
  awaits : ∀ f ∈ r.pending, f.call.Awaits f.waiting
  /-- A protocol for which the transceiver is wanted can be told. -/
  bidder : ∀ f ∈ r.pending, ∀ p force, f.call = .acquire p force → (r.arbiter.sink? p).isSome

theorem Sound.deed {r : Run σ} (h : r.Sound) {m : Moment σ} {others : List (Pending σ)}
    (next : r.Next m others) : Deed r.arbiter m.call m.cue m.leg := by
  cases next with
  | begins c => exact deed_call _ c
  | resumes waits b => exact deed_resume _ (h.awaits _ (by simp [waits])) b

theorem Sound.bidder_of_next {r : Run σ} (h : r.Sound) {m : Moment σ} {others : List (Pending σ)}
    (next : r.Next m others) {p : Protocol} {force : Bool} (hc : m.call = .acquire p force)
    (hk : m.cue ≠ none) : (r.arbiter.sink? p).isSome := by
  cases next with
  | begins c => exact absurd rfl hk
  | resumes waits b => exact h.bidder _ (by simp [waits]) p force hc

/-- A leg that comes next keeps what holds in every run. -/
theorem Sound.after {r : Run σ} (h : r.Sound) {m : Moment σ} {others : List (Pending σ)}
    (next : r.Next m others) : (r.after m others).Sound := by
  have deed := h.deed next
  have hbids : ∀ p force sink, m.call = .acquire p force → Bids r.arbiter p sink m.cue →
      (m.after.sink? p).isSome := fun p force sink hc hb =>
    deed.sink?_isSome (hb.isSome (h.bidder_of_next next hc))
  refine ⟨deed.sound h.registry, ?owner, ?awaits, ?bidder⟩
  case owner =>
    intro p hp
    rcases deed.owner_eq with hsame | hnone | ⟨q, force, sink, hc, hb, hq⟩
    · exact deed.sink?_isSome (h.owner p (hsame ▸ hp))
    · cases hnone.symm.trans hp
    · obtain rfl : q = p := Option.some.inj (hq.symm.trans hp)
      exact hbids q force sink hc hb
  case awaits =>
    intro f hf
    rcases mem_pending_after hf with hf | ⟨n, w, hl, rfl⟩
    · exact h.awaits f (next.others_subset hf)
    · exact deed.awaits hl
  case bidder =>
    intro f hf p force hc
    rcases mem_pending_after hf with hf | ⟨n, w, hl, rfl⟩
    · exact deed.sink?_isSome (h.bidder f (next.others_subset hf) p force hc)
    · obtain ⟨sink, hb⟩ := deed.bids hc hl
      exact hbids p force sink hc hb

theorem Reached.sound {r : Run σ} (h : r.Reached) : r.Sound := by
  induction h with
  | start preemption => exact ⟨Registry.sound_empty, by simp [Run.start, idle], by simp [Run.start],
      by simp [Run.start]⟩
  | after h next ih => exact ih.after next

/-- Every moment of the past did what one of the cases says. -/
theorem Reached.deed {r : Run σ} (h : r.Reached) {m : Moment σ} (hm : m ∈ r.past) :
    Deed m.before m.call m.cue m.leg := by
  obtain ⟨r', others, h', next⟩ := h.exists_run hm
  rw [next.before_eq]
  exact h'.sound.deed next

/-! ## From one moment to a later one -/

theorem past_prefix_step (r : Run σ) (move : Move σ) : r.past <+: (r.step move).past := by
  cases move with
  | call c => exact List.prefix_append _ _
  | answer b =>
    cases waits : r.pending with
    | nil => simp [step, waits]
    | cons f others => simp [step, waits, after]

/-- The history only grows. -/
theorem past_prefix_foldl (r : Run σ) (moves : List (Move σ)) :
    r.past <+: (moves.foldl step r).past := by
  induction moves generalizing r with
  | nil => exact List.prefix_rfl
  | cons move moves ih => exact (r.past_prefix_step move).trans (ih _)

theorem getElem?_append_of_eq_some {past : List (Moment σ)} {i : Nat} {m₀ : Moment σ}
    (h : past[i]? = some m₀) (newer : List (Moment σ)) : (past ++ newer)[i]? = some m₀ := by
  rw [List.getElem?_append_left (List.getElem?_eq_some_iff.mp h).1, h]

/-- A position of a history is one before the last moment, or that of the last moment. -/
theorem getElem?_append_singleton {past : List (Moment σ)} {i : Nat} {m m₀ : Moment σ}
    (h : (past ++ [m])[i]? = some m₀) : past[i]? = some m₀ ∨ i = past.length ∧ m₀ = m := by
  rcases lt_or_ge i past.length with hlt | hge
  · exact .inl (by rwa [List.getElem?_append_left hlt] at h)
  · rw [List.getElem?_append_right hge] at h
    obtain ⟨hi, hm⟩ := List.getElem?_eq_some_iff.mp h
    rw [List.length_singleton] at hi
    exact .inr ⟨by omega, by simpa using hm.symm⟩

/-- What has come about since a moment has come about at some moment. -/
theorem Reached.exists_change {r : Run σ} (h : r.Reached) {P : Arbiter σ → Prop} {i : Nat}
    {m₀ : Moment σ} (hi : r.past[i]? = some m₀) (hbefore : ¬ P m₀.before) (hafter : P r.arbiter) :
    ∃ m ∈ r.past.drop i, ¬ P m.before ∧ P m.after := by
  induction h with
  | start => simp [Run.start] at hi
  | @after r m others h next ih =>
    change ∃ m' ∈ (r.past ++ [m]).drop i, ¬ P m'.before ∧ P m'.after
    have hle : i ≤ r.past.length := by
      have hlt := (List.getElem?_eq_some_iff.mp hi).1
      simp only [Run.after, List.length_append, List.length_singleton] at hlt
      omega
    rw [List.drop_append_of_le_length hle]
    by_cases hm : P m.before
    · -- The change is older than the last moment, which therefore is not where it starts from.
      rcases getElem?_append_singleton hi with hold | ⟨-, rfl⟩
      · obtain ⟨m', hm', hchange⟩ := ih hold (next.before_eq ▸ hm)
        exact ⟨m', List.mem_append_left _ hm', hchange⟩
      · exact absurd hm hbefore
    · exact ⟨m, by simp, hm, hafter⟩

/-- What every leg keeps lasts. -/
theorem Reached.persists {r : Run σ} (h : r.Reached) {P : Arbiter σ → Prop} {i : Nat}
    {m₀ : Moment σ} (hi : r.past[i]? = some m₀)
    (keeps : ∀ {a c k l}, Deed a c k l → P a → P l.arbiter) (hbefore : P m₀.before) :
    P r.arbiter := by
  by_contra hlost
  obtain ⟨m, hm, hkept, hnot⟩ :=
    h.exists_change (P := fun a => ¬ P a) hi (not_not_intro hbefore) hlost
  exact hnot (keeps (h.deed (List.mem_of_mem_drop hm)) (not_not.mp hkept))

/-! ## The numbers of operations -/

/-- An operation began at the position of the history that is its number. -/
def Begun (past : List (Moment σ)) (k : Nat) (c : Call σ) : Prop :=
  ∃ a, past[k]? = some ⟨k, c, none, a⟩

theorem Begun.lt {past : List (Moment σ)} {k : Nat} {c : Call σ} (h : Begun past k c) :
    k < past.length := by
  obtain ⟨a, ha⟩ := h
  exact (List.getElem?_eq_some_iff.mp ha).1

theorem Begun.append {past : List (Moment σ)} {k : Nat} {c : Call σ} (h : Begun past k c)
    (newer : List (Moment σ)) : Begun (past ++ newer) k c := by
  obtain ⟨a, ha⟩ := h
  exact ⟨a, getElem?_append_of_eq_some ha newer⟩

theorem Begun.unique {past : List (Moment σ)} {k : Nat} {c c' : Call σ} (h : Begun past k c)
    (h' : Begun past k c') : c = c' := by
  obtain ⟨a, ha⟩ := h
  obtain ⟨a', ha'⟩ := h'
  exact congrArg Moment.call (Option.some.inj (ha.symm.trans ha'))

/-- The numbers of a run's operations are right. -/
structure Numbered (r : Run σ) : Prop where
  /-- An operation that waits has begun. -/
  begun : ∀ f ∈ r.pending, Begun r.past f.number f.call
  /-- It has begun after the ones in which it is nested. -/
  nested : r.pending.Pairwise fun f g => g.number < f.number
  /-- Every moment belongs to an operation that has begun. -/
  moment : ∀ m ∈ r.past, Begun r.past m.number m.call

/-- The moment that comes next belongs to an operation that has begun, if only just now. -/
theorem Numbered.begun_of_next {r : Run σ} (h : r.Numbered) {m : Moment σ}
    {others : List (Pending σ)} (next : r.Next m others) :
    Begun (r.past ++ [m]) m.number m.call := by
  cases next with
  | begins c => exact ⟨r.arbiter, by simp⟩
  | resumes waits b => exact (h.begun _ (by simp [waits])).append _

/-- The operations that wait beside the one that goes on have begun before it. -/
theorem Numbered.lt_of_next {r : Run σ} (h : r.Numbered) {m : Moment σ}
    {others : List (Pending σ)} (next : r.Next m others) {f : Pending σ} (hf : f ∈ others) :
    f.number < m.number := by
  cases next with
  | begins c => exact (h.begun f hf).lt
  | resumes waits b =>
    have hnested := h.nested
    rw [waits] at hnested
    exact (List.pairwise_cons.mp hnested).1 f hf

theorem Numbered.after {r : Run σ} (h : r.Numbered) {m : Moment σ} {others : List (Pending σ)}
    (next : r.Next m others) : (r.after m others).Numbered := by
  have hothers : others.Pairwise fun f g => g.number < f.number := by
    cases next with
    | begins => exact h.nested
    | resumes waits =>
      have hnested := h.nested
      rw [waits] at hnested
      exact hnested.of_cons
  refine ⟨?begun, ?nested, ?moment⟩
  case begun =>
    intro f hf
    rcases mem_pending_after hf with hf | ⟨n, w, hl, rfl⟩
    · exact (h.begun f (next.others_subset hf)).append _
    · exact h.begun_of_next next
  case nested =>
    unfold Run.after
    split
    · exact hothers
    · exact List.pairwise_cons.mpr ⟨fun f hf => h.lt_of_next next hf, hothers⟩
  case moment =>
    intro m' hm'
    rcases List.mem_append.mp hm' with hm' | hm'
    · exact (h.moment m' hm').append _
    · obtain rfl : m' = m := by simpa using hm'
      exact h.begun_of_next next

theorem Reached.numbered {r : Run σ} (h : r.Reached) : r.Numbered := by
  induction h with
  | start preemption => exact ⟨by simp [Run.start], by simp [Run.start], by simp [Run.start]⟩
  | after h next ih => exact ih.after next

/-- A moment that begins an operation stands at the place of the history that is its number. -/
theorem Reached.getElem?_of_begins {r : Run σ} (h : r.Reached) {m : Moment σ} (hm : m ∈ r.past)
    (hk : m.cue = none) : r.past[m.number]? = some m := by
  obtain ⟨older, newer, hpast⟩ := List.append_of_mem hm
  obtain ⟨r', others, -, rfl, next⟩ := h.moment hpast
  cases next with
  | begins c => simp [hpast]
  | resumes => cases hk

/-- An operation that waits has done nothing since the moment at which it notified somebody. -/
theorem Reached.exists_asked {r : Run σ} (h : r.Reached) {f : Pending σ} (hf : f ∈ r.pending) :
    ∃ older m newer n, r.past = older ++ m :: newer ∧ m.number = f.number ∧ m.call = f.call ∧
      m.leg.progress = .notifies n f.waiting ∧ ∀ m' ∈ newer, m'.number ≠ f.number := by
  induction h with
  | start => simp [Run.start] at hf
  | @after r m others h next ih =>
    rcases mem_pending_after hf with hf | ⟨n, w, hl, rfl⟩
    · obtain ⟨older, asked, newer, n, hpast, hnumber, hcall, hl, hsince⟩ :=
        ih (next.others_subset hf)
      refine ⟨older, asked, newer ++ [m], n, by simp [Run.after, hpast], hnumber, hcall, hl, ?_⟩
      intro m' hm'
      rcases List.mem_append.mp hm' with hm' | hm'
      · exact hsince m' hm'
      · rw [List.mem_singleton.mp hm']
        exact (h.numbered.lt_of_next next hf).ne'
    · exact ⟨r.past, m, [], n, rfl, rfl, rfl, hl, by simp⟩

/-! ## The end of an operation -/

variable {r : Run σ}

/-- An operation of which a moment was the end waits no longer. -/
theorem Reached.number_ne_of_finished (h : r.Reached) {m : Moment σ} (hm : m ∈ r.past)
    {result : Result} (hl : m.leg.progress = .finished result) :
    ∀ f ∈ r.pending, f.number ≠ m.number := by
  induction h with
  | start => simp [Run.start] at hm
  | @after r last others h next ih =>
    intro f hf
    rcases List.mem_append.mp hm with hold | hnew
    · rcases mem_pending_after hf with hf | ⟨n, w, -, rfl⟩
      · exact ih hold f (next.others_subset hf)
      · -- The last moment belongs to an operation that waited before it, or has begun with it.
        show last.number ≠ m.number
        cases next with
        | begins c => exact (h.numbered.moment m hold).lt.ne'
        | resumes waits b => exact ih hold _ (by simp [waits])
    · obtain rfl := List.mem_singleton.mp hnew
      rcases mem_pending_after hf with hf | ⟨n, w, hw, rfl⟩
      · exact (h.numbered.lt_of_next next hf).ne
      · cases hl.symm.trans hw

/-- An operation that is over does not go on. -/
theorem Reached.number_ne_of_next (h : r.Reached) {m m' : Moment σ} {others : List (Pending σ)}
    (next : r.Next m others) (hm' : m' ∈ r.past) {result : Result}
    (hl : m'.leg.progress = .finished result) : m.number ≠ m'.number := by
  cases next with
  | begins c => exact (h.numbered.moment m' hm').lt.ne'
  | resumes waits b => exact h.number_ne_of_finished hm' hl _ (by simp [waits])

/-- An operation does nothing more after its end. -/
theorem Reached.number_ne_after (h : r.Reached) {older newer : List (Moment σ)} {m : Moment σ}
    (hpast : r.past = older ++ m :: newer) {result : Result}
    (hl : m.leg.progress = .finished result) : ∀ m' ∈ newer, m'.number ≠ m.number := by
  intro m' hm'
  obtain ⟨mid, newest, rfl⟩ := List.append_of_mem hm'
  rw [← List.cons_append, ← List.append_assoc] at hpast
  obtain ⟨r', others, h', hpast', next⟩ := h.moment hpast
  exact h'.number_ne_of_next next (by simp [hpast']) hl

/-- An operation that was over as soon as it began does nothing more. -/
theorem Reached.eq_of_finished (h : r.Reached) {m₀ : Moment σ}
    (hk : r.past[m₀.number]? = some m₀) {result : Result}
    (hl : m₀.leg.progress = .finished result) :
    ∀ m ∈ r.past, m.number = m₀.number → m = m₀ := by
  intro m hm hnumber
  have hpast : r.past = r.past.take m₀.number ++ m₀ :: r.past.drop (m₀.number + 1) := by
    obtain ⟨hlt, hget⟩ := List.getElem?_eq_some_iff.mp hk
    conv_lhs => rw [← List.take_append_drop m₀.number r.past, List.drop_eq_getElem_cons hlt, hget]
  obtain ⟨r', -, h', hr', -⟩ := h.moment hpast
  rw [hpast] at hm
  rcases List.mem_append.mp hm with hold | hnew
  · -- A moment before the operation began belongs to an older one.
    have hless : m.number < r'.past.length := (h'.numbered.moment m (hr' ▸ hold)).lt
    rw [hr', List.length_take] at hless
    omega
  · exact (List.mem_cons.mp hnew).resolve_right fun hlater =>
      h.number_ne_after hpast hl m hlater hnumber

/-- What waited before a moment waits after it, if the moment does not belong to it. -/
theorem Next.mem_pending_after_of_ne {m : Moment σ} {others : List (Pending σ)}
    (next : r.Next m others) {f : Pending σ} (hf : f ∈ r.pending) (hne : f.number ≠ m.number) :
    f ∈ (r.after m others).pending := by
  have hothers : f ∈ others := by
    cases next with
    | begins c => exact hf
    | resumes waits b =>
      rw [waits] at hf
      exact (List.mem_cons.mp hf).resolve_left fun hsame => hne (congrArg Pending.number hsame)
  unfold Run.after
  split
  · exact hothers
  · exact List.mem_cons_of_mem _ hothers

/-- An operation that has begun is over, or waits. -/
theorem Reached.pending_or_finished (h : r.Reached) {m : Moment σ} (hm : m ∈ r.past) :
    (∃ f ∈ r.pending, f.number = m.number) ∨
      ∃ m' ∈ r.past, m'.number = m.number ∧ ∃ result, m'.leg.progress = .finished result := by
  induction h with
  | start => simp [Run.start] at hm
  | @after r last others h next ih =>
    by_cases hlast : last.number = m.number
    · cases hl : last.leg.progress with
      | finished result => exact .inr ⟨last, by simp [Run.after], hlast, result, hl⟩
      | notifies n w => exact .inl ⟨⟨last.number, last.call, w⟩, by simp [Run.after, hl], hlast⟩
    · have hold : m ∈ r.past := by
        refine (List.mem_append.mp hm).resolve_right fun hnew => hlast ?_
        rw [List.mem_singleton.mp hnew]
      rcases ih hold with ⟨f, hf, hnumber⟩ | ⟨m', hm', hend⟩
      · exact .inl ⟨f, next.mem_pending_after_of_ne hf (hnumber ▸ Ne.symm hlast), hnumber⟩
      · exact .inr ⟨m', List.mem_append_left _ hm', hend⟩

end Run

end SharedRadio.Arbiter
