import Mathlib.Order.Bounds.Basic
import SharedRadio.Proofs.Arbiter.Tour
import SharedRadio.Proofs.Arbiter.Succession

/-!
# For how long the others will be inactive

An inquiry asks everyone along the chain but one protocol, and comes to the least word that was
answered. `Run.Asks` says this of any run: it asks everyone once who had an arbitration sink when it
began, and beside these only protocols that joined behind the one that was being asked. Whatever the
words are, an inquiry in which nobody was asked can be told from any other.

`inquire` plays an inquiry in which the sinks do nothing but answer. What it comes to depends on
the sinks of the others alone, and not on where they stand in the chain.
-/

namespace SharedRadio.Arbiter

open Registry

variable {σ : Type}

/-! ## The least word -/

/-- The least of some words, if there are any. -/
def Shortest (words : Set UInt32) : Option UInt32 → Prop
  | none => words = ∅
  | some w => IsLeast words w

theorem Shortest.unique {words : Set UInt32} {shortest shortest' : Option UInt32}
    (h : Shortest words shortest) (h' : Shortest words shortest') : shortest = shortest' := by
  cases shortest with
  | none =>
    obtain rfl : words = ∅ := h
    cases shortest' with
    | none => rfl
    | some w => exact absurd h'.1 (Set.notMem_empty w)
  | some v =>
    cases shortest' with
    | none =>
      obtain rfl : words = ∅ := h'
      exact absurd h.1 (Set.notMem_empty v)
    | some w => rw [UInt32.le_antisymm (h.2 h'.1) (h'.2 h.1)]

/-- One more word. -/
theorem Shortest.insert {words : Set UInt32} {shortest : Option UInt32}
    (h : Shortest words shortest) (w : UInt32) :
    Shortest (insert w words) (some (shorter shortest w)) := by
  cases shortest with
  | none =>
    obtain rfl : words = ∅ := h
    refine ⟨Set.mem_insert _ _, fun v hv => ?_⟩
    rw [hv.resolve_right (Set.notMem_empty v)]
    exact UInt32.le_refl w
  | some s =>
    unfold shorter
    dsimp only
    split
    · next hlt =>
      refine ⟨Set.mem_insert _ _, fun v hv => ?_⟩
      rcases hv with rfl | hv
      · exact UInt32.le_refl v
      · exact UInt32.le_trans (UInt32.le_of_lt hlt) (h.2 hv)
    · next hnot =>
      refine ⟨Set.mem_insert_of_mem _ h.1, fun v hv => ?_⟩
      rcases hv with rfl | hv
      · exact UInt32.not_lt.mp hnot
      · exact h.2 hv

/-- What is remembered of some answers is the least of their words. -/
theorem shortest_shortestOf (replies : List Answer) :
    Shortest {w | ∃ b ∈ replies, b.word = w} (shortestOf replies) := by
  induction replies using List.reverseRecOn with
  | nil => simp [shortestOf, Shortest]
  | append_singleton replies b ih =>
    have hwords : {w | ∃ b' ∈ replies ++ [b], b'.word = w} =
        insert b.word {w | ∃ b' ∈ replies, b'.word = w} := by
      ext w
      simp [or_comm, eq_comm]
    rw [hwords, ← shorter_shortestOf rfl b]
    exact ih.insert b.word

/-! ## What an inquiry does in any run -/

/-- The protocols that one operation has asked for how long they will be inactive, in order. -/
def asked (k : Nat) (past : List (Moment σ)) : List Protocol :=
  notified k .arbitration .inactivity past

/-- What asks all protocols but one. -/
def asking (current : Protocol) : Errand := ⟨.arbitration, .inactivity, some current, false⟩

/-- An inquiry asks the arbitration sink of another protocol, and changes nothing. -/
theorem Deed.asks_of_inactivity {a : Arbiter σ} {current : Protocol} {k : Cue σ} {l : Leg σ}
    (h : Deed a (.inactivity current) k l) {n : Notification σ} {w : Waiting σ}
    (hl : l.progress = .notifies n w) :
    n.slot = .arbitration ∧ n.event = .inactivity ∧ n.protocol ≠ current ∧
      l.arbiter.sink? n.protocol = some n.sink := by
  cases h with
  | offers walks => exact walks.elim
  | asks included present => cases hl; exact ⟨rfl, rfl, included, present⟩
  | _ => cases hl

namespace Run

/-- One operation asks the others for how long they will be inactive. It began at an arbiter. -/
structure Asks (r : Run σ) (k : Nat) (current : Protocol) (first : Arbiter σ) : Prop where
  /-- It asks arbitration sinks of other protocols that, and tells nothing else to anybody. -/
  only : ∀ m ∈ r.past, m.number = k → ∀ n w, m.leg.progress = .notifies n w →
    n.slot = .arbitration ∧ n.event = .inactivity ∧ n.protocol ≠ current ∧
      m.after.sink? n.protocol = some n.sink
  /-- It asks nobody twice. -/
  once : ∀ p, (asked k r.past).count p ≤ 1
  /-- It does not ask the one for whom it asks. -/
  excludes : current ∉ asked k r.past
  /-- So it is over after as many answers as there are protocols, if not before. -/
  few : (asked k r.past).length ≤ Protocol.count
  /-- A protocol that had no arbitration sink when it began is asked only if it stood behind the one
  that was being asked when it got one. -/
  joins : ∀ p ∈ asked k r.past, first.sink? p = none → ∃ m₀ ∈ r.past, m₀.number = k ∧
    m₀.cue = none ∧ JoinsBehind r.past m₀ (asking current) p
  /-- Until its end, it waits for one answer, that of the protocol that it has asked last. -/
  waits : (∃ f ∈ r.pending, f.number = k ∧ ∃ q, (asked k r.past).getLast? = some q ∧
      (asked k r.past).length = (replies k r.past).length + 1) ∨
    ∃ m ∈ r.past, m.number = k ∧ ∃ result, m.leg.progress = .finished result
  /-- At its end it has asked everyone else who had an arbitration sink when it began. -/
  complete : ∀ m ∈ r.past, m.number = k → (∃ result, m.leg.progress = .finished result) →
    ∀ p, p ≠ current → (first.sink? p).isSome → (asked k r.past).count p = 1
  /-- All those that were asked have answered then. The result is the least word of them, and it is
  none only if nobody was asked. -/
  result : ∀ m ∈ r.past, m.number = k → (∃ result, m.leg.progress = .finished result) →
    (replies k r.past).length = (asked k r.past).length ∧
      ∃ shortest, m.leg.progress = .finished (.inactivity shortest) ∧
        Shortest {w | ∃ b ∈ replies k r.past, b.word = w} shortest ∧
          (shortest = none ↔ asked k r.past = [])

/-- The least of some answers is none only if there are none. -/
theorem shortestOf_eq_none_iff (replies : List Answer) :
    shortestOf replies = none ↔ replies = [] := by
  induction replies using List.reverseRecOn with
  | nil => exact iff_of_true rfl rfl
  | append_singleton replies b _ => simp [← shorter_shortestOf rfl b]

/-- **An inquiry asks everyone else once** who had an arbitration sink when it began, whatever the
sinks do meanwhile, and comes to the least of their words. -/
theorem Reached.asks {r : Run σ} (h : r.Reached) {k : Nat} {current : Protocol} {first : Arbiter σ}
    (hk : r.past[k]? = some ⟨k, .inactivity current, none, first⟩) : r.Asks k current first := by
  have hbegun : Begun r.past k (.inactivity current) := ⟨first, hk⟩
  have hfirst : (⟨k, .inactivity current, none, first⟩ : Moment σ) ∈ r.past :=
    List.mem_of_getElem? hk
  have tours : r.Tours k (.inactivity current) (asking current) := h.tours hbegun rfl
  constructor
  case only =>
    rintro m hm rfl n w hl
    have deed := h.deed hm
    rw [(h.numbered.moment m hm).unique hbegun] at deed
    exact deed.asks_of_inactivity hl
  case once => exact List.nodup_iff_count_le_one.mp tours.once
  case excludes => exact fun hcurrent => (tours.serves current hcurrent).1 rfl
  case few => exact tours.length_le
  case joins =>
    exact fun p hp hnew => ⟨_, hfirst, rfl, rfl, tours.joins _ hfirst rfl trivial p hp hnew⟩
  case waits => exact tours.waits _ hfirst rfl trivial
  case complete =>
    intro m hm hnumber hend p hother hp
    have hall := (tours.ends m hm hnumber hend _ hfirst rfl trivial).resolve_left nofun
    have hserves : first.registry.Serves .arbitration (some current) p :=
      ⟨fun hsame => hother (Option.some.inj hsame).symm, hp⟩
    exact List.count_eq_one_of_mem tours.once (hall p hserves)
  case result =>
    intro m hm hnumber hend
    obtain ⟨answered, outcome⟩ := tours.outcome m hm hnumber hend ⟨_, hfirst, rfl, trivial⟩
    refine ⟨answered, _, outcome, shortest_shortestOf _, ?_⟩
    rw [shortestOf_eq_none_iff, ← List.length_eq_zero_iff, answered, List.length_eq_zero_iff]
    rfl

end Run

/-! ## Sinks that only answer -/

/-- The sink that was notified at the last moment. -/
def Run.hearer? (r : Run σ) : Option σ :=
  r.past.getLast?.bind fun m =>
    match m.leg.progress with
    | .notifies n _ => some n.sink
    | .finished _ => none

/-- The sink that was notified at the last moment answers its word. If that moment was the end of an
operation, nothing happens. -/
def respond (words : σ → Answer) (r : Run σ) : Run σ :=
  match r.hearer? with
  | some s => r.step (.answer (words s))
  | none => r

/-- An inquiry that is played to its end by sinks that only answer. There are no more of them than
there are protocols. -/
def inquire (words : σ → Answer) (current : Protocol) (r : Run σ) : Run σ :=
  (respond words)^[Protocol.count] (r.step (.call (.inactivity current)))

/-- The arbitration sinks of all protocols but one. -/
def sinksBeside (a : Arbiter σ) (current : Protocol) : Set σ :=
  {s | ∃ p, p ≠ current ∧ a.sink? p = some s}

/-- Those of some protocols, in order. -/
def sinksAlong (a : Arbiter σ) (current : Protocol) (l : List Protocol) : List σ :=
  (l.filter (· ≠ current)).filterMap a.sink?

theorem mem_sinksAlong_chain {a : Arbiter σ} (h : a.registry.Sound) {current : Protocol} {s : σ} :
    s ∈ sinksAlong a current a.registry.chain ↔ s ∈ sinksBeside a current := by
  unfold sinksAlong
  simp only [List.mem_filterMap, List.mem_filter, decide_eq_true_iff]
  constructor
  · rintro ⟨p, ⟨-, hother⟩, hsink⟩
    exact ⟨p, hother, hsink⟩
  · rintro ⟨p, hother, hsink⟩
    exact ⟨p, ⟨h.mem_chain_of_sink (Option.isSome_of_mem hsink), hother⟩, hsink⟩

/-- An operation has come to a result at the last moment, and others wait as they did. -/
structure Run.Concludes (r : Run σ) (k : Nat) (others : List (Pending σ)) (a : Arbiter σ)
    (result : Result) : Prop where
  /-- The operation is over. -/
  ended : ∃ m, r.past.getLast? = some m ∧ m.number = k ∧ m.leg.progress = .finished result
  /-- The others wait. -/
  pending : r.pending = others
  /-- The arbiter is this one. -/
  arbiter : r.arbiter = a

section

variable {a : Arbiter σ} {current q : Protocol} {l : List Protocol} {shortest : Option UInt32}

theorem askFrom_of_serves (hpath : a.registry.Path (some q) (q :: l) none)
    (hlength : (q :: l).length ≤ Protocol.count)
    (hq : a.registry.Serves .arbitration (some current) q) :
    ∃ sink, a.sink? q = some sink ∧ a.askFrom current (some q) shortest =
      a.notify [] q .arbitration sink .inactivity (.asking current q shortest) := by
  obtain ⟨sink, hsink, hfirst⟩ := firstSink?_of_serves hpath hlength hq
  refine ⟨sink, hsink, ?_⟩
  unfold askFrom
  rw [hfirst]

theorem askFrom_of_not_serves (hpath : a.registry.Path (some q) (q :: l) none)
    (hlength : (q :: l).length ≤ Protocol.count)
    (hq : ¬ a.registry.Serves .arbitration (some current) q) :
    a.askFrom current (some q) shortest = a.askFrom current (a.registry.next? q) shortest := by
  unfold askFrom
  rw [firstSink?_of_not_serves hpath hlength hq]

end

namespace Run

section

variable {r : Run σ} {m : Moment σ} {others : List (Pending σ)} {words : σ → Answer}
  {a : Arbiter σ} {records : List Record} {n : Notification σ} {w : Waiting σ} {result : Result}

/-- An operation goes on when the sink that it has notified answers. -/
theorem respond_after (hleg : m.leg = ⟨a, records, .notifies n w⟩) :
    respond words (r.after m others) =
      (r.after m others).after ⟨m.number, m.call, some (w, words n.sink), a⟩ others := by
  have hhearer : (r.after m others).hearer? = some n.sink := by
    rw [hearer?, after, List.getLast?_concat, Option.bind_some, hleg]
  have hafter : r.after m others = _ := after_of_notifies hleg
  unfold respond
  rw [hhearer]
  dsimp only
  rw [step, congrArg Run.pending hafter, congrArg Run.arbiter hafter]

theorem concludes_after (hleg : m.leg = ⟨a, records, .finished result⟩) :
    (r.after m others).Concludes m.number others a result := by
  refine ⟨⟨m, List.getLast?_concat, rfl, by rw [hleg]⟩, ?_, ?_⟩
  · rw [after, hleg]
  · rw [after, Moment.after, hleg]

/-- Nothing happens when an operation has ended. -/
theorem Concludes.respond_eq {k : Nat} (h : r.Concludes k others a result) (words : σ → Answer) :
    respond words r = r := by
  obtain ⟨m, hlast, -, hl⟩ := h.ended
  unfold respond hearer?
  rw [hlast, Option.bind_some, hl]

/-- The sinks that an inquiry is yet to ask answer one after the other. -/
theorem concludes_askFrom (others : List (Pending σ)) (words : σ → Answer) (current : Protocol)
    {l : List Protocol} {start : Option Protocol} (hpath : a.registry.Path start l none)
    (hlength : l.length ≤ Protocol.count) (r : Run σ) {m : Moment σ} {shortest : Option UInt32}
    (hleg : m.leg = a.askFrom current start shortest) :
    ((respond words)^[l.length] (r.after m others)).Concludes m.number others a
      (.inactivity (((sinksAlong a current l).map words).foldl
        (fun shortest b => some (shorter shortest b.micros)) shortest)) := by
  -- By induction on the part of the chain that lies ahead.
  induction l generalizing start r m shortest with
  | nil =>
    obtain rfl : start = none := hpath
    exact concludes_after hleg
  | cons q l ih =>
    obtain ⟨rfl, hrest⟩ := hpath
    have hpath : a.registry.Path (some q) (q :: l) none := ⟨rfl, hrest⟩
    by_cases hq : a.registry.Serves .arbitration (some current) q
    · obtain ⟨sink, hsink, hask⟩ := askFrom_of_serves hpath hlength hq
      have hother : q ≠ current := fun hsame => hq.1 (by rw [hsame])
      have hsinks : sinksAlong a current (q :: l) = sink :: sinksAlong a current l := by
        simp [sinksAlong, hother, hsink]
      rw [hsinks, List.length_cons, Function.iterate_succ_apply, respond_after (hleg.trans hask)]
      exact ih hrest (Nat.le_of_succ_le hlength) (r.after m others) rfl
    · have hsinks : sinksAlong a current (q :: l) = sinksAlong a current l := by
        by_cases hother : q = current
        · simp [sinksAlong, hother]
        · have hnone : a.sink? q = none := by
            simpa [Serves, Ne.symm hother, Arbiter.sink?] using hq
          simp [sinksAlong, hother, hnone]
      rw [askFrom_of_not_serves hpath hlength hq] at hleg
      have concludes := ih hrest (Nat.le_of_succ_le hlength) r hleg
      rw [hsinks, List.length_cons, Function.iterate_succ_apply', concludes.respond_eq]
      exact concludes

end

/-- **An inquiry among sinks that only answer** comes to the least word of those beside the one for
whom it asks, wherever they stand in the chain. -/
theorem Reached.exists_concludes_inquire {r : Run σ} (h : r.Reached) (words : σ → Answer)
    (current : Protocol) :
    ∃ shortest, (inquire words current r).Concludes r.past.length r.pending r.arbiter
      (.inactivity shortest) ∧
        Shortest ((fun s => (words s).word) '' sinksBeside r.arbiter current) shortest := by
  have hnodup := h.sound.registry.nodup
  obtain ⟨more, hmore⟩ := Nat.exists_eq_add_of_le' (length_le_count hnodup)
  have hleg : Moment.leg ⟨r.past.length, .inactivity current, none, r.arbiter⟩ =
      r.arbiter.askFrom current r.arbiter.registry.head none := rfl
  have concludes := concludes_askFrom r.pending words current h.sound.registry.path
    (length_le_count hnodup) r hleg
  refine ⟨shortestOf ((sinksAlong r.arbiter current r.arbiter.registry.chain).map words), ?_, ?_⟩
  · unfold inquire
    rw [hmore, Function.iterate_add_apply, Run.step,
      Function.iterate_fixed (concludes.respond_eq words)]
    exact concludes
  · have hwords : (fun s => (words s).word) '' sinksBeside r.arbiter current =
        {w | ∃ b ∈ (sinksAlong r.arbiter current r.arbiter.registry.chain).map words,
          b.word = w} := by
      ext w
      simp [mem_sinksAlong_chain h.sound.registry]
    rw [hwords]
    exact shortest_shortestOf _

/-- **Inactivity is the least word of the others.** However the sinks call the arbiter before they
answer, an inquiry asks everyone else once, and comes to the least of their words. If they do
nothing but answer, then what it comes to is the same wherever the same sinks are registered beside
the one for whom it asks, with any priorities and in any order. -/
theorem asks_play (preemption : Bool) (moves : List (Move σ)) :
    (∀ k current first,
      (play preemption moves).past[k]? = some ⟨k, .inactivity current, none, first⟩ →
        (play preemption moves).Asks k current first) ∧
      ∀ (words : σ → Answer) current, ∃ shortest,
        Shortest ((fun s => (words s).word) '' sinksBeside (play preemption moves).arbiter current)
          shortest ∧
        ∀ preemption' moves', sinksBeside (play preemption' moves').arbiter current =
            sinksBeside (play preemption moves).arbiter current →
          (inquire words current (play preemption' moves')).Concludes
            (play preemption' moves').past.length (play preemption' moves').pending
              (play preemption' moves').arbiter (.inactivity shortest) := by
  have h := reached_play preemption moves
  refine ⟨fun k current first => h.asks, fun words current => ?_⟩
  obtain ⟨shortest, -, hshortest⟩ := h.exists_concludes_inquire words current
  refine ⟨shortest, hshortest, fun preemption' moves' hsame => ?_⟩
  obtain ⟨shortest', concludes, hshortest'⟩ :=
    (reached_play preemption' moves').exists_concludes_inquire words current
  rw [hsame] at hshortest'
  rwa [hshortest.unique hshortest']

end Run

/-- One protocol asks. While the only other one that has an arbitration sink is being asked, a third
one joins behind it, which answers zero. -/
def joinedBehind : List (Move UInt32) :=
  [.call (.register .coexistence .ant 0 5), .answer .success,
    .call (.register .arbitration .ble 1 4294967295), .answer .success,
    .call (.register .arbitration .genFsk 2 700), .answer .success, .call (.inactivity .ble),
    .call (.register .arbitration .ieee802154 3 4294967295), .answer .success, .answer ⟨700⟩,
    .answer .success]

/-- The sink that these two share, registered for one protocol alone. -/
def registeredOnce : List (Move UInt32) :=
  [.call (.register .arbitration .ant 7 4294967295), .answer .success]

theorem asks_play_joinedBehind :
    (∃ first, (Run.play true joinedBehind).Asks 6 .ble first) ∧
      asked 6 (Run.play true joinedBehind).past = [.genFsk, .ieee802154] ∧
      sinksBeside (Run.play false registeredOnce).arbiter .genFsk =
        sinksBeside (Run.play true joinedBehind).arbiter .genFsk ∧
      ∃ shortest, shortest = some 4294967295 ∧
        (inquire Answer.mk .genFsk (Run.play false registeredOnce)).Concludes 2 []
          (Run.play false registeredOnce).arbiter (.inactivity shortest) := by
  obtain ⟨asks, least⟩ := Run.asks_play true joinedBehind
  have hmem : ∀ s, s ∈ sinksBeside (Run.play true joinedBehind).arbiter .genFsk ↔
      s = 4294967295 := by
    intro s
    rw [← mem_sinksAlong_chain (Run.reached_play true joinedBehind).sound.registry,
      show sinksAlong (Run.play true joinedBehind).arbiter .genFsk _ =
        [4294967295, 4294967295] from rfl]
    simp
  have hmem' : ∀ s, s ∈ sinksBeside (Run.play false registeredOnce).arbiter .genFsk ↔
      s = 4294967295 := by
    intro s
    rw [← mem_sinksAlong_chain (Run.reached_play false registeredOnce).sound.registry,
      show sinksAlong (Run.play false registeredOnce).arbiter .genFsk _ = [4294967295] from rfl]
    simp
  have hsame := Set.ext fun s => (hmem' s).trans (hmem s).symm
  obtain ⟨shortest, hshortest, concludes⟩ := least Answer.mk .genFsk
  have hleast : Shortest ((fun s => (Answer.mk s).word) ''
      sinksBeside (Run.play true joinedBehind).arbiter .genFsk) (some 4294967295) := by
    refine ⟨⟨_, (hmem _).mpr rfl, rfl⟩, ?_⟩
    rintro _ ⟨s, hs, rfl⟩
    rw [(hmem s).mp hs]
    exact UInt32.le_refl _
  exact ⟨⟨_, asks 6 .ble _ rfl⟩, rfl, hsame, shortest, hshortest.unique hleast,
    concludes false registeredOnce hsame⟩

end SharedRadio.Arbiter
