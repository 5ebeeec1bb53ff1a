import SharedRadio.Proofs.Arbiter.Stride

/-!
# Walks along the chain, from their opening to their end

While a walk waits for an answer, other operations run, and sinks may be registered: the chain grows
while the walk is in the midst of it. `notified` lists the protocols that the walk has told so far,
and `replies` what they have answered.

The invariant is `Walked`. The protocols told so far stand in the chain in the order in which they
were told, and whoever had a sink when the walk opened has been told, or stands behind all of those.
Growth of the chain keeps both, because it changes no order. A leg of the walk keeps them, because
it goes on behind the protocol that was told last and leaves nobody behind for whom it is to stop.
`Underway` says what the walk remembers while it waits, and `Completed` what it has come to when it
is over. All of this is carried along a run by `Reached.walks`.
-/

namespace SharedRadio.Arbiter

variable {σ : Type}

/-! ## What an operation has told, and what was answered -/

/-- The protocol whose slot is notified of an event at a moment. -/
def Moment.notified? (m : Moment σ) (slot : Slot) (event : Event) : Option Protocol :=
  match m.leg.progress.told? with
  | some (p, s, ev) => if s = slot ∧ ev = event then some p else none
  | none => none

theorem Moment.notified?_eq_some_iff {m : Moment σ} {slot : Slot} {event : Event} {p : Protocol} :
    m.notified? slot event = some p ↔ m.Tells p slot event := by
  unfold notified? Tells Leg.Tells
  split
  · next q s ev htold =>
    rw [htold]
    split
    · next hsame =>
      obtain ⟨rfl, rfl⟩ := hsame
      simp
    · next hother =>
      simp only [reduceCtorEq, Option.some.injEq, Prod.mk.injEq, false_iff]
      exact fun h => hother h.2
  · next hnone => simp [hnone]

/-- The protocols whose slots one operation has notified of an event, in order. -/
def notified (k : Nat) (slot : Slot) (event : Event) (past : List (Moment σ)) : List Protocol :=
  past.filterMap fun m => if m.number = k then m.notified? slot event else none

/-- What was answered to the walk of one operation, in order. -/
def replies (k : Nat) (past : List (Moment σ)) : List Answer :=
  past.filterMap fun m => if m.number = k then m.cue.reply? else none

section

variable {k : Nat} {slot : Slot} {event : Event} {p : Protocol} {past : List (Moment σ)}
  {m : Moment σ}

theorem notified_append (k : Nat) (slot : Slot) (event : Event) (past newer : List (Moment σ)) :
    notified k slot event (past ++ newer) =
      notified k slot event past ++ notified k slot event newer :=
  List.filterMap_append

theorem mem_notified_iff :
    p ∈ notified k slot event past ↔ ∃ m ∈ past, m.number = k ∧ m.Tells p slot event := by
  simp [notified, ← Moment.notified?_eq_some_iff]

theorem notified_append_of_ne (hm : m.number ≠ k) :
    notified k slot event (past ++ [m]) = notified k slot event past := by
  simp [notified, hm]

theorem notified_append_of_tells (hm : m.number = k) (ht : m.Tells p slot event) :
    notified k slot event (past ++ [m]) = notified k slot event past ++ [p] := by
  simp [notified, hm, Moment.notified?_eq_some_iff.mpr ht]

theorem notified_append_of_not_tells (ht : ∀ p, ¬ m.Tells p slot event) :
    notified k slot event (past ++ [m]) = notified k slot event past := by
  have hnone : m.notified? slot event = none :=
    Option.eq_none_iff_forall_ne_some.mpr fun p hp => ht p (Moment.notified?_eq_some_iff.mp hp)
  simp [notified, hnone]

theorem replies_append_of_ne (hm : m.number ≠ k) : replies k (past ++ [m]) = replies k past := by
  simp [replies, hm]

theorem replies_append (hm : m.number = k) :
    replies k (past ++ [m]) = replies k past ++ m.cue.reply?.toList := by
  subst hm
  cases h : m.cue.reply? <;> simp [replies, h]

end

/-- A moment that opens a walk does not answer to it. -/
theorem Moment.Opens.visited?_eq_none {m : Moment σ} (h : m.Opens) {w : Waiting σ} {b : Answer}
    (hcue : m.cue = some (w, b)) : w.visited? = none := by
  obtain ⟨number, c, k, a⟩ := m
  obtain rfl : k = some (w, b) := hcue
  cases w with
  | offering | broadcasting | asking => cases c <;> cases h
  | _ => rfl

namespace Deed

variable {a : Arbiter σ} {c : Call σ} {k : Cue σ} {l : Leg σ}

/-- The chain grows without a change of order. -/
theorem chain_sublist (h : Deed a c k l) (ha : a.registry.Sound) :
    a.registry.chain.Sublist l.arbiter.registry.chain := by
  rcases h.registry_eq with heq | ⟨p, v, slot, sink, heq⟩ <;> rw [heq]
  exact ha.chain_sublist_attach p v slot sink

/-- An operation that is to walk stores no sink. -/
theorem registry_eq_of_errand (h : Deed a c k l) {e : Errand} (he : c.errand? = some e) :
    l.arbiter.registry = a.registry := by
  cases h with
  | enrols | replaces => cases he
  | _ => rfl

theorem serves (h : Deed a c k l) {slot : Slot} {passOver : Option Protocol} {p : Protocol}
    (hp : a.registry.Serves slot passOver p) : l.arbiter.registry.Serves slot passOver p :=
  ⟨hp.1, h.sink?_isSome hp.2⟩

end Deed

namespace Run

variable {r : Run σ} {m : Moment σ} {others : List (Pending σ)} {k : Nat} {e : Errand}

/-! ## The invariant -/

/-- How far a walk has come along the chain. -/
structure Walked (r : Run σ) (k : Nat) (e : Errand) : Prop where
  /-- The protocols told so far stand in the chain in the order in which they were told. -/
  inOrder : (notified k e.slot e.event r.past).Sublist r.arbiter.registry.chain
  /-- All of them were to be told. -/
  serves : ∀ p ∈ notified k e.slot e.event r.past, r.arbiter.registry.Serves e.slot e.passOver p
  /-- Whoever was to be told when the walk opened has been told, or stands behind all of those. -/
  ahead : ∀ m₀ ∈ r.past, m₀.number = k → m₀.Opens → ∀ p,
    m₀.before.registry.Serves e.slot e.passOver p →
      p ∈ notified k e.slot e.event r.past ∨
        (notified k e.slot e.event r.past ++ [p]).Sublist r.arbiter.registry.chain
  /-- Nobody has been told before the walk opened. -/
  opened : notified k e.slot e.event r.past ≠ [] → ∃ m₀ ∈ r.past, m₀.number = k ∧ m₀.Opens

/-- What an operation that walks remembers while it waits. -/
structure Underway (r : Run σ) (f : Pending σ) (e : Errand) : Prop where
  /-- It remembers the protocol that it has told last. -/
  last : (notified f.number e.slot e.event r.past).getLast? = f.waiting.visited?
  /-- It remembers what was answered. -/
  memory : f.waiting.Remembers (replies f.number r.past)
  /-- All protocols that it has told have answered but the one that it has told last. -/
  awaited : (notified f.number e.slot e.event r.past).length =
    (replies f.number r.past).length + f.waiting.visited?.toList.length
  /-- If it has told nobody, its walk has not been opened. -/
  unopened : f.waiting.visited? = none → ∀ m₀ ∈ r.past, m₀.number = f.number → ¬ m₀.Opens

/-- What a walk has come to when it is over. -/
structure Completed (past : List (Moment σ)) (m : Moment σ) (e : Errand) : Prop where
  /-- The result is made of all the answers. -/
  outcome : m.leg.progress = .finished (m.call.outcome (replies m.number past))
  /-- All protocols that were told have answered. -/
  answered : (replies m.number past).length = (notified m.number e.slot e.event past).length
  /-- It has yielded to an owner, or it has told everyone who was to be told when it opened. -/
  complete : (e.yields = true ∧ m.before.owner ≠ none) ∨
    ∀ m₀ ∈ past, m₀.number = m.number → m₀.Opens → ∀ p,
      m₀.before.registry.Serves e.slot e.passOver p → p ∈ notified m.number e.slot e.event past

/-- All walks of a run are in order. -/
structure Walks (r : Run σ) : Prop where
  walked : ∀ k e, (∀ c, Begun r.past k c → c.errand? = some e) → r.Walked k e
  underway : ∀ f ∈ r.pending, ∀ e, f.call.errand? = some e → r.Underway f e
  completed : ∀ m ∈ r.past, ∀ e, m.call.errand? = some e →
    (∃ result, m.leg.progress = .finished result) →
      (∃ m₀ ∈ r.past, m₀.number = m.number ∧ m₀.Opens) → Completed r.past m e

/-! ## Moments of other operations -/

theorem mem_past_of_number_ne {past : List (Moment σ)} {m₀ : Moment σ} (hm₀ : m₀ ∈ past ++ [m])
    (hne : m₀.number ≠ m.number) : m₀ ∈ past :=
  (List.mem_append.mp hm₀).resolve_right fun h => hne (by rw [List.mem_singleton.mp h])

theorem Walked.keep (hw : r.Walked k e) (h : r.Reached) (next : r.Next m others)
    (hne : k ≠ m.number) : (r.after m others).Walked k e := by
  have deed := h.sound.deed next
  have hchain := deed.chain_sublist h.sound.registry
  have hnotified : notified k e.slot e.event (r.after m others).past = _ :=
    notified_append_of_ne hne.symm
  constructor
  case inOrder =>
    rw [hnotified]
    exact hw.inOrder.trans hchain
  case serves =>
    rw [hnotified]
    exact fun p hp => deed.serves (hw.serves p hp)
  case ahead =>
    rw [hnotified]
    intro m₀ hm₀ hnumber hopens p hp
    have hold : m₀ ∈ r.past := mem_past_of_number_ne hm₀ (hnumber ▸ hne)
    exact (hw.ahead m₀ hold hnumber hopens p hp).imp_right fun hahead => hahead.trans hchain
  case opened =>
    rw [hnotified]
    intro htold
    obtain ⟨m₀, hm₀, hopens⟩ := hw.opened htold
    exact ⟨m₀, List.mem_append_left _ hm₀, hopens⟩

theorem Underway.keep {f : Pending σ} (hu : r.Underway f e) (hne : f.number ≠ m.number) :
    (r.after m others).Underway f e := by
  have hnotified : notified f.number e.slot e.event (r.after m others).past = _ :=
    notified_append_of_ne hne.symm
  have hreplies : replies f.number (r.after m others).past = _ := replies_append_of_ne hne.symm
  constructor
  case last => rw [hnotified, hu.last]
  case memory => rw [hreplies]; exact hu.memory
  case awaited => rw [hnotified, hreplies, hu.awaited]
  case unopened =>
    intro hnone m₀ hm₀ hnumber
    exact hu.unopened hnone m₀ (mem_past_of_number_ne hm₀ (hnumber ▸ hne)) hnumber

theorem Completed.keep {past : List (Moment σ)} {m' : Moment σ} (hc : Completed past m' e)
    (hne : m'.number ≠ m.number) : Completed (past ++ [m]) m' e := by
  have hnotified : notified m'.number e.slot e.event (past ++ [m]) = _ :=
    notified_append_of_ne hne.symm
  have hreplies : replies m'.number (past ++ [m]) = _ := replies_append_of_ne hne.symm
  constructor
  case outcome => rw [hreplies]; exact hc.outcome
  case answered => rw [hreplies, hnotified]; exact hc.answered
  case complete =>
    rw [hnotified]
    refine hc.complete.imp_right fun hall m₀ hm₀ hnumber => ?_
    exact hall m₀ (mem_past_of_number_ne hm₀ (hnumber ▸ hne)) hnumber

/-! ## Moments of the walk itself -/

/-- A moment at which a walk opens or goes on. -/
structure Ready (r : Run σ) (m : Moment σ) (e : Errand) : Prop where
  /-- It sets out behind those that have been told. -/
  stride : Strides r.arbiter m.call e
    (r.arbiter.registry.startAfter (notified m.number e.slot e.event r.past).getLast?)
    (replies m.number (r.past ++ [m])) m.leg
  /-- The walk has been opened. -/
  opened : ∃ m₀ ∈ r.past ++ [m], m₀.number = m.number ∧ m₀.Opens
  /-- All of them have answered. -/
  answered : (replies m.number (r.past ++ [m])).length =
    (notified m.number e.slot e.event r.past).length
  /-- Whoever was to be told when it opened has been told, or stands behind all of those. -/
  ahead : ∀ m₀ ∈ r.past ++ [m], m₀.number = m.number → m₀.Opens → ∀ p,
    m₀.before.registry.Serves e.slot e.passOver p →
      p ∈ notified m.number e.slot e.event r.past ∨
        (notified m.number e.slot e.event r.past ++ [p]).Sublist r.arbiter.registry.chain

/-- A moment at which an operation that is to walk does not do so yet. -/
structure Unready (r : Run σ) (m : Moment σ) (e : Errand) : Prop where
  begins : m.cue = none
  unopened : ∀ m₀ ∈ r.past ++ [m], m₀.number = m.number → ¬ m₀.Opens
  untold : notified m.number e.slot e.event (r.past ++ [m]) = []
  unanswered : replies m.number (r.past ++ [m]) = []
  waits : ∀ n w, m.leg.progress = .notifies n w → w.visited? = none ∧ w.Remembers []

/-- What is known of the operation of a moment before that moment. -/
structure Known (r : Run σ) (m : Moment σ) (e : Errand) (visited? : Option Protocol) : Prop where
  last : (notified m.number e.slot e.event r.past).getLast? = visited?
  awaited : (notified m.number e.slot e.event r.past).length =
    (replies m.number r.past).length + visited?.toList.length
  unopened : visited? = none → ∀ m₀ ∈ r.past, m₀.number = m.number → ¬ m₀.Opens
  cue : ∀ w b, m.cue = some (w, b) →
    m.call.Awaits w ∧ w.visited? = visited? ∧ w.Remembers (replies m.number r.past)
  begins : m.cue = none → visited? = none

theorem Walks.exists_known (hw : r.Walks) (h : r.Reached) (next : r.Next m others)
    (he : m.call.errand? = some e) : ∃ visited?, r.Known m e visited? := by
  cases next with
  | begins c =>
    have hfresh : ∀ m₀ ∈ r.past, m₀.number ≠ r.past.length := fun m₀ hm₀ =>
      (h.numbered.moment m₀ hm₀).lt.ne
    have hnotified : notified r.past.length e.slot e.event r.past = [] :=
      List.eq_nil_iff_forall_not_mem.mpr fun p hp => by
        obtain ⟨m₀, hm₀, hnumber, -⟩ := mem_notified_iff.mp hp
        exact hfresh m₀ hm₀ hnumber
    have hreplies : replies r.past.length r.past = [] :=
      List.filterMap_eq_nil_iff.mpr fun m₀ hm₀ => if_neg (hfresh m₀ hm₀)
    refine ⟨none, ?_, ?_, fun _ m₀ hm₀ hnumber => absurd hnumber (hfresh m₀ hm₀), nofun,
      fun _ => rfl⟩
    · rw [hnotified]
      rfl
    · rw [hnotified, hreplies]
      rfl
  | @resumes f others waits b =>
    have hf : f ∈ r.pending := by simp [waits]
    obtain ⟨last, memory, awaited, unopened⟩ := hw.underway f hf e he
    refine ⟨f.waiting.visited?, last, awaited, unopened, ?_, nofun⟩
    intro w b' hcue
    cases hcue
    exact ⟨h.sound.awaits f hf, rfl, memory⟩

namespace Known

/-- A walk that has told somebody goes on when that one answers. -/
theorem ready_of_visited {q : Protocol} (known : r.Known m e (some q))
    (hwalked : r.Walked m.number e) (next : r.Next m others) (he : m.call.errand? = some e) :
    r.Ready m e := by
  obtain ⟨⟨w, b⟩, hcue⟩ := Option.ne_none_iff_exists'.mp fun hnone => nomatch known.begins hnone
  obtain ⟨hawaits, hvisited, hmemory⟩ := known.cue w b hcue
  have hreplies : replies m.number (r.past ++ [m]) = replies m.number r.past ++ [b] := by
    rw [replies_append rfl, hcue]
    simp [Cue.reply?, hvisited]
  constructor
  case stride =>
    rw [known.last, hreplies, ← next.before_eq]
    exact strides_of_visited he hcue hawaits hvisited hmemory
  case opened =>
    have htold : notified m.number e.slot e.event r.past ≠ [] := by
      intro hnil
      cases hnil ▸ known.last
    obtain ⟨m₀, hm₀, hopens⟩ := hwalked.opened htold
    exact ⟨m₀, List.mem_append_left _ hm₀, hopens⟩
  case answered =>
    rw [hreplies, List.length_append, known.awaited]
    rfl
  case ahead =>
    intro m₀ hm₀ hnumber hopens
    refine hwalked.ahead m₀ ?_ hnumber hopens
    refine (List.mem_append.mp hm₀).resolve_right fun hnew => ?_
    obtain rfl := List.mem_singleton.mp hnew
    cases hvisited.symm.trans (hopens.visited?_eq_none hcue)

theorem notified_eq_nil (known : r.Known m e none) :
    notified m.number e.slot e.event r.past = [] :=
  List.getLast?_eq_none_iff.mp known.last

/-- As long as nobody has been told, nothing has been answered. -/
theorem replies_eq_nil (known : r.Known m e none) : replies m.number (r.past ++ [m]) = [] := by
  have hnone : replies m.number r.past = [] := by
    have hlength := known.awaited
    rw [known.notified_eq_nil] at hlength
    exact List.eq_nil_of_length_eq_zero hlength.symm
  rw [replies_append rfl, hnone]
  cases hcue : m.cue with
  | none => rfl
  | some cue => simp [Cue.reply?, (known.cue cue.1 cue.2 hcue).2.1]

/-- A walk that opens has everyone ahead of it who is to be told. -/
theorem ready_of_opens (known : r.Known m e none) (hopens : m.Opens) (h : r.Reached)
    (next : r.Next m others) (he : m.call.errand? = some e) : r.Ready m e := by
  have hbefore := next.before_eq
  constructor
  case stride =>
    rw [known.notified_eq_nil, known.replies_eq_nil, ← hbefore]
    exact strides_of_opens he hopens fun w b hcue => (known.cue w b hcue).1
  case opened => exact ⟨m, by simp, rfl, hopens⟩
  case answered =>
    rw [known.replies_eq_nil, known.notified_eq_nil]
    rfl
  case ahead =>
    intro m₀ hm₀ hnumber hopens₀ p hp
    rcases List.mem_append.mp hm₀ with hold | hnew
    · exact absurd hopens₀ (known.unopened rfl m₀ hold hnumber)
    · obtain rfl := List.mem_singleton.mp hnew
      rw [hbefore] at hp
      rw [known.notified_eq_nil]
      exact .inr (List.singleton_sublist.mpr (h.sound.registry.mem_chain_of_sink hp.2))

/-- Otherwise the operation is a release that begins, and tells the former owner at most. -/
theorem unready (known : r.Known m e none) (hopens : ¬ m.Opens) (he : m.call.errand? = some e) :
    r.Unready m e := by
  obtain ⟨p, hcall, hbegins, hleg⟩ := releases_of_not_opens he
    (fun w b hcue => ⟨(known.cue w b hcue).1, (known.cue w b hcue).2.1⟩) hopens
  have hevent : e.event = .idle := by
    rw [hcall] at he
    cases he
    rfl
  constructor
  case begins => exact hbegins
  case unopened =>
    intro m₀ hm₀ hnumber
    rcases List.mem_append.mp hm₀ with hold | hnew
    · exact known.unopened rfl m₀ hold hnumber
    · rwa [List.mem_singleton.mp hnew]
  case untold =>
    rw [notified_append_of_not_tells, known.notified_eq_nil]
    intro q ht
    unfold Moment.Tells Leg.Tells at ht
    cases hl : m.leg.progress with
    | finished result => simp [hl] at ht
    | notifies n w =>
      rw [hl] at ht
      obtain ⟨-, -, hidle⟩ : n.protocol = q ∧ n.slot = e.slot ∧ n.event = e.event := by
        simpa [Progress.told?] using ht
      cases (hleg n w hl).1.symm.trans (hidle.trans hevent)
  case unanswered => exact known.replies_eq_nil
  case waits =>
    intro n w hl
    obtain ⟨-, rfl⟩ := hleg n w hl
    exact ⟨rfl, rfl⟩

end Known

/-- An operation that is to walk either does so at a moment, or does not do so yet. -/
theorem Walks.ready_or_unready (hw : r.Walks) (h : r.Reached) (next : r.Next m others)
    (hwalked : r.Walked m.number e) (he : m.call.errand? = some e) :
    r.Ready m e ∨ r.Unready m e := by
  obtain ⟨visited?, known⟩ := hw.exists_known h next he
  cases visited? with
  | some q => exact .inl (known.ready_of_visited hwalked next he)
  | none =>
    by_cases hopens : m.Opens
    · exact .inl (known.ready_of_opens hopens h next he)
    · exact .inr (known.unready hopens he)

/-- Whoever was to be told at some moment is to be told ever after. -/
theorem Reached.serves (h : r.Reached) {m₀ : Moment σ} (hm₀ : m₀ ∈ r.past) {slot : Slot}
    {passOver : Option Protocol} {p : Protocol} (hp : m₀.before.registry.Serves slot passOver p) :
    r.arbiter.registry.Serves slot passOver p := by
  obtain ⟨i, hi⟩ := List.getElem?_of_mem hm₀
  exact h.persists (P := fun a => a.registry.Serves slot passOver p) hi
    (fun deed hserves => deed.serves hserves) hp

/-- The invariant, for the operation of the last moment. -/
structure Kept (r : Run σ) (m : Moment σ) (e : Errand) : Prop where
  walked : r.Walked m.number e
  underway : ∀ n w, m.leg.progress = .notifies n w → r.Underway ⟨m.number, m.call, w⟩ e
  completed : (∃ result, m.leg.progress = .finished result) →
    (∃ m₀ ∈ r.past, m₀.number = m.number ∧ m₀.Opens) → Completed r.past m e

/-- Before its walk is opened, an operation has nothing to keep. -/
theorem Unready.kept (hunready : r.Unready m e) : (r.after m others).Kept m e := by
  obtain ⟨-, unopened, untold, unanswered, waits⟩ := hunready
  have hnotified : notified m.number e.slot e.event (r.after m others).past = [] := untold
  constructor
  case walked =>
    constructor
    case inOrder =>
      rw [hnotified]
      exact List.nil_sublist _
    case serves =>
      rw [hnotified]
      exact nofun
    case ahead => exact fun m₀ hm₀ hnumber hopens => absurd hopens (unopened m₀ hm₀ hnumber)
    case opened => exact fun htold => absurd hnotified htold
  case underway =>
    intro n w hl
    obtain ⟨hnone, hmemory⟩ := waits n w hl
    have hreplies : replies m.number (r.after m others).past = [] := unanswered
    constructor
    case last =>
      rw [hnotified, hnone]
      rfl
    case memory =>
      rw [hreplies]
      exact hmemory
    case awaited =>
      rw [hnotified, hreplies, hnone]
      rfl
    case unopened => exact fun _ => unopened
  case completed =>
    rintro - ⟨m₀, hm₀, hnumber, hopens⟩
    exact absurd hopens (unopened m₀ hm₀ hnumber)

/-- The end of a walk keeps what has been told. -/
theorem Ready.kept_of_finished (hready : r.Ready m e) (hwalked : r.Walked m.number e)
    (harbiter : (r.after m others).arbiter = r.arbiter)
    (hl : m.leg.progress = .finished (m.call.outcome (replies m.number (r.past ++ [m]))))
    (hcomplete : (e.yields = true ∧ m.before.owner ≠ none) ∨
      ∀ m₀ ∈ r.past ++ [m], m₀.number = m.number → m₀.Opens → ∀ p,
        m₀.before.registry.Serves e.slot e.passOver p →
          p ∈ notified m.number e.slot e.event r.past) : (r.after m others).Kept m e := by
  have hnotified : notified m.number e.slot e.event (r.after m others).past = _ :=
    notified_append_of_not_tells fun p ht => by
      unfold Moment.Tells Leg.Tells at ht
      rw [hl] at ht
      cases ht
  constructor
  case walked =>
    constructor
    case inOrder =>
      rw [hnotified, harbiter]
      exact hwalked.inOrder
    case serves =>
      rw [hnotified, harbiter]
      exact hwalked.serves
    case ahead =>
      rw [hnotified, harbiter]
      exact hready.ahead
    case opened => exact fun _ => hready.opened
  case underway =>
    intro n w hl'
    cases hl.symm.trans hl'
  case completed =>
    intro _ _
    constructor
    case outcome => exact hl
    case answered => rw [hnotified]; exact hready.answered
    case complete => rw [hnotified]; exact hcomplete

/-- A leg that tells one more protocol leaves nobody behind, if that one is the next. -/
theorem Ready.kept_of_notifies (hready : r.Ready m e) (hwalked : r.Walked m.number e)
    (harbiter : (r.after m others).arbiter = r.arbiter) {p : Protocol} {sink : σ} {w : Waiting σ}
    (hl : m.leg.progress = .notifies ⟨p, e.slot, sink, e.event⟩ w)
    (hvisited : w.visited? = some p) (hmemory : w.Remembers (replies m.number (r.past ++ [m])))
    (hp : r.arbiter.registry.Serves e.slot e.passOver p)
    (hvisit : (notified m.number e.slot e.event r.past ++ [p]).Sublist r.arbiter.registry.chain)
    (hahead : ∀ m₀ ∈ r.past ++ [m], m₀.number = m.number → m₀.Opens → ∀ q,
      m₀.before.registry.Serves e.slot e.passOver q →
        q ∈ notified m.number e.slot e.event r.past ++ [p] ∨
          (notified m.number e.slot e.event r.past ++ [p] ++ [q]).Sublist
            r.arbiter.registry.chain) : (r.after m others).Kept m e := by
  have ht : m.Tells p e.slot e.event := by
    unfold Moment.Tells Leg.Tells
    rw [hl]
    rfl
  have hnotified : notified m.number e.slot e.event (r.after m others).past = _ :=
    notified_append_of_tells rfl ht
  constructor
  case walked =>
    constructor
    case inOrder =>
      rw [hnotified, harbiter]
      exact hvisit
    case serves =>
      rw [hnotified, harbiter]
      intro q hq
      rcases List.mem_append.mp hq with hold | hnew
      · exact hwalked.serves q hold
      · rwa [List.mem_singleton.mp hnew]
    case ahead =>
      rw [hnotified, harbiter]
      exact hahead
    case opened => exact fun _ => hready.opened
  case underway =>
    intro n w' hl'
    cases hl.symm.trans hl'
    constructor
    case last => rw [hnotified, List.getLast?_concat, hvisited]
    case memory => exact hmemory
    case awaited =>
      have hreplies : (replies m.number (r.after m others).past).length = _ := hready.answered
      rw [hnotified, List.length_append, hreplies, hvisited]
      rfl
    case unopened => exact fun hnone => nomatch hvisited.symm.trans hnone
  case completed =>
    rintro ⟨result, hl'⟩
    cases hl.symm.trans hl'

/-- **A leg of a walk leaves nobody behind**, and stops only where it should. -/
theorem Ready.kept (hready : r.Ready m e) (hwalked : r.Walked m.number e) (h : r.Reached)
    (next : r.Next m others) : (r.after m others).Kept m e := by
  have stride := hready.stride
  have ahead := hready.ahead
  have hserves : ∀ m₀ ∈ r.past ++ [m], ∀ p, m₀.before.registry.Serves e.slot e.passOver p →
      r.arbiter.registry.Serves e.slot e.passOver p := by
    intro m₀ hm₀ p hp
    rcases List.mem_append.mp hm₀ with hold | hnew
    · exact h.serves hold hp
    · rwa [List.mem_singleton.mp hnew, next.before_eq] at hp
  have hchained := h.sound.registry.toChained
  have harbiter : (r.after m others).arbiter = r.arbiter := stride.arbiter_eq
  generalize hleg : m.leg = l at stride
  cases stride with
  | visits first visited memory =>
    obtain ⟨hp, hvisit, hrest⟩ := hchained.visit_of_firstSink?_eq_some hwalked.inOrder first
    refine hready.kept_of_notifies hwalked harbiter (by rw [hleg]) visited memory hp hvisit ?_
    intro m₀ hm₀ hnumber hopens q hq
    rcases ahead m₀ hm₀ hnumber hopens q hq with htold | hbehind
    · exact .inl (List.mem_append_left _ htold)
    · rcases hrest q (hserves m₀ hm₀ q hq) hbehind with rfl | hbehind
      · exact .inl (List.mem_append_right _ (List.mem_singleton_self _))
      · exact .inr hbehind
  | arrives nobody =>
    refine hready.kept_of_finished hwalked harbiter (by rw [hleg]) (.inr ?_)
    intro m₀ hm₀ hnumber hopens p hp
    refine (ahead m₀ hm₀ hnumber hopens p hp).resolve_right ?_
    exact hchained.not_ahead_of_firstSink?_eq_none hwalked.inOrder nobody (hserves m₀ hm₀ p hp)
  | yields owned yields =>
    exact hready.kept_of_finished hwalked harbiter (by rw [hleg])
      (.inl ⟨yields, by rwa [next.before_eq]⟩)

/-! ## Walks in every run -/

theorem Walks.after (hw : r.Walks) (h : r.Reached) (next : r.Next m others) :
    (r.after m others).Walks := by
  have kept : ∀ e, m.call.errand? = some e → (r.after m others).Kept m e := by
    intro e he
    have hwalked : r.Walked m.number e := hw.walked _ e fun c hc =>
      (hc.append [m]).unique (h.numbered.begun_of_next next) ▸ he
    rcases hw.ready_or_unready h next hwalked he with hready | hunready
    · exact hready.kept hwalked h next
    · exact hunready.kept
  constructor
  case walked =>
    intro k e hbegun
    by_cases hk : k = m.number
    · subst hk
      exact (kept e (hbegun m.call (h.numbered.begun_of_next next))).walked
    · exact (hw.walked k e fun c hc => hbegun c (hc.append [m])).keep h next hk
  case underway =>
    intro f hf e he
    rcases mem_pending_after hf with hf | ⟨n, w, hl, rfl⟩
    · exact (hw.underway f (next.others_subset hf) e he).keep (h.numbered.lt_of_next next hf).ne
    · exact (kept e he).underway n w hl
  case completed =>
    intro m' hm' e he hend hopened
    rcases List.mem_append.mp hm' with hold | hnew
    · obtain ⟨result, hl⟩ := hend
      have hne : m'.number ≠ m.number := (h.number_ne_of_next next hold hl).symm
      obtain ⟨m₀, hm₀, hnumber, hopens⟩ := hopened
      have hm₀ := mem_past_of_number_ne hm₀ (hnumber ▸ hne)
      exact (hw.completed m' hold e he ⟨result, hl⟩ ⟨m₀, hm₀, hnumber, hopens⟩).keep hne
    · obtain rfl := List.mem_singleton.mp hnew
      exact (kept e he).completed hend hopened

theorem Reached.walks (h : r.Reached) : r.Walks := by
  induction h with
  | start preemption =>
    refine ⟨fun k e _ => ⟨List.nil_sublist _, ?_, ?_, ?_⟩, ?_, ?_⟩ <;> simp [Run.start, notified]
  | after h next ih => exact ih.after h next

/-- A moment of an operation that is to walk comes after the opening of its walk, unless the
operation begins with it. -/
theorem Reached.opened_or_begins (h : r.Reached) (hm : m ∈ r.past)
    (he : m.call.errand? = some e) :
    (∃ m₀ ∈ r.past, m₀.number = m.number ∧ m₀.Opens) ∨ m.cue = none ∧ ¬ m.Opens := by
  obtain ⟨older, newer, hpast⟩ := List.append_of_mem hm
  obtain ⟨r', others, h', rfl, next⟩ := h.moment hpast
  have hwalked : r'.Walked m.number e := h'.walks.walked _ e fun c hc =>
    (hc.append [m]).unique (h'.numbered.begun_of_next next) ▸ he
  rcases h'.walks.ready_or_unready h' next hwalked he with hready | hunready
  · obtain ⟨m₀, hm₀, hopens⟩ := hready.opened
    have hmem : m₀ ∈ r.past := by
      rw [hpast, List.append_cons]
      exact List.mem_append_left _ hm₀
    exact .inl ⟨m₀, hmem, hopens⟩
  · exact .inr ⟨hunready.begins, hunready.unopened m (by simp) rfl⟩

/-! ## Newcomers -/

/-- The chain only grows. -/
theorem Reached.chain_sublist (h : r.Reached) (hm : m ∈ r.past) :
    m.after.registry.chain.Sublist r.arbiter.registry.chain := by
  induction h with
  | start => simp [Run.start] at hm
  | @after r last others h next ih =>
    rcases List.mem_append.mp hm with hold | hnew
    · exact (ih hold).trans ((h.sound.deed next).chain_sublist h.sound.registry)
    · rw [List.mem_singleton.mp hnew]
      exact List.Sublist.refl _

/-- Of the protocols that an operation has told, the last one has not answered yet. -/
def Awaited (past : List (Moment σ)) (k : Nat) (e : Errand) (q : Protocol) : Prop :=
  (notified k e.slot e.event past).getLast? = some q ∧
    (notified k e.slot e.event past).length = (replies k past).length + 1

/-- A protocol got its sink in the midst of a walk that a moment had opened, and it stood behind the
protocol then that was being told. -/
def JoinsBehind (past : List (Moment σ)) (m₀ : Moment σ) (e : Errand) (p : Protocol) : Prop :=
  ∃ older m' newer q, past = older ++ m' :: newer ∧ m₀ ∈ older ∧
    m'.before.registry.sink? p e.slot = none ∧ (m'.after.registry.sink? p e.slot).isSome ∧
      Awaited older m₀.number e q ∧ [q, p].Sublist m'.after.registry.chain

/-- An operation that has opened its walk waits for the protocol that it has told last, or it is
over. -/
theorem Reached.awaited_or_finished (h : r.Reached) {m₀ : Moment σ} (hm₀ : m₀ ∈ r.past)
    (hopens : m₀.Opens) (he : m₀.call.errand? = some e) :
    (∃ f ∈ r.pending, f.number = m₀.number ∧ ∃ q, Awaited r.past m₀.number e q) ∨
      ∃ m ∈ r.past, m.number = m₀.number ∧ ∃ result, m.leg.progress = .finished result := by
  refine (h.pending_or_finished hm₀).imp_left fun ⟨f, hf, hfnumber⟩ => ?_
  have hcall : f.call = m₀.call :=
    (hfnumber ▸ h.numbered.begun f hf).unique (h.numbered.moment m₀ hm₀)
  have underway := h.walks.underway f hf e (hcall ▸ he)
  refine ⟨f, hf, hfnumber, ?_⟩
  rw [← hfnumber]
  cases hvisited : f.waiting.visited? with
  | none => exact absurd hopens (underway.unopened hvisited m₀ hm₀ hfnumber.symm)
  | some q =>
    refine ⟨q, underway.last.trans hvisited, ?_⟩
    rw [underway.awaited, hvisited]
    rfl

/-- An operation that has opened its walk and goes on later waits for the protocol that it has told
last. -/
theorem Reached.exists_awaited (h : r.Reached) {r' : Run σ} (h' : r'.Reached)
    {newer : List (Moment σ)} (hpast : r.past = r'.past ++ newer) {m₀ : Moment σ}
    (hm₀ : m₀ ∈ r'.past) (hopens : m₀.Opens) (he : m₀.call.errand? = some e) {m' : Moment σ}
    (hm' : m' ∈ newer) (hnumber : m'.number = m₀.number) :
    ∃ q, Awaited r'.past m₀.number e q := by
  rcases h'.awaited_or_finished hm₀ hopens he with
    ⟨-, -, -, hawaited⟩ | ⟨last, hlast, hsame, result, hl⟩
  · exact hawaited
  · -- An operation that is over does not go on.
    obtain ⟨front, back, hsplit⟩ := List.append_of_mem hlast
    rw [hsplit, List.append_assoc, List.cons_append] at hpast
    exact absurd (hnumber.trans hsame.symm) (h.number_ne_after hpast hl m' (by simp [hm']))

/-- Whoever has got a sink since a walk was opened has got it at a moment after that. -/
theorem Reached.exists_joining (h : r.Reached) {m₀ : Moment σ} (hm₀ : m₀ ∈ r.past)
    (he : m₀.call.errand? = some e) {p : Protocol} {slot : Slot}
    (hnew : m₀.before.registry.sink? p slot = none)
    (hnow : (r.arbiter.registry.sink? p slot).isSome) :
    ∃ (r' : Run σ) (m' : Moment σ) (others : List (Pending σ)) (newer : List (Moment σ)),
      r'.Reached ∧ r'.Next m' others ∧ r.past = r'.past ++ m' :: newer ∧ m₀ ∈ r'.past ∧
        r'.arbiter.registry.sink? p slot = none ∧ (m'.after.registry.sink? p slot).isSome := by
  obtain ⟨front, since, hpast⟩ := List.append_of_mem hm₀
  have hindex : r.past[front.length]? = some m₀ := by rw [hpast]; simp
  obtain ⟨m', hm', hbefore, hafter⟩ := h.exists_change
    (P := fun a => (a.registry.sink? p slot).isSome) hindex (by simp [hnew]) hnow
  rw [hpast, List.drop_left] at hm'
  rcases List.mem_cons.mp hm' with rfl | hm'
  · -- The moment that opens a walk stores no sink.
    rw [Moment.after, (h.deed hm₀).registry_eq_of_errand he] at hafter
    exact absurd hafter hbefore
  obtain ⟨mid, newer, rfl⟩ := List.append_of_mem hm'
  have hsplit : r.past = (front ++ m₀ :: mid) ++ m' :: newer := by simp [hpast]
  obtain ⟨r', others, h', hr', next⟩ := h.moment hsplit
  rw [next.before_eq] at hbefore
  exact ⟨r', m', others, newer, h', next, hr' ▸ hsplit, by simp [hr'], by simpa using hbefore,
    hafter⟩

/-- **Whoever joins during a walk is told by it only if it stands behind the protocol that is told
at that time.** -/
theorem Reached.joinsBehind (h : r.Reached) {m₀ : Moment σ} (hm₀ : m₀ ∈ r.past)
    (hopens : m₀.Opens) (he : m₀.call.errand? = some e) {p : Protocol}
    (hp : p ∈ notified m₀.number e.slot e.event r.past)
    (hnew : m₀.before.registry.sink? p e.slot = none) : JoinsBehind r.past m₀ e p := by
  have herrand : ∀ c, Begun r.past m₀.number c → c.errand? = some e := fun c hc =>
    hc.unique (h.numbered.moment m₀ hm₀) ▸ he
  have hwalked := h.walks.walked m₀.number e herrand
  obtain ⟨r', m', others, newer, h', next, hsplit, hm₀', hbefore, hafter⟩ :=
    h.exists_joining hm₀ he hnew (hwalked.serves p hp).2
  have hwalked' : r'.Walked m₀.number e := h'.walks.walked _ e fun c hc =>
    herrand c (hsplit ▸ hc.append _)
  -- It has been told since it joined, so the walk has gone on since then.
  have hpnew : p ∈ notified m₀.number e.slot e.event (m' :: newer) := by
    rw [hsplit, notified_append] at hp
    refine (List.mem_append.mp hp).resolve_left fun htold => ?_
    have hsink := (hwalked'.serves p htold).2
    rw [hbefore] at hsink
    cases hsink
  obtain ⟨m'', hm'', hnumber, -⟩ := mem_notified_iff.mp hpnew
  obtain ⟨q, hq⟩ := h.exists_awaited h' hsplit hm₀' hopens he hm'' hnumber
  have hnone : m'.before.registry.sink? p e.slot = none := by rwa [next.before_eq]
  refine ⟨r'.past, m', newer, q, hsplit, hm₀', hnone, hafter, hq, ?_⟩
  have hqmem : q ∈ notified m₀.number e.slot e.event r'.past := List.mem_of_getLast? hq.1
  -- Now it stands behind that protocol, and their order has not changed since.
  have hnow : [q, p].Sublist r.arbiter.registry.chain := by
    refine List.Sublist.trans ?_ hwalked.inOrder
    rw [hsplit, notified_append]
    exact (List.singleton_sublist.mpr hqmem).append (List.singleton_sublist.mpr hpnew)
  have hgrows : m'.after.registry.chain.Sublist r.arbiter.registry.chain :=
    h.chain_sublist (by simp [hsplit])
  have hqchain : q ∈ m'.after.registry.chain :=
    ((h'.sound.deed next).chain_sublist h'.sound.registry).subset (hwalked'.inOrder.subset hqmem)
  have hpchain : p ∈ m'.after.registry.chain :=
    (h'.after next).sound.registry.mem_chain_of_sink hafter
  exact pair_sublist_of_sublist h.sound.registry.nodup hnow hgrows hqchain hpchain

end Run

end SharedRadio.Arbiter
