import Mathlib.Logic.Function.Iterate
import SharedRadio.Proofs.Arbiter.Addressee
import SharedRadio.Proofs.Arbiter.Walk

/-!
# Who gets the transceiver when it is given up

When an owner gives up its last level, the transceiver is offered along the priority chain. Some
protocols wait for it: their sinks acquire it as soon as it is offered to them. All other sinks, and
these sinks at any other time, do nothing but answer. `succeeds_of_release` says who is the owner in
the end, and who was told of what.

`attend` is what such sinks do next, so that iterating it plays the release to its end. The proof
follows the walk along the chain, by induction on the part that lies ahead of it.
-/

namespace SharedRadio.Arbiter

open Registry

variable {σ : Type}

/-! ## Sinks that wait for the transceiver -/

/-- All that was told at some moments: who, in which slot, and of what. -/
def told (past : List (Moment σ)) : List (Protocol × Slot × Event) :=
  past.filterMap fun m => m.leg.progress.told?

/-- The protocol to which the transceiver has just been offered. -/
def Run.invited? (r : Run σ) : Option Protocol :=
  r.past.getLast?.bind (·.notified? .arbitration .idle)

/-- What the sinks do next. One that waits for the transceiver acquires it when it is offered;
apart from that they answer. The word depends on how much has gone on before. -/
def attend (waits : Protocol → Bool) (words : Nat → Answer) (r : Run σ) : Run σ :=
  match r.invited?.filter waits with
  | some q => r.step (.call (.acquire q false))
  | none => r.step (.answer (words r.past.length))

instance (r : Registry σ) (slot : Slot) (passOver : Option Protocol) (p : Protocol) :
    Decidable (r.Serves slot passOver p) :=
  inferInstanceAs (Decidable (_ ∧ _))

/-- The protocols to which the transceiver is offered when one of them has given it up, in order,
as long as nobody takes it. -/
def heirs (a : Arbiter σ) (p : Protocol) : List Protocol :=
  a.registry.chain.filter fun q => a.registry.Serves .arbitration (some p) q

/-- How the transceiver is offered to some protocols of which some wait for it: the arbiter in the
end, and what was told. -/
inductive Hands (a : Arbiter σ) (waits : Protocol → Bool) (l : List Protocol) :
    Arbiter σ → List (Protocol × Slot × Event) → Prop where
  /-- The first one that waits gets it. -/
  | taken {front back : List Protocol} {w : Protocol} (split : l = front ++ w :: back)
      (passive : ∀ q ∈ front, waits q = false) (waiting : waits w = true) :
      Hands a waits l { a with owner := some w, depth := 1 }
        (front.map (·, .arbitration, .idle) ++
          [(w, .arbitration, .idle), (w, .arbitration, .active)])
  /-- Nobody waits. -/
  | none (passive : ∀ q ∈ l, waits q = false) :
      Hands a waits l a (l.map (·, .arbitration, .idle))

theorem Hands.cons {a a' : Arbiter σ} {waits : Protocol → Bool} {l : List Protocol}
    {t : List (Protocol × Slot × Event)} {q : Protocol} (hq : waits q = false)
    (h : Hands a waits l a' t) : Hands a waits (q :: l) a' ((q, .arbitration, .idle) :: t) := by
  cases h with
  | @taken front back w split passive waiting =>
    have hsplit : q :: l = (q :: front) ++ w :: back := by rw [split]; rfl
    exact .taken hsplit (by simpa [hq] using passive) waiting
  | none passive => exact .none (by simpa [hq] using passive)

/-! ## One leg of an offer -/

section

variable {a : Arbiter σ} {records : List Record} {excluded : Option Protocol} {q : Protocol}
  {l : List Protocol} {faulted : Bool}

theorem offerFrom_of_owner {o : Protocol} (h : a.owner = some o) (records : List Record)
    (excluded start : Option Protocol) (faulted : Bool) :
    ∃ records', a.offerFrom records excluded start faulted =
      a.finish records' (verdict faulted) := by
  unfold offerFrom
  rw [h]
  cases start with
  | none => exact ⟨_, rfl⟩
  | some _ => exact ⟨_, rfl⟩

theorem offerFrom_of_serves (hpath : a.registry.Path (some q) (q :: l) none)
    (hlength : (q :: l).length ≤ Protocol.count) (howner : a.owner = none)
    (hq : a.registry.Serves .arbitration excluded q) :
    ∃ sink, a.sink? q = some sink ∧ a.offerFrom records excluded (some q) faulted =
      a.notify records q .arbitration sink .idle (.offering excluded q faulted) := by
  obtain ⟨sink, hsink, hfirst⟩ := firstSink?_of_serves hpath hlength hq
  refine ⟨sink, hsink, ?_⟩
  unfold offerFrom
  rw [howner, hfirst]

theorem offerFrom_of_not_serves (hpath : a.registry.Path (some q) (q :: l) none)
    (hlength : (q :: l).length ≤ Protocol.count) (howner : a.owner = none)
    (hq : ¬ a.registry.Serves .arbitration excluded q) :
    a.offerFrom records excluded (some q) faulted =
      a.offerFrom records excluded (a.registry.next? q) faulted := by
  have hskip := firstSink?_of_not_serves hpath hlength hq
  unfold offerFrom
  rw [howner, hskip]
  cases a.registry.next? q <;> rfl

end

/-! ## The walk to its end -/

namespace Run

section

variable {r : Run σ} {m : Moment σ} {others : List (Pending σ)} {waits : Protocol → Bool}
  {words : Nat → Answer} {a : Arbiter σ} {records : List Record} {n : Notification σ}
  {w : Waiting σ} {result : Result}

theorem after_of_notifies (hleg : m.leg = ⟨a, records, .notifies n w⟩) :
    r.after m others = ⟨a, ⟨m.number, m.call, w⟩ :: others, r.past ++ [m]⟩ := by
  rw [after, Moment.after, hleg]

theorem invited?_of_notifies (hleg : m.leg = ⟨a, records, .notifies n w⟩) :
    (r.after m others).invited? =
      if n.slot = .arbitration ∧ n.event = .idle then some n.protocol else none := by
  rw [invited?, after, List.getLast?_concat, Option.bind_some, Moment.notified?, hleg]
  rfl

/-- A protocol that waits takes what it has just been offered. -/
theorem attend_of_invited {q : Protocol} (h : r.invited? = some q) (hq : waits q = true)
    (words : Nat → Answer) :
    attend waits words r = r.step (.call (.acquire q false)) := by
  unfold attend
  rw [h, Option.filter_some, if_pos hq]

/-- If nobody does so, then the innermost operation goes on. -/
theorem attend_of_filter_eq_none (h : r.invited?.filter waits = none) {f : Pending σ}
    (hpending : r.pending = f :: others) :
    attend waits words r = r.after
      ⟨f.number, f.call, some (f.waiting, words r.past.length), r.arbiter⟩ others := by
  unfold attend
  rw [h]
  dsimp only
  rw [step, hpending]

/-- An operation goes on if it has just told somebody who does nothing but answer. -/
theorem attend_after (hleg : m.leg = ⟨a, records, .notifies n w⟩)
    (hpassive : n.slot = .arbitration → n.event = .idle → waits n.protocol = false) :
    attend waits words (r.after m others) = (r.after m others).after
      ⟨m.number, m.call, some (w, words (r.after m others).past.length), a⟩ others := by
  have hnone : (r.after m others).invited?.filter waits = none := by
    rw [invited?_of_notifies hleg]
    split
    · next hidle => simp [hpassive hidle.1 hidle.2]
    · rfl
  have hafter : r.after m others = _ := after_of_notifies hleg
  rw [attend_of_filter_eq_none hnone (congrArg Run.pending hafter), congrArg Run.arbiter hafter]

/-- An operation that went on after a history has come to its end, and others wait as they did. -/
structure Ends (r : Run σ) (past : List (Moment σ)) (k : Nat) (others : List (Pending σ))
    (a : Arbiter σ) (t : List (Protocol × Slot × Event)) : Prop where
  /-- The arbiter is this one. -/
  arbiter : r.arbiter = a
  /-- The others wait. -/
  pending : r.pending = others
  /-- This was told meanwhile. -/
  told : ∃ newer, r.past = past ++ newer ∧ told newer = t
  /-- The operation is over. -/
  ended : ∃ m, r.past.getLast? = some m ∧ m.number = k ∧ ∃ result, m.leg.progress = .finished result

/-- A leg that is the end of an operation ends it. -/
theorem ends_after (hleg : m.leg = ⟨a, records, .finished result⟩) {past newer : List (Moment σ)}
    (hpast : r.past = past ++ newer) :
    (r.after m others).Ends past m.number others a (Arbiter.told newer) := by
  rw [after, Moment.after, hleg]
  refine ⟨rfl, rfl, ⟨newer ++ [m], by simp [hpast], ?_⟩, m, List.getLast?_concat, rfl, result, ?_⟩
  · simp [Arbiter.told, hleg, Progress.told?]
  · rw [hleg]

/-- What a leg has told counts, too. -/
theorem Ends.of_after {r₀ : Run σ} {k : Nat} {a' : Arbiter σ} {t : List (Protocol × Slot × Event)}
    (h : r.Ends (r₀.after m others).past k others a' t)
    (hleg : m.leg = ⟨a, records, .notifies n w⟩) :
    r.Ends r₀.past k others a' ((n.protocol, n.slot, n.event) :: t) := by
  obtain ⟨arbiter, pending, ⟨newer, hpast, rfl⟩, ended⟩ := h
  refine ⟨arbiter, pending, ⟨m :: newer, by simp [hpast, after], ?_⟩, ended⟩
  simp [Arbiter.told, hleg, Progress.told?]

/-- A protocol that acquires the idle transceiver gets it, is told so, and answers. -/
theorem ends_acquire (harbiter : r.arbiter = a) (hpending : r.pending = others)
    (howner : a.owner = none) {q : Protocol} {sink : σ} (hsink : a.sink? q = some sink)
    (waits : Protocol → Bool) (words : Nat → Answer) :
    (attend waits words (r.step (.call (.acquire q false)))).Ends r.past r.past.length others
      { a with owner := some q, depth := 1 } [(q, .arbitration, .active)] := by
  subst harbiter hpending
  have hleg : (⟨r.past.length, .acquire q false, none, r.arbiter⟩ : Moment σ).leg =
      ⟨{ r.arbiter with owner := some q, depth := 1 }, [.acquired q],
        .notifies ⟨q, .arbitration, sink, .active⟩ (.activating q false)⟩ := by
    show r.arbiter.acquire q false = _
    unfold acquire
    rw [hsink, howner]
    rfl
  rw [step, attend_after hleg fun _ hidle => by cases hidle]
  exact (ends_after rfl (List.append_nil _).symm).of_after hleg

/-- An offer stops when it finds that somebody owns the transceiver. -/
theorem Ends.attend {past : List (Moment σ)} {k : Nat} {t : List (Protocol × Slot × Event)}
    {f : Pending σ} (h : r.Ends past k (f :: others) a t) {excluded : Option Protocol}
    {q : Protocol} {faulted : Bool} (hwaiting : f.waiting = .offering excluded q faulted)
    {o : Protocol} (howner : a.owner = some o) (waits : Protocol → Bool) (words : Nat → Answer) :
    (attend waits words r).Ends past f.number others a t := by
  obtain ⟨rfl, hpending, ⟨newer, hpast, rfl⟩, m, hlast, -, result, hl⟩ := h
  have hnone : r.invited?.filter waits = none := by
    rw [invited?, hlast]
    simp [Moment.notified?, hl, Progress.told?]
  rw [attend_of_filter_eq_none hnone hpending, hwaiting]
  obtain ⟨records, hleg⟩ := offerFrom_of_owner howner [] excluded (r.arbiter.registry.next? q)
    (faulted || !(words r.past.length).isSuccess)
  exact ends_after (m := ⟨f.number, f.call, some (.offering excluded q faulted,
    words r.past.length), r.arbiter⟩) hleg hpast

/-- The transceiver is offered to those that are to be served, until one of them takes it. -/
theorem exists_hands (others : List (Pending σ)) (howner : a.owner = none)
    (excluded : Option Protocol) (waits : Protocol → Bool) (words : Nat → Answer)
    {l : List Protocol} {start : Option Protocol} (hpath : a.registry.Path start l none)
    (hlength : l.length ≤ Protocol.count) (r : Run σ)
    {m : Moment σ} {records : List Record} {faulted : Bool}
    (hleg : m.leg = a.offerFrom records excluded start faulted) :
    ∃ n a' t, Hands a waits (l.filter fun q => a.registry.Serves .arbitration excluded q) a' t ∧
      ((attend waits words)^[n] (r.after m others)).Ends r.past m.number others a' t := by
  induction l generalizing start r m records faulted with
  | nil =>
    obtain rfl : start = none := hpath
    exact ⟨0, a, [], .none (by simp), ends_after hleg (List.append_nil _).symm⟩
  | cons q l ih =>
    obtain ⟨rfl, hrest⟩ := hpath
    have hpath : a.registry.Path (some q) (q :: l) none := ⟨rfl, hrest⟩
    by_cases hq : a.registry.Serves .arbitration excluded q
    · rw [List.filter_cons_of_pos (by simpa using hq)]
      obtain ⟨sink, hsink, hoffer⟩ := offerFrom_of_serves hpath hlength howner hq
      have hnotify := hleg.trans hoffer
      cases hw : waits q with
      | true =>
        have hafter : r.after m others = _ := after_of_notifies hnotify
        have ends := ends_acquire (congrArg Run.arbiter hafter) (congrArg Run.pending hafter)
          howner hsink waits words
        rw [← attend_of_invited (invited?_of_notifies hnotify) hw words] at ends
        exact ⟨3, _, _, .taken (List.nil_append _).symm (by simp) hw,
          (ends.attend rfl rfl waits words).of_after hnotify⟩
      | false =>
        obtain ⟨n, a', t, hands, ends⟩ := ih hrest (Nat.le_of_succ_le hlength) (r.after m others)
          (m := ⟨m.number, m.call,
            some (.offering excluded q faulted, words (r.after m others).past.length), a⟩) rfl
        refine ⟨n + 1, a', _, hands.cons hw, ?_⟩
        rw [Function.iterate_succ_apply, attend_after hnotify fun _ _ => hw]
        exact ends.of_after hnotify
    · rw [List.filter_cons_of_neg (by simpa using hq)]
      rw [offerFrom_of_not_serves hpath hlength howner hq] at hleg
      exact ih hrest (Nat.le_of_succ_le hlength) r hleg

end

end Run

/-! ## The successor -/

/-- A protocol that waits for what another one has, and goes before all others that do. -/
structure FirstInLine (r : Run σ) (p : Protocol) (waits : Protocol → Bool) (w : Protocol) :
    Prop where
  mem : w ∈ heirs r.arbiter p
  waiting : waits w = true
  precedes : ∀ q ∈ heirs r.arbiter p, waits q = true → q ≠ w → Precedes (attachments r.past) w q

/-- What comes of it when an owner gives up its last level: how things were before and how they are
when that is over. -/
structure Succeeds (r : Run σ) (p : Protocol) (waits : Protocol → Bool) (r' : Run σ) : Prop where
  /-- The release is over. -/
  ended : ∃ m, r'.past.getLast? = some m ∧ m.number = r.past.length ∧
    ∃ result, m.leg.progress = .finished result
  /-- What waited before waits still. -/
  pending : r'.pending = r.pending
  /-- The heirs are all the others that have a sink, each of them once. -/
  mem_heirs : ∀ q, q ∈ heirs r.arbiter p ↔ q ≠ p ∧ (r.arbiter.sink? q).isSome
  nodup : (heirs r.arbiter p).Nodup
  /-- If some of them wait, then the first one in line owns the transceiver, at one level. Those in
  front of it were offered the transceiver, and those behind it were told of nothing. -/
  taken : (∃ q ∈ heirs r.arbiter p, waits q = true) → ∃ front w back,
    heirs r.arbiter p = front ++ w :: back ∧ FirstInLine r p waits w ∧
      r'.arbiter = { r.arbiter with owner := some w, depth := 1 } ∧
      told (r'.past.drop r.past.length) = (p, .arbitration, .release) ::
        (front.map (·, .arbitration, .idle) ++
          [(w, .arbitration, .idle), (w, .arbitration, .active)])
  /-- If none of them waits, then they all were offered the transceiver, and nobody owns it. -/
  left : (∀ q ∈ heirs r.arbiter p, waits q = false) →
    r'.arbiter = { r.arbiter with owner := none, depth := 0 } ∧
      told (r'.past.drop r.past.length) = (p, .arbitration, .release) ::
        (heirs r.arbiter p).map (·, .arbitration, .idle)

/-- The heirs stand in the order of the priority chain. -/
theorem Run.Reached.pairwise_heirs {r : Run σ} (h : r.Reached) (p : Protocol) :
    (heirs r.arbiter p).Pairwise (Precedes (attachments r.past)) := by
  have hchain := pairwise_chain_attachAll (attachments r.past)
  rw [← h.registry_eq] at hchain
  exact hchain.sublist List.filter_sublist

theorem mem_heirs_iff {a : Arbiter σ} (h : a.registry.Sound) {p q : Protocol} :
    q ∈ heirs a p ↔ q ≠ p ∧ (a.sink? q).isSome := by
  rw [heirs, List.mem_filter, decide_eq_true_iff, Serves, ne_eq, Option.some.injEq, eq_comm]
  exact and_iff_right_of_imp fun hq => h.mem_chain_of_sink hq.2

/-- A release of the last level is played to its end by sinks that answer. -/
theorem Run.Reached.exists_ends_release {r : Run σ} (h : r.Reached) {p : Protocol}
    (howner : r.arbiter.owner = some p) (hdepth : r.arbiter.depth = 1) (waits : Protocol → Bool)
    (words : Nat → Answer) :
    ∃ n a t, Hands { r.arbiter with owner := none, depth := 0 } waits (heirs r.arbiter p) a t ∧
      ((attend waits words)^[n] (r.step (.call (.release p)))).Ends r.past r.past.length r.pending
        a ((p, .arbitration, .release) :: t) := by
  obtain ⟨sink, hsink⟩ := Option.isSome_iff_exists.mp (h.sound.owner p howner)
  have hleg : (⟨r.past.length, .release p, none, r.arbiter⟩ : Moment σ).leg =
      ⟨{ r.arbiter with owner := none, depth := 0 }, [.released p],
        .notifies ⟨p, .arbitration, sink, .release⟩ (.releasing p)⟩ := by
    show r.arbiter.release p = _
    unfold release
    rw [hsink, howner]
    dsimp only
    rw [if_pos rfl, if_pos (by rw [hdepth]; rfl)]
    rfl
  have hpassive : Event.release = .idle → waits p = false := nofun
  rw [Run.step]
  generalize hm : (⟨r.past.length, .release p, none, r.arbiter⟩ : Moment σ) = m at hleg ⊢
  have hnumber : m.number = r.past.length := by rw [← hm]
  obtain ⟨n, a, t, hands, ends⟩ := Run.exists_hands r.pending
    (a := { r.arbiter with owner := none, depth := 0 }) rfl (some p) waits words
    h.sound.registry.path (length_le_count h.sound.registry.nodup) (r.after m r.pending)
    (m := ⟨m.number, m.call, some (.releasing p, words (r.after m r.pending).past.length),
      { r.arbiter with owner := none, depth := 0 }⟩) rfl
  refine ⟨n + 1, a, t, hands, ?_⟩
  rw [Function.iterate_succ_apply, Run.attend_after hleg fun _ => hpassive, ← hnumber]
  exact ends.of_after hleg

/-- **The best of those that wait gets the transceiver.** It is the one with the smallest priority
value, and of equal values the one that was given later. -/
theorem succeeds_of_release (preemption : Bool) (moves : List (Move σ)) {p : Protocol}
    (howner : (Run.play preemption moves).arbiter.owner = some p)
    (hdepth : (Run.play preemption moves).arbiter.depth = 1) (waits : Protocol → Bool)
    (words : Nat → Answer) :
    ∃ n, Succeeds (Run.play preemption moves) p waits
      ((attend waits words)^[n] ((Run.play preemption moves).step (.call (.release p)))) := by
  have h := Run.reached_play preemption moves
  obtain ⟨n, a, t, hands, harbiter, hpending, ⟨newer, hpast, htold⟩, hover⟩ :=
    h.exists_ends_release howner hdepth waits words
  refine ⟨n, hover, hpending, fun q => mem_heirs_iff h.sound.registry,
    h.sound.registry.nodup.filter _, ?taken, ?left⟩ <;> rw [harbiter, hpast, List.drop_left, htold]
  case taken =>
    rintro ⟨q, hq, hwaits⟩
    cases hands with
    | none passive => cases hwaits.symm.trans (passive q hq)
    | @taken front back w split passive waiting =>
      refine ⟨front, w, back, split, ⟨by simp [split], waiting, ?_⟩, rfl, rfl⟩
      intro q' hq' hwaits' hne
      have hpairwise := split ▸ h.pairwise_heirs p
      rw [split] at hq'
      rcases List.mem_append.mp hq' with hfront | hback
      · cases hwaits'.symm.trans (passive q' hfront)
      · exact List.rel_of_pairwise_cons (List.pairwise_append.mp hpairwise).2.1
          ((List.mem_cons.mp hback).resolve_left hne)
  case left =>
    intro hnobody
    cases hands with
    | none passive => exact ⟨rfl, rfl⟩
    | @taken front back w split passive waiting =>
      cases waiting.symm.trans (hnobody w (by simp [split]))

/-- One protocol has the transceiver. Of three others, two have got the same priority value. -/
def inLine : List (Move Unit) :=
  [.call (.register .arbitration .ant 0 ()), .answer .success,
    .call (.register .arbitration .genFsk 2 ()), .answer .success,
    .call (.register .arbitration .ble 1 ()), .answer .success,
    .call (.register .arbitration .ieee802154 2 ()), .answer .success,
    .call (.acquire .ant false), .answer .success]

/-- All but the first one in the chain wait for it, and the one that was registered later gets it.
-/
theorem succeeds_of_release_inLine :
    (Run.play true inLine).arbiter.owner = some .ant ∧ (Run.play true inLine).arbiter.depth = 1 ∧
      (∃ n, Succeeds (Run.play true inLine) .ant (· != .ble)
        ((attend (· != .ble) fun _ => .fault)^[n]
          ((Run.play true inLine).step (.call (.release .ant))))) ∧
      ((attend (· != .ble) fun _ => .fault)^[5]
        ((Run.play true inLine).step (.call (.release .ant)))).arbiter.owner =
          some .ieee802154 :=
  ⟨rfl, rfl, succeeds_of_release true inLine rfl rfl _ _, by decide +kernel⟩

end SharedRadio.Arbiter
