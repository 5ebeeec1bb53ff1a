import SharedRadio.Proofs.Arbiter.Run
import SharedRadio.Proofs.Registry.Order

/-!
# One leg of a walk along the chain

Three kinds of operation walk along the priority chain: the idle transceiver is offered, an event is
broadcast, and the protocols are asked for how long they will be inactive. A release also offers the
transceiver, when the former owner has been told. What such an operation is to tell, and to whom, is
its `Errand`.

A leg of a walk sets out at the head of the chain, when it opens the walk, or behind the protocol
that was told last. `Strides` says all that it can do: tell the next protocol, arrive at the end of
the chain, or yield to an owner. What the sinks have answered to the walk so far goes into what it
remembers and what it comes to in the end. `strides_of_opens` and `strides_of_visited` say this of
the moments of a run; they open the code of the walks, and nothing after them does.
-/

namespace SharedRadio.Arbiter

variable {σ : Type}

/-! ## What a walk is for -/

/-- What a walk along the chain tells, and to whom. -/
structure Errand where
  /-- The slot of the sinks that are told. -/
  slot : Slot
  /-- What they are told. -/
  event : Event
  /-- A protocol that is not told. -/
  passOver : Option Protocol
  /-- The walk stops if somebody owns the transceiver. -/
  yields : Bool

/-- What an operation walks along the chain for, if it does so. -/
def Call.errand? : Call σ → Option Errand
  | .offer excluded => some ⟨.arbitration, .idle, excluded, true⟩
  | .release p => some ⟨.arbitration, .idle, some p, true⟩
  | .broadcast event => some ⟨.coexistence, event, none, false⟩
  | .inactivity current => some ⟨.arbitration, .inactivity, some current, false⟩
  | _ => none

/-- The protocol that a walk has told last, if it has begun. -/
def Waiting.visited? : Waiting σ → Option Protocol
  | .offering _ told _ | .broadcasting _ told _ | .asking _ told _ => some told
  | _ => none

/-- The answer to a walk. -/
def Cue.reply? : Cue σ → Option Answer
  | some (w, b) => if w.visited?.isSome then some b else none
  | none => none

/-- A moment opens the walk of its operation. A release opens one only if nobody owns the
transceiver, or when the former owner has been told. -/
def Moment.Opens (m : Moment σ) : Prop :=
  match m.call, m.cue with
  | .offer _, none | .broadcast _, none | .inactivity _, none => True
  | .release p, none => m.before.owner = none ∧ (m.before.sink? p).isSome
  | .release _, some (.releasing _, _) => True
  | _, _ => False

/-! ## What becomes of the answers -/

/-- The shortest of the durations that were answered. -/
def shortestOf (replies : List Answer) : Option UInt32 :=
  replies.foldl (fun shortest b => some (shorter shortest b.micros)) none

/-- Somebody answered with a fault. -/
def faultedOf (replies : List Answer) : Bool := replies.any fun b => !b.isSuccess

theorem shorter_shortestOf {shortest : Option UInt32} {replies : List Answer}
    (h : shortest = shortestOf replies) (b : Answer) :
    some (shorter shortest b.micros) = shortestOf (replies ++ [b]) := by
  rw [h, shortestOf, shortestOf, List.foldl_append]
  rfl

theorem or_faultedOf {faulted : Bool} {replies : List Answer} (h : faulted = faultedOf replies)
    (b : Answer) : (faulted || !b.isSuccess) = faultedOf (replies ++ [b]) := by
  simp [h, faultedOf]

/-- What an operation comes to when its walk ends after some answers. -/
def Call.outcome (c : Call σ) (replies : List Answer) : Result :=
  match c with
  | .inactivity _ => .inactivity (shortestOf replies)
  | _ => .settled (verdict (faultedOf replies))

/-- What an operation remembers accords with the answers to its walk so far. -/
def Waiting.Remembers (w : Waiting σ) (replies : List Answer) : Prop :=
  match w with
  | .offering _ _ faulted | .broadcasting _ _ faulted => faulted = faultedOf replies
  | .asking _ _ shortest => shortest = shortestOf replies
  | _ => replies = []

/-! ## One leg -/

/-- What a leg of a walk can do that sets out from somewhere in the chain, after some answers. -/
inductive Strides (a : Arbiter σ) (c : Call σ) (e : Errand) (start : Option Protocol)
    (replies : List Answer) : Leg σ → Prop
  /-- The next protocol is told. -/
  | visits {p : Protocol} {sink : σ} {w : Waiting σ} {records : List Record}
      (first : a.registry.firstSink? e.slot e.passOver start = some (p, sink))
      (visited : w.visited? = some p) (memory : w.Remembers replies) :
      Strides a c e start replies ⟨a, records, .notifies ⟨p, e.slot, sink, e.event⟩ w⟩
  /-- Nobody is left to be told. -/
  | arrives {records : List Record}
      (nobody : a.registry.firstSink? e.slot e.passOver start = none) :
      Strides a c e start replies ⟨a, records, .finished (c.outcome replies)⟩
  /-- Somebody owns the transceiver. -/
  | yields {records : List Record} (owned : a.owner ≠ none) (yields : e.yields = true) :
      Strides a c e start replies ⟨a, records, .finished (c.outcome replies)⟩

variable {a : Arbiter σ} {c : Call σ} {e : Errand} {start : Option Protocol}
  {replies : List Answer} {l : Leg σ}

theorem Strides.arbiter_eq (h : Strides a c e start replies l) : l.arbiter = a := by
  cases h <;> rfl

theorem firstSink?_none (r : Registry σ) (slot : Slot) (passOver : Option Protocol) :
    r.firstSink? slot passOver none = none := rfl

theorem strides_offerFrom {excluded : Option Protocol} {faulted : Bool} (records : List Record)
    (houtcome : c.outcome replies = .settled (verdict (faultedOf replies)))
    (hfaulted : faulted = faultedOf replies) :
    Strides a c ⟨.arbitration, .idle, excluded, true⟩ start replies
      (a.offerFrom records excluded start faulted) := by
  subst hfaulted
  unfold offerFrom finish
  rw [← houtcome]
  split
  · exact .arrives (firstSink?_none _ _ _)
  · next owner howner => exact .yields (by simp [howner]) rfl
  · split
    · next p sink first => exact .visits first rfl rfl
    · next nobody => exact .arrives nobody

theorem strides_broadcastFrom {event : Event} {faulted : Bool}
    (hfaulted : faulted = faultedOf replies) :
    Strides a (.broadcast event) ⟨.coexistence, event, none, false⟩ start replies
      (a.broadcastFrom event start faulted) := by
  subst hfaulted
  unfold broadcastFrom
  split
  · next p sink first => exact .visits first rfl rfl
  · next nobody => exact .arrives nobody

theorem strides_askFrom {current : Protocol} {shortest : Option UInt32}
    (hshortest : shortest = shortestOf replies) :
    Strides a (.inactivity current) ⟨.arbitration, .inactivity, some current, false⟩ start replies
      (a.askFrom current start shortest) := by
  subst hshortest
  unfold askFrom
  split
  · next p sink first => exact .visits first rfl rfl
  · next nobody => exact .arrives nobody

/-! ## The moments of a walk -/

variable {m : Moment σ}

/-- A moment that opens a walk sets out at the head of the chain. -/
theorem strides_of_opens (he : m.call.errand? = some e) (hopens : m.Opens)
    (hawaits : ∀ w b, m.cue = some (w, b) → m.call.Awaits w) :
    Strides m.before m.call e m.before.registry.head [] m.leg := by
  obtain ⟨number, c, k, a⟩ := m
  unfold Moment.Opens at hopens
  dsimp only at he hopens hawaits ⊢
  split at hopens
  · cases he
    exact strides_offerFrom [] rfl rfl
  · cases he
    exact strides_broadcastFrom rfl
  · cases he
    exact strides_askFrom rfl
  · next p =>
    cases he
    obtain ⟨howner, hsink⟩ := hopens
    obtain ⟨sink, hsink⟩ := Option.isSome_iff_exists.mp hsink
    have hleg : Moment.leg ⟨number, .release p, none, a⟩ =
        a.offerFrom [] (some p) a.registry.head false := by
      show a.release p = _
      simp only [release, hsink, howner]
    rw [hleg]
    exact strides_offerFrom [] rfl rfl
  · next p q b =>
    cases he
    obtain rfl : q = p := hawaits _ b rfl
    exact strides_offerFrom _ rfl rfl
  · cases hopens

/-- A moment that answers to a walk sets out behind the protocol that was told last. -/
theorem strides_of_visited (he : m.call.errand? = some e) {w : Waiting σ} {b : Answer}
    (hcue : m.cue = some (w, b)) (hawaits : m.call.Awaits w) {q : Protocol}
    (hvisited : w.visited? = some q) (hmemory : w.Remembers replies) :
    Strides m.before m.call e (m.before.registry.next? q) (replies ++ [b]) m.leg := by
  obtain ⟨number, c, k, a⟩ := m
  obtain rfl : k = some (w, b) := hcue
  dsimp only at he hawaits ⊢
  cases w with
  | offering excluded told faulted =>
    obtain rfl : told = q := Option.some.inj hvisited
    have hfaulted := or_faultedOf hmemory b
    cases c with
    | offer =>
      obtain rfl : excluded = _ := hawaits
      cases he
      exact strides_offerFrom [] rfl hfaulted
    | release =>
      obtain rfl : excluded = _ := hawaits
      cases he
      exact strides_offerFrom [] rfl hfaulted
    | _ => cases hawaits
  | broadcasting event told faulted =>
    obtain rfl : told = q := Option.some.inj hvisited
    have hfaulted := or_faultedOf hmemory b
    cases c with
    | broadcast =>
      obtain rfl : event = _ := hawaits
      cases he
      exact strides_broadcastFrom hfaulted
    | _ => cases hawaits
  | asking current told shortest =>
    obtain rfl : told = q := Option.some.inj hvisited
    have hshortest := shorter_shortestOf hmemory b
    cases c with
    | inactivity =>
      obtain rfl : current = _ := hawaits
      cases he
      exact strides_askFrom hshortest
    | _ => cases hawaits
  | _ => cases hvisited

/-- An operation that is to walk, but neither has begun to nor opens its walk now, begins: it is a
release. If it goes on after this moment, the former owner is told of the release. -/
theorem releases_of_not_opens (he : m.call.errand? = some e)
    (hawaits : ∀ w b, m.cue = some (w, b) → m.call.Awaits w ∧ w.visited? = none)
    (hopens : ¬ m.Opens) :
    ∃ p, m.call = .release p ∧ m.cue = none ∧ ∀ n w, m.leg.progress = .notifies n w →
      n.event = .release ∧ w = .releasing p := by
  obtain ⟨number, c, k, a⟩ := m
  dsimp only at he hawaits ⊢
  cases k with
  | some cue =>
    obtain ⟨w, b⟩ := cue
    obtain ⟨hwaits, hvisited⟩ := hawaits w b rfl
    cases w with
    | releasing p => cases c with
      | release => exact absurd trivial hopens
      | _ => cases hwaits
    | offering | broadcasting | asking => cases hvisited
    | registering | activating | displacing | aborting => cases c with
      | offer | release | broadcast | inactivity => exact nomatch hwaits
      | register | acquire | abort | setPreemption => cases he
  | none =>
    cases c with
    | release p =>
      refine ⟨p, rfl, rfl, fun n w hl => ?_⟩
      have hl : (a.release p).progress = .notifies n w := hl
      unfold release at hl
      split at hl
      · cases hl
      · next sink hsink =>
        split at hl
        · next howner => exact absurd ⟨howner, by rw [hsink]; rfl⟩ hopens
        · split at hl
          · split at hl
            · cases hl
              exact ⟨rfl, rfl⟩
            · cases hl
          · cases hl
    | offer | broadcast | inactivity => exact absurd trivial hopens
    | register | acquire | abort | setPreemption => cases he

end SharedRadio.Arbiter
