import SharedRadio.Arbiter.Operation
import SharedRadio.Proofs.Registry.Chain

/-!
# What one leg of an operation can do

Every operation of the arbiter is cut into legs, and there are sixteen ways for a leg to begin. What
a leg can do to the arbiter, and whom it can notify, falls into the few cases of `Deed`. An
invariant of the arbiter is proved against these cases; the code of the operations is opened in this
module only.

The cases are indexed by the operation that the leg belongs to, so that a leg that begins with an
answer is known for what it is. `Call.Awaits` says which operation can be waiting in which way, and
`deed_call` and `deed_resume` say that every leg of a waiting operation is one of the cases.
-/

namespace SharedRadio.Arbiter

variable {σ : Type}

/-! ## Notifications -/

/-- Who is notified at the end of a leg, in which slot, and of what. -/
def Progress.told? : Progress σ → Option (Protocol × Slot × Event)
  | .finished _ => none
  | .notifies n _ => some (n.protocol, n.slot, n.event)

@[simp] theorem Progress.told?_finished (result : Result) :
    (finished result : Progress σ).told? = none := rfl

@[simp] theorem Progress.told?_notifies (p : Protocol) (slot : Slot) (sink : σ) (event : Event)
    (w : Waiting σ) : (notifies ⟨p, slot, sink, event⟩ w).told? = some (p, slot, event) := rfl

/-- A leg ends with a notification of an event to a protocol's slot. -/
def Leg.Tells (l : Leg σ) (p : Protocol) (slot : Slot) (event : Event) : Prop :=
  l.progress.told? = some (p, slot, event)

instance (l : Leg σ) (p : Protocol) (slot : Slot) (event : Event) :
    Decidable (l.Tells p slot event) :=
  inferInstanceAs (Decidable (_ = _))

/-- An operation can be waiting in a certain way. -/
def Call.Awaits : Call σ → Waiting σ → Prop
  | .register _ p _ _, .registering q => q = p
  | .acquire p _, .activating q _ => q = p
  | .acquire p _, .displacing q _ _ _ => q = p
  | .release p, .releasing q => q = p
  | .release p, .offering excluded _ _ => excluded = some p
  | .abort, .aborting => True
  | .offer excluded, .offering excluded' _ _ => excluded' = excluded
  | .broadcast event, .broadcasting event' _ _ => event' = event
  | .inactivity current, .asking current' _ _ => current' = current
  | _, _ => False

/-! ## The cases -/

/-- What a leg answers for: nothing if it begins an operation, else the way in which the operation
was waiting, and the answer to its notification. -/
abbrev Cue (σ : Type) := Option (Waiting σ × Answer)

/-- A leg decides about a protocol that wants the transceiver and is told of it through `sink`: the
operation begins, or an owner that was told to make room has answered. -/
def Bids (a : Arbiter σ) (p : Protocol) (sink : σ) : Cue σ → Prop
  | none => a.sink? p = some sink
  | some (w, _) => ∃ told faulted, w = .displacing p sink told faulted

/-- A protocol for which the transceiver is wanted has a sink, if it had one while an owner was told
to make room. -/
theorem Bids.isSome {a : Arbiter σ} {p : Protocol} {sink : σ} {k : Cue σ} (h : Bids a p sink k)
    (hk : k ≠ none → (a.sink? p).isSome) : (a.sink? p).isSome := by
  cases k with
  | none => exact Option.isSome_iff_exists.mpr ⟨sink, h⟩
  | some => exact hk (by simp)

/-- The protocol that was told to make room and has answered. -/
def Cue.displaced? : Cue σ → Option Protocol
  | some (.displacing _ _ told _, _) => some told
  | _ => none

/-- What a leg of an operation does, if it begins at an arbiter with a cue. -/
inductive Deed (a : Arbiter σ) : Call σ → Cue σ → Leg σ → Prop where
  /-- A sink is put into an empty slot and told so. -/
  | enrols {slot p v sink records} (empty : a.registry.sink? p slot = none) :
      Deed a (.register slot p v sink) none
        ⟨{ a with registry := (a.registry.attach p v slot sink).2 }, records,
          .notifies ⟨p, slot, sink, .init⟩ (.registering p)⟩
  /-- A sink takes the place of another one. -/
  | replaces {slot p v sink records} (occupied : a.registry.sink? p slot ≠ none) :
      Deed a (.register slot p v sink) none
        ⟨{ a with registry := (a.registry.attach p v slot sink).2 }, records,
          .finished (.settled (.ok ()))⟩
  /-- A protocol becomes the owner and is told so. Another owner has to make room only if it was the
  last one told, or if it cannot be told. -/
  | seizes {p force k sink faulted records} (bids : Bids a p sink k) (new : a.owner ≠ some p)
      (former : ∀ q, a.owner = some q →
        k.displaced? = some q ∨ a.sink? q = none ∧ (k = none → a.mayDisplace p q force)) :
      Deed a (.acquire p force) k
        ⟨{ a with owner := some p, depth := 1 }, records,
          .notifies ⟨p, .arbitration, sink, .active⟩ (.activating p faulted)⟩
  /-- The owner is given one more level. -/
  | nests {p force k sink faulted records} (bids : Bids a p sink k) (owner : a.owner = some p) :
      Deed a (.acquire p force) k
        ⟨{ a with depth := a.depth + 1 }, records, .finished (.settled (verdict faulted))⟩
  /-- The owner is told to make room. -/
  | warns {p force k sink q ownerSink faulted records} (bids : Bids a p sink k)
      (owner : a.owner = some q) (other : q ≠ p) (present : a.sink? q = some ownerSink)
      (fresh : k.displaced? ≠ some q) (permitted : k = none → a.mayDisplace p q force) :
      Deed a (.acquire p force) k
        ⟨a, records,
          .notifies ⟨q, .arbitration, ownerSink, .abort⟩ (.displacing p sink q faulted)⟩
  /-- The owner is told to stop, from outside. -/
  | aborts {q ownerSink records} (owner : a.owner = some q) (present : a.sink? q = some ownerSink) :
      Deed a .abort none ⟨a, records, .notifies ⟨q, .arbitration, ownerSink, .abort⟩ .aborting⟩
  /-- Every ownership ends, from outside. -/
  | vacates {k result records} (reason : k = none → ∀ q, a.owner = some q → a.sink? q = none) :
      Deed a .abort k ⟨a.vacate, records, .finished (.settled result)⟩
  /-- The owner gives up its last level and is told so. -/
  | yields {p sink records} (owner : a.owner = some p) (last : a.depth - 1 = 0)
      (present : a.sink? p = some sink) :
      Deed a (.release p) none
        ⟨{ a with owner := none, depth := 0 }, records,
          .notifies ⟨p, .arbitration, sink, .release⟩ (.releasing p)⟩
  /-- The owner gives up one of several levels. -/
  | lowers {p records} (owner : a.owner = some p) (several : a.depth - 1 ≠ 0) :
      Deed a (.release p) none
        ⟨{ a with depth := a.depth - 1 }, records, .finished (.settled (.ok ()))⟩
  /-- A protocol is offered the idle transceiver. -/
  | offers {c k excluded p sink faulted records} (walks : c.Awaits (.offering excluded p faulted))
      (idle : a.owner = none) (included : excluded ≠ some p) (present : a.sink? p = some sink) :
      Deed a c k
        ⟨a, records, .notifies ⟨p, .arbitration, sink, .idle⟩ (.offering excluded p faulted)⟩
  /-- A protocol is told of an event from outside. -/
  | announces {event k p sink faulted records}
      (present : a.registry.sink? p .coexistence = some sink) :
      Deed a (.broadcast event) k
        ⟨a, records, .notifies ⟨p, .coexistence, sink, event⟩ (.broadcasting event p faulted)⟩
  /-- A protocol is asked for how long it will be inactive. -/
  | asks {current k p sink shortest records} (included : p ≠ current)
      (present : a.sink? p = some sink) :
      Deed a (.inactivity current) k
        ⟨a, records, .notifies ⟨p, .arbitration, sink, .inactivity⟩ (.asking current p shortest)⟩
  /-- Priorities are let displace the owner, or not. -/
  | permits {enabled records} :
      Deed a (.setPreemption enabled) none
        ⟨{ a with preemption := enabled }, records, .finished (.settled (.ok ()))⟩
  /-- The transceiver, or the surrender of it, is refused. -/
  | refuses {c fault records} (bid : (∃ p force, c = .acquire p force) ∨ ∃ p, c = .release p)
      (grounds : fault = .denied ∨ fault = .invalidParameter) :
      Deed a c none ⟨a, records, .finished (.settled (.error fault))⟩
  /-- The operation is over, with nothing left to do. -/
  | ends {c k result records}
      (acquired : ∀ p force, c = .acquire p force →
        ∃ faulted b, k = some (.activating p faulted, b))
      (released : ∀ p, c = .release p → k = none → a.owner = none) :
      Deed a c k ⟨a, records, .finished result⟩

/-! ## Every leg is one of the cases -/

/-- Making room is asked of an owner that can be told, and taken from one that cannot. -/
theorem deed_displace {a : Arbiter σ} {p q : Protocol} {force : Bool} {sink : σ} {k : Cue σ}
    (records : List Record) (faulted : Bool) (bids : Bids a p sink k) (owner : a.owner = some q)
    (other : q ≠ p) (fresh : k.displaced? ≠ some q)
    (permitted : k = none → a.mayDisplace p q force) :
    Deed a (.acquire p force) k (a.displace records p sink q faulted) := by
  unfold displace
  split
  · next ownerSink present => exact .warns bids owner other present fresh permitted
  · next absent =>
    refine .seizes bids (by simp [owner, other]) fun q' hq' => Or.inr ?_
    obtain rfl : q = q' := Option.some.inj (owner.symm.trans hq')
    exact ⟨absent, permitted⟩

theorem deed_acquire (a : Arbiter σ) (p : Protocol) (force : Bool) :
    Deed a (.acquire p force) none (a.acquire p force) := by
  unfold acquire
  split
  · exact .refuses (.inl ⟨p, force, rfl⟩) (.inr rfl)
  · next sink present =>
    split
    · next idle => exact .seizes present (by simp [idle]) (by simp [idle])
    · next q owner =>
      split
      · next same => exact .nests present (same ▸ owner)
      · next other =>
        split
        · next permitted =>
          exact deed_displace _ _ present owner other (by simp [Cue.displaced?]) fun _ => permitted
        · exact .refuses (.inl ⟨p, force, rfl⟩) (.inl rfl)

theorem deed_displaced (a : Arbiter σ) (p : Protocol) (force : Bool) (sink : σ) (told : Protocol)
    (faulted faulted' : Bool) (b : Answer) :
    Deed a (.acquire p force) (some (.displacing p sink told faulted, b))
      (a.displaced p sink told faulted') := by
  have bids : Bids a p sink (some (.displacing p sink told faulted, b)) := ⟨told, faulted, rfl⟩
  unfold displaced
  split
  · next idle => exact .seizes bids (by simp [idle]) (by simp [idle])
  · next q owner =>
    split
    · next same => exact .nests bids (same ▸ owner)
    · next other =>
      split
      · next same =>
        refine .seizes bids (by simp [owner, other]) fun q' hq' => Or.inl ?_
        obtain rfl : q = q' := Option.some.inj (owner.symm.trans hq')
        rw [same, Cue.displaced?]
      · next fresh =>
        exact deed_displace _ _ bids owner other (by simpa [Cue.displaced?] using Ne.symm fresh)
          (by simp)

theorem deed_offerFrom {a : Arbiter σ} {c : Call σ} {k : Cue σ} {excluded : Option Protocol}
    (records : List Record) (start : Option Protocol) (faulted : Bool)
    (walks : ∀ p f, c.Awaits (.offering excluded p f))
    (released : ∀ p, c = .release p → k = none → a.owner = none) :
    Deed a c k (a.offerFrom records excluded start faulted) := by
  have acquired : ∀ p force, c = .acquire p force → ∃ f b, k = some (.activating p f, b) := by
    rintro p force rfl
    exact (walks p true).elim
  unfold offerFrom
  split
  · exact .ends acquired released
  · exact .ends acquired released
  · next idle =>
    split
    · next p sink found =>
      obtain ⟨included, present⟩ := Registry.firstSink?_eq_some found
      exact .offers (walks p faulted) idle included present
    · exact .ends acquired released

theorem deed_broadcastFrom (a : Arbiter σ) (event : Event) (k : Cue σ) (start : Option Protocol)
    (faulted : Bool) : Deed a (.broadcast event) k (a.broadcastFrom event start faulted) := by
  unfold broadcastFrom
  split
  · next p sink found => exact .announces (Registry.firstSink?_eq_some found).2
  · exact .ends (by simp) (by simp)

theorem deed_askFrom (a : Arbiter σ) (current : Protocol) (k : Cue σ) (start : Option Protocol)
    (shortest : Option UInt32) :
    Deed a (.inactivity current) k (a.askFrom current start shortest) := by
  unfold askFrom
  split
  · next p sink found =>
    obtain ⟨included, present⟩ := Registry.firstSink?_eq_some found
    exact .asks (fun same => included (congrArg some same.symm)) present
  · exact .ends (by simp) (by simp)

theorem deed_register (a : Arbiter σ) (slot : Slot) (p : Protocol) (v : UInt8) (sink : σ) :
    Deed a (.register slot p v sink) none (a.register slot p v sink) := by
  unfold register
  by_cases h : a.registry.sink? p slot = none
  · have fresh : (a.registry.attach p v slot sink).1 = true := by rw [Registry.attach_fst, h]; rfl
    simp only [fresh, if_true]
    exact .enrols h
  · have stale : (a.registry.attach p v slot sink).1 = false := by
      rw [Registry.attach_fst]
      simpa [Option.isSome_iff_ne_none] using h
    simp only [stale]
    exact .replaces h

theorem deed_release (a : Arbiter σ) (p : Protocol) :
    Deed a (.release p) none (a.release p) := by
  unfold release
  split
  · exact .refuses (.inr ⟨p, rfl⟩) (.inr rfl)
  · next sink present =>
    split
    · next idle => exact deed_offerFrom _ _ _ (fun _ _ => rfl) fun _ _ _ => idle
    · next q owner =>
      split
      · next same =>
        subst same
        split
        · next last => exact .yields owner last present
        · next several => exact .lowers owner several
      · exact .refuses (.inr ⟨p, rfl⟩) (.inl rfl)

theorem deed_abort (a : Arbiter σ) : Deed a .abort none a.abort := by
  unfold abort
  split
  · next idle => exact .vacates (by simp [idle])
  · next q owner =>
    split
    · next ownerSink present => exact .aborts owner present
    · next absent =>
      refine .vacates fun _ q' hq' => ?_
      obtain rfl : q = q' := Option.some.inj (owner.symm.trans hq')
      exact absent

/-- The first leg of an operation. -/
theorem deed_call (a : Arbiter σ) (c : Call σ) : Deed a c none (a.call c) := by
  cases c with
  | register slot p v sink => exact deed_register a slot p v sink
  | acquire p force => exact deed_acquire a p force
  | release p => exact deed_release a p
  | abort => exact deed_abort a
  | offer excluded => exact deed_offerFrom _ _ _ (fun _ _ => rfl) (by simp)
  | broadcast event => exact deed_broadcastFrom a event _ _ _
  | inactivity current => exact deed_askFrom a current _ _ _
  | setPreemption enabled => exact .permits

/-- A later leg of an operation. -/
theorem deed_resume (a : Arbiter σ) {c : Call σ} {w : Waiting σ} (h : c.Awaits w) (b : Answer) :
    Deed a c (some (w, b)) (a.resume w b) := by
  cases w with
  | registering p => cases c with
    | register => exact .ends (by simp) (by simp)
    | _ => cases h
  | activating p faulted => cases c with
    | acquire => cases h; exact .ends (by simp) (by simp)
    | _ => cases h
  | displacing p sink told faulted => cases c with
    | acquire => cases h; exact deed_displaced a _ _ sink told faulted _ b
    | _ => cases h
  | releasing p => cases c with
    | release => cases h; exact deed_offerFrom _ _ _ (fun _ _ => rfl) (by simp)
    | _ => cases h
  | aborting => cases c with
    | abort => exact .vacates (by simp)
    | _ => cases h
  | offering excluded told faulted => cases c with
    | release => cases h; exact deed_offerFrom _ _ _ (fun _ _ => rfl) (by simp)
    | offer => cases h; exact deed_offerFrom _ _ _ (fun _ _ => rfl) (by simp)
    | _ => cases h
  | broadcasting event told faulted => cases c with
    | broadcast => cases h; exact deed_broadcastFrom a _ _ _ _
    | _ => cases h
  | asking current told shortest => cases c with
    | inactivity => cases h; exact deed_askFrom a _ _ _ _
    | _ => cases h

/-! ## What every leg keeps -/

namespace Deed

variable {a : Arbiter σ} {c : Call σ} {k : Cue σ} {l : Leg σ}

/-- The registry changes by an attachment, or not at all. -/
theorem registry_eq (h : Deed a c k l) :
    l.arbiter.registry = a.registry ∨
      ∃ p v slot sink, l.arbiter.registry = (a.registry.attach p v slot sink).2 := by
  cases h with
  | enrols | replaces => exact .inr ⟨_, _, _, _, rfl⟩
  | _ => exact .inl rfl

theorem sound (h : Deed a c k l) (ha : a.registry.Sound) : l.arbiter.registry.Sound := by
  rcases h.registry_eq with heq | ⟨p, v, slot, sink, heq⟩ <;> rw [heq]
  · exact ha
  · exact ha.attach p v slot sink

/-- No slot is emptied. -/
theorem sink?_isSome (h : Deed a c k l) {p : Protocol} {slot : Slot}
    (hp : (a.registry.sink? p slot).isSome) : (l.arbiter.registry.sink? p slot).isSome := by
  rcases h.registry_eq with heq | ⟨q, v, other, sink, heq⟩ <;> rw [heq]
  · exact hp
  · exact Registry.sink?_isSome_attach hp

/-- No priority value is changed. -/
theorem priority?_eq (h : Deed a c k l) {p : Protocol} {v : UInt8}
    (hp : a.registry.priority? p = some v) : l.arbiter.registry.priority? p = some v := by
  rcases h.registry_eq with heq | ⟨q, w, slot, sink, heq⟩ <;> rw [heq]
  · exact hp
  · exact Registry.priority?_attach_of_eq_some hp

/-- The owner changes to nobody, or to a protocol that wanted the transceiver. -/
theorem owner_eq (h : Deed a c k l) :
    l.arbiter.owner = a.owner ∨ l.arbiter.owner = none ∨
      ∃ p force sink, c = .acquire p force ∧ Bids a p sink k ∧ l.arbiter.owner = some p := by
  cases h with
  | seizes bids => exact .inr (.inr ⟨_, _, _, rfl, bids, rfl⟩)
  | vacates | yields => exact .inr (.inl rfl)
  | _ => exact .inl rfl

/-- An operation waits in a way that is its own. -/
theorem awaits (h : Deed a c k l) {n : Notification σ} {w : Waiting σ}
    (hl : l.progress = .notifies n w) : c.Awaits w := by
  cases h with
  | offers walks => cases hl; exact walks
  | aborts => cases hl; trivial
  | _ => cases hl <;> rfl

/-- An operation that takes the transceiver only waits for an answer if its protocol has a sink. -/
theorem bids (h : Deed a c k l) {p : Protocol} {force : Bool} (hc : c = .acquire p force)
    {n : Notification σ} {w : Waiting σ} (hl : l.progress = .notifies n w) :
    ∃ sink, Bids a p sink k := by
  subst hc
  cases h with
  | seizes bids | warns bids => exact ⟨_, bids⟩
  | offers walks => exact walks.elim
  | nests | refuses | ends => cases hl

end Deed

end SharedRadio.Arbiter
